import VitaMTP.Database.Sizes

/-! Blocks of new objects below one object, and databases that take them in. -/
namespace VitaMTP
open ParentFirst

/-- New objects that hang together below the id `root`. -/
structure NewBlock (count root : ℤ) (os : List CmaObject) : Prop where
  numbered : Numbered count os
  fresh : ∀ o ∈ os, o.filters = [] ∧ o.Named
  rooted : Rooted CmaObject.ohfi CmaObject.ohfiParent [root] os

namespace NewBlock

variable {count root : ℤ} {os os' : List CmaObject}

theorem nil (count root : ℤ) : NewBlock count root [] := ⟨trivial, by simp, trivial⟩

theorem append (h : NewBlock count root os) (h' : NewBlock (count + os.length) root os') :
    NewBlock count root (os ++ os') := by
  refine ⟨Numbered.append.mpr ⟨h.numbered, h'.numbered⟩, fun o ho => ?_,
    Rooted.append.mpr ⟨h.rooted, h'.rooted.mono (by simp)⟩⟩
  exact (List.mem_append.mp ho).elim (h.fresh o) (h'.fresh o)

theorem cons {o : CmaObject} (hid : o.ohfi = count) (hparent : o.ohfiParent = root)
    (hfresh : o.filters = [] ∧ o.Named) (h : NewBlock (count + 1) count os) :
    NewBlock count root (o :: os) := by
  refine ⟨⟨hid, h.numbered⟩, fun x hx => ?_, by simp [hparent], ?_⟩
  · rcases List.mem_cons.mp hx with rfl | hx
    · exact hfresh
    · exact h.fresh x hx
  · exact h.rooted.mono (by simp [hid])

end NewBlock

/-- The list after `bytes` were added to `root` and what is above it, and `os` at its end. -/
noncomputable def Database.grown (db : Database) (c : Category) (root : ℤ) (bytes : ULong)
    (os : List CmaObject) (count : ℤ) : Database :=
  { db.setList c (sizeAdded root bytes (db.lists c) ++ os) with ohfiCount := count }

namespace Database

variable {db : Database} {c : Category} {root count : ℤ} {bytes : ULong} {os : List CmaObject}

@[simp] theorem grown_lists_self :
    (db.grown c root bytes os count).lists c = sizeAdded root bytes (db.lists c) ++ os := by
  simp [grown]

@[simp] theorem grown_lists_of_ne {d : Category} (hd : d ≠ c) :
    (db.grown c root bytes os count).lists d = db.lists d := by
  simp [grown, hd]

@[simp] theorem grown_ohfiCount : (db.grown c root bytes os count).ohfiCount = count := rfl

theorem grown_zero (db : Database) (c : Category) (root : ℤ) :
    db.grown c root 0 [] db.ohfiCount = db := by
  rw [grown, sizeAdded_zero, List.append_nil]
  simp

theorem sizeAdded_eq_grown (db : Database) (c : Category) (root : ℤ) (bytes : ULong) :
    db.setList c (sizeAdded root bytes (db.lists c)) = db.grown c root bytes [] db.ohfiCount := by
  rw [grown, List.append_nil]
  rfl

theorem append_eq_grown (db : Database) (c : Category) (root : ℤ) (os : List CmaObject) :
    db.append c os = db.grown c root 0 os (db.ohfiCount + os.length) := by
  rw [grown, sizeAdded_zero]
  rfl

end Database

namespace WellFormed

variable {paths : CmaPaths} {uuid : CString} {db : Database} {c : Category} {root : CmaObject}
  {os os' : List CmaObject} {count count' : ℤ}

theorem withCount (h : WellFormed paths uuid db) (hcount : db.ohfiCount ≤ count) :
    WellFormed paths uuid { db with ohfiCount := count } := by
  refine ⟨h.counted.trans hcount, h.master, fun c o ho => ?_, h.rooted, h.distinct, h.disjoint⟩
  have hobj := h.objects c o ho
  exact ⟨hobj.first, lt_of_lt_of_le hobj.counted hcount, hobj.filters, hobj.named⟩

theorem grown (h : WellFormed paths uuid db) (hroot : root ∈ db.lists c)
    (hos : NewBlock db.ohfiCount root.ohfi os) (hcount : db.ohfiCount + os.length ≤ count)
    (bytes : ULong) : WellFormed paths uuid (db.grown c root.ohfi bytes os count) := by
  have hsize := h.sizeAdded_wellFormed c root.ohfi bytes
  have hmem : [root.ohfi] ⊆
      ((db.setList c (sizeAdded root.ohfi bytes (db.lists c))).lists c).map CmaObject.ohfi := by
    rw [Database.setList_lists_self, sizeAdded_keys]
    simpa using ⟨root, hroot, rfl⟩
  have happend := hsize.append hos.numbered hos.fresh hos.rooted hmem
  have heq : db.grown c root.ohfi bytes os count =
      { (db.setList c (sizeAdded root.ohfi bytes (db.lists c))).append c os with
        ohfiCount := count } := by
    simp [Database.grown, Database.append, Database.setList]
  rw [heq]
  exact happend.withCount hcount

theorem mem_grown (h : WellFormed paths uuid db) {o : CmaObject} (ho : o ∈ os) (c : Category)
    (root : ℤ) (bytes : ULong) (count : ℤ) : o ∈ (db.grown c root bytes os count).objects c := by
  obtain ⟨m, hm, -⟩ := h.master c
  rw [Database.objects, Database.grown_lists_self, hm, sizeAdded, List.map_cons]
  exact List.mem_append_right _ ho

/-- The object that takes a block in. -/
theorem mem_objects_grown (h : WellFormed paths uuid db) (hroot : root ∈ db.objects c)
    (bytes : ULong) (os : List CmaObject) (count : ℤ) :
    root.addSize bytes ∈ (db.grown c root.ohfi bytes os count).objects c := by
  obtain ⟨m, hm, -⟩ := h.master c
  rw [Database.objects, Database.grown_lists_self, hm, sizeAdded, List.map_cons]
  refine List.mem_append_left _ (List.mem_map.mpr ⟨root, hroot, if_pos .refl⟩)

theorem grown_grown (h : WellFormed paths uuid db) (hroot : root ∈ db.lists c)
    (hos : NewBlock db.ohfiCount root.ohfi os) (hcount : db.ohfiCount + os.length ≤ count)
    (a b : ULong) (os' : List CmaObject) (count' : ℤ) :
    (db.grown c root.ohfi a os count).grown c root.ohfi b os' count' =
      db.grown c root.ohfi (a + b) (os ++ os') count' := by
  have ho := (h.grown hroot hos hcount a).ordered c
  have hmem : root.ohfi ∈ (sizeAdded root.ohfi a (db.lists c)).map CmaObject.ohfi := by
    rw [sizeAdded_keys]
    exact List.mem_map_of_mem hroot
  rw [Database.grown_lists_self] at ho
  rw [Database.grown, Database.grown_lists_self, sizeAdded_append ho hmem, sizeAdded_sizeAdded,
    Database.grown]
  simp [Database.grown, Database.setList]

/-- Only the id of the start matters. -/
theorem removeFromDatabase_congr {start start' : CmaObject} (h : start.ohfi = start'.ohfi)
    (ohfi : ℤ) : removeFromDatabase db ohfi (some (c, start)) =
      removeFromDatabase db ohfi (some (c, start')) := by
  simp only [removeFromDatabase, Option.bind_eq_bind, Option.bind_some, h]

/-- What goes into a new object also counts for its parent. -/
theorem grown_inside (h : WellFormed paths uuid db) (hroot : root ∈ db.lists c) {o : CmaObject}
    (ho : NewBlock db.ohfiCount root.ohfi [o]) (hparent : o.ohfiParent = root.ohfi)
    (hcount : db.ohfiCount + 1 ≤ count) (bytes : ULong) (os : List CmaObject) (count' : ℤ) :
    (db.grown c root.ohfi 0 [o] count).grown c o.ohfi bytes os count' =
      db.grown c root.ohfi bytes (o.addSize bytes :: os) count' := by
  have hord := (h.grown hroot ho hcount 0).ordered c
  have hmem : o.ohfiParent ∈ (db.lists c).map CmaObject.ohfi := by
    rw [hparent]
    exact List.mem_map_of_mem hroot
  rw [Database.grown_lists_self, sizeAdded_zero] at hord
  rw [Database.grown, Database.grown_lists_self, sizeAdded_zero, sizeAdded_concat hord hmem,
    hparent, Database.grown]
  simp [Database.grown, Database.setList]

/-- Taking a new object out leaves the bytes behind. -/
theorem grown_discard (h : WellFormed paths uuid db) (hroot : root ∈ db.lists c) {o : CmaObject}
    (hparent : o.ohfiParent = root.ohfi) (hos : NewBlock db.ohfiCount root.ohfi (o :: os))
    (hbelow : Rooted CmaObject.ohfi CmaObject.ohfiParent [o.ohfi] os)
    (hcount : db.ohfiCount + (o :: os).length ≤ count) (bytes : ULong) {start : CmaObject}
    (hstart : start.ohfi = root.ohfi) :
    removeFromDatabase (db.grown c root.ohfi bytes (o :: os) count) o.ohfi (some (c, start)) =
      some (db.grown c root.ohfi bytes [] count) := by
  have h' := h.grown hroot hos hcount bytes
  have hord := h'.ordered c
  have hid : o.ohfi = db.ohfiCount := hos.numbered.1
  have hmem : root.ohfi ∈ ((db.grown c root.ohfi bytes (o :: os) count).lists c).map
      CmaObject.ohfi := by
    rw [Database.grown_lists_self, List.map_append, sizeAdded_keys]
    exact List.mem_append_left _ (List.mem_map_of_mem hroot)
  obtain ⟨start', hstart', he⟩ := List.mem_map.mp hmem
  have ho : o ∈ (db.grown c root.ohfi bytes (o :: os) count).objects c := by
    rcases h'.mem_lists.mp (by simp : o ∈ (db.grown c root.ohfi bytes (o :: os) count).lists c) with
      ⟨hm, -⟩ | ho
    · have h₁ := c.ohfi_lt_first
      have h₂ := h.counted
      rw [hm.ohfi] at hid
      omega
    · exact ho
  rw [removeFromDatabase_congr (hstart.trans he.symm),
    h'.removeFromDatabase_eq ho hstart' (Or.inl (he.trans hparent.symm))]
  rw [Database.grown_lists_self] at hord ⊢
  rw [withoutNodes, without_block hord hbelow]
  simp [Database.grown, Database.setList]

/-- The scan of a category is the growth of the category. -/
theorem scan_grown (h : WellFormed paths uuid db) (hm : root ∈ db.lists c)
    (hmaster : IsMaster paths uuid c root) (hos : Numbered db.ohfiCount os) (total : ULong) :
    (db.append c os).modify c root.ohfi (CmaObject.addSize total) =
      db.grown c root.ohfi total os (db.ohfiCount + os.length) := by
  have hold : (db.lists c).map (fun o => if o.ohfi = root.ohfi then o.addSize total else o) =
      sizeAdded root.ohfi total (db.lists c) := by
    refine List.map_congr_left fun o ho => ?_
    have hiff : o.ohfi = root.ohfi ↔ NodesBelow (db.lists c) o.ohfi root.ohfi := by
      rw [h.below_master_iff ho hm hmaster]
      exact ⟨fun he => (h.ordered c).inj ho hm he, fun he => he ▸ rfl⟩
    classical
    exact if_congr hiff rfl rfl
  have hnew : os.map (fun o => if o.ohfi = root.ohfi then o.addSize total else o) = os := by
    conv_rhs => rw [← List.map_id os]
    refine List.map_congr_left fun o ho => if_neg fun he => ?_
    have h₁ := (hos.bounds o ho).1
    have h₂ := h.counted_list c root hm
    omega
  rw [Database.modify, Database.append_lists_self, List.map_append, hold, hnew]
  simp [Database.grown, Database.append, Database.setList]

end WellFormed

section objects

variable {P : Category → CmaObject → Prop} {db : Database} {c : Category} {os : List CmaObject}

theorem forall_grown (hsize : ∀ c o size, P c o → P c (o.addSize size))
    (h : ∀ c, ∀ o ∈ db.lists c, P c o) (hos : ∀ o ∈ os, P c o) (root : ℤ) (bytes : ULong)
    (count : ℤ) : ∀ d, ∀ o ∈ (db.grown c root bytes os count).lists d, P d o := by
  intro d o ho
  by_cases hd : d = c
  · subst hd
    rw [Database.grown_lists_self, List.mem_append] at ho
    rcases ho with ho | ho
    · obtain ⟨x, hx, rfl⟩ := List.mem_map.mp ho
      split
      · exact hsize d x bytes (h d x hx)
      · exact h d x hx
    · exact hos o ho
  · rw [Database.grown_lists_of_ne hd] at ho
    exact h d o ho

theorem forall_without (h : ∀ c, ∀ o ∈ db.lists c, P c o) (c : Category) (ohfi : ℤ) :
    ∀ d, ∀ o ∈ (db.setList c (withoutNodes ohfi (db.lists c))).lists d, P d o := by
  intro d o ho
  by_cases hd : d = c
  · subst hd
    rw [Database.setList_lists_self] at ho
    exact h d o (mem_without.mp ho).1
  · rw [Database.setList_lists_of_ne _ _ hd] at ho
    exact h d o ho

end objects

section grown

variable {paths : CmaPaths} {uuid : CString} {db : Database} {c : Category} {root x y : CmaObject}
  {bytes : ULong} {os : List CmaObject} {count : ℤ}

theorem mem_grown_cases (hy : y ∈ (db.grown c root.ohfi bytes os count).lists c) :
    y ∈ os ∨ ∃ x ∈ db.lists c, y.ohfi = x.ohfi ∧ y.metadata.path = x.metadata.path := by
  rw [Database.grown_lists_self, sizeAdded, List.mem_append, List.mem_map] at hy
  rcases hy with ⟨x, hx, rfl⟩ | hy
  · refine Or.inr ⟨x, hx, ?_⟩
    split <;> exact ⟨rfl, rfl⟩
  · exact Or.inl hy

/-- An object stays, larger if it is above the block. -/
theorem mem_grown_of_mem (root : CmaObject) (bytes : ULong) (os : List CmaObject) (count : ℤ)
    (hx : x ∈ db.lists c) :
    ∃ y ∈ (db.grown c root.ohfi bytes os count).lists c, y.ohfi = x.ohfi ∧
      y.metadata.path = x.metadata.path ∧
      (y = x ∨ NodesBelow (db.lists c) x.ohfi root.ohfi ∧ y = x.addSize bytes) := by
  rw [Database.grown_lists_self, sizeAdded]
  by_cases hb : NodesBelow (db.lists c) x.ohfi root.ohfi
  · exact ⟨x.addSize bytes, List.mem_append_left _ (List.mem_map.mpr ⟨x, hx, if_pos hb⟩), rfl, rfl,
      Or.inr ⟨hb, rfl⟩⟩
  · exact ⟨x, List.mem_append_left _ (List.mem_map.mpr ⟨x, hx, if_neg hb⟩), rfl, rfl, Or.inl rfl⟩

theorem grown_below_new (hos : NewBlock db.ohfiCount root.ohfi os) (hy : y ∈ os) :
    NodesBelow ((db.grown c root.ohfi bytes os count).lists c) root.ohfi y.ohfi := by
  rw [Database.grown_lists_self]
  exact (hos.rooted.below y hy).mono (List.subset_append_right _ _)

theorem grown_below_old (h : WellFormed paths uuid (db.grown c root.ohfi bytes os count))
    (hx : x ∈ db.lists c) :
    NodesBelow ((db.grown c root.ohfi bytes os count).lists c) root.ohfi x.ohfi ↔
      NodesBelow (db.lists c) root.ohfi x.ohfi := by
  have hord := h.ordered c
  have hmem : x.ohfi ∈ (sizeAdded root.ohfi bytes (db.lists c)).map CmaObject.ohfi := by
    rw [sizeAdded_keys]
    exact List.mem_map_of_mem hx
  rw [Database.grown_lists_self] at hord ⊢
  exact (hord.below_append hmem).trans (Below.congr (sizeAdded_ids root.ohfi bytes (db.lists c)))

end grown

end VitaMTP
