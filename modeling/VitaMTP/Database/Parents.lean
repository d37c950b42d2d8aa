import VitaMTP.Database.Blocks

/-! Relations between an object and its parent that new objects have and no size changes. -/
namespace VitaMTP
open ParentFirst

/-- The same but for the size and the handle. -/
def CmaObject.Alike (o o' : CmaObject) : Prop :=
  ∃ size handle, o' = { o with metadata := { o.metadata with size := size, handle := handle } }

namespace CmaObject

theorem Alike.refl (o : CmaObject) : o.Alike o := ⟨o.metadata.size, o.metadata.handle, rfl⟩

theorem alike_addSize (o : CmaObject) (size : ULong) : o.Alike (o.addSize size) :=
  ⟨o.metadata.size + size, o.metadata.handle, rfl⟩

theorem alike_setHandle (o : CmaObject) (handle : BitVec 32) : o.Alike (o.setHandle handle) :=
  ⟨o.metadata.size, handle, rfl⟩

theorem Alike.symm {o o' : CmaObject} (h : o.Alike o') : o'.Alike o := by
  obtain ⟨size, handle, rfl⟩ := h
  exact ⟨o.metadata.size, o.metadata.handle, rfl⟩

theorem Alike.trans {o o' o'' : CmaObject} (h : o.Alike o') (h' : o'.Alike o'') : o.Alike o'' := by
  obtain ⟨size, handle, rfl⟩ := h
  obtain ⟨size', handle', rfl⟩ := h'
  exact ⟨size', handle', rfl⟩

theorem Alike.ohfi {o o' : CmaObject} (h : o.Alike o') : o'.ohfi = o.ohfi := by
  obtain ⟨size, handle, rfl⟩ := h
  rfl

theorem Alike.ohfiParent {o o' : CmaObject} (h : o.Alike o') : o'.ohfiParent = o.ohfiParent := by
  obtain ⟨size, handle, rfl⟩ := h
  rfl

end CmaObject

/-- A relation between parent and child that `addToDatabase` establishes. -/
structure Inherited (R : CmaObject → CmaObject → Prop) : Prop where
  new : ∀ ohfi root name size type, R root (newObject ohfi root name size type)
  alike : ∀ {root root' x x'}, R root x → root.Alike root' → x.Alike x' → R root' x'

/-- Every object of the database is related to its parent. -/
def Database.Related (R : CmaObject → CmaObject → Prop) (db : Database) : Prop :=
  ∀ c, ∀ x ∈ db.objects c, ∀ root ∈ db.lists c, root.ohfi = x.ohfiParent → R root x

section related

variable {R : CmaObject → CmaObject → Prop} {paths : CmaPaths} {uuid : CString} {db : Database}
  {c : Category}

namespace Inherited

/-- The objects of a scanned block are related to each other and to the directory. -/
theorem scanned (hR : Inherited R) {last : CmaObject} {count : ℤ} {os : List CmaObject}
    {total : ULong} (hs : Scanned last count os total) :
    ∀ o ∈ os, ∃ root ∈ last :: os, root.ohfi = o.ohfiParent ∧ R root o := by
  induction hs with
  | nil => simp
  | @cons last current count name statbuf s t inside others hcurrent _ _ _ hin hout =>
    subst hcurrent
    intro o ho
    simp only [List.mem_cons, List.mem_append] at ho
    rcases ho with rfl | ho | ho
    · exact ⟨last, by simp, rfl,
        hR.alike (hR.new ..) (.refl _) (CmaObject.alike_addSize _ _)⟩
    · obtain ⟨root, hroot, hp, hr⟩ := hin o ho
      rcases List.mem_cons.mp hroot with rfl | hroot
      · exact ⟨_, List.mem_cons_of_mem _ (List.mem_cons_self ..), hp,
          hR.alike hr (CmaObject.alike_addSize _ _) (.refl _)⟩
      · exact ⟨root, by simp [hroot], hp, hr⟩
    · obtain ⟨root, hroot, hp, hr⟩ := hout o ho
      rcases List.mem_cons.mp hroot with rfl | hroot
      · exact ⟨root, by simp, hp, hr⟩
      · exact ⟨root, by simp [hroot], hp, hr⟩

end Inherited

namespace WellFormed

theorem related_rewrite (h : WellFormed paths uuid db) (hr : db.Related R) (c : Category)
    {g : CmaObject → CmaObject}
    (hids : ∀ y ∈ db.lists c, (g y).ohfi = y.ohfi ∧ (g y).ohfiParent = y.ohfiParent)
    (hg : ∀ x ∈ db.objects c, ∀ root ∈ db.lists c, root.ohfi = x.ohfiParent → R root x →
      R (g root) (g x)) :
    (db.setList c ((db.lists c).map g)).Related R := by
  obtain ⟨m, hm, -⟩ := h.master c
  intro d x hx root hroot hp
  by_cases hd : d = c
  · subst hd
    rw [Database.objects, Database.setList_lists_self, hm, List.map_cons, List.tail_cons] at hx
    rw [Database.setList_lists_self] at hroot
    obtain ⟨x, hmem, rfl⟩ := List.mem_map.mp hx
    obtain ⟨root, hrootmem, rfl⟩ := List.mem_map.mp hroot
    rw [(hids root hrootmem).1, (hids x (mem_of_objects hmem)).2] at hp
    exact hg x hmem root hrootmem hp (hr d x hmem root hrootmem hp)
  · rw [Database.objects, Database.setList_lists_of_ne _ _ hd] at hx
    rw [Database.setList_lists_of_ne _ _ hd] at hroot
    exact hr d x hx root hroot hp

/-- Rewriting sizes and handles in place. -/
theorem related_map (h : WellFormed paths uuid db) (hr : db.Related R) (hR : Inherited R)
    (c : Category) {g : CmaObject → CmaObject} (hg : ∀ o : CmaObject, o.Alike (g o)) :
    (db.setList c ((db.lists c).map g)).Related R :=
  h.related_rewrite hr c (fun y _ => ⟨(hg y).ohfi, (hg y).ohfiParent⟩)
    fun x _ root _ _ hrx => hR.alike hrx (hg root) (hg x)

theorem related_modify (h : WellFormed paths uuid db) (hr : db.Related R) (hR : Inherited R)
    (c : Category) (ohfi : ℤ) {f : CmaObject → CmaObject} (hf : ∀ o : CmaObject, o.Alike (f o)) :
    (db.modify c ohfi f).Related R := by
  refine h.related_map hr hR c fun o => ?_
  split
  · exact hf o
  · exact .refl o

theorem related_without (h : WellFormed paths uuid db) (hr : db.Related R) {x : CmaObject}
    (hx : x ∈ db.objects c) :
    (db.setList c (withoutNodes x.ohfi (db.lists c))).Related R := by
  have hsub : (withoutNodes x.ohfi (db.lists c)).Sublist (db.lists c) := without_sublist _ _
  have h' := h.without hx
  intro d y hy root hroot hp
  by_cases hd : d = c
  · subst hd
    have hyl := mem_of_objects hy
    rw [Database.setList_lists_self] at hroot hyl
    refine hr d y ?_ root (hsub.subset hroot) hp
    rcases h.mem_lists.mp (hsub.subset hyl) with ⟨hm, -⟩ | hobj
    · exact absurd hm.ohfi (h'.ohfi_ne_master hy)
    · exact hobj
  · rw [Database.objects, Database.setList_lists_of_ne _ _ hd] at hy
    rw [Database.setList_lists_of_ne _ _ hd] at hroot
    exact hr d y hy root hroot hp

/-- Appending objects that are related to their parents. -/
theorem related_append (h : WellFormed paths uuid db) (hr : db.Related R) {os : List CmaObject}
    (hos : Numbered db.ohfiCount os)
    (hnew : ∀ o ∈ os, ∃ root ∈ db.lists c ++ os, root.ohfi = o.ohfiParent ∧ R root o) :
    (db.append c os).Related R := by
  obtain ⟨m, hm, -⟩ := h.master c
  have hn : ((db.lists c ++ os).map CmaObject.ohfi).Nodup := by
    rw [List.map_append, List.nodup_append']
    refine ⟨h.ohfi_nodup c, hos.nodup, fun i hi hi' => ?_⟩
    obtain ⟨x, hx, rfl⟩ := List.mem_map.mp hi
    obtain ⟨y, hy, he⟩ := List.mem_map.mp hi'
    have h₁ := h.counted_list c x hx
    have h₂ := (hos.bounds y hy).1
    omega
  intro d x hx root hroot hp
  by_cases hd : d = c
  · subst hd
    have hlists : (db.append d os).lists d = m :: (db.objects d ++ os) := by
      rw [Database.append_lists_self, hm]
      rfl
    rw [Database.objects, hlists, List.tail_cons, List.mem_append] at hx
    rw [Database.append_lists_self] at hroot
    rcases hx with hx | hx
    · obtain ⟨z, hz, hzp⟩ := h.exists_parent hx
      obtain rfl := List.inj_on_of_nodup_map hn hroot (List.mem_append_left _ hz)
        (hp.trans hzp.symm)
      exact hr d x hx root hz hp
    · obtain ⟨z, hz, hzp, hrz⟩ := hnew x hx
      obtain rfl := List.inj_on_of_nodup_map hn hroot hz (hp.trans hzp.symm)
      exact hrz
  · rw [Database.objects, Database.append,
      show (Database.lists { db.setList c (db.lists c ++ os) with
        ohfiCount := db.ohfiCount + os.length } d) = db.lists d by simp [hd]] at hx
    rw [show (db.append c os).lists d = db.lists d by simp [Database.append, hd]] at hroot
    exact hr d x hx root hroot hp

theorem related_addToDatabase (h : WellFormed paths uuid db) (hr : db.Related R)
    (hR : Inherited R) {root : CmaObject} (hroot : root ∈ db.lists c) (name : CString)
    (size : ULong) (type : Mask) :
    (VitaMTP.addToDatabase db c root name size type).1.Related R := by
  rw [addToDatabase_eq]
  refine h.related_append hr ⟨rfl, trivial⟩ fun o ho => ?_
  obtain rfl := List.mem_singleton.mp ho
  exact ⟨root, List.mem_append_left _ hroot, rfl, hR.new ..⟩

theorem related_sizeAdded (h : WellFormed paths uuid db) (hr : db.Related R) (hR : Inherited R)
    (c : Category) (ohfi : ℤ) (size : ULong) :
    (db.setList c (sizeAdded ohfi size (db.lists c))).Related R := by
  refine h.related_map hr hR c fun o => ?_
  split
  · exact o.alike_addSize size
  · exact .refl o

theorem related_grown (h : WellFormed paths uuid db) (hr : db.Related R) (hR : Inherited R)
    {root : CmaObject} (hroot : root ∈ db.lists c) {os : List CmaObject} {count : ℤ}
    (hos : NewBlock db.ohfiCount root.ohfi os) (bytes : ULong)
    (hnew : ∀ o ∈ os, ∃ p ∈ root :: os, p.ohfi = o.ohfiParent ∧ R p o) :
    (db.grown c root.ohfi bytes os count).Related R := by
  have hsize := h.sizeAdded_wellFormed c root.ohfi bytes
  have happend :
      ((db.setList c (sizeAdded root.ohfi bytes (db.lists c))).append c os).Related R := by
    refine hsize.related_append (h.related_sizeAdded hr hR c root.ohfi bytes) hos.numbered
      fun o ho => ?_
    obtain ⟨p, hp, hpar, hrp⟩ := hnew o ho
    rcases List.mem_cons.mp hp with rfl | hp
    · refine ⟨p.addSize bytes, List.mem_append_left _ ?_, hpar,
        hR.alike hrp (p.alike_addSize bytes) (.refl _)⟩
      rw [Database.setList_lists_self, sizeAdded]
      exact List.mem_map.mpr ⟨p, hroot, if_pos .refl⟩
    · exact ⟨p, List.mem_append_right _ hp, hpar, hrp⟩
  have hlists : (db.grown c root.ohfi bytes os count).lists =
      ((db.setList c (sizeAdded root.ohfi bytes (db.lists c))).append c os).lists := by
    simp [Database.grown, Database.append, Database.setList]
  unfold Database.Related Database.objects at happend ⊢
  rw [hlists]
  exact happend

theorem related_createDatabase (hR : Inherited R) {view : DirView} {n : ℕ}
    (hdb : VitaMTP.createDatabase view n paths uuid = some db) : db.Related R := by
  refine (createDatabase_induction hdb ?_ fun db₀ c m b h hr hm _ hb => ?_).2
  · intro c x hx
    rw [initDatabase_eq] at hx
    simp [Database.objects] at hx
  · have hs := entriesBelow_scanned hb
    have hseen : [m.ohfi] ⊆ (db₀.lists c).map CmaObject.ohfi := by
      simpa using ⟨m, hm, rfl⟩
    have happend := h.append hs.numbered hs.newObjects hs.rooted hseen
    refine happend.related_modify (h.related_append hr hs.numbered fun o ho => ?_) hR c m.ohfi
      fun o => o.alike_addSize b.2
    obtain ⟨root, hroot, hp, hro⟩ := hR.scanned hs o ho
    rcases List.mem_cons.mp hroot with rfl | hroot
    · exact ⟨root, List.mem_append_left _ hm, hp, hro⟩
    · exact ⟨root, List.mem_append_right _ hroot, hp, hro⟩

end WellFormed

end related

end VitaMTP
