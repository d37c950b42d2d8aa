import VitaMTP.Database.Reachable

/-! The climb of `incrementSizeMetadata` in any database whose ids and parents are in order. -/
namespace VitaMTP
open ParentFirst

private theorem eq_of_nodup_flatMap {α β : Type*} {f : α → List β} {l : List α} {x y : α} {i : β}
    (h : (l.flatMap f).Nodup) (hx : x ∈ l) (hy : y ∈ l) (hix : i ∈ f x) (hiy : i ∈ f y) :
    x = y := by
  induction l with
  | nil => simp at hx
  | cons a l ih =>
    rw [List.flatMap_cons, List.nodup_append'] at h
    obtain ⟨-, hl, hdisjoint⟩ := h
    rcases List.mem_cons.mp hx with rfl | hxl
    · rcases List.mem_cons.mp hy with rfl | hyl
      · rfl
      · exact absurd (List.mem_flatMap.mpr ⟨y, hyl, hiy⟩) (hdisjoint hix)
    · rcases List.mem_cons.mp hy with rfl | hyl
      · exact absurd (List.mem_flatMap.mpr ⟨x, hxl, hix⟩) (hdisjoint hiy)
      · exact ih hl hxl hyl

/-- Ids are unique and positive, a category's own object has no parent, and that of any other
object stands in front of it. -/
structure Database.ParentBeforeChild (db : Database) : Prop where
  unique : db.ids.Nodup
  positive : ∀ i ∈ db.ids, 0 < i
  category : ∀ {c : Category} {m : CmaObject} {l : List CmaObject}, db.lists c = m :: l →
    m.ohfiParent ≤ 0
  object : ∀ {c : Category} {p q : List CmaObject} {x : CmaObject}, db.lists c = p ++ x :: q →
    p ≠ [] → ∃ z ∈ p, z.ohfi = x.ohfiParent

namespace Database.ParentBeforeChild

variable {db : Database}

theorem ohfi_pos (h : db.ParentBeforeChild) {c : Category} {x : CmaObject}
    (hx : x ∈ db.lists c) : 0 < x.ohfi :=
  h.positive x.ohfi (Database.mem_ids.mpr ⟨c, x, hx, List.mem_cons_self ..⟩)

theorem ids_inj (h : db.ParentBeforeChild) {c d : Category} {x y : CmaObject} {i : ℤ}
    (hx : x ∈ db.lists c) (hy : y ∈ db.lists d) (hix : i ∈ x.ids) (hiy : i ∈ y.ids) :
    c = d ∧ x = y := by
  have hcategory : c = d :=
    eq_of_nodup_flatMap h.unique (Category.mem_all c) (Category.mem_all d)
      (List.mem_flatMap.mpr ⟨x, hx, hix⟩) (List.mem_flatMap.mpr ⟨y, hy, hiy⟩)
  subst hcategory
  have hlist := (List.nodup_flatMap.mp h.unique).1 c (Category.mem_all c)
  exact ⟨rfl, eq_of_nodup_flatMap hlist hx hy hix hiy⟩

theorem keys_nodup (h : db.ParentBeforeChild) (c : Category) :
    ((db.lists c).map CmaObject.ohfi).Nodup := by
  have hlist := (List.nodup_flatMap.mp h.unique).1 c (Category.mem_all c)
  have hsub (l : List CmaObject) : (l.map CmaObject.ohfi).Sublist (l.flatMap CmaObject.ids) := by
    induction l with
    | nil => exact List.Sublist.slnil
    | cons x l ih =>
      rw [List.map_cons, List.flatMap_cons, CmaObject.ids, List.cons_append]
      exact (ih.trans (List.sublist_append_right _ _)).cons_cons _
  exact hlist.sublist (hsub _)

theorem rooted (h : db.ParentBeforeChild) {c : Category} {m : CmaObject} {l : List CmaObject}
    (hl : db.lists c = m :: l) : Rooted CmaObject.ohfi CmaObject.ohfiParent [m.ohfi] l := by
  have hfront (p q : List CmaObject) (hpq : l = p ++ q) :
      Rooted CmaObject.ohfi CmaObject.ohfiParent [m.ohfi] p := by
    induction p using List.reverseRecOn generalizing q with
    | nil => trivial
    | append_singleton p x ih =>
      rw [List.append_assoc] at hpq
      refine Rooted.append.mpr ⟨ih _ hpq, ?_, trivial⟩
      have hsplit : db.lists c = (m :: p) ++ x :: q := by rw [hl, hpq]; rfl
      obtain ⟨z, hz, he⟩ := h.object hsplit (List.cons_ne_nil _ _)
      rw [← he]
      simpa [or_comm] using List.mem_map_of_mem (f := CmaObject.ohfi) hz
  exact hfront l [] (by simp)

theorem climbable (h : db.ParentBeforeChild) : Climbable db where
  ordered := by
    intro c
    cases hl : db.lists c with
    | nil => exact Ordered.nil
    | cons m l =>
      have hkeys := h.keys_nodup c
      rw [hl] at hkeys
      have hrooted : Rooted CmaObject.ohfi CmaObject.ohfiParent [m.ohfiParent] (m :: l) :=
        ⟨by simp, (h.rooted hl).mono (by simp)⟩
      refine hrooted.ordered hkeys fun x hx he => ?_
      have hcategory := h.category hl
      have hpos := h.ohfi_pos (hl ▸ hx)
      rw [List.mem_singleton] at he
      omega
  ids_inj := h.ids_inj
  parents := by
    intro c m l hl
    refine ⟨h.category hl, h.rooted hl, fun x hx => ?_⟩
    obtain ⟨p, q, hpq⟩ := List.append_of_mem hx
    have hsplit : db.lists c = (m :: p) ++ x :: q := by rw [hl, hpq]; rfl
    obtain ⟨z, hz, he⟩ := h.object hsplit (List.cons_ne_nil _ _)
    rw [← he]
    apply h.ohfi_pos (c := c)
    rw [hsplit]
    exact List.mem_append_left _ hz

end Database.ParentBeforeChild

theorem WellFormed.parentBeforeChild {paths : CmaPaths} {uuid : CString} {db : Database}
    (h : WellFormed paths uuid db) : db.ParentBeforeChild where
  unique := h.ids_nodup
  positive := by
    intro i hi
    obtain ⟨c, x, hx, hix⟩ := Database.mem_ids.mp hi
    exact h.ohfiToObject_pos (h.ohfiToObject_eq hx hix)
  category := fun hl => (h.climbable.parents hl).1
  object := fun hl hp => (h.climbable.parent_before hl hp).2

/-- The climb ends, and adds the size once to the object and to each object above it, the
category's own being one of them. Nothing else changes. -/
theorem incrementSizeMetadata_adds {db : Database} (h : db.ParentBeforeChild) {c : Category}
    {x : CmaObject} (hx : x ∈ db.lists c) (size : ULong) :
    ∃ db', incrementSizeMetadata db (c, x) size = some db' ∧ db'.ohfiCount = db.ohfiCount ∧
      (∀ d, d ≠ c → db'.lists d = db.lists d) ∧
      db'.lists c = sizeAdded x.ohfi size (db.lists c) ∧
      ∀ m, (db.lists c).head? = some m → NodesBelow (db.lists c) m.ohfi x.ohfi := by
  refine ⟨_, h.climbable.incrementSizeMetadata_eq hx size, rfl,
    fun d hd => Database.setList_lists_of_ne _ _ hd, Database.setList_lists_self .., ?_⟩
  intro m hm
  obtain ⟨l, hl⟩ := List.head?_eq_some_iff.mp hm
  rw [hl] at hx ⊢
  rcases List.mem_cons.mp hx with rfl | hxl
  · exact .refl
  · exact ((h.rooted hl).below x hxl).mono (List.subset_cons_self m l)

/-- A photo in a folder grows, the folder and the category with it. -/
theorem incrementSizeMetadata_adds_sample :
    ∃ db', incrementSizeMetadata sampleDatabase (.photos, sampleObject 2) 7 = some db' ∧
      db'.ohfiCount = sampleDatabase.ohfiCount ∧
      (∀ d, d ≠ .photos → db'.lists d = sampleDatabase.lists d) ∧
      db'.lists .photos = sizeAdded (sampleObject 2).ohfi 7 (sampleDatabase.lists .photos) ∧
      ∀ m, (sampleDatabase.lists .photos).head? = some m →
        NodesBelow (sampleDatabase.lists .photos) m.ohfi (sampleObject 2).ohfi :=
  incrementSizeMetadata_adds (sample_reachable FolderAddition).wellFormed.parentBeforeChild
    (by rw [sample_photos]; simp) 7

end VitaMTP
