import VitaMTP.Database.Preservation

/-! Looking objects up: an id finds the one object that has it, itself or through a filter. -/
namespace VitaMTP
open ParentFirst

/-- The ids of the filters of a category. -/
def Category.filterIds : Category → List ℤ
  | photos => [1000, 1001]
  | videos => [1002, 1003]
  | music => [1004]
  | _ => []

namespace Category

theorem filters_ohfi (paths : CmaPaths) (uuid : CString) (c : Category) :
    (c.filters paths uuid).map (·.ohfi) = c.filterIds := by
  cases c <;> rfl

theorem filterIds_range (c : Category) :
    ∀ i ∈ c.filterIds, OHFI_OFFSET ≤ i ∧ i < FIRST_OBJECT := by
  cases c <;> decide

/-- A search through the categories that can only hit in one of them. -/
theorem findSome?_all {β : Type*} {f : Category → Option β} {c : Category}
    (h : ∀ d, d ≠ c → f d = none) : all.findSome? f = f c := by
  have hfind (cs : List Category) : cs.findSome? f = if c ∈ cs then f c else none := by
    induction cs with
    | nil => rfl
    | cons d ds ih =>
      rw [List.findSome?_cons]
      by_cases hd : d = c
      · subst hd
        cases hf : f d with
        | some b => simp
        | none => simp [ih, hf]
      · rw [h d hd, ih]
        simp [Ne.symm hd]
  rw [hfind, if_pos (mem_all c)]

theorem ids_nodup (c : Category) : (c.ohfi :: c.filterIds).Nodup := by cases c <;> decide

theorem ids_disjoint {c d : Category} (h : c ≠ d) :
    List.Disjoint (c.ohfi :: c.filterIds) (d.ohfi :: d.filterIds) := by
  revert h
  cases c <;> cases d <;> simp [filterIds, ohfi]

end Category

theorem IsMaster.ids {paths : CmaPaths} {uuid : CString} {c : Category} {o : CmaObject}
    (h : IsMaster paths uuid c o) : o.ids = c.ohfi :: c.filterIds := by
  have hfilters : o.filters.map (·.ohfi) = c.filterIds := by
    rw [← Category.filters_ohfi paths uuid, ← h.filters, List.map_map]
    rfl
  rw [CmaObject.ids, h.ohfi, hfilters]

theorem IsObject.ids {count : ℤ} {o : CmaObject} (h : IsObject count o) : o.ids = [o.ohfi] := by
  rw [CmaObject.ids, h.filters]
  rfl

theorem findInList_of_not_mem {ohfi : ℤ} {found : Option CmaObject} {l : List CmaObject}
    (h : ∀ y ∈ l, ohfi ∉ y.ids) : findInList ohfi found l = found := by
  induction l generalizing found with
  | nil => rfl
  | cons y ys ih =>
    have hy := h y (by simp)
    simp only [CmaObject.ids, List.mem_cons, List.mem_map, not_or, not_exists, not_and] at hy
    have hself : y.ohfi ≠ ohfi := fun he => hy.1 he.symm
    have hfilter : y.filters.any (fun m => m.ohfi = ohfi) = false := by
      simpa using hy.2
    rw [findInList, if_neg hself, hfilter]
    exact ih fun z hz => h z (List.mem_cons_of_mem _ hz)

theorem findInList_of_mem {ohfi : ℤ} {found : Option CmaObject} {p q : List CmaObject}
    {x : CmaObject} (hx : ohfi ∈ x.ids) (hp : ∀ y ∈ p, ohfi ∉ y.ids)
    (hq : ∀ y ∈ q, ohfi ∉ y.ids) : findInList ohfi found (p ++ x :: q) = some x := by
  induction p generalizing found with
  | nil =>
    rw [List.nil_append, findInList]
    split
    · rfl
    · rename_i hne
      have hfilter : x.filters.any (fun m => m.ohfi = ohfi) = true := by
        rcases List.mem_cons.mp hx with he | hm
        · exact absurd he.symm hne
        · simpa using hm
      rw [hfilter]
      exact findInList_of_not_mem hq
  | cons y ys ih =>
    have hy := hp y (by simp)
    simp only [CmaObject.ids, List.mem_cons, List.mem_map, not_or, not_exists, not_and] at hy
    have hself : y.ohfi ≠ ohfi := fun he => hy.1 he.symm
    have hfilter : y.filters.any (fun m => m.ohfi = ohfi) = false := by
      simpa using hy.2
    rw [List.cons_append, findInList, if_neg hself, hfilter]
    exact ih fun z hz => hp z (List.mem_cons_of_mem _ hz)

theorem ohfiToObject_of_unique {db : Database} (hn : ∀ c, (db.lists c).Nodup)
    (hinj : ∀ {c d : Category} {x y : CmaObject} {i : ℤ}, x ∈ db.lists c → y ∈ db.lists d →
      i ∈ x.ids → i ∈ y.ids → c = d ∧ x = y) {c : Category} {x : CmaObject} {ohfi : ℤ}
    (hx : x ∈ db.lists c) (hi : ohfi ∈ x.ids) : ohfiToObject db ohfi = some (c, x) := by
  obtain ⟨p, q, hl⟩ := List.append_of_mem hx
  have hn := hn c
  rw [hl, List.nodup_append'] at hn
  have hother : ∀ y ∈ p ++ q, ohfi ∉ y.ids := by
    intro y hy hiy
    have hyl : y ∈ db.lists c := by
      rw [hl]
      simpa [or_assoc, or_comm, or_left_comm] using Or.inr (List.mem_append.mp hy)
    obtain rfl := (hinj hx hyl hi hiy).2
    rcases List.mem_append.mp hy with hy | hy
    · exact hn.2.2 hy (by simp)
    · exact (List.nodup_cons.mp hn.2.1).1 hy
  have hhere : findInList ohfi none (db.lists c) = some x := by
    rw [hl]
    exact findInList_of_mem hi (fun y hy => hother y (by simp [hy]))
      fun y hy => hother y (by simp [hy])
  have helse : ∀ d, d ≠ c → findInList ohfi none (db.lists d) = none := by
    intro d hd
    refine findInList_of_not_mem fun y hy hiy => hd ?_
    exact (hinj hx hy hi hiy).1.symm
  rw [ohfiToObject, Category.findSome?_all fun d hd => by rw [helse d hd]; rfl, hhere]
  rfl

namespace WellFormed

variable {paths : CmaPaths} {uuid : CString} {db : Database}

theorem ids_inj (h : WellFormed paths uuid db) {c d : Category} {x y : CmaObject} {i : ℤ}
    (hx : x ∈ db.lists c) (hy : y ∈ db.lists d) (hix : i ∈ x.ids) (hiy : i ∈ y.ids) :
    c = d ∧ x = y := by
  have hlow {c : Category} {i : ℤ} (hi : i ∈ c.ohfi :: c.filterIds) : i < FIRST_OBJECT := by
    rcases List.mem_cons.mp hi with rfl | hi
    · exact c.ohfi_lt_first
    · exact (c.filterIds_range i hi).2
  rcases h.mem_lists.mp hx with ⟨hmx, hhx⟩ | hox <;> rcases h.mem_lists.mp hy with ⟨hmy, hhy⟩ | hoy
  · rw [hmx.ids] at hix
    rw [hmy.ids] at hiy
    obtain rfl : c = d := by
      by_contra hne
      exact Category.ids_disjoint hne hix hiy
    exact ⟨rfl, Option.some.inj (hhx.symm.trans hhy)⟩
  · rw [hmx.ids] at hix
    have hobj := h.objects d y hoy
    rw [hobj.ids, List.mem_singleton] at hiy
    have h₁ := hlow hix
    have h₂ := hobj.first
    omega
  · rw [hmy.ids] at hiy
    have hobj := h.objects c x hox
    rw [hobj.ids, List.mem_singleton] at hix
    have h₁ := hlow hiy
    have h₂ := hobj.first
    omega
  · rw [(h.objects c x hox).ids, List.mem_singleton] at hix
    rw [(h.objects d y hoy).ids, List.mem_singleton] at hiy
    obtain rfl : c = d := by
      by_contra hne
      exact h.disjoint c d hne x hox y hoy (hix.symm.trans hiy)
    exact ⟨rfl, (h.ordered c).inj hx hy (hix.symm.trans hiy)⟩

theorem ohfiToObject_eq (h : WellFormed paths uuid db) {c : Category} {x : CmaObject} {ohfi : ℤ}
    (hx : x ∈ db.lists c) (hi : ohfi ∈ x.ids) : ohfiToObject db ohfi = some (c, x) :=
  ohfiToObject_of_unique (fun c => (h.ohfi_nodup c).of_map) h.ids_inj hx hi

theorem ohfiToObject_none (h : ∀ c, ∀ x ∈ db.lists c, ohfi ∉ x.ids) :
    ohfiToObject db ohfi = none := by
  rw [ohfiToObject, List.findSome?_eq_none_iff]
  intro c _
  rw [findInList_of_not_mem (h c)]
  rfl

/-- `ohfiToObject` returns exactly the object that has the id, or owns the filter that has it. -/
theorem ohfiToObject_eq_some (h : WellFormed paths uuid db) {c : Category} {x : CmaObject}
    {ohfi : ℤ} : ohfiToObject db ohfi = some (c, x) ↔ x ∈ db.lists c ∧ ohfi ∈ x.ids := by
  constructor
  · intro hsome
    by_cases hex : ∃ d, ∃ y ∈ db.lists d, ohfi ∈ y.ids
    · obtain ⟨d, y, hy, hi⟩ := hex
      have := h.ohfiToObject_eq hy hi
      obtain ⟨rfl, rfl⟩ := Prod.mk.injEq .. ▸ Option.some.inj (this.symm.trans hsome)
      exact ⟨hy, hi⟩
    · simp only [not_exists, not_and] at hex
      rw [ohfiToObject_none hex] at hsome
      simp at hsome
  · rintro ⟨hx, hi⟩
    exact h.ohfiToObject_eq hx hi

theorem ohfiToObject_pos (h : WellFormed paths uuid db) {c : Category} {x : CmaObject} {ohfi : ℤ}
    (hx : ohfiToObject db ohfi = some (c, x)) : 0 < ohfi := by
  obtain ⟨hx, hi⟩ := h.ohfiToObject_eq_some.mp hx
  rcases h.mem_lists.mp hx with ⟨hm, -⟩ | ho
  · rw [hm.ids, List.mem_cons] at hi
    rcases hi with rfl | hi
    · exact c.ohfi_pos
    · have h₁ := (c.filterIds_range ohfi hi).1
      have h₂ : (0 : ℤ) < OHFI_OFFSET := by decide
      omega
  · rw [(h.objects c x ho).ids, List.mem_singleton] at hi
    exact hi ▸ h.ohfi_pos hx

/-- Ids below `FIRST_OBJECT` belong to the categories, all others to objects. -/
theorem ohfiToObject_object (h : WellFormed paths uuid db) {c : Category} {x : CmaObject}
    (hx : x ∈ db.objects c) {ohfi : ℤ} :
    ohfiToObject db ohfi = some (c, x) ↔ ohfi = x.ohfi := by
  rw [h.ohfiToObject_eq_some, (h.objects c x hx).ids, List.mem_singleton]
  exact and_iff_right (mem_of_objects hx)

/-- Restricted to a category, `pathToObject` reads the objects of that category only. -/
theorem pathToObject_category (h : WellFormed paths uuid db) (path : CString) (c : Category) :
    pathToObject db path c.ohfi =
      ((db.objects c).find? (fun o => o.metadata.path == some path)).map (fun o => (c, o)) := by
  have hpos := c.ohfi_pos
  have helse : ∀ d, d ≠ c → pathInList db path c.ohfi d = none := by
    intro d hd
    obtain ⟨m, hm, hmaster⟩ := h.master d
    have hne : d.ohfi ≠ c.ohfi := fun he => hd (Category.ohfi_inj he)
    have hroot : c.ohfi ≠ 0 := by omega
    rw [pathInList, hm]
    simp [hmaster.ohfi, hroot, hne]
  obtain ⟨m, hm, hmaster⟩ := h.master c
  rw [pathToObject, Category.findSome?_all helse, pathInList, hm]
  simp [hmaster.ohfi]

/-- Restricted to any other id, it finds nothing. -/
theorem pathToObject_object (h : WellFormed paths uuid db) (path : CString) {ohfi : ℤ}
    (hpos : ohfi ≠ 0) (hohfi : ∀ c : Category, c.ohfi ≠ ohfi) :
    pathToObject db path ohfi = none := by
  rw [pathToObject, List.findSome?_eq_none_iff]
  intro c _
  obtain ⟨m, hm, hmaster⟩ := h.master c
  rw [pathInList, hm]
  simp [hmaster.ohfi, hpos, hohfi c]

end WellFormed

end VitaMTP
