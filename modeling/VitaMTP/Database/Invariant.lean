import VitaMTP.Database.Rename
import VitaMTP.Database.Scan

/-! The representation invariant of the database and the operations that keep it. -/
namespace VitaMTP
open ParentFirst

/-- The id of the first object after the filters of `initDatabase`. -/
def FIRST_OBJECT : ℤ := OHFI_OFFSET + 5

/-- The filters `initDatabase` creates. -/
def Category.filters (paths : CmaPaths) (uuid : CString) (c : Category) : List Metadata :=
  let master := masterObject paths uuid c
  match c with
  | photos =>
    [newFilter 1000 master ['F', 'o', 'l', 'd', 'e', 'r', 's']
        (DirType.PHOTO ||| DirType.ROOT ||| DirType.REGULAR),
      newFilter 1001 master ['A', 'l', 'l'] (DirType.PHOTO ||| DirType.ROOT ||| DirType.ALL)]
  | videos =>
    [newFilter 1002 master ['F', 'o', 'l', 'd', 'e', 'r', 's']
        (DirType.VIDEO ||| DirType.ROOT ||| DirType.REGULAR),
      newFilter 1003 master ['A', 'l', 'l'] (DirType.VIDEO ||| DirType.ROOT ||| DirType.ALL)]
  | music =>
    [newFilter 1004 master ['A', 'l', 'l'] (DirType.MUSIC ||| DirType.ROOT ||| DirType.SONGS)]
  | _ => []

def categoryObject (paths : CmaPaths) (uuid : CString) (c : Category) : CmaObject :=
  { masterObject paths uuid c with filters := c.filters paths uuid }

theorem initDatabase_eq (paths : CmaPaths) (uuid : CString) :
    initDatabase paths uuid =
      { lists := fun c => [categoryObject paths uuid c], ohfiCount := FIRST_OBJECT } := by
  have hlists : (initDatabase paths uuid).lists = fun c => [categoryObject paths uuid c] := by
    funext c
    cases c <;> rfl
  have hcount : (initDatabase paths uuid).ohfiCount = FIRST_OBJECT := rfl
  rw [← hlists, ← hcount]

namespace Database

/-- The objects of a category, without the category's own object. -/
def objects (db : Database) (c : Category) : List CmaObject := (db.lists c).tail

end Database

/-- The ids under which an object is found. -/
def CmaObject.ids (o : CmaObject) : List ℤ := o.ohfi :: o.filters.map (·.ohfi)

/-- A category's own object, up to its size, its handle and the links of listings. -/
def IsMaster (paths : CmaPaths) (uuid : CString) (c : Category) (o : CmaObject) : Prop :=
  ∃ size handle, o.unlinked = { categoryObject paths uuid c with
    metadata := { (categoryObject paths uuid c).metadata with size := size, handle := handle } }

structure IsObject (count : ℤ) (o : CmaObject) : Prop where
  first : FIRST_OBJECT ≤ o.ohfi
  counted : o.ohfi < count
  filters : o.filters = []
  named : o.Named

structure WellFormed (paths : CmaPaths) (uuid : CString) (db : Database) : Prop where
  counted : FIRST_OBJECT ≤ db.ohfiCount
  master : ∀ c, ∃ o, db.lists c = o :: db.objects c ∧ IsMaster paths uuid c o
  objects : ∀ c, ∀ o ∈ db.objects c, IsObject db.ohfiCount o
  rooted : ∀ c, Rooted CmaObject.ohfi CmaObject.ohfiParent [c.ohfi] (db.objects c)
  distinct : ∀ c, ((db.objects c).map CmaObject.ohfi).Nodup
  disjoint : ∀ c d, c ≠ d → ∀ x ∈ db.objects c, ∀ y ∈ db.objects d, x.ohfi ≠ y.ohfi

namespace Category

theorem ohfi_pos (c : Category) : 0 < c.ohfi := by cases c <;> decide

theorem ohfi_lt (c : Category) : c.ohfi < OHFI_OFFSET := by cases c <;> decide

theorem ohfi_lt_first (c : Category) : c.ohfi < FIRST_OBJECT := by cases c <;> decide

theorem ohfi_inj {c d : Category} (h : c.ohfi = d.ohfi) : c = d := by
  revert h
  cases c <;> cases d <;> decide

end Category

theorem isMaster_categoryObject (paths : CmaPaths) (uuid : CString) (c : Category) :
    IsMaster paths uuid c (categoryObject paths uuid c) :=
  ⟨0, 0, by cases c <;> rfl⟩

namespace IsMaster

variable {paths : CmaPaths} {uuid : CString} {c : Category} {o : CmaObject}

theorem ohfi (h : IsMaster paths uuid c o) : o.ohfi = c.ohfi := by
  obtain ⟨size, handle, h⟩ := h
  exact congrArg CmaObject.ohfi h

theorem ohfiParent (h : IsMaster paths uuid c o) : o.ohfiParent = 0 := by
  obtain ⟨size, handle, h⟩ := h
  exact congrArg CmaObject.ohfiParent h

theorem path (h : IsMaster paths uuid c o) : o.path = c.path paths uuid := by
  obtain ⟨size, handle, h⟩ := h
  exact congrArg CmaObject.path h

theorem name_none (h : IsMaster paths uuid c o) : o.metadata.name = none := by
  obtain ⟨size, handle, h⟩ := h
  exact congrArg (·.metadata.name) h

theorem path_none (h : IsMaster paths uuid c o) : o.metadata.path = none := by
  obtain ⟨size, handle, h⟩ := h
  exact congrArg (·.metadata.path) h

theorem filters (h : IsMaster paths uuid c o) :
    o.filters.map Metadata.unlinked = c.filters paths uuid := by
  obtain ⟨size, handle, h⟩ := h
  exact congrArg CmaObject.filters h

theorem addSize (h : IsMaster paths uuid c o) (size : ULong) :
    IsMaster paths uuid c (o.addSize size) := by
  obtain ⟨size', handle, h⟩ := h
  exact ⟨_, handle, congrArg (CmaObject.addSize size) h⟩

end IsMaster

@[simp] theorem CmaObject.unlinked_unlinked (o : CmaObject) : o.unlinked.unlinked = o.unlinked := by
  simp [CmaObject.unlinked, Metadata.unlinked]

theorem isMaster_unlinked {paths : CmaPaths} {uuid : CString} {c : Category} {o : CmaObject} :
    IsMaster paths uuid c o.unlinked ↔ IsMaster paths uuid c o := by
  simp [IsMaster]

theorem isObject_unlinked {count : ℤ} {o : CmaObject} :
    IsObject count o.unlinked ↔ IsObject count o := by
  constructor
  · rintro ⟨hfirst, hcount, hfilters, hnamed⟩
    exact ⟨hfirst, hcount, by simpa [CmaObject.unlinked] using hfilters, hnamed⟩
  · rintro ⟨hfirst, hcount, hfilters, hnamed⟩
    exact ⟨hfirst, hcount, by simpa [CmaObject.unlinked] using hfilters, hnamed⟩

namespace WellFormed

variable {paths : CmaPaths} {uuid : CString} {db : Database}

theorem mem_lists (h : WellFormed paths uuid db) {c : Category} {o : CmaObject} :
    o ∈ db.lists c ↔ IsMaster paths uuid c o ∧ (db.lists c).head? = some o ∨
      o ∈ db.objects c := by
  obtain ⟨m, hm, hmaster⟩ := h.master c
  rw [hm]
  simp only [List.mem_cons, List.head?_cons, Option.some.injEq]
  constructor
  · rintro (rfl | ho)
    · exact Or.inl ⟨hmaster, rfl⟩
    · exact Or.inr ho
  · rintro (⟨-, rfl⟩ | ho)
    · exact Or.inl rfl
    · exact Or.inr ho

theorem mem_of_objects {c : Category} {o : CmaObject} (ho : o ∈ db.objects c) : o ∈ db.lists c :=
  List.mem_of_mem_tail ho

theorem ohfi_nodup (h : WellFormed paths uuid db) (c : Category) :
    ((db.lists c).map CmaObject.ohfi).Nodup := by
  obtain ⟨m, hm, hmaster⟩ := h.master c
  rw [hm, List.map_cons, List.nodup_cons]
  refine ⟨fun hmem => ?_, h.distinct c⟩
  obtain ⟨o, ho, he⟩ := List.mem_map.mp hmem
  have h₁ := (h.objects c o ho).first
  have h₂ := c.ohfi_lt_first
  rw [hmaster.ohfi] at he
  omega

theorem ohfi_pos (h : WellFormed paths uuid db) {c : Category} {o : CmaObject}
    (ho : o ∈ db.lists c) : 0 < o.ohfi := by
  rcases h.mem_lists.mp ho with ⟨hm, -⟩ | ho
  · rw [hm.ohfi]
    exact c.ohfi_pos
  · have h₁ := (h.objects c o ho).first
    have h₂ : (0 : ℤ) < FIRST_OBJECT := by decide
    omega

theorem rooted_list (h : WellFormed paths uuid db) (c : Category) :
    Rooted CmaObject.ohfi CmaObject.ohfiParent [0] (db.lists c) := by
  obtain ⟨m, hm, hmaster⟩ := h.master c
  rw [hm]
  refine ⟨by simp [hmaster.ohfiParent], (h.rooted c).mono ?_⟩
  simp [hmaster.ohfi]

/-- The order of the list that every recursive walk of it relies on. -/
theorem ordered (h : WellFormed paths uuid db) (c : Category) : NodesOrdered (db.lists c) := by
  refine (h.rooted_list c).ordered (h.ohfi_nodup c) fun o ho => ?_
  have := h.ohfi_pos ho
  simp only [List.mem_singleton]
  omega

/-- Every object has a parent in its list. -/
theorem exists_parent (h : WellFormed paths uuid db) {c : Category} {x : CmaObject}
    (hx : x ∈ db.objects c) : ∃ z ∈ db.lists c, z.ohfi = x.ohfiParent := by
  obtain ⟨m, hm, hmaster⟩ := h.master c
  obtain ⟨l, l', hl⟩ := List.append_of_mem hx
  have hr := h.rooted c
  rw [hl] at hr
  rcases hr.par_mem with hp | hp
  · exact ⟨m, by rw [hm]; simp, hmaster.ohfi.trans (List.mem_singleton.mp hp).symm⟩
  · obtain ⟨z, hz, he⟩ := List.mem_map.mp hp
    exact ⟨z, mem_of_objects (by rw [hl]; exact List.mem_append_left _ hz), he⟩

/-- The parent of an object stands in front of it. -/
theorem parent_before (h : WellFormed paths uuid db) {c : Category} {p q : List CmaObject}
    {x : CmaObject} (hx : x ∈ db.objects c) (hl : db.lists c = p ++ x :: q) :
    ∃ z ∈ p, z.ohfi = x.ohfiParent := by
  obtain ⟨y, hy, hyp⟩ := h.exists_parent hx
  have hpos := h.ohfi_pos hy
  have hr := h.rooted_list c
  rw [hl] at hr
  rcases hr.par_mem with hp | hp
  · have := List.mem_singleton.mp hp
    omega
  · exact List.mem_map.mp hp

theorem counted_list (h : WellFormed paths uuid db) (c : Category) : Counted db c := by
  intro o ho
  rcases h.mem_lists.mp ho with ⟨hm, -⟩ | ho
  · have h₁ := c.ohfi_lt_first
    have h₂ := h.counted
    rw [hm.ohfi]
    omega
  · exact (h.objects c o ho).counted

/-- Replacing the objects of one category. -/
theorem replace (h : WellFormed paths uuid db) {c : Category} {m : CmaObject}
    {os : List CmaObject} {count : ℤ} (hcount : db.ohfiCount ≤ count)
    (hm : IsMaster paths uuid c m) (hobjects : ∀ o ∈ os, IsObject count o)
    (hrooted : Rooted CmaObject.ohfi CmaObject.ohfiParent [c.ohfi] os)
    (hdistinct : (os.map CmaObject.ohfi).Nodup)
    (hids : ∀ o ∈ os, (∃ y ∈ db.objects c, y.ohfi = o.ohfi) ∨ db.ohfiCount ≤ o.ohfi) :
    WellFormed paths uuid { db.setList c (m :: os) with ohfiCount := count } := by
  have hself : Database.objects { db.setList c (m :: os) with ohfiCount := count } c = os := by
    simp [Database.objects]
  have hother : ∀ d, d ≠ c →
      Database.objects { db.setList c (m :: os) with ohfiCount := count } d = db.objects d := by
    intro d hd
    simp [Database.objects, hd]
  have hnew : ∀ d, d ≠ c → ∀ x ∈ os, ∀ y ∈ db.objects d, x.ohfi ≠ y.ohfi := by
    intro d hd x hx y hy
    rcases hids x hx with ⟨z, hz, he⟩ | hfresh
    · exact he ▸ h.disjoint c d (Ne.symm hd) z hz y hy
    · have := (h.objects d y hy).counted
      omega
  constructor
  · exact h.counted.trans hcount
  · intro d
    by_cases hd : d = c
    · subst hd
      exact ⟨m, by rw [hself]; simp, hm⟩
    · obtain ⟨o, ho, hmaster⟩ := h.master d
      exact ⟨o, by rw [hother d hd]; simpa [hd] using ho, hmaster⟩
  · intro d o ho
    by_cases hd : d = c
    · subst hd
      exact hobjects o (hself ▸ ho)
    · have := h.objects d o (hother d hd ▸ ho)
      exact ⟨this.first, lt_of_lt_of_le this.counted hcount, this.filters, this.named⟩
  · intro d
    by_cases hd : d = c
    · subst hd
      rw [hself]
      exact hrooted
    · rw [hother d hd]
      exact h.rooted d
  · intro d
    by_cases hd : d = c
    · subst hd
      rw [hself]
      exact hdistinct
    · rw [hother d hd]
      exact h.distinct d
  · intro d e hde x hx y hy
    by_cases hd : d = c
    · subst hd
      exact hnew e (Ne.symm hde) x (hself ▸ hx) y (hother e (Ne.symm hde) ▸ hy)
    · by_cases he : e = c
      · subst he
        exact (hnew d hd y (hself ▸ hy) x (hother d hd ▸ hx)).symm
      · exact h.disjoint d e hde x (hother d hd ▸ hx) y (hother e he ▸ hy)

/-- Rewriting the objects of one list in place. -/
theorem map (h : WellFormed paths uuid db) (c : Category) {g : CmaObject → CmaObject}
    (hmaster : ∀ o ∈ db.lists c, IsMaster paths uuid c o → IsMaster paths uuid c (g o))
    (hobjects : ∀ o ∈ db.objects c, (g o).ohfi = o.ohfi ∧ (g o).ohfiParent = o.ohfiParent ∧
      (g o).filters = o.filters ∧ (g o).Named) :
    WellFormed paths uuid (db.setList c ((db.lists c).map g)) := by
  obtain ⟨m, hm, hmm⟩ := h.master c
  have hids : ((db.objects c).map g).map (fun o => (o.ohfi, o.ohfiParent)) =
      (db.objects c).map (fun o => (o.ohfi, o.ohfiParent)) := by
    rw [List.map_map]
    exact List.map_congr_left fun o ho => by
      simp [(hobjects o ho).1, (hobjects o ho).2.1]
  have hkeys : ((db.objects c).map g).map CmaObject.ohfi = (db.objects c).map CmaObject.ohfi := by
    rw [List.map_map]
    exact List.map_congr_left fun o ho => (hobjects o ho).1
  have := @replace paths uuid db h c (g m) ((db.objects c).map g) db.ohfiCount le_rfl
    (hmaster m (by rw [hm]; simp) hmm) ?_ ((h.rooted c).congr hids) (hkeys ▸ h.distinct c) ?_
  · rw [hm, List.map_cons]
    exact this
  · intro o ho
    obtain ⟨y, hy, rfl⟩ := List.mem_map.mp ho
    obtain ⟨hid, -, hfilters, hnamed⟩ := hobjects y hy
    have hobj := h.objects c y hy
    exact ⟨hid ▸ hobj.first, hid ▸ hobj.counted, hfilters ▸ hobj.filters, hnamed⟩
  · intro o ho
    obtain ⟨y, hy, rfl⟩ := List.mem_map.mp ho
    exact Or.inl ⟨y, hy, (hobjects y hy).1.symm⟩

/-- Well-formedness does not look at the links of listings. -/
theorem unlinked_iff : WellFormed paths uuid db.unlinked ↔ WellFormed paths uuid db := by
  have hobjects (c : Category) :
      db.unlinked.objects c = (db.objects c).map CmaObject.unlinked :=
    List.map_tail.symm
  have hids (l : List CmaObject) :
      (l.map CmaObject.unlinked).map (fun o => (o.ohfi, o.ohfiParent)) =
      l.map (fun o => (o.ohfi, o.ohfiParent)) := by
    rw [List.map_map]
    rfl
  have hkeys (l : List CmaObject) : (l.map CmaObject.unlinked).map CmaObject.ohfi =
      l.map CmaObject.ohfi := by
    rw [List.map_map]
    rfl
  constructor
  · intro h
    constructor
    · exact h.counted
    · intro c
      obtain ⟨o, ho, hm⟩ := h.master c
      cases hl : db.lists c with
      | nil => simp [Database.unlinked, hl] at ho
      | cons m os =>
        have he : m.unlinked = o := by
          have := congrArg List.head? ho
          simpa [Database.unlinked, hl] using this
        exact ⟨m, by simp [Database.objects, hl], isMaster_unlinked.mp (he ▸ hm)⟩
    · intro c o ho
      refine isObject_unlinked.mp (h.objects c o.unlinked ?_)
      rw [hobjects]
      exact List.mem_map_of_mem ho
    · intro c
      have := h.rooted c
      rw [hobjects] at this
      exact this.congr (hids _).symm
    · intro c
      have := h.distinct c
      rwa [hobjects, hkeys] at this
    · intro c d hcd x hx y hy
      exact h.disjoint c d hcd x.unlinked (by rw [hobjects]; exact List.mem_map_of_mem hx)
        y.unlinked (by rw [hobjects]; exact List.mem_map_of_mem hy)
  · intro h
    constructor
    · exact h.counted
    · intro c
      obtain ⟨o, ho, hm⟩ := h.master c
      refine ⟨o.unlinked, ?_, isMaster_unlinked.mpr hm⟩
      rw [hobjects, ← List.map_cons, ← ho]
      rfl
    · intro c o ho
      rw [hobjects] at ho
      obtain ⟨y, hy, rfl⟩ := List.mem_map.mp ho
      exact isObject_unlinked.mpr (h.objects c y hy)
    · intro c
      rw [hobjects]
      exact (h.rooted c).congr (hids _)
    · intro c
      rw [hobjects, hkeys]
      exact h.distinct c
    · intro c d hcd x hx y hy
      rw [hobjects] at hx hy
      obtain ⟨x, hxm, rfl⟩ := List.mem_map.mp hx
      obtain ⟨y, hym, rfl⟩ := List.mem_map.mp hy
      exact h.disjoint c d hcd x hxm y hym

end WellFormed

end VitaMTP
