import Mathlib.Data.List.Range
import VitaMTP.Listing.Filter

/-! What `filterObjects` publishes: for each id that names something, the complete listing. -/
namespace VitaMTP
open ParentFirst

/-- The listing of an id: the filters of a category that has some, all files of the category
for the filters that ask for them, the direct children otherwise. -/
def listed (db : Database) (c : Category) (parent : CmaObject) (ohfi : ℤ) : List Metadata :=
  if parent.filters ≠ [] ∧ ohfi = parent.ohfi then parent.filters
  else if listType parent ohfi &&& (DirType.ALL ||| DirType.SONGS) ≠ 0 then
    ((db.lists c).filter (fun o => o.isFile)).map (·.metadata)
  else ((db.lists c).filter (fun o => o.ohfiParent = parent.ohfi)).map (·.metadata)

def ListsChildren (type : Mask) : Prop :=
  type &&& (DirType.ALL ||| DirType.SONGS) = 0 ∧ type &&& DirType.REGULAR ≠ 0

/-- A type that lists all files of a category. -/
def ListsFiles (c : Category) (type : Mask) : Prop :=
  type &&& (DirType.ALL ||| DirType.SONGS) ≠ 0 ∧
    (c = .photos ∧ maskSet type DirType.PHOTO ∨
      c = .videos ∧ maskSet type DirType.PHOTO = false ∧ maskSet type DirType.VIDEO ∨
      c = .music ∧ maskSet type DirType.PHOTO = false ∧ maskSet type DirType.VIDEO = false ∧
        maskSet type DirType.MUSIC)

/-- The filters of a category, by id and type. -/
def Category.filterTypes : Category → List (ℤ × Mask)
  | photos =>
    [(1000, DirType.PHOTO ||| DirType.ROOT ||| DirType.REGULAR),
      (1001, DirType.PHOTO ||| DirType.ROOT ||| DirType.ALL)]
  | videos =>
    [(1002, DirType.VIDEO ||| DirType.ROOT ||| DirType.REGULAR),
      (1003, DirType.VIDEO ||| DirType.ROOT ||| DirType.ALL)]
  | music => [(1004, DirType.MUSIC ||| DirType.ROOT ||| DirType.SONGS)]
  | _ => []

def Category.listType (c : Category) (ohfi : ℤ) : Mask :=
  match c.filterTypes.find? (fun p => p.1 == ohfi) with
  | none => DirType.ROOT ||| DirType.REGULAR
  | some p => p.2

theorem Category.listType_cases (c : Category) :
    ∀ i ∈ c.ohfi :: c.filterIds, ¬ (c.filterIds ≠ [] ∧ i = c.ohfi) →
      ListsChildren (c.listType i) ∨ ListsFiles c (c.listType i) := by
  unfold ListsChildren ListsFiles
  cases c <;> decide

theorem accept_children {parent o : CmaObject} {type : Mask} (h : ListsChildren type) :
    acceptFilteredObject parent o type = (o.ohfiParent = parent.ohfi : Bool) := by
  obtain ⟨h₁, h₂⟩ := h
  simp only [acceptFilteredObject, h₁, bne_self_eq_false, Bool.false_eq_true, if_false]
  rw [if_pos (by simpa using h₂)]
  by_cases he : parent.ohfi = o.ohfiParent
  · simp [he]
  · simp [he, Ne.symm he]

namespace WellFormed

variable {paths : CmaPaths} {uuid : CString} {db : Database}

theorem ohfiParent_ne (h : WellFormed paths uuid db) {c d : Category} {parent o : CmaObject}
    (hparent : parent ∈ db.lists c) (ho : o ∈ db.lists d) (hd : d ≠ c) :
    o.ohfiParent ≠ parent.ohfi := by
  intro he
  rcases h.mem_lists.mp ho with ⟨hm, -⟩ | hobj
  · have := h.ohfi_pos hparent
    rw [hm.ohfiParent] at he
    omega
  · obtain ⟨z, hz, hzp⟩ := h.exists_parent hobj
    refine hd (h.ids_inj hz hparent (i := z.ohfi) (by simp [CmaObject.ids]) ?_).1
    simp [CmaObject.ids, hzp, he]

theorem accept_files (h : WellFormed paths uuid db) (hk : db.Kinded) {c d : Category}
    {parent o : CmaObject} {type : Mask} (htype : ListsFiles c type) (ho : o ∈ db.lists d) :
    acceptFilteredObject parent o type = (decide (d = c) && o.isFile) := by
  obtain ⟨hall, hkind⟩ := htype
  obtain ⟨bits, hbits, hdata⟩ := h.entryBits hk ho
  simp only [List.mem_cons, List.not_mem_nil, or_false] at hbits
  simp only [acceptFilteredObject]
  rw [if_pos (by simpa using hall)]
  unfold CmaObject.isFile
  rw [hdata]
  rcases hkind with ⟨rfl, hp⟩ | ⟨rfl, hp, hv⟩ | ⟨rfl, hp, hv, hm⟩
  · rw [if_pos hp]
    rcases hbits with rfl | rfl | rfl | rfl <;> cases d <;> decide
  · rw [if_neg (by simp [hp]), if_pos hv]
    rcases hbits with rfl | rfl | rfl | rfl <;> cases d <;> decide
  · rw [if_neg (by simp [hp]), if_neg (by simp [hv]), if_pos hm]
    rcases hbits with rfl | rfl | rfl | rfl <;> cases d <;> decide

theorem listType_cases (h : WellFormed paths uuid db) (hk : db.Kinded) {c : Category}
    {parent : CmaObject} {ohfi : ℤ} (hparent : parent ∈ db.lists c) (hi : ohfi ∈ parent.ids)
    (hlist : ¬ (parent.filters ≠ [] ∧ ohfi = parent.ohfi)) :
    ListsChildren (listType parent ohfi) ∨ ListsFiles c (listType parent ohfi) := by
  rcases h.mem_lists.mp hparent with ⟨hm, -⟩ | hobj
  · have htypes : parent.filters.map (fun m => (m.ohfi, m.type)) = c.filterTypes := by
      have : (c.filters paths uuid).map (fun m => (m.ohfi, m.type)) = c.filterTypes := by
        cases c <;> rfl
      rw [← this, ← hm.filters, List.map_map]
      rfl
    have htype : parent.metadata.type = DirType.ROOT ||| DirType.REGULAR := by
      obtain ⟨size, handle, he⟩ := hm
      exact congrArg (·.metadata.type) he
    have hlt : listType parent ohfi = c.listType ohfi := by
      rw [listType, Category.listType, ← htypes, List.find?_map]
      simp only [Function.comp_def]
      cases parent.filters.find? (fun m => m.ohfi == ohfi) with
      | none => exact htype
      | some m => rfl
    rw [hm.ids] at hi
    rw [hlt]
    refine c.listType_cases ohfi hi fun hboth => hlist ⟨fun he => hboth.1 ?_, ?_⟩
    · have := hm.ids
      rw [CmaObject.ids, he, List.map_nil, List.cons.injEq] at this
      exact this.2.symm
    · rw [hm.ohfi]
      exact hboth.2
  · have htype := (hk c parent hobj).type
    have hfilters := (h.objects c parent hobj).filters
    refine Or.inl ?_
    rw [listType, hfilters]
    simp only [List.find?_nil, htype]
    unfold ListsChildren
    decide

theorem findIdx_eq (h : WellFormed paths uuid db) {c : Category} {o : CmaObject}
    (ho : o ∈ db.lists c) :
    (db.lists c)[(db.lists c).findIdx (fun y => y.ohfi == o.ohfi)]? = some o := by
  have hex : ∃ y ∈ db.lists c, (fun y : CmaObject => y.ohfi == o.ohfi) y := ⟨o, ho, by simp⟩
  have hlt := List.findIdx_lt_length_of_exists hex
  have hid := List.findIdx_getElem (w := hlt)
  rw [List.getElem?_eq_getElem hlt]
  exact congrArg some ((h.ordered c).inj (List.getElem_mem hlt) ho (by simpa using hid))

end WellFormed

private theorem linkFilters (db : Database) (c : Category) (k : ℕ) (n : ℕ)
    (hvalid : ∀ i < n, (db.deref (.filter c k i)).isSome) :
    let db' := (List.range n).foldl
      (fun db i => db.setNext (.filter c k i) (some (.filter c k (i + 1)))) db
    (∀ i < n, db'.next (.filter c k i) = some (.filter c k (i + 1))) ∧
      (∀ r, (db'.deref r).isSome = (db.deref r).isSome) ∧ db'.unlinked = db.unlinked := by
  induction n with
  | zero => simp
  | succ n ih =>
    obtain ⟨hnext, hsome, hunlinked⟩ := ih fun i hi => hvalid i (by omega)
    simp only [List.range_succ, List.foldl_append, List.foldl_cons, List.foldl_nil]
    generalize (List.range n).foldl
      (fun db i => db.setNext (.filter c k i) (some (.filter c k (i + 1)))) db = db' at *
    have hn : (db'.deref (.filter c k n)).isSome := by
      rw [hsome]
      exact hvalid n (by omega)
    refine ⟨fun i hi => ?_, fun r => by rw [Database.setNext_isSome, hsome], ?_⟩
    · rw [Database.next_setNext hn]
      by_cases he : i = n
      · rw [he, Function.update_self]
      · rw [Function.update_of_ne (by simpa using he)]
        exact hnext i (by omega)
    · rw [Database.unlinked_setNext, hunlinked]

theorem getFilters_spec (db : Database) (c : Category) (k : ℕ) {parent : CmaObject}
    (hk : (db.lists c)[k]? = some parent) (hne : parent.filters ≠ []) :
    ∃ refs db', getFilters db c k parent = (refs.length, refs.head?, db') ∧ refs.Nodup ∧
      Chain.Follows db'.next refs.head? refs ∧ db'.unlinked = db.unlinked ∧
      refs.map db.deref = parent.filters.map some := by
  obtain ⟨n, hn⟩ : ∃ n, parent.filters.length = n + 1 :=
    ⟨parent.filters.length - 1, by have := List.length_pos_iff.mpr hne; omega⟩
  have hderef (i : ℕ) : db.deref (.filter c k i) = parent.filters[i]? := by
    simp [Database.deref, hk]
  obtain ⟨hnext, hsome, hunlinked⟩ := linkFilters db c k (n + 1) fun i hi => by
    rw [hderef, List.getElem?_eq_getElem (by omega)]
    rfl
  let refs := (List.range (n + 1)).map fun i => MetaRef.filter c k i
  have hhead : refs.head? = some (.filter c k 0) := by simp [refs, List.range_succ_eq_map]
  have hnodup : refs.Nodup := List.nodup_range.map fun i j hij => by simpa using hij
  have hget : getFilters db c k parent = (refs.length, refs.head?,
      ((List.range (n + 1)).foldl
        (fun db i => db.setNext (.filter c k i) (some (.filter c k (i + 1)))) db).setNext
        (.filter c k n) none) := by
    rw [getFilters, hn, hhead]
    simp [refs]
  generalize (List.range (n + 1)).foldl
    (fun db i => db.setNext (.filter c k i) (some (.filter c k (i + 1)))) db = db₁ at *
  have hlast : (db₁.deref (.filter c k n)).isSome := by
    rw [hsome, hderef, List.getElem?_eq_getElem (by omega)]
    rfl
  refine ⟨refs, db₁.setNext (.filter c k n) none, hget, hnodup, ?_,
    Database.unlinked_setNext.trans hunlinked, ?_⟩
  · refine Chain.Links.follows ?_ ?_
    · rw [Database.next_setNext hlast]
      have hrefs : refs = (List.range n).map (fun i => MetaRef.filter c k i) ++
          [MetaRef.filter c k n] := by
        simp [refs, List.range_succ]
      rw [hrefs] at hnodup ⊢
      refine Chain.Links.update_last ?_ hnodup
      rw [← hrefs]
      unfold Chain.Links
      rw [List.isChain_map, List.isChain_range_succ]
      exact fun i hi => hnext i (by omega)
    · intro a ha
      have : a = .filter c k n := by simpa [refs, List.range_succ] using ha.symm
      rw [this, Database.next_setNext hlast]
      simp
  · simp only [refs, List.map_map, Function.comp_def, hderef]
    refine List.ext_getElem? fun i => ?_
    simp only [List.getElem?_map]
    by_cases hi : i < n + 1
    · rw [List.getElem?_range hi, List.getElem?_eq_getElem (by omega)]
      simp [List.getElem?_eq_getElem (show i < parent.filters.length by omega)]
    · rw [List.getElem?_eq_none (by simpa using hi), List.getElem?_eq_none (by omega)]
      rfl

/-- For every id that names something, the published chain is exactly its listing, and the
returned number is its length. -/
theorem WellFormed.filterObjects_listed {paths : CmaPaths} {uuid : CString} {db : Database}
    (h : WellFormed paths uuid db) (hk : db.Kinded) {ohfi : ℤ} {c : Category} {parent : CmaObject}
    (hfound : ohfiToObject db ohfi = some (c, parent)) :
    ∃ refs db', filterObjects db ohfi = (refs.length, some refs.head?, db') ∧ refs.Nodup ∧
      Chain.Follows db'.next refs.head? refs ∧ db'.unlinked = db.unlinked ∧
      refs.map db.deref = (listed db c parent ohfi).map some := by
  obtain ⟨hparent, hi⟩ := h.ohfiToObject_eq_some.mp hfound
  rw [filterObjects, hfound]
  simp only
  by_cases hlist : parent.filters ≠ [] ∧ ohfi = parent.ohfi
  · rw [if_pos hlist, listed, if_pos hlist]
    obtain ⟨refs, db', hget, hspec⟩ := getFilters_spec db c _ (h.findIdx_eq hparent) hlist.1
    exact ⟨refs, db', by rw [hget], hspec⟩
  · rw [if_neg hlist, listed, if_neg hlist]
    have htype := h.listType_cases hk hparent hi hlist
    generalize listType parent ohfi = type at *
    let s : Listing := { db := db, head := none, tail := none, numObjects := 0 }
    have hstart : s.Holds db [] :=
      ⟨rfl, rfl, rfl, List.nodup_nil, by simp, List.IsChain.nil, rfl⟩
    have hholds : (filterList parent type c 0 (db.lists c) s).Holds db
        (acceptedRefs parent type c 0 (db.lists c)) :=
      filterList_holds (db.lists c) 0 s [] hstart (by simp) fun j _ hj => by
        have hj : j < (db.lists c).length := by omega
        simp [Database.deref, hj]
    have hrefs : (acceptedRefs parent type c 0 (db.lists c)).map db.deref =
        ((db.lists c).filter fun o => acceptFilteredObject parent o type).map
          fun o => some o.metadata := acceptedRefs_deref (db.lists c) [] rfl
    have hother : ∀ d, d ≠ c → ∀ o ∈ s.db.lists d, acceptFilteredObject parent o type = false := by
      intro d hd o ho
      rcases htype with htype | htype
      · rw [accept_children htype]
        simpa using h.ohfiParent_ne hparent ho hd
      · rw [h.accept_files hk htype ho]
        simp [hd]
    have hnone : (filterList parent type c 0 (s.db.lists c) s).numObjects = 0 →
        ∀ o ∈ s.db.lists c, acceptFilteredObject parent o type = false := by
      intro hzero o ho
      have hempty : acceptedRefs parent type c 0 (db.lists c) = [] := by
        rw [← List.length_eq_zero_iff]
        exact hholds.numObjects.symm.trans hzero
      rw [hempty] at hrefs
      have := List.map_eq_nil_iff.mp hrefs.symm
      simpa using List.filter_eq_nil_iff.mp this o ho
    have hfilter : filterCategories parent type Category.all s =
        filterList parent type c 0 (db.lists c) s := by
      rw [filterCategories_eq rfl hother hnone, if_pos (Category.mem_all c)]
    obtain ⟨hnum, hhead, hfollows, hunlinked⟩ := hholds.finish
    refine ⟨acceptedRefs parent type c 0 (db.lists c), _, ?_, hholds.nodup, hfollows, hunlinked,
      ?_⟩
    · rw [show ({ db := db, head := none, tail := none, numObjects := 0 } : Listing) = s from rfl,
        hfilter, hnum, hhead]
    · rw [hrefs]
      rcases htype with htype | htype
      · rw [if_neg (by simp [htype.1])]
        simp only [accept_children htype, List.map_map]
        rfl
      · rw [if_pos htype.1, List.map_map]
        refine congrArg (List.map _) (List.filter_congr fun o ho => ?_)
        rw [h.accept_files hk htype ho]
        simp

end VitaMTP
