import VitaMTP.Library.Chain
import VitaMTP.Database.Kinds

/-! `filterObjects` threads the listing of an object through the stored metadata records. -/
namespace VitaMTP
open ParentFirst

namespace Database

/-- Read through a `metadata_t *`. -/
def deref (db : Database) : MetaRef → Option Metadata
  | .object c k => (db.lists c)[k]?.map (·.metadata)
  | .filter c k j => (db.lists c)[k]?.bind (·.filters[j]?)

/-- Write `next_metadata` through a `metadata_t *`. -/
def setNext (db : Database) (r : MetaRef) (next : Option MetaRef) : Database :=
  match r with
  | .object c k => db.setList c ((db.lists c).modify k fun o =>
      { o with metadata := { o.metadata with nextMetadata := next } })
  | .filter c k j => db.setList c ((db.lists c).modify k fun o =>
      { o with filters := o.filters.modify j fun m => { m with nextMetadata := next } })

def next (db : Database) (r : MetaRef) : Option MetaRef := (db.deref r).bind (·.nextMetadata)

end Database

def acceptFilteredObject (parent current : CmaObject) (type : Mask) : Bool :=
  let result :=
    if maskSet type DirType.PHOTO then current.metadata.dataType &&& DataType.Photo != 0
    else if maskSet type DirType.VIDEO then current.metadata.dataType &&& DataType.Video != 0
    else if maskSet type DirType.MUSIC then current.metadata.dataType &&& DataType.Music != 0
    else false
  if type &&& (DirType.ALL ||| DirType.SONGS) != 0 then result && current.isFile
  else if type &&& DirType.REGULAR != 0 then parent.ohfi == current.ohfiParent
  else result

/-- The number of filters, the head of their list and the database with the links written.
`k` is the place of `parent` in its list. -/
def getFilters (db : Database) (c : Category) (k : ℕ) (parent : CmaObject) :
    ℕ × Option MetaRef × Database :=
  let numObjects := parent.filters.length
  let db := (List.range numObjects).foldl
    (fun db i => db.setNext (.filter c k i) (some (.filter c k (i + 1)))) db
  (numObjects, some (.filter c k 0), db.setNext (.filter c k (numObjects - 1)) none)

/-- The local variables of `filterObjects`. `head` is `temp.next_metadata`, and `tail` is
`none` as long as it points to `temp`. -/
structure Listing where
  db : Database
  head : Option MetaRef
  tail : Option MetaRef
  numObjects : ℕ

namespace Listing

/-- `tail->next_metadata = next`. -/
def setTailNext (s : Listing) (next : Option MetaRef) : Listing :=
  match s.tail with
  | none => { s with head := next }
  | some r => { s with db := s.db.setNext r next }

def append (s : Listing) (r : MetaRef) : Listing :=
  { s.setTailNext (some r) with tail := some r, numObjects := s.numObjects + 1 }

end Listing

def filterList (parent : CmaObject) (type : Mask) (c : Category) :
    ℕ → List CmaObject → Listing → Listing
  | _, [], s => s
  | k, object :: rest, s =>
    filterList parent type c (k + 1) rest
      (if acceptFilteredObject parent object type then s.append (.object c k) else s)

def filterCategories (parent : CmaObject) (type : Mask) : List Category → Listing → Listing
  | [], s => s
  | c :: cs, s =>
    let s := filterList parent type c 0 (s.db.lists c) s
    -- quick speedup to prevent looking at all lists
    if 0 < s.numObjects then s else filterCategories parent type cs s

/-- The type to list by: that of the filter with this id, or of the object itself. -/
def listType (parent : CmaObject) (ohfiParent : ℤ) : Mask :=
  match parent.filters.find? (fun m => m.ohfi == ohfiParent) with
  | none => parent.metadata.type
  | some m => m.type

/-- The count, what is written to `*p_head` and the database. `*p_head` is left alone when
there is no such object. -/
def filterObjects (db : Database) (ohfiParent : ℤ) : ℕ × Option (Option MetaRef) × Database :=
  match ohfiToObject db ohfiParent with
  | none => (0, none, db)
  | some (c, parent) =>
    if parent.filters ≠ [] ∧ ohfiParent = parent.ohfi then
      let k := (db.lists c).findIdx (fun o => o.ohfi == parent.ohfi)
      let (numObjects, head, db) := getFilters db c k parent
      (numObjects, some head, db)
    else
      let s := filterCategories parent (listType parent ohfiParent) Category.all
        { db := db, head := none, tail := none, numObjects := 0 }
      let s := s.setTailNext none
      (s.numObjects, some s.head, s.db)

namespace Database

variable {db : Database} {r r' : MetaRef} {v : Option MetaRef}

theorem deref_setNext :
    (db.setNext r v).deref r' =
      if r' = r then (db.deref r').map (fun m => { m with nextMetadata := v })
      else db.deref r' := by
  cases r with
  | object c k =>
    cases r' with
    | object d j =>
      by_cases hd : d = c
      · subst hd
        simp only [setNext, deref, setList_lists_self, List.getElem?_modify, MetaRef.object.injEq,
          true_and]
        by_cases hj : k = j
        · subst hj
          simp [Function.comp_def]
        · simp [hj, Ne.symm hj]
      · simp [setNext, deref, hd]
    | filter d j i =>
      by_cases hd : d = c
      · subst hd
        simp only [setNext, deref, setList_lists_self, List.getElem?_modify, reduceCtorEq, if_false]
        by_cases hj : k = j
        · subst hj
          cases (db.lists d)[k]? <;> simp
        · simp [hj]
      · simp [setNext, deref, hd]
  | filter c k i =>
    cases r' with
    | object d j =>
      by_cases hd : d = c
      · subst hd
        simp only [setNext, deref, setList_lists_self, List.getElem?_modify, reduceCtorEq, if_false]
        by_cases hj : k = j
        · subst hj
          cases (db.lists d)[k]? <;> simp
        · simp [hj]
      · simp [setNext, deref, hd]
    | filter d j i' =>
      by_cases hd : d = c
      · subst hd
        simp only [setNext, deref, setList_lists_self, List.getElem?_modify,
          MetaRef.filter.injEq, true_and]
        by_cases hj : k = j
        · subst hj
          cases (db.lists d)[k]? with
          | none => simp
          | some o =>
            by_cases hi : i = i'
            · subst hi
              simp
            · simp [hi, Ne.symm hi]
        · simp [hj, Ne.symm hj]
      · simp [setNext, deref, hd]

theorem setNext_isSome : ((db.setNext r v).deref r').isSome = (db.deref r').isSome := by
  rw [deref_setNext]
  split <;> simp

theorem next_setNext (hr : (db.deref r).isSome) :
    (db.setNext r v).next = Function.update db.next r v := by
  funext r'
  rw [next, deref_setNext]
  by_cases h : r' = r
  · subst h
    obtain ⟨m, hm⟩ := Option.isSome_iff_exists.mp hr
    simp [hm]
  · simp [h, next]

theorem unlinked_setNext : (db.setNext r v).unlinked = db.unlinked := by
  have hmodify (l : List CmaObject) (k : ℕ) (f : CmaObject → CmaObject)
      (hf : ∀ o, (f o).unlinked = o.unlinked) :
      (l.modify k f).map CmaObject.unlinked = l.map CmaObject.unlinked := by
    refine List.ext_getElem? fun i => ?_
    simp only [List.getElem?_map, List.getElem?_modify]
    cases l[i]? with
    | none => simp
    | some o =>
      by_cases hk : k = i
      · simp [hk, hf]
      · simp [hk]
  have hlists (c : Category) (l : List CmaObject)
      (hl : l.map CmaObject.unlinked = (db.lists c).map CmaObject.unlinked) :
      (db.setList c l).unlinked = db.unlinked := by
    have : (db.setList c l).unlinked.lists = db.unlinked.lists := by
      funext d
      by_cases hd : d = c
      · subst hd
        simpa [unlinked] using hl
      · simp [unlinked, hd]
    unfold unlinked at this ⊢
    simp only at this
    rw [setList_ohfiCount, this]
  cases r with
  | object c k => exact hlists c _ (hmodify _ k _ fun o => rfl)
  | filter c k j =>
    refine hlists c _ (hmodify _ k _ fun o => ?_)
    have : (o.filters.modify j fun m => { m with nextMetadata := v }).map Metadata.unlinked =
        o.filters.map Metadata.unlinked := by
      refine List.ext_getElem? fun i => ?_
      simp only [List.getElem?_map, List.getElem?_modify]
      cases o.filters[i]? with
      | none => simp
      | some m =>
        by_cases hj : j = i
        · simp [hj, Metadata.unlinked]
        · simp [hj]
    simp [CmaObject.unlinked, this]

theorem deref_unlinked : db.unlinked.deref r = (db.deref r).map Metadata.unlinked := by
  cases r with
  | object c k => simp [deref, unlinked, CmaObject.unlinked, Function.comp_def]
  | filter c k j =>
    simp only [deref, unlinked, List.getElem?_map]
    cases (db.lists c)[k]? <;> simp [CmaObject.unlinked]

theorem isSome_of_unlinked {db' : Database} (h : db'.unlinked = db.unlinked)
    (hr : (db.deref r).isSome) : (db'.deref r).isSome := by
  have := congrArg (fun db => (db.deref r).isSome) h
  simp only [deref_unlinked, Option.isSome_map] at this
  exact this ▸ hr

end Database

/-- The listing so far is the chain of `l`, up to the link of the last element. -/
structure Listing.Holds (db : Database) (s : Listing) (l : List MetaRef) : Prop where
  numObjects : s.numObjects = l.length
  head : s.head = l.head?
  tail : s.tail = l.getLast?
  nodup : l.Nodup
  valid : ∀ r ∈ l, (s.db.deref r).isSome
  links : Chain.Links s.db.next l
  unlinked : s.db.unlinked = db.unlinked

namespace Listing.Holds

variable {db : Database} {s : Listing} {l : List MetaRef} {r : MetaRef}

theorem append (h : s.Holds db l) (hr : r ∉ l) (hvalid : (db.deref r).isSome) :
    (s.append r).Holds db (l ++ [r]) := by
  have hnodup : (l ++ [r]).Nodup := by
    simpa [List.nodup_append] using ⟨h.nodup, fun a ha he => hr (he ▸ ha)⟩
  have hrs : (s.db.deref r).isSome := Database.isSome_of_unlinked h.unlinked hvalid
  rcases List.eq_nil_or_concat l with rfl | ⟨p, t, rfl⟩
  · have htail : s.tail = none := h.tail
    refine ⟨by simp [Listing.append, h.numObjects], by simp [Listing.append, setTailNext, htail],
      by simp [Listing.append], hnodup, ?_, List.IsChain.singleton r, ?_⟩
    · simpa [Listing.append, setTailNext, htail] using hrs
    · simpa [Listing.append, setTailNext, htail] using h.unlinked
  · have htail : s.tail = some t := by simpa using h.tail
    have ht : (s.db.deref t).isSome := h.valid t (by simp)
    have hdb : (s.append r).db = s.db.setNext t (some r) := by
      simp [Listing.append, setTailNext, htail]
    rw [List.concat_eq_append] at *
    refine ⟨by simp [Listing.append, h.numObjects], ?_, by simp [Listing.append], hnodup,
      fun a ha => ?_, ?_, ?_⟩
    · have hhead : (p ++ [t] ++ [r]).head? = (p ++ [t]).head? := by cases p <;> simp
      rw [hhead, ← h.head]
      simp [Listing.append, setTailNext, htail]
    · rw [hdb, Database.setNext_isSome]
      rcases List.mem_append.mp ha with ha | ha
      · exact h.valid a ha
      · exact List.mem_singleton.mp ha ▸ hrs
    · rw [hdb, Database.next_setNext ht]
      exact (h.links.update_last h.nodup).concat (by simp)
    · rw [hdb, Database.unlinked_setNext]
      exact h.unlinked

theorem finish (h : s.Holds db l) :
    (s.setTailNext none).numObjects = l.length ∧ (s.setTailNext none).head = l.head? ∧
      Chain.Follows (s.setTailNext none).db.next l.head? l ∧
      (s.setTailNext none).db.unlinked = db.unlinked := by
  rcases List.eq_nil_or_concat l with rfl | ⟨p, t, rfl⟩
  · have htail : s.tail = none := h.tail
    have hset : s.setTailNext none = { s with head := none } := by simp [setTailNext, htail]
    rw [hset]
    exact ⟨h.numObjects, rfl, rfl, h.unlinked⟩
  · have htail : s.tail = some t := by simpa using h.tail
    have ht : (s.db.deref t).isSome := h.valid t (by simp)
    have hset : s.setTailNext none = { s with db := s.db.setNext t none } := by
      simp [setTailNext, htail]
    rw [List.concat_eq_append] at *
    rw [hset]
    refine ⟨h.numObjects, h.head, ?_, by rw [Database.unlinked_setNext, h.unlinked]⟩
    rw [Database.next_setNext ht]
    exact (h.links.update_last h.nodup).follows (by simp)

end Listing.Holds

/-- The records of the accepted objects of a list that starts at place `k`. -/
def acceptedRefs (parent : CmaObject) (type : Mask) (c : Category) :
    ℕ → List CmaObject → List MetaRef
  | _, [] => []
  | k, object :: rest =>
    if acceptFilteredObject parent object type then
      .object c k :: acceptedRefs parent type c (k + 1) rest
    else acceptedRefs parent type c (k + 1) rest

theorem filterList_holds {parent : CmaObject} {type : Mask} {c : Category} {db : Database}
    (os : List CmaObject) (k : ℕ) (s : Listing) (l : List MetaRef) (h : s.Holds db l)
    (hl : ∀ r ∈ l, ∃ j < k, r = .object c j)
    (hvalid : ∀ j, k ≤ j → j < k + os.length → (db.deref (.object c j)).isSome) :
    (filterList parent type c k os s).Holds db (l ++ acceptedRefs parent type c k os) := by
  induction os generalizing k s l with
  | nil => simpa [filterList, acceptedRefs] using h
  | cons o os ih =>
    have hvalid' : ∀ j, k + 1 ≤ j → j < k + 1 + os.length → (db.deref (.object c j)).isSome := by
      intro j hj hlt
      refine hvalid j (by omega) ?_
      simp only [List.length_cons]
      omega
    rw [filterList, acceptedRefs]
    by_cases ha : acceptFilteredObject parent o type
    · rw [if_pos ha, if_pos ha]
      have hfresh : MetaRef.object c k ∉ l := by
        intro hm
        obtain ⟨j, hj, he⟩ := hl _ hm
        simp only [MetaRef.object.injEq, true_and] at he
        omega
      have hnew := h.append hfresh (hvalid k le_rfl (by simp))
      have := ih (k + 1) (s.append (.object c k)) (l ++ [.object c k]) hnew (fun r hr => ?_) hvalid'
      · simpa using this
      · rcases List.mem_append.mp hr with hr | hr
        · obtain ⟨j, hj, he⟩ := hl r hr
          exact ⟨j, by omega, he⟩
        · exact ⟨k, by omega, List.mem_singleton.mp hr⟩
    · rw [if_neg ha, if_neg ha]
      exact ih (k + 1) s l h (fun r hr => by
        obtain ⟨j, hj, he⟩ := hl r hr
        exact ⟨j, by omega, he⟩) hvalid'

theorem filterList_none {parent : CmaObject} {type : Mask} {c : Category} (os : List CmaObject)
    (k : ℕ) (s : Listing) (h : ∀ o ∈ os, acceptFilteredObject parent o type = false) :
    filterList parent type c k os s = s := by
  induction os generalizing k with
  | nil => rfl
  | cons o os ih =>
    rw [filterList, h o (by simp)]
    exact ih (k + 1) fun y hy => h y (List.mem_cons_of_mem _ hy)

/-- With accepted objects in one category only, the early exit skips nothing. -/
theorem filterCategories_eq {parent : CmaObject} {type : Mask} {c : Category} {s : Listing}
    (hs : s.numObjects = 0)
    (hother : ∀ d, d ≠ c → ∀ o ∈ s.db.lists d, acceptFilteredObject parent o type = false)
    (hnone : (filterList parent type c 0 (s.db.lists c) s).numObjects = 0 →
      ∀ o ∈ s.db.lists c, acceptFilteredObject parent o type = false)
    (cs : List Category) :
    filterCategories parent type cs s =
      if c ∈ cs then filterList parent type c 0 (s.db.lists c) s else s := by
  induction cs with
  | nil => simp [filterCategories]
  | cons d ds ih =>
    simp only [filterCategories]
    by_cases hd : d = c
    · subst hd
      rw [if_pos (List.mem_cons_self ..)]
      split
      · rfl
      · rename_i hzero
        have hall : filterList parent type d 0 (s.db.lists d) s = s :=
          filterList_none (s.db.lists d) 0 s (hnone (by omega))
        rw [hall, ih, hall, ite_self]
    · rw [filterList_none _ 0 s (hother d hd), if_neg (by omega), ih]
      simp [Ne.symm hd]

theorem acceptedRefs_deref {parent : CmaObject} {type : Mask} {c : Category} {db : Database}
    (os p : List CmaObject) (hl : db.lists c = p ++ os) :
    (acceptedRefs parent type c p.length os).map db.deref =
      (os.filter fun o => acceptFilteredObject parent o type).map fun o => some o.metadata := by
  induction os generalizing p with
  | nil => rfl
  | cons o os ih =>
    have hnext : (acceptedRefs parent type c (p.length + 1) os).map db.deref =
        (os.filter fun o => acceptFilteredObject parent o type).map fun o => some o.metadata := by
      have := ih (p ++ [o]) (by simpa using hl)
      rwa [List.length_append, List.length_singleton] at this
    rw [acceptedRefs]
    by_cases ha : acceptFilteredObject parent o type
    · simp [ha, hnext, Database.deref, hl]
    · simp [ha, hnext]

end VitaMTP
