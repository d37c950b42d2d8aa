import VitaMTP.Database.FiniteTree
import VitaMTP.Database.Totals
import VitaMTP.Library.PreOrder

/-! The lists right after `createDatabase`: in pre-order, with sizes that add up. -/
namespace VitaMTP
open ParentFirst

theorem Scanned.preOrdered {last : CmaObject} {count : ℤ} {os : List CmaObject} {total : ULong}
    (h : Scanned last count os total) :
    PreOrdered CmaObject.ohfi CmaObject.ohfiParent last.ohfi os := by
  induction h with
  | nil => exact .nil _
  | cons hcurrent _ _ _ hin hout =>
    refine .cons ?_ hin hout
    subst hcurrent
    rfl

theorem Numbered.increasing {count : ℤ} {os : List CmaObject} (h : Numbered count os) :
    os.Pairwise fun x y => x.ohfi < y.ohfi := by
  induction os generalizing count with
  | nil => exact .nil
  | cons o os ih =>
    refine .cons (fun y hy => ?_) (ih h.2)
    have := h.1
    have := (h.2.bounds y hy).1
    omega

/-- The shape of a list nothing but the scan has written to. -/
structure FreshList (c : Category) (l : List CmaObject) : Prop where
  increasing : l.Pairwise fun x y => x.ohfi < y.ohfi
  preOrdered : PreOrdered CmaObject.ohfi CmaObject.ohfiParent c.ohfi l.tail

def Database.Fresh (db : Database) : Prop := ∀ c, FreshList c (db.lists c)

theorem FreshList.congr {c : Category} {l l' : List CmaObject} (h : FreshList c l)
    (hids : l'.map (fun o => (o.ohfi, o.ohfiParent)) = l.map (fun o => (o.ohfi, o.ohfiParent))) :
    FreshList c l' := by
  constructor
  · have hmap : l'.map CmaObject.ohfi = l.map CmaObject.ohfi := by
      simpa [Function.comp_def] using congrArg (List.map Prod.fst) hids
    have hold : (l.map CmaObject.ohfi).Pairwise (· < ·) := List.pairwise_map.mpr h.increasing
    exact List.pairwise_map.mp (hmap ▸ hold)
  · refine h.preOrdered.congr ?_
    rw [List.map_tail, List.map_tail, hids]

theorem FreshList.append {c : Category} {m : CmaObject} {objects os : List CmaObject} {count : ℤ}
    (h : FreshList c (m :: objects)) (hlow : ∀ o ∈ m :: objects, o.ohfi < count)
    (hos : Numbered count os)
    (hpre : PreOrdered CmaObject.ohfi CmaObject.ohfiParent c.ohfi os) :
    FreshList c (m :: objects ++ os) := by
  constructor
  · refine List.pairwise_append.mpr ⟨h.increasing, hos.increasing, fun x hx y hy => ?_⟩
    have h₁ := hlow x hx
    have h₂ := (hos.bounds y hy).1
    omega
  · exact h.preOrdered.append hpre

namespace WellFormed

variable {view : DirView} {paths : CmaPaths} {uuid : CString} {db : Database} {n : ℕ}

theorem fresh_createDatabase (hdb : VitaMTP.createDatabase view n paths uuid = some db) :
    db.Fresh := by
  refine (createDatabase_induction hdb ?_ fun db₀ c m b h hfresh hm hmaster hb => ?_).2
  · intro c
    rw [initDatabase_eq]
    exact ⟨List.pairwise_singleton _ _, .nil _⟩
  · have hscanned := entriesBelow_scanned hb
    rw [h.scan_grown hm hmaster hscanned.numbered b.2]
    intro d
    by_cases hd : d = c
    · subst hd
      obtain ⟨m', hlist, hmaster'⟩ := h.master d
      have hpre := hscanned.preOrdered
      rw [hmaster.ohfi] at hpre
      have hlow : ∀ o ∈ m' :: db₀.objects d, o.ohfi < db₀.ohfiCount := by
        rw [← hlist]
        exact h.counted_list d
      have hnew := (hlist ▸ hfresh d).append hlow hscanned.numbered hpre
      rw [Database.grown_lists_self]
      refine hnew.congr ?_
      rw [List.map_append, sizeAdded_ids, List.map_append, hlist]
    · rw [Database.grown_lists_of_ne hd]
      exact hfresh d

/-- What is behind an object of a fresh list starts with exactly what is below it. -/
theorem contiguous_of_fresh (h : WellFormed paths uuid db) {c : Category}
    (hfresh : FreshList c (db.lists c)) {p r : List CmaObject} {x : CmaObject}
    (hl : db.lists c = p ++ x :: r) :
    ∃ block others, r = block ++ others ∧
      ∀ o ∈ db.lists c, o ∈ block ↔ o ≠ x ∧ NodesBelow (db.lists c) x.ohfi o.ohfi := by
  obtain ⟨m, hlist, hmaster⟩ := h.master c
  have htail : PreOrdered CmaObject.ohfi CmaObject.ohfiParent m.ohfi (db.objects c) := by
    rw [hmaster.ohfi]
    exact hfresh.preOrdered
  have hwhole : PreOrdered CmaObject.ohfi CmaObject.ohfiParent 0 (db.lists c) := by
    have := PreOrdered.cons hmaster.ohfiParent htail (.nil 0)
    rwa [List.append_nil, ← hlist] at this
  refine hwhole.contiguous (h.ordered c) (fun hmem => ?_) hl
  obtain ⟨o, ho, hid⟩ := List.mem_map.mp hmem
  have := h.ohfi_pos ho
  omega

end WellFormed

/-- The object of an entry, inserted with what the scan took for it. -/
def CmaObject.Scanned (o : CmaObject) (view : DirView) : Prop :=
  ∃ statbuf, o.FoundWith view statbuf ∧ o.insertedSize = statbuf.size

theorem WellFormed.scanned_createDatabase {view : DirView} {n : ℕ} {paths : CmaPaths}
    {uuid : CString} {db : Database}
    (hdb : VitaMTP.createDatabase view n paths uuid = some db) :
    ∀ c, ∀ o ∈ db.lists c, o.ohfi = c.ohfi ∨ o.Scanned view := by
  refine (createDatabase_induction (P := fun db => ∀ c, ∀ o ∈ db.lists c,
    o.ohfi = c.ohfi ∨ o.Scanned view) hdb ?_ fun db₀ c m b h hs hm hmaster hb => ?_).2
  · intro c o ho
    rw [initDatabase_eq] at ho
    obtain rfl := List.mem_singleton.mp ho
    exact Or.inl (by cases c <;> rfl)
  · rw [h.scan_grown hm hmaster (entriesBelow_scanned hb).numbered b.2]
    exact forall_grown (P := fun c o => o.ohfi = c.ohfi ∨ o.Scanned view) (fun _ _ _ ho => ho) hs
      (fun o ho => Or.inr (entriesBelow_fromEntry hb o ho).foundWith) _ _ _

/-- The list of a category right after a scan: ids go up, every object is followed by the block of
exactly what is below it, the size of a folder is the `st_size` it was inserted with and the sizes
directly below it, and the size of the category is the sizes directly below it. -/
structure ScanShape (view : DirView) (db : Database) (c : Category) : Prop where
  increasing : (db.lists c).Pairwise fun x y => x.ohfi < y.ohfi
  contiguous : ∀ p x r, db.lists c = p ++ x :: r → ∃ block others, r = block ++ others ∧
    ∀ o ∈ db.lists c, o ∈ block ↔ o ≠ x ∧ NodesBelow (db.lists c) x.ohfi o.ohfi
  folders : ∀ x ∈ db.objects c, x.isFolder → ∃ statbuf, x.FoundWith view statbuf ∧
    x.insertedSize = statbuf.size ∧
    x.metadata.size = statbuf.size + sizeBelow (db.lists c) x.ohfi
  category : ∀ m ∈ (db.lists c).head?, m.ohfi = c.ohfi ∧
    m.metadata.size = sizeBelow (db.lists c) m.ohfi

theorem scanShape_createDatabase {view : DirView} {n : ℕ} {paths : CmaPaths} {uuid : CString}
    {db : Database} (hdb : createDatabase view n paths uuid = some db) (c : Category) :
    ScanShape view db c := by
  have h := WellFormed.createDatabase hdb
  have hfresh := WellFormed.fresh_createDatabase hdb c
  have hadds := WellFormed.addsUp_createDatabase hdb c
  constructor
  · exact hfresh.increasing
  · exact fun p x r hl => h.contiguous_of_fresh hfresh hl
  · intro x hx hfolder
    have hxl := WellFormed.mem_of_objects hx
    obtain ⟨statbuf, hfound, hsize⟩ := (WellFormed.scanned_createDatabase hdb c x hxl).resolve_left
      (h.ohfi_ne_master hx)
    exact ⟨statbuf, hfound, hsize, hsize ▸ hadds x hxl (Or.inl hfolder)⟩
  · intro m hm
    obtain ⟨m', hlist, hmaster⟩ := h.master c
    rw [hlist, List.head?_cons, Option.mem_some_iff] at hm
    subst hm
    have hml : m' ∈ db.lists c := by
      rw [hlist]
      simp
    have hsize := WellFormed.inserted_createDatabase hdb c m' hml
    rw [InsertedSize, if_pos (Or.inl hmaster.ohfi)] at hsize
    have hsum := hadds m' hml (Or.inr hmaster.ohfi)
    rw [AddsUp, hsize, zero_add] at hsum
    exact ⟨hmaster.ohfi, hsum⟩

/-- The scan of a finite tree gives lists of this shape if and only if the buffer holds all the
paths that are looked for. -/
theorem createDatabase_shape_iff {view : DirView} {n : ℕ} {paths : CmaPaths} {uuid : CString}
    (hnests : ∀ c : Category, view.Nests n (c.path paths uuid)) :
    (∃ db, createDatabase view n paths uuid = some db ∧ ∀ c, ScanShape view db c) ↔
      ∀ c : Category, view.Fits (c.path paths uuid) := by
  rw [← createDatabase_isSome_iff hnests, Option.isSome_iff_exists]
  exact exists_congr fun db => and_iff_left_of_imp scanShape_createDatabase

theorem createDatabase_shape_sample :
    (sampleObject 1).metadata.size =
        (sampleObject 1).insertedSize + sizeBelow (sampleDatabase.lists .photos) 1005 ∧
      (sampleObject 0).metadata.size = sizeBelow (sampleDatabase.lists .photos) 2 := by
  obtain ⟨db, hdb, hshape⟩ := (createDatabase_shape_iff sample_nests).mpr sample_fits
  obtain rfl := Option.some.inj (sample_created.symm.trans hdb)
  constructor
  · obtain ⟨statbuf, -, hinserted, hsize⟩ :=
      (hshape .photos).folders (sampleObject 1) (by decide) (by decide)
    rw [hinserted]
    exact hsize
  · exact ((hshape .photos).category (sampleObject 0) (by decide)).2

/-- Seventeen photos that are links to nothing, with names of 239 to 255 characters. -/
def crowdedView : DirView where
  opendir path :=
    if path = ['/', 'p', '/'] then
      some ((List.range 17).map fun i => List.replicate (239 + i) 'x')
    else none
  stat _ := none

theorem scan_overruns :
    (∀ c : Category, crowdedView.Nests 3 (c.path samplePaths ['0'])) ∧
      (∀ dir names, crowdedView.opendir dir = some names →
        names.Nodup ∧ ∀ name ∈ names, (dir ++ name).length < PATH_MAX) ∧
      ¬ ∃ db, createDatabase crowdedView 3 samplePaths ['0'] = some db ∧
        ∀ c, ScanShape crowdedView db c := by
  refine ⟨fun c names hopen name hname hvisible names' hopen' => ?_, fun dir names hopen => ?_, ?_⟩
  · have hno : joinPath (c.path samplePaths ['0']) name ++ ['/'] ≠ ['/', 'p', '/'] := by
      simp only [crowdedView] at hopen
      split_ifs at hopen
      obtain rfl := Option.some.inj hopen
      obtain ⟨i, -, rfl⟩ := List.mem_map.mp hname
      intro hpath
      have hlen := congrArg List.length hpath
      simp [joinPath] at hlen
      omega
    simp [crowdedView, hno] at hopen'
  · simp only [crowdedView] at hopen
    split_ifs at hopen with hdir
    obtain rfl := Option.some.inj hopen
    subst hdir
    constructor
    · decide +kernel
    · decide +kernel
  · rintro ⟨db, hdb, -⟩
    have hnone : createDatabase crowdedView 3 samplePaths ['0'] = none := by decide +kernel
    rw [hnone] at hdb
    simp at hdb

end VitaMTP
