import Mathlib.Logic.Relation
import VitaMTP.Database.Entries
import VitaMTP.Database.Reachable

/-! On a finite directory tree the scan returns, unless a path overruns the buffer. -/
namespace VitaMTP
open Relation

/-- The directories below `dir` nest less than `n` deep. -/
def DirView.Nests (view : DirView) : ℕ → CString → Prop
  | 0, _ => False
  | n + 1, dir => ∀ names, view.opendir (dir ++ ['/']) = some names → ∀ name ∈ names,
      name.head? ≠ some '.' → view.Nests n (joinPath dir name)

theorem forall_split_cons {α : Type*} {a : α} {l : List α} {P : List α → α → Prop} :
    (∀ p x r, a :: l = p ++ x :: r → P p x) ↔ P [] a ∧ ∀ p x r, l = p ++ x :: r → P (a :: p) x := by
  constructor
  · refine fun h => ⟨h [] a l rfl, fun p x r hsplit => h (a :: p) x r ?_⟩
    rw [hsplit, List.cons_append]
  · rintro ⟨hhead, htail⟩ p x r hsplit
    rcases List.cons_eq_append_iff.mp hsplit with ⟨rfl, hcons⟩ | ⟨p, rfl, hrest⟩
    · obtain ⟨rfl, -⟩ := List.cons.inj hcons
      exact hhead
    · exact htail p x r hrest

theorem isSome_bind_iff {α β : Type*} {a : Option α} {f : α → Option β} {R : Prop}
    (h : ∀ x, (f x).isSome ↔ R) : (a.bind f).isSome ↔ a.isSome ∧ R := by
  cases a with
  | none => simp
  | some x => simpa using h x

namespace DirView

variable (view : DirView)

/-- A directory that the scan of `dir` goes down to. -/
def GoesTo (dir sub : CString) : Prop :=
  ∃ p name r, view.opendir (dir ++ ['/']) = some (p ++ name :: r) ∧ name.head? ≠ some '.' ∧
    view.kindAt (joinPath dir (view.uncut dir p ++ name)) = some true ∧ sub = joinPath dir name

/-- The buffer holds the path of the directory and all that is looked for in it. -/
structure FitsIn (dir : CString) : Prop where
  slash : (dir ++ ['/']).length < PATH_MAX
  names : ∀ p name r, view.opendir (dir ++ ['/']) = some (p ++ name :: r) →
    name.head? ≠ some '.' → (joinPath dir (view.uncut dir p ++ name)).length < PATH_MAX

/-- No path overruns the buffer in a scan of `root`. -/
def Fits (root : CString) : Prop := ∀ dir, ReflTransGen view.GoesTo root dir → view.FitsIn dir

variable {view}

theorem fits_iff {dir : CString} :
    view.Fits dir ↔ view.FitsIn dir ∧ ∀ sub, view.GoesTo dir sub → view.Fits sub := by
  constructor
  · exact fun h => ⟨h dir .refl, fun sub hsub d hd => h d (.head hsub hd)⟩
  · rintro ⟨hdir, hbelow⟩ d hd
    rcases hd.cases_head with rfl | ⟨sub, hsub, hd⟩
    · exact hdir
    · exact hbelow sub hsub d hd

/-- What an element of `names` and those in front of it are asked for: the path fits, and so does
the directory at it. -/
theorem fits_iff_names {dir : CString} {names : List CString}
    (hopen : view.opendir (dir ++ ['/']) = some names) :
    view.Fits dir ↔ (dir ++ ['/']).length < PATH_MAX ∧
      ∀ p name r, names = p ++ name :: r → name.head? ≠ some '.' →
        (joinPath dir (p.foldl (view.uncutBy dir) [] ++ name)).length < PATH_MAX ∧
        (view.kindAt (joinPath dir (p.foldl (view.uncutBy dir) [] ++ name)) = some true →
          view.Fits (joinPath dir name)) := by
  rw [fits_iff]
  constructor
  · rintro ⟨⟨hdir, hnames⟩, hbelow⟩
    refine ⟨hdir, fun p name r hsplit hvisible => ?_⟩
    have hopen := hopen.trans (congrArg some hsplit)
    exact ⟨hnames p name r hopen hvisible, fun hkind =>
      hbelow _ ⟨p, name, r, hopen, hvisible, hkind, rfl⟩⟩
  · rintro ⟨hdir, hnames⟩
    refine ⟨⟨hdir, fun p name r hopen' hvisible => ?_⟩, ?_⟩
    · exact (hnames p name r (Option.some.inj (hopen.symm.trans hopen')) hvisible).1
    · rintro _ ⟨p, name, r, hopen', hvisible, hkind, rfl⟩
      exact (hnames p name r (Option.some.inj (hopen.symm.trans hopen')) hvisible).2 hkind

end DirView

section scan

variable {view : DirView}

theorem entriesIn_isSome_iff {below : ℤ → CmaObject → Option Block} {last : CmaObject}
    {Q : CString → Prop} {names : List CString}
    (hbelow : ∀ name ∈ names, name.head? ≠ some '.' → ∀ count size type,
      (below (count + 1) (newObject count last name size type)).isSome ↔ Q (joinPath last.path name))
    (count : ℤ) (rest : CString) :
    (entriesIn view below last count (joinPath last.path rest) names).isSome ↔
      ∀ p name r, names = p ++ name :: r → name.head? ≠ some '.' →
        (joinPath last.path (p.foldl (view.uncutBy last.path) rest ++ name)).length < PATH_MAX ∧
        (view.kindAt (joinPath last.path (p.foldl (view.uncutBy last.path) rest ++ name)) =
          some true → Q (joinPath last.path name)) := by
  induction names generalizing count rest with
  | nil => simp [entriesIn]
  | cons name names ih =>
    have hnext := ih fun name hname => hbelow name (List.mem_cons_of_mem _ hname)
    have hjoin : joinPath last.path rest ++ name = joinPath last.path (rest ++ name) := by
      simp [joinPath]
    rw [forall_split_cons]
    simp only [entriesIn, hjoin, List.foldl_nil, List.foldl_cons]
    split_ifs with hhidden hlong
    · rw [hnext, DirView.uncutBy, if_pos hhidden]
      exact ⟨fun h => ⟨fun hvisible => absurd hhidden hvisible, h⟩, And.right⟩
    · refine iff_of_false (by simp) fun h => ?_
      have := (h.1 hhidden).1
      omega
    · rw [DirView.uncutBy, if_neg hhidden]
      cases hstat : view.stat (joinPath last.path (rest ++ name)) with
      | none =>
        have hkind : view.kindAt (joinPath last.path (rest ++ name)) = none := by
          rw [DirView.kindAt, hstat]
          rfl
        have hfits : (joinPath last.path (rest ++ name)).length < PATH_MAX := by omega
        simp [hnext, hkind, hfits]
      | some statbuf =>
        have hkind : view.kindAt (joinPath last.path (rest ++ name)) = some statbuf.isDir := by
          rw [DirView.kindAt, hstat]
          rfl
        have hinside : (bif (newObject count last name statbuf.size statbuf.dataType).isFolder then
            below (count + 1) (newObject count last name statbuf.size statbuf.dataType)
            else some ([], 0)).isSome ↔ (statbuf.isDir = true → Q (joinPath last.path name)) := by
          rw [newObject_isFolder]
          cases statbuf.isDir with
          | true => simpa using hbelow name (by simp) hhidden count statbuf.size statbuf.dataType
          | false => simp
        have hfits : (joinPath last.path (rest ++ name)).length < PATH_MAX := by omega
        rw [imp_iff_right hhidden, and_iff_right hfits, hkind, Option.some_inj, ← hinside]
        refine isSome_bind_iff fun inside => ?_
        have hcut : last.path ++ ['/'] = joinPath last.path [] := rfl
        rw [Option.bind_eq_bind, Option.isSome_bind, hcut]
        simpa using hnext (count + 1 + inside.1.length) []

theorem entriesBelow_isSome_iff {n : ℕ} {last : CmaObject} (h : view.Nests n last.path)
    (count : ℤ) : (entriesBelow view n count last).isSome ↔ view.Fits last.path := by
  induction n generalizing last count with
  | zero => exact h.elim
  | succ n ih =>
    simp only [entriesBelow]
    split_ifs with hlong
    · refine iff_of_false (by simp) fun hfits => ?_
      have := (DirView.fits_iff.mp hfits).1.slash
      omega
    cases hdir : view.opendir (last.path ++ ['/']) with
    | none =>
      refine iff_of_true rfl (DirView.fits_iff.mpr ⟨⟨by omega, ?_⟩, ?_⟩)
      · simp [hdir]
      · rintro sub ⟨p, name, r, hopen, -⟩
        simp [hdir] at hopen
    | some names =>
      rw [DirView.fits_iff_names hdir, and_iff_right (by omega)]
      exact entriesIn_isSome_iff (fun name hname hvisible count size type =>
        ih (h names hdir name hname hvisible) (count + 1)) count []

variable {paths : CmaPaths} {uuid : CString} {db : Database}

/-- On a finite tree the scan of a directory returns if no path overruns the buffer. -/
theorem WellFormed.scan_isSome_iff (h : WellFormed paths uuid db) {c : Category} {last : CmaObject}
    (hlast : last ∈ db.lists c) {n : ℕ} (hnests : view.Nests n last.path) :
    (VitaMTP.addEntriesForDirectory view c n db last.ohfi).isSome ↔ view.Fits last.path := by
  rw [addEntriesForDirectory_eq view c n db last (h.counted_list c) (h.get?_eq hlast),
    Option.isSome_map, entriesBelow_isSome_iff hnests]

theorem createDatabase_isSome_iff {n : ℕ}
    (hnests : ∀ c : Category, view.Nests n (c.path paths uuid)) :
    (createDatabase view n paths uuid).isSome ↔ ∀ c : Category, view.Fits (c.path paths uuid) := by
  have hfold (cs : List Category) (db : Database) (h : WellFormed paths uuid db) :
      (cs.foldlM (fun db c => addEntriesForDirectory view c n db c.ohfi) db).isSome ↔
        ∀ c ∈ cs, view.Fits (c.path paths uuid) := by
    induction cs generalizing db with
    | nil => simp
    | cons c cs ih =>
      obtain ⟨m, hm, hid, hmaster⟩ := h.master_mem c
      have hscan := h.scan_isSome_iff hm (hmaster.path ▸ hnests c)
      rw [hmaster.path, hid] at hscan
      rw [List.foldlM_cons, List.forall_mem_cons, ← hscan]
      cases hentries : addEntriesForDirectory view c n db c.ohfi with
      | none => simp
      | some db' => simpa using ih db' (h.addEntriesForDirectory hm (hid ▸ hentries))
  simpa [createDatabase] using hfold Category.all _ (WellFormed.init paths uuid)

end scan

theorem sample_nests (c : Category) : sampleView.Nests 3 (c.path samplePaths ['0']) := by
  cases c <;> simp [DirView.Nests, sampleView, Category.path, samplePaths, appsDir, joinPath]

theorem sample_fits (c : Category) : sampleView.Fits (c.path samplePaths ['0']) :=
  (createDatabase_isSome_iff sample_nests).mp (by rw [sample_created]; rfl) c

end VitaMTP
