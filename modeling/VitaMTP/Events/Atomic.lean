import VitaMTP.Events.Received
import VitaMTP.Events.Requests

/-! What is left of a request whose file cannot be made or moved. -/
namespace VitaMTP
open ParentFirst

/-- The file-system step of a request on `x` fails. Only objects of a category can be renamed. -/
inductive FileStepFails {σ : Type} (posix : Posix σ) (s : Host σ) (c : Category) (x : CmaObject) :
    OperateObject → Prop
  | createFolder {ohfi : BitVec 32} {title : CString}
      (h : (createNewDirectory posix s.fs (joinPath x.path title)).1 = false) :
      FileStepFails posix s c x ⟨VITA_OPERATE_CREATE_FOLDER, ohfi, title⟩
  | createFile {ohfi : BitVec 32} {title : CString}
      (h : (createNewFile posix s.fs (joinPath x.path title)).1 = false) :
      FileStepFails posix s c x ⟨VITA_OPERATE_CREATE_FILE, ohfi, title⟩
  | rename {ohfi : BitVec 32} {title name path : CString} (hx : x ∈ s.db.objects c)
      (hname : x.metadata.name = some name) (hpath : x.metadata.path = some path)
      (h : posix.rename s.fs.state x.path
        (strreplace x.path path (strreplace path name title)) = none) :
      FileStepFails posix s c x ⟨VITA_OPERATE_RENAME, ohfi, title⟩

/-- The handler returns, the lists hold the same objects, and only the id counter may have
advanced. -/
def NothingDone {σ : Type} (s : Host σ) (result : Option (Host σ × List Message)) : Prop :=
  ∃ s' msgs, result = some (s', msgs) ∧ (∀ c, s'.db.lists c = s.db.lists c) ∧
    s.db.ohfiCount ≤ s'.db.ohfiCount

section operate

variable {σ : Type} {posix : Posix σ} {paths : CmaPaths} {uuid : CString} {s : Host σ}
  {c : Category} {x : CmaObject}

theorem remove_added (h : WellFormed paths uuid s.db) (hx : x ∈ s.db.lists c) (title : CString)
    (type : Mask) :
    removeFromDatabase (addToDatabase s.db c x title 0 type).1
        (addToDatabase s.db c x title 0 type).2.ohfi (some (c, x)) =
      some { s.db with ohfiCount := s.db.ohfiCount + 1 } := by
  have hblock : NewBlock s.db.ohfiCount x.ohfi [newObject s.db.ohfiCount x title 0 type] :=
    .cons rfl rfl ⟨rfl, _, _, rfl, rfl⟩ (.nil _ _)
  have hdiscard := h.grown_discard hx rfl hblock trivial le_rfl 0 (show x.ohfi = x.ohfi from rfl)
  have hadd : (addToDatabase s.db c x title 0 type).1 = s.db.grown c x.ohfi 0
      [newObject s.db.ohfiCount x title 0 type] (s.db.ohfiCount + 1) := by
    rw [Database.grown, sizeAdded_zero]
    rfl
  have hback : s.db.grown c x.ohfi 0 [] (s.db.ohfiCount + 1) =
      { s.db with ohfiCount := s.db.ohfiCount + 1 } := by
    rw [Database.grown, sizeAdded_zero, List.append_nil]
    simp
  rw [hadd, ← hback]
  exact hdiscard

theorem operateCreate_fails (h : WellFormed paths uuid s.db) (hx : x ∈ s.db.lists c)
    {create : Disk σ → CString → Outcome σ} {title : CString}
    (hfails : (create s.fs (joinPath x.path title)).1 = false) (type : Mask) :
    NothingDone s (operateCreate create type s (c, x) title) := by
  have hpath : (addToDatabase s.db c x title 0 type).2.path = joinPath x.path title := rfl
  unfold operateCreate
  simp only [hpath, hfails, Bool.false_eq_true, if_false, remove_added h hx, Option.bind_eq_bind,
    Option.bind_some]
  exact ⟨_, _, rfl, fun d => rfl, by simp⟩

end operate

/-- A request whose file-system step fails does nothing, for a rename exactly if undoing each of
its replacements restores the paths. -/
theorem operate_atomic_iff {allowed : CmaObject → Mask → Prop} {view : DirView} {n : ℕ}
    {paths : CmaPaths} {uuid : CString} {σ : Type} {posix : Posix σ} {s : Host σ}
    (h : Reachable allowed view n paths uuid s.db) {operate : OperateObject} {c : Category}
    {x : CmaObject} (hfound : ohfiToObject s.db operate.ohfi.toInt = some (c, x))
    (hfails : FileStepFails posix s c x operate) :
    NothingDone s (vitaEventOperateObject posix s (some operate)) ↔
      (operate.cmd = VITA_OPERATE_RENAME → RenameUndone (s.db.lists c) x operate.title) := by
  have hw := h.wellFormed
  have hxl := (hw.ohfiToObject_eq_some.mp hfound).1
  cases hfails with
  | createFolder hfails =>
    refine iff_of_true ?_ fun he => absurd he (show ¬ (1 : BitVec 32) = 3 by decide)
    simp only [vitaEventOperateObject, hfound, if_true]
    exact operateCreate_fails hw hxl hfails DataType.Folder
  | createFile hfails =>
    have hne : VITA_OPERATE_CREATE_FILE ≠ VITA_OPERATE_CREATE_FOLDER := by decide
    refine iff_of_true ?_ fun he => absurd he (show ¬ (4 : BitVec 32) = 3 by decide)
    simp only [vitaEventOperateObject, hfound, if_neg hne, if_true]
    exact operateCreate_fails hw hxl hfails DataType.File
  | @rename ohfi title name path hx hname hpath hfails =>
    have hne₁ : VITA_OPERATE_RENAME ≠ VITA_OPERATE_CREATE_FOLDER := by decide
    have hne₂ : VITA_OPERATE_RENAME ≠ VITA_OPERATE_CREATE_FILE := by decide
    obtain ⟨db₁, db₂, -, hcount, hundone, -, hfailed⟩ :=
      operateRename_object posix hw hx hname hpath title rfl
    simp only [vitaEventOperateObject, hfound, if_neg hne₁, if_neg hne₂, if_true, hfailed hfails]
    rw [← hundone]
    constructor
    · rintro ⟨s', msgs, hs, hlists, -⟩ -
      rw [Option.some.injEq, Prod.mk.injEq] at hs
      obtain ⟨rfl, -⟩ := hs
      cases db₂
      cases hcount
      cases (funext hlists : _ = s.db.lists)
      rfl
    · intro hsame
      exact ⟨_, _, rfl, fun d => by rw [hsame trivial], hcount.ge⟩

/-- A file system on which nothing can be made or moved. -/
def fullPosix : Posix Unit :=
  { samplePosix with
    mkdir := fun _ _ => none
    creat := fun _ _ => none
    rename := fun _ _ _ => none }

theorem operate_atomic_sample :
    NothingDone (sampleHost sampleDatabase) (vitaEventOperateObject fullPosix
      (sampleHost sampleDatabase) (some ⟨VITA_OPERATE_CREATE_FILE, 1005, ['y']⟩)) :=
  (operate_atomic_iff (s := sampleHost sampleDatabase) (sample_reachable FolderAddition)
    (x := sampleObject 1) (c := .photos) (by rfl) (.createFile (by rfl))).mpr fun he =>
      absurd he (by decide)

/-- The folder `/p/d` that cannot be renamed to `p`: on the way back `/p/p` becomes `/d/p`. -/
theorem rename_not_atomic :
    FileStepFails fullPosix (sampleHost sampleDatabase) .photos (sampleObject 1)
        ⟨VITA_OPERATE_RENAME, 1005, ['p']⟩ ∧
      ¬ NothingDone (sampleHost sampleDatabase) (vitaEventOperateObject fullPosix
        (sampleHost sampleDatabase) (some ⟨VITA_OPERATE_RENAME, 1005, ['p']⟩)) := by
  have hx : sampleObject 1 ∈ sampleDatabase.objects .photos := by
    simp [Database.objects, sample_photos]
  have hafter : ((vitaEventOperateObject fullPosix (sampleHost sampleDatabase)
      (some ⟨VITA_OPERATE_RENAME, 1005, ['p']⟩)).map fun r =>
        (r.1.db.lists .photos).map CmaObject.path) =
      some [['/', 'p'], ['/', 'd', '/', 'p'], ['/', 'p', '/', 'd', '/', 'x']] := by
    decide +kernel
  refine ⟨.rename hx (show _ = some ['d'] by decide) (show _ = some ['d'] by decide) rfl, ?_⟩
  rintro ⟨s', msgs, hs, hlists, -⟩
  have hpaths : (sampleDatabase.lists .photos).map CmaObject.path =
      [['/', 'p'], ['/', 'p', '/', 'd'], ['/', 'p', '/', 'd', '/', 'x']] := by
    decide
  rw [hs, Option.map_some, hlists .photos] at hafter
  simp [sampleHost, hpaths] at hafter

end VitaMTP
