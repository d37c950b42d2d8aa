import VitaMTP.Database.Reachable
import VitaMTP.Events.Requests

/-! When the categories survive a request to delete or rename. -/
namespace VitaMTP
open ParentFirst

def resolveStep (absolute : Bool) (dir : List CString) (name : CString) : List CString :=
  if name = [] ∨ name = ['.'] then dir
  else if name = ['.', '.'] then
    if dir = [] ∨ dir.getLast? = some ['.', '.'] then
      if absolute then dir else dir ++ [name]
    else dir.dropLast
  else dir ++ [name]

/-- The directory entries from the root, or from the working directory, to what the path names;
there are no symbolic links. -/
def resolve (path : CString) : Bool × List CString :=
  let absolute := path.head? = some '/'
  (absolute, (path.splitOn '/').foldl (resolveStep absolute) [])

/-- The path names the directory of a category. -/
def IsRoot (paths : CmaPaths) (uuid path : CString) : Prop :=
  ∃ c : Category, resolve path = resolve (c.path paths uuid)

/-- The requests that take away or rename what an id names. -/
inductive ChangeRequest
  | delete (event : Event)
  | rename (ohfi : BitVec 32) (title : CString)

namespace ChangeRequest

def ohfi : ChangeRequest → ℤ
  | delete event => event.param2.toInt
  | rename ohfi _ => ohfi.toInt

def handle {σ : Type} (posix : Posix σ) (s : Host σ) :
    ChangeRequest → Option (Host σ × List Message)
  | delete event => (vitaEventDeleteObject posix s event).toOption
  | rename ohfi title => vitaEventOperateObject posix s
      (some { cmd := VITA_OPERATE_RENAME, ohfi := ohfi, title := title })

/-- The request is carried out on `x` and what is below it, and on nothing else. -/
def ActsOn (db db' : Database) (c : Category) (x : CmaObject) : ChangeRequest → Prop
  | delete _ => db' = db.setList c (withoutNodes x.ohfi (db.lists c))
  | rename _ title => ∃ g, db' = db.setList c ((db.lists c).map g) ∧
      (∀ y ∈ db.lists c, (g y).ohfi = y.ohfi ∧ (g y).ohfiParent = y.ohfiParent) ∧
      (∀ y ∈ db.lists c, ¬ NodesBelow (db.lists c) x.ohfi y.ohfi → g y = y) ∧
      (g x).metadata.name = some title

end ChangeRequest

/-- The handler reports an error. -/
def ReportsError (msgs : List Message) : Prop :=
  ∃ code, code ≠ ResultCode.OK ∧ msgs = [.reportResult code]

/-- The handler returns, no directory of a category is deleted or moved, the categories stay
as they are, and either an error is reported and nothing has changed, or the request is
carried out on an object and what is below it, whose parent is there to start from. -/
def CategoriesSurvive {σ : Type} (paths : CmaPaths) (uuid : CString) (s : Host σ)
    (r : ChangeRequest) (result : Option (Host σ × List Message)) : Prop :=
  ∃ s' msgs calls, result = some (s', msgs) ∧ s'.fs.calls = s.fs.calls ++ calls ∧
    (∀ call ∈ calls, ∀ path ∈ call.paths, ¬ IsRoot paths uuid path) ∧
    (∀ d, (s'.db.lists d).head? = (s.db.lists d).head?) ∧
    (ReportsError msgs ∧ s'.db = s.db ∧ s'.fs.state = s.fs.state ∨
      ¬ ReportsError msgs ∧ ∃ c x start, x ∈ s.db.objects c ∧ x.ohfi = r.ohfi ∧
        start ∈ s.db.lists c ∧ start.ohfi = x.ohfiParent ∧ r.ActsOn s.db s'.db c x)

/-- The id is not that of a category or of a filter, the file it names and, for a new name, the
file it becomes are not the directory of a category, and a file that cannot be moved has paths
in which the replacements can be undone. -/
def SurvivalCondition {σ : Type} (posix : Posix σ) (paths : CmaPaths) (uuid : CString)
    (s : Host σ) (r : ChangeRequest) : Prop :=
  (∀ d : Category, r.ohfi ∉ d.ohfi :: d.filterIds) ∧
    ∀ c, ∀ x ∈ s.db.objects c, x.ohfi = r.ohfi → ¬ IsRoot paths uuid x.path ∧
      ∀ ohfi title, r = .rename ohfi title → ∀ name path, x.metadata.name = some name →
        x.metadata.path = some path →
        let newPath := strreplace x.path path (strreplace path name title)
        ¬ IsRoot paths uuid newPath ∧
          (posix.rename s.fs.state x.path newPath = none → RenameUndone (s.db.lists c) x title)

section survival

variable {σ : Type} {posix : Posix σ} {paths : CmaPaths} {uuid : CString} {s : Host σ}

theorem WellFormed.head_kept {db : Database} (h : WellFormed paths uuid db) {c : Category}
    {x : CmaObject} (hx : x ∈ db.objects c) {g : CmaObject → CmaObject}
    (hg : ∀ y ∈ db.lists c, ¬ NodesBelow (db.lists c) x.ohfi y.ohfi → g y = y) (d : Category) :
    ((db.setList c ((db.lists c).map g)).lists d).head? = (db.lists d).head? := by
  by_cases hd : d = c
  · subst hd
    obtain ⟨m, hm, hmaster⟩ := h.master d
    have hml : m ∈ db.lists d := by
      rw [hm]
      simp
    rw [Database.setList_lists_self, List.head?_map, hm, List.head?_cons, Option.map_some,
      hg m hml]
    rw [hmaster.ohfi]
    exact h.not_below_master (h.objects d x hx).first
  · rw [Database.setList_lists_of_ne _ _ hd]

theorem survive_delete (h : WellFormed paths uuid s.db) {c : Category} {x : CmaObject}
    (hx : x ∈ s.db.objects c) {event : Event}
    (hfound : ohfiToObject s.db event.param2.toInt = some (c, x)) :
    CategoriesSurvive paths uuid s (.delete event)
        (vitaEventDeleteObject posix s event).toOption ↔
      ¬ IsRoot paths uuid x.path := by
  rw [vitaEventDeleteObject_object h hx hfound, Except.toOption]
  constructor
  · rintro ⟨s', msgs, calls, hs, hcalls, hroots, -⟩
    rw [Option.some.injEq, Prod.mk.injEq] at hs
    obtain ⟨rfl, rfl⟩ := hs
    obtain rfl : [FsCall.removeAll x.path] = calls := List.append_cancel_left hcalls
    exact hroots (.removeAll x.path) (by simp) x.path (by simp [FsCall.paths])
  · intro hroot
    obtain ⟨start, hmem, hstart, -⟩ := h.parent_found hx
    refine ⟨_, _, [.removeAll x.path], rfl, rfl, ?_, fun d => ?_, Or.inr ⟨?_, ?_⟩⟩
    · simpa [FsCall.paths] using hroot
    · by_cases hd : d = c
      · subst hd
        obtain ⟨m, hm, hmaster⟩ := h.master d
        obtain ⟨m', hm', hmaster'⟩ := (h.without hx).master d
        have hml : m' ∈ s.db.lists d := by
          have hsub : (withoutNodes x.ohfi (s.db.lists d)).Sublist (s.db.lists d) :=
            without_sublist _ _
          rw [Database.setList_lists_self] at hm'
          exact hsub.subset (by rw [hm']; simp)
        have hmm : m ∈ s.db.lists d := by
          rw [hm]
          simp
        obtain rfl := (h.ordered d).inj hml hmm (hmaster'.ohfi.trans hmaster.ohfi.symm)
        rw [hm', hm]
        rfl
      · simp [hd]
    · simp [ReportsError]
    · exact ⟨c, x, start, hx, ((h.ohfiToObject_object hx).mp hfound).symm, hmem, hstart, rfl⟩

theorem survive_rename (h : WellFormed paths uuid s.db) {c : Category} {x : CmaObject}
    (hx : x ∈ s.db.objects c) {ohfi : BitVec 32} {title : CString}
    (hid : x.ohfi = ohfi.toInt) {name path : CString} (hname : x.metadata.name = some name)
    (hpath : x.metadata.path = some path) :
    CategoriesSurvive paths uuid s (.rename ohfi title) (operateRename posix s (c, x) title) ↔
      let newPath := strreplace x.path path (strreplace path name title)
      ¬ IsRoot paths uuid x.path ∧ ¬ IsRoot paths uuid newPath ∧
        (posix.rename s.fs.state x.path newPath = none →
          RenameUndone (s.db.lists c) x title) := by
  generalize hnew : strreplace x.path path (strreplace path name title) = newPath
  obtain ⟨db₁, db₂, heq, -, hundone, hmoved, hfailed⟩ :=
    operateRename_object posix h hx hname hpath title hnew.symm
  obtain ⟨g, sent, hmap, hgx, -, hg, -, hbelow⟩ := h.renameRootEntry_map hx hname hpath none title
  obtain rfl := Option.some.inj (heq.symm.trans hmap)
  obtain ⟨start, hmem, hstart, -⟩ := h.parent_found hx
  have hkept : ∀ y ∈ s.db.lists c, ¬ NodesBelow (s.db.lists c) x.ohfi y.ohfi → g y = y := by
    intro y hy hb
    have hyx : y ≠ x := by
      rintro rfl
      exact hb .refl
    have hnone : sent y.ohfiParent = none := by
      rw [← Option.not_isSome_iff_eq_none, hbelow]
      exact fun hbp => hb ((nodesBelow_iff (h.ordered c) hy).mpr (Or.inr hbp))
    rw [hg y hy hyx, hnone]
    rfl
  have hacts : (ChangeRequest.rename ohfi title).ActsOn s.db
      (s.db.setList c ((s.db.lists c).map g)) c x := by
    refine ⟨g, rfl, fun y hy => ?_, hkept, ?_⟩
    · by_cases hyx : y = x
      · rw [hyx, hgx]
        exact ⟨rfl, rfl⟩
      · rw [hg y hy hyx]
        cases sent y.ohfiParent <;> exact ⟨rfl, rfl⟩
    · rw [hgx, CmaObject.renamed, Option.getD_none, strreplace_whole]
  have hroots : (∀ call ∈ [FsCall.rename x.path newPath], ∀ p ∈ call.paths, ¬ IsRoot paths uuid p) ↔
      ¬ IsRoot paths uuid x.path ∧ ¬ IsRoot paths uuid newPath := by
    simp [FsCall.paths]
  show _ ↔ ¬ IsRoot paths uuid x.path ∧ ¬ IsRoot paths uuid newPath ∧ _
  rw [← and_assoc, ← hroots, ← hundone]
  cases hmove : posix.rename s.fs.state x.path newPath with
  | some fs =>
    rw [hmoved fs hmove]
    constructor
    · rintro ⟨s', msgs, calls, hs, hcalls, hcallroots, -⟩
      rw [Option.some.injEq, Prod.mk.injEq] at hs
      obtain ⟨rfl, rfl⟩ := hs
      obtain rfl := List.append_cancel_left hcalls
      exact ⟨hcallroots, by simp⟩
    · rintro ⟨hcallroots, -⟩
      refine ⟨_, _, [.rename x.path newPath], rfl, rfl, hcallroots, h.head_kept hx hkept,
        Or.inr ⟨by simp [ReportsError], c, x, start, hx, hid, hmem, hstart, hacts⟩⟩
  | none =>
    rw [hfailed hmove]
    constructor
    · rintro ⟨s', msgs, calls, hs, hcalls, hcallroots, -, hend⟩
      rw [Option.some.injEq, Prod.mk.injEq] at hs
      obtain ⟨rfl, rfl⟩ := hs
      obtain rfl := List.append_cancel_left hcalls
      refine ⟨hcallroots, fun _ => ?_⟩
      rcases hend with ⟨-, hdb, -⟩ | ⟨hok, -⟩
      · exact hdb
      · exact absurd ⟨_, by decide, rfl⟩ hok
    · rintro ⟨hcallroots, hdb⟩
      have hdb := hdb rfl
      exact ⟨_, _, [.rename x.path newPath], rfl, rfl, hcallroots, fun d => by rw [hdb],
        Or.inl ⟨⟨_, by decide, rfl⟩, hdb, rfl⟩⟩

end survival

/-- For every id a device can send: the categories survive the request exactly under the
condition. -/
theorem categories_survive_iff {allowed : CmaObject → Mask → Prop} {view : DirView} {n : ℕ}
    {paths : CmaPaths} {uuid : CString} {σ : Type} {s : Host σ}
    (h : Reachable allowed view n paths uuid s.db) (posix : Posix σ) (r : ChangeRequest) :
    CategoriesSurvive paths uuid s r (r.handle posix s) ↔
      SurvivalCondition posix paths uuid s r := by
  have hw := h.wellFormed
  rcases hw.lookup_cases r.ohfi with ⟨hfound, hnone⟩ | ⟨c, m, hfound, hml, hm, hid⟩ |
    ⟨c, x, hfound, hx, hid⟩
  · refine iff_of_true ?_ ⟨fun d hi => ?_, fun c x hx he => ?_⟩
    · cases r with
      | delete event =>
        simp only [ChangeRequest.handle, vitaEventDeleteObject,
          show ohfiToObject s.db event.param2.toInt = none from hfound]
        exact ⟨_, _, [], rfl, by simp, by simp, fun d => rfl,
          Or.inl ⟨⟨.Invalid_OHFI, by decide, rfl⟩, rfl, rfl⟩⟩
      | rename ohfi title =>
        simp only [ChangeRequest.handle, vitaEventOperateObject,
          show ohfiToObject s.db ohfi.toInt = none from hfound]
        exact ⟨_, _, [], rfl, by simp, by simp, fun d => rfl,
          Or.inl ⟨⟨.Not_Exist_Object, by decide, rfl⟩, rfl, rfl⟩⟩
    · obtain ⟨m, hm, -, hmaster⟩ := hw.master_mem d
      rw [← hmaster.ids] at hi
      exact hnone d m hm hi
    · exact absurd (by simp [CmaObject.ids, he]) (hnone c x (WellFormed.mem_of_objects hx))
  · refine iff_of_false ?_ fun hcond => hcond.1 c hid
    have hresult : r.handle posix s = none := by
      cases r with
      | delete event =>
        rw [ChangeRequest.handle, vitaEventDeleteObject_category hw hm hfound, Except.toOption]
      | rename ohfi title =>
        simp only [ChangeRequest.handle, vitaEventOperateObject,
          show ohfiToObject s.db ohfi.toInt = some (c, m) from hfound]
        exact operateRename_category hm title
    rintro ⟨s', msgs, calls, hs, -⟩
    simp [hresult] at hs
  · have hunique : ∀ d, ∀ y ∈ s.db.objects d, y.ohfi = r.ohfi → d = c ∧ y = x := by
      intro d y hy he
      exact hw.ids_inj (WellFormed.mem_of_objects hy) (WellFormed.mem_of_objects hx)
        (i := y.ohfi) (by simp [CmaObject.ids]) (by simp [CmaObject.ids, he, hid])
    have hcategory : ∀ d : Category, r.ohfi ∉ d.ohfi :: d.filterIds := by
      intro d
      rw [← hid]
      exact hw.ohfi_not_category hx
    obtain ⟨name, path, hname, hpath⟩ := (hw.objects c x hx).named
    cases r with
    | delete event =>
      refine (survive_delete hw hx hfound).trans ⟨fun hroot => ⟨hcategory, ?_⟩, fun hcond => ?_⟩
      · intro d y hy he
        obtain ⟨rfl, rfl⟩ := hunique d y hy he
        exact ⟨hroot, by simp⟩
      · exact (hcond.2 c x hx hid).1
    | rename ohfi title =>
      have hhandle : (ChangeRequest.rename ohfi title).handle posix s =
          operateRename posix s (c, x) title := by
        simp only [ChangeRequest.handle, vitaEventOperateObject,
          show ohfiToObject s.db ohfi.toInt = some (c, x) from hfound]
        rfl
      rw [hhandle]
      refine (survive_rename hw hx hid hname hpath).trans
        ⟨fun hall => ⟨hcategory, ?_⟩, fun hcond => ?_⟩
      · intro d y hy he
        obtain ⟨rfl, rfl⟩ := hunique d y hy he
        refine ⟨hall.1, fun ohfi' title' hr name' path' hname' hpath' => ?_⟩
        obtain ⟨rfl, rfl⟩ := ChangeRequest.rename.inj hr
        obtain rfl := Option.some.inj (hname.symm.trans hname')
        obtain rfl := Option.some.inj (hpath.symm.trans hpath')
        exact hall.2
      · obtain ⟨hroot, hrename⟩ := hcond.2 c x hx hid
        exact ⟨hroot, hrename ohfi title rfl name path hname hpath⟩

/-- The photo of the sample can be deleted. -/
theorem categories_survive_sample :
    CategoriesSurvive samplePaths ['0'] (sampleHost sampleDatabase) (.delete { param2 := 1006 })
      ((ChangeRequest.delete { param2 := 1006 }).handle samplePosix
        (sampleHost sampleDatabase)) := by
  refine (categories_survive_iff (sample_reachable FolderAddition) samplePosix _).mpr
    ⟨fun d => by cases d <;> decide, fun c x hx he => ⟨?_, by simp⟩⟩
  have hx' := (sample_reachable FolderAddition).wellFormed.ids_inj
    (WellFormed.mem_of_objects hx)
    (show sampleObject 2 ∈ sampleDatabase.lists .photos by simp [sample_photos])
    (i := 1006) (by simp [CmaObject.ids, he, ChangeRequest.ohfi]) (by decide)
  rw [hx'.2]
  rintro ⟨d, hd⟩
  revert hd
  cases d <;> decide

/-- The id of the photos themselves: their directory is deleted, and the removal from the
database starts nowhere. -/
theorem categories_do_not_survive :
    Reachable FolderAddition sampleView 3 samplePaths ['0'] sampleDatabase ∧
      vitaEventDeleteObject samplePosix (sampleHost sampleDatabase) { param2 := 2 } =
        .error { state := (), calls := [.removeAll (Category.photos.path samplePaths ['0'])] } ∧
      ¬ CategoriesSurvive samplePaths ['0'] (sampleHost sampleDatabase) (.delete { param2 := 2 })
        ((ChangeRequest.delete { param2 := 2 }).handle samplePosix
          (sampleHost sampleDatabase)) := by
  have hundefined : vitaEventDeleteObject samplePosix (sampleHost sampleDatabase)
      { param2 := 2 } =
        .error { state := (), calls := [.removeAll (Category.photos.path samplePaths ['0'])] } := by
    rfl
  refine ⟨sample_reachable _, hundefined, ?_⟩
  rintro ⟨s', msgs, calls, hs, -⟩
  rw [ChangeRequest.handle, hundefined, Except.toOption] at hs
  simp at hs

end VitaMTP
