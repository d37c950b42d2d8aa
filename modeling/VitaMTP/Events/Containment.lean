import VitaMTP.Database.Contained
import VitaMTP.Events.Run

/-! Which paths the requests of the device touch: those inside the directory of a category, if all
names the device sends are proper. -/
namespace VitaMTP
open ParentFirst Components Runs

mutual

/-- All names of a tree are proper. -/
def DeviceObject.ProperlyNamed : DeviceObject → Prop
  | .unavailable => True
  | .file name _ _ _ => ProperName name
  | .folder name _ children => ProperName name ∧ ChildrenProperlyNamed children

def ChildrenProperlyNamed : List DeviceObject → Prop
  | [] => True
  | t :: ts => t.ProperlyNamed ∧ ChildrenProperlyNamed ts

end

/-- Every path of the call lies inside the directory of a category, or it makes a directory on the
way there. -/
def FsCall.Contained (paths : CmaPaths) (uuid : CString) (call : FsCall) : Prop :=
  (∀ path ∈ call.paths, ∃ c : Category, VitaMTP.Contained (c.path paths uuid) path) ∨
    ∃ c : Category, ∃ dir, call = .mkdir dir ∧ dir <+: c.path paths uuid

section condition

variable {σ : Type} (posix : Posix σ) (paths : CmaPaths) (uuid : CString)

/-- The names the device sends are proper, the searches of a rename hit, and can be undone if the
file cannot be moved; no category is deleted or written to. -/
def ProperRequest (s : Host σ) : DeviceRequest → Prop
  | .operate (some ⟨cmd, ohfi, title⟩) => ProperName title ∧
      (cmd = VITA_OPERATE_RENAME → ∀ c x root name path,
        ohfiToObject s.db ohfi.toInt = some (c, x) → root ∈ s.db.lists c →
        root.ohfi = x.ohfiParent → x.metadata.name = some name → x.metadata.path = some path →
        RenameHits (c.path paths uuid) (s.db.lists c) root x name title ∧
          (posix.rename s.fs.state x.path (renamedPath x path name title) = none →
            RenameUndone (s.db.lists c) x title))
  | .delete event => ∀ p ∈ ohfiToObject s.db event.param2.toInt, p.2 ∈ s.db.objects p.1
  | .treat (some (_, t)) => t.ProperlyNamed
  | .part (some part) => ∀ p ∈ ohfiToObject s.db part.ohfi.toInt, p.2 ∈ s.db.objects p.1
  | _ => True

end condition

def Disk.All {σ : Type} (Q : FsCall → Prop) (fs : Disk σ) : Prop := ∀ call ∈ fs.calls, Q call

section files

variable {σ : Type} {posix : Posix σ} {fs : Disk σ} {Q : FsCall → Prop} {path : CString}

theorem Disk.All.call (h : fs.All Q) {c : FsCall} (hc : Q c) (effect : Option σ) :
    (fs.call c effect).2.All Q := by
  intro call hcall
  rw [Disk.call_calls, List.mem_append] at hcall
  rcases hcall with hcall | hcall
  · exact h call hcall
  · exact List.mem_singleton.mp hcall ▸ hc

theorem mkdirIfMissing_all (h : fs.All Q) (hpath : Q (.mkdir path)) :
    (mkdirIfMissing posix fs path).2.All Q := by
  unfold mkdirIfMissing
  split
  · exact h
  · exact h.call hpath _

theorem createNewDirectory_all (h : fs.All Q) (hpath : Q (.mkdir (stripSlash path)))
    (hprefixes : ∀ dir ∈ slashPrefixes (stripSlash path), Q (.mkdir dir)) :
    (createNewDirectory posix fs path).2.All Q := by
  have hfold (dirs : List CString) (fs : Disk σ) (h : fs.All Q)
      (hdirs : ∀ dir ∈ dirs, Q (.mkdir dir)) :
      (dirs.foldl (fun fs dir => (mkdirIfMissing posix fs dir).2) fs).All Q := by
    induction dirs generalizing fs with
    | nil => exact h
    | cons dir dirs ih =>
      exact ih _ (mkdirIfMissing_all h (hdirs dir (by simp)))
        fun d hd => hdirs d (List.mem_cons_of_mem _ hd)
  exact mkdirIfMissing_all (hfold _ fs h hprefixes) hpath

theorem writeFileFromBuffer_all (h : fs.All Q) (hpath : Q (.write path)) (seek : ULong)
    (data : List Byte) : (writeFileFromBuffer posix fs path seek data).2.All Q := by
  have hopen := h.call hpath (posix.fopen fs.state path)
  unfold writeFileFromBuffer
  dsimp only
  split
  · exact hopen
  · exact hopen

end files

section contained

variable {σ : Type} {posix : Posix σ} {fs : Disk σ} {paths : CmaPaths} {uuid : CString}
  {c : Category} {path : CString}

theorem call_contained (hpath : Contained (c.path paths uuid) path) {call : FsCall}
    (hcall : call.paths = [path]) : call.Contained paths uuid := by
  refine Or.inl fun p hp => ⟨c, ?_⟩
  rw [hcall] at hp
  exact List.mem_singleton.mp hp ▸ hpath

theorem createNewDirectory_contained (posix : Posix σ) (h : fs.All (FsCall.Contained paths uuid))
    (hpath : Contained (c.path paths uuid) path) :
    (createNewDirectory posix fs path).2.All (FsCall.Contained paths uuid) := by
  have hstrip : stripSlash path = path := if_neg hpath.getLast?_ne
  refine createNewDirectory_all h ?_ fun dir hdir => ?_
  · rw [hstrip]
    exact call_contained hpath rfl
  · rw [hstrip] at hdir
    obtain ⟨i, hi, rfl⟩ := List.mem_map.mp hdir
    have hslash : path[i]? = some '/' := by simpa using (List.mem_filter.mp hi).2
    rcases hpath.take hslash with hroot | hin
    · exact Or.inr ⟨c, _, rfl, hroot⟩
    · exact call_contained hin rfl

theorem creation_contained (posix : Posix σ) (h : fs.All (FsCall.Contained paths uuid))
    (hpath : Contained (c.path paths uuid) path) (folder : Bool) :
    (creation posix folder fs path).2.All (FsCall.Contained paths uuid) := by
  cases folder with
  | true => exact createNewDirectory_contained posix h hpath
  | false => exact h.call (call_contained hpath rfl) _

theorem writeFileFromBuffer_contained (h : fs.All (FsCall.Contained paths uuid))
    (hpath : Contained (c.path paths uuid) path) (seek : ULong) (data : List Byte) :
    (writeFileFromBuffer posix fs path seek data).2.All (FsCall.Contained paths uuid) :=
  writeFileFromBuffer_all h (call_contained hpath rfl) seek data

mutual

theorem writeTree_contained (inFile : Bool) {dir : CString}
    (hdir : Within (c.path paths uuid) dir) :
    (t : DeviceObject) → t.ProperlyNamed → (fs : Disk σ) →
    fs.All (FsCall.Contained paths uuid) →
    (writeTree posix inFile dir t fs).fs.All (FsCall.Contained paths uuid)
  | .unavailable, _, fs, h => by
    unfold writeTree
    exact h
  | .file name handle size data, ht, fs, h => by
    unfold DeviceObject.ProperlyNamed at ht
    have hpath := hdir.join ht
    have hcreated := creation_contained posix h hpath false
    unfold writeTree writeFile
    dsimp only
    split
    · exact writeFileFromBuffer_contained hcreated hpath _ _
    · exact hcreated
  | .folder name handle children, ht, fs, h => by
    unfold DeviceObject.ProperlyNamed at ht
    have hpath := hdir.join ht.1
    cases inFile with
    | true =>
      unfold writeTree
      exact creation_contained posix h hpath false
    | false =>
      have hcreated := createNewDirectory_contained posix h hpath
      unfold writeTree
      dsimp only
      split
      · exact writeTrees_contained (Or.inr hpath) children ht.2 _ hcreated
      · exact hcreated

theorem writeTrees_contained {dir : CString} (hdir : Within (c.path paths uuid) dir) :
    (ts : List DeviceObject) → ChildrenProperlyNamed ts → (fs : Disk σ) →
    fs.All (FsCall.Contained paths uuid) →
    (writeTrees posix dir ts fs).fs.All (FsCall.Contained paths uuid)
  | [], _, fs, h => by
    unfold writeTrees
    exact h
  | t :: ts, hts, fs, h => by
    unfold ChildrenProperlyNamed at hts
    have hfirst := writeTree_contained false hdir t hts.1 fs h
    unfold writeTrees
    dsimp only
    split
    · exact writeTrees_contained hdir ts hts.2 _ hfirst
    · exact hfirst

end

mutual

theorem nodes_properlyNamed (count : ℤ) (root : CmaObject) :
    (t : DeviceObject) → t.ProperlyNamed → ∀ o ∈ t.nodes count root, o.ProperlyNamed
  | .unavailable, _ => by
    unfold DeviceObject.nodes
    simp
  | .file name handle size data, ht => by
    unfold DeviceObject.ProperlyNamed at ht
    unfold DeviceObject.nodes
    intro o ho n hn
    obtain rfl := List.mem_singleton.mp ho
    exact Option.some.inj hn ▸ ht
  | .folder name handle children, ht => by
    unfold DeviceObject.ProperlyNamed at ht
    unfold DeviceObject.nodes
    intro o ho
    rcases List.mem_cons.mp ho with rfl | ho
    · intro n hn
      exact Option.some.inj hn ▸ ht.1
    · exact childNodes_properlyNamed _ _ children ht.2 o ho

theorem childNodes_properlyNamed (count : ℤ) (root : CmaObject) :
    (ts : List DeviceObject) → ChildrenProperlyNamed ts →
    ∀ o ∈ childNodes count root ts, o.ProperlyNamed
  | [], _ => by
    unfold childNodes
    simp
  | t :: ts, hts => by
    unfold ChildrenProperlyNamed at hts
    unfold childNodes
    intro o ho
    exact (List.mem_append.mp ho).elim (nodes_properlyNamed count root t hts.1 o)
      (childNodes_properlyNamed _ root ts hts.2 o)

end

/-- Paths are joined from proper names, and all calls so far were contained. -/
structure PathsKept (paths : CmaPaths) (uuid : CString) (s : Host σ) : Prop where
  wellFormed : WellFormed paths uuid s.db
  joined : s.db.Joined
  names : s.db.ProperNames
  calls : s.fs.All (FsCall.Contained paths uuid)

variable {s s' : Host σ} {r : DeviceRequest} {msgs : List Message}

/-- The rename back to the old name, where it can be undone. -/
theorem renamed_back (h : WellFormed paths uuid s.db) {x x₁ : CmaObject} (hx : x ∈ s.db.objects c)
    {name path title : CString} {db₁ db₂ : Database} (hname : x.metadata.name = some name)
    (hpath : x.metadata.path = some path)
    (hrename : renameRootEntry s.db (c, x) none title = some db₁)
    (hx₁ : db₁.get? c x.ohfi = some x₁)
    (hback : renameRootEntry db₁ (c, x₁) none name = some db₂)
    (hundone : RenameUndone (s.db.lists c) x title) : db₂ = s.db := by
  obtain ⟨db₁', x₁', db₂', heq, hget, -, -, hback', hiff⟩ := h.rename_back hx hname hpath title
  obtain rfl := Option.some.inj (heq.symm.trans hrename)
  obtain rfl := Option.some.inj (hget.symm.trans hx₁)
  obtain rfl := Option.some.inj (hback'.symm.trans hback)
  exact hiff.mpr hundone

theorem cleared_properNames (hn : s.db.ProperNames) (parent : ℤ) (name : Option CString) :
    (cleared posix s parent name).db.ProperNames := by
  unfold cleared
  split
  · exact hn
  · exact WellFormed.properNames_without hn _ _

theorem PathsKept.cleared (h : PathsKept paths uuid s) {parent : CmaObject}
    (hparent : parent ∈ s.db.lists c) (name : Option CString) :
    (cleared posix s parent.ohfi name).fs.All (FsCall.Contained paths uuid) := by
  cases name with
  | none => exact h.calls
  | some name =>
    rcases cleared_cases posix h.wellFormed hparent name with ⟨-, he⟩ | ⟨temp, htemp, -, -, he⟩
    · rw [he]
      exact h.calls
    · rw [he]
      exact h.calls.call (call_contained (h.wellFormed.contained h.joined h.names htemp) rfl) _

theorem Handled.pathsKept (hh : Handled posix s r s' msgs) (h : PathsKept paths uuid s)
    (hr : ProperRequest posix paths uuid s r) : PathsKept paths uuid s' := by
  have hwf := hh.wellFormed h.wellFormed
  have hwithin {c : Category} {x : CmaObject} (hx : x ∈ s.db.lists c) :=
    h.wellFormed.within h.joined h.names x hx
  have hinside {c : Category} {x : CmaObject} (hx : x ∈ s.db.objects c) :=
    h.wellFormed.contained h.joined h.names hx
  cases hh with
  | refused => exact h
  | @created c root _ title folder hroot =>
    refine ⟨hwf, h.wellFormed.joined_addToDatabase h.joined hroot _ _ _, ?_,
      creation_contained posix h.calls ((hwithin hroot).join hr.1) folder⟩
    rw [addToDatabase_eq, Database.append_eq_grown s.db c root.ohfi]
    refine WellFormed.properNames_grown h.names (fun o ho n hn => ?_) c _ _ _
    obtain rfl := List.mem_singleton.mp ho
    exact Option.some.inj hn ▸ hr.1
  | @notCreated c root _ title folder hroot =>
    exact ⟨hwf, h.joined, h.names,
      creation_contained posix h.calls ((hwithin hroot).join hr.1) folder⟩
  | @renamed c x _ title name path db₁ fs hx hfound hname hpath hrename hmove =>
    obtain ⟨root, hroot, hp⟩ := h.wellFormed.exists_parent hx
    obtain ⟨hhits, -⟩ := hr.2 rfl c x root name path hfound hroot hp hname hpath
    obtain ⟨hj₁, hn₁, hnew⟩ := h.wellFormed.contained_rename h.joined h.names hx hroot hp hname
      hpath hr.1 hhits hrename
    refine ⟨hwf, hj₁, hn₁, h.calls.call (Or.inl fun p hp => ⟨c, ?_⟩) (some fs)⟩
    rcases List.mem_cons.mp hp with rfl | hp
    · exact hinside hx
    · exact List.mem_singleton.mp hp ▸ hnew
  | @notRenamed c x x₁ _ title name path db₁ db₂ hx hfound hname hpath hrename hx₁ hid hback
      hmove =>
    obtain ⟨root, hroot, hp⟩ := h.wellFormed.exists_parent hx
    obtain ⟨hhits, hundone⟩ := hr.2 rfl c x root name path hfound hroot hp hname hpath
    obtain ⟨-, -, hnew⟩ := h.wellFormed.contained_rename h.joined h.names hx hroot hp hname
      hpath hr.1 hhits hrename
    obtain rfl := renamed_back h.wellFormed hx hname hpath hrename hx₁ hback (hundone hmove)
    refine ⟨hwf, h.joined, h.names, h.calls.call (Or.inl fun p hp => ⟨c, ?_⟩) none⟩
    rcases List.mem_cons.mp hp with rfl | hp
    · exact hinside hx
    · exact List.mem_singleton.mp hp ▸ hnew
  | @deleted c x _ hx =>
    refine ⟨hwf, h.wellFormed.related_without h.joined hx,
      WellFormed.properNames_without h.names c _, ?_⟩
    exact h.calls.call (call_contained (hinside hx) rfl) _
  | @received c parent _ t ret _ hparent hfound hreceive =>
    have hr' : t.ProperlyNamed := hr
    have hreceives := vitaGetAllObjects_receives posix paths uuid t s s' c parent ret h.wellFormed
      hparent hreceive
    obtain ⟨bytes, os, count, hos, -, hdb⟩ :=
      vitaGetAllObjects_grown h.wellFormed hparent hreceive
    refine ⟨hwf, vitaGetAllObjects_related joinedTo_inherited h.wellFormed h.joined hparent
      hreceive, ?_, ?_⟩
    · rw [hdb]
      refine WellFormed.properNames_grown (cleared_properNames h.names _ _) (fun o ho => ?_) c _ _ _
      rcases hos with rfl | rfl
      · simp at ho
      · exact nodes_properlyNamed _ _ t hr' o ho
    · rw [hreceives.fs]
      exact writeTree_contained _ (hwithin hparent) t hr' _ (h.cleared hparent _)
  | @written c x part hx hfound =>
    have hobj : x ∈ s.db.objects c := hr (c, x) hfound
    refine ⟨hwf, h.wellFormed.related_sizeAdded h.joined joinedTo_inherited c _ _, ?_,
      writeFileFromBuffer_contained h.calls (hinside hobj) _ _⟩
    rw [Database.sizeAdded_eq_grown]
    exact WellFormed.properNames_grown h.names (by simp) c _ _ _
  | @notWritten c x part hx hfound =>
    exact ⟨hwf, h.joined, h.names,
      writeFileFromBuffer_contained h.calls (hinside (hr (c, x) hfound)) _ _⟩

/-- A proper deletion is never undefined, so that none of its calls is left out. -/
theorem PathsKept.deletes (h : PathsKept paths uuid s) {event : Event}
    (hr : ProperRequest posix paths uuid s (.delete event)) :
    ∃ result, vitaEventDeleteObject posix s event = .ok result := by
  rcases h.wellFormed.lookup_cases event.param2.toInt with ⟨hfound, -⟩ | ⟨c, m, hfound, -, hm, -⟩ |
    ⟨c, x, hfound, hx, -⟩
  · exact ⟨_, by rw [vitaEventDeleteObject, hfound]⟩
  · have hobject : m ∈ s.db.objects c := hr (c, m) hfound
    exact absurd hm.ohfi (h.wellFormed.ohfi_ne_master hobject)
  · exact ⟨_, vitaEventDeleteObject_object h.wellFormed hx hfound⟩

end contained

/-- In every run whose names are proper, whatever the host creates, renames to, writes or deletes
lies strictly inside the directory of a category, but for missing directories on the way to it. -/
theorem paths_contained {σ : Type} {posix : Posix σ} {view : DirView} {n : ℕ} {paths : CmaPaths}
    {uuid : CString} {db : Database} {fs : σ} {s : Host σ} (hview : view.FileNames)
    (hdb : createDatabase view n paths uuid = some db)
    (h : Reached (hostStep posix) (ProperRequest posix paths uuid)
      { db := db, fs := { state := fs } } s) :
    (∀ call ∈ s.fs.calls, call.Contained paths uuid) ∧
      ∀ event, ProperRequest posix paths uuid s (.delete event) →
        ∃ result, vitaEventDeleteObject posix s event = .ok result := by
  have hkept : PathsKept paths uuid s := by
    refine h.invariant (I := PathsKept paths uuid) ⟨.createDatabase hdb,
      WellFormed.joined_createDatabase hdb, WellFormed.properNames_createDatabase hview hdb, ?_⟩ ?_
    · intro call hcall
      simp at hcall
    · intro s r s' hs hr hstep
      obtain ⟨⟨s'', msgs⟩, hres, rfl⟩ := Option.map_eq_some_iff.mp hstep
      exact (handle_handled hs.wellFormed hres).pathsKept hs hr
  exact ⟨hkept.calls, fun event hr => hkept.deletes hr⟩

theorem sampleView_fileNames : sampleView.FileNames := by
  intro dir names hdir name hname
  unfold sampleView at hdir
  dsimp only at hdir
  split_ifs at hdir
  · obtain rfl := Option.some.inj hdir
    revert name
    decide
  · obtain rfl := Option.some.inj hdir
    revert name
    decide

/-- The photo folder `d` is renamed to `e`, and a folder is created in it. -/
def properRequests : List DeviceRequest :=
  [.operate (some ⟨VITA_OPERATE_RENAME, 1005, ['e']⟩),
    .operate (some ⟨VITA_OPERATE_CREATE_FOLDER, 1005, ['n']⟩)]

def properHost : Host Unit :=
  (properRequests.foldlM (hostStep samplePosix) (sampleHost sampleDatabase)).getD
    (sampleHost sampleDatabase)

theorem sample_properRename : ProperRequest samplePosix samplePaths ['0']
    (sampleHost sampleDatabase) (.operate (some ⟨VITA_OPERATE_RENAME, 1005, ['e']⟩)) := by
  refine ⟨properName_component (by decide) (by decide) (by decide), ?_⟩
  rintro - c x root name path hfound hroot hp hname hpath
  have hobject : ohfiToObject sampleDatabase 1005 = some (.photos, sampleObject 1) := by rfl
  obtain ⟨rfl, rfl⟩ := Prod.mk.inj (Option.some.inj (hobject.symm.trans hfound))
  have hparent : (sampleObject 1).ohfiParent = (sampleObject 0).ohfi := by rfl
  have hfirst : sampleObject 0 ∈ sampleDatabase.lists .photos := by simp [sample_photos]
  obtain rfl := ((sample_reachable FolderAddition).wellFormed.ordered .photos).inj hroot hfirst
    (hp.trans hparent)
  obtain rfl : ['d'] = name := Option.some.inj hname
  refine ⟨⟨by unfold HitsTail; decide, fun y hy hb path hpath => ?_⟩, ?_⟩
  · have hlist : y ∈ [sampleObject 0, sampleObject 1, sampleObject 2] := sample_photos ▸ hy
    simp only [List.mem_cons, List.not_mem_nil, or_false] at hlist
    unfold HitsTail
    rcases hlist with rfl | rfl | rfl
    · exact absurd hpath (show ¬ none = some path by simp)
    · obtain rfl : ['d'] = path := Option.some.inj hpath
      decide
    · obtain rfl : ['d', '/', 'x'] = path := Option.some.inj hpath
      decide
  · intro hnone
    exact absurd hnone (by simp [samplePosix])

theorem paths_contained_sample :
    properHost.fs.calls = [.rename ['/', 'p', '/', 'd'] ['/', 'p', '/', 'e'], .mkdir [],
      .mkdir ['/', 'p'], .mkdir ['/', 'p', '/', 'e'], .mkdir ['/', 'p', '/', 'e', '/', 'n']] ∧
    (∀ call ∈ properHost.fs.calls, call.Contained samplePaths ['0']) ∧
      ∀ event, ProperRequest samplePosix samplePaths ['0'] properHost (.delete event) →
        ∃ result, vitaEventDeleteObject samplePosix properHost event = .ok result := by
  obtain ⟨s₁, hs₁⟩ : ∃ s₁, hostStep samplePosix (sampleHost sampleDatabase)
      (.operate (some ⟨VITA_OPERATE_RENAME, 1005, ['e']⟩)) = some s₁ := ⟨_, rfl⟩
  have hs₂ : hostStep samplePosix s₁ (.operate (some ⟨VITA_OPERATE_CREATE_FOLDER, 1005, ['n']⟩)) =
      some properHost := by
    rw [← Option.some.inj hs₁]
    rfl
  have hsecond : ProperRequest samplePosix samplePaths ['0'] s₁
      (.operate (some ⟨VITA_OPERATE_CREATE_FOLDER, 1005, ['n']⟩)) :=
    ⟨properName_component (by decide) (by decide) (by decide), fun he => absurd he (by decide)⟩
  have hreached : Reached (hostStep samplePosix) (ProperRequest samplePosix samplePaths ['0'])
      { db := sampleDatabase, fs := { state := () } } properHost :=
    (Reached.start.step sample_properRename hs₁).step hsecond hs₂
  exact ⟨by decide +kernel, paths_contained sampleView_fileNames sample_created hreached⟩

/-- A file with the title `../o` is created beside the directory of the photos. -/
theorem paths_not_contained :
    ∃ s : Host Unit, Reached (hostStep samplePosix) (fun _ _ => True)
        { db := sampleDatabase, fs := { state := () } } s ∧
      createDatabase sampleView 3 samplePaths ['0'] = some sampleDatabase ∧
      s.fs.calls = [.creat ['/', 'p', '/', '.', '.', '/', 'o']] ∧
      ∀ c : Category, ¬ Contained (c.path samplePaths ['0']) ['/', 'p', '/', '.', '.', '/', 'o'] := by
  obtain ⟨s, hs⟩ : ∃ s, hostStep samplePosix { db := sampleDatabase, fs := { state := () } }
      (.operate (some ⟨VITA_OPERATE_CREATE_FILE, 2, ['.', '.', '/', 'o']⟩)) = some s := ⟨_, rfl⟩
  refine ⟨s, Reached.start.step trivial hs, sample_created, ?_, fun c hc => ?_⟩
  · rw [← Option.some.inj hs]
    decide +kernel
  · by_cases hphotos : c = .photos
    · rw [hphotos] at hc
      have hpath : ['/', 'p', '/', '.', '.', '/', 'o'] =
          (Category.photos.path samplePaths ['0'] ++ '/' :: ['.', '.']) ++ '/' :: ['o'] := by
        rfl
      rw [hpath] at hc
      exact not_inside_append (by decide) (by decide) ['o'] hc
    · have hpre := hc.isPrefix
      revert hphotos hpre
      cases c <;> decide

end VitaMTP
