import VitaMTP.Database.Totals
import VitaMTP.Events.ReceiveTree
import VitaMTP.Events.Run

/-! In a run of completed requests every folder and category keeps adding up, as long as nothing
that has a size is taken out and nothing is written into a directory. -/
namespace VitaMTP
open ParentFirst Runs

def Message.isOK : Message → Bool
  | .reportResult code => code == .OK
  | .reportResultWithParam code _ => code == .OK
  | _ => false

section requests

variable {σ : Type} (posix : Posix σ)

/-- The request is answered with success. -/
def Completes (s : Host σ) (r : DeviceRequest) : Bool :=
  match r.handle posix s with
  | some (_, [m]) => m.isOK
  | _ => false

def DeviceRequest.isRename : DeviceRequest → Bool
  | .operate (some operateobject) => operateobject.cmd == VITA_OPERATE_RENAME
  | _ => false

/-- The object a request deletes or replaces does not count for what it is in, and nothing is
written into a directory. -/
def SizesAccounted (s : Host σ) : DeviceRequest → Prop
  | .delete event => ∀ p ∈ ohfiToObject s.db event.param2.toInt, Uncounted s.db p.1 p.2
  | .treat (some (ohfiParent, t)) => ∀ p ∈ ohfiToObject s.db ohfiParent.toInt, ∀ name ∈ t.name?,
      ∀ q ∈ pathToObject s.db name p.2.ohfi, Uncounted s.db q.1 q.2
  | .part (some part) => ∀ p ∈ ohfiToObject s.db part.ohfi.toInt,
      p.2.IsDirectory p.1 → part.size = 0
  | _ => True

instance (s : Host σ) (r : DeviceRequest) : Decidable (SizesAccounted s r) := by
  unfold SizesAccounted
  split <;> infer_instance

/-- A completed request, no rename, that accounts for sizes. -/
def AccountedRequest (s : Host σ) (r : DeviceRequest) : Prop :=
  Completes posix s r = true ∧ r.isRename = false ∧ SizesAccounted s r

instance (s : Host σ) (r : DeviceRequest) : Decidable (AccountedRequest posix s r) := by
  unfold AccountedRequest
  infer_instance

end requests

theorem newObject_sumBlock (count : ℤ) (root : CmaObject) (name : CString) (type : Mask)
    (hlow : root.ohfi < count) :
    SumBlock count root.ohfi [newObject count root name 0 type] 0 :=
  .cons hlow rfl rfl (.nil (by omega)) fun _ => rfl

mutual

theorem nodes_sumBlock (count : ℤ) (root : CmaObject) (hlow : root.ohfi < count) :
    (t : DeviceObject) → SumBlock count root.ohfi (t.nodes count root) t.totalSize
  | .unavailable => by
    unfold DeviceObject.nodes DeviceObject.totalSize
    exact .nil hlow
  | .file name handle size data => by
    unfold DeviceObject.nodes DeviceObject.totalSize
    have hfile := newFile_isFolder count root name 0
    have hblock : SumBlock count root.ohfi
        [((newObject count root name 0 DataType.File).setHandle handle).addSize size]
        (((newObject count root name 0 DataType.File).setHandle handle).addSize size).metadata.size :=
      .cons hlow rfl rfl (.nil (by omega)) fun hfolder => by
        exact absurd (hfile.symm.trans hfolder) (by decide)
    have hsize : (((newObject count root name 0 DataType.File).setHandle handle).addSize
        size).metadata.size = size := BitVec.zero_add size
    rwa [hsize] at hblock
  | .folder name handle children => by
    unfold DeviceObject.nodes DeviceObject.totalSize
    have hinside := childNodes_sumBlock (count + 1)
      ((newObject count root name 0 DataType.Folder).setHandle handle)
      (show count < count + 1 by omega) children
    have hblock := SumBlock.cons (o := ((newObject count root name 0 DataType.Folder).setHandle
      handle).addSize (childrenSize children)) hlow rfl rfl hinside fun _ => rfl
    have hsize : (((newObject count root name 0 DataType.Folder).setHandle handle).addSize
        (childrenSize children)).metadata.size = childrenSize children := BitVec.zero_add _
    rwa [hsize] at hblock

theorem childNodes_sumBlock (count : ℤ) (root : CmaObject) (hlow : root.ohfi < count) :
    (ts : List DeviceObject) → SumBlock count root.ohfi (childNodes count root ts) (childrenSize ts)
  | [] => by
    unfold childNodes childrenSize
    exact .nil hlow
  | t :: ts => by
    unfold childNodes childrenSize
    exact (nodes_sumBlock count root hlow t).append (childNodes_sumBlock _ root (by omega) ts)

end

mutual

theorem nodes_inserted (count : ℤ) (root : CmaObject) :
    (t : DeviceObject) → ∀ o ∈ t.nodes count root, o.insertedSize = 0
  | .unavailable => by
    unfold DeviceObject.nodes
    simp
  | .file name handle size data => by
    unfold DeviceObject.nodes
    intro o ho
    obtain rfl := List.mem_singleton.mp ho
    rfl
  | .folder name handle children => by
    unfold DeviceObject.nodes
    intro o ho
    rcases List.mem_cons.mp ho with rfl | ho
    · rfl
    · exact childNodes_inserted _ _ children o ho

theorem childNodes_inserted (count : ℤ) (root : CmaObject) :
    (ts : List DeviceObject) → ∀ o ∈ childNodes count root ts, o.insertedSize = 0
  | [] => by
    unfold childNodes
    simp
  | t :: ts => by
    unfold childNodes
    intro o ho
    exact (List.mem_append.mp ho).elim (nodes_inserted count root t o)
      (childNodes_inserted _ root ts o)

end

/-- Folders and categories add up, with the sizes the scan of `view` found before the id `first`
and none from there on. -/
structure SizesKept (view : DirView) (first : ℤ) (db : Database) : Prop where
  counted : first ≤ db.ohfiCount
  addsUp : db.AddsUp
  inserted : db.Inserted view first

section step

variable {σ : Type} {posix : Posix σ} {paths : CmaPaths} {uuid : CString} {s s' : Host σ}
  {r : DeviceRequest} {msgs : List Message}

theorem received_grown (h : WellFormed paths uuid s.db) {c : Category} {parent : CmaObject}
    (hparent : parent ∈ s.db.lists c) {t : DeviceObject}
    (hres : vitaGetAllObjects posix c parent.ohfi t s = some (.OK, s')) :
    s'.db = (cleared posix s parent.ohfi t.name?).db.grown c parent.ohfi t.totalSize
      (t.nodes s.db.ohfiCount parent) (s.db.ohfiCount + (t.nodes s.db.ohfiCount parent).length) := by
  have hr := vitaGetAllObjects_receives posix paths uuid t s s' c parent .OK h hparent hres
  have hok := hr.ok.mp rfl
  rw [hr.done hok, cleared_ohfiCount posix h hparent, writeTree_bytes _ _ _ _ _ hok]

theorem cleared_addsUp_iff (h : WellFormed paths uuid s.db) (ha : s.db.AddsUp) {c : Category}
    {parent : CmaObject} (hparent : parent ∈ s.db.lists c) (name : Option CString) :
    (cleared posix s parent.ohfi name).db.AddsUp ↔
      ∀ found ∈ name, ∀ q ∈ pathToObject s.db found parent.ohfi, Uncounted s.db q.1 q.2 := by
  cases name with
  | none => simpa [cleared] using ha
  | some name =>
    simp only [Option.mem_def, Option.some.injEq, forall_eq']
    rcases cleared_cases posix h hparent name with ⟨hnone, he⟩ | ⟨temp, htemp, -, hfound, he⟩
    · simpa [he, hnone] using ha
    · simp only [he, hfound, Option.some.injEq, forall_eq']
      exact h.addsUp_without_iff ha htemp

/-- A completed request that renames nothing keeps the sums exactly where sizes are accounted
for. -/
theorem Handled.addsUp_iff (hh : Handled posix s r s' msgs) (h : WellFormed paths uuid s.db)
    (hrename : r.isRename = false) (hok : ∃ m, msgs = [m] ∧ m.isOK = true) (ha : s.db.AddsUp) :
    s'.db.AddsUp ↔ SizesAccounted s r := by
  obtain ⟨m, rfl, hm⟩ := hok
  cases hh with
  | refused hmsgs =>
    rcases hmsgs with hmsgs | ⟨code, hcode, hmsgs⟩
    · simp at hmsgs
    · obtain rfl := (List.cons.inj hmsgs).1
      exact absurd (by simpa [Message.isOK] using hm) hcode
  | @created c root _ title folder hroot =>
    have hblock := newObject_sumBlock s.db.ohfiCount root title (creationType folder)
      (h.counted_list c root hroot)
    rw [addToDatabase_eq, Database.append_eq_grown s.db c root.ohfi]
    exact ⟨fun _ => trivial, fun _ => (h.addsUp_grown hroot hblock fun _ => rfl).mpr ha⟩
  | notCreated => exact absurd hm (by decide)
  | renamed => exact absurd hrename (by simp [DeviceRequest.isRename])
  | notRenamed => exact absurd hm (by decide)
  | deleted hx hfound =>
    simp only [SizesAccounted, hfound, Option.mem_def, Option.some.injEq, forall_eq']
    exact h.addsUp_without_iff ha hx
  | @received c parent _ t ret _ hparent hfound hreceive =>
    obtain rfl : ret = .OK := by simpa [Message.isOK] using hm
    have hblock := nodes_sumBlock s.db.ohfiCount parent (h.counted_list c parent hparent) t
    have hcleared := cleared_wellFormed posix h hparent t.name?
    have hmem := cleared_parent posix h hparent t.name?
    rw [← cleared_ohfiCount posix h hparent t.name?] at hblock
    simp only [SizesAccounted, hfound, Option.mem_def, Option.some.injEq, forall_eq']
    rw [received_grown h hparent hreceive, ← cleared_ohfiCount posix h hparent t.name?,
      hcleared.addsUp_grown hmem hblock fun _ => rfl]
    exact cleared_addsUp_iff h ha hparent t.name?
  | written hx hfound =>
    simp only [SizesAccounted, hfound, Option.mem_def, Option.some.injEq, forall_eq']
    exact h.addsUp_sizeAdded ha hx
  | notWritten => exact absurd hm (by decide)

theorem Handled.inserted {view : DirView} {first : ℤ} (hh : Handled posix s r s' msgs)
    (h : WellFormed paths uuid s.db) (hrename : r.isRename = false)
    (hok : ∃ m, msgs = [m] ∧ m.isOK = true) (hfirst : first ≤ s.db.ohfiCount)
    (hi : s.db.Inserted view first) :
    first ≤ s'.db.ohfiCount ∧ s'.db.Inserted view first := by
  have hnew {o : CmaObject} {c : Category} (hid : s.db.ohfiCount ≤ o.ohfi)
      (hzero : o.insertedSize = 0) : InsertedSize view first c o := by
    rw [InsertedSize, if_pos (by omega)]
    exact hzero
  obtain ⟨m, rfl, hm⟩ := hok
  cases hh with
  | refused => exact ⟨hfirst, hi⟩
  | @created c root _ title folder hroot =>
    rw [addToDatabase_eq, Database.append_eq_grown s.db c root.ohfi]
    refine ⟨by simp; omega, hi.grown (fun o ho => ?_) _ _ _⟩
    obtain rfl := List.mem_singleton.mp ho
    exact hnew le_rfl rfl
  | notCreated => exact absurd hm (by decide)
  | renamed => exact absurd hrename (by simp [DeviceRequest.isRename])
  | notRenamed => exact absurd hm (by decide)
  | deleted => exact ⟨hfirst, hi.without _ _⟩
  | @received c parent _ t ret _ hparent hfound hreceive =>
    obtain rfl : ret = .OK := by simpa [Message.isOK] using hm
    have hblock := nodes_block s.db.ohfiCount parent t
    have hcleared : (cleared posix s parent.ohfi t.name?).db.Inserted view first := by
      unfold cleared
      split
      · exact hi
      · exact hi.without _ _
    rw [received_grown h hparent hreceive]
    refine ⟨by simp; omega, hcleared.grown (fun o ho => ?_) _ _ _⟩
    exact hnew (hblock.numbered.bounds o ho).1 (nodes_inserted _ _ t o ho)
  | written =>
    rw [Database.sizeAdded_eq_grown]
    exact ⟨hfirst, hi.grown (by simp) _ _ _⟩
  | notWritten => exact absurd hm (by decide)

theorem completes_handled (h : WellFormed paths uuid s.db) (hc : Completes posix s r = true)
    (hs : hostStep posix s r = some s') :
    ∃ msgs, Handled posix s r s' msgs ∧ ∃ m, msgs = [m] ∧ m.isOK = true := by
  unfold hostStep at hs
  obtain ⟨⟨s'', msgs⟩, hres, rfl⟩ := Option.map_eq_some_iff.mp hs
  refine ⟨msgs, handle_handled h hres, ?_⟩
  unfold Completes at hc
  rw [hres] at hc
  split at hc
  · rename_i m heq
    obtain ⟨rfl, rfl⟩ := Prod.mk.inj (Option.some.inj heq)
    exact ⟨m, rfl, hc⟩
  · simp at hc

theorem SizesKept.step {view : DirView} {first : ℤ} (h : WellFormed paths uuid s.db)
    (hk : SizesKept view first s.db) (hr : AccountedRequest posix s r)
    (hs : hostStep posix s r = some s') :
    WellFormed paths uuid s'.db ∧ SizesKept view first s'.db := by
  obtain ⟨hc, hrename, haccounted⟩ := hr
  obtain ⟨msgs, hh, hok⟩ := completes_handled h hc hs
  obtain ⟨hfirst, hi⟩ := hh.inserted h hrename hok hk.counted hk.inserted
  exact ⟨hh.wellFormed h, hfirst, (hh.addsUp_iff h hrename hok hk.addsUp).mpr haccounted, hi⟩

end step

/-- In every run from a scan whose requests account for sizes, the size of each folder and category
less those of its direct children is the size it was inserted with. -/
theorem folder_sizes_consistent {σ : Type} {posix : Posix σ} {view : DirView} {n : ℕ}
    {paths : CmaPaths} {uuid : CString} {db₀ : Database} {fs : Disk σ} {s : Host σ}
    (hdb : createDatabase view n paths uuid = some db₀)
    (h : Reached (hostStep posix) (AccountedRequest posix) { db := db₀, fs := fs } s) :
    (∀ c, ∀ o ∈ s.db.lists c, o.IsDirectory c →
      o.metadata.size - sizeBelow (s.db.lists c) o.ohfi = o.insertedSize) ∧
      s.db.Inserted view db₀.ohfiCount := by
  have hkept : WellFormed paths uuid s.db ∧ SizesKept view db₀.ohfiCount s.db := by
    refine h.invariant (I := fun s => WellFormed paths uuid s.db ∧
      SizesKept view db₀.ohfiCount s.db) ⟨.createDatabase hdb, le_rfl, ?_, ?_⟩ ?_
    · exact WellFormed.addsUp_createDatabase hdb
    · exact WellFormed.inserted_createDatabase hdb
    · intro s r s' hs hr hstep
      exact hs.2.step hs.1 hr hstep
  refine ⟨fun c o ho hdir => ?_, hkept.2.inserted⟩
  rw [hkept.2.addsUp c o ho hdir]
  exact add_sub_cancel_right _ _

/-- A folder is created, the photo grows, and a file is received beside it. -/
def accountedRequests : List DeviceRequest :=
  [.operate (some ⟨VITA_OPERATE_CREATE_FOLDER, 1005, ['n']⟩), .part (some ⟨1006, 7, 2, [0, 0]⟩),
    .treat (some (1005, .file ['y'] 9 1 [0]))]

def accountedHost : Host Unit :=
  (accountedRequests.foldlM (hostStep samplePosix) (sampleHost sampleDatabase)).getD
    (sampleHost sampleDatabase)

theorem folder_sizes_consistent_sample :
    (accountedHost.db.lists .photos).map (fun o => (o.metadata.name, o.metadata.size)) =
      [(none, 4106), (some ['d'], 4106), (some ['x'], 9), (some ['n'], 0), (some ['y'], 1)] ∧
    (∀ c, ∀ o ∈ accountedHost.db.lists c, o.IsDirectory c →
      o.metadata.size - sizeBelow (accountedHost.db.lists c) o.ohfi = o.insertedSize) ∧
      accountedHost.db.Inserted sampleView sampleDatabase.ohfiCount := by
  have hrun : accountedRequests.foldlM (checked (hostStep samplePosix)
      (AccountedRequest samplePosix)) (sampleHost sampleDatabase) = some accountedHost := by
    rfl
  have hreached : Reached (hostStep samplePosix) (AccountedRequest samplePosix)
      (sampleHost sampleDatabase) accountedHost :=
    Reached.start.runChecked hrun
  exact ⟨by decide +kernel, folder_sizes_consistent sample_created hreached⟩

/-- The photo is deleted; its seven bytes stay in the size of the folder. -/
theorem folder_sizes_inconsistent :
    ∃ s : Host Unit, createDatabase sampleView 3 samplePaths ['0'] = some sampleDatabase ∧
      hostStep samplePosix (sampleHost sampleDatabase) (.delete { param2 := 1006 }) = some s ∧
      Completes samplePosix (sampleHost sampleDatabase) (.delete { param2 := 1006 }) = true ∧
      ∃ o ∈ s.db.lists .photos, o.IsDirectory .photos ∧
        o.metadata.size - sizeBelow (s.db.lists .photos) o.ohfi ≠ o.insertedSize := by
  have hsome : (hostStep samplePosix (sampleHost sampleDatabase)
      (.delete { param2 := 1006 })).isSome := by
    decide +kernel
  have hstep := hostStep_isSome hsome
  exact ⟨_, sample_created, hstep, by decide +kernel, sampleObject 1, by decide +kernel⟩

end VitaMTP
