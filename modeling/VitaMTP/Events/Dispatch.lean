import VitaMTP.Events.Concluded

/-! The loop over the events of the device: each picks a handler from a table, and the handler
reports its result. -/
namespace VitaMTP
open Runs

def PTP_EC_VITA_RequestSendNumOfObject : BitVec 16 := 0xC104
def PTP_EC_VITA_RequestCheckExistance : BitVec 16 := 0xC120
def PTP_EC_VITA_RequestSendCopyConfirmationInfo : BitVec 16 := 0xC123

/-- What `VitaMTP_Read_Event` stores. -/
structure ReadEvent extends Event where
  code : BitVec 16
  param1 : BitVec 32

/-- The functions in `g_event_processes`. -/
inductive EventProcess
  | sendNumOfObject
  | sendObjectMetadata
  | sendObject
  | cancelTask
  | sendHttpObjectFromURL
  | sendObjectStatus
  | sendObjectThumb
  | deleteObject
  | getSettingInfo
  | sendHttpObjectPropFromURL
  | sendPartOfObject
  | operateObject
  | getPartOfObject
  | sendStorageSize
  | checkExistance
  | getTreatObject
  | sendCopyConfirmationInfo
  | sendObjectMetadataItems
  | sendNPAccountInfo
  | requestTerminate
  | unimplementated
  deriving DecidableEq, Repr

/-- `g_event_processes`. -/
def eventProcesses : List EventProcess :=
  [.sendNumOfObject, .sendObjectMetadata, .unimplementated, .sendObject, .cancelTask,
    .unimplementated, .unimplementated, .sendHttpObjectFromURL, .unimplementated, .unimplementated,
    .unimplementated, .sendObjectStatus, .sendObjectThumb, .deleteObject, .getSettingInfo,
    .sendHttpObjectPropFromURL, .unimplementated, .sendPartOfObject, .unimplementated,
    .operateObject, .getPartOfObject, .sendStorageSize, .unimplementated, .unimplementated,
    .unimplementated, .unimplementated, .unimplementated, .unimplementated, .checkExistance,
    .unimplementated, .getTreatObject, .sendCopyConfirmationInfo, .sendObjectMetadataItems,
    .sendNPAccountInfo, .requestTerminate, .unimplementated]

/-- The slot of a code, an `int`. The last one is for codes outside of the table. -/
def eventSlot (code : BitVec 16) : ℕ :=
  let slot : ℤ := code.toNat - PTP_EC_VITA_RequestSendNumOfObject.toNat
  if slot < 0 ∨ slot > eventProcesses.length then eventProcesses.length - 1 else slot.toNat

def EventProcess.Implemented : EventProcess → Prop
  | cancelTask | sendNPAccountInfo | requestTerminate | unimplementated => False
  | _ => True

/-- What the device sends in the transactions of a handler, when all of them succeed, and what the
local `httpobjectprop` happens to hold. Where there is nothing, the data are too short or not
terminated, and what is used of them was not sent or never assigned. -/
structure Exchange where
  browse : Option (BitVec 32)
  answers : ℕ → SendAnswer
  url : Option CString
  size : ULong
  status : Option (CString × BitVec 32)
  settings : SettingPayload
  partInit : Option SendPartInit
  operate : Option OperateObject
  part : Option PartOfObject
  existance : Option CString
  treat : Option (BitVec 32 × DeviceObject)
  copy : Option CopyInfo
  item : Option (BitVec 32)

/-- The system below the host, and its directories. -/
structure Machine (σ : Type) where
  posix : Posix σ
  statvfs : σ → CString → Option Statvfs
  paths : CmaPaths

/-- What the handlers share: the database, if there is one, and the file system. -/
structure Listener (σ : Type) where
  database : Option Database
  fs : Disk σ

/-- A well-formed database whose objects are of the kinds there are. -/
def Database.Sound (paths : CmaPaths) (uuid : CString) (db : Database) : Prop :=
  WellFormed paths uuid db ∧ db.Kinded

namespace Listener

variable {σ : Type}

/-- A handler that uses the database without asking whether there is one. -/
def withDatabase (s : Listener σ) (run : Host σ → Option (Host σ × List Message)) :
    Option (Listener σ × List Message) := do
  let db ← s.database
  let (host, msgs) ← run { db := db, fs := s.fs }
  some ({ database := some host.db, fs := host.fs }, msgs)

/-- There is a database, and `P` holds with it. -/
def HasDatabase (s : Listener σ) (P : Host σ → Prop) : Prop :=
  ∃ db, s.database = some db ∧ P { db := db, fs := s.fs }

def Sound (paths : CmaPaths) (uuid : CString) (s : Listener σ) : Prop :=
  ∀ db ∈ s.database, db.Sound paths uuid

end Listener

section listener

variable {σ : Type} (m : Machine σ)

/-- The handler of an event, with transactions that succeed. -/
def EventProcess.run (s : Listener σ) (event : Event) (data : Exchange) :
    EventProcess → Option (Listener σ × List Message)
  | sendNumOfObject =>
    let (database, msgs) := vitaEventSendNumOfObject s.database event true
    some ({ s with database := database }, msgs)
  | sendObjectMetadata => data.browse.bind fun browse => s.withDatabase fun host => do
    let (db, msgs) ← vitaEventSendObjectMetadata (listingFuel host.db browse.toInt) host.db
      (some browse) true
    some ({ host with db := db }, msgs)
  | sendObject => s.withDatabase fun host =>
    some (vitaEventSendObject m.posix host event fun k => some (data.answers k))
  | sendHttpObjectFromURL => data.url.map fun url =>
    (s, vitaEventSendHttpObjectFromURL m.posix m.paths s.fs (some url) true)
  | sendObjectStatus => data.status.bind fun (title, ohfiRoot) => s.withDatabase fun host =>
    vitaEventSendObjectStatus host title ohfiRoot true
  | sendObjectThumb => s.withDatabase fun host => vitaEventSendObjectThumb m.posix host event true
  | deleteObject => s.withDatabase fun host =>
    (vitaEventDeleteObject m.posix host event).toOption
  | getSettingInfo => vitaEventGetSettingInfo s data.settings
  | sendHttpObjectPropFromURL => data.url.map fun url =>
    (s, vitaEventSendHttpObjectPropFromURL m.posix m.paths s.fs data.size (some url) true)
  | sendPartOfObject => data.partInit.bind fun partInit => s.withDatabase fun host =>
    some (host, vitaEventSendPartOfObject m.posix host (some partInit) true)
  | operateObject => data.operate.bind fun operate => s.withDatabase fun host =>
    vitaEventOperateObject m.posix host (some operate)
  | getPartOfObject => data.part.bind fun part => s.withDatabase fun host =>
    vitaEventGetPartOfObject m.posix host (some part)
  | sendStorageSize => s.withDatabase fun host =>
    some (vitaEventSendStorageSize m.posix m.statvfs host event true)
  | checkExistance => data.existance.bind fun name => s.withDatabase fun host =>
    some (host, vitaEventCheckExistance host.db name)
  | getTreatObject => data.treat.bind fun treat => s.withDatabase fun host =>
    vitaEventGetTreatObject m.posix host (some treat)
  | sendCopyConfirmationInfo => data.copy.bind fun info => s.withDatabase fun host =>
    vitaEventSendCopyConfirmationInfo host info true
  | sendObjectMetadataItems => data.item.bind fun ohfi => s.withDatabase fun host =>
    vitaEventSendObjectMetadataItems host ohfi true
  -- these only log
  | cancelTask | sendNPAccountInfo | requestTerminate | unimplementated => some (s, [])

/-- A round of the loop, and what it sends for the id of the event. A slot outside of the table is
undefined. -/
def vitaEventListener (s : Listener σ) (input : ReadEvent × Exchange) :
    Option (Listener σ × List (BitVec 32 × Message)) := do
  let process ← eventProcesses[eventSlot input.1.code]?
  let (s, msgs) ← process.run m s input.1.toEvent input.2
  some (s, msgs.map fun msg => (input.1.param1, msg))

def listenerStep (s : Listener σ) (input : ReadEvent × Exchange) : Option (Listener σ) :=
  (vitaEventListener m s input).map Prod.fst

/-- All that is sent is for one event, and ends in the one report. -/
def ConcludedFor (eventId : BitVec 32) (sent : List (BitVec 32 × Message)) : Prop :=
  (∀ msg ∈ sent, msg.1 = eventId) ∧ ReportedOnce (sent.map Prod.snd)

/-- The event picks a function in the table, and one that handles requests concludes. -/
def DispatchedOnce (s : Listener σ) (input : ReadEvent × Exchange) : Prop :=
  eventSlot input.1.code < eventProcesses.length ∧
    ∀ process, eventProcesses[eventSlot input.1.code]? = some process → process.Implemented →
      ∃ s' sent, vitaEventListener m s input = some (s', sent) ∧
        ConcludedFor input.1.param1 sent

/-- What a handler needs of the state and of the device to report once. -/
def EventProcess.Fits (s : Listener σ) (event : Event) (data : Exchange) : EventProcess → Prop
  | sendObjectMetadata => ∃ browse, data.browse = some browse ∧
    s.HasDatabase fun host => (ohfiToObject host.db browse.toInt).isSome
  | sendObject => s.HasDatabase fun host => SendRefused m.posix host event.param2.toInt
  | sendObjectThumb => s.HasDatabase fun host => ThumbFits host.db event.param2.toInt
  | deleteObject => s.HasDatabase fun _ => ¬ NamesCategory event.param2.toInt
  | getSettingInfo => SettingsFit data.settings
  | operateObject => ∃ operate, data.operate = some operate ∧
    s.HasDatabase fun _ => OperateFits operate
  | getPartOfObject => ∃ part, data.part = some part ∧
    s.HasDatabase fun host => PartComplete host.db part
  | checkExistance => False
  | getTreatObject => ∃ treat, data.treat = some treat ∧
    s.HasDatabase fun host => TreatComplete m.posix host treat
  | sendCopyConfirmationInfo => ∃ info, data.copy = some info ∧
    s.HasDatabase fun host => CopyFits host.db info
  | sendObjectStatus => (∃ status, data.status = some status) ∧ s.HasDatabase fun _ => True
  | sendPartOfObject => (∃ partInit, data.partInit = some partInit) ∧ s.HasDatabase fun _ => True
  | sendObjectMetadataItems => (∃ ohfi, data.item = some ohfi) ∧ s.HasDatabase fun _ => True
  | sendStorageSize => s.HasDatabase fun _ => True
  | sendHttpObjectFromURL | sendHttpObjectPropFromURL => ∃ url, data.url = some url
  | _ => True

/-- The code is not the one behind the table, and the handler has what it needs. -/
def EventFits (s : Listener σ) (input : ReadEvent × Exchange) : Prop :=
  input.1.code ≠ 0xC128 ∧
    ∀ process, eventProcesses[eventSlot input.1.code]? = some process → process.Implemented →
      process.Fits m s input.1.toEvent input.2

end listener

namespace Database.Sound

variable {σ : Type} {posix : Posix σ} {paths : CmaPaths} {uuid : CString} {db db' : Database}

theorem unlinked (h : db.Sound paths uuid) (hlink : db'.unlinked = db.unlinked) :
    db'.Sound paths uuid := by
  constructor
  · exact WellFormed.unlinked_iff.mp (hlink ▸ WellFormed.unlinked_iff.mpr h.1)
  · exact WellFormed.kinded_unlinked h.2 hlink

theorem setHandle (h : db.Sound paths uuid) (c : Category) (ohfi : ℤ) (handle : BitVec 32) :
    (db.modify c ohfi (CmaObject.setHandle handle)).Sound paths uuid := by
  constructor
  · exact h.1.setHandle c ohfi handle
  · exact WellFormed.kinded_setHandle h.2 c ohfi handle

theorem handle {s s' : Host σ} (h : s.db.Sound paths uuid) {r : DeviceRequest}
    {msgs : List Message} (hres : r.handle posix s = some (s', msgs)) : s'.db.Sound paths uuid := by
  have hhandled := handle_handled h.1 hres
  exact ⟨hhandled.wellFormed h.1, hhandled.kinded h.1 h.2⟩

theorem filterObjects (h : db.Sound paths uuid) (ohfi : ℤ) :
    (VitaMTP.filterObjects db ohfi).2.2.Sound paths uuid := by
  cases hfound : ohfiToObject db ohfi with
  | none => simpa [VitaMTP.filterObjects, hfound] using h
  | some r =>
    obtain ⟨n, head, db', heq, hunlinked, -⟩ := h.1.listing_elements h.2 hfound
    rw [heq]
    exact h.unlinked hunlinked

end Database.Sound

section unlink

variable {σ : Type}

theorem Database.unlinked_modify (db : Database) (c : Category) (ohfi : ℤ)
    {f : CmaObject → CmaObject} (hf : ∀ o, (f o).unlinked = o.unlinked) :
    (db.modify c ohfi f).unlinked = db.unlinked := by
  have hmap : ((db.lists c).map fun o => if o.ohfi = ohfi then f o else o).map CmaObject.unlinked =
      (db.lists c).map CmaObject.unlinked := by
    rw [List.map_map]
    refine List.map_congr_left fun o _ => ?_
    dsimp only [Function.comp_apply]
    split
    · exact hf o
    · rfl
  simp only [Database.modify, Database.unlinked, Database.setList, Database.mk.injEq, and_true]
  funext d
  by_cases hd : d = c
  · subst hd
    simpa using hmap
  · simp [hd]

theorem unlink_unlinked (s : Host σ) (object : Option ObjectPtr) :
    (Handler.unlink s object).db.unlinked = s.db.unlinked := by
  cases object with
  | none => rfl
  | some object =>
    apply Database.unlinked_modify
    intro o
    simp [CmaObject.unlinked, Metadata.unlinked]

end unlink

namespace Listener

variable {σ : Type} {paths : CmaPaths} {uuid : CString} {s s' : Listener σ}
  {run : Host σ → Option (Host σ × List Message)}

theorem withDatabase_eq_some {msgs : List Message} :
    s.withDatabase run = some (s', msgs) ↔
      ∃ db host, s.database = some db ∧ run { db := db, fs := s.fs } = some (host, msgs) ∧
        s' = { database := some host.db, fs := host.fs } := by
  constructor
  · intro h
    obtain ⟨db, hdb, h⟩ := Option.bind_eq_some_iff.mp h
    obtain ⟨⟨host, msgs'⟩, hrun, h⟩ := Option.bind_eq_some_iff.mp h
    obtain ⟨rfl, rfl⟩ := Prod.mk.inj (Option.some.inj h)
    exact ⟨db, host, hdb, hrun, rfl⟩
  · rintro ⟨db, host, hdb, hrun, rfl⟩
    simp [withDatabase, hdb, hrun]

theorem withDatabase_concludes :
    Concludes (s.withDatabase run) ↔ s.HasDatabase fun host => Concludes (run host) := by
  constructor
  · rintro ⟨s', msgs, h, hmsgs⟩
    obtain ⟨db, host, hdb, hrun, -⟩ := withDatabase_eq_some.mp h
    exact ⟨db, hdb, host, msgs, hrun, hmsgs⟩
  · rintro ⟨db, hdb, host, msgs, hrun, hmsgs⟩
    exact ⟨_, msgs, withDatabase_eq_some.mpr ⟨db, host, hdb, hrun, rfl⟩, hmsgs⟩

/-- A condition may be replaced by one that says the same of sound databases. -/
theorem Sound.hasDatabase_congr (hs : s.Sound paths uuid) {P Q : Host σ → Prop}
    (hPQ : ∀ host : Host σ, host.db.Sound paths uuid → (P host ↔ Q host)) :
    s.HasDatabase P ↔ s.HasDatabase Q := by
  constructor
  · rintro ⟨db, hdb, hP⟩
    exact ⟨db, hdb, (hPQ _ (hs db hdb)).mp hP⟩
  · rintro ⟨db, hdb, hQ⟩
    exact ⟨db, hdb, (hPQ _ (hs db hdb)).mpr hQ⟩

theorem Sound.withDatabase_iff (hs : s.Sound paths uuid) {P : Host σ → Prop}
    (hP : ∀ host : Host σ, host.db.Sound paths uuid → (Concludes (run host) ↔ P host)) :
    Concludes (s.withDatabase run) ↔ s.HasDatabase P :=
  withDatabase_concludes.trans (hs.hasDatabase_congr hP)

theorem Sound.withDatabase (hs : s.Sound paths uuid) {msgs : List Message}
    (hrun : ∀ host host' : Host σ, host.db.Sound paths uuid → run host = some (host', msgs) →
      host'.db.Sound paths uuid)
    (h : s.withDatabase run = some (s', msgs)) : s'.Sound paths uuid := by
  obtain ⟨db, host, hdb, hres, rfl⟩ := withDatabase_eq_some.mp h
  rintro db' hdb'
  obtain rfl := Option.some.inj hdb'
  exact hrun _ host (hs db hdb) hres

end Listener

section keeps

variable {σ : Type} {posix : Posix σ} {statvfs : σ → CString → Option Statvfs} {paths : CmaPaths}
  {uuid : CString} {s s' : Host σ} {msgs : List Message}

theorem sendObjectMetadata_sound (h : s.db.Sound paths uuid) {fuel : ℕ} {browse : BitVec 32}
    {sent : Bool} {db : Database}
    (hres : vitaEventSendObjectMetadata fuel s.db (some browse) sent = some (db, msgs)) :
    db.Sound paths uuid := by
  simp only [vitaEventSendObjectMetadata] at hres
  obtain ⟨head, -, hres⟩ := Option.bind_eq_some_iff.mp hres
  obtain ⟨elements, -, hres⟩ := Option.bind_eq_some_iff.mp hres
  obtain ⟨rfl, -⟩ := Prod.mk.inj (Option.some.inj hres)
  exact h.filterObjects browse.toInt

theorem sendMetadataOf_sound (h : s.db.Sound paths uuid) {object : ObjectPtr} {sent : Bool}
    (hres : sendMetadataOf s object sent = some (s', msgs)) : s'.db.Sound paths uuid := by
  obtain ⟨elements, -, hres⟩ := Option.bind_eq_some_iff.mp hres
  obtain ⟨rfl, -⟩ := Prod.mk.inj (Option.some.inj hres)
  exact h.unlinked (unlink_unlinked s (some object))

theorem sendObjectStatus_sound (h : s.db.Sound paths uuid) {title : CString} {ohfiRoot : BitVec 32}
    {sent : Bool} (hres : vitaEventSendObjectStatus s title ohfiRoot sent = some (s', msgs)) :
    s'.db.Sound paths uuid := by
  unfold vitaEventSendObjectStatus at hres
  split at hres
  · obtain ⟨rfl, -⟩ := Prod.mk.inj (Option.some.inj hres)
    exact h
  · exact sendMetadataOf_sound h hres

theorem sendObjectMetadataItems_sound (h : s.db.Sound paths uuid) {ohfi : BitVec 32} {sent : Bool}
    (hres : vitaEventSendObjectMetadataItems s ohfi sent = some (s', msgs)) :
    s'.db.Sound paths uuid := by
  unfold vitaEventSendObjectMetadataItems at hres
  split at hres
  · obtain ⟨rfl, -⟩ := Prod.mk.inj (Option.some.inj hres)
    exact h
  · exact sendMetadataOf_sound h hres

theorem sendObjectThumb_host {event : Event} {sent : Bool}
    (hres : vitaEventSendObjectThumb posix s event sent = some (s', msgs)) : s' = s := by
  unfold vitaEventSendObjectThumb at hres
  split at hres
  · exact (Prod.mk.inj (Option.some.inj hres)).1.symm
  · split at hres
    · exact (Prod.mk.inj (Option.some.inj hres)).1.symm
    · split_ifs at hres
      split at hres
      · exact (Prod.mk.inj (Option.some.inj hres)).1.symm
      · obtain ⟨elements, -, hres⟩ := Option.bind_eq_some_iff.mp hres
        exact (Prod.mk.inj (Option.some.inj hres)).1.symm

theorem sendStorageSize_db (event : Event) (sent : Bool) :
    (vitaEventSendStorageSize posix statvfs s event sent).1.db = s.db := by
  have hspace (s : Host σ) (path : CString) : (sendDiskSpace statvfs s path sent).1 = s := by
    unfold sendDiskSpace
    split <;> rfl
  unfold vitaEventSendStorageSize
  split
  · rfl
  · dsimp only
    split_ifs
    · rw [hspace]
    · rw [hspace]
    · rfl

theorem sendCopyConfirmationInfo_host {info : CopyInfo} {sent : Bool}
    (hres : vitaEventSendCopyConfirmationInfo s info sent = some (s', msgs)) : s' = s := by
  unfold vitaEventSendCopyConfirmationInfo at hres
  split at hres
  · exact (Prod.mk.inj (Option.some.inj hres)).1.symm
  · dsimp only at hres
    split_ifs at hres
    exact (Prod.mk.inj (Option.some.inj hres)).1.symm

theorem getSettingInfo_state {α : Type} {a a' : α} {settings : SettingPayload}
    (hres : vitaEventGetSettingInfo a settings = some (a', msgs)) : a' = a := by
  unfold vitaEventGetSettingInfo at hres
  split at hres
  · simp at hres
  · exact (Prod.mk.inj (Option.some.inj hres)).1.symm
  · split at hres
    · exact (Prod.mk.inj (Option.some.inj hres)).1.symm
    · obtain ⟨current, -, hres⟩ := Option.bind_eq_some_iff.mp hres
      obtain ⟨account, -, hres⟩ := Option.bind_eq_some_iff.mp hres
      obtain ⟨id, -, hres⟩ := Option.bind_eq_some_iff.mp hres
      obtain ⟨accesses, -, hres⟩ := Option.bind_eq_some_iff.mp hres
      split_ifs at hres
      exact (Prod.mk.inj (Option.some.inj hres)).1.symm

theorem EventProcess.run_sound (m : Machine σ) {s s' : Listener σ} (hs : s.Sound paths uuid)
    {event : Event} {data : Exchange} {process : EventProcess}
    (h : process.run m s event data = some (s', msgs)) : s'.Sound paths uuid := by
  cases process with
  | sendNumOfObject =>
    obtain ⟨rfl, -⟩ := Prod.mk.inj (Option.some.inj h)
    intro db hdb
    cases hdatabase : s.database with
    | none => simp [hdatabase] at hdb
    | some db₁ =>
      simp only [hdatabase, Option.mem_def, Option.some.injEq] at hdb
      subst hdb
      exact (hs db₁ hdatabase).filterObjects event.param2.toInt
  | sendObjectMetadata =>
    obtain ⟨browse, -, h⟩ := Option.bind_eq_some_iff.mp h
    refine hs.withDatabase (fun host host' hhost hres => ?_) h
    obtain ⟨⟨db, sent⟩, hmetadata, hres⟩ := Option.bind_eq_some_iff.mp hres
    obtain ⟨rfl, rfl⟩ := Prod.mk.inj (Option.some.inj hres)
    exact sendObjectMetadata_sound hhost hmetadata
  | sendObject =>
    dsimp only [run] at h
    refine hs.withDatabase (fun host host' hhost hres => ?_) h
    have hkept := @vitaEventSendObject_keeps σ m.posix paths uuid host (Database.Sound paths uuid)
      (fun db c ohfi handle hdb => hdb.setHandle c ohfi handle) hhost.1 event
      (fun k => some (data.answers k)) hhost
    rwa [Option.some.inj hres] at hkept
  | sendObjectStatus =>
    obtain ⟨status, -, h⟩ := Option.bind_eq_some_iff.mp h
    exact hs.withDatabase (fun host host' hhost hres => sendObjectStatus_sound hhost hres) h
  | sendObjectThumb =>
    dsimp only [run] at h
    refine hs.withDatabase (fun host host' hhost hres => ?_) h
    rwa [sendObjectThumb_host hres]
  | deleteObject =>
    exact hs.withDatabase (fun host host' hhost hres =>
      hhost.handle (r := .delete event) hres) h
  | getSettingInfo => rwa [getSettingInfo_state h]
  | sendPartOfObject =>
    obtain ⟨partInit, -, h⟩ := Option.bind_eq_some_iff.mp h
    refine hs.withDatabase (fun host host' hhost hres => ?_) h
    obtain ⟨rfl, -⟩ := Prod.mk.inj (Option.some.inj hres)
    exact hhost
  | operateObject =>
    obtain ⟨operate, -, h⟩ := Option.bind_eq_some_iff.mp h
    exact hs.withDatabase (fun host host' hhost hres =>
      hhost.handle (r := .operate (some operate)) hres) h
  | getPartOfObject =>
    obtain ⟨part, -, h⟩ := Option.bind_eq_some_iff.mp h
    exact hs.withDatabase (fun host host' hhost hres =>
      hhost.handle (r := .part (some part)) hres) h
  | sendStorageSize =>
    dsimp only [run] at h
    refine hs.withDatabase (fun host host' hhost hres => ?_) h
    have hdb := @sendStorageSize_db σ m.posix m.statvfs host event true
    rw [Option.some.inj hres] at hdb
    rwa [hdb]
  | checkExistance =>
    obtain ⟨name, -, h⟩ := Option.bind_eq_some_iff.mp h
    refine hs.withDatabase (fun host host' hhost hres => ?_) h
    obtain ⟨rfl, -⟩ := Prod.mk.inj (Option.some.inj hres)
    exact hhost
  | getTreatObject =>
    obtain ⟨treat, -, h⟩ := Option.bind_eq_some_iff.mp h
    exact hs.withDatabase (fun host host' hhost hres =>
      hhost.handle (r := .treat (some treat)) hres) h
  | sendCopyConfirmationInfo =>
    obtain ⟨info, -, h⟩ := Option.bind_eq_some_iff.mp h
    refine hs.withDatabase (fun host host' hhost hres => ?_) h
    rwa [sendCopyConfirmationInfo_host hres]
  | sendObjectMetadataItems =>
    obtain ⟨ohfi, -, h⟩ := Option.bind_eq_some_iff.mp h
    exact hs.withDatabase (fun host host' hhost hres => sendObjectMetadataItems_sound hhost hres) h
  | sendHttpObjectFromURL | sendHttpObjectPropFromURL =>
    obtain ⟨url, -, h⟩ := Option.map_eq_some_iff.mp h
    obtain ⟨rfl, -⟩ := Prod.mk.inj h
    exact hs
  | cancelTask | sendNPAccountInfo | requestTerminate | unimplementated =>
    obtain ⟨rfl, -⟩ := Prod.mk.inj (Option.some.inj h)
    exact hs

end keeps

section concludes

variable {σ : Type} {m : Machine σ} {paths : CmaPaths} {uuid : CString} {s : Listener σ}

theorem sendObjectMetadata_concludes_iff {host : Host σ} (h : host.db.Sound paths uuid)
    (browse : BitVec 32) :
    Concludes (do
      let (db, msgs) ← vitaEventSendObjectMetadata (listingFuel host.db browse.toInt) host.db
        (some browse) true
      some ({ host with db := db }, msgs)) ↔ (ohfiToObject host.db browse.toInt).isSome := by
  cases hfound : ohfiToObject host.db browse.toInt with
  | none => simp [sendObjectMetadata_unknown hfound]
  | some r =>
    obtain ⟨db', elements, hres, -⟩ := sendObjectMetadata_known h.1 h.2 hfound
    simp [hres, Message.isReport]

theorem EventProcess.run_concludes_iff (hs : s.Sound paths uuid) (event : Event) (data : Exchange)
    {process : EventProcess} (himplemented : process.Implemented) :
    Concludes (process.run m s event data) ↔ process.Fits m s event data := by
  cases process with
  | sendNumOfObject =>
    exact iff_of_true ((concludes_some ..).mpr (sendNumOfObject_reports s.database event)) trivial
  | sendObjectMetadata =>
    refine concludes_bind.trans (exists_congr fun browse => and_congr_right fun _ => ?_)
    exact hs.withDatabase_iff fun host hhost => sendObjectMetadata_concludes_iff hhost browse
  | sendObject =>
    dsimp only [run, Fits]
    refine hs.withDatabase_iff fun host hhost => ?_
    rw [concludes_some]
    exact sendObject_reports_iff hhost.1 hhost.2 event data.answers
  | sendHttpObjectFromURL =>
    exact concludes_map fun url => sendHttpObjectFromURL_reports s.fs url
  | sendObjectStatus =>
    refine concludes_bind_iff fun status => ?_
    exact hs.withDatabase_iff fun host hhost =>
      iff_true_intro (sendObjectStatus_concludes hhost.1 hhost.2 status.1 status.2)
  | sendObjectThumb =>
    dsimp only [run, Fits]
    exact hs.withDatabase_iff fun host hhost => sendObjectThumb_concludes_iff event
  | deleteObject =>
    exact hs.withDatabase_iff fun host hhost => deleteObject_concludes_iff hhost.1 event
  | getSettingInfo => exact getSettingInfo_concludes_iff s data.settings
  | sendHttpObjectPropFromURL =>
    exact concludes_map fun url => sendHttpObjectPropFromURL_reports s.fs data.size url
  | sendPartOfObject =>
    refine concludes_bind_iff fun partInit => ?_
    exact hs.withDatabase_iff fun host hhost =>
      iff_true_intro ((concludes_some ..).mpr (sendPartOfObject_reports partInit))
  | operateObject =>
    refine concludes_bind.trans (exists_congr fun operate => and_congr_right fun _ => ?_)
    exact hs.withDatabase_iff fun host hhost => operateObject_concludes_iff hhost.1 operate
  | getPartOfObject =>
    refine concludes_bind.trans (exists_congr fun part => and_congr_right fun _ => ?_)
    exact hs.withDatabase_iff fun host hhost => getPartOfObject_concludes_iff hhost.1 part
  | sendStorageSize =>
    dsimp only [run, Fits]
    exact hs.withDatabase_iff fun host hhost =>
      iff_true_intro ((concludes_some ..).mpr (sendStorageSize_reports event))
  | checkExistance =>
    dsimp only [run, Fits]
    rw [iff_false, concludes_bind]
    rintro ⟨name, -, hname⟩
    obtain ⟨db, -, hconcludes⟩ := Listener.withDatabase_concludes.mp hname
    exact checkExistance_reports db name ((concludes_some ..).mp hconcludes)
  | getTreatObject =>
    refine concludes_bind.trans (exists_congr fun treat => and_congr_right fun _ => ?_)
    exact hs.withDatabase_iff fun host hhost => getTreatObject_concludes_iff hhost.1 treat
  | sendCopyConfirmationInfo =>
    refine concludes_bind.trans (exists_congr fun info => and_congr_right fun _ => ?_)
    exact hs.withDatabase_iff fun host hhost => sendCopyConfirmationInfo_concludes_iff info
  | sendObjectMetadataItems =>
    refine concludes_bind_iff fun ohfi => ?_
    exact hs.withDatabase_iff fun host hhost =>
      iff_true_intro (sendObjectMetadataItems_concludes hhost.1 hhost.2 ohfi)
  | cancelTask => exact himplemented.elim
  | sendNPAccountInfo => exact himplemented.elim
  | requestTerminate => exact himplemented.elim
  | unimplementated => exact himplemented.elim

end concludes

theorem eventSlot_lt_iff (code : BitVec 16) :
    eventSlot code < eventProcesses.length ↔ code ≠ 0xC128 := by
  have hlength : eventProcesses.length = 36 := rfl
  have hfirst : PTP_EC_VITA_RequestSendNumOfObject.toNat = 0xC104 := rfl
  have hcode : code = 0xC128 ↔ code.toNat = 0xC128 := BitVec.toNat_inj.symm
  rw [Ne, hcode]
  simp only [eventSlot, hlength, hfirst]
  split_ifs <;> omega

theorem concludes_iff_concludedFor {α : Type} (r : Option (α × List Message))
    (eventId : BitVec 32) :
    Concludes r ↔ ∃ a sent, (r.bind fun p => some (p.1, p.2.map fun msg => (eventId, msg))) =
      some (a, sent) ∧ ConcludedFor eventId sent := by
  have htagged (msgs : List Message) :
      ConcludedFor eventId (msgs.map fun msg => (eventId, msg)) ↔ ReportedOnce msgs := by
    simp [ConcludedFor, Function.comp_def]
  cases r with
  | none => simp
  | some p =>
    obtain ⟨a, msgs⟩ := p
    rw [concludes_some, ← htagged]
    simp

section loop

variable {σ : Type} {m : Machine σ} {paths : CmaPaths} {uuid : CString} {start s : Listener σ}

theorem Listener.Sound.dispatchedOnce_iff (hs : s.Sound paths uuid) (input : ReadEvent × Exchange) :
    DispatchedOnce m s input ↔ EventFits m s input := by
  unfold DispatchedOnce EventFits
  rw [eventSlot_lt_iff]
  refine and_congr_right fun _ => forall_congr' fun process => ?_
  refine forall_congr' fun hprocess => forall_congr' fun himplemented => ?_
  rw [← process.run_concludes_iff hs input.1.toEvent input.2 himplemented,
    concludes_iff_concludedFor _ input.1.param1]
  simp only [vitaEventListener, hprocess, Option.bind_eq_bind, Option.bind_some]

theorem listenerStep_sound {s' : Listener σ} (hs : s.Sound paths uuid)
    {input : ReadEvent × Exchange} (h : listenerStep m s input = some s') :
    s'.Sound paths uuid := by
  obtain ⟨⟨s₁, sent⟩, hres, rfl⟩ := Option.map_eq_some_iff.mp h
  obtain ⟨process, -, hres⟩ := Option.bind_eq_some_iff.mp hres
  obtain ⟨⟨s₂, msgs⟩, hrun, hres⟩ := Option.bind_eq_some_iff.mp hres
  obtain ⟨rfl, -⟩ := Prod.mk.inj (Option.some.inj hres)
  exact process.run_sound m hs hrun

end loop

def sampleMachine : Machine Unit where
  posix := samplePosix
  statvfs _ _ := none
  paths := samplePaths

def sampleListener : Listener Unit := { database := some sampleDatabase, fs := { state := () } }

/-- A device that names nothing the host knows. -/
def sampleExchange : Exchange where
  browse := some 0
  answers _ := (0, 0)
  url := some []
  size := 0
  status := some ([], 0)
  settings := .malformed
  partInit := some { ohfi := 0, offset := 0, size := 0 }
  operate := some { cmd := 0, ohfi := 0, title := [] }
  part := some { ohfi := 0, offset := 0, size := 0, data := [] }
  existance := some ['n']
  treat := some (0, .unavailable)
  copy := some { ohfi := [0], counted := by decide }
  item := some 0

/-- The event with this code and the id 7, about the folder with the id 1005. -/
def sampleEvent (code : BitVec 16) : ReadEvent := { param2 := 1005, code := code, param1 := 7 }

theorem sampleListener_sound : sampleListener.Sound samplePaths ['0'] := by
  intro db hdb
  obtain rfl := Option.some.inj hdb
  exact ⟨(sample_reachable EntryAddition).wellFormed, (sample_reachable EntryAddition).kinded⟩

end VitaMTP
