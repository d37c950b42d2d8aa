import VitaMTP.Events.Kinds
import VitaMTP.Events.ReceiveDefined
import VitaMTP.Events.Http
import VitaMTP.Events.SendPart
import VitaMTP.Refresh.Handlers
import VitaMTP.Settings.Dispose

/-! The result a handler reports, once and after everything else it sends. -/
namespace VitaMTP
open Cells LittleEndian

/-- `VitaMTP_ReportResult` or `VitaMTP_ReportResultWithParam`. -/
def Message.isReport : Message → Bool
  | reportResult _ => true
  | reportResultWithParam _ _ => true
  | _ => false

/-- Data commands, and then one result. -/
def ReportedOnce (msgs : List Message) : Prop :=
  ∃ data report, msgs = data ++ [report] ∧ report.isReport = true ∧
    ∀ m ∈ data, m.isReport = false

/-- A handler that returns and has reported once. -/
def Concludes {α : Type} (r : Option (α × List Message)) : Prop :=
  ∃ a msgs, r = some (a, msgs) ∧ ReportedOnce msgs

section reports

variable {α : Type}

@[simp] theorem reportedOnce_nil : ¬ ReportedOnce [] := by
  rintro ⟨data, report, h, -⟩
  simp at h

@[simp] theorem reportedOnce_cons (m : Message) (msgs : List Message) :
    ReportedOnce (m :: msgs) ↔ if m.isReport then msgs = [] else ReportedOnce msgs := by
  constructor
  · rintro ⟨data, report, h, hreport, hdata⟩
    cases data with
    | nil =>
      obtain ⟨rfl, rfl⟩ := List.cons.inj h
      rw [if_pos hreport]
    | cons d data =>
      obtain ⟨rfl, rfl⟩ := List.cons.inj h
      rw [hdata m (List.mem_cons_self ..), if_neg Bool.false_ne_true]
      exact ⟨data, report, rfl, hreport, fun d hd => hdata d (List.mem_cons_of_mem _ hd)⟩
  · cases hm : m.isReport with
    | true =>
      rw [if_pos rfl]
      rintro rfl
      exact ⟨[], m, rfl, hm, by simp⟩
    | false =>
      rw [if_neg Bool.false_ne_true]
      rintro ⟨data, report, rfl, hreport, hdata⟩
      exact ⟨m :: data, report, rfl, hreport, List.forall_mem_cons.mpr ⟨hm, hdata⟩⟩

@[simp] theorem concludes_none : ¬ Concludes (none : Option (α × List Message)) := by
  rintro ⟨a, msgs, h, -⟩
  simp at h

@[simp] theorem concludes_some (a : α) (msgs : List Message) :
    Concludes (some (a, msgs)) ↔ ReportedOnce msgs := by
  constructor
  · rintro ⟨_, _, h, hmsgs⟩
    obtain ⟨-, rfl⟩ := Prod.mk.inj (Option.some.inj h)
    exact hmsgs
  · intro h
    exact ⟨a, msgs, rfl, h⟩

theorem concludes_bind {β : Type} {o : Option β} {f : β → Option (α × List Message)} :
    Concludes (o.bind f) ↔ ∃ b, o = some b ∧ Concludes (f b) := by
  cases o <;> simp

theorem concludes_bind_iff {β : Type} {o : Option β} {f : β → Option (α × List Message)}
    {P : Prop} (hf : ∀ b, Concludes (f b) ↔ P) :
    Concludes (o.bind f) ↔ (∃ b, o = some b) ∧ P := by
  cases o <;> simp [hf]

theorem concludes_map {β : Type} {o : Option β} {a : α} {msgs : β → List Message}
    (hmsgs : ∀ b, ReportedOnce (msgs b)) :
    Concludes (o.map fun b => (a, msgs b)) ↔ ∃ b, o = some b := by
  cases o <;> simp [hmsgs]

end reports

/-- The element of a record that no other follows, or nothing where it is not supported. -/
def recordElements (current : Metadata) : Option (List Element) := do
  match ← startElement current with
  | none => some []
  | some (tag, attributes) =>
    let tracks ← trackElements current
    some [{ tag, attributes, tracks
            index := 0
            ohfiParent := current.ohfiParent
            ohfi := current.ohfi
            size := current.size
            dateTimeCreated := current.dateTimeCreated.toInt }]

/-- `g_thumbmeta`. -/
def thumbMeta : Metadata :=
  { dataType := DataType.Thumbnail
    data := .thumbnail
      { codecType := 18, width := 144, height := 80, type := 0, orientationType := 1
        aspectRatio := "1.000000".toList, fromType := 2 } }

/-- The file that is sent as the thumbnail of an object. -/
def thumbPath (object : CmaObject) : Option CString :=
  if maskSet object.metadata.dataType DataType.Photo then some object.path
  else if maskSet object.metadata.dataType DataType.SaveData then
    some (joinPath object.path "ICON0.PNG".toList)
  else none

/-- `struct statvfs` as far as `getDiskSpace` reads it. -/
structure Statvfs where
  frsize : ULong
  blocks : ULong
  bfree : ULong

/-- What comes of the transaction of `VitaMTP_GetSettingInfo` when it succeeds. -/
inductive SettingPayload
  | empty
  /-- not a document -/
  | malformed
  | document (root : XmlNode)

/-- `copy_confirmation_info_t`, whose count is 32 bits wide. -/
structure CopyInfo where
  ohfi : List (BitVec 32)
  counted : ohfi.length < 2 ^ 32

def CopyInfo.bytes (info : CopyInfo) : List Byte :=
  encode 4 info.ohfi.length ++ info.ohfi.flatMap fun ohfi => encode 4 ohfi.toNat

section handlers

variable {σ : Type} (posix : Posix σ) (statvfs : σ → CString → Option Statvfs)

/-- What follows a data command, if the device accepts it. -/
def reportSent (sent : Bool) : List Message := if sent then [.reportResult .OK] else []

/-- `VitaMTP_SendObjectMetadata` for one object, whose link is cut before. -/
def sendMetadataOf (s : Host σ) (object : ObjectPtr) (sent : Bool) :
    Option (Host σ × List Message) := do
  let elements ← recordElements object.2.metadata
  some (Handler.unlink s (some object), .sendObjectMetadata elements :: reportSent sent)

def vitaEventSendObjectStatus (s : Host σ) (title : CString) (ohfiRoot : BitVec 32)
    (sent : Bool) : Option (Host σ × List Message) :=
  match pathToObject s.db title ohfiRoot.toInt with
  | none => some (s, [.reportResult .OK]) -- not in database, don't return metadata
  | some object => sendMetadataOf s object sent

def vitaEventSendObjectMetadataItems (s : Host σ) (ohfi : BitVec 32) (sent : Bool) :
    Option (Host σ × List Message) :=
  match ohfiToObject s.db ohfi.toInt with
  | none => some (s, [.reportResult .Invalid_OHFI])
  | some object => sendMetadataOf s object sent

/-- It is undefined what becomes of a path that does not fit its buffer. -/
def vitaEventSendObjectThumb (s : Host σ) (event : Event) (sent : Bool) :
    Option (Host σ × List Message) :=
  match ohfiToObject s.db event.param2.toInt with
  | none => some (s, [.reportResult .Invalid_OHFI])
  | some (_, object) =>
    match thumbPath object with
    | none => some (s, [.reportResult .Invalid_Data])
    | some path =>
      if path.length < PATH_MAX then
        match readFileToBuffer posix s.fs path 0 0 with
        | none => some (s, [.reportResult .Invalid_Data])
        | some data => do
          let elements ← recordElements thumbMeta
          some (s, .sendObjectThumb elements data :: reportSent sent)
      else none

/-- `VitaMTP_GetSettingInfo` succeeds without settings where nothing was sent. The first account is
asked for its id, and the settings are freed before the report. It is undefined what comes of a
block that is freed twice. -/
def vitaEventGetSettingInfo (s : σ) (settings : SettingPayload) : Option (σ × List Message) :=
  match settings with
  | .empty => none
  | .malformed => some (s, [])
  | .document root =>
    match settingsFromXml root with
    | none => some (s, [])
    | some heap => do
      let current ← heap[0]?
      let account ← current.value
      let _ ← account.accountId
      let accesses ← freeSettings heap
      if (freed accesses).Nodup then some (s, [.reportResult .OK]) else none

/-- `getDiskSpace` and what follows it. -/
def sendDiskSpace (s : Host σ) (path : CString) (sent : Bool) : Host σ × List Message :=
  match statvfs s.fs.state path with
  | none => (s, [.reportResult .Invalid_Permission])
  | some stat =>
    (s, .sendStorageSize (stat.frsize * stat.blocks) (stat.frsize * stat.bfree) ::
      reportSent sent)

def vitaEventSendStorageSize (s : Host σ) (event : Event) (sent : Bool) :
    Host σ × List Message :=
  match ohfiToObject s.db event.param2.toInt with
  | none => (s, [.reportResult .Invalid_OHFI])
  | some (_, object) =>
    if posix.access s.fs.state object.path then sendDiskSpace statvfs s object.path sent
    else
      let (created, fs) := createNewDirectory posix s.fs object.path
      if created then sendDiskSpace statvfs { s with fs := fs } object.path sent
      else ({ s with fs := fs }, [.reportResult .Invalid_Permission])

/-- The result of the lookup is reported, and then `OK`. -/
def vitaEventCheckExistance (db : Database) (name : CString) : List Message :=
  (match pathToObject db name 0 with
    | none => .reportResult .Different_Object
    | some (_, object) => .reportResultWithParam .Same_Object object.ohfi) ::
  [.reportResult .OK]

/-- The loop over the ids, as far as they are known. -/
def confirmedSize (db : Database) : List (BitVec 32) → ULong → Option ULong
  | [], size => some size
  | ohfi :: rest, size =>
    match ohfiToObject db ohfi.toInt with
    | none => none
    | some (_, object) => confirmedSize db rest (size + object.metadata.size)

/-- An unknown id ends it without a result. The size of the info is an `int`, and nothing can be
allocated for a negative one. -/
def vitaEventSendCopyConfirmationInfo (s : Host σ) (info : CopyInfo) (sent : Bool) :
    Option (Host σ × List Message) :=
  match confirmedSize s.db info.ohfi 0 with
  | none => some (s, [])
  | some size =>
    let infoSize : BitVec 32 := BitVec.ofNat 32 (4 * info.ohfi.length + 4)
    if infoSize.toInt < 0 then none
    else
      some (s, .sendCopyConfirmationInfo
        (encode 8 size.toNat ++ info.bytes.take infoSize.toNat) :: reportSent sent)

end handlers

end VitaMTP
