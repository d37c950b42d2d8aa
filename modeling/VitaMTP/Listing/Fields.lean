import VitaMTP.Listing.Xml

/-! Which field of its record each attribute of the metadata document is written from. -/
namespace VitaMTP

/-- What a record describes. -/
inductive RecordKind
  | saveData | photo | music | video | game | folder | file
  deriving DecidableEq, Repr

/-- The kind that the data type of a record makes it. Thumbnails have none. -/
def kindOf (dataType : Mask) : Option RecordKind :=
  if maskSet dataType (DataType.SaveData ||| DataType.Folder) then some .saveData
  else if maskSet dataType (DataType.Photo ||| DataType.File) then some .photo
  else if maskSet dataType (DataType.Music ||| DataType.File) then some .music
  else if maskSet dataType (DataType.Video ||| DataType.File) then some .video
  else if maskSet dataType (DataType.Game ||| DataType.File) then some .game
  else if maskSet dataType DataType.Thumbnail then none
  else if dataType &&& DataType.Folder != 0 then some .folder
  else if dataType &&& DataType.File != 0 then some .file
  else none

/-- `current->dataType & (Photo | Music | Video) && MASK_SET(current->dataType, File)`. -/
def isMediaFile (dataType : Mask) : Prop :=
  dataType &&& (DataType.Photo ||| DataType.Music ||| DataType.Video) ≠ 0 ∧
    maskSet dataType DataType.File

/-- A record of a kind has the variant of the union that is for it, or a name. A saved-data folder
is no media file, and `parentalLevel` is an `int`. -/
structure Metadata.OfKind (m : Metadata) (kind : RecordKind) : Prop where
  dataType : kindOf m.dataType = some kind
  data : match kind with
    | .saveData => (∃ d, m.data = .saveData d) ∧ ¬ isMediaFile m.dataType
    | .photo => ∃ d, m.data = .photo d
    | .music => ∃ d, m.data = .music d
    | .video => ∃ d, m.data = .video d ∧ -2 ^ 31 ≤ d.parentalLevel ∧ d.parentalLevel < 2 ^ 31
    | .game | .folder | .file => ∃ name, m.name = some name

namespace RecordKind

def tag : RecordKind → String
  | saveData => "saveData"
  | photo => "photo"
  | music => "music"
  | video => "video"
  | game => "game"
  | folder => "folder"
  | file => "file"

/-- Whether a variant of the union is for it. -/
def HasData : RecordKind → Bool
  | saveData | photo | music | video => true
  | game | folder | file => false

def HasTracks : RecordKind → Bool
  | photo | music | video => true
  | saveData | game | folder | file => false

/-- The attributes that no other kind needs to have, in their order. -/
def attributeNames : RecordKind → List String
  | saveData => ["detail", "dirName", "savedataTitle", "dateTimeUpdated", "title", "statusType"]
  | photo => ["title", "dateTimeOriginal", "fileFormatType", "fileName", "statusType"]
  | music => ["title", "album", "artist", "statusType", "fileFormatType", "fileName"]
  | video => ["title", "fileFormatType", "fileName", "parentalLevel", "statusType", "explanation",
      "dateTimeUpdated", "copyright"]
  | game => ["title"]
  | folder => ["type", "name", "title"]
  | file => ["name", "statusType", "title"]

/-- The field an attribute is for. Without a variant of its own a record is shown with its name,
and the status of a file is its type. -/
def source (kind : RecordKind) (attr : String) : String :=
  if kind.HasData then attr
  else if attr = "title" then "name"
  else if attr = "statusType" then "type"
  else attr

end RecordKind

def MediaData.fields : MediaData → List Attribute
  | zero => []
  | thumbnail _ => []
  | saveData d => [("title", .text d.title), ("dirName", .text d.dirName),
      ("savedataTitle", .text d.savedataTitle), ("statusType", .int d.statusType),
      ("detail", .text d.detail), ("dateTimeUpdated", .timestamp d.dateTimeUpdated)]
  | photo d => [("title", .text d.title), ("fileName", .text d.fileName),
      ("fileFormatType", .int d.fileFormatType), ("statusType", .int d.statusType),
      ("dateTimeOriginal", .timestamp d.dateTimeOriginal)]
  | music d => [("title", .text d.title), ("fileName", .text d.fileName),
      ("fileFormatType", .int d.fileFormatType), ("statusType", .int d.statusType),
      ("album", .text d.album), ("artist", .text d.artist)]
  | video d => [("title", .text d.title), ("fileName", .text d.fileName),
      ("fileFormatType", .int d.fileFormatType), ("statusType", .int d.statusType),
      ("dateTimeUpdated", .timestamp d.dateTimeUpdated), ("parentalLevel", .int d.parentalLevel),
      ("explanation", .text d.explanation), ("copyright", .text d.copyright)]

/-- The fields that all records have, and those of the variant that is for the kind. -/
def Metadata.fields (m : Metadata) (kind : RecordKind) : List Attribute :=
  [("ohfiParent", .int m.ohfiParent), ("ohfi", .int m.ohfi), ("type", .int m.type.toInt),
    ("size", .ulong m.size), ("dateTimeCreated", .timestamp m.dateTimeCreated.toInt)] ++
  (if kind.HasData then m.data.fields else []) ++
  (m.name.toList.map fun name => ("name", .text name))

def Metadata.field (m : Metadata) (kind : RecordKind) (name : String) : Option AttrValue :=
  (m.fields kind).lookup name

/-- The fields of a track, with those of the variant that is for its type. -/
def MediaTrack.fields (track : MediaTrack) : List Attribute :=
  ("type", .int track.type) ::
    if track.type = VITA_TRACK_TYPE_AUDIO then
      [("codecType", .int track.codecType), ("bitrate", .int track.bitrate)]
    else if track.type = VITA_TRACK_TYPE_VIDEO then
      [("width", .int track.width), ("height", .int track.height),
        ("codecType", .int track.codecType), ("bitrate", .int track.bitrate),
        ("duration", .int track.duration.toInt)]
    else if track.type = VITA_TRACK_TYPE_PHOTO then
      [("width", .int track.width), ("height", .int track.height),
        ("codecType", .int track.codecType)]
    else []

def Metadata.ownTracks (m : Metadata) (kind : RecordKind) : List MediaTrack :=
  if kind.HasTracks then m.data.tracks.getD [] else []

def Element.written (e : Element) : List Attribute :=
  e.attributes ++ [("index", .int e.index), ("ohfiParent", .int e.ohfiParent),
    ("ohfi", .int e.ohfi), ("size", .ulong e.size), ("dateTimeCreated", .timestamp e.dateTimeCreated)]

/-- What an attribute is written from: its field, but for the time that videos are given. -/
def Metadata.printed (m : Metadata) (kind : RecordKind) (attr : String) : Option AttrValue :=
  match kind, m.data with
  | .video, .video d =>
    if attr = "dateTimeUpdated" then some (.timestamp d.saveDataDateTimeUpdated)
    else m.field .video attr
  | kind, _ => m.field kind (kind.source attr)

section record

variable {m : Metadata} {kind : RecordKind}

/-- The start of an element has the attributes of its kind, each with what it is written from. -/
theorem Metadata.OfKind.startElement_eq (h : m.OfKind kind) :
    ∃ attrs, startElement m = some (some (kind.tag, attrs)) ∧
      attrs.map Prod.fst = kind.attributeNames ∧
      ∀ a ∈ attrs, m.printed kind a.1 = some a.2 := by
  obtain ⟨hkind, hdata⟩ := h
  obtain ⟨ohfiParent, ohfi, handle, name, path, type, created, size, dataType, data, next⟩ := m
  dsimp only at hkind hdata
  unfold kindOf at hkind
  unfold startElement
  split_ifs at hkind ⊢
  · obtain rfl := Option.some.inj hkind
    obtain ⟨⟨d, rfl⟩, -⟩ := hdata
    refine ⟨_, rfl, rfl, ?_⟩
    simp only [List.forall_mem_cons]
    exact ⟨rfl, rfl, rfl, rfl, rfl, rfl, by simp⟩
  · obtain rfl := Option.some.inj hkind
    obtain ⟨d, rfl⟩ := hdata
    refine ⟨_, rfl, rfl, ?_⟩
    simp only [List.forall_mem_cons]
    exact ⟨rfl, rfl, rfl, rfl, rfl, by simp⟩
  · obtain rfl := Option.some.inj hkind
    obtain ⟨d, rfl⟩ := hdata
    refine ⟨_, rfl, rfl, ?_⟩
    simp only [List.forall_mem_cons]
    exact ⟨rfl, rfl, rfl, rfl, rfl, rfl, by simp⟩
  · obtain rfl := Option.some.inj hkind
    obtain ⟨d, rfl, -⟩ := hdata
    refine ⟨_, rfl, rfl, ?_⟩
    simp only [List.forall_mem_cons]
    exact ⟨rfl, rfl, rfl, rfl, rfl, rfl, rfl, rfl, by simp⟩
  · obtain rfl := Option.some.inj hkind
    obtain ⟨name, rfl⟩ := hdata
    refine ⟨_, rfl, rfl, ?_⟩
    simp only [List.forall_mem_cons]
    exact ⟨rfl, by simp⟩
  · obtain rfl := Option.some.inj hkind
    obtain ⟨name, rfl⟩ := hdata
    refine ⟨_, rfl, rfl, ?_⟩
    simp only [List.forall_mem_cons]
    exact ⟨rfl, rfl, rfl, by simp⟩
  · obtain rfl := Option.some.inj hkind
    obtain ⟨name, rfl⟩ := hdata
    refine ⟨_, rfl, rfl, ?_⟩
    simp only [List.forall_mem_cons]
    exact ⟨rfl, rfl, rfl, by simp⟩

theorem isMediaFile_iff (v : Mask) :
    isMediaFile v ↔ maskSet v (DataType.Photo ||| DataType.File) ∨
      maskSet v (DataType.Music ||| DataType.File) ∨
      maskSet v (DataType.Video ||| DataType.File) := by
  have hfile : DataType.File = BitVec.twoPow 32 1 := rfl
  have hmusic : DataType.Music = BitVec.twoPow 32 5 := rfl
  have hphoto : DataType.Photo = BitVec.twoPow 32 6 := rfl
  have hvideo : DataType.Video = BitVec.twoPow 32 7 := rfl
  unfold isMediaFile maskSet
  rw [hfile, hmusic, hphoto, hvideo]
  simp only [BitVec.and_or_distrib_left, BitVec.and_twoPow]
  cases v.getLsbD 1 <;> cases v.getLsbD 5 <;> cases v.getLsbD 6 <;> cases v.getLsbD 7 <;> decide

theorem Metadata.OfKind.isMediaFile_iff (h : m.OfKind kind) :
    isMediaFile m.dataType ↔ kind.HasTracks := by
  obtain ⟨hkind, hdata⟩ := h
  unfold kindOf at hkind
  split_ifs at hkind with hsave hphoto hmusic hvideo
  · obtain rfl := Option.some.inj hkind
    exact iff_of_false hdata.2 (by decide)
  · obtain rfl := Option.some.inj hkind
    exact iff_of_true ((VitaMTP.isMediaFile_iff _).mpr (.inl hphoto)) rfl
  · obtain rfl := Option.some.inj hkind
    exact iff_of_true ((VitaMTP.isMediaFile_iff _).mpr (.inr (.inl hmusic))) rfl
  · obtain rfl := Option.some.inj hkind
    exact iff_of_true ((VitaMTP.isMediaFile_iff _).mpr (.inr (.inr hvideo))) rfl
  all_goals
    obtain rfl := Option.some.inj hkind
    refine iff_of_false (fun hmedia => ?_) (by decide)
    rw [VitaMTP.isMediaFile_iff] at hmedia
    exact hmedia.elim hphoto fun h => h.elim hmusic hvideo

theorem Metadata.OfKind.trackElements_eq (h : m.OfKind kind) :
    trackElements m = some ((m.ownTracks kind).mapIdx trackAttributes) := by
  have hmedia := h.isMediaFile_iff
  have hdata := h.data
  unfold isMediaFile at hmedia
  unfold trackElements Metadata.ownTracks
  by_cases htracks : kind.HasTracks
  · rw [if_pos (hmedia.mpr htracks), if_pos htracks]
    cases kind with
    | photo => obtain ⟨d, hd⟩ := hdata; rw [hd]; rfl
    | music => obtain ⟨d, hd⟩ := hdata; rw [hd]; rfl
    | video => obtain ⟨d, hd, -⟩ := hdata; rw [hd]; rfl
    | saveData => simp [RecordKind.HasTracks] at htracks
    | game => simp [RecordKind.HasTracks] at htracks
    | folder => simp [RecordKind.HasTracks] at htracks
    | file => simp [RecordKind.HasTracks] at htracks
  · rw [if_neg (hmedia.not.mpr htracks), if_neg htracks]
    rfl

theorem trackAttributes_own (j : ℕ) (track : MediaTrack) :
    ∀ a ∈ trackAttributes j track,
      a = ("index", .int (j + 1)) ∨ track.fields.lookup a.1 = some a.2 := by
  unfold trackAttributes MediaTrack.fields
  simp only [List.cons_append, List.nil_append, List.forall_mem_cons]
  refine ⟨by simp, .inr rfl, ?_⟩
  split_ifs
  · simp only [List.forall_mem_cons]
    exact ⟨.inr rfl, .inr rfl, by simp⟩
  · simp only [List.forall_mem_cons]
    exact ⟨.inr rfl, .inr rfl, .inr rfl, .inr rfl, .inr rfl, by simp⟩
  · simp only [List.forall_mem_cons]
    exact ⟨.inr rfl, .inr rfl, .inr rfl, by simp⟩
  · simp

variable {attr : String} {v : AttrValue} {d : VideoInfo}

theorem Metadata.printed_of_ne (h : kind = .video → attr ≠ "dateTimeUpdated") :
    m.printed kind attr = m.field kind (kind.source attr) := by
  unfold Metadata.printed
  split
  · rw [if_neg (h rfl)]
    rfl
  · rfl

theorem Metadata.printed_dateTimeUpdated (hd : m.data = .video d) :
    m.printed .video "dateTimeUpdated" = some (.timestamp d.saveDataDateTimeUpdated) := by
  unfold Metadata.printed
  rw [hd]
  rfl

theorem Metadata.field_dateTimeUpdated (hd : m.data = .video d) :
    m.field .video "dateTimeUpdated" = some (.timestamp d.dateTimeUpdated) := by
  unfold Metadata.field Metadata.fields
  rw [hd]
  rfl

theorem Metadata.source_of_field (h : m.field kind attr = some v) : kind.source attr = attr := by
  by_cases hdata : kind.HasData
  · exact if_pos hdata
  have hnone {name : String} (hname : name = "title" ∨ name = "statusType") :
      m.field kind name = none := by
    unfold Metadata.field Metadata.fields
    rw [if_neg hdata]
    cases m.name with
    | none => rcases hname with rfl | rfl <;> rfl
    | some text => rcases hname with rfl | rfl <;> rfl
  rw [RecordKind.source, if_neg hdata]
  split_ifs with htitle hstatus
  · rw [hnone (.inl htitle)] at h
    simp at h
  · rw [hnone (.inr hstatus)] at h
    simp at h
  · rfl

theorem Metadata.field_index (m : Metadata) (kind : RecordKind) : m.field kind "index" = none := by
  unfold Metadata.field Metadata.fields
  cases kind.HasData with
  | false => cases m.name <;> rfl
  | true => cases m.data <;> cases m.name <;> rfl

theorem RecordKind.source_index (kind : RecordKind) : kind.source "index" = "index" := by
  cases kind <;> rfl

theorem Metadata.printed_index (m : Metadata) (kind : RecordKind) :
    m.printed kind "index" = none := by
  rw [Metadata.printed_of_ne (by simp), RecordKind.source_index, Metadata.field_index]

variable {e : Element} {i : ℤ}

theorem Element.WrittenFor.printed (hw : e.WrittenFor m i) (h : m.OfKind kind) :
    ∀ a ∈ e.written, a = ("index", .int i) ∨ m.printed kind a.1 = some a.2 := by
  obtain ⟨attrs, hstart, -, hattrs⟩ := h.startElement_eq
  have hstart := hw.start.symm.trans hstart
  simp only [Option.some.injEq, Prod.mk.injEq] at hstart
  have hshared {attr : String} (hattr : attr ∈ ["ohfiParent", "ohfi", "size", "dateTimeCreated"]) :
      m.printed kind attr = m.field kind attr := by
    have hsource : kind.source attr = attr := by
      simp only [List.mem_cons, List.not_mem_nil, or_false] at hattr
      rcases hattr with rfl | rfl | rfl | rfl <;> cases kind <;> rfl
    rw [Metadata.printed_of_ne, hsource]
    rintro - rfl
    simp at hattr
  unfold Element.written
  rw [hstart.2, hw.index, hw.ohfiParent, hw.ohfi, hw.size, hw.dateTimeCreated]
  simp only [List.forall_mem_append, List.forall_mem_cons]
  refine ⟨fun a ha => .inr (hattrs a ha), by simp, ?_, ?_, ?_, ?_, by simp⟩
  · exact .inr (hshared (by simp))
  · exact .inr (hshared (by simp))
  · exact .inr (hshared (by simp))
  · exact .inr (hshared (by simp))

theorem Element.WrittenFor.names (hw : e.WrittenFor m i) (h : m.OfKind kind) :
    e.tag = kind.tag ∧ e.written.map Prod.fst =
      kind.attributeNames ++ ["index", "ohfiParent", "ohfi", "size", "dateTimeCreated"] := by
  obtain ⟨attrs, hstart, hnames, -⟩ := h.startElement_eq
  have hstart := hw.start.symm.trans hstart
  simp only [Option.some.injEq, Prod.mk.injEq] at hstart
  refine ⟨hstart.1, ?_⟩
  rw [Element.written, List.map_append, hstart.2, hnames]
  rfl

end record

end VitaMTP
