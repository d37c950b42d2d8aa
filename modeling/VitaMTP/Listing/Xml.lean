import VitaMTP.Listing.Complete

/-! The `objectMetadata` document that is sent for a listing, as its elements. -/
namespace VitaMTP

/-- What an attribute is printed from. -/
inductive AttrValue
  | text (s : CString)
  | int (i : ℤ)
  | ulong (n : ULong)
  | timestamp (t : ℤ)
  deriving DecidableEq, Repr

abbrev Attribute := String × AttrValue

/-- An element below `objectMetadata`: the attributes of its kind, those that all kinds share
and the `track` elements below it. -/
structure Element where
  tag : String
  attributes : List Attribute
  index : ℤ
  ohfiParent : ℤ
  ohfi : ℤ
  size : ULong
  dateTimeCreated : ℤ
  tracks : List (List Attribute)
  deriving DecidableEq, Repr

/-- `char *period = strchr(aspectRatio, '.'); *period = ','`. -/
def periodToComma : CString → CString
  | [] => []
  | ch :: s => if ch = '.' then ',' :: s else ch :: periodToComma s

/-- `data.saveData.dateTimeUpdated`, read from a union that holds a video: this is where
`parentalLevel` and the gap behind it are. -/
def VideoInfo.saveDataDateTimeUpdated (d : VideoInfo) : ℤ :=
  d.parentalLevel % 2 ^ 32 + 2 ^ 32 * d.padding

/-- The start of the element of a record: nothing for a kind that is not supported, and
`none` where the union or the name that is read is not there. -/
def startElement (current : Metadata) : Option (Option (String × List Attribute)) :=
  if maskSet current.dataType (DataType.SaveData ||| DataType.Folder) then
    match current.data with
    | .saveData d => some (some ("saveData",
        [("detail", .text d.detail), ("dirName", .text d.dirName),
          ("savedataTitle", .text d.savedataTitle),
          ("dateTimeUpdated", .timestamp d.dateTimeUpdated), ("title", .text d.title),
          ("statusType", .int d.statusType)]))
    | _ => none
  else if maskSet current.dataType (DataType.Photo ||| DataType.File) then
    match current.data with
    | .photo d => some (some ("photo",
        [("title", .text d.title), ("dateTimeOriginal", .timestamp d.dateTimeOriginal),
          ("fileFormatType", .int d.fileFormatType), ("fileName", .text d.fileName),
          ("statusType", .int d.statusType)]))
    | _ => none
  else if maskSet current.dataType (DataType.Music ||| DataType.File) then
    match current.data with
    | .music d => some (some ("music",
        [("title", .text d.title), ("album", .text d.album), ("artist", .text d.artist),
          ("statusType", .int d.statusType), ("fileFormatType", .int d.fileFormatType),
          ("fileName", .text d.fileName)]))
    | _ => none
  else if maskSet current.dataType (DataType.Video ||| DataType.File) then
    match current.data with
    | .video d => some (some ("video",
        [("title", .text d.title), ("fileFormatType", .int d.fileFormatType),
          ("fileName", .text d.fileName), ("parentalLevel", .int d.parentalLevel),
          ("statusType", .int d.statusType), ("explanation", .text d.explanation),
          ("dateTimeUpdated", .timestamp d.saveDataDateTimeUpdated),
          ("copyright", .text d.copyright)]))
    | _ => none
  else if maskSet current.dataType (DataType.Game ||| DataType.File) then
    current.name.map fun name => some ("game", [("title", .text name)])
  else if maskSet current.dataType DataType.Thumbnail then
    match current.data with
    | .thumbnail d => some (some ("thumbnail",
        [("codecType", .int d.codecType), ("width", .int d.width), ("height", .int d.height),
          ("type", .int d.type), ("orientationType", .int d.orientationType),
          ("aspectRatio", .text (periodToComma d.aspectRatio)), ("fromType", .int d.fromType)]))
    | _ => none
  else if current.dataType &&& DataType.Folder != 0 then
    current.name.map fun name => some ("folder",
      [("type", .int current.type.toInt), ("name", .text name), ("title", .text name)])
  else if current.dataType &&& DataType.File != 0 then
    current.name.map fun name => some ("file",
      [("name", .text name), ("statusType", .int current.type.toInt), ("title", .text name)])
  else some none -- not supported

/-- The tracks, read through any of the three media variants of the union. -/
def MediaData.tracks : MediaData → Option (List MediaTrack)
  | zero => some []
  | photo d => some d.tracks
  | music d => some d.tracks
  | video d => some d.tracks
  | thumbnail _ => none
  | saveData _ => some [] -- the padding is where `numTracks` is

def trackAttributes (j : ℕ) (track : MediaTrack) : List Attribute :=
  [("index", .int (j + 1)), ("type", .int track.type)] ++
    if track.type = VITA_TRACK_TYPE_AUDIO then
      [("bitrate", .int track.bitrate), ("codecType", .int track.codecType)]
    else if track.type = VITA_TRACK_TYPE_VIDEO then
      [("width", .int track.width), ("height", .int track.height),
        ("bitrate", .int track.bitrate), ("codecType", .int track.codecType),
        ("duration", .int track.duration.toInt)]
    else if track.type = VITA_TRACK_TYPE_PHOTO then
      [("width", .int track.width), ("height", .int track.height),
        ("codecType", .int track.codecType)]
    else []

def trackElements (current : Metadata) : Option (List (List Attribute)) :=
  if current.dataType &&& (DataType.Photo ||| DataType.Music ||| DataType.Video) ≠ 0 ∧
      maskSet current.dataType DataType.File then
    current.data.tracks.map fun tracks => tracks.mapIdx trackAttributes
  else some []

/-- `VitaMTP_Data_Metadata_To_XML` from the record `p_metadata` on, at most `fuel` records. -/
def metadataToXml (db : Database) : ℕ → ℤ → Option MetaRef → Option (List Element)
  | _, _, none => some []
  | 0, _, some _ => none
  | fuel + 1, i, some p => do
    let current ← db.deref p
    match ← startElement current with
    | none => metadataToXml db fuel i current.nextMetadata
    | some (tag, attributes) =>
      let tracks ← trackElements current
      let rest ← metadataToXml db fuel (i + 1) current.nextMetadata
      some ({ tag, attributes, tracks
              index := i
              ohfiParent := current.ohfiParent
              ohfi := current.ohfi
              size := current.size
              dateTimeCreated := current.dateTimeCreated.toInt } :: rest)

/-- A record the document has an element for. -/
def Metadata.Supported (m : Metadata) : Prop :=
  (∃ e, startElement m = some (some e)) ∧ (trackElements m).isSome

/-- An element as it is written for a record. -/
structure Element.WrittenFor (e : Element) (m : Metadata) (i : ℤ) : Prop where
  start : startElement m = some (some (e.tag, e.attributes))
  tracks : trackElements m = some e.tracks
  index : e.index = i
  ohfiParent : e.ohfiParent = m.ohfiParent
  ohfi : e.ohfi = m.ohfi
  size : e.size = m.size
  dateTimeCreated : e.dateTimeCreated = m.dateTimeCreated.toInt

/-- Following a chain of supported records, every one of them is written as the next element. -/
theorem metadataToXml_written {db : Database} {refs : List MetaRef} {ms : List Metadata}
    {head : Option MetaRef} (hfollows : Chain.Follows db.next head refs)
    (hms : refs.map db.deref = ms.map some) (hsupported : ∀ m ∈ ms, m.Supported) {fuel : ℕ}
    (hfuel : refs.length ≤ fuel) (i : ℤ) :
    ∃ es, metadataToXml db fuel i head = some es ∧ es.length = ms.length ∧
      ∀ (k : ℕ) m, ms[k]? = some m → ∃ e, es[k]? = some e ∧ e.WrittenFor m (i + k) := by
  induction refs generalizing ms head fuel i with
  | nil =>
    obtain rfl : head = none := hfollows
    obtain rfl : ms = [] := by simpa using hms.symm
    refine ⟨[], ?_, rfl, by simp⟩
    unfold metadataToXml
    rfl
  | cons p refs ih =>
    obtain ⟨rfl, htail⟩ := hfollows
    obtain ⟨m, ms, rfl⟩ : ∃ m ms', ms = m :: ms' := by
      cases ms with
      | nil => simp at hms
      | cons m ms => exact ⟨m, ms, rfl⟩
    simp only [List.map_cons, List.cons.injEq] at hms
    obtain ⟨hp, hms⟩ := hms
    obtain ⟨fuel, rfl⟩ : ∃ k, fuel = k + 1 := ⟨fuel - 1, by simp at hfuel; omega⟩
    have hnext : db.next p = m.nextMetadata := by rw [Database.next, hp, Option.bind_some]
    rw [hnext] at htail
    obtain ⟨⟨⟨tag, attributes⟩, hstart⟩, htracks⟩ := hsupported m (by simp)
    obtain ⟨tracks, htracks⟩ := Option.isSome_iff_exists.mp htracks
    obtain ⟨es, hes, hlength, hwritten⟩ := ih htail hms
      (fun m' hm' => hsupported m' (List.mem_cons_of_mem _ hm'))
      (show refs.length ≤ fuel by simp at hfuel; omega) (i + 1)
    rw [metadataToXml, hp]
    simp only [Option.bind_eq_bind, Option.bind_some, hstart, htracks, hes]
    refine ⟨_, rfl, by simp [hlength], fun k m' hk => ?_⟩
    cases k with
    | zero =>
      obtain rfl := Option.some.inj hk
      exact ⟨_, rfl, hstart, htracks, by simp, rfl, rfl, rfl, rfl⟩
    | succ k =>
      obtain ⟨e, he, hw⟩ := hwritten k m' hk
      refine ⟨e, he, ?_⟩
      rwa [show i + (k + 1 : ℕ) = i + 1 + k by push_cast; omega]

theorem metadataToXml_follows {db : Database} {refs : List MetaRef} {ms : List Metadata}
    {head : Option MetaRef} (hfollows : Chain.Follows db.next head refs)
    (hms : refs.map db.deref = ms.map some) (hsupported : ∀ m ∈ ms, m.Supported) {fuel : ℕ}
    (hfuel : refs.length ≤ fuel) (i : ℤ) :
    ∃ es, metadataToXml db fuel i head = some es ∧
      es.map (·.index) = (List.range refs.length).map (fun k : ℕ => i + k) ∧
      es.map (·.ohfi) = ms.map (·.ohfi) := by
  obtain ⟨es, hes, hlength, hwritten⟩ := metadataToXml_written hfollows hms hsupported hfuel i
  have hrefs : refs.length = ms.length := by simpa using congrArg List.length hms
  refine ⟨es, hes, ?_, ?_⟩
  · apply List.ext_getElem (by simp [hlength, hrefs])
    intro k hk hk'
    simp only [List.length_map] at hk
    obtain ⟨e, he, hw⟩ := hwritten k ms[k] (List.getElem?_eq_getElem (hlength ▸ hk))
    obtain ⟨_, rfl⟩ := List.getElem?_eq_some_iff.mp he
    simp [hw.index]
  · apply List.ext_getElem (by simp [hlength])
    intro k hk hk'
    simp only [List.length_map] at hk hk'
    obtain ⟨e, he, hw⟩ := hwritten k ms[k] (List.getElem?_eq_getElem hk')
    obtain ⟨_, rfl⟩ := List.getElem?_eq_some_iff.mp he
    simp [hw.ohfi]

theorem Kinded.supported {c : Category} {o : CmaObject} (h : Kinded c o) {name : CString}
    (hname : o.metadata.name = some name) : o.metadata.Supported := by
  obtain ⟨dname, rootName, hdata⟩ := h.data
  obtain ⟨bits, hbits, he⟩ := h.dataType
  unfold Metadata.Supported startElement trackElements
  rw [hdata, hname, he]
  simp only [List.mem_cons, List.not_mem_nil, or_false] at hbits
  rcases hbits with rfl | rfl | rfl
  · cases c <;> exact ⟨⟨_, rfl⟩, rfl⟩
  · cases c <;> exact ⟨⟨_, rfl⟩, rfl⟩
  · cases c <;> exact ⟨⟨_, rfl⟩, rfl⟩

theorem newFilter_supported (ohfi : ℤ) (dirobject : CmaObject) (name : CString) (type : Mask) :
    (newFilter ohfi dirobject name type).Supported := by
  have hdata : (newFilter ohfi dirobject name type).dataType =
      DataType.Folder ||| DataType.Special := rfl
  unfold Metadata.Supported startElement trackElements
  rw [hdata]
  exact ⟨⟨_, rfl⟩, rfl⟩

end VitaMTP
