import VitaMTP.Database.Metadata
import VitaMTP.Library.LittleEndian
import VitaMTP.Library.XmlTag

/-! The document that tells a device which client it is connected to, and its way back. -/
namespace VitaMTP
open Decimal

/-- `INT_MAX` -/
def intMax : ℕ := 2 ^ 31 - 1

structure InitiatorInfo where
  platformType : CString
  platformSubtype : CString
  osVersion : CString
  version : CString
  protocolVersion : ℤ
  name : CString
  applicationType : ℤ
  deriving DecidableEq, Repr

def VITAMTP_VERSION_MAJOR : ℤ := 2
def VITAMTP_VERSION_MINOR : ℤ := 2

/-- `VitaMTP_Data_Initiator_New`. -/
def initiatorNew (host_name : Option CString) (protocol_version : ℤ) : InitiatorInfo where
  platformType := "PC".toList
  platformSubtype := "Unknown".toList
  osVersion := "0.0".toList
  version := format 0 VITAMTP_VERSION_MAJOR ++ '.' :: format 0 VITAMTP_VERSION_MINOR
  protocolVersion := protocol_version
  name := host_name.getD "VitaMTP Library".toList
  applicationType := 5

def utf8Bytes (s : CString) : List (BitVec 8) :=
  (s.flatMap String.utf8EncodeChar).map UInt8.toBitVec

/-- `VitaMTP_Data_Add_Size_Header`. `none` where there is no room for the copy: `tot_len` is an
`int`. -/
def addSizeHeader (orig : List (BitVec 8)) (len : ℕ) : Option (List (BitVec 8)) :=
  let tot_len := ((len : ℤ) + 4).bmod (2 ^ 32)
  if tot_len = len + 4 then some (LittleEndian.encode 4 len ++ orig.take len) else none

def initiatorDocument (info : InitiatorInfo) : CString :=
  "<?xml version=\"1.0\" encoding=\"UTF-8\"?>\n".toList ++
    ("<initiatorInfo platformType=\"".toList ++ (info.platformType ++
    ("\" platformSubtype=\"".toList ++ (info.platformSubtype ++
    ("\" osVersion=\"".toList ++ (info.osVersion ++
    ("\" version=\"".toList ++ (info.version ++
    ("\" protocolVersion=\"".toList ++ (format 8 info.protocolVersion ++
    ("\" name=\"".toList ++ (info.name ++
    ("\" applicationType=\"".toList ++ (format 0 info.applicationType ++
    "\" />\n".toList))))))))))))))

/-- `VitaMTP_Data_Initiator_To_XML`: the data and its length. `none` where `asprintf` fails, which
counts the characters with an `int`, or the copy. -/
def initiatorToXml (info : InitiatorInfo) : Option (List (BitVec 8) × ℕ) :=
  let data := utf8Bytes (initiatorDocument info)
  if data.length ≤ intMax then
    (addSizeHeader (data ++ [0]) (data.length + 1)).map (·, data.length + 1 + 4)
  else none

def decodeUtf8 (bytes : List (BitVec 8)) : Option CString :=
  (bytes.map UInt8.ofBitVec).toByteArray.utf8Decode?.map Array.toList

/-- The structure that an `initiatorInfo` element has the attributes of. -/
def initiatorOf (element : Xml.Element) : Option InitiatorInfo := do
  let attr (name : String) := element.attributes.lookup name.toList
  let platformType ← attr "platformType"
  let platformSubtype ← attr "platformSubtype"
  let osVersion ← attr "osVersion"
  let version ← attr "version"
  let protocolVersion ← (attr "protocolVersion").bind integer
  let name ← attr "name"
  let applicationType ← (attr "applicationType").bind integer
  if element.tag = "initiatorInfo".toList ∧ element.attributes.length = 7 then
    some { platformType, platformSubtype, osVersion, version, protocolVersion, name,
           applicationType }
  else none

/-- A length, that many bytes, and a structure in the document they are. -/
def readInitiator (buffer : List (BitVec 8)) : Option InitiatorInfo := do
  let bytes := buffer.drop 4
  if LittleEndian.decode (buffer.take 4) = bytes.length ∧ bytes.getLast? = some 0 then
    let text ← decodeUtf8 bytes.dropLast
    let element ← Xml.parse text
    initiatorOf element
  else none

/-- What is printed by `%s`. -/
def InitiatorInfo.strings (info : InitiatorInfo) : List CString :=
  [info.platformType, info.platformSubtype, info.osVersion, info.version, info.name]

def InitiatorInfo.attributes (info : InitiatorInfo) : List Xml.Attribute :=
  [("platformType".toList, info.platformType), ("platformSubtype".toList, info.platformSubtype),
    ("osVersion".toList, info.osVersion), ("version".toList, info.version),
    ("protocolVersion".toList, format 8 info.protocolVersion), ("name".toList, info.name),
    ("applicationType".toList, format 0 info.applicationType)]

theorem initiatorDocument_eq (info : InitiatorInfo) :
    initiatorDocument info = Xml.pasteDocument "initiatorInfo".toList info.attributes := by
  rfl

theorem decodeUtf8_utf8Bytes (s : CString) : decodeUtf8 (utf8Bytes s) = some s := by
  have hbytes : (utf8Bytes s).map UInt8.ofBitVec = s.flatMap String.utf8EncodeChar := by
    rw [utf8Bytes, List.map_map]
    exact List.map_id _
  have hdecode : (s.flatMap String.utf8EncodeChar).toByteArray.utf8Decode? = some s.toArray :=
    List.utf8Decode?_utf8Encode
  rw [decodeUtf8, hbytes, hdecode]
  rfl

theorem addSizeHeader_eq {orig : List (BitVec 8)} (h : orig.length ≤ intMax + 1) :
    addSizeHeader orig orig.length =
      if orig.length + 4 ≤ intMax then some (LittleEndian.encode 4 orig.length ++ orig)
      else none := by
  have hroom : ((orig.length : ℤ) + 4).bmod (2 ^ 32) = orig.length + 4 ↔
      orig.length + 4 ≤ intMax := by
    unfold intMax at h ⊢
    constructor
    · intro heq
      have hlt := Int.bmod_lt (x := (orig.length : ℤ) + 4) (m := 2 ^ 32) (by omega)
      omega
    · intro hle
      exact Int.bmod_eq_of_le (by omega) (by omega)
  unfold addSizeHeader
  rw [List.take_length]
  dsimp only
  by_cases hfits : orig.length + 4 ≤ intMax
  · rw [if_pos (hroom.mpr hfits), if_pos hfits]
  · rw [if_neg (hroom.not.mpr hfits), if_neg hfits]

theorem initiatorToXml_eq (info : InitiatorInfo) :
    initiatorToXml info =
      let bytes := utf8Bytes (initiatorDocument info) ++ [0]
      if bytes.length + 4 ≤ intMax then
        some (LittleEndian.encode 4 bytes.length ++ bytes, bytes.length + 4)
      else none := by
  unfold initiatorToXml
  generalize utf8Bytes (initiatorDocument info) = data
  have hlength : (data ++ [0]).length = data.length + 1 := List.length_append
  dsimp only
  rw [hlength]
  by_cases hdata : data.length ≤ intMax
  · have hheader := @addSizeHeader_eq (data ++ [0]) (by omega)
    rw [hlength] at hheader
    rw [if_pos hdata, hheader]
    by_cases hfits : data.length + 1 + 4 ≤ intMax
    · rw [if_pos hfits, if_pos hfits, Option.map_some]
    · rw [if_neg hfits, if_neg hfits, Option.map_none]
  · rw [if_neg hdata, if_neg (by omega)]

theorem readInitiator_utf8Bytes {s : CString} (h : (utf8Bytes s ++ [0]).length + 4 ≤ intMax) :
    readInitiator (LittleEndian.encode 4 (utf8Bytes s ++ [0]).length ++ (utf8Bytes s ++ [0])) =
      (Xml.parse s).bind initiatorOf := by
  have hsize := LittleEndian.length_encode 4 (utf8Bytes s ++ [0]).length
  have hlength := LittleEndian.decode_encode (w := 4) (n := (utf8Bytes s ++ [0]).length)
    (by unfold intMax at h; omega)
  rw [readInitiator, List.take_left' hsize, List.drop_left' hsize, if_pos ⟨hlength, by simp⟩,
    List.dropLast_concat, decodeUtf8_utf8Bytes]
  rfl

def InitiatorInfo.size (info : InitiatorInfo) : ℕ :=
  (info.attributes.map fun a => (utf8Bytes a.2).length).sum

theorem length_utf8Bytes_append (s t : CString) :
    (utf8Bytes (s ++ t)).length = (utf8Bytes s).length + (utf8Bytes t).length := by
  rw [utf8Bytes, List.flatMap_append, List.map_append, List.length_append]
  rfl

theorem length_initiatorDocument (info : InitiatorInfo) :
    (utf8Bytes (initiatorDocument info)).length = info.size + 162 := by
  have hdeclaration : (utf8Bytes "<?xml version=\"1.0\" encoding=\"UTF-8\"?>\n".toList).length = 39 := by
    decide +kernel
  have hplatformType : (utf8Bytes "<initiatorInfo platformType=\"".toList).length = 29 := by
    decide +kernel
  have hplatformSubtype : (utf8Bytes "\" platformSubtype=\"".toList).length = 19 := by
    decide +kernel
  have hosVersion : (utf8Bytes "\" osVersion=\"".toList).length = 13 := by decide +kernel
  have hversion : (utf8Bytes "\" version=\"".toList).length = 11 := by decide +kernel
  have hprotocolVersion : (utf8Bytes "\" protocolVersion=\"".toList).length = 19 := by
    decide +kernel
  have hname : (utf8Bytes "\" name=\"".toList).length = 8 := by decide +kernel
  have happlicationType : (utf8Bytes "\" applicationType=\"".toList).length = 19 := by
    decide +kernel
  have hend : (utf8Bytes "\" />\n".toList).length = 5 := by decide +kernel
  unfold initiatorDocument
  repeat rw [length_utf8Bytes_append]
  rw [hdeclaration, hplatformType, hplatformSubtype, hosVersion, hversion, hprotocolVersion, hname,
    happlicationType, hend]
  clear hdeclaration hplatformType hplatformSubtype hosVersion hversion hprotocolVersion hname
    happlicationType hend
  simp only [InitiatorInfo.size, InitiatorInfo.attributes, List.map_cons, List.map_nil,
    List.sum_cons, List.sum_nil]
  omega

theorem mem_attributes_strings {info : InitiatorInfo} {a : Xml.Attribute}
    (h : a ∈ info.attributes) : a.2 ∈ info.strings ∨ ∃ w i, a.2 = format w i := by
  simp only [InitiatorInfo.attributes, List.mem_cons, List.not_mem_nil, or_false] at h
  rcases h with rfl | rfl | rfl | rfl | rfl | rfl | rfl
  · exact .inl (by simp [InitiatorInfo.strings])
  · exact .inl (by simp [InitiatorInfo.strings])
  · exact .inl (by simp [InitiatorInfo.strings])
  · exact .inl (by simp [InitiatorInfo.strings])
  · exact .inr ⟨8, info.protocolVersion, rfl⟩
  · exact .inl (by simp [InitiatorInfo.strings])
  · exact .inr ⟨0, info.applicationType, rfl⟩

theorem initiatorOf_attributes (info : InitiatorInfo) :
    initiatorOf { tag := "initiatorInfo".toList, attributes := info.attributes } = some info := by
  have hversion : ((info.attributes.lookup "protocolVersion".toList).bind integer) =
      some info.protocolVersion := integer_format 8 info.protocolVersion
  have htype : ((info.attributes.lookup "applicationType".toList).bind integer) =
      some info.applicationType := integer_format 0 info.applicationType
  simp only [initiatorOf, hversion, htype]
  rfl

theorem lookup_of_initiatorOf {info : InitiatorInfo} {element : Xml.Element}
    (h : initiatorOf element = some info) {a : Xml.Attribute} (ha : a ∈ info.attributes) :
    (∃ w i, a.2 = format w i) ∨ element.attributes.lookup a.1 = some a.2 := by
  simp only [initiatorOf, Option.bind_eq_bind, Option.bind_eq_some_iff] at h
  obtain ⟨platformType, hplatformType, platformSubtype, hplatformSubtype, osVersion, hosVersion,
    version, hversion, protocolVersion, -, name, hname, applicationType, -, h⟩ := h
  split_ifs at h
  obtain rfl := Option.some.inj h
  simp only [InitiatorInfo.attributes, List.mem_cons, List.not_mem_nil, or_false] at ha
  rcases ha with rfl | rfl | rfl | rfl | rfl | rfl | rfl
  · exact .inr hplatformType
  · exact .inr hplatformSubtype
  · exact .inr hosVersion
  · exact .inr hversion
  · exact .inl ⟨_, _, rfl⟩
  · exact .inr hname
  · exact .inl ⟨_, _, rfl⟩

theorem plain_format (w : ℕ) (i : ℤ) : Xml.Plain (format w i) := by
  intro ch hch hmem
  cases mem_format hch with
  | inl hsign =>
    rw [hsign] at hmem
    simp at hmem
  | inr hdigit =>
    simp only [List.mem_cons, List.not_mem_nil, or_false] at hmem
    rcases hmem with rfl | rfl | rfl | rfl | rfl | rfl <;> simp at hdigit

theorem isChar_format {w : ℕ} {i : ℤ} {ch : Char} (h : ch ∈ format w i) : Xml.isChar ch := by
  cases mem_format h with
  | inl hsign =>
    rw [hsign]
    decide
  | inr hdigit =>
    obtain ⟨hlow, hhigh⟩ := Char.isDigit_iff_toNat.mp hdigit
    have hzero : '0'.toNat = 48 := rfl
    have hnine : '9'.toNat = 57 := rfl
    have hrange : 0x20 ≤ ch.toNat ∧ ch.toNat ≤ 0xD7FF := by omega
    simp [Xml.isChar, Xml.inRanges, hrange]

section roundTrip

variable {info : InitiatorInfo}

theorem isChar_initiatorDocument (hchars : ∀ s ∈ info.strings, ∀ ch ∈ s, Xml.isChar ch) :
    (initiatorDocument info).all Xml.isChar := by
  have hnames : ∀ a ∈ info.attributes, ∀ ch ∈ a.1, Xml.isChar ch := by
    simp only [InitiatorInfo.attributes, List.forall_mem_cons]
    decide
  rw [initiatorDocument_eq]
  apply Xml.isChar_pasteDocument (by decide)
  intro a ha
  constructor
  · exact hnames a ha
  · cases mem_attributes_strings ha with
    | inl hstring => exact hchars _ hstring
    | inr hformat =>
      obtain ⟨w, i, hformat⟩ := hformat
      rw [hformat]
      exact fun ch => isChar_format

theorem plain_attributes_iff :
    (∀ a ∈ info.attributes, Xml.Plain a.2) ↔ ∀ s ∈ info.strings, Xml.Plain s := by
  constructor
  · intro h
    simp only [InitiatorInfo.attributes, List.forall_mem_cons] at h
    obtain ⟨h₁, h₂, h₃, h₄, -, h₅, -⟩ := h
    simp only [InitiatorInfo.strings, List.forall_mem_cons]
    exact ⟨h₁, h₂, h₃, h₄, h₅, by simp⟩
  · intro h a ha
    cases mem_attributes_strings ha with
    | inl hstring => exact h _ hstring
    | inr hformat =>
      obtain ⟨w, i, hformat⟩ := hformat
      rw [hformat]
      exact plain_format w i

/-- The document is read as what it was made of if and only if nothing in it had to be replaced. -/
theorem parse_initiatorDocument_iff (hchars : ∀ s ∈ info.strings, ∀ ch ∈ s, Xml.isChar ch) :
    (Xml.parse (initiatorDocument info)).bind initiatorOf = some info ↔
      ∀ s ∈ info.strings, Xml.Plain s := by
  have htag : Xml.IsName "initiatorInfo".toList := by decide
  have hnames : ∀ a ∈ info.attributes, Xml.IsName a.1 := by
    simp only [InitiatorInfo.attributes, List.forall_mem_cons]
    decide
  have hnodup : (info.attributes.map Prod.fst).Nodup := by
    simp only [InitiatorInfo.attributes, List.map_cons, List.map_nil]
    decide
  rw [← plain_attributes_iff]
  constructor
  · intro h
    obtain ⟨element, hparse, hread⟩ := Option.bind_eq_some_iff.mp h
    rw [initiatorDocument_eq] at hparse
    apply Xml.plain_of_parse htag hnames hnodup hparse
    intro a ha
    cases lookup_of_initiatorOf hread ha with
    | inl hformat =>
      obtain ⟨w, i, hformat⟩ := hformat
      rw [hformat]
      exact .inl (plain_format w i)
    | inr hlookup => exact .inr hlookup
  · intro h
    have hall := isChar_initiatorDocument hchars
    rw [initiatorDocument_eq] at hall ⊢
    rw [Xml.parse_plain htag hnames hnodup h hall, Option.bind_some, initiatorOf_attributes]

/-- The buffer is a length and a document, and the document is the structure, if and only if there
is nothing to be replaced in the strings and the length fits. -/
theorem initiatorToXml_round_trip_iff (hchars : ∀ s ∈ info.strings, ∀ ch ∈ s, Xml.isChar ch) :
    (∃ buffer, initiatorToXml info = some (buffer, buffer.length) ∧
        readInitiator buffer = some info) ↔
      (∀ s ∈ info.strings, Xml.Plain s) ∧ info.size + 167 ≤ intMax := by
  have hsize : (utf8Bytes (initiatorDocument info) ++ [0]).length + 4 = info.size + 167 := by
    rw [List.length_append, length_initiatorDocument]
    rfl
  have hlength (bytes : List (BitVec 8)) :
      (LittleEndian.encode 4 bytes.length ++ bytes).length = bytes.length + 4 := by
    rw [List.length_append, LittleEndian.length_encode, Nat.add_comm]
  rw [initiatorToXml_eq]
  dsimp only
  by_cases hfits : (utf8Bytes (initiatorDocument info) ++ [0]).length + 4 ≤ intMax
  · have hread := readInitiator_utf8Bytes hfits
    rw [if_pos hfits, ← parse_initiatorDocument_iff hchars, ← hread, ← hsize, and_iff_left hfits]
    constructor
    · rintro ⟨buffer, hbuffer, hinfo⟩
      rw [(Prod.mk.inj (Option.some.inj hbuffer)).1, hinfo]
    · intro hinfo
      exact ⟨_, by rw [hlength], hinfo⟩
  · rw [if_neg hfits, ← hsize]
    exact iff_of_false (by simp) fun h => hfits h.2

/-- What the library fills in itself is plain: only the name of the host matters. -/
theorem plain_initiatorNew_iff (host_name : Option CString) (protocol_version : ℤ) :
    (∀ s ∈ (initiatorNew host_name protocol_version).strings, Xml.Plain s) ↔
      ∀ name, host_name = some name → Xml.Plain name := by
  have hversion : Xml.Plain
      (format 0 VITAMTP_VERSION_MAJOR ++ '.' :: format 0 VITAMTP_VERSION_MINOR) := by
    decide
  simp only [InitiatorInfo.strings, initiatorNew, List.forall_mem_cons]
  cases host_name with
  | none =>
    exact iff_of_true ⟨by decide, by decide, by decide, hversion, by decide, by simp⟩ (by simp)
  | some name =>
    constructor
    · rintro ⟨-, -, -, -, hname, -⟩ name' hname'
      obtain rfl := Option.some.inj hname'
      exact hname
    · intro h
      exact ⟨by decide, by decide, by decide, hversion, h name rfl, by simp⟩

end roundTrip

/-- The name that is used where the host has none. -/
theorem initiatorToXml_round_trip_default :
    ∃ buffer, initiatorToXml (initiatorNew none 1500010) = some (buffer, buffer.length) ∧
      readInitiator buffer = some (initiatorNew none 1500010) :=
  (initiatorToXml_round_trip_iff (by decide)).mpr ⟨by decide, by decide +kernel⟩

/-- An ampersand in the name of the host. -/
theorem initiatorToXml_ampersand :
    ¬ ∀ info : InitiatorInfo, (∀ s ∈ info.strings, ∀ ch ∈ s, Xml.isChar ch) →
      0 ≤ info.protocolVersion → 0 ≤ info.applicationType →
      ∃ buffer, initiatorToXml info = some (buffer, buffer.length) ∧
        readInitiator buffer = some info := by
  intro h
  have hchars : ∀ s ∈ (initiatorNew (some "R&D".toList) 1500010).strings,
      ∀ ch ∈ s, Xml.isChar ch := by
    decide
  obtain ⟨buffer, hbuffer, hread⟩ := h _ hchars (by decide) (by decide)
  rw [initiatorToXml_eq] at hbuffer
  dsimp only at hbuffer
  split_ifs at hbuffer with hfits
  rw [← (Prod.mk.inj (Option.some.inj hbuffer)).1, readInitiator_utf8Bytes hfits,
    parse_initiatorDocument_iff hchars] at hread
  have hplain := hread "R&D".toList (by decide) '&' (by decide)
  simp at hplain

end VitaMTP
