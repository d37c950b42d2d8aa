import VitaMTP.Listing.Fields
import VitaMTP.Listing.Timestamp

/-! The metadata document with its values as they are printed. -/
namespace VitaMTP
open Decimal

/-- An attribute as it is in the document. -/
abbrev PrintedAttribute := String × CString

structure PrintedElement where
  tag : String
  attributes : List PrintedAttribute
  tracks : List (List PrintedAttribute)
  deriving DecidableEq, Repr

section print

variable (clock : Clock)

/-- `%s`, `%d`, `%lu`, or the timestamp of a time. -/
def AttrValue.print : AttrValue → Option CString
  | text s => some s
  | int i => some (format 0 i)
  | ulong n => some (format 0 n.toNat)
  | timestamp t => clock.makeTimestamp t

def printAttributes (attrs : List Attribute) : Option (List PrintedAttribute) :=
  attrs.mapM fun a => (a.2.print clock).map fun s => (a.1, s)

def Element.print (e : Element) : Option PrintedElement := do
  let attributes ← printAttributes clock e.written
  let tracks ← e.tracks.mapM (printAttributes clock)
  some { tag := e.tag, attributes, tracks }

/-- `VitaMTP_Data_Metadata_To_XML`, as the text of each attribute. -/
def writeMetadata (db : Database) (fuel : ℕ) (head : Option MetaRef) :
    Option (List PrintedElement) := do
  let elements ← metadataToXml db fuel 0 head
  elements.mapM (Element.print clock)

end print

theorem mapM_eq_some {α β : Type*} {f : α → Option β} {l : List α} {r : List β} :
    l.mapM f = some r ↔ l.map f = r.map some := by
  induction l generalizing r with
  | nil => cases r <;> simp
  | cons a l ih =>
    rw [List.mapM_cons, List.map_cons]
    cases r with
    | nil => cases f a <;> cases l.mapM f <;> simp
    | cons b r =>
      simp only [Option.bind_eq_bind, Option.bind_eq_some_iff, Option.pure_def, Option.some.injEq,
        List.map_cons, List.cons.injEq]
      constructor
      · rintro ⟨b', hb, r', hr, rfl, rfl⟩
        exact ⟨hb, ih.mp hr⟩
      · rintro ⟨hb, hr⟩
        exact ⟨b, hb, r, ih.mpr hr, rfl, rfl⟩

theorem isSome_mapM {α β : Type*} {f : α → Option β} {l : List α} :
    (l.mapM f).isSome ↔ ∀ a ∈ l, (f a).isSome := by
  induction l with
  | nil => simp
  | cons a l ih =>
    rw [List.forall_mem_cons, ← ih, List.mapM_cons]
    cases f a with
    | none => simp
    | some b => cases l.mapM f <;> simp

section printed

variable {clock : Clock} {m m' : Metadata} {kind : RecordKind} {e : Element} {p : PrintedElement}
  {i t : ℤ} {attr name : String} {s : CString} {v v' : AttrValue} {attrs : List Attribute}
  {out : List PrintedAttribute}

theorem mem_printAttributes (h : printAttributes clock attrs = some out) :
    (attr, s) ∈ out ↔ ∃ v, (attr, v) ∈ attrs ∧ v.print clock = some s := by
  have hmap := mapM_eq_some.mp h
  have hmem : (attr, s) ∈ out ↔ some (attr, s) ∈ out.map some := by simp
  rw [hmem, ← hmap, List.mem_map]
  constructor
  · rintro ⟨⟨attr', v⟩, ha, heq⟩
    obtain ⟨s', hs, heq⟩ := Option.map_eq_some_iff.mp heq
    obtain ⟨rfl, rfl⟩ := Prod.mk.inj heq
    exact ⟨v, ha, hs⟩
  · rintro ⟨v, hv, hs⟩
    exact ⟨(attr, v), hv, by rw [hs]; rfl⟩

theorem printAttributes_names (h : printAttributes clock attrs = some out) :
    out.map Prod.fst = attrs.map Prod.fst := by
  have hmap := mapM_eq_some.mp h
  clear h
  induction attrs generalizing out with
  | nil =>
    obtain rfl := List.map_eq_nil_iff.mp hmap.symm
    rfl
  | cons a attrs ih =>
    cases out with
    | nil => simp at hmap
    | cons b out =>
      obtain ⟨ha, hattrs⟩ := List.cons.inj hmap
      obtain ⟨s, -, rfl⟩ := Option.map_eq_some_iff.mp ha
      rw [List.map_cons, List.map_cons, ih hattrs]

theorem isSome_printAttributes :
    (printAttributes clock attrs).isSome ↔ ∀ a ∈ attrs, (a.2.print clock).isSome := by
  simp [printAttributes, isSome_mapM]

theorem AttrValue.isSome_print :
    (v.print clock).isSome ↔ ∀ t, v = .timestamp t → (clock.makeTimestamp t).isSome := by
  cases v <;> simp [AttrValue.print]

inductive AttrType
  | text | int | ulong | timestamp
  deriving DecidableEq, Repr

def AttrValue.type : AttrValue → AttrType
  | text _ => .text
  | int _ => .int
  | ulong _ => .ulong
  | timestamp _ => .timestamp

def fieldType (name : String) : AttrType :=
  if name ∈ ["dateTimeCreated", "dateTimeUpdated", "dateTimeOriginal"] then .timestamp
  else if name = "size" then .ulong
  else if name ∈ ["ohfiParent", "ohfi", "type", "statusType", "fileFormatType",
    "parentalLevel"] then .int
  else .text

theorem Metadata.fields_type : ∀ a ∈ m.fields kind, a.2.type = fieldType a.1 := by
  have hdata : ∀ a ∈ m.data.fields, a.2.type = fieldType a.1 := by
    cases m.data <;> simp [MediaData.fields, AttrValue.type, fieldType]
  unfold Metadata.fields
  simp only [List.forall_mem_append]
  refine ⟨⟨by simp [AttrValue.type, fieldType], ?_⟩, ?_⟩
  · split_ifs
    · exact hdata
    · simp
  · cases m.name <;> simp [AttrValue.type, fieldType]

theorem Metadata.mem_of_field (h : m.field kind name = some v) : (name, v) ∈ m.fields kind := by
  obtain ⟨l, r, hl, -⟩ := List.lookup_eq_some_iff.mp h
  rw [hl]
  simp

/-- A field has the same type in all records. -/
theorem Metadata.field_type (h : m.field kind name = some v) : v.type = fieldType name :=
  m.fields_type _ (Metadata.mem_of_field h)

/-- Values of a type that are no times are told apart by what is printed. -/
theorem AttrValue.print_injective (htype : v.type = v'.type) (htime : v.type ≠ .timestamp)
    (h : v.print clock = some s) (h' : v'.print clock = some s) : v = v' := by
  have heq := h.trans h'.symm
  cases v with
  | text a =>
    cases v' with
    | text b => rw [Option.some.inj heq]
    | _ => simp [AttrValue.type] at htype
  | int a =>
    cases v' with
    | int b => rw [format_injective 0 (Option.some.inj heq)]
    | _ => simp [AttrValue.type] at htype
  | ulong a =>
    cases v' with
    | ulong b => rw [BitVec.eq_of_toNat_eq (Int.ofNat.inj (format_injective 0 (Option.some.inj heq)))]
    | _ => simp [AttrValue.type] at htype
  | timestamp t => exact absurd rfl htime

/-- The times that are printed for a record. A video has what is where a saved-data folder has its
time. -/
def Metadata.times (m : Metadata) (kind : RecordKind) : List ℤ :=
  match kind, m.data with
  | .saveData, .saveData d => [d.dateTimeUpdated, m.dateTimeCreated.toInt]
  | .photo, .photo d => [d.dateTimeOriginal, m.dateTimeCreated.toInt]
  | .video, .video d => [d.saveDataDateTimeUpdated, m.dateTimeCreated.toInt]
  | _, _ => [m.dateTimeCreated.toInt]

def Metadata.TimesPrint (clock : Clock) (m : Metadata) (kind : RecordKind) : Prop :=
  ∀ t ∈ m.times kind, (clock.makeTimestamp t).isSome

/-- An attribute is written for each name of the kind, with its value. -/
theorem Element.WrittenFor.mem_written (hw : e.WrittenFor m i) (h : m.OfKind kind) :
    (attr, v) ∈ e.written ↔ (attr, v) = ("index", .int i) ∨
      attr ∈ kind.attributeNames ++ ["ohfiParent", "ohfi", "size", "dateTimeCreated"] ∧
        m.printed kind attr = some v := by
  have hnames := (hw.names h).2
  have hread : ∀ v, (attr, v) ∈ e.written → (attr, v) = ("index", .int i) ∨
      attr ∈ kind.attributeNames ++ ["ohfiParent", "ohfi", "size", "dateTimeCreated"] ∧
        m.printed kind attr = some v := by
    intro v hv
    refine (hw.printed h _ hv).imp_right fun hread => ⟨?_, hread⟩
    have hmem : attr ∈ e.written.map Prod.fst := List.mem_map_of_mem hv
    have hindex : attr ≠ "index" := by
      rintro rfl
      simp [Metadata.printed_index] at hread
    rw [hnames] at hmem
    simpa [hindex] using hmem
  refine ⟨hread v, ?_⟩
  rintro (hindex | ⟨hattr, hprinted⟩)
  · rw [hindex, Element.written, hw.index]
    simp
  · have hmem : attr ∈ e.written.map Prod.fst := by
      rw [hnames]
      simp only [List.mem_append, List.mem_cons] at hattr ⊢
      tauto
    obtain ⟨⟨attr', v'⟩, hv', rfl⟩ := List.mem_map.mp hmem
    rcases hread v' hv' with hindex | ⟨-, hprinted'⟩
    · rw [(Prod.mk.inj hindex).1, Metadata.printed_index] at hprinted
      simp at hprinted
    · obtain rfl := Option.some.inj (hprinted.symm.trans hprinted')
      exact hv'

theorem Metadata.OfKind.mem_times (h : m.OfKind kind) :
    t ∈ m.times kind ↔
      ∃ attr ∈ kind.attributeNames ++ ["ohfiParent", "ohfi", "size", "dateTimeCreated"],
        m.printed kind attr = some (.timestamp t) := by
  have hdata := h.data
  have hplain (hkind : kind ≠ .video) (attr : String) :
      m.printed kind attr = m.field kind (kind.source attr) :=
    Metadata.printed_of_ne fun hvideo => absurd hvideo hkind
  cases kind
  case saveData =>
    obtain ⟨⟨d, hd⟩, -⟩ := hdata
    simp [Metadata.times, RecordKind.attributeNames, hplain, Metadata.field, Metadata.fields,
      RecordKind.source, RecordKind.HasData, MediaData.fields, hd, List.lookup_cons, @eq_comm ℤ t]
  case photo | music =>
    obtain ⟨d, hd⟩ := hdata
    simp [Metadata.times, RecordKind.attributeNames, hplain, Metadata.field, Metadata.fields,
      RecordKind.source, RecordKind.HasData, MediaData.fields, hd, List.lookup_cons, @eq_comm ℤ t]
  case video =>
    -- `hplain` is not for videos: their time is read where it is printed from
    obtain ⟨d, hd, -⟩ := hdata
    simp [Metadata.times, RecordKind.attributeNames, Metadata.printed, Metadata.field,
      Metadata.fields, RecordKind.HasData, MediaData.fields, hd, List.lookup_cons, @eq_comm ℤ t]
  case game | folder | file =>
    obtain ⟨name, hname⟩ := hdata
    simp [Metadata.times, RecordKind.attributeNames, hplain, Metadata.field, Metadata.fields,
      RecordKind.source, RecordKind.HasData, hname, List.lookup_cons, @eq_comm ℤ t]

theorem trackAttributes_int (j : ℕ) (track : MediaTrack) :
    ∀ a ∈ trackAttributes j track, ∃ n, a.2 = .int n := by
  unfold trackAttributes
  split_ifs <;> simp

/-- A record is printed if its times are. -/
theorem Element.WrittenFor.isSome_print (hw : e.WrittenFor m i) (h : m.OfKind kind) :
    (e.print clock).isSome ↔ m.TimesPrint clock kind := by
  have htracks : (e.tracks.mapM (printAttributes clock)).isSome := by
    rw [Option.some.inj (hw.tracks.symm.trans h.trackElements_eq), isSome_mapM]
    intro attrs hattrs
    obtain ⟨j, hj, rfl⟩ := List.mem_mapIdx.mp hattrs
    refine isSome_printAttributes.mpr fun a ha => AttrValue.isSome_print.mpr fun t ht => ?_
    obtain ⟨n, hn⟩ := trackAttributes_int j _ a ha
    rw [ht] at hn
    simp at hn
  have hprint : (e.print clock).isSome ↔ (printAttributes clock e.written).isSome := by
    obtain ⟨tracks, htracks⟩ := Option.isSome_iff_exists.mp htracks
    unfold Element.print
    rw [htracks]
    cases printAttributes clock e.written <;> simp
  rw [hprint, isSome_printAttributes]
  constructor
  · intro hsome t ht
    obtain ⟨attr, hattr, hprinted⟩ := h.mem_times.mp ht
    exact AttrValue.isSome_print.mp
      (hsome _ ((hw.mem_written h).mpr (Or.inr ⟨hattr, hprinted⟩))) t rfl
  · rintro htimes ⟨attr, v⟩ hv
    refine AttrValue.isSome_print.mpr ?_
    rintro t rfl
    rcases (hw.mem_written h).mp hv with hindex | ⟨hattr, hprinted⟩
    · simp at hindex
    · exact htimes t (h.mem_times.mpr ⟨attr, hattr, hprinted⟩)

end printed

end VitaMTP
