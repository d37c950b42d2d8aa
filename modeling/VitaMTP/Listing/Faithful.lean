import VitaMTP.Listing.Printed

/-! What the metadata document tells of the records of a chain. -/
namespace VitaMTP
open Decimal

/-- The records of a chain, each of a kind. -/
structure RecordChain (db : Database) (head : Option MetaRef) (ms : List Metadata) : Prop where
  linked : ∃ refs, Chain.Follows db.next head refs ∧ refs.map db.deref = ms.map some
  kinds : ∀ m ∈ ms, ∃ kind, m.OfKind kind

/-- An element that tells of its record what its attributes and its tracks are called. -/
structure PrintedElement.FaithfulTo (clock : Clock) (p : PrintedElement) (m : Metadata)
    (kind : RecordKind) (i : ℕ) : Prop where
  tag : p.tag = kind.tag
  index : ∀ s, ("index", s) ∈ p.attributes ↔ s = format 0 i
  attributes : ∀ a ∈ p.attributes, ∀ v, m.field kind a.1 = some v → v.print clock = some a.2
  length_tracks : p.tracks.length = (m.ownTracks kind).length
  tracks : ∀ (j : ℕ) track, (m.ownTracks kind)[j]? = some track →
    ∃ attrs, p.tracks[j]? = some attrs ∧ ∀ a ∈ attrs, a = ("index", format 0 (j + 1 : ℕ)) ∨
      ∃ v, track.fields.lookup a.1 = some v ∧ v.print clock = some a.2

/-- One element for each record, numbered from 0. -/
structure FaithfulDocument (clock : Clock) (ms : List Metadata) (ps : List PrintedElement) :
    Prop where
  length : ps.length = ms.length
  elements : ∀ (k : ℕ) m kind, ms[k]? = some m → m.OfKind kind →
    ∃ p, ps[k]? = some p ∧ p.FaithfulTo clock m kind k

/-- A video is given the timestamp of its own time. -/
def Metadata.GivesOwnTime (clock : Clock) (m : Metadata) (kind : RecordKind) : Prop :=
  kind = .video → ∀ d, m.data = .video d →
    clock.makeTimestamp d.saveDataDateTimeUpdated = clock.makeTimestamp d.dateTimeUpdated

section chain

variable {db : Database} {head : Option MetaRef} {ms : List Metadata} {fuel : ℕ}
  {m m' : Metadata} {kind : RecordKind} {e : Element} {p : PrintedElement} {i : ℤ} {clock : Clock}

theorem Metadata.OfKind.supported (h : m.OfKind kind) : m.Supported := by
  obtain ⟨attrs, hstart, -⟩ := h.startElement_eq
  refine ⟨⟨_, hstart⟩, ?_⟩
  rw [h.trackElements_eq]
  rfl

theorem Metadata.OfKind.unique {kind' : RecordKind} (h : m.OfKind kind) (h' : m.OfKind kind') :
    kind = kind' :=
  Option.some.inj (h.dataType.symm.trans h'.dataType)

theorem Element.print_eq_some :
    e.print clock = some p ↔ p.tag = e.tag ∧ printAttributes clock e.written = some p.attributes ∧
      e.tracks.mapM (printAttributes clock) = some p.tracks := by
  unfold Element.print
  simp only [Option.bind_eq_bind, Option.bind_eq_some_iff, Option.some.injEq]
  constructor
  · rintro ⟨attributes, hattributes, tracks, htracks, rfl⟩
    exact ⟨rfl, hattributes, htracks⟩
  · rintro ⟨htag, hattributes, htracks⟩
    exact ⟨_, hattributes, _, htracks, by rw [← htag]⟩

/-- What is printed of a record: its index, and each attribute from what it is written from. -/
theorem Element.WrittenFor.mem_printed (hw : e.WrittenFor m i) (h : m.OfKind kind)
    (hp : e.print clock = some p) {attr : String} {s : CString} :
    (attr, s) ∈ p.attributes ↔ (attr, s) = ("index", format 0 i) ∨
      ∃ v, attr ∈ kind.attributeNames ++ ["ohfiParent", "ohfi", "size", "dateTimeCreated"] ∧
        m.printed kind attr = some v ∧ v.print clock = some s := by
  rw [mem_printAttributes (Element.print_eq_some.mp hp).2.1]
  constructor
  · rintro ⟨v, hv, hs⟩
    rcases (hw.mem_written h).mp hv with hindex | ⟨hattr, hprinted⟩
    · obtain ⟨rfl, rfl⟩ := Prod.mk.inj hindex
      exact Or.inl (by rw [← Option.some.inj hs])
    · exact Or.inr ⟨v, hattr, hprinted, hs⟩
  · rintro (hindex | ⟨v, hattr, hprinted, hs⟩)
    · obtain ⟨rfl, rfl⟩ := Prod.mk.inj hindex
      exact ⟨_, (hw.mem_written h).mpr (Or.inl rfl), rfl⟩
    · exact ⟨v, (hw.mem_written h).mpr (Or.inr ⟨hattr, hprinted⟩), hs⟩

theorem Element.WrittenFor.time_printed (hw : e.WrittenFor m i) (h : m.OfKind kind)
    (hp : e.print clock = some p) {attr : String} {t : ℤ}
    (hattr : attr ∈ kind.attributeNames ++ ["ohfiParent", "ohfi", "size", "dateTimeCreated"])
    (hread : m.printed kind attr = some (.timestamp t)) :
    ∃ s, clock.makeTimestamp t = some s ∧ (attr, s) ∈ p.attributes := by
  have htimes := (hw.isSome_print h).mp (by rw [hp]; rfl)
  obtain ⟨s, hs⟩ := Option.isSome_iff_exists.mp (htimes t (h.mem_times.mpr ⟨attr, hattr, hread⟩))
  exact ⟨s, hs, (hw.mem_printed h hp).mpr (Or.inr ⟨_, hattr, hread, hs⟩)⟩

/-- The attributes with the name of a field are printed from it, if the time of a video is. -/
theorem Element.WrittenFor.own_iff (hw : e.WrittenFor m i) (h : m.OfKind kind)
    (hp : e.print clock = some p) :
    (∀ a ∈ p.attributes, ∀ v, m.field kind a.1 = some v → v.print clock = some a.2) ↔
      m.GivesOwnTime clock kind := by
  constructor
  · rintro hown rfl d hd
    obtain ⟨s, hs, hmem⟩ := hw.time_printed h hp (by decide) (Metadata.printed_dateTimeUpdated hd)
    exact hs.trans (hown _ hmem _ (Metadata.field_dateTimeUpdated hd)).symm
  · rintro htime ⟨attr, s⟩ ha v hv
    rcases (hw.mem_printed h hp).mp ha with hindex | ⟨v', -, hread, hs⟩
    · dsimp only at hv
      rw [(Prod.mk.inj hindex).1, Metadata.field_index] at hv
      simp at hv
    · by_cases hvideo : kind = .video ∧ attr = "dateTimeUpdated"
      · obtain ⟨rfl, rfl⟩ := hvideo
        obtain ⟨d, hd, -⟩ := h.data
        obtain rfl := Option.some.inj ((Metadata.printed_dateTimeUpdated hd).symm.trans hread)
        obtain rfl := Option.some.inj ((Metadata.field_dateTimeUpdated hd).symm.trans hv)
        exact (htime rfl d hd).symm.trans hs
      · rw [Metadata.printed_of_ne fun hkind hattr => hvideo ⟨hkind, hattr⟩,
          Metadata.source_of_field hv, hv] at hread
        rw [Option.some.inj hread]
        exact hs

theorem Element.WrittenFor.tracks_printed (hw : e.WrittenFor m i) (h : m.OfKind kind)
    (hp : e.print clock = some p) :
    p.tracks.length = (m.ownTracks kind).length ∧
      ∀ (j : ℕ) track, (m.ownTracks kind)[j]? = some track →
        ∃ attrs, p.tracks[j]? = some attrs ∧ ∀ a ∈ attrs, a = ("index", format 0 (j + 1 : ℕ)) ∨
          ∃ v, track.fields.lookup a.1 = some v ∧ v.print clock = some a.2 := by
  have hmap := mapM_eq_some.mp (Element.print_eq_some.mp hp).2.2
  rw [Option.some.inj (hw.tracks.symm.trans h.trackElements_eq)] at hmap
  constructor
  · simpa using (congrArg List.length hmap).symm
  · intro j track hj
    have hget := congrArg (fun l => l[j]?) hmap
    simp only [List.getElem?_map, List.getElem?_mapIdx, hj, Option.map_some] at hget
    obtain ⟨attrs, hattrs, hprint⟩ := Option.map_eq_some_iff.mp hget.symm
    refine ⟨attrs, hattrs, fun ⟨attr, s⟩ ha => ?_⟩
    obtain ⟨v, hv, hs⟩ := (mem_printAttributes hprint.symm).mp ha
    refine (trackAttributes_own j track _ hv).imp (fun hindex => ?_) fun hown => ⟨v, hown, hs⟩
    obtain ⟨rfl, rfl⟩ := Prod.mk.inj hindex
    rw [← Option.some.inj hs]
    rfl

theorem Element.WrittenFor.faithful_iff {k : ℕ} (hw : e.WrittenFor m k) (h : m.OfKind kind)
    (hp : e.print clock = some p) :
    p.FaithfulTo clock m kind k ↔ m.GivesOwnTime clock kind := by
  constructor
  · exact fun hfaithful => (hw.own_iff h hp).mp hfaithful.attributes
  · intro htime
    obtain ⟨hlength, htracks⟩ := hw.tracks_printed h hp
    refine ⟨?_, fun s => ?_, (hw.own_iff h hp).mpr htime, hlength, htracks⟩
    · rw [(Element.print_eq_some.mp hp).1, (hw.names h).1]
    · rw [hw.mem_printed h hp]
      simp [Metadata.printed_index]

theorem RecordChain.written (h : RecordChain db head ms) (hfuel : ms.length ≤ fuel) :
    ∃ es, metadataToXml db fuel 0 head = some es ∧ es.length = ms.length ∧
      ∀ (k : ℕ) m, ms[k]? = some m → ∃ e, es[k]? = some e ∧ e.WrittenFor m k := by
  obtain ⟨refs, hfollows, hms⟩ := h.linked
  have hsupported : ∀ m ∈ ms, m.Supported := by
    intro m hm
    obtain ⟨kind, hkind⟩ := h.kinds m hm
    exact hkind.supported
  have hlength : refs.length = ms.length := by simpa using congrArg List.length hms
  obtain ⟨es, hes, hsame, hwritten⟩ :=
    metadataToXml_written hfollows hms hsupported (hlength ▸ hfuel) 0
  refine ⟨es, hes, hsame, fun k m hk => ?_⟩
  simpa using hwritten k m hk

theorem RecordChain.isSome_write (clock : Clock) (h : RecordChain db head ms)
    (hfuel : ms.length ≤ fuel) :
    (writeMetadata clock db fuel head).isSome ↔
      ∀ m ∈ ms, ∀ kind, m.OfKind kind → m.TimesPrint clock kind := by
  obtain ⟨es, hes, hlength, hwritten⟩ := h.written hfuel
  rw [writeMetadata, hes, Option.bind_eq_bind, Option.bind_some, isSome_mapM]
  constructor
  · intro hprint m hm kind hkind
    obtain ⟨k, hk⟩ := List.getElem?_of_mem hm
    obtain ⟨e, he, hw⟩ := hwritten k m hk
    exact (hw.isSome_print hkind).mp (hprint e (List.mem_of_getElem? he))
  · intro htimes e he
    obtain ⟨k, hk⟩ := List.getElem?_of_mem he
    obtain ⟨hlt, -⟩ := List.getElem?_eq_some_iff.mp hk
    obtain ⟨e', he', hw⟩ := hwritten k _ (List.getElem?_eq_getElem (hlength ▸ hlt))
    obtain rfl := Option.some.inj (hk.symm.trans he')
    have hm := List.getElem_mem (l := ms) (hlength ▸ hlt)
    obtain ⟨kind, hkind⟩ := h.kinds _ hm
    exact (hw.isSome_print hkind).mpr (htimes _ hm kind hkind)

theorem RecordChain.write_eq (h : RecordChain db head ms) (hfuel : ms.length ≤ fuel)
    {ps : List PrintedElement} (hps : writeMetadata clock db fuel head = some ps) :
    ps.length = ms.length ∧ ∀ (k : ℕ) m, ms[k]? = some m →
      ∃ (e : Element) (p : PrintedElement), ps[k]? = some p ∧ e.WrittenFor m k ∧
        e.print clock = some p := by
  obtain ⟨es, hes, hlength, hwritten⟩ := h.written hfuel
  rw [writeMetadata, hes, Option.bind_eq_bind, Option.bind_some, mapM_eq_some] at hps
  have hsame : es.length = ps.length := by simpa using congrArg List.length hps
  refine ⟨hsame.symm.trans hlength, fun k m hk => ?_⟩
  obtain ⟨e, he, hw⟩ := hwritten k m hk
  have hget := congrArg (fun l => l[k]?) hps
  simp only [List.getElem?_map, he, Option.map_some] at hget
  obtain ⟨p, hp, hprint⟩ := Option.map_eq_some_iff.mp hget.symm
  exact ⟨e, p, hp, hw, hprint.symm⟩

/-- The document is faithful if and only if all times are printed and the videos are given their
own. -/
theorem RecordChain.faithful_iff (h : RecordChain db head ms) (hfuel : ms.length ≤ fuel) :
    (∃ ps, writeMetadata clock db fuel head = some ps ∧ FaithfulDocument clock ms ps) ↔
      ∀ m ∈ ms, ∀ kind, m.OfKind kind → m.TimesPrint clock kind ∧ m.GivesOwnTime clock kind := by
  constructor
  · rintro ⟨ps, hps, hdocument⟩ m hm kind hkind
    refine ⟨(h.isSome_write clock hfuel).mp (by rw [hps]; rfl) m hm kind hkind, ?_⟩
    obtain ⟨k, hk⟩ := List.getElem?_of_mem hm
    obtain ⟨e, p, hp, hw, hprint⟩ := (h.write_eq hfuel hps).2 k m hk
    obtain ⟨p', hp', hfaithful⟩ := hdocument.elements k m kind hk hkind
    obtain rfl : p = p' := Option.some.inj (hp.symm.trans hp')
    exact (hw.faithful_iff hkind hprint).mp hfaithful
  · intro htimes
    obtain ⟨ps, hps⟩ := Option.isSome_iff_exists.mp
      ((h.isSome_write clock hfuel).mpr fun m hm kind hkind => (htimes m hm kind hkind).1)
    obtain ⟨hlength, hwritten⟩ := h.write_eq hfuel hps
    refine ⟨ps, hps, hlength, fun k m kind hk hkind => ?_⟩
    obtain ⟨e, p, hp, hw, hprint⟩ := hwritten k m hk
    exact ⟨p, hp, (hw.faithful_iff hkind hprint).mpr
      (htimes m (List.mem_of_getElem? hk) kind hkind).2⟩

end chain

/-- What is behind `parentalLevel`. -/
def MediaData.gap : MediaData → ℤ
  | video d => d.padding
  | _ => 0

/-- Two records of a kind that differ in one field. -/
structure Metadata.DiffersIn (m m' : Metadata) (kind : RecordKind) (field : String) : Prop where
  dataType : m'.dataType = m.dataType
  tracks : m'.ownTracks kind = m.ownTracks kind
  gap : m'.data.gap = m.data.gap
  others : ∀ other, other ≠ field → m'.field kind other = m.field kind other
  differs : m'.field kind field ≠ m.field kind field

/-- Two lists of records that differ in one field of the record `k`. -/
structure RecordsDifferIn (ms ms' : List Metadata) (k : ℕ) (kind : RecordKind)
    (field : String) : Prop where
  others : ∀ j, j ≠ k → (ms'[j]?).map Metadata.unlinked = (ms[j]?).map Metadata.unlinked
  record : ∃ m m', ms[k]? = some m ∧ ms'[k]? = some m' ∧ m.OfKind kind ∧ m.DiffersIn m' kind field

/-- The difference in a field shows: two times are printed differently, and a video has no other
time with another `parentalLevel`. -/
structure Metadata.Shown (clock : Clock) (m m' : Metadata) (kind : RecordKind)
    (field : String) : Prop where
  times : ∀ t t', m.field kind field = some (.timestamp t) →
    m'.field kind field = some (.timestamp t') → clock.makeTimestamp t ≠ clock.makeTimestamp t'
  video : kind = .video → field ≠ "dateTimeUpdated" ∧ (field = "parentalLevel" →
    ∀ d d', m.data = .video d → m'.data = .video d' →
      clock.makeTimestamp d.saveDataDateTimeUpdated = clock.makeTimestamp d'.saveDataDateTimeUpdated)

/-- Two elements with the same attributes, but for the value of those that are for a field. -/
structure PrintedElement.DiffersIn (p p' : PrintedElement) (kind : RecordKind)
    (field : String) : Prop where
  tag : p'.tag = p.tag
  tracks : p'.tracks = p.tracks
  names : p'.attributes.map Prod.fst = p.attributes.map Prod.fst
  values : ∀ attr s s', (attr, s) ∈ p.attributes → (attr, s') ∈ p'.attributes →
    (s' = s ↔ kind.source attr ≠ field)

/-- Two documents that differ in one field of the element `k`. -/
structure DocumentsDifferIn (ps ps' : List PrintedElement) (k : ℕ) (kind : RecordKind)
    (field : String) : Prop where
  others : ∀ j, j ≠ k → ps'[j]? = ps[j]?
  element : ∃ p p', ps[k]? = some p ∧ ps'[k]? = some p' ∧ p.DiffersIn p' kind field

section difference

variable {m m' : Metadata} {kind : RecordKind} {e e' : Element} {p p' : PrintedElement} {i : ℤ}
  {field attr : String} {clock : Clock}

theorem Element.WrittenFor.unique (hw : e.WrittenFor m i) (hw' : e'.WrittenFor m' i)
    (h : m'.unlinked = m.unlinked) : e' = e := by
  have hread {α : Type} (f : Metadata → α) : f m'.unlinked = f m.unlinked := congrArg f h
  have hstart : startElement m' = startElement m := hread startElement
  have htracks : trackElements m' = trackElements m := hread trackElements
  rw [hw.start, hw'.start] at hstart
  rw [hw.tracks, hw'.tracks] at htracks
  simp only [Option.some.injEq, Prod.mk.injEq] at hstart htracks
  obtain ⟨tag, attributes, index, ohfiParent, ohfi, size, dateTimeCreated, tracks⟩ := e
  obtain ⟨tag', attributes', index', ohfiParent', ohfi', size', dateTimeCreated', tracks'⟩ := e'
  rw [Element.mk.injEq]
  refine ⟨hstart.1, hstart.2, hw'.index.trans hw.index.symm, ?_, ?_, ?_, ?_, htracks⟩
  · exact (hw'.ohfiParent.trans (hread Metadata.ohfiParent)).trans hw.ohfiParent.symm
  · exact (hw'.ohfi.trans (hread Metadata.ohfi)).trans hw.ohfi.symm
  · exact (hw'.size.trans (hread Metadata.size)).trans hw.size.symm
  · exact (hw'.dateTimeCreated.trans (hread fun m => m.dateTimeCreated.toInt)).trans
      hw.dateTimeCreated.symm

theorem Metadata.DiffersIn.ofKind (h : m.DiffersIn m' kind field) (hkind : m.OfKind kind)
    (hkind' : ∃ kind', m'.OfKind kind') : m'.OfKind kind := by
  obtain ⟨kind', hkind'⟩ := hkind'
  obtain rfl : kind' = kind := by
    have hsame := hkind'.dataType
    rw [h.dataType, hkind.dataType] at hsame
    exact (Option.some.inj hsame).symm
  exact hkind'

theorem Metadata.DiffersIn.saveDataDateTimeUpdated_eq (h : m.DiffersIn m' .video field)
    {d d' : VideoInfo} (hd : m.data = .video d) (hd' : m'.data = .video d')
    (hfield : field ≠ "parentalLevel") :
    d'.saveDataDateTimeUpdated = d.saveDataDateTimeUpdated := by
  have hgap : d'.padding = d.padding := by
    have hgap := h.gap
    rwa [hd, hd'] at hgap
  have hlevel (m : Metadata) (d : VideoInfo) (hd : m.data = .video d) :
      m.field .video "parentalLevel" = some (.int d.parentalLevel) := by
    unfold Metadata.field Metadata.fields
    rw [hd]
    rfl
  have hsame := h.others "parentalLevel" hfield.symm
  rw [hlevel m d hd, hlevel m' d' hd', Option.some.injEq, AttrValue.int.injEq] at hsame
  rw [VideoInfo.saveDataDateTimeUpdated, VideoInfo.saveDataDateTimeUpdated, hsame, hgap]

/-- What is printed for an attribute changes with its field, if the difference shows. -/
theorem Metadata.DiffersIn.print_iff (h : m.DiffersIn m' kind field) (hkind : m.OfKind kind)
    (hkind' : m'.OfKind kind) (hshown : m.Shown clock m' kind field) {v v' : AttrValue}
    {s s' : CString} (hread : m.printed kind attr = some v) (hs : v.print clock = some s)
    (hread' : m'.printed kind attr = some v') (hs' : v'.print clock = some s') :
    s' = s ↔ kind.source attr ≠ field := by
  by_cases hvideo : kind = .video ∧ attr = "dateTimeUpdated"
  · obtain ⟨rfl, rfl⟩ := hvideo
    obtain ⟨d, hd, -⟩ := hkind.data
    obtain ⟨d', hd', -⟩ := hkind'.data
    obtain rfl := Option.some.inj ((Metadata.printed_dateTimeUpdated hd).symm.trans hread)
    obtain rfl := Option.some.inj ((Metadata.printed_dateTimeUpdated hd').symm.trans hread')
    obtain ⟨hown, hlevel⟩ := hshown.video rfl
    refine iff_of_true (Option.some.inj ?_) hown.symm
    rw [← hs, ← hs']
    by_cases hfield : field = "parentalLevel"
    · exact (hlevel hfield d d' hd hd').symm
    · rw [h.saveDataDateTimeUpdated_eq hd hd' hfield]
  · have hne : kind = .video → attr ≠ "dateTimeUpdated" := fun hkind hattr => hvideo ⟨hkind, hattr⟩
    rw [Metadata.printed_of_ne hne] at hread hread'
    by_cases hfield : kind.source attr = field
    · refine iff_of_false ?_ (not_not.mpr hfield)
      rintro rfl
      rw [hfield] at hread hread'
      have htype : v.type = v'.type := (m.field_type hread).trans (m'.field_type hread').symm
      by_cases htime : v.type = .timestamp
      · cases v with
        | timestamp t =>
          cases v' with
          | timestamp t' => exact hshown.times t t' hread hread' (hs.trans hs'.symm)
          | _ => simp [AttrValue.type] at htype
        | _ => simp [AttrValue.type] at htime
      · obtain rfl := AttrValue.print_injective htype htime hs hs'
        exact h.differs (hread'.trans hread.symm)
    · refine iff_of_true (Option.some.inj ?_) hfield
      rw [h.others _ hfield, hread] at hread'
      rw [← hs, ← hs', Option.some.inj hread']

theorem Metadata.OfKind.time_written (h : m.OfKind kind) {t : ℤ}
    (ht : m.field kind field = some (.timestamp t)) :
    field ∈ kind.attributeNames ++ ["ohfiParent", "ohfi", "size", "dateTimeCreated"] := by
  have hdata := h.data
  have hvariant : ∀ a ∈ (if kind.HasData then m.data.fields else []), a.2.type = .timestamp →
      a.1 ∈ kind.attributeNames := by
    cases kind with
    | saveData =>
      obtain ⟨⟨d, hd⟩, -⟩ := hdata
      simp [RecordKind.HasData, hd, MediaData.fields, AttrValue.type, RecordKind.attributeNames]
    | photo =>
      obtain ⟨d, hd⟩ := hdata
      simp [RecordKind.HasData, hd, MediaData.fields, AttrValue.type, RecordKind.attributeNames]
    | music =>
      obtain ⟨d, hd⟩ := hdata
      simp [RecordKind.HasData, hd, MediaData.fields, AttrValue.type]
    | video =>
      obtain ⟨d, hd, -⟩ := hdata
      simp [RecordKind.HasData, hd, MediaData.fields, AttrValue.type, RecordKind.attributeNames]
    | game => simp [RecordKind.HasData]
    | folder => simp [RecordKind.HasData]
    | file => simp [RecordKind.HasData]
  have hall : ∀ a ∈ m.fields kind, a.2.type = .timestamp →
      a.1 ∈ kind.attributeNames ++ ["ohfiParent", "ohfi", "size", "dateTimeCreated"] := by
    unfold Metadata.fields
    simp only [List.forall_mem_append]
    refine ⟨⟨by simp [AttrValue.type], fun a ha htype => ?_⟩, ?_⟩
    · exact List.mem_append_left _ (hvariant a ha htype)
    · cases m.name <;> simp [AttrValue.type]
  exact hall _ (Metadata.mem_of_field ht) rfl

theorem Element.WrittenFor.differsIn_iff (hw : e.WrittenFor m i) (hw' : e'.WrittenFor m' i)
    (h : m.DiffersIn m' kind field) (hkind : m.OfKind kind) (hkind' : m'.OfKind kind)
    (hp : e.print clock = some p) (hp' : e'.print clock = some p') :
    p.DiffersIn p' kind field ↔ m.Shown clock m' kind field := by
  constructor
  · intro hdiffers
    have hvideo : kind = .video → ∀ d d', m.data = .video d → m'.data = .video d' →
        (clock.makeTimestamp d'.saveDataDateTimeUpdated =
          clock.makeTimestamp d.saveDataDateTimeUpdated ↔ "dateTimeUpdated" ≠ field) := by
      rintro rfl d d' hd hd'
      obtain ⟨s, hs, hmem⟩ :=
        hw.time_printed hkind hp (by decide) (Metadata.printed_dateTimeUpdated hd)
      obtain ⟨s', hs', hmem'⟩ :=
        hw'.time_printed hkind' hp' (by decide) (Metadata.printed_dateTimeUpdated hd')
      rw [hs, hs', Option.some.injEq]
      exact hdiffers.values _ s s' hmem hmem'
    have hother : kind = .video → field ≠ "dateTimeUpdated" := by
      rintro rfl rfl
      obtain ⟨d, hd, -⟩ := hkind.data
      obtain ⟨d', hd', -⟩ := hkind'.data
      have hsame := h.saveDataDateTimeUpdated_eq hd hd' (by decide)
      exact (hvideo rfl d d' hd hd').mp (by rw [hsame]) rfl
    refine ⟨fun t t' ht ht' hsame => ?_, fun hkv => ⟨hother hkv, ?_⟩⟩
    · have hsource := Metadata.source_of_field ht
      have hread := Metadata.printed_of_ne (m := m) hother
      have hread' := Metadata.printed_of_ne (m := m') hother
      rw [hsource] at hread hread'
      obtain ⟨s, hs, hmem⟩ :=
        hw.time_printed hkind hp (hkind.time_written ht) (hread.trans ht)
      obtain ⟨s', hs', hmem'⟩ :=
        hw'.time_printed hkind' hp' (hkind'.time_written ht') (hread'.trans ht')
      refine (hdiffers.values _ s s' hmem hmem').mp ?_ hsource
      rw [hs, hs', Option.some.injEq] at hsame
      exact hsame.symm
    · rintro rfl d d' hd hd'
      exact ((hvideo hkv d d' hd hd').mpr (by decide)).symm
  · intro hshown
    have hprint := Element.print_eq_some.mp hp
    have hprint' := Element.print_eq_some.mp hp'
    refine ⟨?_, ?_, ?_, fun attr s s' hs hs' => ?_⟩
    · rw [hprint.1, hprint'.1, (hw.names hkind).1, (hw'.names hkind').1]
    · have htracks := hw.tracks.symm.trans hkind.trackElements_eq
      have htracks' := hw'.tracks.symm.trans hkind'.trackElements_eq
      rw [h.tracks, ← htracks] at htracks'
      refine Option.some.inj (hprint'.2.2.symm.trans ?_)
      rw [Option.some.inj htracks']
      exact hprint.2.2
    · rw [printAttributes_names hprint.2.1, printAttributes_names hprint'.2.1, (hw.names hkind).2,
        (hw'.names hkind').2]
    · rcases (hw.mem_printed hkind hp).mp hs with hindex | ⟨v, -, hread, hv⟩
      · obtain ⟨rfl, rfl⟩ := Prod.mk.inj hindex
        have hindex' := ((hw'.mem_printed hkind' hp').mp hs').resolve_right
          (by simp [Metadata.printed_index])
        refine iff_of_true (Prod.mk.inj hindex').2 ?_
        rw [RecordKind.source_index]
        rintro rfl
        exact h.differs ((Metadata.field_index m' kind).trans (Metadata.field_index m kind).symm)
      · rcases (hw'.mem_printed hkind' hp').mp hs' with hindex | ⟨v', -, hread', hv'⟩
        · rw [(Prod.mk.inj hindex).1, Metadata.printed_index] at hread
          simp at hread
        · exact h.print_iff hkind hkind' hshown hread hv hread' hv'

end difference

section documents

variable {db db' : Database} {head head' : Option MetaRef} {ms ms' : List Metadata}
  {fuel fuel' k : ℕ} {kind : RecordKind} {field : String} {clock : Clock}
  {ps ps' : List PrintedElement}

theorem RecordChain.write_congr (h : RecordChain db head ms) (hfuel : ms.length ≤ fuel)
    (h' : RecordChain db' head' ms') (hfuel' : ms'.length ≤ fuel')
    (hps : writeMetadata clock db fuel head = some ps)
    (hps' : writeMetadata clock db' fuel' head' = some ps') {j : ℕ}
    (hsame : (ms'[j]?).map Metadata.unlinked = (ms[j]?).map Metadata.unlinked) :
    ps'[j]? = ps[j]? := by
  obtain ⟨hlength, hwritten⟩ := h.write_eq hfuel hps
  obtain ⟨hlength', hwritten'⟩ := h'.write_eq hfuel' hps'
  cases hm : ms[j]? with
  | none =>
    rw [hm, Option.map_none, Option.map_eq_none_iff] at hsame
    rw [List.getElem?_eq_none_iff] at hm hsame
    rw [List.getElem?_eq_none (hlength'.trans_le hsame),
      List.getElem?_eq_none (hlength.trans_le hm)]
  | some m =>
    rw [hm, Option.map_some, Option.map_eq_some_iff] at hsame
    obtain ⟨m', hm', hunlinked⟩ := hsame
    obtain ⟨e, p, hp, hw, hprint⟩ := hwritten j m hm
    obtain ⟨e', p', hp', hw', hprint'⟩ := hwritten' j m' hm'
    rw [hw.unique hw' hunlinked, hprint] at hprint'
    rw [hp, hp', Option.some.inj hprint']

/-- Documents of records that differ in one field differ in what is written from it, if and only
if they are written and the difference shows. -/
theorem RecordChain.differ_iff (h : RecordChain db head ms) (hfuel : ms.length ≤ fuel)
    (h' : RecordChain db' head' ms') (hfuel' : ms'.length ≤ fuel')
    (hdiffer : RecordsDifferIn ms ms' k kind field) :
    (∃ ps ps', writeMetadata clock db fuel head = some ps ∧
        writeMetadata clock db' fuel' head' = some ps' ∧ DocumentsDifferIn ps ps' k kind field) ↔
      (∀ m ∈ ms, ∀ kind, m.OfKind kind → m.TimesPrint clock kind) ∧
      (∀ m ∈ ms', ∀ kind, m.OfKind kind → m.TimesPrint clock kind) ∧
      ∀ m m', ms[k]? = some m → ms'[k]? = some m' → m.Shown clock m' kind field := by
  obtain ⟨m, m', hm, hm', hkind, hdiffers⟩ := hdiffer.record
  have hkind' := hdiffers.ofKind hkind (h'.kinds m' (List.mem_of_getElem? hm'))
  rw [← h.isSome_write clock hfuel, ← h'.isSome_write clock hfuel']
  constructor
  · rintro ⟨ps, ps', hps, hps', hdocuments⟩
    refine ⟨by rw [hps]; rfl, by rw [hps']; rfl, fun m₁ m₁' hm₁ hm₁' => ?_⟩
    obtain rfl := Option.some.inj (hm.symm.trans hm₁)
    obtain rfl := Option.some.inj (hm'.symm.trans hm₁')
    obtain ⟨p, p', hp, hp', hdiff⟩ := hdocuments.element
    obtain ⟨e, p₁, hp₁, hw, hprint⟩ := (h.write_eq hfuel hps).2 k m hm
    obtain ⟨e', p₁', hp₁', hw', hprint'⟩ := (h'.write_eq hfuel' hps').2 k m' hm'
    obtain rfl := Option.some.inj (hp.symm.trans hp₁)
    obtain rfl := Option.some.inj (hp'.symm.trans hp₁')
    exact (hw.differsIn_iff hw' hdiffers hkind hkind' hprint hprint').mp hdiff
  · rintro ⟨hsome, hsome', hshown⟩
    obtain ⟨ps, hps⟩ := Option.isSome_iff_exists.mp hsome
    obtain ⟨ps', hps'⟩ := Option.isSome_iff_exists.mp hsome'
    obtain ⟨e, p, hp, hw, hprint⟩ := (h.write_eq hfuel hps).2 k m hm
    obtain ⟨e', p', hp', hw', hprint'⟩ := (h'.write_eq hfuel' hps').2 k m' hm'
    refine ⟨ps, ps', hps, hps', fun j hj => ?_, p, p', hp, hp', ?_⟩
    · exact h.write_congr hfuel h' hfuel' hps hps' (hdiffer.others j hj)
    · exact (hw.differsIn_iff hw' hdiffers hkind hkind' hprint hprint').mpr (hshown m m' hm hm')

/-- What a document tells of its records is theirs, and one field of them is one attribute, as
far as times are printed and told apart and videos are given their own. -/
theorem metadataToXml_faithful_iff (clock : Clock) (h : RecordChain db head ms)
    (hfuel : ms.length ≤ fuel) :
    ((∃ ps, writeMetadata clock db fuel head = some ps ∧ FaithfulDocument clock ms ps) ↔
      ∀ m ∈ ms, ∀ kind, m.OfKind kind → m.TimesPrint clock kind ∧ m.GivesOwnTime clock kind) ∧
    ∀ {db' : Database} {head' : Option MetaRef} {ms' : List Metadata} {fuel' : ℕ},
      RecordChain db' head' ms' → ms'.length ≤ fuel' →
      ∀ {k : ℕ} {kind : RecordKind} {field : String}, RecordsDifferIn ms ms' k kind field →
      ((∃ ps ps', writeMetadata clock db fuel head = some ps ∧
          writeMetadata clock db' fuel' head' = some ps' ∧
          DocumentsDifferIn ps ps' k kind field) ↔
        (∀ m ∈ ms, ∀ kind, m.OfKind kind → m.TimesPrint clock kind) ∧
        (∀ m ∈ ms', ∀ kind, m.OfKind kind → m.TimesPrint clock kind) ∧
        ∀ m m', ms[k]? = some m → ms'[k]? = some m' → m.Shown clock m' kind field) := by
  refine ⟨h.faithful_iff hfuel, ?_⟩
  intro db' head' ms' fuel' h' hfuel' k kind field hdiffer
  exact h.differ_iff hfuel h' hfuel' hdiffer

/-- In a fixed zone and ordinary years a video is given its own time only if it is at the place of
the other one. -/
theorem Metadata.givesOwnTime_fixedClock {m : Metadata} {d : VideoInfo} {offset : ℤ}
    (hd : m.data = .video d) (hoffset : |offset| < 24 * 60)
    (hyears : ∀ t ∈ [d.saveDataDateTimeUpdated, d.dateTimeUpdated],
      0 ≤ (localtime offset t).tm_year + 1900 ∧ (localtime offset t).tm_year + 1900 ≤ 9999) :
    m.GivesOwnTime (fixedClock offset) .video ↔
      d.saveDataDateTimeUpdated = d.dateTimeUpdated := by
  simp only [List.forall_mem_cons] at hyears
  obtain ⟨⟨hlow, hhigh⟩, ⟨hlow', hhigh'⟩, -⟩ := hyears
  constructor
  · intro htime
    have hsame := htime rfl d hd
    rw [makeTimestamp_fixedClock hoffset hlow hhigh,
      makeTimestamp_fixedClock hoffset hlow' hhigh', Option.some.injEq] at hsame
    exact makeTimestamp_injective hoffset hlow hhigh hlow' hhigh' hsame
  · intro hsame _ d' hd'
    obtain rfl := MediaData.video.inj (hd.symm.trans hd')
    rw [hsame]

end documents

def sampleClip (title : CString) (dateTimeUpdated : ℤ) : VideoInfo where
  tracks := []
  title
  fileName := "a.mp4".toList
  fileFormatType := 1
  statusType := 0
  dateTimeUpdated
  parentalLevel := 5
  explanation := []
  copyright := []

def sampleVideo (title : CString) (dateTimeUpdated : ℤ) : CmaObject where
  metadata :=
    { ohfi := 1000
      name := some "a.mp4".toList
      dataType := DataType.Video ||| DataType.File
      data := .video (sampleClip title dateTimeUpdated) }
  path := "/a.mp4".toList

def sampleVideos (title : CString) (dateTimeUpdated : ℤ) : Database where
  lists c := if c = .videos then [sampleVideo title dateTimeUpdated] else []
  ohfiCount := 1001

theorem sampleVideo_kind (title : CString) (dateTimeUpdated : ℤ) :
    (sampleVideo title dateTimeUpdated).metadata.OfKind .video := by
  have hkind : kindOf (DataType.Video ||| DataType.File) = some .video := by decide
  exact ⟨hkind, _, rfl, by dsimp only [sampleClip]; omega, by dsimp only [sampleClip]; omega⟩

theorem sampleVideos_chain (title : CString) (dateTimeUpdated : ℤ) :
    RecordChain (sampleVideos title dateTimeUpdated) (some (.object .videos 0))
      [(sampleVideo title dateTimeUpdated).metadata] where
  linked := ⟨[.object .videos 0], ⟨rfl, rfl⟩, rfl⟩
  kinds m hm := by
    obtain rfl := List.mem_singleton.mp hm
    exact ⟨.video, sampleVideo_kind title dateTimeUpdated⟩

theorem sampleVideo_title (dateTimeUpdated : ℤ) :
    RecordsDifferIn [(sampleVideo "a".toList dateTimeUpdated).metadata]
      [(sampleVideo "b".toList dateTimeUpdated).metadata] 0 .video "title" where
  others j hj := by
    obtain ⟨j, rfl⟩ := Nat.exists_eq_succ_of_ne_zero hj
    rfl
  record := by
    refine ⟨_, _, rfl, rfl, sampleVideo_kind _ _, rfl, rfl, rfl, fun other hother => ?_, ?_⟩
    · have htitle : (other == "title") = false := beq_false_of_ne hother
      simp [Metadata.field, Metadata.fields, MediaData.fields, sampleVideo, sampleClip,
        RecordKind.HasData, List.lookup_cons, htitle]
    · intro hsame
      have hsame : some (AttrValue.text "b".toList) = some (.text "a".toList) := hsame
      simp at hsame

theorem sampleVideo_prints (title : CString) (dateTimeUpdated : ℤ) :
    ∀ m ∈ [(sampleVideo title dateTimeUpdated).metadata], ∀ kind, m.OfKind kind →
      m.TimesPrint (fixedClock 0) kind := by
  intro m hm kind hkind
  obtain rfl := List.mem_singleton.mp hm
  obtain rfl := (sampleVideo_kind title dateTimeUpdated).unique hkind
  have htimes : ∀ t ∈ [(5 : ℤ), 0], ((fixedClock 0).makeTimestamp t).isSome := by decide
  exact htimes

/-- A video whose time is its `parentalLevel`, and the same video with another title. -/
theorem metadataToXml_faithful_sample :
    (∃ ps, writeMetadata (fixedClock 0) (sampleVideos "a".toList 5) 1
        (some (.object .videos 0)) = some ps ∧
      FaithfulDocument (fixedClock 0) [(sampleVideo "a".toList 5).metadata] ps) ∧
    ∃ ps ps', writeMetadata (fixedClock 0) (sampleVideos "a".toList 5) 1
        (some (.object .videos 0)) = some ps ∧
      writeMetadata (fixedClock 0) (sampleVideos "b".toList 5) 1
        (some (.object .videos 0)) = some ps' ∧
      DocumentsDifferIn ps ps' 0 .video "title" := by
  have hfaithful := metadataToXml_faithful_iff (fixedClock 0) (sampleVideos_chain "a".toList 5)
    (le_refl 1)
  refine ⟨hfaithful.1.mpr fun m hm kind hkind => ⟨sampleVideo_prints _ _ m hm kind hkind, ?_⟩, ?_⟩
  · intro hvideo d hd
    obtain rfl := List.mem_singleton.mp hm
    obtain rfl := MediaData.video.inj hd
    rfl
  · refine (hfaithful.2 (sampleVideos_chain "b".toList 5) (le_refl 1) (sampleVideo_title 5)).mpr
      ⟨sampleVideo_prints _ _, sampleVideo_prints _ _, fun m m' hm hm' => ?_⟩
    refine ⟨fun t t' ht _ => ?_, fun _ => ⟨by decide, fun h => absurd h (by decide)⟩⟩
    have htype : AttrType.timestamp = fieldType "title" := m.field_type ht
    exact absurd htype (by decide)

/-- A video of another time. -/
theorem metadataToXml_video_time :
    ¬ ∀ (db : Database) (head : Option MetaRef) (ms : List Metadata) (fuel : ℕ),
      RecordChain db head ms → ms.length ≤ fuel →
      ∃ ps, writeMetadata (fixedClock 0) db fuel head = some ps ∧
        FaithfulDocument (fixedClock 0) ms ps := by
  intro h
  have hchain := sampleVideos_chain "a".toList 1400000000
  have hfaithful := h _ _ _ 1 hchain (le_refl 1)
  rw [hchain.faithful_iff (le_refl 1)] at hfaithful
  obtain ⟨-, htime⟩ := hfaithful _ (List.mem_singleton_self _) .video (sampleVideo_kind _ _)
  have hdata : (sampleVideo "a".toList 1400000000).metadata.data =
      .video (sampleClip "a".toList 1400000000) := rfl
  have hyears : ∀ t ∈ [(5 : ℤ), 1400000000],
      0 ≤ (localtime 0 t).tm_year + 1900 ∧ (localtime 0 t).tm_year + 1900 ≤ 9999 := by
    decide
  have hsame := (Metadata.givesOwnTime_fixedClock hdata (by decide) hyears).mp htime
  exact absurd hsame (by decide)

end VitaMTP
