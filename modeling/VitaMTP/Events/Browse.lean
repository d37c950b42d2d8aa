import VitaMTP.Events.Messages

/-! Browsing: the device asks how many objects there are below an id, and then for their
metadata. -/
namespace VitaMTP

/-- `sent` is whether the device accepts the number. -/
def vitaEventSendNumOfObject (database : Option Database) (event : Event) (sent : Bool) :
    Option Database × List Message :=
  match database with
  | none => (none, [.reportResult .Not_Ready])
  | some db =>
    let (items, _, db) := filterObjects db event.param2.toInt
    (some db, .sendNumOfObject items :: if sent then [.reportResult .OK] else [])

/-- `browse` is the `ohfiParent` of the browse info, if the device sends one. An id that
names nothing leaves the head of the list uninitialised, and the result is `none`. -/
def vitaEventSendObjectMetadata (fuel : ℕ) (db : Database) (browse : Option (BitVec 32))
    (sent : Bool) : Option (Database × List Message) :=
  match browse with
  | none => some (db, [])
  | some ohfiParent => do
    let (_, head, db) := filterObjects db ohfiParent.toInt
    let head ← head
    let elements ← metadataToXml db fuel 0 head
    some (db, .sendObjectMetadata elements :: if sent then [.reportResult .OK] else [])

namespace WellFormed

variable {paths : CmaPaths} {uuid : CString} {db : Database}

/-- Listed records are filters or objects of the category, so they have an element. -/
theorem listed_supported (h : WellFormed paths uuid db) (hk : db.Kinded) {c : Category}
    {parent : CmaObject} {ohfi : ℤ} (hparent : parent ∈ db.lists c) :
    ∀ m ∈ listed db c parent ohfi, m.Supported := by
  have hobject : ∀ o ∈ db.lists c, (o.isFile ∨ o.ohfiParent = parent.ohfi) →
      o.metadata.Supported := by
    intro o ho hkind
    rcases h.mem_lists.mp ho with ⟨hm, -⟩ | hobj
    · exfalso
      rcases hkind with hfile | hp
      · obtain ⟨size, handle, he⟩ := hm
        have hdata : o.metadata.dataType = c.dataType := congrArg (·.metadata.dataType) he
        rw [CmaObject.isFile, hdata] at hfile
        revert hfile
        cases c <;> decide
      · have := h.ohfi_pos hparent
        rw [hm.ohfiParent] at hp
        omega
    · obtain ⟨name, path, hname, -⟩ := (h.objects c o hobj).named
      exact (hk c o hobj).supported hname
  intro m hm
  unfold listed at hm
  split at hm
  · rename_i hfilters
    obtain ⟨hmaster, -⟩ | hobj := h.mem_lists.mp hparent
    · have hu : m.unlinked ∈ c.filters paths uuid := by
        rw [← hmaster.filters]
        exact List.mem_map_of_mem hm
      have hfilter : ∀ f ∈ c.filters paths uuid, f.Supported := by
        cases c <;> simp [Category.filters, newFilter_supported]
      exact hfilter m.unlinked hu
    · exact absurd (h.objects c parent hobj).filters hfilters.1
  · split at hm
    · obtain ⟨o, ho, rfl⟩ := List.mem_map.mp hm
      obtain ⟨ho, hfile⟩ := List.mem_filter.mp ho
      exact hobject o ho (Or.inl hfile)
    · obtain ⟨o, ho, rfl⟩ := List.mem_map.mp hm
      obtain ⟨ho, hp⟩ := List.mem_filter.mp ho
      exact hobject o ho (Or.inr (by simpa using hp))

theorem listed_nodup (h : WellFormed paths uuid db) {c : Category} {parent : CmaObject} {ohfi : ℤ}
    (hparent : parent ∈ db.lists c) : ((listed db c parent ohfi).map (·.ohfi)).Nodup := by
  have hsub (p : CmaObject → Bool) :
      ((((db.lists c).filter p).map (·.metadata)).map (·.ohfi)).Nodup := by
    rw [List.map_map]
    exact (h.ohfi_nodup c).sublist (List.filter_sublist.map _)
  unfold listed
  split
  · rename_i hfilters
    rcases h.mem_lists.mp hparent with ⟨hmaster, -⟩ | hobj
    · have hids : parent.ids.Nodup := by
        rw [hmaster.ids]
        exact c.ids_nodup
      exact (List.nodup_cons.mp hids).2
    · exact absurd (h.objects c parent hobj).filters hfilters.1
  · split
    · exact hsub _
    · exact hsub _

end WellFormed

theorem listed_unlinked (db : Database) (c : Category) (parent : CmaObject) (ohfi : ℤ) :
    listed db.unlinked c parent.unlinked ohfi =
      (listed db c parent ohfi).map Metadata.unlinked := by
  have htype : listType parent.unlinked ohfi = listType parent ohfi := by
    have hfind : parent.unlinked.filters.find? (fun m => m.ohfi == ohfi) =
        (parent.filters.find? (fun m => m.ohfi == ohfi)).map Metadata.unlinked := by
      rw [CmaObject.unlinked, List.find?_map]
      rfl
    rw [listType, listType, hfind]
    cases parent.filters.find? (fun m => m.ohfi == ohfi) <;> rfl
  have hfilter (p : CmaObject → Bool) (hp : ∀ o, p o.unlinked = p o) :
      (((db.unlinked.lists c).filter p).map (·.metadata)) =
        (((db.lists c).filter p).map (·.metadata)).map Metadata.unlinked := by
    rw [Database.unlinked]
    simp only [List.filter_map, Function.comp_def, hp, List.map_map]
    rfl
  have hroot : (parent.unlinked.filters ≠ [] ∧ ohfi = parent.unlinked.ohfi) ↔
      (parent.filters ≠ [] ∧ ohfi = parent.ohfi) := by
    simp [CmaObject.unlinked, Metadata.unlinked]
  rw [listed, listed, htype]
  by_cases h₁ : parent.filters ≠ [] ∧ ohfi = parent.ohfi
  · rw [if_pos h₁, if_pos (hroot.mpr h₁)]
    rfl
  · rw [if_neg h₁, if_neg fun h => h₁ (hroot.mp h)]
    by_cases h₂ : listType parent ohfi &&& (DirType.ALL ||| DirType.SONGS) ≠ 0
    · rw [if_pos h₂, if_pos h₂]
      exact hfilter (fun o => o.isFile) fun o => rfl
    · rw [if_neg h₂, if_neg h₂]
      exact hfilter (fun o => o.ohfiParent = parent.ohfi) fun o => rfl

private theorem records_of_unlinked {os : List (Option Metadata)} {ms₀ : List Metadata}
    (h : os.map (Option.map Metadata.unlinked) = ms₀.map (fun m => some m.unlinked)) :
    ∃ ms : List Metadata, os = ms.map some ∧
      ms.map Metadata.unlinked = ms₀.map Metadata.unlinked := by
  induction ms₀ generalizing os with
  | nil => exact ⟨[], by simpa using h, rfl⟩
  | cons m₀ ms₀ ih =>
    cases os with
    | nil => simp at h
    | cons o os =>
      simp only [List.map_cons, List.cons.injEq] at h
      obtain ⟨m, rfl, hm⟩ := Option.map_eq_some_iff.mp h.1
      obtain ⟨ms, rfl, hms⟩ := ih h.2
      exact ⟨m :: ms, rfl, by rw [List.map_cons, hm, hms, List.map_cons]⟩

theorem map_deref_unlinked {db db' : Database} {refs : List MetaRef} {ms : List Metadata}
    (hunlinked : db'.unlinked = db.unlinked) (hderef : refs.map db.deref = ms.map some) :
    (refs.map db'.deref).map (Option.map Metadata.unlinked) =
      ms.map (fun m => some m.unlinked) := by
  have hd (r : MetaRef) :
      (db'.deref r).map Metadata.unlinked = (db.deref r).map Metadata.unlinked := by
    rw [← Database.deref_unlinked, ← Database.deref_unlinked, hunlinked]
  have := congrArg (List.map (Option.map Metadata.unlinked)) hderef
  simpa [List.map_map, Function.comp_def, hd] using this

theorem WellFormed.ohfiToObject_unlinked {paths : CmaPaths} {uuid : CString}
    {db db₁ : Database} (h : WellFormed paths uuid db) (h₁ : WellFormed paths uuid db₁)
    (hu : db₁.unlinked = db.unlinked) {ohfi : ℤ} {c : Category} {parent : CmaObject}
    (hfound : ohfiToObject db ohfi = some (c, parent)) :
    ∃ parent₁, ohfiToObject db₁ ohfi = some (c, parent₁) ∧ parent₁.unlinked = parent.unlinked := by
  obtain ⟨hparent, hi⟩ := h.ohfiToObject_eq_some.mp hfound
  have hmem : parent.unlinked ∈ db₁.unlinked.lists c := by
    rw [hu]
    exact List.mem_map_of_mem hparent
  obtain ⟨parent₁, hparent₁, he⟩ := List.mem_map.mp hmem
  refine ⟨parent₁, h₁.ohfiToObject_eq_some.mpr ⟨hparent₁, ?_⟩, he⟩
  have hids (o : CmaObject) : o.unlinked.ids = o.ids := by
    simp [CmaObject.ids, CmaObject.unlinked, Metadata.unlinked, Function.comp_def]
  rw [← hids, he, hids]
  exact hi

/-- What `filterObjects` publishes for an id that names something becomes a document with one
element for each record, in order. -/
theorem WellFormed.listing_elements {paths : CmaPaths} {uuid : CString} {db : Database}
    (h : WellFormed paths uuid db) (hk : db.Kinded) {ohfi : ℤ} {c : Category} {parent : CmaObject}
    (hfound : ohfiToObject db ohfi = some (c, parent)) :
    ∃ n head db', filterObjects db ohfi = (n, some head, db') ∧ db'.unlinked = db.unlinked ∧
      n = (listed db c parent ohfi).length ∧ ∀ fuel, n ≤ fuel → ∃ es,
        metadataToXml db' fuel 0 head = some es ∧
        es.map (·.index) = (List.range n).map (fun k : ℕ => (k : ℤ)) ∧
        es.map (·.ohfi) = (listed db c parent ohfi).map (·.ohfi) := by
  have hparent := (h.ohfiToObject_eq_some.mp hfound).1
  obtain ⟨refs, db', heq, -, hfollows, hunlinked, hderef⟩ := h.filterObjects_listed hk hfound
  refine ⟨refs.length, refs.head?, db', heq, hunlinked, ?_, fun fuel hfuel => ?_⟩
  · simpa using congrArg List.length hderef
  -- the records as the listing leaves them
  obtain ⟨ms, hms, hmsu⟩ := records_of_unlinked (map_deref_unlinked hunlinked hderef)
  have hsupported : ∀ m ∈ ms, m.Supported := by
    intro m hm
    have hmem : m.unlinked ∈ (listed db c parent ohfi).map Metadata.unlinked := by
      rw [← hmsu]
      exact List.mem_map_of_mem hm
    obtain ⟨m₁, hm₁, he⟩ := List.mem_map.mp hmem
    have hs : m₁.unlinked.Supported := h.listed_supported hk hparent m₁ hm₁
    rw [he] at hs
    exact hs
  obtain ⟨es, hes, hindex, hohfi⟩ := metadataToXml_follows hfollows hms hsupported hfuel 0
  refine ⟨es, hes, ?_, ?_⟩
  · rw [hindex]
    simp
  · rw [hohfi]
    have := congrArg (List.map (·.ohfi)) hmsu
    simpa [List.map_map, Function.comp_def, Metadata.unlinked] using this

/-- A listing has as many elements as were counted before, numbered from zero and with
distinct ids, also when other listings have rewritten the links in between. -/
theorem count_and_listing_agree {view : DirView} {n : ℕ} {paths : CmaPaths} {uuid : CString}
    {db : Database} (h : Reachable FolderAddition view n paths uuid db) {ohfi : ℤ} {c : Category}
    {parent : CmaObject} (hfound : ohfiToObject db ohfi = some (c, parent)) :
    ∃ refs db', filterObjects db ohfi = (refs.length, some refs.head?, db') ∧ refs.Nodup ∧
      Chain.Follows db'.next refs.head? refs ∧ db'.unlinked = db.unlinked ∧
      refs.map (fun r => (db'.deref r).map Metadata.unlinked) =
        (listed db c parent ohfi).map (fun m => some m.unlinked) ∧
      ∀ event : Event, event.param2.toInt = ohfi → ∀ browse : BitVec 32, browse.toInt = ohfi →
      ∀ db₁, db₁.unlinked = db.unlinked → ∀ fuel, refs.length ≤ fuel → ∀ sent sent₁,
        vitaEventSendNumOfObject (some db) event sent =
          (some db', .sendNumOfObject refs.length ::
            if sent then [.reportResult .OK] else []) ∧
        ∃ elements db₁', vitaEventSendObjectMetadata fuel db₁ (some browse) sent₁ =
            some (db₁', .sendObjectMetadata elements ::
              if sent₁ then [.reportResult .OK] else []) ∧
          elements.length = refs.length ∧
          elements.map (·.index) = (List.range refs.length).map (fun k : ℕ => (k : ℤ)) ∧
          (elements.map (·.ohfi)).Nodup := by
  have hw := h.wellFormed
  have hparent := (hw.ohfiToObject_eq_some.mp hfound).1
  obtain ⟨refs, db', heq, hnodup, hfollows, hunlinked, hderef⟩ :=
    hw.filterObjects_listed h.typed.kinded hfound
  have hlength : refs.length = (listed db c parent ohfi).length := by
    simpa using congrArg List.length hderef
  refine ⟨refs, db', heq, hnodup, hfollows, hunlinked, ?_, ?_⟩
  · rw [← map_deref_unlinked hunlinked hderef, List.map_map]
    rfl
  intro event hevent browse hbrowse db₁ hdb₁ fuel hfuel sent sent₁
  refine ⟨?_, ?_⟩
  · rw [vitaEventSendNumOfObject]
    simp only [hevent, heq]
  have h₁ : Reachable FolderAddition view n paths uuid db₁ := h.step (.link hdb₁)
  have hw₁ := h₁.wellFormed
  obtain ⟨parent₁, hfound₁, hp₁⟩ := hw.ohfiToObject_unlinked hw₁ hdb₁ hfound
  have hparent₁ := (hw₁.ohfiToObject_eq_some.mp hfound₁).1
  obtain ⟨n₁, head₁, db₁', heq₁, -, hlength₁, helements⟩ :=
    hw₁.listing_elements h₁.typed.kinded hfound₁
  have hlisted : (listed db₁ c parent₁ ohfi).map Metadata.unlinked =
      (listed db c parent ohfi).map Metadata.unlinked := by
    rw [← listed_unlinked, ← listed_unlinked, hdb₁, hp₁]
  have hcount : n₁ = refs.length := by
    rw [hlength₁, hlength]
    simpa using congrArg List.length hlisted
  obtain ⟨es, hes, hindex, hohfi⟩ := helements fuel (hcount.le.trans hfuel)
  refine ⟨es, db₁', ?_, ?_, ?_, ?_⟩
  · rw [vitaEventSendObjectMetadata]
    simp only [hbrowse, heq₁, Option.bind_eq_bind, Option.bind_some, hes]
  · have := congrArg List.length hindex
    simpa [hcount] using this
  · rw [hindex, hcount]
  · rw [hohfi]
    exact hw₁.listed_nodup hparent₁

/-- The sample has one photo at any depth. -/
theorem count_and_listing_agree_sample :
    ohfiToObject sampleDatabase 1001 = some (.photos, sampleObject 0) ∧
      (listed sampleDatabase .photos (sampleObject 0) 1001).map (·.name) = [some ['x']] ∧
      ∃ (refs : List MetaRef) (db' : Database),
        filterObjects sampleDatabase 1001 = (refs.length, some refs.head?, db') ∧
          refs.Nodup := by
  have hfound : ohfiToObject sampleDatabase 1001 = some (.photos, sampleObject 0) := by decide
  obtain ⟨refs, db', heq, hnodup, -⟩ :=
    count_and_listing_agree (sample_reachable FolderAddition) hfound
  exact ⟨hfound, by decide, refs, db', heq, hnodup⟩

end VitaMTP
