import VitaMTP.Events.Replies

/-! When each handler reports its result exactly once, on transactions that succeed. -/
namespace VitaMTP
open ParentFirst Cells

/-- The id of a category or of one of its filters. -/
def NamesCategory (i : ℤ) : Prop := ∃ c : Category, i ∈ c.ohfi :: c.filterIds

namespace WellFormed

variable {paths : CmaPaths} {uuid : CString} {db : Database}

/-- What an id names, and that nothing else has the ids of the categories. -/
theorem lookup_names (h : WellFormed paths uuid db) (i : ℤ) :
    (ohfiToObject db i = none ∧ ¬ NamesCategory i) ∨
    (∃ c m, ohfiToObject db i = some (c, m) ∧ IsMaster paths uuid c m ∧ NamesCategory i) ∨
    (∃ c x, ohfiToObject db i = some (c, x) ∧ x ∈ db.objects c ∧ ¬ NamesCategory i) := by
  rcases h.lookup_cases i with ⟨hnone, hno⟩ | ⟨c, m, hfound, -, hm, hi⟩ | ⟨c, x, hfound, hx, rfl⟩
  · refine Or.inl ⟨hnone, ?_⟩
    rintro ⟨c, hi⟩
    obtain ⟨m, hmem, -, hm⟩ := h.master_mem c
    exact hno c m hmem (hm.ids ▸ hi)
  · exact Or.inr (Or.inl ⟨c, m, hfound, hm, c, hi⟩)
  · refine Or.inr (Or.inr ⟨c, x, hfound, hx, ?_⟩)
    rintro ⟨d, hi⟩
    exact h.ohfi_not_category hx hi

theorem pathToObject_mem {path : CString} {ohfiRoot : ℤ} {c : Category} {x : CmaObject}
    (hfound : pathToObject db path ohfiRoot = some (c, x)) : x ∈ db.objects c := by
  obtain ⟨d, -, hd⟩ := List.exists_of_findSome?_eq_some hfound
  unfold pathInList at hd
  split at hd
  · simp at hd
  · rename_i master objects hl
    split_ifs at hd
    obtain ⟨o, ho, he⟩ := Option.map_eq_some_iff.mp hd
    obtain ⟨rfl, rfl⟩ := Prod.mk.inj he
    rw [Database.objects, hl]
    exact List.mem_of_find?_eq_some ho

/-- The document of a record in a list is made: a category has no element, an object has one. -/
theorem recordElements_isSome (h : WellFormed paths uuid db) (hk : db.Kinded) {c : Category}
    {o : CmaObject} (ho : o ∈ db.lists c) : (recordElements o.metadata).isSome := by
  rcases h.mem_lists.mp ho with ⟨⟨size, handle, hm⟩, -⟩ | hobj
  · have hdata : o.metadata.dataType = c.dataType := congrArg (·.metadata.dataType) hm
    have hstart : startElement o.metadata = some none := by
      unfold startElement
      rw [hdata]
      cases c <;> rfl
    simp [recordElements, hstart]
  · obtain ⟨name, path, hname, -⟩ := (h.objects c o hobj).named
    obtain ⟨⟨⟨tag, attributes⟩, hstart⟩, htracks⟩ := (hk c o hobj).supported hname
    obtain ⟨tracks, htracks⟩ := Option.isSome_iff_exists.mp htracks
    simp [recordElements, hstart, htracks]

end WellFormed

/-- What is asked of everything that is found is asked of the one thing found. -/
theorem forall_found {α β : Type} {a : α} {b : β} {P : α → β → Prop} :
    (∀ a' b', some (a, b) = some (a', b') → P a' b') ↔ P a b := by
  constructor
  · exact fun h => h a b rfl
  · intro h a' b' he
    obtain ⟨rfl, rfl⟩ := Prod.mk.inj (Option.some.inj he)
    exact h

section handlers

variable {σ : Type} {posix : Posix σ} {statvfs : σ → CString → Option Statvfs} {paths : CmaPaths}
  {uuid : CString} {s : Host σ}

theorem reportedOnce_sent {m : Message} (hm : m.isReport = false) :
    ReportedOnce (m :: reportSent true) := by
  rw [reportedOnce_cons, hm]
  simp [reportSent, Message.isReport]

theorem sendNumOfObject_reports (database : Option Database) (event : Event) :
    ReportedOnce (vitaEventSendNumOfObject database event true).2 := by
  cases database <;> simp [vitaEventSendNumOfObject, Message.isReport]

def listingFuel (db : Database) (ohfi : ℤ) : ℕ :=
  match ohfiToObject db ohfi with
  | none => 0
  | some (c, parent) => parent.filters.length + (db.lists c).length

theorem listed_length_le (db : Database) (c : Category) (parent : CmaObject) (ohfi : ℤ) :
    (listed db c parent ohfi).length ≤ parent.filters.length + (db.lists c).length := by
  have hfilter (p : CmaObject → Bool) :
      (((db.lists c).filter p).map (·.metadata)).length ≤ (db.lists c).length := by
    rw [List.length_map]
    exact List.length_filter_le _ _
  unfold listed
  split_ifs
  · omega
  · have := hfilter fun o => o.isFile
    omega
  · have := hfilter fun o => o.ohfiParent = parent.ohfi
    omega

theorem sendObjectMetadata_known (h : WellFormed paths uuid s.db) (hk : s.db.Kinded)
    {browse : BitVec 32} {c : Category} {parent : CmaObject}
    (hfound : ohfiToObject s.db browse.toInt = some (c, parent)) :
    ∃ db' elements, vitaEventSendObjectMetadata (listingFuel s.db browse.toInt) s.db (some browse)
        true = some (db', [.sendObjectMetadata elements, .reportResult .OK]) ∧
      db'.unlinked = s.db.unlinked := by
  obtain ⟨n, head, db', heq, hunlinked, hlength, helements⟩ := h.listing_elements hk hfound
  have hfuel : n ≤ listingFuel s.db browse.toInt := by
    rw [hlength, listingFuel, hfound]
    exact listed_length_le ..
  obtain ⟨es, hes, -⟩ := helements _ hfuel
  refine ⟨db', es, ?_, hunlinked⟩
  rw [vitaEventSendObjectMetadata]
  simp only [heq, Option.bind_eq_bind, Option.bind_some, hes, if_true]

theorem sendObjectMetadata_unknown {browse : BitVec 32}
    (hnone : ohfiToObject s.db browse.toInt = none) (fuel : ℕ) :
    vitaEventSendObjectMetadata fuel s.db (some browse) true = none := by
  simp [vitaEventSendObjectMetadata, filterObjects, hnone]

theorem sendMetadataOf_concludes (h : WellFormed paths uuid s.db) (hk : s.db.Kinded)
    {object : ObjectPtr} (ho : object.2 ∈ s.db.lists object.1) :
    Concludes (sendMetadataOf s object true) := by
  obtain ⟨elements, he⟩ := Option.isSome_iff_exists.mp (h.recordElements_isSome hk ho)
  rw [sendMetadataOf, he, Option.bind_eq_bind, Option.bind_some, concludes_some]
  exact reportedOnce_sent rfl

theorem sendObjectStatus_concludes (h : WellFormed paths uuid s.db) (hk : s.db.Kinded)
    (title : CString) (ohfiRoot : BitVec 32) :
    Concludes (vitaEventSendObjectStatus s title ohfiRoot true) := by
  unfold vitaEventSendObjectStatus
  cases hfound : pathToObject s.db title ohfiRoot.toInt with
  | none => simp [Message.isReport]
  | some object =>
    exact sendMetadataOf_concludes h hk
      (WellFormed.mem_of_objects (WellFormed.pathToObject_mem hfound))

theorem sendObjectMetadataItems_concludes (h : WellFormed paths uuid s.db) (hk : s.db.Kinded)
    (ohfi : BitVec 32) : Concludes (vitaEventSendObjectMetadataItems s ohfi true) := by
  unfold vitaEventSendObjectMetadataItems
  cases hfound : ohfiToObject s.db ohfi.toInt with
  | none => simp [Message.isReport]
  | some object => exact sendMetadataOf_concludes h hk (h.ohfiToObject_eq_some.mp hfound).1

/-- The thumbnail of an object is at a path that fits the buffer. -/
def ThumbFits (db : Database) (ohfi : ℤ) : Prop :=
  ∀ c object path, ohfiToObject db ohfi = some (c, object) → thumbPath object = some path →
    path.length < PATH_MAX

theorem sendObjectThumb_concludes_iff (event : Event) :
    Concludes (vitaEventSendObjectThumb posix s event true) ↔
      ThumbFits s.db event.param2.toInt := by
  unfold vitaEventSendObjectThumb ThumbFits
  cases hfound : ohfiToObject s.db event.param2.toInt with
  | none => simp [Message.isReport]
  | some r =>
    obtain ⟨c, object⟩ := r
    dsimp only
    cases hpath : thumbPath object with
    | none =>
      simp only [concludes_some, reportedOnce_cons, Message.isReport, if_true, true_iff]
      intro c' object' path he hpath'
      obtain ⟨rfl, rfl⟩ := Prod.mk.inj (Option.some.inj he)
      rw [hpath] at hpath'
      simp at hpath'
    | some path =>
      have helements : (recordElements thumbMeta).isSome := by decide
      obtain ⟨elements, helements⟩ := Option.isSome_iff_exists.mp helements
      constructor
      · intro h c' object' path' he hpath'
        obtain ⟨rfl, rfl⟩ := Prod.mk.inj (Option.some.inj he)
        obtain rfl := Option.some.inj (hpath.symm.trans hpath')
        by_contra hlong
        simp [hlong] at h
      · intro h
        have hfits := h c object path rfl hpath
        simp only [hfits, if_true]
        cases readFileToBuffer posix s.fs path 0 0 with
        | none => simp [Message.isReport]
        | some data =>
          dsimp only
          rw [helements, Option.bind_eq_bind, Option.bind_some, concludes_some]
          exact reportedOnce_sent rfl

theorem sendPartOfObject_reports (init : SendPartInit) :
    ReportedOnce (vitaEventSendPartOfObject posix s (some init) true) := by
  simp only [vitaEventSendPartOfObject]
  cases ohfiToObject s.db init.ohfi.toInt with
  | none => simp [Message.isReport]
  | some r =>
    dsimp only
    cases readFileToBuffer posix s.fs r.2.path init.offset (init.size.setWidth 32) with
    | none => simp [Message.isReport]
    | some data => exact reportedOnce_sent rfl

theorem sendHttpObjectFromURL_reports (fs : Disk σ) (url : CString) :
    ReportedOnce (vitaEventSendHttpObjectFromURL posix paths fs (some url) true) := by
  simp only [vitaEventSendHttpObjectFromURL]
  cases requestURL posix paths fs url 0 with
  | none =>
    dsimp only
    split_ifs
    · exact reportedOnce_sent rfl
    · simp [Message.isReport]
  | some data => exact reportedOnce_sent rfl

theorem sendHttpObjectPropFromURL_reports (fs : Disk σ) (size : ULong) (url : CString) :
    ReportedOnce (vitaEventSendHttpObjectPropFromURL posix paths fs size (some url) true) := by
  simp only [vitaEventSendHttpObjectPropFromURL]
  cases requestURL posix paths fs url (size.setWidth 32) with
  | none => simp [Message.isReport]
  | some data => exact reportedOnce_sent rfl

theorem sendDiskSpace_reports (s : Host σ) (path : CString) :
    ReportedOnce (sendDiskSpace statvfs s path true).2 := by
  unfold sendDiskSpace
  cases statvfs s.fs.state path with
  | none => simp [Message.isReport]
  | some stat => exact reportedOnce_sent rfl

theorem sendStorageSize_reports (event : Event) :
    ReportedOnce (vitaEventSendStorageSize posix statvfs s event true).2 := by
  unfold vitaEventSendStorageSize
  cases ohfiToObject s.db event.param2.toInt with
  | none => simp [Message.isReport]
  | some r =>
    dsimp only
    split_ifs
    · exact sendDiskSpace_reports ..
    · exact sendDiskSpace_reports ..
    · simp [Message.isReport]

theorem checkExistance_reports (db : Database) (name : CString) :
    ¬ ReportedOnce (vitaEventCheckExistance db name) := by
  unfold vitaEventCheckExistance
  cases pathToObject db name 0 <;> simp [Message.isReport]

/-- All ids are known, and the size of their list fits an `int`. -/
def CopyFits (db : Database) (info : CopyInfo) : Prop :=
  (∀ ohfi ∈ info.ohfi, (ohfiToObject db ohfi.toInt).isSome) ∧
    (4 * info.ohfi.length + 4) % 2 ^ 32 < 2 ^ 31

theorem confirmedSize_isSome (db : Database) (ohfis : List (BitVec 32)) (size : ULong) :
    (confirmedSize db ohfis size).isSome ↔
      ∀ ohfi ∈ ohfis, (ohfiToObject db ohfi.toInt).isSome := by
  induction ohfis generalizing size with
  | nil => simp [confirmedSize]
  | cons ohfi ohfis ih =>
    rw [confirmedSize, List.forall_mem_cons]
    cases ohfiToObject db ohfi.toInt with
    | none => simp
    | some r => simp [ih]

theorem sendCopyConfirmationInfo_concludes_iff (info : CopyInfo) :
    Concludes (vitaEventSendCopyConfirmationInfo s info true) ↔ CopyFits s.db info := by
  unfold vitaEventSendCopyConfirmationInfo CopyFits
  rw [← confirmedSize_isSome s.db info.ohfi 0]
  cases confirmedSize s.db info.ohfi 0 with
  | none => simp
  | some size =>
    have hsign : (BitVec.ofNat 32 (4 * info.ohfi.length + 4)).toInt < 0 ↔
        ¬ (4 * info.ohfi.length + 4) % 2 ^ 32 < 2 ^ 31 := by
      rw [BitVec.toInt_neg_iff, BitVec.toNat_ofNat]
      omega
    simp only [hsign, Option.isSome_some, true_and]
    by_cases hfits : (4 * info.ohfi.length + 4) % 2 ^ 32 < 2 ^ 31
    · simp only [hfits, not_true_eq_false, if_false, iff_true, concludes_some]
      exact reportedOnce_sent rfl
    · rw [if_pos hfits]
      simp only [hfits, concludes_none]

/-- A document in which the last element with accounts ends in its only one, which has an id. -/
def SettingsFit (settings : SettingPayload) : Prop :=
  ∃ root, settings = .document root ∧ root.name = "settingInfo".toList ∧
    ∃ nodes, (accountGroups root.children).getLast? = some nodes ∧ endsInAccount nodes = true ∧
      ∃ account, npAccounts nodes = [account] ∧ account.accountId.isSome

theorem getSettingInfo_document {α : Type} (a : α) {root : XmlNode} {heap : List (Cell Account)}
    (hparsed : settingsFromXml root = some heap) :
    Concludes (vitaEventGetSettingInfo a (.document root)) ↔
      ∃ account, read heap heap.length 0 = some [account] ∧ account.accountId.isSome := by
  simp only [vitaEventGetSettingInfo, hparsed, Option.bind_eq_bind]
  cases hread : read heap heap.length 0 with
  | none =>
    have hfree : freeSettings heap = none := by
      cases hloop : freeLoop heap heap.length (some 0) none with
      | none => rw [freeSettings, hloop, Option.map_none]
      | some accesses =>
        obtain ⟨nodes, hnodes⟩ := nodesAt_of_freeLoop hloop
        rw [read_eq_some.mpr hnodes.listAt] at hread
        simp at hread
    simp [hfree]
  | some accounts =>
    obtain ⟨nodes, hnodes, rfl⟩ := NodesAt.of_listAt (read_eq_some.mp hread)
    obtain ⟨account, rest, rfl⟩ := hnodes.head
    have hcurrent : heap[0]?.bind Cell.value = some account := by
      cases hnodes with
      | last hp => simp [hp]
      | link hp _ => simp [hp]
    rw [← Option.bind_assoc, hcurrent, Option.bind_some, freeSettings_eq hnodes]
    simp only [Option.bind_some, freed_nodup_iff hnodes, List.length_cons, List.map_cons,
      Option.some.injEq, List.cons.injEq, List.map_eq_nil_iff]
    cases hid : account.accountId with
    | none => simp [hid]
    | some id =>
      by_cases hrest : rest = []
      · simp [hrest, hid, Message.isReport]
      · simp [hrest]

theorem getSettingInfo_concludes_iff {α : Type} (a : α) (settings : SettingPayload) :
    Concludes (vitaEventGetSettingInfo a settings) ↔ SettingsFit settings := by
  unfold SettingsFit
  cases settings with
  | empty => simp [vitaEventGetSettingInfo]
  | malformed => simp [vitaEventGetSettingInfo]
  | document root =>
    simp only [SettingPayload.document.injEq, exists_eq_left']
    cases hparsed : settingsFromXml root with
    | none =>
      simp only [vitaEventGetSettingInfo, hparsed, concludes_some, reportedOnce_nil, false_iff]
      rintro ⟨hname, nodes, hlast, -⟩
      have hchildren : root.children ≠ [] := by
        rintro he
        simp [he, accountGroups] at hlast
      have := settingsFromXml_eq_some.mpr ⟨hname, hchildren, rfl⟩
      rw [hparsed] at this
      simp at this
    | some heap =>
      have hname := (settingsFromXml_eq_some.mp hparsed).1
      rw [getSettingInfo_document a hparsed, read_settings hparsed]
      cases (accountGroups root.children).getLast? with
      | none => simp
      | some nodes =>
        rw [Option.bind_some]
        by_cases hends : endsInAccount nodes = true
        · simp [hends, hname]
        · simp [hends]

theorem deleteObject_concludes_iff (h : WellFormed paths uuid s.db) (event : Event) :
    Concludes (vitaEventDeleteObject posix s event).toOption ↔
      ¬ NamesCategory event.param2.toInt := by
  rcases h.lookup_names event.param2.toInt with
    ⟨hnone, hnames⟩ | ⟨c, m, hfound, hm, hnames⟩ | ⟨c, x, hfound, hx, hnames⟩
  · simp [vitaEventDeleteObject, hnone, hnames, Except.toOption, Message.isReport]
  · simp [vitaEventDeleteObject_category h hm hfound, hnames, Except.toOption]
  · simp [vitaEventDeleteObject_object h hx hfound, hnames, Except.toOption, Message.isReport]

theorem operateCreate_concludes (h : WellFormed paths uuid s.db) {c : Category} {root : CmaObject}
    (hroot : root ∈ s.db.lists c) (create : Disk σ → CString → Outcome σ) (type : Mask)
    (title : CString) : Concludes (operateCreate create type s (c, root) title) := by
  unfold operateCreate
  simp only [remove_added h hroot title type, Option.bind_eq_bind, Option.bind_some]
  split_ifs <;> simp [Message.isReport]

theorem operateRename_concludes (h : WellFormed paths uuid s.db) {c : Category} {x : CmaObject}
    (hx : x ∈ s.db.objects c) (title : CString) :
    Concludes (operateRename posix s (c, x) title) := by
  obtain ⟨name, path, hname, hpath⟩ := (h.objects c x hx).named
  obtain ⟨db₁, db₂, -, -, -, hmoved, hfailed⟩ :=
    operateRename_object posix h hx hname hpath title rfl
  cases hmove : posix.rename s.fs.state x.path
      (strreplace x.path path (strreplace path name title)) with
  | none => simp [hfailed hmove, Message.isReport]
  | some fs => simp [hmoved fs hmove, Message.isReport]

/-- A category is not renamed. -/
def OperateFits (operate : OperateObject) : Prop :=
  operate.cmd = VITA_OPERATE_RENAME → ¬ NamesCategory operate.ohfi.toInt

theorem operateObject_concludes_iff (h : WellFormed paths uuid s.db) (operate : OperateObject) :
    Concludes (vitaEventOperateObject posix s (some operate)) ↔ OperateFits operate := by
  unfold OperateFits
  simp only [vitaEventOperateObject]
  rcases h.lookup_names operate.ohfi.toInt with
    ⟨hnone, hnames⟩ | ⟨c, m, hfound, hm, hnames⟩ | ⟨c, x, hfound, hx, hnames⟩
  · simp [hnone, hnames, Message.isReport]
  · have hroot := (h.ohfiToObject_eq_some.mp hfound).1
    simp only [hfound, hnames, not_true_eq_false, imp_false]
    split_ifs with hfolder hfile hrename
    · simp only [operateCreate_concludes h hroot, hfolder, true_iff]
      decide
    · simp only [operateCreate_concludes h hroot, hfile, true_iff]
      decide
    · simp [operateRename_category hm, hrename]
    · simp [hrename, Message.isReport]
  · have hroot := (h.ohfiToObject_eq_some.mp hfound).1
    simp only [hfound, hnames, not_false_eq_true, implies_true, iff_true]
    split_ifs
    · exact operateCreate_concludes h hroot ..
    · exact operateCreate_concludes h hroot ..
    · exact operateRename_concludes h hx _
    · simp [Message.isReport]

/-- The device sends as much of a known object as it says. -/
def PartComplete (db : Database) (part : PartOfObject) : Prop :=
  (ohfiToObject db part.ohfi.toInt).isSome → part.size.toNat ≤ part.data.length

theorem getPartOfObject_concludes_iff (h : WellFormed paths uuid s.db) (part : PartOfObject) :
    Concludes (vitaEventGetPartOfObject posix s (some part)) ↔ PartComplete s.db part := by
  unfold PartComplete
  simp only [vitaEventGetPartOfObject]
  cases hfound : ohfiToObject s.db part.ohfi.toInt with
  | none => simp [Message.isReport]
  | some r =>
    obtain ⟨c, x⟩ := r
    have hx := (h.ohfiToObject_eq_some.mp hfound).1
    simp only [h.incrementSizeMetadata_eq hx, Option.bind_eq_bind, Option.bind_some,
      Option.isSome_some, true_imp_iff]
    by_cases hshort : part.data.length < part.size.toNat
    · rw [if_pos hshort]
      simp only [concludes_none, false_iff]
      omega
    · rw [if_neg hshort]
      have hcomplete : part.size.toNat ≤ part.data.length := by omega
      simp only [hcomplete, iff_true]
      split_ifs <;> simp [Message.isReport]

/-- The device sends as much of each file as it says. -/
def TreatComplete (posix : Posix σ) (s : Host σ) (treat : BitVec 32 × DeviceObject) : Prop :=
  ∀ c parent, ohfiToObject s.db treat.1.toInt = some (c, parent) →
    treat.2.Complete posix parent.isFile parent.path
      (cleared posix s parent.ohfi treat.2.name?).fs

theorem getTreatObject_concludes_iff (h : WellFormed paths uuid s.db)
    (treat : BitVec 32 × DeviceObject) :
    Concludes (vitaEventGetTreatObject posix s (some treat)) ↔ TreatComplete posix s treat := by
  obtain ⟨ohfiParent, t⟩ := treat
  unfold TreatComplete
  simp only [vitaEventGetTreatObject]
  cases hfound : ohfiToObject s.db ohfiParent.toInt with
  | none => simp [Message.isReport]
  | some r =>
    obtain ⟨c, parent⟩ := r
    have hparent := (h.ohfiToObject_eq_some.mp hfound).1
    have hdefined := vitaGetAllObjects_defined posix paths uuid t s c parent h hparent
    rw [forall_found, ← hdefined]
    dsimp only
    cases vitaGetAllObjects posix c parent.ohfi t s with
    | none => simp
    | some r => simp [Message.isReport]

theorem sendObjectMessage_isSome {object : CmaObject}
    (hkind : object.isFolder = true ∨ object.isFile = true) (parentHandle : BitVec 32)
    (data : List Byte) :
    ∃ msg, sendObjectMessage parentHandle object data = some msg ∧ msg.isReport = false := by
  unfold sendObjectMessage
  split_ifs with hfolder hfile
  · exact ⟨_, rfl, rfl⟩
  · exact ⟨_, rfl, rfl⟩
  · exact absurd hkind (by simp [hfolder, hfile])

/-- The loop over folders and files reports once exactly if it comes to one it cannot read: at its
end it reports twice. -/
theorem sendNodes_reports_iff {fs : Disk σ} (answers : ℕ → SendAnswer) {object : CmaObject}
    {rest : List CmaObject} (hkinds : ∀ o ∈ object :: rest, o.isFolder = true ∨ o.isFile = true)
    (sent : List CmaObject) (parentHandle : BitVec 32) :
    ReportedOnce
        (sendNodes posix fs (fun k => some (answers k)) sent parentHandle object rest).msgs ↔
      ∃ o ∈ object :: stretch rest, readObject posix fs o = none := by
  have htwice (handle : BitVec 32) : ¬ ReportedOnce (sendEnd handle) := by
    simp [sendEnd, Message.isReport]
  induction rest generalizing object sent parentHandle with
  | nil =>
    rw [sendNodes.eq_def]
    cases hread : readObject posix fs object with
    | none => simp [Message.isReport, hread]
    | some data =>
      obtain ⟨msg, hmsg, hreport⟩ := sendObjectMessage_isSome (hkinds object (by simp))
        (parentHandleOf sent object parentHandle) data
      dsimp only
      rw [hmsg]
      dsimp only
      rw [reportedOnce_cons, hreport, if_neg Bool.false_ne_true]
      refine iff_of_false (htwice _) ?_
      simp [stretch, hread]
  | cons next rest ih =>
    rw [sendNodes.eq_def]
    cases hread : readObject posix fs object with
    | none => simp [Message.isReport, hread]
    | some data =>
      obtain ⟨msg, hmsg, hreport⟩ := sendObjectMessage_isSome (hkinds object (by simp))
        (parentHandleOf sent object parentHandle) data
      dsimp only
      rw [hmsg]
      dsimp only
      rw [reportedOnce_cons, hreport, if_neg Bool.false_ne_true]
      by_cases hnext : OHFI_OFFSET ≤ next.ohfiParent
      · have hstretch : stretch (next :: rest) = next :: stretch rest := by simp [stretch, hnext]
        have hrest := ih (fun o ho => hkinds o (List.mem_cons_of_mem _ ho))
          (sent ++ [object.setHandle (answers sent.length).2]) (answers sent.length).1
        rw [if_pos hnext, hstretch, List.exists_mem_cons_iff, hread]
        simpa using hrest
      · have hstretch : stretch (next :: rest) = [] := by simp [stretch, hnext]
        rw [if_neg hnext, hstretch]
        refine iff_of_false (htwice _) ?_
        simp [hread]

/-- Not a category, and among the objects that follow each other from it on one cannot be read. -/
def SendRefused (posix : Posix σ) (s : Host σ) (ohfi : ℤ) : Prop :=
  ∀ c x, ohfiToObject s.db ohfi = some (c, x) → ¬ NamesCategory ohfi ∧
    ∃ o ∈ x :: stretch (behind (s.db.lists c) x), readObject posix s.fs o = none

/-- A category is neither a folder nor a file: nothing is sent and nothing reported. -/
theorem sendNodes_category {fs : Disk σ} {answers : ℕ → Option SendAnswer} {c : Category}
    {m : CmaObject} (hm : IsMaster paths uuid c m) (sent rest : List CmaObject)
    (parentHandle : BitVec 32) :
    (sendNodes posix fs answers sent parentHandle m rest).msgs = [] := by
  obtain ⟨size, handle, he⟩ := hm
  have hdata : m.metadata.dataType = c.dataType := congrArg (·.metadata.dataType) he
  have hfile : m.isFile = false := by
    rw [CmaObject.isFile, hdata]
    cases c <;> rfl
  have hfolder : m.isFolder = false := by
    rw [CmaObject.isFolder, hdata]
    cases c <;> rfl
  rw [sendNodes.eq_def]
  simp [readObject, sendObjectMessage, hfile, hfolder]

theorem sendObject_reports_iff (h : WellFormed paths uuid s.db) (hk : s.db.Kinded) (event : Event)
    (answers : ℕ → SendAnswer) :
    ReportedOnce (vitaEventSendObject posix s event fun k => some (answers k)).2 ↔
      SendRefused posix s event.param2.toInt := by
  unfold SendRefused
  simp only [vitaEventSendObject]
  rcases h.lookup_names event.param2.toInt with
    ⟨hnone, hnames⟩ | ⟨c, m, hfound, hm, hnames⟩ | ⟨c, x, hfound, hx, hnames⟩
  · simp [hnone, Message.isReport]
  · simp only [hfound, sendNodes_category hm, reportedOnce_nil, false_iff]
    intro hall
    exact (hall c m rfl).1 hnames
  · obtain ⟨master, hlist, -⟩ := h.master c
    obtain ⟨p, q, hobjects⟩ := List.append_of_mem hx
    have hl : s.db.lists c = (master :: p) ++ x :: q := by
      rw [hlist, hobjects]
      rfl
    have hdrop := (takeWhile_dropWhile_split (r := q)
      (ohfi_ne_of_split hl (h.ohfi_nodup c)).1).2
    rw [← hl] at hdrop
    have hbehind : behind (s.db.lists c) x = q := by rw [behind, hdrop, List.tail_cons]
    have hkinds : ∀ o ∈ x :: q, o.isFolder = true ∨ o.isFile = true := by
      intro o ho
      refine (hk c o ?_).folder_or_file
      rw [hobjects]
      exact List.mem_append_right _ ho
    rw [hfound, forall_found, hbehind, and_iff_right hnames]
    dsimp only
    rw [hdrop, List.tail_cons]
    exact sendNodes_reports_iff answers hkinds [] event.param3

end handlers

end VitaMTP
