import VitaMTP.Events.Run

/-! The titles a listing shows are copies of names. -/
namespace VitaMTP
open ParentFirst

/-- The union holds what `addToDatabase` would fill in for the current names of the object and
of its parent. -/
def CmaObject.TitledFrom (root o : CmaObject) : Prop :=
  ∃ name, o.metadata.name = some name ∧
    o.metadata.data = initialData o.metadata.dataType name root.metadata.name

/-- Every title, file name and directory name that is sent for an object is its name, and every
album is the name of its parent, empty below a category. -/
def DisplaysNames (db : Database) : Prop :=
  ∀ c, ∀ o ∈ db.objects c, ∀ tag attributes,
    startElement o.metadata = some (some (tag, attributes)) →
    ∃ name, o.metadata.name = some name ∧
      (∀ key ∈ ["title", "fileName", "dirName"], ∀ value, (key, value) ∈ attributes →
        value = .text name) ∧
      ∀ value, ("album", value) ∈ attributes → ∀ root ∈ db.lists c, root.ohfi = o.ohfiParent →
        value = .text (root.metadata.name.getD [])

theorem titledFrom_inherited : Inherited CmaObject.TitledFrom := by
  refine ⟨fun ohfi root name size type => ⟨name, rfl, rfl⟩, ?_⟩
  rintro root _ x _ ⟨name, hname, hdata⟩ ⟨size, handle, rfl⟩ ⟨size', handle', rfl⟩
  exact ⟨name, hname, hdata⟩

theorem displays_of_forall {name album : CString} {attributes : List Attribute}
    (h : ∀ a ∈ attributes, (a.1 ∈ ["title", "fileName", "dirName"] → a.2 = .text name) ∧
      (a.1 = "album" → a.2 = .text album)) :
    (∀ key ∈ ["title", "fileName", "dirName"], ∀ value, (key, value) ∈ attributes →
      value = .text name) ∧
    ∀ value, ("album", value) ∈ attributes → value = .text album := by
  constructor
  · intro key hkey value hv
    exact (h _ hv).1 hkey
  · intro value hv
    exact (h _ hv).2 rfl

theorem titledFrom_displays {root o : CmaObject} (h : root.TitledFrom o) {tag : String}
    {attributes : List Attribute} (hs : startElement o.metadata = some (some (tag, attributes))) :
    ∃ name, o.metadata.name = some name ∧
      (∀ key ∈ ["title", "fileName", "dirName"], ∀ value, (key, value) ∈ attributes →
        value = .text name) ∧
      ∀ value, ("album", value) ∈ attributes → value = .text (root.metadata.name.getD []) := by
  obtain ⟨name, hname, hdata⟩ := h
  refine ⟨name, hname, displays_of_forall ?_⟩
  unfold startElement at hs
  rw [hdata, hname] at hs
  unfold initialData at hs
  generalize o.metadata.dataType = dataType at hs
  -- both functions ask for the kinds with data of their own in the same order
  by_cases hsave : maskSet dataType (DataType.SaveData ||| DataType.Folder) = true
  · simp only [hsave, if_true] at hs
    obtain ⟨-, rfl⟩ := hs
    simp
  by_cases hphoto : maskSet dataType (DataType.Photo ||| DataType.File) = true
  · simp only [hsave, hphoto, if_true] at hs
    obtain ⟨-, rfl⟩ := hs
    simp
  by_cases hmusic : maskSet dataType (DataType.Music ||| DataType.File) = true
  · simp only [hsave, hphoto, hmusic, if_true] at hs
    obtain ⟨-, rfl⟩ := hs
    simp
  by_cases hvideo : maskSet dataType (DataType.Video ||| DataType.File) = true
  · simp only [hsave, hphoto, hmusic, hvideo, if_true] at hs
    obtain ⟨-, rfl⟩ := hs
    simp
  simp only [hsave, hphoto, hmusic, hvideo, Option.map_some] at hs
  by_cases hgame : maskSet dataType (DataType.Game ||| DataType.File) = true
  · simp only [hgame, if_true] at hs
    obtain ⟨-, rfl⟩ := hs
    simp
  by_cases hthumbnail : maskSet dataType DataType.Thumbnail = true
  · simp [hgame, hthumbnail] at hs
  by_cases hfolder : (dataType &&& DataType.Folder != 0) = true
  · simp only [hgame, hthumbnail, hfolder, if_true] at hs
    obtain ⟨-, rfl⟩ := hs
    simp
  by_cases hfile : (dataType &&& DataType.File != 0) = true
  · simp only [hgame, hthumbnail, hfolder, hfile, if_true] at hs
    obtain ⟨-, rfl⟩ := hs
    simp
  simp only [hgame, hthumbnail, hfolder, hfile] at hs
  simp at hs

theorem related_displays {paths : CmaPaths} {uuid : CString} {db : Database}
    (h : WellFormed paths uuid db) (hr : db.Related CmaObject.TitledFrom) : DisplaysNames db := by
  intro c o ho tag attributes hs
  obtain ⟨root, hroot, hp⟩ := h.exists_parent ho
  obtain ⟨name, hname, htitles, halbum⟩ := titledFrom_displays (hr c o ho root hroot hp) hs
  refine ⟨name, hname, htitles, fun value hv p hpl hpp => ?_⟩
  obtain rfl := (h.ordered c).inj hpl hroot (hpp.trans hp.symm)
  exact halbum value hv

/-- `g` changes at most the strings of the objects, and the name only of `x`, to `name`. -/
structure ChangesName (l : List CmaObject) (x : CmaObject) (name : Option CString)
    (g : CmaObject → CmaObject) : Prop where
  ids : ∀ y ∈ l, (g y).ohfi = y.ohfi ∧ (g y).ohfiParent = y.ohfiParent
  data : ∀ y ∈ l, (g y).metadata.dataType = y.metadata.dataType ∧
    (g y).metadata.data = y.metadata.data
  self : (g x).metadata.name = name
  others : ∀ y ∈ l, y ≠ x → (g y).metadata.name = y.metadata.name

section rename

variable {paths : CmaPaths} {uuid : CString} {db db₁ db₂ : Database} {c : Category}
  {x : CmaObject}

theorem rename_changesName (h : WellFormed paths uuid db) (hx : x ∈ db.objects c)
    {title : CString} (hrename : renameRootEntry db (c, x) none title = some db₁) :
    ∃ g, db₁ = db.setList c ((db.lists c).map g) ∧
      ChangesName (db.lists c) x (some title) g := by
  obtain ⟨name, path, hname, hpath⟩ := (h.objects c x hx).named
  obtain ⟨g, sent, heq, hgx, -, hg, -, hbelow⟩ :=
    h.renameRootEntry_map hx hname hpath none title
  have hself : (g x).metadata.name = some title := by
    rw [hgx, CmaObject.renamed, Option.getD_none, strreplace_whole]
  refine ⟨g, Option.some.inj (hrename.symm.trans heq), ⟨?_, ?_, hself, ?_⟩⟩
  · intro y hy
    by_cases hyx : y = x
    · rw [hyx, hgx]
      exact ⟨rfl, rfl⟩
    · rw [hg y hy hyx]
      cases sent y.ohfiParent <;> exact ⟨rfl, rfl⟩
  · intro y hy
    by_cases hyx : y = x
    · rw [hyx, hgx]
      exact ⟨rfl, rfl⟩
    · rw [hg y hy hyx]
      cases sent y.ohfiParent <;> exact ⟨rfl, rfl⟩
  · intro y hy hyx
    rw [hg y hy hyx]
    cases hs : sent y.ohfiParent with
    | none => rfl
    | some s =>
      have hb := ((hbelow _).mp (by rw [hs]; rfl)).tail ⟨y, hy, rfl, rfl⟩
      obtain ⟨name, path, hname, hpath⟩ := (h.objects c y (h.mem_objects_of_below hx hy hb)).named
      rw [Option.elim_some, CmaObject.renamedUnder_moved hname hpath]
      rfl

/-- An object without a copy of its name whose children have no copy of it either. -/
def ShowsNoCopy (db : Database) (c : Category) (x : CmaObject) : Prop :=
  x.metadata.data = .zero ∧
    ∀ y ∈ db.objects c, y.ohfiParent = x.ohfi → ∀ d, y.metadata.data ≠ .music d

theorem initialData_zero {dataType : Mask} {name : CString} {root : Option CString}
    (h : initialData dataType name root = .zero) (name' : CString) (root' : Option CString) :
    initialData dataType name' root' = .zero := by
  unfold initialData at h ⊢
  split_ifs at h ⊢
  rfl

theorem initialData_not_music {dataType : Mask} {name : CString} {root : Option CString}
    (h : ∀ d, initialData dataType name root ≠ .music d) (root' : Option CString) :
    initialData dataType name root = initialData dataType name root' := by
  unfold initialData at h ⊢
  split_ifs at h ⊢
  · rfl
  · rfl
  · exact absurd rfl (h _)
  · rfl
  · rfl

theorem titled_rename (h : WellFormed paths uuid db) (hr : db.Related CmaObject.TitledFrom)
    (hx : x ∈ db.objects c) {title : CString} {g : CmaObject → CmaObject}
    (hg : ChangesName (db.lists c) x (some title) g)
    (hkeeps : x.metadata.name = some title ∨ ShowsNoCopy db c x) :
    (db.setList c ((db.lists c).map g)).Related CmaObject.TitledFrom := by
  refine h.related_rewrite hr c hg.ids fun y hy root hroot hp => ?_
  rintro ⟨name, hname, hdata⟩
  have hyl := WellFormed.mem_of_objects hy
  obtain ⟨htype, hunion⟩ := hg.data y hyl
  rcases hkeeps with hsame | ⟨hzero, hchildren⟩
  · have hnames : ∀ z ∈ db.lists c, (g z).metadata.name = z.metadata.name := by
      intro z hz
      by_cases hzx : z = x
      · rw [hzx, hg.self, hsame]
      · exact hg.others z hz hzx
    refine ⟨name, (hnames y hyl).trans hname, ?_⟩
    rw [hunion, htype, hnames root hroot]
    exact hdata
  · by_cases hyx : y = x
    · subst hyx
      refine ⟨title, hg.self, ?_⟩
      rw [hunion, htype, hzero]
      exact (initialData_zero (hdata.symm.trans hzero) _ _).symm
    · refine ⟨name, (hg.others y hyl hyx).trans hname, ?_⟩
      rw [hunion, htype, hdata]
      by_cases hrx : root = x
      · subst hrx
        refine initialData_not_music (fun d => ?_) _
        rw [← hdata]
        exact hchildren y hy hp.symm d
      · rw [hg.others root hroot hrx]

theorem titled_rename_back (h : WellFormed paths uuid db) (hr : db.Related CmaObject.TitledFrom)
    (hx : x ∈ db.objects c) {title name : CString} (hname : x.metadata.name = some name)
    (hrename : renameRootEntry db (c, x) none title = some db₁) {x₁ : CmaObject}
    (hx₁ : db₁.get? c x.ohfi = some x₁) (hid : x₁.ohfi = x.ohfi)
    (hback : renameRootEntry db₁ (c, x₁) none name = some db₂) :
    db₂.Related CmaObject.TitledFrom := by
  obtain ⟨db', heq, h₁⟩ := h.renameRootEntry hx none title
  obtain rfl := Option.some.inj (heq.symm.trans hrename)
  have hx₁' := object_of_get? h₁ h hx hx₁ hid
  obtain ⟨g, rfl, hg⟩ := rename_changesName h hx hrename
  obtain ⟨g', rfl, hg'⟩ := rename_changesName h₁ hx₁' hback
  rw [Database.setList_lists_self, Database.setList_setList, List.map_map]
  rw [Database.setList_lists_self] at hg'
  have hmem : ∀ y ∈ db.lists c, g y ∈ (db.lists c).map g := fun y hy => List.mem_map_of_mem hy
  have hnames : ∀ z ∈ db.lists c, (g' (g z)).metadata.name = z.metadata.name := by
    intro z hz
    by_cases hzx : z = x
    · have hgz : g z = x₁ := by
        have hx₁l := WellFormed.mem_of_objects hx₁'
        refine (h₁.ordered c).inj (by simpa using ⟨z, hz, rfl⟩) hx₁l ?_
        rw [(hg.ids z hz).1, hid, hzx]
      rw [hgz, hg'.self, hzx, hname]
    · have hgz : g z ≠ x₁ := by
        intro he
        refine hzx ((h.ordered c).inj hz (WellFormed.mem_of_objects hx) ?_)
        rw [← (hg.ids z hz).1, he, hid]
      rw [hg'.others (g z) (hmem z hz) hgz, hg.others z hz hzx]
  refine h.related_rewrite hr c (fun y hy => ?_) fun y hy root hroot _ => ?_
  · exact ⟨(hg'.ids (g y) (hmem y hy)).1.trans (hg.ids y hy).1,
      (hg'.ids (g y) (hmem y hy)).2.trans (hg.ids y hy).2⟩
  · rintro ⟨name, hname, hdata⟩
    have hyl := WellFormed.mem_of_objects hy
    obtain ⟨htype, hunion⟩ := hg.data y hyl
    obtain ⟨htype', hunion'⟩ := hg'.data (g y) (hmem y hyl)
    refine ⟨name, (hnames y hyl).trans hname, ?_⟩
    rw [Function.comp_apply, Function.comp_apply, hunion', hunion, htype', htype, hnames root hroot]
    exact hdata

end rename

/-- A request does not give a new name to an object of which copies are shown, unless its file
cannot be moved. -/
def KeepsTitles {σ : Type} (posix : Posix σ) (s : Host σ) (r : DeviceRequest) : Prop :=
  ∀ c, ∀ x ∈ s.db.objects c, ∀ ohfi title name path,
    r = .operate (some ⟨VITA_OPERATE_RENAME, ohfi, title⟩) → x.ohfi = ohfi.toInt →
    x.metadata.name = some name → x.metadata.path = some path →
    posix.rename s.fs.state x.path (renamedPath x path name title) = none ∨ name = title ∨
      ShowsNoCopy s.db c x

section runs

variable {σ : Type} {posix : Posix σ} {paths : CmaPaths} {uuid : CString} {s s' : Host σ}

theorem Handled.titled {r : DeviceRequest} {msgs : List Message}
    (hh : Handled posix s r s' msgs) (h : WellFormed paths uuid s.db)
    (hr : s.db.Related CmaObject.TitledFrom) (hkeeps : KeepsTitles posix s r) :
    s'.db.Related CmaObject.TitledFrom := by
  cases hh with
  | refused => exact hr
  | created hroot => exact h.related_addToDatabase hr titledFrom_inherited hroot _ _ _
  | notCreated => exact hr
  | @renamed c x ohfi title name path db₁ fs hx hfound hname hpath hrename hmove =>
    have hid := ((h.ohfiToObject_object hx).mp hfound).symm
    obtain ⟨g, rfl, hg⟩ := rename_changesName h hx hrename
    refine titled_rename h hr hx hg ?_
    rcases hkeeps c x hx ohfi title name path rfl hid hname hpath with hnone | rfl | hno
    · rw [hmove] at hnone
      simp at hnone
    · exact Or.inl hname
    · exact Or.inr hno
  | notRenamed hx _ hname _ hrename hx₁ hid hback =>
    exact titled_rename_back h hr hx hname hrename hx₁ hid hback
  | deleted hx => exact h.related_without hr hx
  | received hparent _ hreceive =>
    exact vitaGetAllObjects_related titledFrom_inherited h hr hparent hreceive
  | written hx => exact h.related_sizeAdded hr titledFrom_inherited _ _ _
  | notWritten => exact hr

end runs

/-- In every run whose renames leave the shown copies true, what is shown are the names. -/
theorem titles_follow_names {view : DirView} {n : ℕ} {paths : CmaPaths} {uuid : CString}
    {σ : Type} (posix : Posix σ) {start s : Host σ}
    (hstart : createDatabase view n paths uuid = some start.db)
    (hrun : Runs.Reached (hostStep posix) (KeepsTitles posix) start s) : DisplaysNames s.db := by
  have hinv : WellFormed paths uuid s.db ∧ s.db.Related CmaObject.TitledFrom := by
    refine hrun.invariant (I := fun s => WellFormed paths uuid s.db ∧
      s.db.Related CmaObject.TitledFrom) ?_ ?_
    · exact ⟨.createDatabase hstart, WellFormed.related_createDatabase titledFrom_inherited hstart⟩
    · rintro s r s' ⟨h, hr⟩ hkeeps hstep
      obtain ⟨⟨s', msgs⟩, hres, rfl⟩ := Option.map_eq_some_iff.mp hstep
      have hh := handle_handled h hres
      exact ⟨hh.wellFormed h, hh.titled h hr hkeeps⟩
  exact related_displays hinv.1 hinv.2

def renameRequest (ohfi : BitVec 32) (title : CString) : DeviceRequest :=
  .operate (some ⟨VITA_OPERATE_RENAME, ohfi, title⟩)

def sampleAfter (r : DeviceRequest) : Host Unit :=
  (hostStep samplePosix (sampleHost sampleDatabase) r).getD (sampleHost sampleDatabase)

/-- The folder of photos can be renamed: no photo shows its name. -/
theorem titles_follow_sample : DisplaysNames (sampleAfter (renameRequest 1005 ['q'])).db := by
  have hsome : (hostStep samplePosix (sampleHost sampleDatabase)
      (renameRequest 1005 ['q'])).isSome := by
    decide +kernel
  have hstep := hostStep_isSome hsome
  refine titles_follow_names samplePosix sample_created (.step .start ?_ hstep)
  intro c x hx ohfi title name path he hid hname hpath
  have hohfi : x.ohfi = 1005 := by
    injection he with he
    obtain rfl := (OperateObject.mk.inj (Option.some.inj he)).2.1
    exact hid
  have hd : sampleObject 1 ∈ sampleDatabase.lists .photos := by simp [sample_photos]
  obtain ⟨rfl, rfl⟩ := (sample_reachable FolderAddition).wellFormed.ids_inj
    (WellFormed.mem_of_objects hx) hd (i := 1005) (by simp [CmaObject.ids, hohfi]) (by decide)
  refine Or.inr (Or.inr ⟨by decide, fun y hy _ d => ?_⟩)
  change y ∈ sampleDatabase.objects .photos at hy
  simp only [Database.objects, sample_photos, List.tail_cons, List.mem_cons, List.not_mem_nil,
    or_false] at hy
  rcases hy with rfl | rfl
  · exact MediaData.noConfusion
  · exact MediaData.noConfusion

/-- The renamed photo keeps its old title. -/
theorem titles_do_not_follow :
    createDatabase sampleView 3 samplePaths ['0'] = some sampleDatabase ∧
      Runs.Reached (hostStep samplePosix) (fun _ _ => True) (sampleHost sampleDatabase)
        (sampleAfter (renameRequest 1006 ['y'])) ∧
      ¬ DisplaysNames (sampleAfter (renameRequest 1006 ['y'])).db := by
  have hsome : (hostStep samplePosix (sampleHost sampleDatabase)
      (renameRequest 1006 ['y'])).isSome := by
    decide +kernel
  have hstep := hostStep_isSome hsome
  have hshown : ∃ o ∈ (sampleAfter (renameRequest 1006 ['y'])).db.objects .photos,
      o.metadata.name = some ['y'] ∧ startElement o.metadata = some (some ("photo",
        [("title", .text ['x']), ("dateTimeOriginal", .timestamp 0), ("fileFormatType", .int 28),
          ("fileName", .text ['x']), ("statusType", .int 1)])) := by
    decide +kernel
  obtain ⟨o, ho, hname, hstart⟩ := hshown
  refine ⟨sample_created, .step .start trivial hstep, fun hshows => ?_⟩
  obtain ⟨name, hname', htitles, -⟩ := hshows .photos o ho _ _ hstart
  obtain rfl := Option.some.inj (hname.symm.trans hname')
  have := htitles "title" (by simp) (.text ['x']) (by simp)
  simp at this

end VitaMTP
