import VitaMTP.Events.Atomic
import VitaMTP.Library.Runs

/-! The requests that change the database, and everything a handler can make of one. -/
namespace VitaMTP
open ParentFirst

inductive DeviceRequest
  | operate (operate : Option OperateObject)
  | delete (event : Event)
  | treat (treat : Option (BitVec 32 × DeviceObject))
  | part (part : Option PartOfObject)

/-- The handler of a request. -/
def DeviceRequest.handle {σ : Type} (posix : Posix σ) (s : Host σ) :
    DeviceRequest → Option (Host σ × List Message)
  | .operate o => vitaEventOperateObject posix s o
  | .delete event => (vitaEventDeleteObject posix s event).toOption
  | .treat t => vitaEventGetTreatObject posix s t
  | .part p => vitaEventGetPartOfObject posix s p

def hostStep {σ : Type} (posix : Posix σ) (s : Host σ) (r : DeviceRequest) : Option (Host σ) :=
  (r.handle posix s).map Prod.fst

theorem hostStep_isSome {σ : Type} {posix : Posix σ} {s : Host σ} {r : DeviceRequest}
    (h : (hostStep posix s r).isSome) :
    hostStep posix s r = some ((hostStep posix s r).getD s) := by
  obtain ⟨s', hs⟩ := Option.isSome_iff_exists.mp h
  rw [hs]
  rfl

section creation

def creationCmd (folder : Bool) : BitVec 32 :=
  if folder then VITA_OPERATE_CREATE_FOLDER else VITA_OPERATE_CREATE_FILE

def creationType (folder : Bool) : Mask := if folder then DataType.Folder else DataType.File

def creation {σ : Type} (posix : Posix σ) (folder : Bool) : Disk σ → CString → Outcome σ :=
  if folder then createNewDirectory posix else createNewFile posix

end creation

/-- What a rename makes of the path of `x`. -/
def renamedPath (x : CmaObject) (path name title : CString) : CString :=
  strreplace x.path path (strreplace path name title)

/-- All that can come of a request: what is left, and the messages. -/
inductive Handled {σ : Type} (posix : Posix σ) (s : Host σ) :
    DeviceRequest → Host σ → List Message → Prop
  /-- The transaction fails or the id names nothing. -/
  | refused {r : DeviceRequest} {msgs : List Message}
      (hmsgs : msgs = [] ∨ ∃ code, code ≠ .OK ∧ msgs = [.reportResult code]) :
      Handled posix s r s msgs
  | created {c : Category} {root : CmaObject} {ohfi : BitVec 32} {title : CString} {folder : Bool}
      (hroot : root ∈ s.db.lists c) (hfound : ohfiToObject s.db ohfi.toInt = some (c, root))
      (hcreated : (creation posix folder s.fs (joinPath root.path title)).1 = true) :
      Handled posix s (.operate (some ⟨creationCmd folder, ohfi, title⟩))
        { db := (addToDatabase s.db c root title 0 (creationType folder)).1
          fs := (creation posix folder s.fs (joinPath root.path title)).2 }
        [.reportResultWithParam .OK s.db.ohfiCount]
  | notCreated {c : Category} {root : CmaObject} {ohfi : BitVec 32} {title : CString}
      {folder : Bool} (hroot : root ∈ s.db.lists c)
      (hfound : ohfiToObject s.db ohfi.toInt = some (c, root))
      (hcreated : (creation posix folder s.fs (joinPath root.path title)).1 = false) :
      Handled posix s (.operate (some ⟨creationCmd folder, ohfi, title⟩))
        { db := { s.db with ohfiCount := s.db.ohfiCount + 1 }
          fs := (creation posix folder s.fs (joinPath root.path title)).2 }
        [.reportResult .Failed_Operate_Object]
  | renamed {c : Category} {x : CmaObject} {ohfi : BitVec 32} {title name path : CString}
      {db₁ : Database} {fs : σ} (hx : x ∈ s.db.objects c)
      (hfound : ohfiToObject s.db ohfi.toInt = some (c, x))
      (hname : x.metadata.name = some name) (hpath : x.metadata.path = some path)
      (hrename : renameRootEntry s.db (c, x) none title = some db₁)
      (hmove : posix.rename s.fs.state x.path (renamedPath x path name title) = some fs) :
      Handled posix s (.operate (some ⟨VITA_OPERATE_RENAME, ohfi, title⟩))
        { db := db₁
          fs := { state := fs
                  calls := s.fs.calls ++ [.rename x.path (renamedPath x path name title)] } }
        [.reportResultWithParam .OK x.ohfi]
  | notRenamed {c : Category} {x x₁ : CmaObject} {ohfi : BitVec 32} {title name path : CString}
      {db₁ db₂ : Database} (hx : x ∈ s.db.objects c)
      (hfound : ohfiToObject s.db ohfi.toInt = some (c, x))
      (hname : x.metadata.name = some name) (hpath : x.metadata.path = some path)
      (hrename : renameRootEntry s.db (c, x) none title = some db₁)
      (hx₁ : db₁.get? c x.ohfi = some x₁) (hid : x₁.ohfi = x.ohfi)
      (hback : renameRootEntry db₁ (c, x₁) none name = some db₂)
      (hmove : posix.rename s.fs.state x.path (renamedPath x path name title) = none) :
      Handled posix s (.operate (some ⟨VITA_OPERATE_RENAME, ohfi, title⟩))
        { db := db₂
          fs := { s.fs with
                  calls := s.fs.calls ++ [.rename x.path (renamedPath x path name title)] } }
        [.reportResult .Failed_Operate_Object]
  | deleted {c : Category} {x : CmaObject} {event : Event} (hx : x ∈ s.db.objects c)
      (hfound : ohfiToObject s.db event.param2.toInt = some (c, x)) :
      Handled posix s (.delete event)
        { db := s.db.setList c (withoutNodes x.ohfi (s.db.lists c))
          fs := deleteAll posix s.fs x.path }
        [.reportResult .OK]
  | received {c : Category} {parent : CmaObject} {ohfiParent : BitVec 32} {t : DeviceObject}
      {ret : ResultCode} {s' : Host σ} (hparent : parent ∈ s.db.lists c)
      (hfound : ohfiToObject s.db ohfiParent.toInt = some (c, parent))
      (hreceive : vitaGetAllObjects posix c parent.ohfi t s = some (ret, s')) :
      Handled posix s (.treat (some (ohfiParent, t))) s' [.reportResult ret]
  | written {c : Category} {x : CmaObject} {part : PartOfObject} (hx : x ∈ s.db.lists c)
      (hfound : ohfiToObject s.db part.ohfi.toInt = some (c, x))
      (hwritten : (writeFileFromBuffer posix s.fs x.path part.offset
        (part.data.take part.size.toNat)).1 = true) :
      Handled posix s (.part (some part))
        { db := s.db.setList c (sizeAdded x.ohfi part.size (s.db.lists c))
          fs := (writeFileFromBuffer posix s.fs x.path part.offset
            (part.data.take part.size.toNat)).2 }
        [.reportResult .OK]
  | notWritten {c : Category} {x : CmaObject} {part : PartOfObject} (hx : x ∈ s.db.lists c)
      (hfound : ohfiToObject s.db part.ohfi.toInt = some (c, x))
      (hwritten : (writeFileFromBuffer posix s.fs x.path part.offset
        (part.data.take part.size.toNat)).1 = false) :
      Handled posix s (.part (some part))
        { s with fs := (writeFileFromBuffer posix s.fs x.path part.offset
            (part.data.take part.size.toNat)).2 }
        [.reportResult .Invalid_Permission]

section handled

variable {σ : Type} {posix : Posix σ} {paths : CmaPaths} {uuid : CString} {s s' : Host σ}
  {msgs : List Message}

theorem operateCreate_handled (h : WellFormed paths uuid s.db) {c : Category} {root : CmaObject}
    {ohfi : BitVec 32} (hfound : ohfiToObject s.db ohfi.toInt = some (c, root)) (folder : Bool)
    (title : CString)
    (hres : operateCreate (creation posix folder) (creationType folder) s (c, root) title =
      some (s', msgs)) :
    Handled posix s (.operate (some ⟨creationCmd folder, ohfi, title⟩)) s' msgs := by
  have hroot := (h.ohfiToObject_eq_some.mp hfound).1
  have hpath : (addToDatabase s.db c root title 0 (creationType folder)).2.path =
      joinPath root.path title := rfl
  have hid : (addToDatabase s.db c root title 0 (creationType folder)).2.ohfi =
      s.db.ohfiCount := rfl
  have hremove := remove_added h hroot title (creationType folder)
  rw [hid] at hremove
  unfold operateCreate at hres
  simp only [hpath, hid, hremove, Option.bind_eq_bind, Option.bind_some] at hres
  split_ifs at hres with hcreated
  · rw [Option.some.injEq, Prod.mk.injEq] at hres
    obtain ⟨rfl, rfl⟩ := hres
    exact .created hroot hfound hcreated
  · rw [Option.some.injEq, Prod.mk.injEq] at hres
    obtain ⟨rfl, rfl⟩ := hres
    exact .notCreated hroot hfound (Bool.not_eq_true _ ▸ hcreated)

theorem operateRename_handled (h : WellFormed paths uuid s.db) {c : Category} {x : CmaObject}
    {ohfi : BitVec 32} (hfound : ohfiToObject s.db ohfi.toInt = some (c, x)) (title : CString)
    (hres : operateRename posix s (c, x) title = some (s', msgs)) :
    Handled posix s (.operate (some ⟨VITA_OPERATE_RENAME, ohfi, title⟩)) s' msgs := by
  have hxl := (h.ohfiToObject_eq_some.mp hfound).1
  rcases h.mem_lists.mp hxl with ⟨hm, -⟩ | hx
  · rw [operateRename_category hm] at hres
    simp at hres
  obtain ⟨name, path, hname, hpath⟩ := (h.objects c x hx).named
  obtain ⟨db₁, x₁, db₂, heq, hget, hid, hpath₁, hback, -⟩ := h.rename_back hx hname hpath title
  have hpath' : x₁.path = renamedPath x path name title := hpath₁
  simp only [operateRename, hname, heq, hget, hpath', hid, hback, move, Disk.call,
    Option.bind_eq_bind, Option.bind_some] at hres
  cases hmove : posix.rename s.fs.state x.path (renamedPath x path name title) with
  | some fs =>
    simp only [hmove, Option.isSome_some, if_true, Option.some.injEq, Prod.mk.injEq,
      Option.getD_some] at hres
    obtain ⟨rfl, rfl⟩ := hres
    exact .renamed hx hfound hname hpath heq hmove
  | none =>
    simp only [hmove, Option.isSome_none, Bool.false_eq_true, if_false, Option.some.injEq,
      Prod.mk.injEq, Option.getD_none] at hres
    obtain ⟨rfl, rfl⟩ := hres
    exact .notRenamed hx hfound hname hpath heq hget hid hback hmove

theorem operate_handled (h : WellFormed paths uuid s.db) {operate : Option OperateObject}
    (hres : vitaEventOperateObject posix s operate = some (s', msgs)) :
    Handled posix s (.operate operate) s' msgs := by
  cases operate with
  | none =>
    simp only [vitaEventOperateObject, Option.some.injEq, Prod.mk.injEq] at hres
    obtain ⟨rfl, rfl⟩ := hres
    exact .refused (Or.inl rfl)
  | some operate =>
    obtain ⟨cmd, ohfi, title⟩ := operate
    simp only [vitaEventOperateObject] at hres
    cases hfound : ohfiToObject s.db ohfi.toInt with
    | none =>
      simp only [hfound, Option.some.injEq, Prod.mk.injEq] at hres
      obtain ⟨rfl, rfl⟩ := hres
      exact .refused (Or.inr ⟨_, by decide, rfl⟩)
    | some root =>
      simp only [hfound] at hres
      split_ifs at hres with hfolder hfile hrename
      · subst hfolder
        exact operateCreate_handled h hfound true title hres
      · subst hfile
        exact operateCreate_handled h hfound false title hres
      · subst hrename
        exact operateRename_handled h hfound title hres
      · simp only [Option.some.injEq, Prod.mk.injEq] at hres
        obtain ⟨rfl, rfl⟩ := hres
        exact .refused (Or.inr ⟨_, by decide, rfl⟩)

theorem delete_handled (h : WellFormed paths uuid s.db) {event : Event}
    (hres : (vitaEventDeleteObject posix s event).toOption = some (s', msgs)) :
    Handled posix s (.delete event) s' msgs := by
  rcases h.lookup_cases event.param2.toInt with ⟨hfound, -⟩ | ⟨c, m, hfound, -, hm, -⟩ |
    ⟨c, x, hfound, hx, -⟩
  · simp only [vitaEventDeleteObject, hfound, Except.toOption, Option.some.injEq,
      Prod.mk.injEq] at hres
    obtain ⟨rfl, rfl⟩ := hres
    exact .refused (Or.inr ⟨_, by decide, rfl⟩)
  · rw [vitaEventDeleteObject_category h hm hfound, Except.toOption] at hres
    simp at hres
  · rw [vitaEventDeleteObject_object h hx hfound, Except.toOption, Option.some.injEq,
      Prod.mk.injEq] at hres
    obtain ⟨rfl, rfl⟩ := hres
    exact .deleted hx hfound

theorem treat_handled (h : WellFormed paths uuid s.db)
    {treat : Option (BitVec 32 × DeviceObject)}
    (hres : vitaEventGetTreatObject posix s treat = some (s', msgs)) :
    Handled posix s (.treat treat) s' msgs := by
  cases treat with
  | none =>
    simp only [vitaEventGetTreatObject, Option.some.injEq, Prod.mk.injEq] at hres
    obtain ⟨rfl, rfl⟩ := hres
    exact .refused (Or.inl rfl)
  | some treat =>
    obtain ⟨ohfiParent, t⟩ := treat
    simp only [vitaEventGetTreatObject] at hres
    cases hfound : ohfiToObject s.db ohfiParent.toInt with
    | none =>
      simp only [hfound, Option.some.injEq, Prod.mk.injEq] at hres
      obtain ⟨rfl, rfl⟩ := hres
      exact .refused (Or.inr ⟨_, by decide, rfl⟩)
    | some parent =>
      obtain ⟨c, parent⟩ := parent
      simp only [hfound, Option.bind_eq_bind, Option.bind_eq_some_iff, Option.some.injEq,
        Prod.exists, Prod.mk.injEq] at hres
      obtain ⟨ret, s₁, hreceive, rfl, rfl⟩ := hres
      exact .received (h.ohfiToObject_eq_some.mp hfound).1 hfound hreceive

theorem part_handled (h : WellFormed paths uuid s.db) {part : Option PartOfObject}
    (hres : vitaEventGetPartOfObject posix s part = some (s', msgs)) :
    Handled posix s (.part part) s' msgs := by
  cases part with
  | none =>
    simp only [vitaEventGetPartOfObject, Option.some.injEq, Prod.mk.injEq] at hres
    obtain ⟨rfl, rfl⟩ := hres
    exact .refused (Or.inl rfl)
  | some part =>
    simp only [vitaEventGetPartOfObject] at hres
    cases hfound : ohfiToObject s.db part.ohfi.toInt with
    | none =>
      simp only [hfound, Option.some.injEq, Prod.mk.injEq] at hres
      obtain ⟨rfl, rfl⟩ := hres
      exact .refused (Or.inr ⟨_, by decide, rfl⟩)
    | some object =>
      obtain ⟨c, x⟩ := object
      have hx := (h.ohfiToObject_eq_some.mp hfound).1
      simp only [hfound, h.incrementSizeMetadata_eq hx, Option.bind_eq_bind, Option.bind_some]
        at hres
      split_ifs at hres with hshort hwritten
      · simp only [Option.some.injEq, Prod.mk.injEq] at hres
        obtain ⟨rfl, rfl⟩ := hres
        exact .written hx hfound hwritten
      · simp only [Option.some.injEq, Prod.mk.injEq] at hres
        obtain ⟨rfl, rfl⟩ := hres
        exact .notWritten hx hfound (Bool.not_eq_true _ ▸ hwritten)

theorem handle_handled (h : WellFormed paths uuid s.db) {r : DeviceRequest}
    (hres : r.handle posix s = some (s', msgs)) : Handled posix s r s' msgs := by
  cases r with
  | operate operate => exact operate_handled h hres
  | delete event => exact delete_handled h hres
  | treat treat => exact treat_handled h hres
  | part part => exact part_handled h hres

/-- What is read through a pointer to a renamed object is that object. -/
theorem object_of_get? {db db₁ : Database} (h₁ : WellFormed paths uuid db₁)
    (h : WellFormed paths uuid db) {c : Category} {x x₁ : CmaObject} (hx : x ∈ db.objects c)
    (hx₁ : db₁.get? c x.ohfi = some x₁) (hid : x₁.ohfi = x.ohfi) : x₁ ∈ db₁.objects c := by
  unfold Database.get? at hx₁
  rcases h₁.mem_lists.mp (List.mem_of_find?_eq_some hx₁) with ⟨hm, -⟩ | hobj
  · exact absurd (hid.symm.trans hm.ohfi) (h.ohfi_ne_master hx)
  · exact hobj

/-- Every request keeps the lists well formed. -/
theorem Handled.wellFormed {r : DeviceRequest} (hh : Handled posix s r s' msgs)
    (h : WellFormed paths uuid s.db) : WellFormed paths uuid s'.db := by
  cases hh with
  | refused => exact h
  | created hroot => exact h.addToDatabase hroot _ _ _
  | notCreated => exact h.withCount (by simp)
  | @renamed c x _ title _ _ db₁ _ hx _ _ _ hrename =>
    obtain ⟨db', heq, h'⟩ := h.renameRootEntry hx none title
    exact Option.some.inj (heq.symm.trans hrename) ▸ h'
  | @notRenamed c x x₁ _ title name _ db₁ db₂ hx _ hname _ hrename hx₁ hid hback =>
    obtain ⟨db', heq, h'⟩ := h.renameRootEntry hx none title
    obtain rfl := Option.some.inj (heq.symm.trans hrename)
    obtain ⟨db'', heq', h''⟩ := h'.renameRootEntry (object_of_get? h' h hx hx₁ hid) none name
    exact Option.some.inj (heq'.symm.trans hback) ▸ h''
  | deleted hx => exact h.without hx
  | received hparent _ hreceive => exact vitaGetAllObjects_wellFormed h hparent hreceive
  | written hx => exact h.sizeAdded_wellFormed _ _ _
  | notWritten => exact h

end handled

end VitaMTP
