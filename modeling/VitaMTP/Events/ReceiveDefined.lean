import VitaMTP.Events.Received

/-! When receiving a tree never reads past the data of a file. -/
namespace VitaMTP

section complete

variable {σ : Type} (posix : Posix σ)

mutual

/-- For every file that is made the device has sent as many bytes as it announced, and no folder
below a file is made, whose size is never set. -/
def DeviceObject.Complete : Bool → CString → DeviceObject → Disk σ → Prop
  | _, _, .unavailable, _ => True
  | _, dir, .file name _ size data, fs =>
    (createNewFile posix fs (joinPath dir name)).1 = true → size.toNat ≤ data.length
  | true, dir, .folder name _ _, fs => (createNewFile posix fs (joinPath dir name)).1 = false
  | false, dir, .folder name _ children, fs =>
    (createNewDirectory posix fs (joinPath dir name)).1 = true →
      ChildrenComplete (joinPath dir name) children
        (createNewDirectory posix fs (joinPath dir name)).2

/-- The children up to the first that fails. -/
def ChildrenComplete : CString → List DeviceObject → Disk σ → Prop
  | _, [], _ => True
  | dir, t :: ts, fs => t.Complete false dir fs ∧
    ((writeTree posix false dir t fs).ok = true →
      ChildrenComplete dir ts (writeTree posix false dir t fs).fs)

end

end complete

section defined

variable {σ : Type} {posix : Posix σ} {paths : CmaPaths} {uuid : CString} {s : Host σ}

def DefinedTree (posix : Posix σ) (paths : CmaPaths) (uuid : CString) (t : DeviceObject) : Prop :=
  ∀ (s : Host σ) (c : Category) (parent : CmaObject),
    WellFormed paths uuid s.db → parent ∈ s.db.lists c →
    ((vitaGetAllObjects posix c parent.ohfi t s).isSome ↔
      t.Complete posix parent.isFile parent.path (cleared posix s parent.ohfi t.name?).fs)

def DefinedChildren (posix : Posix σ) (paths : CmaPaths) (uuid : CString)
    (ts : List DeviceObject) : Prop :=
  ∀ (s : Host σ) (c : Category) (object : CmaObject),
    WellFormed paths uuid s.db → object ∈ s.db.objects c → object.isFile = false →
    ((vitaGetAllChildren posix c object.ohfi ts s).isSome ↔
      ChildrenComplete posix object.path ts s.fs)

theorem defined_unavailable : DefinedTree posix paths uuid .unavailable := by
  intro s c parent h hp
  unfold DeviceObject.Complete
  simp [vitaGetAllObjects]

theorem defined_file (name : CString) (handle : BitVec 32) (size : ULong) (data : List Byte) :
    DefinedTree posix paths uuid (.file name handle size data) := by
  intro s c parent h hp
  have h₀ := cleared_wellFormed posix h hp (some name)
  have hp₀ := cleared_parent posix h hp (some name)
  have hcount := cleared_ohfiCount posix h hp (some name)
  simp only [vitaGetAllObjects, h.get?_eq hp, addReceived_eq h hp, Option.bind_eq_bind,
    Option.bind_some]
  simp only [DeviceObject.name?, DeviceObject.Complete]
  generalize cleared posix s parent.ohfi (some name) = s₀ at h₀ hp₀ hcount ⊢
  rw [← hcount]
  have hpath : (newObject s₀.db.ohfiCount parent name 0 DataType.File).path =
      joinPath parent.path name := rfl
  unfold receiveFile
  simp only [hpath, discard_new h₀ hp₀]
  cases hcreated : (createNewFile posix s₀.fs (joinPath parent.path name)).1 with
  | false => simp
  | true =>
    simp only [if_true, true_imp_iff]
    by_cases hshort : data.length < size.toNat
    · simp [hshort]
    · rw [if_neg hshort, increment_new h₀ hp₀]
      split_ifs <;> simp <;> omega

theorem defined_folder (name : CString) (handle : BitVec 32) {children : List DeviceObject}
    (ih : DefinedChildren posix paths uuid children) :
    DefinedTree posix paths uuid (.folder name handle children) := by
  intro s c parent h hp
  have h₀ := cleared_wellFormed posix h hp (some name)
  have hp₀ := cleared_parent posix h hp (some name)
  have hcount := cleared_ohfiCount posix h hp (some name)
  simp only [vitaGetAllObjects, h.get?_eq hp, addReceived_eq h hp, Option.bind_eq_bind,
    Option.bind_some]
  simp only [DeviceObject.name?]
  generalize cleared posix s parent.ohfi (some name) = s₀ at h₀ hp₀ hcount ⊢
  rw [← hcount]
  have hblock := newObject_block s₀.db.ohfiCount parent name handle DataType.Folder
  have hpath : (newObject s₀.db.ohfiCount parent name 0 DataType.Folder).path =
      joinPath parent.path name := rfl
  simp only [hpath, newObject_isFile, discard_new h₀ hp₀]
  cases hfile : parent.isFile with
  | true =>
    unfold DeviceObject.Complete
    simp only [if_true]
    split_ifs with hcreated <;> simp [hcreated]
  | false =>
    unfold DeviceObject.Complete
    simp only [Bool.false_eq_true, if_false]
    cases hcreated : (createNewDirectory posix s₀.fs (joinPath parent.path name)).1 with
    | false => simp
    | true =>
      simp only [if_true, true_imp_iff]
      -- the children are received below the new object
      let o := (newObject s₀.db.ohfiCount parent name 0 DataType.Folder).setHandle handle
      let s₁ : Host σ :=
        { db := s₀.db.grown c parent.ohfi 0 [o] (s₀.db.ohfiCount + 1)
          fs := (createNewDirectory posix s₀.fs (joinPath parent.path name)).2 }
      have h₁ : WellFormed paths uuid s₁.db := h₀.grown hp₀ hblock le_rfl 0
      have hmem : o ∈ s₁.db.objects c :=
        h₀.mem_grown (List.mem_singleton_self o) c parent.ohfi 0 (s₀.db.ohfiCount + 1)
      have hofile : o.isFile = false :=
        (newObject_isFile s₀.db.ohfiCount parent name 0).trans hfile
      have hchildren := ih s₁ c o h₁ hmem hofile
      refine Iff.trans ?_ hchildren
      change (Option.bind (vitaGetAllChildren posix c o.ohfi children s₁) _).isSome = true ↔ _
      cases hres : vitaGetAllChildren posix c o.ohfi children s₁ with
      | none => simp
      | some r =>
        obtain ⟨ret, s₂⟩ := r
        have hr := vitaGetAllChildren_receives posix paths uuid children s₁ s₂ c o ret h₁ hmem
          hofile hres
        simp only [Option.bind_some, Option.isSome_some, iff_true]
        split_ifs with hok
        · rfl
        · have hwok : (writeTrees posix o.path children s₁.fs).ok = false := by
            rw [← Bool.not_eq_true, ← hr.ok]
            exact hok
          obtain ⟨count, -, hdiscard⟩ : ∃ count, _ ∧ discard s₂ c parent
              (newObject s₀.db.ohfiCount parent name 0 DataType.Folder) ret = some (ret, _) :=
            hr.takenOut h₀ hp₀ hblock rfl rfl hwok
          rw [hdiscard]
          rfl

theorem defined_nil : DefinedChildren posix paths uuid [] := by
  intro s c object h hp hfile
  unfold ChildrenComplete
  simp [vitaGetAllChildren]

theorem defined_cons {t : DeviceObject} {ts : List DeviceObject}
    (ht : DefinedTree posix paths uuid t) (hts : DefinedChildren posix paths uuid ts) :
    DefinedChildren posix paths uuid (t :: ts) := by
  intro s c object h hp hfile
  have hmem := WellFormed.mem_of_objects hp
  have hfirst := ht s c object h hmem
  rw [cleared_object posix h hp, hfile] at hfirst
  unfold ChildrenComplete
  rw [← hfirst]
  simp only [vitaGetAllChildren, Option.bind_eq_bind]
  cases hres : vitaGetAllObjects posix c object.ohfi t s with
  | none => simp
  | some r =>
    obtain ⟨ret, s₁⟩ := r
    have hr := vitaGetAllObjects_receives posix paths uuid t s s₁ c object ret h hmem hres
    rw [cleared_object posix h hp, hfile] at hr
    simp only [Option.bind_some, Option.isSome_some, true_and]
    by_cases hok : ret = .OK
    · have hwok := hr.ok.mp hok
      obtain ⟨h₁, hmem₁⟩ := hr.next h hp hwok
      have hrest := hts s₁ c _ h₁ hmem₁ hfile
      rw [if_pos hok, ← hr.fs]
      refine hrest.trans ⟨fun hcomplete _ => hcomplete, fun hcomplete => hcomplete hwok⟩
    · have hwok : ¬ (writeTree posix false object.path t s.fs).ok = true := by
        rw [← hr.ok]
        exact hok
      rw [if_neg hok]
      simp [hwok]

mutual

theorem vitaGetAllObjects_defined (posix : Posix σ) (paths : CmaPaths) (uuid : CString) :
    (t : DeviceObject) → DefinedTree posix paths uuid t
  | .unavailable => defined_unavailable
  | .file name handle size data => defined_file name handle size data
  | .folder name handle children =>
    defined_folder name handle (vitaGetAllChildren_defined posix paths uuid children)

theorem vitaGetAllChildren_defined (posix : Posix σ) (paths : CmaPaths) (uuid : CString) :
    (ts : List DeviceObject) → DefinedChildren posix paths uuid ts
  | [] => defined_nil
  | t :: ts => defined_cons (vitaGetAllObjects_defined posix paths uuid t)
      (vitaGetAllChildren_defined posix paths uuid ts)

end

end defined

end VitaMTP
