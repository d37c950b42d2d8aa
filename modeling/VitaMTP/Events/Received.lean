import VitaMTP.Database.Parents
import VitaMTP.Events.Receive

/-! What receiving a tree successfully leaves in the database. -/
namespace VitaMTP
open ParentFirst

mutual

def DeviceObject.totalSize : DeviceObject → ULong
  | .unavailable => 0
  | .file _ _ size _ => size
  | .folder _ _ children => childrenSize children

def childrenSize : List DeviceObject → ULong
  | [] => 0
  | t :: ts => t.totalSize + childrenSize ts

end

/-- Whether a tree was written, the bytes of its files up to the first failure, and the file
system behind it. -/
structure Written (σ : Type) where
  ok : Bool
  bytes : ULong
  fs : Disk σ

section disk

variable {σ : Type} (posix : Posix σ)

def writeFile (path : CString) (size : ULong) (data : List Byte) (fs : Disk σ) : Written σ :=
  let (created, fs) := createNewFile posix fs path
  if created then
    let (written, fs) := writeFileFromBuffer posix fs path 0 (data.take size.toNat)
    ⟨written, if written then size else 0, fs⟩
  else ⟨false, 0, fs⟩

mutual

/-- What receiving a tree into `dir` does on disk. A folder below an entry that is a file is
created as a file. -/
def writeTree : Bool → CString → DeviceObject → Disk σ → Written σ
  | _, _, .unavailable, fs => ⟨false, 0, fs⟩
  | _, dir, .file name _ size data, fs => writeFile posix (joinPath dir name) size data fs
  | true, dir, .folder name _ _, fs => ⟨false, 0, (createNewFile posix fs (joinPath dir name)).2⟩
  | false, dir, .folder name _ children, fs =>
    let (created, fs) := createNewDirectory posix fs (joinPath dir name)
    if created then writeTrees (joinPath dir name) children fs else ⟨false, 0, fs⟩

def writeTrees : CString → List DeviceObject → Disk σ → Written σ
  | _, [], fs => ⟨true, 0, fs⟩
  | dir, t :: ts, fs =>
    let first := writeTree false dir t fs
    if first.ok then
      let others := writeTrees dir ts first.fs
      ⟨others.ok, first.bytes + others.bytes, others.fs⟩
    else first

end

end disk

mutual

theorem writeTree_bytes {σ : Type} (posix : Posix σ) (inFile : Bool) (dir : CString) :
    (t : DeviceObject) → (fs : Disk σ) → (writeTree posix inFile dir t fs).ok = true →
    (writeTree posix inFile dir t fs).bytes = t.totalSize
  | .unavailable, fs => by simp [writeTree]
  | .file name handle size data, fs => by
    simp only [writeTree, writeFile, DeviceObject.totalSize]
    split
    · intro hok
      simp only at hok
      rw [hok, if_pos rfl]
    · simp
  | .folder name handle children, fs => by
    cases inFile with
    | true => simp [writeTree]
    | false =>
      simp only [writeTree, DeviceObject.totalSize]
      split
      · exact writeTrees_bytes posix _ children _
      · simp

theorem writeTrees_bytes {σ : Type} (posix : Posix σ) (dir : CString) :
    (ts : List DeviceObject) → (fs : Disk σ) → (writeTrees posix dir ts fs).ok = true →
    (writeTrees posix dir ts fs).bytes = childrenSize ts
  | [], fs => by simp [writeTrees, childrenSize]
  | t :: ts, fs => by
    simp only [writeTrees, childrenSize]
    split
    · rename_i hfirst
      intro hok
      rw [writeTree_bytes posix false dir t fs hfirst, writeTrees_bytes posix dir ts _ hok]
    · rename_i hfirst
      intro hok
      exact absurd hok hfirst

end

mutual

/-- The objects a tree becomes below `root`, the first of them with id `count`. -/
def DeviceObject.nodes : ℤ → CmaObject → DeviceObject → List CmaObject
  | _, _, .unavailable => []
  | count, root, .file name handle size _ =>
    [((newObject count root name 0 DataType.File).setHandle handle).addSize size]
  | count, root, .folder name handle children =>
    let object := (newObject count root name 0 DataType.Folder).setHandle handle
    object.addSize (childrenSize children) :: childNodes (count + 1) object children

def childNodes : ℤ → CmaObject → List DeviceObject → List CmaObject
  | _, _, [] => []
  | count, root, t :: ts =>
    t.nodes count root ++ childNodes (count + (t.nodes count root).length) root ts

end

def DeviceObject.name? : DeviceObject → Option CString
  | .unavailable => none
  | .file name _ _ _ => some name
  | .folder name _ _ => some name

/-- The name, the paths and the types of the parent matter, not its size. -/
theorem nodes_addSize (t : DeviceObject) (count : ℤ) (root : CmaObject) (size : ULong) :
    t.nodes count (root.addSize size) = t.nodes count root := by
  cases t <;> simp only [DeviceObject.nodes] <;> rfl

theorem childNodes_addSize (ts : List DeviceObject) (count : ℤ) (root : CmaObject)
    (size : ULong) : childNodes count (root.addSize size) ts = childNodes count root ts := by
  induction ts generalizing count with
  | nil => simp only [childNodes]
  | cons t ts ih => simp only [childNodes, nodes_addSize, ih]

mutual

theorem nodes_block (count : ℤ) (root : CmaObject) :
    (t : DeviceObject) → NewBlock count root.ohfi (t.nodes count root)
  | .unavailable => by
    unfold DeviceObject.nodes
    exact .nil _ _
  | .file name handle size data => by
    unfold DeviceObject.nodes
    exact .cons rfl rfl ⟨rfl, _, _, rfl, rfl⟩ (.nil _ _)
  | .folder name handle children => by
    unfold DeviceObject.nodes
    exact .cons rfl rfl ⟨rfl, _, _, rfl, rfl⟩ (childNodes_block (count + 1)
      ((newObject count root name 0 DataType.Folder).setHandle handle) children)

theorem childNodes_block (count : ℤ) (root : CmaObject) :
    (ts : List DeviceObject) → NewBlock count root.ohfi (childNodes count root ts)
  | [] => by
    unfold childNodes
    exact .nil _ _
  | t :: ts => by
    unfold childNodes
    exact (nodes_block count root t).append (childNodes_block _ root ts)

end

section related

variable {R : CmaObject → CmaObject → Prop}

mutual

/-- The objects of a tree are related to each other and to the parent. -/
theorem nodes_related (hR : Inherited R) (count : ℤ) (root : CmaObject) : (t : DeviceObject) →
    ∀ o ∈ t.nodes count root, ∃ p ∈ root :: t.nodes count root, p.ohfi = o.ohfiParent ∧ R p o
  | .unavailable => by
    unfold DeviceObject.nodes
    simp
  | .file name handle size data => by
    unfold DeviceObject.nodes
    intro o ho
    obtain rfl := List.mem_singleton.mp ho
    exact ⟨root, by simp, rfl, hR.alike (hR.new ..) (.refl _)
      ((CmaObject.alike_setHandle _ _).trans (CmaObject.alike_addSize _ _))⟩
  | .folder name handle children => by
    unfold DeviceObject.nodes
    intro o ho
    rcases List.mem_cons.mp ho with rfl | ho
    · exact ⟨root, by simp, rfl, hR.alike (hR.new ..) (.refl _)
        ((CmaObject.alike_setHandle _ _).trans (CmaObject.alike_addSize _ _))⟩
    · obtain ⟨p, hp, hpar, hpo⟩ := childNodes_related hR _ _ children o ho
      rcases List.mem_cons.mp hp with rfl | hp
      · exact ⟨_, List.mem_cons_of_mem _ (List.mem_cons_self ..), hpar,
          hR.alike hpo (CmaObject.alike_addSize _ _) (.refl _)⟩
      · exact ⟨p, List.mem_cons_of_mem _ (List.mem_cons_of_mem _ hp), hpar, hpo⟩

theorem childNodes_related (hR : Inherited R) (count : ℤ) (root : CmaObject) :
    (ts : List DeviceObject) → ∀ o ∈ childNodes count root ts,
    ∃ p ∈ root :: childNodes count root ts, p.ohfi = o.ohfiParent ∧ R p o
  | [] => by
    unfold childNodes
    simp
  | t :: ts => by
    unfold childNodes
    intro o ho
    rcases List.mem_append.mp ho with ho | ho
    · obtain ⟨p, hp, hpar, hpo⟩ := nodes_related hR count root t o ho
      refine ⟨p, ?_, hpar, hpo⟩
      rcases List.mem_cons.mp hp with rfl | hp
      · simp
      · exact List.mem_cons_of_mem _ (List.mem_append_left _ hp)
    · obtain ⟨p, hp, hpar, hpo⟩ := childNodes_related hR _ root ts o ho
      refine ⟨p, ?_, hpar, hpo⟩
      rcases List.mem_cons.mp hp with rfl | hp
      · simp
      · exact List.mem_cons_of_mem _ (List.mem_append_right _ hp)

end

end related

/-- The host after the object found under the name of the received root was deleted. -/
noncomputable def cleared {σ : Type} (posix : Posix σ) (s : Host σ) (parent : ℤ)
    (name : Option CString) : Host σ :=
  match name.bind fun name => pathToObject s.db name parent with
  | none => s
  | some (d, temp) =>
    { db := s.db.setList d (withoutNodes temp.ohfi (s.db.lists d))
      fs := deleteAll posix s.fs temp.path }

section receive

variable {σ : Type} {posix : Posix σ} {paths : CmaPaths} {uuid : CString} {s s' : Host σ}
  {c : Category} {parent : CmaObject}

theorem cleared_object (posix : Posix σ) (h : WellFormed paths uuid s.db)
    (hp : parent ∈ s.db.objects c)
    (name : Option CString) : cleared posix s parent.ohfi name = s := by
  have hfind (name : CString) : pathToObject s.db name parent.ohfi = none := by
    refine h.pathToObject_object name ?_ fun d he => h.ohfi_ne_master hp he.symm
    have := h.ohfi_pos (WellFormed.mem_of_objects hp)
    omega
  unfold cleared
  cases name with
  | none => rfl
  | some name => rw [Option.bind_some, hfind]

/-- Where something is found, the parent is a category and the object is in its list. -/
theorem cleared_cases (posix : Posix σ) (h : WellFormed paths uuid s.db)
    (hp : parent ∈ s.db.lists c)
    (name : CString) :
    (pathToObject s.db name parent.ohfi = none ∧
      cleared posix s parent.ohfi (some name) = s) ∨
    ∃ temp ∈ s.db.objects c, IsMaster paths uuid c parent ∧
      pathToObject s.db name parent.ohfi = some (c, temp) ∧
      cleared posix s parent.ohfi (some name) =
        { db := s.db.setList c (withoutNodes temp.ohfi (s.db.lists c))
          fs := deleteAll posix s.fs temp.path } := by
  rcases h.mem_lists.mp hp with ⟨hm, -⟩ | hobj
  · have hfind := h.pathToObject_category name c
    rw [← hm.ohfi] at hfind
    unfold cleared
    rw [Option.bind_some]
    cases hf : (s.db.objects c).find? (fun o => o.metadata.path == some name) with
    | none =>
      rw [hf, Option.map_none] at hfind
      rw [hfind]
      exact Or.inl ⟨rfl, rfl⟩
    | some temp =>
      rw [hf, Option.map_some] at hfind
      rw [hfind]
      exact Or.inr ⟨temp, List.mem_of_find?_eq_some hf, hm, rfl, rfl⟩
  · refine Or.inl ⟨?_, cleared_object posix h hobj (some name)⟩
    refine h.pathToObject_object name ?_ fun d he => h.ohfi_ne_master hobj he.symm
    have := h.ohfi_pos hp
    omega

theorem cleared_wellFormed (posix : Posix σ) (h : WellFormed paths uuid s.db)
    (hp : parent ∈ s.db.lists c)
    (name : Option CString) : WellFormed paths uuid (cleared posix s parent.ohfi name).db := by
  cases name with
  | none => exact h
  | some name =>
    rcases cleared_cases posix h hp name with ⟨-, he⟩ | ⟨temp, htemp, -, -, he⟩
    · rw [he]
      exact h
    · rw [he]
      exact h.without htemp

theorem cleared_ohfiCount (posix : Posix σ) (h : WellFormed paths uuid s.db)
    (hp : parent ∈ s.db.lists c)
    (name : Option CString) :
    (cleared posix s parent.ohfi name).db.ohfiCount = s.db.ohfiCount := by
  cases name with
  | none => rfl
  | some name =>
    rcases cleared_cases posix h hp name with ⟨-, he⟩ | ⟨temp, htemp, -, -, he⟩
    · rw [he]
    · rw [he]
      rfl

theorem cleared_parent (posix : Posix σ) (h : WellFormed paths uuid s.db)
    (hp : parent ∈ s.db.lists c)
    (name : Option CString) : parent ∈ (cleared posix s parent.ohfi name).db.lists c := by
  cases name with
  | none => exact hp
  | some name =>
    rcases cleared_cases posix h hp name with ⟨-, he⟩ | ⟨temp, htemp, hm, -, he⟩
    · rw [he]
      exact hp
    · rw [he]
      simp only [Database.setList_lists_self]
      refine mem_without.mpr ⟨hp, ?_⟩
      rw [hm.ohfi]
      exact h.not_below_master (h.objects c temp htemp).first

theorem pathToObject_append (h : WellFormed paths uuid s.db) (hp : parent ∈ s.db.lists c)
    {o : CmaObject} (h' : WellFormed paths uuid (s.db.append c [o])) (name : CString) :
    pathToObject (s.db.append c [o]) name parent.ohfi = pathToObject s.db name parent.ohfi ∨
      pathToObject s.db name parent.ohfi = none ∧
        pathToObject (s.db.append c [o]) name parent.ohfi = some (c, o) := by
  rcases h.mem_lists.mp hp with ⟨hm, -⟩ | hobj
  · obtain ⟨m, hlist, -⟩ := h.master c
    have hobjects : (s.db.append c [o]).objects c = s.db.objects c ++ [o] := by
      rw [Database.objects, Database.append_lists_self, hlist]
      rfl
    rw [hm.ohfi, h'.pathToObject_category, h.pathToObject_category, hobjects, List.find?_append]
    cases hf : (s.db.objects c).find? (fun o => o.metadata.path == some name) with
    | some temp => exact Or.inl rfl
    | none =>
      rw [Option.none_or, List.find?_singleton]
      split
      · exact Or.inr ⟨rfl, rfl⟩
      · exact Or.inl rfl
  · left
    have hpos := h.ohfi_pos hp
    have hne : ∀ d : Category, d.ohfi ≠ parent.ohfi := fun d he => h.ohfi_ne_master hobj he.symm
    rw [h'.pathToObject_object name (by omega) hne, h.pathToObject_object name (by omega) hne]

theorem newObject_block (count : ℤ) (root : CmaObject) (name : CString) (handle : BitVec 32)
    (type : Mask) :
    NewBlock count root.ohfi [(newObject count root name 0 type).setHandle handle] :=
  .cons rfl rfl ⟨rfl, _, _, rfl, rfl⟩ (.nil _ _)

/-- The new object is added, and what is found under its name is deleted. -/
theorem addReceived_eq (h : WellFormed paths uuid s.db) (hp : parent ∈ s.db.lists c)
    (name : CString) (handle : BitVec 32) (type : Mask) :
    addReceived posix s c parent name handle type =
      some ({ db := (cleared posix s parent.ohfi (some name)).db.grown c parent.ohfi 0
                [(newObject s.db.ohfiCount parent name 0 type).setHandle handle]
                (s.db.ohfiCount + 1)
              fs := (cleared posix s parent.ohfi (some name)).fs },
        newObject s.db.ohfiCount parent name 0 type) := by
  have hblock := newObject_block s.db.ohfiCount parent name handle type
  generalize hobject : newObject s.db.ohfiCount parent name 0 type = object at hblock ⊢
  have hid : object.ohfi = s.db.ohfiCount := hblock.numbered.1
  have hparent : object.ohfiParent = parent.ohfi := by
    subst hobject
    rfl
  have hfresh : ∀ y ∈ s.db.lists c, y.ohfi ≠ object.ohfi := by
    intro y hy
    have := h.counted_list c y hy
    omega
  have hadd : (addToDatabase s.db c parent name 0 type).1.modify c object.ohfi
      (CmaObject.setHandle handle) = s.db.append c [object.setHandle handle] := by
    rw [addToDatabase_eq, hobject, Database.append_modify _ _ _ _ _ hfresh]
    simp
  have h' : WellFormed paths uuid (s.db.append c [object.setHandle handle]) := by
    refine h.append hblock.numbered hblock.fresh hblock.rooted ?_
    simpa using ⟨parent, hp, rfl⟩
  have hsecond : (addToDatabase s.db c parent name 0 type).2 = object := hobject
  have hgrown (db : Database) (hcount : db.ohfiCount = s.db.ohfiCount) :
      db.append c [object.setHandle handle] =
        db.grown c parent.ohfi 0 [object.setHandle handle] (s.db.ohfiCount + 1) :=
    hcount ▸ db.append_eq_grown c parent.ohfi _
  unfold addReceived
  simp only [hsecond, hadd]
  rcases cleared_cases posix h hp name with ⟨hnone, hs⟩ | ⟨temp, htemp, hm, hfound, hs⟩
  · rw [hs, ← hgrown s.db rfl]
    rcases pathToObject_append h hp h' name with he | ⟨-, he⟩
    · rw [he, hnone]
    · rw [he]
      simp [CmaObject.setHandle]
  · have hne : temp.ohfi ≠ object.ohfi := hfresh temp (WellFormed.mem_of_objects htemp)
    have hfind : pathToObject (s.db.append c [object.setHandle handle]) name parent.ohfi =
        some (c, temp) := by
      rcases pathToObject_append h hp h' name with he | ⟨hnone, -⟩
      · rw [he, hfound]
      · rw [hfound] at hnone
        simp at hnone
    have hremove : removeFromDatabase (s.db.append c [object.setHandle handle]) temp.ohfi
        (some (c, parent)) = some ((s.db.setList c
          (withoutNodes temp.ohfi (s.db.lists c))).append c [object.setHandle handle]) := by
      have hord := h'.ordered c
      rw [Database.append_lists_self] at hord
      have htemp' : temp ∈ (s.db.append c [object.setHandle handle]).objects c := by
        obtain ⟨m, hlist, -⟩ := h.master c
        rw [Database.objects, Database.append_lists_self, hlist]
        exact List.mem_append_left _ htemp
      have hnot : ¬ NodesBelow (s.db.lists c) temp.ohfi (object.setHandle handle).ohfiParent := by
        rw [show (object.setHandle handle).ohfiParent = c.ohfi from hparent.trans hm.ohfi]
        exact h.not_below_master (h.objects c temp htemp).first
      have hmem : (object.setHandle handle).ohfiParent ∈ (s.db.lists c).map CmaObject.ohfi :=
        hparent ▸ List.mem_map_of_mem hp
      have hpm : parent ∈ (s.db.append c [object.setHandle handle]).lists c := by
        simp [hp]
      rw [h'.removeFromDatabase_eq htemp' hpm (Or.inr hm.ohfi), Database.append_lists_self,
        withoutNodes, without_concat hord hmem hne hnot]
      simp [Database.append, Database.setList]
    rw [hfind]
    simp only [hne, and_false, if_false, hremove, Option.bind_eq_bind, Option.bind_some]
    rw [hs, hgrown (s.db.setList c _) rfl]

/-- What a call leaves behind. `w` is what it does on disk, `os` are the objects of what it
receives, and a failure may leave some of them to the caller. -/
structure Receives (db : Database) (c : Category) (root : ℤ) (w : Written σ)
    (os : List CmaObject) (left : List CmaObject → Prop) (ret : ResultCode) (s' : Host σ) :
    Prop where
  fs : s'.fs = w.fs
  ok : ret = .OK ↔ w.ok = true
  done : w.ok = true → s'.db = db.grown c root w.bytes os (db.ohfiCount + os.length)
  failed : w.ok = false → ∃ rest count, left rest ∧ db.ohfiCount + rest.length ≤ count ∧
    s'.db = db.grown c root w.bytes rest count

theorem newObject_isFile (count : ℤ) (root : CmaObject) (name : CString) (size : ULong) :
    (newObject count root name size DataType.Folder).isFile = root.isFile := by
  have hmask : (DataType.Folder ||| (root.metadata.dataType &&& ~~~DataType.Folder)) &&&
      DataType.File = root.metadata.dataType &&& DataType.File := by
    have h₁ : DataType.Folder &&& DataType.File = 0 := by decide
    have h₂ : ~~~DataType.Folder &&& DataType.File = DataType.File := by decide
    rw [BitVec.and_or_distrib_right, BitVec.and_assoc, h₁, h₂]
    simp
  unfold CmaObject.isFile
  exact congrArg (· != 0) hmask

/-- An object that does not get its file or directory is taken out again. -/
theorem discard_eq {db : Database} (h : WellFormed paths uuid db) (hp : parent ∈ db.lists c)
    {o object : CmaObject} {os : List CmaObject} (hid : object.ohfi = o.ohfi)
    (hparent : o.ohfiParent = parent.ohfi) (hos : NewBlock db.ohfiCount parent.ohfi (o :: os))
    (hbelow : Rooted CmaObject.ohfi CmaObject.ohfiParent [o.ohfi] os) {count : ℤ}
    (hcount : db.ohfiCount + (o :: os).length ≤ count) (bytes : ULong) (fs : Disk σ)
    (code : ResultCode) :
    discard { db := db.grown c parent.ohfi bytes (o :: os) count, fs := fs } c parent object code =
      some (code, { db := db.grown c parent.ohfi bytes [] count, fs := fs }) := by
  unfold discard
  simp only [hid, h.grown_discard hp hparent hos hbelow hcount bytes rfl, Option.bind_eq_bind,
    Option.bind_some]

theorem discard_new {db : Database} (h : WellFormed paths uuid db) (hp : parent ∈ db.lists c)
    (name : CString) (handle : BitVec 32) (type : Mask) (fs : Disk σ) (code : ResultCode) :
    discard { db := db.grown c parent.ohfi 0
                [(newObject db.ohfiCount parent name 0 type).setHandle handle] (db.ohfiCount + 1)
              fs := fs } c parent (newObject db.ohfiCount parent name 0 type) code =
      some (code, { db := db.grown c parent.ohfi 0 [] (db.ohfiCount + 1), fs := fs }) :=
  discard_eq h hp rfl rfl (newObject_block ..) trivial le_rfl 0 fs code

theorem increment_new {db : Database} (h : WellFormed paths uuid db) (hp : parent ∈ db.lists c)
    (name : CString) (handle : BitVec 32) (type : Mask) (size : ULong) :
    incrementSizeMetadata (db.grown c parent.ohfi 0
        [(newObject db.ohfiCount parent name 0 type).setHandle handle] (db.ohfiCount + 1))
      (c, newObject db.ohfiCount parent name 0 type) size =
      some (db.grown c parent.ohfi size
        [((newObject db.ohfiCount parent name 0 type).setHandle handle).addSize size]
        (db.ohfiCount + 1)) := by
  have hblock := newObject_block db.ohfiCount parent name handle type
  have hmem : (newObject db.ohfiCount parent name 0 type).setHandle handle ∈
      (db.grown c parent.ohfi 0 [(newObject db.ohfiCount parent name 0 type).setHandle handle]
        (db.ohfiCount + 1)).lists c := by
    simp
  have hincrement := (h.grown hp hblock le_rfl 0).incrementSizeMetadata_eq hmem size
  rw [← h.grown_inside hp hblock rfl le_rfl size [] _]
  refine hincrement.trans ?_
  simp [Database.grown, Database.setList]

theorem Receives.discarded {db : Database} {root count : ℤ} {bytes : ULong} {fs : Disk σ}
    {os : List CmaObject} {code : ResultCode} (hcode : code ≠ .OK)
    (hcount : db.ohfiCount ≤ count) :
    Receives db c root ⟨false, bytes, fs⟩ os (· = []) code
      { db := db.grown c root bytes [] count, fs := fs } :=
  ⟨rfl, by simp [hcode], by simp, fun _ => ⟨[], count, rfl, by simpa using hcount, rfl⟩⟩

/-- A new folder whose children could not all be received is taken out with what it holds. -/
theorem Receives.takenOut {db : Database} (h : WellFormed paths uuid db) (hp : parent ∈ db.lists c)
    {o object : CmaObject} {w : Written σ} {os : List CmaObject} {s₁ : Host σ} {ret₁ : ResultCode}
    (hr : Receives (db.grown c parent.ohfi 0 [o] (db.ohfiCount + 1)) c o.ohfi w os
      (NewBlock (db.ohfiCount + 1) o.ohfi) ret₁ s₁)
    (hblock : NewBlock db.ohfiCount parent.ohfi [o]) (hparent : o.ohfiParent = parent.ohfi)
    (hid : object.ohfi = o.ohfi) (hfails : w.ok = false) :
    ∃ count, db.ohfiCount ≤ count ∧ discard s₁ c parent object ret₁ =
      some (ret₁, { db := db.grown c parent.ohfi w.bytes [] count, fs := w.fs }) := by
  obtain ⟨rest, count, hrest, hle, hdb⟩ := hr.failed hfails
  rw [h.grown_inside hp hblock hparent le_rfl] at hdb
  rw [Database.grown_ohfiCount] at hle
  have hall : NewBlock db.ohfiCount parent.ohfi (o.addSize w.bytes :: rest) := by
    have hnum := hblock.numbered.1
    exact .cons hnum hparent (hblock.fresh o (by simp)) (hnum ▸ hrest)
  have hs₁ : s₁ = { db := db.grown c parent.ohfi w.bytes (o.addSize w.bytes :: rest) count
                    fs := w.fs } := by
    cases s₁
    cases hr.fs
    cases hdb
    rfl
  have hcount : db.ohfiCount + (o.addSize w.bytes :: rest).length ≤ count := by
    simp only [List.length_cons]
    omega
  refine ⟨count, by omega, ?_⟩
  rw [hs₁, discard_eq h hp (o := o.addSize w.bytes) hid hparent hall hrest.rooted hcount]

theorem Receives.within {db : Database} (h : WellFormed paths uuid db) (hp : parent ∈ db.lists c)
    {o object : CmaObject} {w : Written σ} {os : List CmaObject} {s₁ : Host σ}
    {ret₁ ret : ResultCode} {total : ULong}
    (hr : Receives (db.grown c parent.ohfi 0 [o] (db.ohfiCount + 1)) c o.ohfi w os
      (NewBlock (db.ohfiCount + 1) o.ohfi) ret₁ s₁)
    (hblock : NewBlock db.ohfiCount parent.ohfi [o]) (hparent : o.ohfiParent = parent.ohfi)
    (hid : object.ohfi = o.ohfi) (htotal : w.ok = true → w.bytes = total)
    (hres : (if ret₁ = .OK then some (.OK, s₁) else discard s₁ c parent object ret₁) =
      some (ret, s')) :
    Receives db c parent.ohfi w (o.addSize total :: os) (· = []) ret s' := by
  split_ifs at hres with hok
  · have hwok := hr.ok.mp hok
    simp only [Option.some.injEq, Prod.mk.injEq] at hres
    obtain ⟨rfl, rfl⟩ := hres
    refine ⟨hr.fs, by simp [hwok], fun _ => ?_, by simp [hwok]⟩
    rw [hr.done hwok, h.grown_inside hp hblock hparent le_rfl, htotal hwok]
    congr 1
    simp only [Database.grown_ohfiCount, List.length_cons]
    omega
  · have hwok : w.ok = false := by
      rw [← Bool.not_eq_true, ← hr.ok]
      exact hok
    obtain ⟨count, hcount, hdiscard⟩ := hr.takenOut h hp hblock hparent hid hwok
    rw [hdiscard, Option.some.injEq, Prod.mk.injEq] at hres
    obtain ⟨rfl, rfl⟩ := hres
    exact ⟨rfl, by simp [hok, hwok], by simp [hwok],
      fun _ => ⟨[], count, rfl, by simpa using hcount, rfl⟩⟩

/-- On disk a call does what `writeTree` does; in the database it adds the objects of the tree
if that succeeds, and only the sizes of what was written if not. -/
def ReceivesTree (posix : Posix σ) (paths : CmaPaths) (uuid : CString) (t : DeviceObject) : Prop :=
  ∀ (s s' : Host σ) (c : Category) (parent : CmaObject) (ret : ResultCode),
    WellFormed paths uuid s.db → parent ∈ s.db.lists c →
    vitaGetAllObjects posix c parent.ohfi t s = some (ret, s') →
    Receives (cleared posix s parent.ohfi t.name?).db c parent.ohfi
      (writeTree posix parent.isFile parent.path t (cleared posix s parent.ohfi t.name?).fs)
      (t.nodes s.db.ohfiCount parent) (· = []) ret s'

/-- The loop over the handles; a failure leaves what it received to the caller. -/
def ReceivesChildren (posix : Posix σ) (paths : CmaPaths) (uuid : CString)
    (ts : List DeviceObject) : Prop :=
  ∀ (s s' : Host σ) (c : Category) (object : CmaObject) (ret : ResultCode),
    WellFormed paths uuid s.db → object ∈ s.db.objects c → object.isFile = false →
    vitaGetAllChildren posix c object.ohfi ts s = some (ret, s') →
    Receives s.db c object.ohfi (writeTrees posix object.path ts s.fs)
      (childNodes s.db.ohfiCount object ts) (NewBlock s.db.ohfiCount object.ohfi) ret s'

theorem receives_unavailable : ReceivesTree posix paths uuid .unavailable := by
  intro s s' c parent ret h hp hres
  simp only [vitaGetAllObjects, Option.some.injEq, Prod.mk.injEq] at hres
  obtain ⟨rfl, rfl⟩ := hres
  unfold writeTree
  refine ⟨rfl, by simp, by simp, fun _ => ⟨[], s.db.ohfiCount, rfl, ?_, ?_⟩⟩
  · exact (Int.add_zero _).le
  · exact (Database.grown_zero s.db c parent.ohfi).symm

theorem receives_file (name : CString) (handle : BitVec 32) (size : ULong) (data : List Byte) :
    ReceivesTree posix paths uuid (.file name handle size data) := by
  intro s s' c parent ret h hp hres
  have h₀ := cleared_wellFormed posix h hp (some name)
  have hp₀ := cleared_parent posix h hp (some name)
  have hcount := cleared_ohfiCount posix h hp (some name)
  simp only [vitaGetAllObjects, h.get?_eq hp, addReceived_eq h hp, Option.bind_eq_bind,
    Option.bind_some] at hres
  simp only [DeviceObject.name?, writeTree, DeviceObject.nodes]
  generalize cleared posix s parent.ohfi (some name) = s₀ at hres h₀ hp₀ hcount ⊢
  rw [← hcount] at hres ⊢
  have hblock := newObject_block s₀.db.ohfiCount parent name handle DataType.File
  have hpath : (newObject s₀.db.ohfiCount parent name 0 DataType.File).path =
      joinPath parent.path name := rfl
  unfold receiveFile at hres
  unfold writeFile
  simp only [hpath, discard_new h₀ hp₀] at hres
  cases hcreated : (createNewFile posix s₀.fs (joinPath parent.path name)).1 with
  | false =>
    simp only [hcreated, Bool.false_eq_true, if_false, Option.some.injEq, Prod.mk.injEq] at hres ⊢
    obtain ⟨rfl, rfl⟩ := hres
    exact .discarded (by simp) (by omega)
  | true =>
    simp only [hcreated, if_true] at hres ⊢
    split_ifs at hres with hshort hwritten
    · rw [increment_new h₀ hp₀, Option.bind_eq_bind, Option.bind_some, Option.some.injEq,
        Prod.mk.injEq] at hres
      obtain ⟨rfl, rfl⟩ := hres
      rw [hwritten]
      exact ⟨rfl, by simp, fun _ => rfl, by simp⟩
    · rw [Option.some.injEq, Prod.mk.injEq] at hres
      obtain ⟨rfl, rfl⟩ := hres
      rw [Bool.not_eq_true] at hwritten
      rw [hwritten]
      exact .discarded (by simp) (by omega)

theorem receives_folder (name : CString) (handle : BitVec 32) {children : List DeviceObject}
    (ih : ReceivesChildren posix paths uuid children) :
    ReceivesTree posix paths uuid (.folder name handle children) := by
  intro s s' c parent ret h hp hres
  have h₀ := cleared_wellFormed posix h hp (some name)
  have hp₀ := cleared_parent posix h hp (some name)
  have hcount := cleared_ohfiCount posix h hp (some name)
  simp only [vitaGetAllObjects, h.get?_eq hp, addReceived_eq h hp, Option.bind_eq_bind,
    Option.bind_some] at hres
  simp only [DeviceObject.name?, DeviceObject.nodes]
  generalize cleared posix s parent.ohfi (some name) = s₀ at hres h₀ hp₀ hcount ⊢
  rw [← hcount] at hres ⊢
  have hblock := newObject_block s₀.db.ohfiCount parent name handle DataType.Folder
  have hpath : (newObject s₀.db.ohfiCount parent name 0 DataType.Folder).path =
      joinPath parent.path name := rfl
  simp only [hpath, newObject_isFile, discard_new h₀ hp₀] at hres
  cases hfile : parent.isFile with
  | true =>
    unfold writeTree
    simp only [hfile, if_true] at hres
    split_ifs at hres
    simp only [Option.some.injEq, Prod.mk.injEq] at hres
    obtain ⟨rfl, rfl⟩ := hres
    exact .discarded (by simp) (by omega)
  | false =>
    unfold writeTree
    simp only [hfile, Bool.false_eq_true, if_false] at hres
    cases hcreated : (createNewDirectory posix s₀.fs (joinPath parent.path name)).1 with
    | false =>
      simp only [hcreated, Bool.false_eq_true, if_false, Option.some.injEq, Prod.mk.injEq]
        at hres ⊢
      obtain ⟨rfl, rfl⟩ := hres
      exact .discarded (by simp) (by omega)
    | true =>
      simp only [hcreated, if_true, Option.bind_eq_some_iff, Prod.exists] at hres ⊢
      obtain ⟨ret₁, s₁, hchildren, hres⟩ := hres
      have h₁ := h₀.grown hp₀ hblock le_rfl 0
      let o := (newObject s₀.db.ohfiCount parent name 0 DataType.Folder).setHandle handle
      have hmem := h₀.mem_grown (List.mem_singleton_self o) c parent.ohfi 0 (s₀.db.ohfiCount + 1)
      have hofile : o.isFile = false :=
        (newObject_isFile s₀.db.ohfiCount parent name 0).trans hfile
      have hr := ih _ s₁ c o ret₁ h₁ hmem hofile hchildren
      exact hr.within h₀ hp₀ hblock rfl rfl (writeTrees_bytes posix _ children _) hres

theorem receives_nil : ReceivesChildren posix paths uuid [] := by
  intro s s' c object ret h hp hfile hres
  simp only [vitaGetAllChildren, Option.some.injEq, Prod.mk.injEq] at hres
  obtain ⟨rfl, rfl⟩ := hres
  unfold writeTrees childNodes
  refine ⟨rfl, by simp, fun _ => ?_, by simp⟩
  simpa using (Database.grown_zero s.db c object.ohfi).symm

/-- After a child was received the next one is received below the same object. -/
theorem Receives.next (h : WellFormed paths uuid s.db) {object : CmaObject}
    (hp : object ∈ s.db.objects c) {t : DeviceObject} {w : Written σ}
    {left : List CmaObject → Prop} {ret : ResultCode}
    (hr : Receives s.db c object.ohfi w (t.nodes s.db.ohfiCount object) left ret s')
    (hok : w.ok = true) :
    WellFormed paths uuid s'.db ∧ object.addSize w.bytes ∈ s'.db.objects c := by
  rw [hr.done hok]
  constructor
  · exact h.grown (WellFormed.mem_of_objects hp) (nodes_block s.db.ohfiCount object t) le_rfl _
  · exact h.mem_objects_grown hp ..

theorem receives_cons {t : DeviceObject} {ts : List DeviceObject}
    (ht : ReceivesTree posix paths uuid t) (hts : ReceivesChildren posix paths uuid ts) :
    ReceivesChildren posix paths uuid (t :: ts) := by
  intro s s' c object ret h hp hfile hres
  have hmem := WellFormed.mem_of_objects hp
  simp only [vitaGetAllChildren, Option.bind_eq_bind, Option.bind_eq_some_iff, Prod.exists] at hres
  obtain ⟨ret₁, s₁, hfirst, hres⟩ := hres
  have hr := ht s s₁ c object ret₁ h hmem hfirst
  rw [cleared_object posix h hp, hfile] at hr
  simp only [writeTrees, childNodes]
  split_ifs at hres with hok
  · have hwok := hr.ok.mp hok
    rw [if_pos hwok]
    have hdone := hr.done hwok
    generalize writeTree posix false object.path t s.fs = w₁ at hr hwok hdone ⊢
    have hblock := nodes_block s.db.ohfiCount object t
    obtain ⟨h₁, hmem₁⟩ := hr.next h hp hwok
    have hr₂ := hts s₁ s' c (object.addSize w₁.bytes) ret h₁ hmem₁ hfile hres
    have htwice := h.grown_grown (c := c) hmem hblock le_rfl w₁.bytes
    rw [childNodes_addSize, hr.fs] at hr₂
    simp only [CmaObject.addSize_ohfi, hdone, Database.grown_ohfiCount] at hr₂
    refine ⟨hr₂.fs, hr₂.ok, fun hw => ?_, fun hw => ?_⟩
    · rw [hr₂.done hw, htwice, Database.grown_ohfiCount, List.length_append, add_assoc]
      rfl
    · obtain ⟨rest, count, hrest, hle, hdb⟩ := hr₂.failed hw
      rw [htwice] at hdb
      refine ⟨_, count, hblock.append hrest, ?_, hdb⟩
      rw [Database.grown_ohfiCount] at hle
      rw [List.length_append]
      omega
  · have hwok : ¬ (writeTree posix false object.path t s.fs).ok = true := by
      rw [← hr.ok]
      exact hok
    simp only [Option.some.injEq, Prod.mk.injEq] at hres
    obtain ⟨rfl, rfl⟩ := hres
    rw [if_neg hwok]
    refine ⟨hr.fs, hr.ok, fun hw => absurd hw hwok, fun hw => ?_⟩
    obtain ⟨rest, count, rfl, hle, hdb⟩ := hr.failed hw
    exact ⟨[], count, .nil _ _, hle, hdb⟩

mutual

theorem vitaGetAllObjects_receives (posix : Posix σ) (paths : CmaPaths) (uuid : CString) :
    (t : DeviceObject) → ReceivesTree posix paths uuid t
  | .unavailable => receives_unavailable
  | .file name handle size data => receives_file name handle size data
  | .folder name handle children =>
    receives_folder name handle (vitaGetAllChildren_receives posix paths uuid children)

theorem vitaGetAllChildren_receives (posix : Posix σ) (paths : CmaPaths) (uuid : CString) :
    (ts : List DeviceObject) → ReceivesChildren posix paths uuid ts
  | [] => receives_nil
  | t :: ts => receives_cons (vitaGetAllObjects_receives posix paths uuid t)
      (vitaGetAllChildren_receives posix paths uuid ts)

end

/-- What a call leaves is the cleared database with a block of new objects. -/
theorem vitaGetAllObjects_grown (h : WellFormed paths uuid s.db) (hp : parent ∈ s.db.lists c)
    {t : DeviceObject} {ret : ResultCode}
    (hres : vitaGetAllObjects posix c parent.ohfi t s = some (ret, s')) :
    ∃ bytes os count, (os = [] ∨ os = t.nodes s.db.ohfiCount parent) ∧
      s.db.ohfiCount + os.length ≤ count ∧
      s'.db = (cleared posix s parent.ohfi t.name?).db.grown c parent.ohfi bytes os count := by
  have hr := vitaGetAllObjects_receives posix paths uuid t s s' c parent ret h hp hres
  have hcount := cleared_ohfiCount posix h hp t.name?
  cases hw : (writeTree posix parent.isFile parent.path t
      (cleared posix s parent.ohfi t.name?).fs).ok with
  | true => exact ⟨_, _, _, Or.inr rfl, by omega, hr.done hw⟩
  | false =>
    obtain ⟨rest, count, rfl, hle, hdb⟩ := hr.failed hw
    exact ⟨_, _, _, Or.inl rfl, by omega, hdb⟩

theorem vitaGetAllObjects_wellFormed (h : WellFormed paths uuid s.db) (hp : parent ∈ s.db.lists c)
    {t : DeviceObject} {ret : ResultCode}
    (hres : vitaGetAllObjects posix c parent.ohfi t s = some (ret, s')) :
    WellFormed paths uuid s'.db := by
  obtain ⟨bytes, os, count, hos, hle, hdb⟩ := vitaGetAllObjects_grown h hp hres
  have hcount := cleared_ohfiCount posix h hp t.name?
  have hblock : NewBlock (cleared posix s parent.ohfi t.name?).db.ohfiCount parent.ohfi os := by
    rw [hcount]
    rcases hos with rfl | rfl
    · exact .nil _ _
    · exact nodes_block _ parent t
  rw [hdb]
  exact (cleared_wellFormed posix h hp _).grown (cleared_parent posix h hp _) hblock
    (by omega) bytes

theorem cleared_related {R : CmaObject → CmaObject → Prop} (h : WellFormed paths uuid s.db)
    (hr : s.db.Related R) (hp : parent ∈ s.db.lists c) (name : Option CString) :
    (cleared posix s parent.ohfi name).db.Related R := by
  cases name with
  | none => exact hr
  | some name =>
    rcases cleared_cases posix h hp name with ⟨-, he⟩ | ⟨temp, htemp, -, -, he⟩
    · rw [he]
      exact hr
    · rw [he]
      exact h.related_without hr htemp

theorem vitaGetAllObjects_related {R : CmaObject → CmaObject → Prop} (hR : Inherited R)
    (h : WellFormed paths uuid s.db) (hr : s.db.Related R) (hp : parent ∈ s.db.lists c)
    {t : DeviceObject} {ret : ResultCode}
    (hres : vitaGetAllObjects posix c parent.ohfi t s = some (ret, s')) : s'.db.Related R := by
  obtain ⟨bytes, os, count, hos, hle, hdb⟩ := vitaGetAllObjects_grown h hp hres
  have hcount := cleared_ohfiCount posix h hp t.name?
  have hnew : NewBlock (cleared posix s parent.ohfi t.name?).db.ohfiCount parent.ohfi os ∧
      ∀ o ∈ os, ∃ p ∈ parent :: os, p.ohfi = o.ohfiParent ∧ R p o := by
    rw [hcount]
    rcases hos with rfl | rfl
    · exact ⟨.nil _ _, by simp⟩
    · exact ⟨nodes_block _ parent t, nodes_related hR _ parent t⟩
  rw [hdb]
  exact (cleared_wellFormed posix h hp _).related_grown (cleared_related h hr hp _) hR
    (cleared_parent posix h hp _) hnew.1 bytes hnew.2

end receive

end VitaMTP
