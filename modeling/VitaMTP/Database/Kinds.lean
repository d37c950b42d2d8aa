import VitaMTP.Database.Types

/-! Objects that the device may also create below files, which hand on their `File` bit. -/
namespace VitaMTP

/-- As `Typed`, but an entry of a file is a file whatever else it is. -/
structure Kinded (c : Category) (o : CmaObject) : Prop where
  type : o.metadata.type = DirType.REGULAR
  dataType : ∃ bits ∈ [DataType.Folder, DataType.File, DataType.Folder ||| DataType.File],
    o.metadata.dataType = bits ||| c.dataType
  data : ∃ name rootName, o.metadata.data = initialData o.metadata.dataType name rootName

/-- What an object hands on: the kind of its category, perhaps with other bits of an entry. -/
def EntryBits (c : Category) (o : CmaObject) : Prop :=
  ∃ bits ∈ [0, DataType.Folder, DataType.File, DataType.Folder ||| DataType.File],
    o.metadata.dataType = bits ||| c.dataType

def Database.Kinded (db : Database) : Prop := ∀ c, ∀ o ∈ db.objects c, VitaMTP.Kinded c o

theorem Typed.kinded {c : Category} {o : CmaObject} (h : Typed c o) : Kinded c o := by
  refine ⟨h.type, ?_, h.data⟩
  rcases h.dataType with he | he
  · exact ⟨_, by simp, he⟩
  · exact ⟨_, by simp, he⟩

theorem Database.Typed.kinded {db : Database} (h : db.Typed) : db.Kinded :=
  fun c o ho => (h c o ho).kinded

namespace Kinded

variable {c : Category} {o o' : CmaObject}

theorem congr (h : Kinded c o) (ht : o'.metadata.type = o.metadata.type)
    (hd : o'.metadata.dataType = o.metadata.dataType)
    (hdata : o'.metadata.data = o.metadata.data) : Kinded c o' := by
  refine ⟨ht.trans h.type, ?_, ?_⟩
  · rw [hd]
    exact h.dataType
  · rw [hd, hdata]
    exact h.data

theorem entryBits (h : Kinded c o) : EntryBits c o := by
  obtain ⟨bits, hbits, he⟩ := h.dataType
  exact ⟨bits, List.mem_cons_of_mem _ hbits, he⟩

/-- An object is a folder or a file. -/
theorem folder_or_file (h : Kinded c o) : o.isFolder = true ∨ o.isFile = true := by
  obtain ⟨bits, hbits, he⟩ := h.dataType
  unfold CmaObject.isFolder CmaObject.isFile
  rw [he]
  simp only [List.mem_cons, List.not_mem_nil, or_false] at hbits
  rcases hbits with rfl | rfl | rfl <;> cases c <;> decide

end Kinded

/-- A folder or a file below an entry gets its `File` bit, but not its `Folder` bit. -/
theorem newObject_kinded {c : Category} {root : CmaObject} (h : EntryBits c root) {type : Mask}
    (htype : type = DataType.Folder ∨ type = DataType.File) (ohfi : ℤ) (name : CString)
    (size : ULong) : Kinded c (newObject ohfi root name size type) := by
  refine ⟨rfl, ?_, name, root.metadata.name, rfl⟩
  have hdata : (newObject ohfi root name size type).metadata.dataType =
      type ||| (root.metadata.dataType &&& ~~~DataType.Folder) := rfl
  obtain ⟨bits, hbits, he⟩ := h
  rw [hdata, he]
  simp only [List.mem_cons, List.not_mem_nil, or_false] at hbits
  rcases htype with rfl | rfl
  · refine ⟨DataType.Folder ||| (bits &&& DataType.File), ?_, ?_⟩
    · rcases hbits with rfl | rfl | rfl | rfl <;> decide
    · rcases hbits with rfl | rfl | rfl | rfl <;> cases c <;> decide
  · refine ⟨DataType.File, by decide, ?_⟩
    rcases hbits with rfl | rfl | rfl | rfl <;> cases c <;> decide

namespace WellFormed

variable {paths : CmaPaths} {uuid : CString} {db : Database}

theorem entryBits (h : WellFormed paths uuid db) (hk : db.Kinded) {c : Category} {o : CmaObject}
    (ho : o ∈ db.lists c) : EntryBits c o := by
  rcases h.mem_lists.mp ho with ⟨⟨size, handle, hm⟩, -⟩ | hobj
  · refine ⟨0, by simp, ?_⟩
    have hdata : o.metadata.dataType = c.dataType := congrArg (·.metadata.dataType) hm
    rw [hdata]
    exact BitVec.zero_or.symm
  · exact (hk c o hobj).entryBits

theorem kinded_map (hk : db.Kinded) (c : Category) {g : CmaObject → CmaObject}
    (hg : ∀ o ∈ db.objects c, (g o).metadata.type = o.metadata.type ∧
      (g o).metadata.dataType = o.metadata.dataType ∧ (g o).metadata.data = o.metadata.data) :
    (db.setList c ((db.lists c).map g)).Kinded := by
  refine objects_map hk c fun o ho hko => ?_
  obtain ⟨htype, hdataType, hdata⟩ := hg o ho
  exact hko.congr htype hdataType hdata

theorem kinded_unlinked {db' : Database} (hk : db.Kinded) (hlink : db'.unlinked = db.unlinked) :
    db'.Kinded := by
  refine objects_unlinked hlink hk fun c o o' he hko => ?_
  exact hko.congr (congrArg (·.metadata.type) he).symm
    (congrArg (·.metadata.dataType) he).symm (congrArg (·.metadata.data) he).symm

theorem kinded_sizeAdded (hk : db.Kinded) (c : Category) (ohfi : ℤ) (size : ULong) :
    (db.setList c (sizeAdded ohfi size (db.lists c))).Kinded := by
  refine kinded_map hk c fun o _ => ?_
  split <;> exact ⟨rfl, rfl, rfl⟩

theorem kinded_setHandle (hk : db.Kinded) (c : Category) (ohfi : ℤ) (handle : BitVec 32) :
    (db.modify c ohfi (CmaObject.setHandle handle)).Kinded := by
  refine kinded_map hk c fun o _ => ?_
  split <;> exact ⟨rfl, rfl, rfl⟩

theorem kinded_added (h : WellFormed paths uuid db) (hk : db.Kinded) {c : Category}
    {root : CmaObject} (hroot : root ∈ db.lists c) {type : Mask}
    (htype : type = DataType.Folder ∨ type = DataType.File) (name : CString) (size : ULong) :
    (VitaMTP.addToDatabase db c root name size type).1.Kinded := by
  rw [addToDatabase_eq]
  refine h.objects_append hk fun o ho => ?_
  obtain rfl := List.mem_singleton.mp ho
  exact newObject_kinded (h.entryBits hk hroot) htype _ _ _

end WellFormed

/-- A file or folder added under anything, as the device may ask for. -/
def EntryAddition (_ : CmaObject) (type : Mask) : Prop :=
  type = DataType.Folder ∨ type = DataType.File

theorem Operation.kinded {paths : CmaPaths} {uuid : CString} {db db' : Database}
    (hop : Operation EntryAddition db db') (h : WellFormed paths uuid db) (hk : db.Kinded) :
    db'.Kinded := by
  cases hop with
  | add hroot name size type hallowed => exact h.kinded_added hk hroot hallowed name size
  | remove hx hmem hstart hremove =>
    rw [h.removeFromDatabase_eq hx hmem hstart] at hremove
    obtain rfl := Option.some.inj hremove
    exact h.objects_without hk hx
  | @rename _ c x hx name newname hrename =>
    obtain ⟨g, rfl, hg⟩ := h.renameRootEntry_kinds hx hrename
    exact WellFormed.kinded_map hk c hg
  | increment hx size hincrement =>
    rw [h.incrementSizeMetadata_eq hx] at hincrement
    obtain rfl := Option.some.inj hincrement
    exact WellFormed.kinded_sizeAdded hk _ _ _
  | setHandle c ohfi handle => exact WellFormed.kinded_setHandle hk c ohfi handle
  | link hlink => exact WellFormed.kinded_unlinked hk hlink

theorem Reachable.kinded {view : DirView} {n : ℕ} {paths : CmaPaths} {uuid : CString}
    {db : Database} (h : Reachable EntryAddition view n paths uuid db) : db.Kinded := by
  induction h with
  | create h => exact (WellFormed.typed_createDatabase h).kinded
  | step h hop ih => exact hop.kinded h.wellFormed ih

end VitaMTP
