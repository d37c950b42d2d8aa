import VitaMTP.Events.Operate

/-! Receiving objects from the device: `GetTreatObject` and `GetPartOfObject`. -/
namespace VitaMTP

/-- An object of the device as the `VitaMTP_GetObject` of its handle shows it. `size` is the
`ObjectSize` property. A handle whose transactions fail is `unavailable`. -/
inductive DeviceObject
  | unavailable
  | file (name : CString) (handle : BitVec 32) (size : ULong) (data : List Byte)
  | folder (name : CString) (handle : BitVec 32) (children : List DeviceObject)

/-- `send_part_init_t` and the data that comes with it. -/
structure PartOfObject where
  ohfi : BitVec 32
  offset : ULong
  size : ULong
  data : List Byte
  deriving DecidableEq, Repr

section handlers

variable {σ : Type} (posix : Posix σ)

/-- Adds the received object below `parent` and deletes what is found under its name. -/
def addReceived (s : Host σ) (c : Category) (parent : CmaObject) (name : CString)
    (handle : BitVec 32) (type : Mask) : Option (Host σ × CmaObject) := do
  let (db, object) := addToDatabase s.db c parent name 0 type
  let db := db.modify c object.ohfi (CmaObject.setHandle handle)
  match pathToObject db name parent.ohfi with
  | none => some ({ s with db := db }, object)
  | some (d, temp) =>
    if d = c ∧ temp.ohfi = object.ohfi then some ({ s with db := db }, object)
    else
      -- delete existing file/folder
      let fs := deleteAll posix s.fs temp.path
      let db ← removeFromDatabase db temp.ohfi (some (c, parent))
      some ({ db := db, fs := fs }, object)

def discard (s : Host σ) (c : Category) (parent object : CmaObject) (code : ResultCode) :
    Option (ResultCode × Host σ) := do
  let db ← removeFromDatabase s.db object.ohfi (some (c, parent))
  some (code, { s with db := db })

/-- The `File` branch. With less data than `size` the write would run past the buffer. -/
def receiveFile (s : Host σ) (c : Category) (parent object : CmaObject) (size : ULong)
    (data : List Byte) : Option (ResultCode × Host σ) :=
  let (created, fs) := createNewFile posix s.fs object.path
  if created then
    if data.length < size.toNat then none
    else
      let (written, fs) := writeFileFromBuffer posix fs object.path 0 (data.take size.toNat)
      if written then do
        let db ← incrementSizeMetadata s.db (c, object) size
        some (.OK, { db := db, fs := fs })
      else discard { s with fs := fs } c parent object .Invalid_Permission
  else discard { s with fs := fs } c parent object .Invalid_Permission

mutual

/-- The object is put below the node of list `c` that has the id `parent`. -/
def vitaGetAllObjects (c : Category) (parent : ℤ) :
    DeviceObject → Host σ → Option (ResultCode × Host σ)
  | .unavailable, s => some (.Invalid_Data, s)
  | .file name handle size data, s => do
    let parent ← s.db.get? c parent
    let (s, object) ← addReceived posix s c parent name handle DataType.File
    receiveFile posix s c parent object size data
  | .folder name handle children, s => do
    let parent ← s.db.get? c parent
    let (s, object) ← addReceived posix s c parent name handle DataType.Folder
    if object.isFile then
      -- below a file; the size is not set for a folder
      let (created, fs) := createNewFile posix s.fs object.path
      if created then none else discard { s with fs := fs } c parent object .Invalid_Permission
    else
      let (created, fs) := createNewDirectory posix s.fs object.path
      if created then do
        let (ret, s) ← vitaGetAllChildren c object.ohfi children { s with fs := fs }
        if ret = .OK then some (.OK, s) else discard s c parent object ret
      else discard { s with fs := fs } c parent object .Failed_Operate_Object

def vitaGetAllChildren (c : Category) (object : ℤ) :
    List DeviceObject → Host σ → Option (ResultCode × Host σ)
  | [], s => some (.OK, s)
  | child :: children, s => do
    let (ret, s) ← vitaGetAllObjects c object child s
    if ret = .OK then vitaGetAllChildren c object children s else some (ret, s)

end

/-- `treat` is the id of the parent and the object the handle stands for, if the device sends
them. -/
def vitaEventGetTreatObject (s : Host σ) (treat : Option (BitVec 32 × DeviceObject)) :
    Option (Host σ × List Message) :=
  match treat with
  | none => some (s, [])
  | some (ohfiParent, object) =>
    match ohfiToObject s.db ohfiParent.toInt with
    | none => some (s, [.reportResult .Invalid_OHFI])
    | some (c, parent) => do
      let (ret, s) ← vitaGetAllObjects posix c parent.ohfi object s
      some (s, [.reportResult ret])

def vitaEventGetPartOfObject (s : Host σ) (part : Option PartOfObject) :
    Option (Host σ × List Message) :=
  match part with
  | none => some (s, [])
  | some part =>
    match ohfiToObject s.db part.ohfi.toInt with
    | none => some (s, [.reportResult .Invalid_OHFI])
    | some (c, object) =>
      if part.data.length < part.size.toNat then none
      else
        let (written, fs) :=
          writeFileFromBuffer posix s.fs object.path part.offset (part.data.take part.size.toNat)
        if written then do
          -- add size to all parents
          let db ← incrementSizeMetadata s.db (c, object) part.size
          some ({ db := db, fs := fs }, [.reportResult .OK])
        else some ({ s with fs := fs }, [.reportResult .Invalid_Permission])

end handlers

end VitaMTP
