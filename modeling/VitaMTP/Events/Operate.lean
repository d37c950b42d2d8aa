import VitaMTP.Events.Messages
import VitaMTP.Events.Posix

/-! The requests that create, rename and delete: `OperateObject` and `DeleteObject`. -/
namespace VitaMTP

/-- What the handlers work on: the database and the file system. -/
structure Host (σ : Type) where
  db : Database
  fs : Disk σ

/-- `operate_object_t`. -/
structure OperateObject where
  cmd : BitVec 32
  ohfi : BitVec 32
  title : CString
  deriving DecidableEq, Repr

def VITA_OPERATE_CREATE_FOLDER : BitVec 32 := 1
def VITA_OPERATE_RENAME : BitVec 32 := 3
def VITA_OPERATE_CREATE_FILE : BitVec 32 := 4

/-! A handler returns what it leaves behind and what it sends, or `none` where its behaviour is
undefined. -/
section handlers

variable {σ : Type} (posix : Posix σ)

/-- The cases for a new folder and a new file: an entry of kind `type` below `root`, made on
disk by `create`. -/
def operateCreate (create : Disk σ → CString → Outcome σ) (type : Mask) (s : Host σ)
    (root : ObjectPtr) (title : CString) : Option (Host σ × List Message) :=
  let (db, newobj) := addToDatabase s.db root.1 root.2 title 0 type
  let (created, fs) := create s.fs newobj.path
  if created then
    some ({ db := db, fs := fs }, [.reportResultWithParam .OK newobj.ohfi])
  else do
    let db ← removeFromDatabase db newobj.ohfi (some root)
    some ({ db := db, fs := fs }, [.reportResult .Failed_Operate_Object])

/-- The case for a new name. A category has no name, and `strdup(NULL)` is undefined. -/
def operateRename (s : Host σ) (root : ObjectPtr) (title : CString) :
    Option (Host σ × List Message) := do
  let origName ← root.2.metadata.name
  let origFullPath := root.2.path
  let db ← renameRootEntry s.db root none title
  let renamed ← db.get? root.1 root.2.ohfi
  let (moved, fs) := move posix s.fs origFullPath renamed.path
  if moved then some ({ db := db, fs := fs }, [.reportResultWithParam .OK renamed.ohfi])
  else
    -- rename back
    let db ← renameRootEntry db (root.1, renamed) none origName
    some ({ db := db, fs := fs }, [.reportResult .Failed_Operate_Object])

/-- `operate` is nothing when the transaction fails. -/
def vitaEventOperateObject (s : Host σ) (operate : Option OperateObject) :
    Option (Host σ × List Message) :=
  match operate with
  | none => some (s, [])
  | some operateobject =>
    match ohfiToObject s.db operateobject.ohfi.toInt with
    | none => some (s, [.reportResult .Not_Exist_Object])
    | some root =>
      if operateobject.cmd = VITA_OPERATE_CREATE_FOLDER then
        operateCreate (createNewDirectory posix) DataType.Folder s root operateobject.title
      else if operateobject.cmd = VITA_OPERATE_CREATE_FILE then
        operateCreate (createNewFile posix) DataType.File s root operateobject.title
      else if operateobject.cmd = VITA_OPERATE_RENAME then
        operateRename posix s root operateobject.title
      else some (s, [.reportResult .Failed_Operate_Object])

/-- The removal uses the id of the event, not that of the object it found. Where it is undefined,
what is left is the file system: the files are deleted by then. -/
def vitaEventDeleteObject (s : Host σ) (event : Event) :
    Except (Disk σ) (Host σ × List Message) :=
  let ohfi := event.param2.toInt
  match ohfiToObject s.db ohfi with
  | none => .ok (s, [.reportResult .Invalid_OHFI])
  | some object =>
    let parent := ohfiToObject s.db object.2.ohfiParent
    let fs := deleteAll posix s.fs object.2.path
    match removeFromDatabase s.db ohfi parent with
    | none => .error fs
    | some db => .ok ({ db := db, fs := fs }, [.reportResult .OK])

end handlers

/-- A file system on which every call succeeds and nothing is there. -/
def samplePosix : Posix Unit where
  access _ _ := false
  mkdir _ _ := some ()
  creat _ _ := some ()
  fopen _ _ := some ()
  fwrite _ _ _ := (true, ())
  rename _ _ _ := some ()
  removeAll _ _ := ()
  contents _ _ := none

def sampleHost (db : Database) : Host Unit := { db := db, fs := { state := () } }

end VitaMTP
