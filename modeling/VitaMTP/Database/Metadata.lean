import Mathlib.Data.BitVec
import Mathlib.Data.Int.Notation

/-! Records of the object database: `metadata_t`, `struct cma_object` and
`struct cma_database`. -/
namespace VitaMTP

/-- A C string without its terminator. -/
abbrev CString := List Char

/-- `unsigned long`. -/
abbrev ULong := BitVec 64

/-- Bit masks held in an `int` or an `enum`. -/
abbrev Mask := BitVec 32

/-- `MASK_SET(v, m)`. -/
def maskSet (v m : Mask) : Bool := v &&& m == m

namespace DataType

def Folder : Mask := 1#32 <<< 0
def File : Mask := 1#32 <<< 1
def App : Mask := 1#32 <<< 2
def Thumbnail : Mask := 1#32 <<< 3
def SaveData : Mask := 1#32 <<< 4
def Music : Mask := 1#32 <<< 5
def Photo : Mask := 1#32 <<< 6
def Video : Mask := 1#32 <<< 7
def Game : Mask := 1#32 <<< 8
def Special : Mask := 1#32 <<< 9

end DataType

namespace DirType

def MUSIC : Mask := 0x1000000
def PHOTO : Mask := 0x2000000
def VIDEO : Mask := 0x4000000
def ROOT : Mask := 0x0010000
def REGULAR : Mask := 0x0000001
def ALL : Mask := 0x0000200
def SONGS : Mask := 0x0000008

end DirType

def VITA_TRACK_TYPE_AUDIO : ℤ := 0x1
def VITA_TRACK_TYPE_VIDEO : ℤ := 0x2
def VITA_TRACK_TYPE_PHOTO : ℤ := 0x3

/-- Our object ids start here to prevent conflict with the master ohfi. -/
def OHFI_OFFSET : ℤ := 1000

/-- The members of `struct cma_database`, one linked list each. -/
inductive Category
  | photos | videos | music | packages | vitaApps | pspApps | pspSaves | psxApps | psmApps
  | backups
  deriving DecidableEq, Repr

namespace Category

/-- The order of the members when the database is read as an array of objects. -/
def all : List Category :=
  [photos, videos, music, packages, vitaApps, pspApps, pspSaves, psxApps, psmApps, backups]

@[simp] theorem mem_all (c : Category) : c ∈ all := by cases c <;> decide

def ohfi : Category → ℤ
  | photos => 0x02
  | videos => 0x03
  | music => 0x01
  | packages => 0x05
  | vitaApps => 0x0A
  | pspApps => 0x0D
  | pspSaves => 0x0E
  | psxApps => 0x10
  | psmApps => 0x12
  | backups => 0x06

end Category

/-- Where a `metadata_t` lives: in the `k`-th node of a list (the category itself is
node 0), or in the filter array of that node. -/
inductive MetaRef
  | object (c : Category) (k : ℕ)
  | filter (c : Category) (k j : ℕ)
  deriving DecidableEq, Repr

/-- The variants of the track union lay width, height (padding for audio), codec and
bitrate at the same offsets. -/
structure MediaTrack where
  type : ℤ := 0
  width : ℤ := 0
  height : ℤ := 0
  codecType : ℤ := 0
  bitrate : ℤ := 0
  duration : ULong := 0
  deriving DecidableEq, Repr

/-- `aspectRatio` is the number as `"%.6f"` prints it. -/
structure ThumbnailInfo where
  codecType : ℤ
  width : ℤ
  height : ℤ
  type : ℤ
  orientationType : ℤ
  aspectRatio : CString
  fromType : ℤ
  deriving DecidableEq, Repr

structure SaveDataInfo where
  title : CString
  dirName : CString
  savedataTitle : CString
  statusType : ℤ
  detail : CString
  dateTimeUpdated : ℤ
  deriving DecidableEq, Repr

structure PhotoInfo where
  tracks : List MediaTrack
  title : CString
  fileName : CString
  fileFormatType : ℤ
  statusType : ℤ
  dateTimeOriginal : ℤ
  deriving DecidableEq, Repr

structure MusicInfo where
  tracks : List MediaTrack
  title : CString
  fileName : CString
  fileFormatType : ℤ
  statusType : ℤ
  album : CString
  artist : CString
  deriving DecidableEq, Repr

/-- `padding` is the gap the compiler leaves behind `parentalLevel`. -/
structure VideoInfo where
  tracks : List MediaTrack
  title : CString
  fileName : CString
  fileFormatType : ℤ
  statusType : ℤ
  dateTimeUpdated : ℤ
  parentalLevel : ℤ
  padding : ℤ := 0
  explanation : CString
  copyright : CString
  deriving DecidableEq, Repr

/-- The `data` union of `struct metadata`; `zero` is the union after `memset`. -/
inductive MediaData
  | zero
  | thumbnail (d : ThumbnailInfo)
  | saveData (d : SaveDataInfo)
  | photo (d : PhotoInfo)
  | music (d : MusicInfo)
  | video (d : VideoInfo)
  deriving DecidableEq, Repr

/-- Object ids (*ohfi*) are C `int`s; the counter that hands them out never wraps. -/
structure Metadata where
  ohfiParent : ℤ := 0
  ohfi : ℤ := 0
  handle : BitVec 32 := 0
  name : Option CString := none
  path : Option CString := none
  type : Mask := 0
  dateTimeCreated : ULong := 0
  size : ULong := 0
  dataType : Mask := 0
  data : MediaData := .zero
  nextMetadata : Option MetaRef := none
  deriving DecidableEq, Repr

/-- `insertedSize` is a ghost: the size `addToDatabase` was called with. No function reads it. -/
structure CmaObject where
  metadata : Metadata
  path : CString
  filters : List Metadata := []
  insertedSize : ULong := 0
  deriving DecidableEq, Repr

/-- Without the link to the next element of a listing. -/
def Metadata.unlinked (m : Metadata) : Metadata := { m with nextMetadata := none }

namespace CmaObject

abbrev ohfi (o : CmaObject) : ℤ := o.metadata.ohfi

abbrev ohfiParent (o : CmaObject) : ℤ := o.metadata.ohfiParent

/-- `metadata.dataType & Folder`. -/
def isFolder (o : CmaObject) : Bool := o.metadata.dataType &&& DataType.Folder != 0

/-- `metadata.dataType & File`. -/
def isFile (o : CmaObject) : Bool := o.metadata.dataType &&& DataType.File != 0

def unlinked (o : CmaObject) : CmaObject :=
  { o with metadata := o.metadata.unlinked, filters := o.filters.map Metadata.unlinked }

end CmaObject

structure CmaPaths where
  urlPath : CString
  photosPath : CString
  videosPath : CString
  musicPath : CString
  appsPath : CString
  packagesPath : CString

/-- Each list starts with the category's own object. `ohfiCount` is `g_ohfi_count`. -/
structure Database where
  lists : Category → List CmaObject
  ohfiCount : ℤ

namespace Database

def setList (db : Database) (c : Category) (l : List CmaObject) : Database :=
  { db with lists := Function.update db.lists c l }

@[simp] theorem setList_lists_self (db : Database) (c : Category) (l : List CmaObject) :
    (db.setList c l).lists c = l := by simp [setList]

@[simp] theorem setList_lists_of_ne (db : Database) {c d : Category} (l : List CmaObject)
    (h : d ≠ c) : (db.setList c l).lists d = db.lists d := by simp [setList, h]

@[simp] theorem setList_ohfiCount (db : Database) (c : Category) (l : List CmaObject) :
    (db.setList c l).ohfiCount = db.ohfiCount := rfl

theorem setList_setList (db : Database) (c : Category) (l l' : List CmaObject) :
    (db.setList c l).setList c l' = db.setList c l' := by simp [setList]

@[simp] theorem setList_self (db : Database) (c : Category) : db.setList c (db.lists c) = db := by
  simp [setList]

def unlinked (db : Database) : Database :=
  { db with lists := fun c => (db.lists c).map CmaObject.unlinked }

/-- Write through the pointer to the node of a list that has this id. -/
def modify (db : Database) (c : Category) (ohfi : ℤ) (f : CmaObject → CmaObject) : Database :=
  db.setList c ((db.lists c).map (fun o => if o.ohfi = ohfi then f o else o))

/-- Read through the pointer to the node of a list that has this id. -/
def get? (db : Database) (c : Category) (ohfi : ℤ) : Option CmaObject :=
  (db.lists c).find? (fun o => o.ohfi == ohfi)

end Database

end VitaMTP
