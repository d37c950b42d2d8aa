import VitaMTP.Library.FirstMatch
import VitaMTP.Database.Metadata

/-! The functions of `database.c` that read and change the object lists. A pointer to a
live object is its category and its contents; the id in it finds the node again. -/
namespace VitaMTP

/-- `strstr`, as an offset. -/
def strstr (haystack find : CString) : Option ℕ := FirstMatch.offset? find haystack

def strreplace (haystack find replace : CString) : CString :=
  match strstr haystack find with
  | none => haystack
  | some off => haystack.take off ++ replace ++ haystack.drop (off + find.length)

/-- `asprintf("%s/%s", dir, name)`. -/
def joinPath (dir name : CString) : CString := dir ++ '/' :: name

abbrev ObjectPtr := Category × CmaObject

/-- The `data` union that `addToDatabase` fills in, by the first mask that fits. -/
def initialData (dataType : Mask) (name : CString) (rootName : Option CString) : MediaData :=
  if maskSet dataType (DataType.SaveData ||| DataType.Folder) then
    .saveData { title := name, detail := [], dirName := name, savedataTitle := [],
                dateTimeUpdated := 0, statusType := 1 }
  else if maskSet dataType (DataType.Photo ||| DataType.File) then
    .photo { title := name, fileName := name, fileFormatType := 28, statusType := 1,
             dateTimeOriginal := 0,
             tracks := [{ type := VITA_TRACK_TYPE_PHOTO, codecType := 17 }] }
  else if maskSet dataType (DataType.Music ||| DataType.File) then
    .music { title := name, fileName := name, fileFormatType := 20, statusType := 1,
             album := rootName.getD [], artist := [],
             tracks := [{ type := VITA_TRACK_TYPE_AUDIO, codecType := 12 }] }
  else if maskSet dataType (DataType.Video ||| DataType.File) then
    .video { title := name, explanation := [], fileName := name, copyright := [],
             dateTimeUpdated := 0, statusType := 1, fileFormatType := 1, parentalLevel := 0,
             tracks := [{ type := VITA_TRACK_TYPE_VIDEO, codecType := 3 }] }
  else .zero

/-- The node `addToDatabase` allocates for an entry below `root`. -/
def newObject (ohfi : ℤ) (root : CmaObject) (name : CString) (size : ULong) (type : Mask) :
    CmaObject :=
  -- get parent attributes except Folder
  let dataType := type ||| (root.metadata.dataType &&& ~~~DataType.Folder)
  { metadata :=
      { name := some name
        ohfiParent := root.ohfi
        ohfi := ohfi
        type := DirType.REGULAR
        dateTimeCreated := 0
        size := size
        dataType := dataType
        data := initialData dataType name root.metadata.name
        path := some (match root.metadata.path with
          | none => name
          | some path => joinPath path name) }
    path := joinPath root.path name
    insertedSize := size }

/-- Appends at the end of the list `root` is in. -/
def addToDatabase (db : Database) (c : Category) (root : CmaObject) (name : CString)
    (size : ULong) (type : Mask) : Database × CmaObject :=
  let current := newObject db.ohfiCount root name size type
  ({ db.setList c (db.lists c ++ [current]) with ohfiCount := db.ohfiCount + 1 }, current)

/-- A filter of the category object that heads list `c`. -/
def newFilter (ohfi : ℤ) (dirobject : CmaObject) (name : CString) (type : Mask) : Metadata :=
  { ohfiParent := dirobject.ohfi
    ohfi := ohfi
    name := some name
    path := some (dirobject.metadata.path.getD [])
    type := type
    dateTimeCreated := 0
    size := 0
    dataType := DataType.Folder ||| DataType.Special
    nextMetadata := none }

def createFilter (db : Database) (c : Category) (name : CString) (type : Mask) : Database :=
  match db.lists c with
  | [] => db
  | dirobject :: objects =>
    let output := newFilter db.ohfiCount dirobject name type
    { db.setList c ({ dirobject with filters := dirobject.filters ++ [output] } :: objects) with
      ohfiCount := db.ohfiCount + 1 }

def Category.dataType : Category → Mask
  | .photos => DataType.Photo
  | .videos => DataType.Video
  | .music => DataType.Music
  | .packages => DataType.Game
  | .vitaApps => DataType.App
  | .pspApps => DataType.App
  | .pspSaves => DataType.SaveData
  | .psxApps => DataType.App
  | .psmApps => DataType.App
  | .backups => DataType.App

/-- `asprintf("%s/%s/%s", paths->appsPath, kind, uuid)`. -/
def appsDir (paths : CmaPaths) (kind uuid : CString) : CString :=
  joinPath (joinPath paths.appsPath kind) uuid

def Category.path (paths : CmaPaths) (uuid : CString) : Category → CString
  | .photos => paths.photosPath
  | .videos => paths.videosPath
  | .music => paths.musicPath
  | .packages => paths.packagesPath
  | .vitaApps => appsDir paths ['A', 'P', 'P'] uuid
  | .pspApps => appsDir paths ['P', 'G', 'A', 'M', 'E'] uuid
  | .pspSaves => appsDir paths ['P', 'S', 'A', 'V', 'E', 'D', 'A', 'T', 'A'] uuid
  | .psxApps => appsDir paths ['P', 'S', 'G', 'A', 'M', 'E'] uuid
  | .psmApps => appsDir paths ['P', 'S', 'M'] uuid
  | .backups => appsDir paths ['S', 'Y', 'S', 'T', 'E', 'M'] uuid

/-- The object of a category, before its filters are created. -/
def masterObject (paths : CmaPaths) (uuid : CString) (c : Category) : CmaObject :=
  { metadata :=
      { ohfi := c.ohfi
        type := DirType.ROOT ||| DirType.REGULAR
        dataType := c.dataType }
    path := c.path paths uuid }

def initDatabase (paths : CmaPaths) (uuid : CString) : Database :=
  let db : Database := { lists := fun c => [masterObject paths uuid c], ohfiCount := OHFI_OFFSET }
  let db := createFilter db .photos ['F', 'o', 'l', 'd', 'e', 'r', 's']
    (DirType.PHOTO ||| DirType.ROOT ||| DirType.REGULAR)
  let db := createFilter db .photos ['A', 'l', 'l']
    (DirType.PHOTO ||| DirType.ROOT ||| DirType.ALL)
  let db := createFilter db .videos ['F', 'o', 'l', 'd', 'e', 'r', 's']
    (DirType.VIDEO ||| DirType.ROOT ||| DirType.REGULAR)
  let db := createFilter db .videos ['A', 'l', 'l']
    (DirType.VIDEO ||| DirType.ROOT ||| DirType.ALL)
  -- folders not supported for music
  createFilter db .music ['A', 'l', 'l'] (DirType.MUSIC ||| DirType.ROOT ||| DirType.SONGS)

/-- One list of `ohfiToObject`. Only a direct hit leaves the loop; a node found through one
of its filters is replaced by any later hit. -/
def findInList (ohfi : ℤ) : Option CmaObject → List CmaObject → Option CmaObject
  | found, [] => found
  | found, object :: rest =>
    if object.ohfi = ohfi then some object
    else if object.filters.any (fun m => m.ohfi = ohfi) then findInList ohfi (some object) rest
    else findInList ohfi found rest

def ohfiToObject (db : Database) (ohfi : ℤ) : Option ObjectPtr :=
  Category.all.findSome? (fun c => (findInList ohfi none (db.lists c)).map (fun o => (c, o)))

/-- One list of `pathToObject`. The category's own object is never compared. -/
def pathInList (db : Database) (path : CString) (ohfiRoot : ℤ) (c : Category) : Option ObjectPtr :=
  match db.lists c with
  | [] => none
  | master :: objects =>
    if ohfiRoot ≠ 0 ∧ master.ohfi ≠ ohfiRoot then none
    else (objects.find? (fun o => o.metadata.path == some path)).map (fun o => (c, o))

/-- `ohfiRoot = 0` means look in all lists. -/
def pathToObject (db : Database) (path : CString) (ohfiRoot : ℤ) : Option ObjectPtr :=
  Category.all.findSome? (pathInList db path ohfiRoot)

/- The loop of `removeFromDatabase` is at `rest`; `seen` holds the nodes from `start` on that
it has passed, the last one (*prev*) first, and `toFree` is the place of `*p_toFree` among
them. The result is the list from `start` on and the depth of the lock. -/
mutual

def removeNodes : ℕ → ℤ → List CmaObject → ℕ → Option (List CmaObject × ℕ)
  | 0, _, _, _ => none
  | n + 1, ohfi, start, lock => removeLoop n ohfi [] none start (lock + 1)

def removeLoop : ℕ → ℤ → List CmaObject → Option ℕ → List CmaObject → ℕ →
    Option (List CmaObject × ℕ)
  | 0, _, _, _, _, _ => none
  | _ + 1, _, seen, toFree, [], lock =>
    match toFree with
    -- p_toFree was never set, or points to the local variable `start`
    | none | some 0 => none
    | some k => some (seen.reverse.eraseIdx k, lock - 1)
  | n + 1, ohfi, seen, toFree, object :: rest, lock =>
    let toFree := if object.ohfi = ohfi then some seen.length else toFree
    if object.ohfiParent = ohfi then
      match seen with
      -- "Invalid database entry": returns with the lock held
      | [] => some (object :: rest, lock)
      | prev :: before =>
        match removeNodes n object.ohfi (prev :: object :: rest) lock with
        | some (prev :: rest, lock) => removeLoop n ohfi (prev :: before) toFree rest lock
        | _ => none
    else removeLoop n ohfi (object :: seen) toFree rest lock

end

/-- Enough steps for a walk of a list by `removeNodes` or `renameNodes`. -/
def walkFuel (l : List CmaObject) : ℕ := 4 * l.length + 4

/-- `none` is undefined behaviour: with `start == NULL` nothing is ever found. -/
def removeFromDatabase (db : Database) (ohfi : ℤ) (start : Option ObjectPtr) :
    Option Database := do
  let (c, first) ← start
  let nodes := (db.lists c).dropWhile (fun o => o.ohfi ≠ first.ohfi)
  let (nodes, _) ← removeNodes (walkFuel nodes) ohfi nodes 0
  some (db.setList c ((db.lists c).takeWhile (fun o => o.ohfi ≠ first.ohfi) ++ nodes))

/-- What `renameRootEntry` writes into the object itself. -/
def CmaObject.renamed (object : CmaObject) (origName origRelPath name newname : CString) :
    CmaObject :=
  let newRelPath := strreplace origRelPath name newname
  { object with
    metadata := { object.metadata with
      name := some (strreplace origName name newname)
      path := some newRelPath }
    path := strreplace object.path origRelPath newRelPath }

/- `renameNodes` runs on the list from the object on, `renameChildren` is its loop at `temp`. -/
mutual

def renameNodes : ℕ → Option CString → CString → List CmaObject → Option (List CmaObject)
  | n + 1, name, newname, object :: rest =>
    match object.metadata.name, object.metadata.path with
    | some origName, some origRelPath =>
      let name := name.getD origName
      renameChildren n object.ohfi origRelPath (strreplace origRelPath name newname)
        (object.renamed origName origRelPath name newname :: rest)
    | _, _ => none
  | _, _, _, _ => none

def renameChildren : ℕ → ℤ → CString → CString → List CmaObject → Option (List CmaObject)
  | 0, _, _, _, _ => none
  | _ + 1, _, _, _, [] => some []
  | n + 1, ohfi, origRelPath, newRelPath, temp :: rest =>
    if temp.ohfiParent = ohfi then
      match temp.metadata.name with
      | none => none
      | some name =>
        match renameNodes n (some (joinPath origRelPath name)) (joinPath newRelPath name)
            (temp :: rest) with
        | some (temp :: rest) =>
          (renameChildren n ohfi origRelPath newRelPath rest).map (temp :: ·)
        | _ => none
    else (renameChildren n ohfi origRelPath newRelPath rest).map (temp :: ·)

end

/-- `none` is undefined behaviour: the name or path of the object is `NULL`. -/
def renameRootEntry (db : Database) (object : ObjectPtr) (name : Option CString)
    (newname : CString) : Option Database := do
  let nodes := (db.lists object.1).dropWhile (fun o => o.ohfi ≠ object.2.ohfi)
  let nodes ← renameNodes (walkFuel nodes) name newname nodes
  some (db.setList object.1
    ((db.lists object.1).takeWhile (fun o => o.ohfi ≠ object.2.ohfi) ++ nodes))

def CmaObject.addSize (size : ULong) (object : CmaObject) : CmaObject :=
  { object with metadata := { object.metadata with size := object.metadata.size + size } }

/-- The loop of `incrementSizeMetadata`: adds to the object, then climbs to its parent. -/
def incrementSizeLoop : ℕ → Database → Category → ℤ → ULong → Option Database
  | 0, _, _, _, _ => none
  | n + 1, db, c, ohfi, size => do
    let db := db.modify c ohfi (CmaObject.addSize size)
    let object ← db.get? c ohfi
    if 0 < object.ohfiParent then
      match ohfiToObject db object.ohfiParent with
      | none => some db
      | some (c, parent) => incrementSizeLoop n db c parent.ohfi size
    else some db

def incrementSizeMetadata (db : Database) (object : ObjectPtr) (size : ULong) :
    Option Database :=
  incrementSizeLoop ((Category.all.map fun c => (db.lists c).length).sum + 1) db
    object.1 object.2.ohfi size

end VitaMTP
