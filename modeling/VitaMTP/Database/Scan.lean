import VitaMTP.Database.Operations

/-! `createDatabase` reads the category directories. The recursive scan of one directory
appends one block of objects to the category's list. -/
namespace VitaMTP

/-- The part of `struct stat` the scan reads. -/
structure Stat where
  size : ULong
  isDir : Bool
  deriving DecidableEq, Repr

/-- `S_ISDIR(statbuf.st_mode) ? Folder : File`. -/
def Stat.dataType (statbuf : Stat) : Mask :=
  if statbuf.isDir then DataType.Folder else DataType.File

/-- What the file system shows during a scan. -/
structure DirView where
  opendir : CString → Option (List CString)
  stat : CString → Option Stat

/-- The size of a buffer for a path. -/
def PATH_MAX : ℕ := 4096

/-- The `readdir` loop of `addEntriesForDirectory`. `fullpath` is the buffer: only a
successful round cuts it back to the directory. Where the buffer overruns there is no result. -/
def readEntries (view : DirView) (addEntries : Database → ℤ → Option Database) (c : Category)
    (last : CmaObject) : Database → CString → ULong → List CString → Option (Database × ULong)
  | db, _, totalSize, [] => some (db, totalSize)
  | db, fullpath, totalSize, name :: names =>
    if name.head? = some '.' then readEntries view addEntries c last db fullpath totalSize names
    else if PATH_MAX ≤ (fullpath ++ name).length then none
    else
      match view.stat (fullpath ++ name) with
      | none => readEntries view addEntries c last db (fullpath ++ name) totalSize names
      | some statbuf => do
        let (db, current) := addToDatabase db c last name statbuf.size
          statbuf.dataType
        let db ← (bif current.isFolder then addEntries db current.ohfi else some db)
        let current ← db.get? c current.ohfi
        readEntries view addEntries c last db (last.path ++ ['/'])
          (totalSize + current.metadata.size) names

/-- The directories nest less than `n` deep and no path overruns the buffer, or the result is
`none`. -/
def addEntriesForDirectory (view : DirView) (c : Category) : ℕ → Database → ℤ → Option Database
  | 0, _, _ => none
  | n + 1, db, current => do
    let last ← db.get? c current
    if PATH_MAX ≤ (last.path ++ ['/']).length then none else
    match view.opendir (last.path ++ ['/']) with
    | none => some db
    | some names =>
      let (db, totalSize) ← readEntries view (addEntriesForDirectory view c n) c last db
        (last.path ++ ['/']) 0 names
      some (db.modify c current (CmaObject.addSize totalSize))

def createDatabase (view : DirView) (n : ℕ) (paths : CmaPaths) (uuid : CString) :
    Option Database :=
  Category.all.foldlM (fun db c => addEntriesForDirectory view c n db c.ohfi)
    (initDatabase paths uuid)

/-- The objects below one directory, the first of them with id `count`, and their total size. -/
abbrev Block := List CmaObject × ULong

def entriesIn (view : DirView) (below : ℤ → CmaObject → Option Block) (last : CmaObject) :
    ℤ → CString → List CString → Option Block
  | _, _, [] => some ([], 0)
  | count, fullpath, name :: names =>
    if name.head? = some '.' then entriesIn view below last count fullpath names
    else if PATH_MAX ≤ (fullpath ++ name).length then none
    else
      match view.stat (fullpath ++ name) with
      | none => entriesIn view below last count (fullpath ++ name) names
      | some statbuf => do
        let current := newObject count last name statbuf.size
          statbuf.dataType
        let inside ← (bif current.isFolder then below (count + 1) current else some ([], 0))
        let current := current.addSize inside.2
        let others ← entriesIn view below last (count + 1 + inside.1.length)
          (last.path ++ ['/']) names
        some (current :: (inside.1 ++ others.1), current.metadata.size + others.2)

def entriesBelow (view : DirView) : ℕ → ℤ → CmaObject → Option Block
  | 0, _, _ => none
  | n + 1, count, last =>
    if PATH_MAX ≤ (last.path ++ ['/']).length then none else
    match view.opendir (last.path ++ ['/']) with
    | none => some ([], 0)
    | some names => entriesIn view (entriesBelow view n) last count (last.path ++ ['/']) names

namespace Database

/-- Objects appended at the end of one list. -/
def append (db : Database) (c : Category) (objects : List CmaObject) : Database :=
  { db.setList c (db.lists c ++ objects) with ohfiCount := db.ohfiCount + objects.length }

@[simp] theorem append_lists_self (db : Database) (c : Category) (l : List CmaObject) :
    (db.append c l).lists c = db.lists c ++ l := by simp [append]

@[simp] theorem append_ohfiCount (db : Database) (c : Category) (l : List CmaObject) :
    (db.append c l).ohfiCount = db.ohfiCount + l.length := rfl

@[simp] theorem append_nil (db : Database) (c : Category) : db.append c [] = db := by
  simp [append]

theorem append_append (db : Database) (c : Category) (l l' : List CmaObject) :
    (db.append c l).append c l' = db.append c (l ++ l') := by
  simp [append, setList, add_assoc]

theorem append_modify (db : Database) (c : Category) (l : List CmaObject) (ohfi : ℤ)
    (f : CmaObject → CmaObject) (h : ∀ o ∈ db.lists c, o.ohfi ≠ ohfi) :
    (db.append c l).modify c ohfi f =
      db.append c (l.map fun o => if o.ohfi = ohfi then f o else o) := by
  have hl : (db.lists c).map (fun o => if o.ohfi = ohfi then f o else o) = db.lists c := by
    conv_rhs => rw [← List.map_id (db.lists c)]
    exact List.map_congr_left fun o ho => if_neg (h o ho)
  unfold modify
  rw [append_lists_self, List.map_append, hl]
  simp [append, setList]

theorem append_get? (db : Database) (c : Category) (o : CmaObject) (l : List CmaObject)
    (h : ∀ y ∈ db.lists c, y.ohfi ≠ o.ohfi) :
    (db.append c (o :: l)).get? c o.ohfi = some o := by
  have hfind : (db.lists c).find? (fun y => y.ohfi == o.ohfi) = none := by
    simpa using h
  unfold get?
  rw [append_lists_self, List.find?_append, hfind]
  simp

end Database

theorem addToDatabase_eq (db : Database) (c : Category) (root : CmaObject) (name : CString)
    (size : ULong) (type : Mask) :
    addToDatabase db c root name size type =
      (db.append c [newObject db.ohfiCount root name size type],
        newObject db.ohfiCount root name size type) := rfl

section masks

variable (count : ℤ) (root : CmaObject) (name : CString) (size : ULong)

theorem newFile_isFile : (newObject count root name size DataType.File).isFile = true := by
  have hmask : (DataType.File ||| (root.metadata.dataType &&& ~~~DataType.Folder)) &&&
      DataType.File = DataType.File := by
    have h : DataType.File &&& ~~~DataType.Folder = DataType.File := by decide
    ext i hi
    simp only [BitVec.getElem_and, BitVec.getElem_or]
    cases DataType.File[i] <;> simp
  unfold CmaObject.isFile
  exact (congrArg (· != 0) hmask).trans (by decide)

theorem newFile_isFolder : (newObject count root name size DataType.File).isFolder = false := by
  have hmask : (DataType.File ||| (root.metadata.dataType &&& ~~~DataType.Folder)) &&&
      DataType.Folder = 0 := by
    have h₁ : DataType.File &&& DataType.Folder = 0 := by decide
    have h₂ : ~~~DataType.Folder &&& DataType.Folder = 0 := by decide
    rw [BitVec.and_or_distrib_right, BitVec.and_assoc, h₁, h₂]
    simp
  unfold CmaObject.isFolder
  exact (congrArg (· != 0) hmask).trans (by decide)

theorem newFolder_isFolder : (newObject count root name size DataType.Folder).isFolder = true := by
  have hmask : (DataType.Folder ||| (root.metadata.dataType &&& ~~~DataType.Folder)) &&&
      DataType.Folder = DataType.Folder := by
    have h₂ : ~~~DataType.Folder &&& DataType.Folder = 0 := by decide
    rw [BitVec.and_or_distrib_right, BitVec.and_assoc, h₂]
    simp
  unfold CmaObject.isFolder
  exact (congrArg (· != 0) hmask).trans (by decide)

theorem newObject_isFolder (statbuf : Stat) :
    (newObject count root name statbuf.size statbuf.dataType).isFolder = statbuf.isDir := by
  cases h : statbuf.isDir with
  | true =>
    rw [Stat.dataType, if_pos h]
    exact newFolder_isFolder count root name statbuf.size
  | false =>
    rw [Stat.dataType, if_neg (by simp [h])]
    exact newFile_isFolder count root name statbuf.size

end masks

@[simp] theorem CmaObject.addSize_ohfi (o : CmaObject) (size : ULong) :
    (o.addSize size).ohfi = o.ohfi := rfl

@[simp] theorem CmaObject.addSize_ohfiParent (o : CmaObject) (size : ULong) :
    (o.addSize size).ohfiParent = o.ohfiParent := rfl

@[simp] theorem CmaObject.addSize_zero (o : CmaObject) : o.addSize 0#64 = o := by
  simp [CmaObject.addSize]

/-- `objects` are the entries found below `last`, depth first, with the ids from `count` on, and
`total` is the sum of the sizes of the entries of `last` itself. -/
inductive Scanned : CmaObject → ℤ → List CmaObject → ULong → Prop
  | nil (last : CmaObject) (count : ℤ) : Scanned last count [] 0
  | cons {last current : CmaObject} {count : ℤ} {name : CString} {statbuf : Stat} {s t : ULong}
      {inside others : List CmaObject}
      (hcurrent : current = newObject count last name statbuf.size statbuf.dataType)
      (hfile : current.isFolder = false → inside = [])
      (hinside : Scanned current (count + 1) inside s)
      (hothers : Scanned last (count + 1 + inside.length) others t) :
      Scanned last count (current.addSize s :: (inside ++ others))
        ((current.addSize s).metadata.size + t)

def Numbered : ℤ → List CmaObject → Prop
  | _, [] => True
  | count, o :: os => o.ohfi = count ∧ Numbered (count + 1) os

theorem Numbered.append {count : ℤ} {l l' : List CmaObject} :
    Numbered count (l ++ l') ↔ Numbered count l ∧ Numbered (count + l.length) l' := by
  induction l generalizing count with
  | nil => simp [Numbered]
  | cons x xs ih =>
    have : count + 1 + (xs.length : ℤ) = count + ((x :: xs).length : ℤ) := by
      simp only [List.length_cons]
      omega
    simp only [List.cons_append, Numbered, ih, and_assoc, this]

theorem Numbered.bounds {count : ℤ} {l : List CmaObject} (h : Numbered count l) :
    ∀ x ∈ l, count ≤ x.ohfi ∧ x.ohfi < count + l.length := by
  induction l generalizing count with
  | nil => simp
  | cons y ys ih =>
    intro x hx
    simp only [List.length_cons]
    rcases List.mem_cons.mp hx with rfl | hx
    · have := h.1
      omega
    · have := ih h.2 x hx
      omega

theorem Numbered.nodup {count : ℤ} {l : List CmaObject} (h : Numbered count l) :
    (l.map CmaObject.ohfi).Nodup := by
  induction l generalizing count with
  | nil => simp
  | cons y ys ih =>
    refine List.nodup_cons.mpr ⟨fun hm => ?_, ih h.2⟩
    obtain ⟨z, hz, he⟩ := List.mem_map.mp hm
    have hy := h.1
    have := (h.2.bounds z hz).1
    omega

theorem Scanned.numbered {last : CmaObject} {count : ℤ} {objects : List CmaObject} {total : ULong}
    (h : Scanned last count objects total) : Numbered count objects := by
  induction h with
  | nil => trivial
  | cons hcurrent _ _ _ hin hout =>
    subst hcurrent
    exact ⟨rfl, Numbered.append.mpr ⟨hin, hout⟩⟩

theorem entriesIn_scanned {view : DirView} {below : ℤ → CmaObject → Option Block}
    (hbelow : ∀ count last b, below count last = some b → Scanned last count b.1 b.2)
    {last : CmaObject} {count : ℤ} {fullpath : CString} {names : List CString} {b : Block}
    (h : entriesIn view below last count fullpath names = some b) :
    Scanned last count b.1 b.2 := by
  induction names generalizing count fullpath b with
  | nil =>
    obtain rfl : ([], 0) = b := by simpa [entriesIn] using h
    exact .nil last count
  | cons name names ih =>
    simp only [entriesIn] at h
    split_ifs at h
    · exact ih h
    · cases hstat : view.stat (fullpath ++ name) with
      | none => exact ih (by simpa [hstat] using h)
      | some statbuf =>
        simp only [hstat, Option.bind_eq_bind, Option.bind_eq_some_iff] at h
        obtain ⟨inside, hin, others, hout, hb⟩ := h
        obtain rfl := Option.some.inj hb
        generalize hcur : newObject count last name statbuf.size statbuf.dataType = current at *
        cases hfolder : current.isFolder with
        | true =>
          rw [hfolder] at hin
          exact .cons hcur.symm (by simp [hfolder]) (hbelow _ _ _ hin) (ih hout)
        | false =>
          rw [hfolder] at hin
          obtain rfl := Option.some.inj hin
          exact .cons hcur.symm (fun _ => rfl) (.nil _ _) (ih hout)

theorem entriesBelow_scanned {view : DirView} {n : ℕ} {last : CmaObject} {count : ℤ} {b : Block}
    (h : entriesBelow view n count last = some b) : Scanned last count b.1 b.2 := by
  induction n generalizing count last b with
  | zero => simp [entriesBelow] at h
  | succ n ih =>
    simp only [entriesBelow] at h
    split_ifs at h
    cases hdir : view.opendir (last.path ++ ['/']) with
    | none =>
      obtain rfl : ([], 0) = b := by simpa [hdir] using h
      exact .nil last count
    | some names => exact entriesIn_scanned (fun _ _ _ => ih) (by simpa [hdir] using h)

/-- Every id in the list has been handed out. -/
def Counted (db : Database) (c : Category) : Prop := ∀ x ∈ db.lists c, x.ohfi < db.ohfiCount

theorem Counted.append {db : Database} {c : Category} (h : Counted db c) {l : List CmaObject}
    (hl : Numbered db.ohfiCount l) : Counted (db.append c l) c := by
  intro x hx
  rw [Database.append_lists_self, List.mem_append] at hx
  rw [Database.append_ohfiCount]
  rcases hx with hx | hx
  · have := h x hx
    omega
  · exact (hl.bounds x hx).2

/-- The scan of a directory appends `below` and adds its total to the directory. -/
private def Appends (c : Category) (addEntries : Database → ℤ → Option Database)
    (below : ℤ → CmaObject → Option Block) : Prop :=
  ∀ db current, Counted db c → db.get? c current.ohfi = some current →
    addEntries db current.ohfi = (below db.ohfiCount current).map fun b =>
      (db.append c b.1).modify c current.ohfi (CmaObject.addSize b.2)

/-- One entry of the loop: the new object, and what is below it if it is a folder. -/
private theorem append_entry {c : Category} {addEntries : Database → ℤ → Option Database}
    {below : ℤ → CmaObject → Option Block} (hA : Appends c addEntries below)
    (hbelow : ∀ count last b, below count last = some b → Scanned last count b.1 b.2)
    {db : Database} (hdb : Counted db c) {current : CmaObject} (hid : current.ohfi = db.ohfiCount) :
    (bif current.isFolder then addEntries (db.append c [current]) current.ohfi
      else some (db.append c [current])) =
    (bif current.isFolder then below (db.ohfiCount + 1) current else some ([], 0)).map fun b =>
      db.append c (current.addSize b.2 :: b.1) := by
  have hne : ∀ y ∈ db.lists c, y.ohfi ≠ current.ohfi := by
    intro y hy
    have := hdb y hy
    omega
  have hcounted : Counted (db.append c [current]) c := hdb.append ⟨hid, trivial⟩
  cases current.isFolder with
  | false => simp
  | true =>
    simp only [cond_true]
    rw [hA _ current hcounted (Database.append_get? db c current [] hne)]
    simp only [Database.append_ohfiCount, List.length_singleton, Nat.cast_one]
    cases hb : below (db.ohfiCount + 1) current with
    | none => rfl
    | some b =>
      have hinside : ∀ y ∈ b.1, y.ohfi ≠ current.ohfi := by
        intro y hy
        have := ((hbelow _ _ _ hb).numbered.bounds y hy).1
        omega
      have hmap : b.1.map (fun o => if o.ohfi = current.ohfi then o.addSize b.2 else o) = b.1 := by
        conv_rhs => rw [← List.map_id b.1]
        exact List.map_congr_left fun o ho => if_neg (hinside o ho)
      simp only [Option.map_some, Database.append_append, List.singleton_append]
      rw [Database.append_modify db c _ _ _ hne, List.map_cons, if_pos rfl, hmap]

private theorem readEntries_eq {view : DirView} {c : Category}
    {addEntries : Database → ℤ → Option Database} {below : ℤ → CmaObject → Option Block}
    (hA : Appends c addEntries below)
    (hbelow : ∀ count last b, below count last = some b → Scanned last count b.1 b.2)
    (last : CmaObject) (names : List CString) (db : Database) (fullpath : CString) (total : ULong)
    (hdb : Counted db c) :
    readEntries view addEntries c last db fullpath total names =
      (entriesIn view below last db.ohfiCount fullpath names).map fun b =>
        (db.append c b.1, total + b.2) := by
  induction names generalizing db fullpath total with
  | nil => simp [readEntries, entriesIn]
  | cons name names ih =>
    simp only [readEntries, entriesIn]
    split_ifs
    · exact ih db fullpath total hdb
    · rfl
    · cases view.stat (fullpath ++ name) with
      | none => exact ih db (fullpath ++ name) total hdb
      | some statbuf =>
        simp only [addToDatabase_eq]
        generalize hcur : newObject db.ohfiCount last name statbuf.size statbuf.dataType = current
        have hid : current.ohfi = db.ohfiCount := hcur ▸ rfl
        rw [append_entry hA hbelow hdb hid]
        cases hb : (bif current.isFolder then below (db.ohfiCount + 1) current
          else some ([], 0)) with
        | none => rfl
        | some b =>
          have hscan : Scanned current (db.ohfiCount + 1) b.1 b.2 := by
            revert hb
            cases current.isFolder with
            | true => exact hbelow _ _ _
            | false =>
              rintro ⟨⟩
              exact .nil _ _
          have hnum : Numbered db.ohfiCount (current.addSize b.2 :: b.1) :=
            ⟨hid, hscan.numbered⟩
          have hne : ∀ y ∈ db.lists c, y.ohfi ≠ (current.addSize b.2).ohfi := by
            intro y hy
            have := hdb y hy
            change y.ohfi ≠ current.ohfi
            omega
          have hget := Database.append_get? db c (current.addSize b.2) b.1 hne
          have hlen : (db.append c (current.addSize b.2 :: b.1)).ohfiCount =
              db.ohfiCount + 1 + b.1.length := by
            simp only [Database.append_ohfiCount, List.length_cons]
            omega
          simp only [Option.map_some, Option.bind_eq_bind, Option.bind_some]
          rw [show (db.append c (current.addSize b.2 :: b.1)).get? c current.ohfi =
            some (current.addSize b.2) from hget]
          simp only [Option.bind_some]
          rw [ih _ _ _ (hdb.append hnum), hlen]
          cases entriesIn view below last (db.ohfiCount + 1 + b.1.length) (last.path ++ ['/'])
            names with
          | none => rfl
          | some b' =>
            simp [Database.append_append, add_assoc]

theorem addEntriesForDirectory_eq (view : DirView) (c : Category) (n : ℕ) (db : Database)
    (last : CmaObject) (hdb : Counted db c) (hlast : db.get? c last.ohfi = some last) :
    addEntriesForDirectory view c n db last.ohfi =
      (entriesBelow view n db.ohfiCount last).map fun b =>
        (db.append c b.1).modify c last.ohfi (CmaObject.addSize b.2) := by
  induction n generalizing db last with
  | zero => rfl
  | succ n ih =>
    have hA : Appends c (addEntriesForDirectory view c n) (entriesBelow view n) :=
      fun db current hdb hget => ih db current hdb hget
    simp only [addEntriesForDirectory, entriesBelow, hlast, Option.bind_eq_bind, Option.bind_some]
    split_ifs
    · rfl
    cases view.opendir (last.path ++ ['/']) with
    | none =>
      simp [Database.modify]
    | some names =>
      simp only
      rw [readEntries_eq hA (fun _ _ _ => entriesBelow_scanned) last names db _ 0 hdb]
      cases entriesIn view (entriesBelow view n) last db.ohfiCount (last.path ++ ['/']) names <;>
        simp

end VitaMTP
