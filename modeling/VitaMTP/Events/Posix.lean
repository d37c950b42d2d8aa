import VitaMTP.Database.Operations

/-! The file functions of `utilities.c`, over the system calls they make. -/
namespace VitaMTP

abbrev Byte := BitVec 8

/-- The system calls the host makes on a file system with states in `σ`. A call that fails
without effect is `none`. -/
structure Posix (σ : Type) where
  /-- `access(path, F_OK) == 0` -/
  access : σ → CString → Bool
  /-- `mkdir(path, S_IRWXU)` -/
  mkdir : σ → CString → Option σ
  /-- `open(name, O_WRONLY | O_CREAT | O_EXCL, 0777)` and `close` -/
  creat : σ → CString → Option σ
  /-- `fopen(name, "a+")` -/
  fopen : σ → CString → Option σ
  /-- `fwrite` to the end of a file; a short write is `false` and may leave some of the data -/
  fwrite : σ → CString → List Byte → Bool × σ
  /-- `rename(src, dest)` -/
  rename : σ → CString → CString → Option σ
  /-- `nftw(path, deleteEntry, FD_SETSIZE, FTW_DEPTH | FTW_PHYS)` -/
  removeAll : σ → CString → σ
  /-- what can be read after `fopen(name, "r")` -/
  contents : σ → CString → Option (List Byte)

/-- A call that creates, writes, renames or deletes. -/
inductive FsCall
  | mkdir (path : CString)
  | creat (path : CString)
  | write (path : CString)
  | rename (src dest : CString)
  | removeAll (path : CString)
  deriving DecidableEq, Repr

def FsCall.paths : FsCall → List CString
  | mkdir path => [path]
  | creat path => [path]
  | write path => [path]
  | rename src dest => [src, dest]
  | removeAll path => [path]

/-- The file system. `calls` is a ghost: all calls made so far, also those that failed. -/
structure Disk (σ : Type) where
  state : σ
  calls : List FsCall := []
  deriving DecidableEq, Repr

/-- Whether a function succeeds, and the file system behind it. -/
abbrev Outcome (σ : Type) := Bool × Disk σ

section files

variable {σ : Type}

def Disk.call (fs : Disk σ) (c : FsCall) (effect : Option σ) : Outcome σ :=
  (effect.isSome, { state := effect.getD fs.state, calls := fs.calls ++ [c] })

@[simp] theorem Disk.call_fst (fs : Disk σ) (c : FsCall) (effect : Option σ) :
    (fs.call c effect).1 = effect.isSome := rfl

@[simp] theorem Disk.call_state (fs : Disk σ) (c : FsCall) (effect : Option σ) :
    (fs.call c effect).2.state = effect.getD fs.state := rfl

@[simp] theorem Disk.call_calls (fs : Disk σ) (c : FsCall) (effect : Option σ) :
    (fs.call c effect).2.calls = fs.calls ++ [c] := rfl

/-- A path as the system calls see it while the loop of `createNewDirectory` cuts it at each
slash. -/
def slashPrefixes (path : CString) : List CString :=
  ((List.range path.length).filter fun i => path[i]? = some '/').map path.take

def stripSlash (path : CString) : CString :=
  if path.getLast? = some '/' then path.dropLast else path

variable (posix : Posix σ)

/-- `if (access(path, F_OK)) mkdir(path, S_IRWXU)`. -/
def mkdirIfMissing (fs : Disk σ) (path : CString) : Outcome σ :=
  if posix.access fs.state path then (true, fs)
  else fs.call (.mkdir path) (posix.mkdir fs.state path)

/-- Creates all subdirectories; only the last `mkdir` counts. -/
def createNewDirectory (fs : Disk σ) (path : CString) : Outcome σ :=
  let opath := stripSlash path
  mkdirIfMissing posix
    ((slashPrefixes opath).foldl (fun fs dir => (mkdirIfMissing posix fs dir).2) fs) opath

def createNewFile (fs : Disk σ) (name : CString) : Outcome σ :=
  fs.call (.creat name) (posix.creat fs.state name)

/-- `seek` is an `off_t`; in append mode it is checked but does not move the write. -/
def writeFileFromBuffer (fs : Disk σ) (name : CString) (seek : ULong) (data : List Byte) :
    Outcome σ :=
  let (opened, fs) := fs.call (.write name) (posix.fopen fs.state name)
  if opened = false ∨ seek.toInt < 0 then (false, fs)
  else
    let (written, state) := posix.fwrite fs.state name data
    (written, { fs with state := state })

def readFileToBuffer (fs : Disk σ) (name : CString) (seek : ULong) (len : BitVec 32) :
    Option (List Byte) := do
  let bytes ← posix.contents fs.state name
  let buflen := if len = 0 then BitVec.ofNat 32 bytes.length else len
  if seek.toInt < 0 then none
  else
    let data := (bytes.drop seek.toNat).take buflen.toNat
    if data.length < buflen.toNat then none else some data

def deleteAll (fs : Disk σ) (path : CString) : Disk σ :=
  (fs.call (.removeAll path) (some (posix.removeAll fs.state path))).2

def move (fs : Disk σ) (src dest : CString) : Outcome σ :=
  fs.call (.rename src dest) (posix.rename fs.state src dest)

/-- The length that is read for a length of 32 bits, out of a file of length `L`. -/
def bufferLength (L : ℕ) (len : BitVec 32) : ℕ := if len = 0 then L % 2 ^ 32 else len.toNat

theorem bufferLength_lt (L : ℕ) (len : BitVec 32) : bufferLength L len < 2 ^ 32 := by
  unfold bufferLength
  split
  · exact Nat.mod_lt _ (by decide)
  · exact len.isLt

theorem readFileToBuffer_eq {posix : Posix σ} {fs : Disk σ} {name : CString}
    {bytes : List Byte} (hbytes : posix.contents fs.state name = some bytes) (seek : ULong)
    (len : BitVec 32) :
    readFileToBuffer posix fs name seek len =
      if seek.toNat < 2 ^ 63 ∧ bufferLength bytes.length len ≤ bytes.length - seek.toNat then
        some ((bytes.drop seek.toNat).take (bufferLength bytes.length len))
      else none := by
  have hbuflen : (if len = 0 then BitVec.ofNat 32 bytes.length else len).toNat =
      bufferLength bytes.length len := by
    unfold bufferLength
    split
    · rw [BitVec.toNat_ofNat]
    · rfl
  have hsign : seek.toInt < 0 ↔ ¬ seek.toNat < 2 ^ 63 := by
    rw [BitVec.toInt_neg_iff]
    omega
  simp only [readFileToBuffer, hbytes, Option.bind_eq_bind, Option.bind_some, hbuflen, hsign]
  by_cases hseek : seek.toNat < 2 ^ 63
  · simp only [hseek, not_true_eq_false, if_false, true_and, List.length_take, List.length_drop]
    by_cases hlen : bufferLength bytes.length len ≤ bytes.length - seek.toNat
    · rw [if_pos hlen, if_neg (by omega)]
    · rw [if_neg hlen, if_pos (by omega)]
  · rw [if_pos hseek, if_neg fun h => hseek h.1]

end files

end VitaMTP
