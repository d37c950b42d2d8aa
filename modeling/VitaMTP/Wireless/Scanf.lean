import VitaMTP.Database.Metadata

/-! The functions of the C library that take requests apart, and the header lines of a
request. -/
namespace VitaMTP

/-- `isspace` in the C locale. -/
def isSpace (ch : Char) : Bool :=
  ch = ' ' || ch = '\t' || ch = '\n' || ch = '\x0b' || ch = '\x0c' || ch = '\r'

/-- The characters in front of the terminator. `none` where there is no terminator and a
string function would run past the buffer. -/
def cString (data : List Char) : Option CString :=
  if '\x00' ∈ data then some (data.takeWhile (· != '\x00')) else none

/-- A decimal number with an optional sign at the start, and what follows it. -/
def scanNumber (s : CString) : Option (ℤ × CString) :=
  let (negative, t) := match s with
    | '-' :: t => (true, t)
    | '+' :: t => (false, t)
    | t => (false, t)
  let digits := t.takeWhile Char.isDigit
  if digits = [] then none
  else
    let value : ℤ := digits.foldl (fun n ch => 10 * n + (ch.toNat - '0'.toNat : ℕ)) 0
    some (if negative then -value else value, t.drop digits.length)

/-- What an `int` takes of a number: the library reads it into a `long`, which stops at its
bounds, and the upper half of that is dropped. -/
def storedInt (value : ℤ) : ℤ := (max (-2 ^ 63) (min value (2 ^ 63 - 1))).bmod (2 ^ 32)

def scanInt (s : CString) : Option (ℤ × CString) :=
  (scanNumber s).map fun (value, rest) => (storedInt value, rest)

def atoi (s : CString) : ℤ := ((scanInt (s.dropWhile isSpace)).map (·.1)).getD 0

/-- The number at the start of a text, whatever its size. -/
def writtenNumber (s : CString) : Option ℤ := (scanNumber (s.dropWhile isSpace)).map (·.1)

theorem atoi_of_written {s : CString} {value : ℤ} (h : writtenNumber s = some value)
    (hlow : -2 ^ 31 ≤ value) (hhigh : value < 2 ^ 31) : atoi s = value := by
  obtain ⟨⟨number, rest⟩, hscan, rfl⟩ := Option.map_eq_some_iff.mp h
  have hlong : max (-2 ^ 63) (min number (2 ^ 63 - 1)) = number := by omega
  have hint : number.bmod (2 ^ 32) = number := Int.bmod_eq_of_le (by omega) (by omega)
  rw [atoi, scanInt, hscan]
  show storedInt number = number
  rw [storedInt, hlong, hint]

example : atoi "4294967301".toList = 5 := by decide

/-- The directives of a `scanf` format. -/
inductive Directive
  | space
  | char (ch : Char)
  | str (width : ℕ)
  | int
  | count
  deriving DecidableEq, Repr

/-- What a directive stores. -/
inductive Conversion
  | str (s : CString)
  | int (i : ℤ)
  | count (n : ℕ)
  deriving DecidableEq, Repr

/-- The conversions up to the first directive that fails; `n` characters are consumed. -/
def sscanf : List Directive → CString → ℕ → List Conversion
  | [], _, _ => []
  | .space :: format, s, n =>
    sscanf format (s.dropWhile isSpace) (n + (s.takeWhile isSpace).length)
  | .char ch :: format, s, n =>
    match s with
    | [] => []
    | ch' :: s => if ch' = ch then sscanf format s (n + 1) else []
  | .str width :: format, s, n =>
    let t := s.dropWhile isSpace
    let word := (t.take width).takeWhile (fun ch => !isSpace ch)
    if word = [] then []
    else .str word :: sscanf format (t.drop word.length)
      (n + (s.takeWhile isSpace).length + word.length)
  | .int :: format, s, n =>
    let t := s.dropWhile isSpace
    match scanInt t with
    | none => []
    | some (i, rest) => .int i :: sscanf format rest
        (n + (s.takeWhile isSpace).length + (t.length - rest.length))
  | .count :: format, s, n => .count n :: sscanf format s n

/-- White space in a format stands for any run of white space. -/
def formatText (text : String) : List Directive :=
  text.toList.map fun ch => if isSpace ch then .space else .char ch

/-- What `VitaMTP_Parse_Device_Headers` finds. A field without a header line keeps what was
in it before, which is nothing. -/
structure DeviceHeaders where
  host : Option CString := none
  deviceid : Option CString := none
  type : Option CString := none
  macAddr : Option CString := none
  name : Option CString := none
  pin : Option CString := none
  deriving DecidableEq, Repr

/-- The tokens of `strtok(data, "\r\n")`. -/
def headerLines (data : CString) : List CString :=
  (data.splitOnP fun ch => ch = '\r' || ch = '\n').filter (· ≠ [])

/-- The rest of a line that starts with `key`. -/
def headerValue (key : String) (line : CString) : Option CString :=
  if key.toList.isPrefixOf line then some (line.drop key.length) else none

def parseDeviceHeader (info : DeviceHeaders) (line : CString) : DeviceHeaders :=
  if let some value := headerValue "host-id:" line then { info with host := some value }
  else if let some value := headerValue "device-id:" line then
    { info with deviceid := some value }
  else if let some value := headerValue "device-type:" line then { info with type := some value }
  else if let some value := headerValue "device-mac-address:" line then
    { info with macAddr := some value }
  else if let some value := headerValue "device-name:" line then { info with name := some value }
  else if let some value := headerValue "pin-code:" line then { info with pin := some value }
  else info

def parseDeviceHeaders (data : CString) : DeviceHeaders :=
  (headerLines data).foldl parseDeviceHeader {}

end VitaMTP
