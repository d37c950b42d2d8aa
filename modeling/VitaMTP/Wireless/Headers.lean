import VitaMTP.Library.Tokens
import VitaMTP.Wireless.Scanf

/-! `VitaMTP_Parse_Device_Headers` on the buffer that it cuts into lines. -/
namespace VitaMTP
open Tokens

/-- The headers that are known. -/
inductive HeaderKey
  | host
  | deviceid
  | type
  | macAddr
  | name
  | pin
  deriving DecidableEq, Repr

namespace HeaderKey

def text : HeaderKey → CString
  | host => "host-id:".toList
  | deviceid => "device-id:".toList
  | type => "device-type:".toList
  | macAddr => "device-mac-address:".toList
  | name => "device-name:".toList
  | pin => "pin-code:".toList

/-- `strncmp(info_str, key, strlen(key)) == 0` -/
def starts (key : HeaderKey) (line : CString) : Bool := key.text.isPrefixOf line

/-- The key that a line is taken for: the first one it starts with. -/
def ofLine (line : CString) : Option HeaderKey :=
  if host.starts line then some host
  else if deviceid.starts line then some deviceid
  else if type.starts line then some type
  else if macAddr.starts line then some macAddr
  else if name.starts line then some name
  else if pin.starts line then some pin
  else none

end HeaderKey

/-- Where a string is: somewhere else, or in the buffer. -/
inductive HeaderPointer
  | earlier (address : ℕ)
  | data (offset : ℕ)
  deriving DecidableEq, Repr

/-- The fields of `info`, and what `p_host` and `p_pin` point to unless they are null. -/
structure HeaderPointers where
  host : Option HeaderPointer
  deviceid : HeaderPointer
  type : HeaderPointer
  macAddr : HeaderPointer
  name : HeaderPointer
  pin : Option HeaderPointer
  deriving DecidableEq, Repr

/-- The delimiters of `strtok`. -/
def isBreak (ch : Char) : Bool := ch = '\r' || ch = '\n'

/-- What is done with the line at `p`. -/
def assignHeader (data : List Char) (p : ℕ) (info : HeaderPointers) : HeaderPointers :=
  let line := stringAt '\x00' data p
  if HeaderKey.host.starts line then
    { info with host := info.host.map fun _ => .data (p + HeaderKey.host.text.length) }
  else if HeaderKey.deviceid.starts line then
    { info with deviceid := .data (p + HeaderKey.deviceid.text.length) }
  else if HeaderKey.type.starts line then { info with type := .data (p + HeaderKey.type.text.length) }
  else if HeaderKey.macAddr.starts line then
    { info with macAddr := .data (p + HeaderKey.macAddr.text.length) }
  else if HeaderKey.name.starts line then { info with name := .data (p + HeaderKey.name.text.length) }
  else if HeaderKey.pin.starts line then
    { info with pin := info.pin.map fun _ => .data (p + HeaderKey.pin.text.length) }
  else info -- unknown field

/-- The loop over the lines, for at most `n` of them. -/
def headerLoop : ℕ → List Char → ℕ → HeaderPointers → Option (HeaderPointers × List Char)
  | 0, _, _, _ => none
  | n + 1, data, saved, info =>
    match strtok '\x00' isBreak data saved with
    | (none, data, _) => some (info, data)
    | (some p, data, saved) => headerLoop n data saved (assignHeader data p info)

/-- `VitaMTP_Parse_Device_Headers` on what is at an offset of a buffer. -/
def parseHeadersAt (data : List Char) (offset : ℕ) (info : HeaderPointers) :
    Option (HeaderPointers × List Char) := headerLoop (data.length + 1) data offset info

def DeviceHeaders.get (found : DeviceHeaders) : HeaderKey → Option CString
  | .host => found.host
  | .deviceid => found.deviceid
  | .type => found.type
  | .macAddr => found.macAddr
  | .name => found.name
  | .pin => found.pin

def DeviceHeaders.set (found : DeviceHeaders) (value : CString) : HeaderKey → DeviceHeaders
  | .host => { found with host := some value }
  | .deviceid => { found with deviceid := some value }
  | .type => { found with type := some value }
  | .macAddr => { found with macAddr := some value }
  | .name => { found with name := some value }
  | .pin => { found with pin := some value }

theorem DeviceHeaders.get_set (found : DeviceHeaders) (value : CString) (key key' : HeaderKey) :
    (found.set value key).get key' = if key' = key then some value else found.get key' := by
  cases key <;> cases key' <;> rfl

/-- Nothing where the pointer to the field is null. -/
def HeaderPointers.get (info : HeaderPointers) : HeaderKey → Option HeaderPointer
  | .host => info.host
  | .deviceid => some info.deviceid
  | .type => some info.type
  | .macAddr => some info.macAddr
  | .name => some info.name
  | .pin => info.pin

def HeaderPointers.set (info : HeaderPointers) (p : HeaderPointer) : HeaderKey → HeaderPointers
  | .host => { info with host := info.host.map fun _ => p }
  | .deviceid => { info with deviceid := p }
  | .type => { info with type := p }
  | .macAddr => { info with macAddr := p }
  | .name => { info with name := p }
  | .pin => { info with pin := info.pin.map fun _ => p }

theorem HeaderPointers.get_set (info : HeaderPointers) (p : HeaderPointer) (key key' : HeaderKey) :
    (info.set p key).get key' =
      if key' = key then (info.get key).map fun _ => p else info.get key' := by
  cases key <;> cases key' <;> rfl

theorem parseDeviceHeader_eq (found : DeviceHeaders) (line : CString) :
    parseDeviceHeader found line =
      match HeaderKey.ofLine line with
      | none => found
      | some key => found.set (line.drop key.text.length) key := by
  have hvalue (key : HeaderKey) (text : String) (htext : key.text = text.toList) :
      headerValue text line =
        if key.starts line then some (line.drop key.text.length) else none := by
    rw [HeaderKey.starts, htext, headerValue, String.length_toList]
  unfold parseDeviceHeader HeaderKey.ofLine
  rw [hvalue .host _ rfl, hvalue .deviceid _ rfl, hvalue .type _ rfl, hvalue .macAddr _ rfl,
    hvalue .name _ rfl, hvalue .pin _ rfl]
  split_ifs <;> rfl

theorem assignHeader_eq (data : List Char) (p : ℕ) (info : HeaderPointers) :
    assignHeader data p info =
      match HeaderKey.ofLine (stringAt '\x00' data p) with
      | none => info
      | some key => info.set (.data (p + key.text.length)) key := by
  unfold assignHeader HeaderKey.ofLine
  dsimp only
  split_ifs <;> rfl

theorem HeaderKey.ofLine_starts {line : CString} {key : HeaderKey} (h : ofLine line = some key) :
    key.text <+: line := by
  have hstarts : key.starts line = true := by
    unfold ofLine at h
    split_ifs at h <;> simp_all
  exact List.isPrefixOf_iff_prefix.mp hstarts

/-- Every field that was found is where its pointer says, and the others are as before. -/
structure Points (data : List Char) (saved : ℕ) (before info : HeaderPointers)
    (found : DeviceHeaders) : Prop where
  nulls : ∀ key, (info.get key).isSome = (before.get key).isSome
  values : ∀ key value, found.get key = some value → ∀ ptr, info.get key = some ptr →
    ∃ p, ptr = .data p ∧ Kept '\x00' data saved p value
  untouched : ∀ key, found.get key = none → info.get key = before.get key

theorem Points.refl (data : List Char) (saved : ℕ) (info : HeaderPointers) :
    Points data saved info info {} where
  nulls _ := rfl
  values key value h := by cases key <;> simp [DeviceHeaders.get] at h
  untouched _ _ := rfl

section run

variable {data data' : List Char} {saved saved' p : ℕ} {before info : HeaderPointers}
  {found : DeviceHeaders} {line text : CString}

theorem Points.mono (h : Points data saved before info found)
    (hkept : ∀ p s, Kept '\x00' data saved p s → Kept '\x00' data' saved' p s) :
    Points data' saved' before info found where
  nulls := h.nulls
  values key value hvalue ptr hptr := by
    obtain ⟨p, hp, hk⟩ := h.values key value hvalue ptr hptr
    exact ⟨p, hp, hkept p value hk⟩
  untouched := h.untouched

theorem Points.assign (h : Points data saved before info found)
    (hline : Kept '\x00' data saved p line) :
    Points data saved before (assignHeader data p info) (parseDeviceHeader found line) := by
  rw [assignHeader_eq, parseDeviceHeader_eq, hline.1.eq]
  cases hkey : HeaderKey.ofLine line with
  | none => exact h
  | some key =>
    have hvalue := hline.suffix (HeaderKey.ofLine_starts hkey).length_le
    constructor
    · intro key'
      rw [HeaderPointers.get_set]
      split_ifs with heq
      · rw [Option.isSome_map, heq, h.nulls]
      · exact h.nulls key'
    · intro key' value hfound ptr hptr
      rw [DeviceHeaders.get_set] at hfound
      rw [HeaderPointers.get_set] at hptr
      split_ifs at hfound hptr with heq
      · obtain rfl := Option.some.inj hfound
        obtain ⟨old, -, rfl⟩ := Option.map_eq_some_iff.mp hptr
        exact ⟨_, rfl, hvalue⟩
      · exact h.values key' value hfound ptr hptr
    · intro key' hfound
      rw [DeviceHeaders.get_set] at hfound
      rw [HeaderPointers.get_set]
      split_ifs at hfound ⊢ with heq
      exact h.untouched key' hfound

/-- The lines that the loop cuts off are those of the text, one after the other. -/
theorem headerLoop_points {n : ℕ} (htext : StringAt '\x00' data saved text) (hn : text.length < n)
    (h : Points data saved before info found) :
    ∃ info' data' saved', headerLoop n data saved info = some (info', data') ∧
      Points data' saved' before info' ((tokens isBreak text).foldl parseDeviceHeader found) := by
  induction n generalizing data saved text info found with
  | zero => omega
  | succ n ih =>
    rcases strtok_cases isBreak htext with ⟨htokens, saved', hcall⟩ |
      ⟨start, token, rest, data', saved', hcall, htokens, hlength, hrest, htoken, hkept⟩
    · refine ⟨info, data, saved, ?_, ?_⟩
      · rw [headerLoop, hcall]
      · rw [htokens]
        exact h
    · obtain ⟨info', data'', saved'', hrun, hpoints⟩ :=
        ih hrest (by omega) ((h.mono hkept).assign htoken)
      refine ⟨info', data'', saved'', ?_, ?_⟩
      · rw [headerLoop, hcall]
        exact hrun
      · rw [htokens, List.foldl_cons]
        exact hpoints

theorem headerLines_eq (text : CString) : headerLines text = tokens isBreak text := by
  show (text.splitOnP isBreak).filter (· ≠ []) = _
  refine List.filter_congr fun part _ => ?_
  cases part with
  | nil => rfl
  | cons ch part => rfl

/-- The pointers into the buffer point to what the same lines are parsed to without one. -/
theorem parseHeadersAt_points {offset : ℕ} (htext : StringAt '\x00' data offset text)
    (info : HeaderPointers) :
    ∃ info' data' saved', parseHeadersAt data offset info = some (info', data') ∧
      Points data' saved' info info' (parseDeviceHeaders text) := by
  have hlength := htext.lt_length
  unfold parseHeadersAt parseDeviceHeaders
  rw [headerLines_eq]
  exact headerLoop_points htext (by omega) (Points.refl data offset info)

end run

/-- A line with a known key, or any other line. -/
inductive HeaderLine
  | known (key : HeaderKey) (value : CString)
  | unknown (line : CString)
  deriving DecidableEq, Repr

namespace HeaderLine

def text : HeaderLine → CString
  | known key value => key.text ++ value
  | unknown line => line

def key? : HeaderLine → Option HeaderKey
  | known key _ => some key
  | unknown _ => none

/-- It is one line, and if it looks like a known header it is one. -/
def Clean : HeaderLine → Prop
  | known _ value => ∀ ch ∈ value, isBreak ch = false ∧ ch ≠ '\x00'
  | unknown line => (∀ ch ∈ line, isBreak ch = false ∧ ch ≠ '\x00') ∧
      ∀ key : HeaderKey, ¬ key.text <+: line

end HeaderLine

/-- Between two lines there is at least one delimiter. -/
def Separated : List (HeaderLine × CString) → Prop
  | [] => True
  | [last] => ∀ ch ∈ last.2, isBreak ch = true
  | line :: next :: lines => line.2 ≠ [] ∧ (∀ ch ∈ line.2, isBreak ch = true) ∧
      Separated (next :: lines)

/-- The lines, each with what separates it from the next one. -/
def headerText (lines : List (HeaderLine × CString)) : CString :=
  lines.flatMap fun line => line.1.text ++ line.2

def suppliedKeys (lines : List (HeaderLine × CString)) : List HeaderKey :=
  lines.filterMap fun line => line.1.key?

theorem HeaderKey.text_clean (key : HeaderKey) :
    ∀ ch ∈ key.text, isBreak ch = false ∧ ch ≠ '\x00' := by
  cases key <;> decide

theorem HeaderKey.ofLine_text (key : HeaderKey) (value : CString) :
    ofLine (key.text ++ value) = some key := by
  cases key <;> rfl

theorem HeaderLine.Clean.text {line : HeaderLine} (h : line.Clean) :
    ∀ ch ∈ line.text, isBreak ch = false ∧ ch ≠ '\x00' := by
  cases line with
  | known key value =>
    intro ch hch
    rcases List.mem_append.mp hch with hch | hch
    · exact key.text_clean ch hch
    · exact h ch hch
  | unknown line => exact h.1

theorem HeaderLine.Clean.ofLine {line : HeaderLine} (h : line.Clean) :
    HeaderKey.ofLine line.text = line.key? := by
  cases line with
  | known key value => exact key.ofLine_text value
  | unknown line =>
    rw [HeaderLine.key?, Option.eq_none_iff_forall_ne_some]
    intro key hkey
    exact h.2 key (HeaderKey.ofLine_starts hkey)

theorem Separated.cons {line : HeaderLine × CString} {lines : List (HeaderLine × CString)}
    (h : Separated (line :: lines)) :
    (∀ ch ∈ line.2, isBreak ch = true) ∧ (line.2 = [] → headerText lines = []) ∧
      Separated lines := by
  cases lines with
  | nil => exact ⟨h, fun _ => rfl, trivial⟩
  | cons next lines => exact ⟨h.2.1, fun hnil => absurd hnil h.1, h.2.2⟩

theorem isBreak_ne {ch : Char} (h : isBreak ch = true) : ch ≠ '\x00' := by
  rintro rfl
  simp [isBreak] at h

theorem headerText_clean {lines : List (HeaderLine × CString)} (hsep : Separated lines)
    (hclean : ∀ line ∈ lines, line.1.Clean) : '\x00' ∉ headerText lines := by
  induction lines with
  | nil => simp [headerText]
  | cons line lines ih =>
    obtain ⟨hbreaks, -, hseps⟩ := hsep.cons
    have hline := hclean line (List.mem_cons_self ..)
    have hrest := ih hseps fun line hmem => hclean line (List.mem_cons_of_mem _ hmem)
    intro hmem
    rw [headerText, List.flatMap_cons, List.append_assoc, List.mem_append, List.mem_append] at hmem
    rcases hmem with hmem | hmem | hmem
    · exact (hline.text _ hmem).2 rfl
    · exact isBreak_ne (hbreaks _ hmem) rfl
    · exact hrest hmem

theorem foldl_headerText {lines : List (HeaderLine × CString)} (hsep : Separated lines)
    (hclean : ∀ line ∈ lines, line.1.Clean) (found : DeviceHeaders) :
    (tokens isBreak (headerText lines)).foldl parseDeviceHeader found =
      lines.foldl (fun found line => parseDeviceHeader found line.1.text) found := by
  induction lines generalizing found with
  | nil => rfl
  | cons line lines ih =>
    obtain ⟨hbreaks, hlast, hseps⟩ := hsep.cons
    have hline := hclean line (List.mem_cons_self ..)
    have hrest := ih hseps fun line hmem => hclean line (List.mem_cons_of_mem _ hmem)
    have htext : headerText (line :: lines) = line.1.text ++ (line.2 ++ headerText lines) := by
      rw [headerText, List.flatMap_cons, List.append_assoc]
      rfl
    rw [htext, tokens_part (fun ch hch => (hline.text ch hch).1) hbreaks hlast, List.foldl_cons]
    split_ifs with hempty
    · have hnone : HeaderKey.ofLine [] = none := rfl
      rw [hrest, hempty, parseDeviceHeader_eq, hnone]
    · rw [List.foldl_cons, hrest]

theorem foldl_get {lines : List (HeaderLine × CString)} (hclean : ∀ line ∈ lines, line.1.Clean)
    (hdistinct : (suppliedKeys lines).Nodup) (found : DeviceHeaders)
    (key : HeaderKey) :
    (∀ value, .known key value ∈ lines.map Prod.fst →
      (lines.foldl (fun found line => parseDeviceHeader found line.1.text) found).get key =
        some value) ∧
    (key ∉ suppliedKeys lines →
      (lines.foldl (fun found line => parseDeviceHeader found line.1.text) found).get key =
        found.get key) := by
  induction lines generalizing found with
  | nil => simp
  | cons line lines ih =>
    obtain ⟨header, seps⟩ := line
    have hline : header.Clean := hclean (header, seps) (List.mem_cons_self ..)
    have hlines : ∀ line ∈ lines, line.1.Clean :=
      fun line hmem => hclean line (List.mem_cons_of_mem _ hmem)
    have hparsed := parseDeviceHeader_eq found header.text
    rw [hline.ofLine] at hparsed
    cases header with
    | known key' value' =>
      have hkey : (HeaderLine.known key' value').key? = some key' := rfl
      have hdrop : (HeaderLine.known key' value').text.drop key'.text.length = value' :=
        List.drop_left ..
      have hkeys : suppliedKeys ((.known key' value', seps) :: lines) =
        key' :: suppliedKeys lines := rfl
      rw [hkeys] at hdistinct ⊢
      obtain ⟨hnot, hdistinct⟩ := List.nodup_cons.mp hdistinct
      rw [List.foldl_cons, hparsed]
      simp only [hkey, hdrop]
      obtain ⟨hmem, habsent⟩ := ih hlines hdistinct (found.set value' key')
      constructor
      · intro value hvalue
        rcases List.mem_cons.mp hvalue with heq | hvalue
        · obtain ⟨rfl, rfl⟩ := HeaderLine.known.inj heq
          rw [habsent hnot, DeviceHeaders.get_set, if_pos rfl]
        · exact hmem value hvalue
      · intro hkeys
        rw [List.mem_cons, not_or] at hkeys
        rw [habsent hkeys.2, DeviceHeaders.get_set, if_neg hkeys.1]
    | unknown text =>
      have hkey : (HeaderLine.unknown text).key? = none := rfl
      have hkeys : suppliedKeys ((.unknown text, seps) :: lines) = suppliedKeys lines := rfl
      rw [hkeys] at hdistinct ⊢
      rw [List.foldl_cons, hparsed]
      simp only [hkey]
      obtain ⟨hmem, habsent⟩ := ih hlines hdistinct found
      refine ⟨fun value hvalue => hmem value ?_, habsent⟩
      rcases List.mem_cons.mp hvalue with heq | hvalue
      · exact absurd heq (by simp)
      · exact hvalue

/-- Whatever the order of the lines, their separators and the lines in between: the pointer of a
header that is supplied leads to its value, and all others are left alone. -/
theorem parseHeadersAt_exact {lead : CString} {lines : List (HeaderLine × CString)}
    (hlead : ∀ ch ∈ lead, isBreak ch = true) (hsep : Separated lines)
    (hclean : ∀ line ∈ lines, line.1.Clean)
    (hdistinct : (suppliedKeys lines).Nodup) (rest : List Char)
    (info : HeaderPointers) :
    ∃ info' data, parseHeadersAt (lead ++ headerText lines ++ '\x00' :: rest) 0 info =
        some (info', data) ∧
      ∀ key, (info'.get key).isSome = (info.get key).isSome ∧
        (∀ value, .known key value ∈ lines.map Prod.fst → ∀ ptr, info'.get key = some ptr →
          ∃ p, ptr = .data p ∧ stringAt '\x00' data p = value) ∧
        (key ∉ suppliedKeys lines → info'.get key = info.get key) := by
  have hnul : '\x00' ∉ lead ++ headerText lines := by
    rw [List.mem_append, not_or]
    exact ⟨fun hmem => isBreak_ne (hlead _ hmem) rfl, headerText_clean hsep hclean⟩
  have htext : tokens isBreak (lead ++ headerText lines) = tokens isBreak (headerText lines) :=
    tokens_append hlead
  obtain ⟨info', data, saved, hrun, hpoints⟩ :=
    parseHeadersAt_points (StringAt.initial hnul rest) info
  rw [parseDeviceHeaders, headerLines_eq, htext, foldl_headerText hsep hclean] at hpoints
  refine ⟨info', data, hrun, fun key => ?_⟩
  obtain ⟨hfound, habsent⟩ := foldl_get hclean hdistinct {} key
  refine ⟨hpoints.nulls key, fun value hvalue ptr hptr => ?_, fun hkey => ?_⟩
  · obtain ⟨p, hp, hkept⟩ := hpoints.values key value (hfound value hvalue) ptr hptr
    exact ⟨p, hp, hkept.1.eq⟩
  · apply hpoints.untouched
    rw [habsent hkey]
    cases key <;> rfl

/-- A pin and, behind an unknown line, an id that looks like headers itself. -/
def sampleLines : List (HeaderLine × CString) :=
  [(.known .pin "12".toList, "\r\n".toList), (.unknown "x:y".toList, "\n\n".toList),
    (.known .deviceid "a:host-id:b".toList, [])]

/-- Only `p_pin` is given. -/
def samplePointers : HeaderPointers :=
  ⟨none, .earlier 1, .earlier 2, .earlier 3, .earlier 4, some (.earlier 5)⟩

theorem sampleLines_clean : ∀ line ∈ sampleLines, line.1.Clean := by
  have hunknown : ∀ key : HeaderKey, ¬ key.text <+: "x:y".toList := by
    intro key
    cases key <;> decide
  simp only [sampleLines, List.forall_mem_cons]
  exact ⟨by unfold HeaderLine.Clean; decide, ⟨by decide, hunknown⟩,
    by unfold HeaderLine.Clean; decide, by simp⟩

theorem sampleLines_separated : Separated sampleLines :=
  ⟨by decide, by decide, by decide, by decide, fun _ h => absurd h List.not_mem_nil⟩

theorem parseHeadersAt_sample :
    ∃ info' data, parseHeadersAt ("\n".toList ++ headerText sampleLines ++ '\x00' :: []) 0
        samplePointers = some (info', data) ∧
      ∀ key, (info'.get key).isSome = (samplePointers.get key).isSome ∧
        (∀ value, .known key value ∈ sampleLines.map Prod.fst → ∀ ptr, info'.get key = some ptr →
          ∃ p, ptr = .data p ∧ stringAt '\x00' data p = value) ∧
        (key ∉ suppliedKeys sampleLines → info'.get key = samplePointers.get key) :=
  parseHeadersAt_exact (by decide) sampleLines_separated sampleLines_clean (by decide) []
    samplePointers

end VitaMTP
