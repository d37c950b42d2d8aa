import VitaMTP.Wireless.Headers
import VitaMTP.Wireless.Pairing

/-! Which requests `VitaMTP_Get_Wireless_Device` handles with nothing but what is in them. -/
namespace VitaMTP
open Tokens

/-- What is used although the request does not determine it, or is not there at all. -/
inductive RequestFault
  /-- a byte behind the received ones is examined -/
  | pastEnd
  /-- more than its 20 bytes are stored in `method` -/
  | method
  /-- `read`, `info.deviceid` or `pin_try` is used and was not assigned -/
  | read
  | deviceid
  | pinTry
  deriving DecidableEq, Repr

/-- What a request is handled as. -/
inductive RequestOutcome
  | closed
  | rejected
  | connect (guid : CString) (dataPort : ℤ)
  | showPin (deviceid : CString)
  | register (deviceid : CString) (pinTry : Option CString)
  | standby
  | ignored
  deriving DecidableEq, Repr

/-- The string a pointer leads to, if the pointer was assigned. -/
def HeaderPointer.string (data : List Char) : HeaderPointer → Option CString
  | .earlier _ => none
  | .data p => some (stringAt '\x00' data p)

/-- The local `info`, and `pin_try` if its address is given. -/
def unassigned (pinTry : Option HeaderPointer) : HeaderPointers where
  host := none
  deviceid := .earlier 0
  type := .earlier 0
  macAddr := .earlier 0
  name := .earlier 0
  pin := pinTry

/-- What is assigned, or the fault of using it. -/
def assigned {α : Type} (fault : RequestFault) : Option α → Except RequestFault α
  | none => .error fault
  | some a => .ok a

/-- The branches of the methods. `guid` is the device a PIN was generated for, `pin` that PIN. -/
def handleMethod (guid : CString) (pin : ℤ) (data : List Char) (read : Option ℕ) :
    Method → Except RequestFault RequestOutcome
  | .connect => do
    let read ← assigned .read read
    match parseConnect (stringAt '\x00' data read) with
    | .full guid dataPort => return .connect guid dataPort
    | _ => return .rejected
  | .showPin => do
    let read ← assigned .read read
    let (info, data) ← assigned .pastEnd (parseHeadersAt data read (unassigned none))
    let deviceid ← assigned .deviceid (info.deviceid.string data)
    return .showPin deviceid
  | .register => do
    let read ← assigned .read read
    let (info, data) ← assigned .pastEnd
      (parseHeadersAt data read (unassigned (some (.earlier 0))))
    let deviceid ← assigned .deviceid (info.deviceid.string data)
    if guid ≠ deviceid then return .register deviceid none
    else if pin < 0 then return .register deviceid none
    else
      let pinTry ← assigned .pinTry (info.pin.bind (HeaderPointer.string data))
      return .register deviceid (some pinTry)
  | .standby => return .standby
  | .other => return .ignored

/-- One request. The client closes the connection where nothing is received. -/
def handleRequest (guid : CString) (pin : ℤ) (data : List Char) :
    Except RequestFault RequestOutcome :=
  if data = [] then return .closed
  else do
    let text ← assigned .pastEnd (cString data)
    match sscanf requestFormat text 0 with
    | .str method :: conversions =>
      if 20 < method.length + 1 then throw .method
      else
        let read := match conversions with
          | [.count n] => some n
          | _ => none
        handleMethod guid pin data read (.ofString method)
    | _ => return .rejected

/-- The first run of characters that are no white space. -/
def firstWord (text : CString) : CString :=
  (text.dropWhile isSpace).takeWhile fun ch => !isSpace ch

/-- The text behind the string, if it starts with it, and behind the white space after it. -/
def skipText (pattern s : CString) : Option CString :=
  if pattern.isPrefixOf s then some ((s.drop pattern.length).dropWhile isSpace) else none

/-- What is behind a first line ` * HTTP/1.1` and its line break. -/
def requestHeaders (text : CString) : Option CString :=
  let rest := ((text.dropWhile isSpace).dropWhile fun ch => !isSpace ch).dropWhile isSpace
  (skipText "*".toList rest).bind (skipText "HTTP/1.1".toList)

section scan

variable {format : List Directive} {text s : CString} {n : ℕ}

theorem sscanf_chars (pattern : CString) :
    sscanf (pattern.map .char ++ format) s n =
      if pattern.isPrefixOf s then
        sscanf format (s.drop pattern.length) (n + pattern.length)
      else [] := by
  induction pattern generalizing s n with
  | nil => simp
  | cons ch pattern ih =>
    cases s with
    | nil => simp [sscanf]
    | cons ch' s =>
      rw [List.map_cons, List.cons_append, sscanf, List.isPrefixOf_cons_cons]
      by_cases hch : ch' = ch
      · subst hch
        rw [if_pos rfl, ih]
        simp [Nat.add_assoc, Nat.add_comm 1]
      · have hne : (ch == ch') = false := by simpa using Ne.symm hch
        rw [if_neg hch, hne]
        rfl

theorem skipText_suffix {pattern rest : CString} (h : skipText pattern s = some rest) :
    rest <:+ s := by
  unfold skipText at h
  split_ifs at h
  obtain rfl := Option.some.inj h
  exact (List.dropWhile_suffix _).trans (List.drop_suffix _ _)

theorem skipText_takeWhile {pattern rest : CString} (h : skipText pattern s = some rest) :
    rest.takeWhile isSpace = [] := by
  unfold skipText at h
  split_ifs at h
  obtain rfl := Option.some.inj h
  exact takeWhile_dropWhile isSpace _

theorem sscanf_skipText (pattern : CString) :
    sscanf (pattern.map .char ++ .space :: format) s n =
      match skipText pattern s with
      | none => []
      | some rest => sscanf format rest (n + (s.length - rest.length)) := by
  rw [sscanf_chars, skipText]
  split_ifs with hprefix
  · have hparts := List.takeWhile_append_dropWhile (p := isSpace) (l := s.drop pattern.length)
    have hlength := congrArg List.length hparts
    have hle := (List.isPrefixOf_iff_prefix.mp hprefix).length_le
    rw [List.length_append, List.length_drop] at hlength
    rw [sscanf]
    dsimp only
    congr 1
    omega
  · rfl

theorem requestFormat_eq :
    requestFormat = .str 20 :: .space :: ("*".toList.map .char ++
      .space :: ("HTTP/1.1".toList.map .char ++ [.space, .space, .count])) := by
  decide

theorem sscanf_method :
    sscanf (.str 20 :: format) text 0 =
      if firstWord text = [] then []
      else .str ((firstWord text).take 20) :: sscanf format
        ((text.dropWhile isSpace).drop ((firstWord text).take 20).length)
        ((text.takeWhile isSpace).length + ((firstWord text).take 20).length) := by
  have hword : ((text.dropWhile isSpace).take 20).takeWhile (fun ch => !isSpace ch) =
      (firstWord text).take 20 := List.take_takeWhile.symm
  have hempty : (firstWord text).take 20 = [] ↔ firstWord text = [] := by
    rw [List.take_eq_nil_iff]
    simp
  rw [sscanf]
  simp only [hword, hempty, Nat.zero_add]

theorem requestHeaders_suffix {headers : CString} (h : requestHeaders text = some headers) :
    headers <:+ text := by
  obtain ⟨rest, hstar, hhttp⟩ := Option.bind_eq_some_iff.mp h
  apply (skipText_suffix hhttp).trans ((skipText_suffix hstar).trans _)
  exact (List.dropWhile_suffix _).trans ((List.dropWhile_suffix _).trans (List.dropWhile_suffix _))

theorem sscanf_requestFormat (hne : firstWord text ≠ []) (hlt : (firstWord text).length < 20) :
    sscanf requestFormat text 0 = .str (firstWord text) ::
      match requestHeaders text with
      | none => []
      | some headers => [.count (text.length - headers.length)] := by
  have htext := List.takeWhile_append_dropWhile (p := isSpace) (l := text)
  have hword := List.takeWhile_append_dropWhile (p := fun ch => !isSpace ch)
    (l := text.dropWhile isSpace)
  have hline := List.takeWhile_append_dropWhile (p := isSpace)
    (l := (text.dropWhile isSpace).dropWhile fun ch => !isSpace ch)
  have hdrop : (text.dropWhile isSpace).drop (firstWord text).length =
      (text.dropWhile isSpace).dropWhile fun ch => !isSpace ch := by
    conv_lhs => rw [← hword]
    exact List.drop_left ..
  rw [requestFormat_eq, sscanf_method, if_neg hne, List.take_of_length_le (by omega), hdrop, sscanf,
    sscanf_skipText, requestHeaders]
  congr 1
  cases hstar : skipText "*".toList
      (((text.dropWhile isSpace).dropWhile fun ch => !isSpace ch).dropWhile isSpace) with
  | none => rfl
  | some line =>
    rw [Option.bind_some]
    dsimp only
    rw [sscanf_skipText]
    cases hhttp : skipText "HTTP/1.1".toList line with
    | none => rfl
    | some headers =>
      have hspace := skipText_takeWhile hhttp
      have hle₁ := (skipText_suffix hstar).length_le
      have hle₂ := (skipText_suffix hhttp).length_le
      have hlength₁ := congrArg List.length htext
      have hlength₂ := congrArg List.length hword
      have hlength₃ := congrArg List.length hline
      simp only [List.length_append] at hlength₁ hlength₂ hlength₃
      simp only [sscanf, hspace, List.length_nil, firstWord]
      congr 2
      omega

end scan

def HasHeader (key : HeaderKey) (headers : CString) : Prop :=
  ∃ line ∈ headerLines headers, key.text <+: line

theorem ofLine_eq_some_iff {line : CString} {key : HeaderKey} :
    HeaderKey.ofLine line = some key ↔ key.text <+: line := by
  constructor
  · exact HeaderKey.ofLine_starts
  · rintro ⟨value, rfl⟩
    exact key.ofLine_text value

theorem hasHeader_iff (key : HeaderKey) (headers : CString) :
    ((parseDeviceHeaders headers).get key).isSome ↔ HasHeader key headers := by
  have hfold (lines : List CString) (found : DeviceHeaders) :
      ((lines.foldl parseDeviceHeader found).get key).isSome ↔
        (found.get key).isSome ∨ ∃ line ∈ lines, key.text <+: line := by
    induction lines generalizing found with
    | nil => simp
    | cons line lines ih =>
      rw [List.foldl_cons, ih, parseDeviceHeader_eq, List.exists_mem_cons_iff, ← or_assoc]
      refine or_congr_left ?_
      rw [← ofLine_eq_some_iff]
      cases hkey : HeaderKey.ofLine line with
      | none => simp
      | some key' =>
        rw [DeviceHeaders.get_set, Option.some.injEq]
        split_ifs with heq
        · simp [heq]
        · simp [Ne.symm heq]
  unfold parseDeviceHeaders HasHeader
  rw [hfold]
  refine or_iff_right ?_
  cases key <;> simp [DeviceHeaders.get]

theorem parseHeadersAt_unassigned {data : List Char} {read : ℕ} {headers : CString}
    (h : StringAt '\x00' data read headers) (pinTry : Option HeaderPointer) :
    ∃ info data', parseHeadersAt data read (unassigned pinTry) = some (info, data') ∧
      info.deviceid.string data' = (parseDeviceHeaders headers).deviceid ∧
      (pinTry = some (.earlier 0) →
        info.pin.bind (HeaderPointer.string data') = (parseDeviceHeaders headers).pin) := by
  obtain ⟨info, data', saved, hrun, hpoints⟩ := parseHeadersAt_points h (unassigned pinTry)
  have hvalue (key : HeaderKey) (ptr : HeaderPointer) (hptr : info.get key = some ptr)
      (hbefore : (unassigned pinTry).get key = some (.earlier 0)) :
      ptr.string data' = (parseDeviceHeaders headers).get key := by
    cases hfound : (parseDeviceHeaders headers).get key with
    | none =>
      have huntouched := hpoints.untouched key hfound
      rw [hptr, hbefore] at huntouched
      obtain rfl := Option.some.inj huntouched
      rfl
    | some value =>
      obtain ⟨p, rfl, hkept⟩ := hpoints.values key value hfound ptr hptr
      exact congrArg some hkept.1.eq
  refine ⟨info, data', hrun, hvalue .deviceid _ rfl rfl, fun hpin => ?_⟩
  have hsome := hpoints.nulls .pin
  rw [show (unassigned pinTry).get .pin = some (.earlier 0) from hpin] at hsome
  obtain ⟨ptr, hptr⟩ := Option.isSome_iff_exists.mp hsome
  have hinfo : info.pin = some ptr := hptr
  rw [hinfo]
  exact hvalue .pin ptr hptr hpin

/-- There is a terminator, the method leaves room for its own, and a method whose headers are read
has a whole first line and the headers that are used: the id, and the PIN where the device is the
one that a PIN was generated for. -/
def SafeRequest (guid : CString) (pin : ℤ) (data : List Char) : Prop :=
  ∃ text, cString data = some text ∧ (firstWord text).length < 20 ∧
    match Method.ofString (firstWord text) with
    | .connect => (requestHeaders text).isSome
    | .showPin => ∃ headers, requestHeaders text = some headers ∧ HasHeader .deviceid headers
    | .register => ∃ headers, requestHeaders text = some headers ∧ HasHeader .deviceid headers ∧
        ((parseDeviceHeaders headers).deviceid = some guid → 0 ≤ pin → HasHeader .pin headers)
    | _ => True

theorem ne_nil_of_cString {data : List Char} {text : CString} (h : cString data = some text) :
    data ≠ [] := by
  intro hdata
  rw [hdata] at h
  simp [cString] at h

theorem cString_eq_some {data : List Char} {text : CString} (h : cString data = some text) :
    StringAt '\x00' data 0 text := by
  unfold cString at h
  split_ifs at h with hnul
  obtain rfl := Option.some.inj h
  refine ⟨fun hmem => by simpa using List.mem_takeWhile_imp hmem, ?_⟩
  have hparts := List.takeWhile_append_dropWhile (p := fun ch => ch != '\x00') (l := data)
  have hhead := List.head?_dropWhile_not (fun ch => ch != '\x00') data
  cases hrest : data.dropWhile (fun ch => ch != '\x00') with
  | nil =>
    rw [hrest, List.append_nil] at hparts
    rw [← hparts] at hnul
    exact absurd (List.mem_takeWhile_imp hnul) (by simp)
  | cons ch rest =>
    rw [hrest] at hhead hparts
    obtain rfl : ch = '\x00' := by simpa using hhead
    exact ⟨rest, hparts.symm⟩

theorem stringAt_headers {data : List Char} {text headers : CString}
    (h : StringAt '\x00' data 0 text) (hheaders : requestHeaders text = some headers) :
    StringAt '\x00' data (text.length - headers.length) headers := by
  have hsuffix := requestHeaders_suffix hheaders
  have hat := h.suffix (k := text.length - headers.length) (Nat.sub_le _ _)
  rwa [Nat.zero_add, ← List.suffix_iff_eq_drop.mp hsuffix] at hat

section outcomes

variable {guid : CString} {pin : ℤ} {data : List Char} {text : CString}

theorem handleRequest_empty (htext : cString data = some text) (hempty : firstWord text = []) :
    handleRequest guid pin data = .ok .rejected := by
  have hscan : sscanf requestFormat text 0 = [] := by
    rw [requestFormat_eq, sscanf_method, if_pos hempty]
  rw [handleRequest, if_neg (ne_nil_of_cString htext)]
  simp only [htext, assigned, bind, Except.bind, hscan]
  rfl

theorem handleRequest_long (htext : cString data = some text)
    (hlong : 20 ≤ (firstWord text).length) :
    handleRequest guid pin data = .error .method := by
  have hne : firstWord text ≠ [] := by
    intro hempty
    rw [hempty] at hlong
    simp at hlong
  have hlength : ((firstWord text).take 20).length = 20 := by
    rw [List.length_take]
    omega
  rw [handleRequest, if_neg (ne_nil_of_cString htext)]
  simp only [htext, assigned, bind, Except.bind, requestFormat_eq, sscanf_method, if_neg hne,
    hlength]
  rfl

theorem handleRequest_short (htext : cString data = some text) (hne : firstWord text ≠ [])
    (hshort : (firstWord text).length < 20) :
    handleRequest guid pin data = handleMethod guid pin data
      ((requestHeaders text).map fun headers => text.length - headers.length)
      (.ofString (firstWord text)) := by
  have hlt : ¬ 20 < (firstWord text).length + 1 := by omega
  rw [handleRequest, if_neg (ne_nil_of_cString htext)]
  simp only [htext, assigned, bind, Except.bind, sscanf_requestFormat hne hshort, if_neg hlt]
  cases requestHeaders text with
  | none => rfl
  | some headers => rfl

theorem assigned_ok_iff {α : Type} {fault : RequestFault} {x : Option α}
    {f : α → Except RequestFault RequestOutcome} :
    (∃ outcome, (assigned fault x >>= f) = .ok outcome) ↔
      ∃ a, x = some a ∧ ∃ outcome, f a = .ok outcome := by
  cases x with
  | none => simp [assigned, bind, Except.bind]
  | some a => simp [assigned, bind, Except.bind]

theorem handleMethod_ok_iff (htext : StringAt '\x00' data 0 text) (method : Method) :
    (∃ outcome, handleMethod guid pin data
        ((requestHeaders text).map fun headers => text.length - headers.length) method =
          .ok outcome) ↔
      match method with
      | .connect => (requestHeaders text).isSome
      | .showPin => ∃ headers, requestHeaders text = some headers ∧ HasHeader .deviceid headers
      | .register => ∃ headers, requestHeaders text = some headers ∧ HasHeader .deviceid headers ∧
          ((parseDeviceHeaders headers).deviceid = some guid → 0 ≤ pin → HasHeader .pin headers)
      | _ => True := by
  cases hheaders : requestHeaders text with
  | none =>
    cases method with
    | connect => simp [handleMethod, assigned, bind, Except.bind]
    | showPin => simp [handleMethod, assigned, bind, Except.bind]
    | register => simp [handleMethod, assigned, bind, Except.bind]
    | standby => exact iff_of_true ⟨_, rfl⟩ trivial
    | other => exact iff_of_true ⟨_, rfl⟩ trivial
  | some headers =>
    have hat := stringAt_headers htext hheaders
    have hid : (parseDeviceHeaders headers).deviceid.isSome ↔ HasHeader .deviceid headers :=
      hasHeader_iff .deviceid headers
    have hpin : (parseDeviceHeaders headers).pin.isSome ↔ HasHeader .pin headers :=
      hasHeader_iff .pin headers
    simp only [Option.map_some, Option.isSome_some, Option.some.injEq, exists_eq_left',
      ← hid, ← hpin]
    cases method with
    | connect =>
      refine iff_of_true ?_ trivial
      simp only [handleMethod, assigned, bind, Except.bind]
      split
      · exact ⟨_, rfl⟩
      · exact ⟨_, rfl⟩
    | showPin =>
      obtain ⟨info, data', hrun, hdeviceid, -⟩ := parseHeadersAt_unassigned hat none
      simp only [handleMethod, assigned_ok_iff, Option.some.injEq, exists_eq_left', hrun,
        hdeviceid]
      rw [Option.isSome_iff_exists]
      refine exists_congr fun deviceid => and_iff_left ?_
      exact ⟨_, rfl⟩
    | register =>
      obtain ⟨info, data', hrun, hdeviceid, hpinTry⟩ :=
        parseHeadersAt_unassigned hat (some (.earlier 0))
      simp only [handleMethod, assigned_ok_iff, Option.some.injEq, exists_eq_left', hrun,
        hdeviceid, hpinTry rfl]
      rw [Option.isSome_iff_exists]
      cases hfound : (parseDeviceHeaders headers).deviceid with
      | none => simp
      | some deviceid =>
        simp only [Option.some.injEq, exists_eq_left', exists_eq', true_and]
        by_cases hguid : guid = deviceid
        · rw [if_neg (not_not.mpr hguid)]
          by_cases hnopin : pin < 0
          · rw [if_pos hnopin]
            exact iff_of_true ⟨_, rfl⟩ fun _ hle => absurd hle (not_le.mpr hnopin)
          · rw [if_neg hnopin, assigned_ok_iff, Option.isSome_iff_exists]
            simp only [hguid, not_lt.mp hnopin, true_imp_iff]
            refine exists_congr fun pinTry => and_iff_left ?_
            exact ⟨_, rfl⟩
        · rw [if_pos hguid]
          exact iff_of_true ⟨_, rfl⟩ fun heq => absurd heq.symm hguid
    | standby => exact iff_of_true ⟨_, rfl⟩ trivial
    | other => exact iff_of_true ⟨_, rfl⟩ trivial

end outcomes

/-- What is received is handled with nothing but what is in it if and only if it is the end of the
connection or a safe request. -/
theorem handleRequest_ok_iff (guid : CString) (pin : ℤ) (data : List Char) :
    (∃ outcome, handleRequest guid pin data = .ok outcome) ↔
      data = [] ∨ SafeRequest guid pin data := by
  by_cases hdata : data = []
  · rw [handleRequest, if_pos hdata]
    exact iff_of_true ⟨_, rfl⟩ (.inl hdata)
  rw [or_iff_right hdata]
  unfold SafeRequest
  cases htext : cString data with
  | none => simp [handleRequest, hdata, htext, assigned, bind, Except.bind]
  | some text =>
    simp only [Option.some.injEq, exists_eq_left']
    by_cases hempty : firstWord text = []
    · have hother : Method.ofString [] = .other := rfl
      rw [handleRequest_empty htext hempty, hempty, hother]
      exact iff_of_true ⟨_, rfl⟩ ⟨by simp, trivial⟩
    · by_cases hshort : (firstWord text).length < 20
      · rw [handleRequest_short htext hempty hshort, and_iff_right hshort]
        exact handleMethod_ok_iff (cString_eq_some htext) _
      · rw [handleRequest_long htext (not_lt.mp hshort)]
        exact iff_of_false (by simp) fun h => hshort h.1

section state

variable {data : List Char} {text : CString} {s : Pairing} {client : BitVec 32} {a : Reaction}

theorem readRequest_of_headers (htext : cString data = some text) (hne : firstWord text ≠ [])
    (hshort : (firstWord text).length < 20) {headers : CString}
    (hheaders : requestHeaders text = some headers) (bytesRead : Option ℕ) :
    readRequest bytesRead data = some (some
      { method := .ofString (firstWord text)
        bytesRead := some (text.length - headers.length)
        headers := some headers }) := by
  have hne20 : (firstWord text).length ≠ 20 := by omega
  have hread := List.suffix_iff_eq_drop.mp (requestHeaders_suffix hheaders)
  have hle : text.length - headers.length ≤ text.length := Nat.sub_le _ _
  simp only [readRequest, htext, Option.bind_eq_bind, Option.bind_some,
    sscanf_requestFormat hne hshort, hheaders, if_neg hne20]
  simp only [Option.filter_some, hle, decide_true, if_true, Option.map_some]
  rw [← hread]

theorem readRequest_without_headers (htext : cString data = some text) (hne : firstWord text ≠ [])
    (hshort : (firstWord text).length < 20) (hheaders : requestHeaders text = none)
    (bytesRead : Option ℕ) :
    ∃ headers, readRequest bytesRead data = some (some
      { method := .ofString (firstWord text), bytesRead, headers }) := by
  have hne20 : (firstWord text).length ≠ 20 := by omega
  simp only [readRequest, htext, Option.bind_eq_bind, Option.bind_some,
    sscanf_requestFormat hne hshort, hheaders, if_neg hne20]
  exact ⟨_, rfl⟩

theorem showPin_isSome (s : Pairing) {headers : CString} (h : HasHeader .deviceid headers) :
    (s.showPin headers a).isSome := by
  obtain ⟨deviceid, hid⟩ := Option.isSome_iff_exists.mp ((hasHeader_iff _ _).mpr h)
  have hfield : (parseDeviceHeaders headers).deviceid = some deviceid := hid
  simp only [Pairing.showPin, hfield, Option.bind_eq_bind, Option.bind_some]
  split
  · rfl
  · rfl

theorem register_isSome (s : Pairing) {headers : CString} (h : HasHeader .deviceid headers)
    (hpin : (parseDeviceHeaders headers).deviceid = some s.device.guid → 0 ≤ s.pin →
      HasHeader .pin headers) : (s.register headers a).isSome := by
  obtain ⟨deviceid, hid⟩ := Option.isSome_iff_exists.mp ((hasHeader_iff _ _).mpr h)
  have hfield : (parseDeviceHeaders headers).deviceid = some deviceid := hid
  simp only [Pairing.register, hfield, Option.bind_eq_bind, Option.bind_some]
  by_cases hguid : s.device.guid = deviceid
  · rw [if_neg (not_not.mpr hguid)]
    by_cases hnopin : s.pin < 0
    · rw [if_pos hnopin]
      rfl
    · obtain ⟨pinTry, htry⟩ := Option.isSome_iff_exists.mp
        ((hasHeader_iff _ _).mpr (hpin (hguid ▸ hfield) (not_lt.mp hnopin)))
      have hfield' : (parseDeviceHeaders headers).pin = some pinTry := htry
      rw [if_neg hnopin, hfield', Option.bind_some]
      split
      · rfl
      · rfl
  · rw [if_pos hguid]
    rfl

/-- A safe request is a step of the pairing, and what an earlier request has left in `read` makes
no difference to it. -/
theorem request_of_safe (h : SafeRequest s.device.guid s.pin data) (bytesRead : Option ℕ) :
    ∃ s' bytesRead', s.request client data a = some s' ∧
      ({ s with bytesRead } : Pairing).request client data a =
        some { s' with bytesRead := bytesRead' } := by
  obtain ⟨text, htext, hshort, hmethod⟩ := h
  by_cases hempty : firstWord text = []
  · have hread (b : Option ℕ) : readRequest b data = some none := by
      simp only [readRequest, htext, Option.bind_eq_bind, Option.bind_some, requestFormat_eq,
        sscanf_method, if_pos hempty]
    refine ⟨s.stop, bytesRead, ?_, ?_⟩
    · simp only [Pairing.request, hread, Option.bind_eq_bind, Option.bind_some]
    · simp only [Pairing.request, hread, Option.bind_eq_bind, Option.bind_some]
      rfl
  cases hheaders : requestHeaders text with
  | some headers =>
    have hread := readRequest_of_headers htext hempty hshort hheaders
    have hsame : ({ s with bytesRead } : Pairing).request client data a =
        s.request client data a := by
      simp only [Pairing.request, hread, Option.bind_eq_bind, Option.bind_some]
    have hsome : (s.request client data a).isSome := by
      simp only [Pairing.request, hread, Option.bind_eq_bind, Option.bind_some]
      rw [hheaders] at hmethod
      cases hof : Method.ofString (firstWord text) with
      | connect => rfl
      | showPin =>
        simp only [hof, Option.some.injEq, exists_eq_left'] at hmethod
        exact showPin_isSome _ hmethod
      | register =>
        simp only [hof, Option.some.injEq, exists_eq_left'] at hmethod
        exact register_isSome _ hmethod.1 hmethod.2
      | standby => rfl
      | other => rfl
    obtain ⟨s', hs'⟩ := Option.isSome_iff_exists.mp hsome
    exact ⟨s', s'.bytesRead, hs', hsame.trans hs'⟩
  | none =>
    obtain ⟨headers, hread⟩ := readRequest_without_headers htext hempty hshort hheaders s.bytesRead
    obtain ⟨headers', hread'⟩ := readRequest_without_headers htext hempty hshort hheaders bytesRead
    simp only [Pairing.request, hread, hread', Option.bind_eq_bind, Option.bind_some]
    rw [hheaders] at hmethod
    cases hof : Method.ofString (firstWord text) with
    | connect => simp [hof] at hmethod
    | showPin => simp [hof] at hmethod
    | register => simp [hof] at hmethod
    | standby => exact ⟨_, bytesRead, rfl, rfl⟩
    | other => exact ⟨_, bytesRead, rfl, rfl⟩

end state

/-- A terminated request for the PIN whose headers do not name the device. -/
theorem handleRequest_faults :
    ¬ ∀ (guid : CString) (pin : ℤ) (data : List Char), ∃ outcome,
      handleRequest guid pin data = .ok outcome := by
  intro h
  obtain ⟨outcome, hrun⟩ := h [] 1 "SHOWPIN * HTTP/1.1\r\nx\x00".toList
  have hfault : handleRequest [] 1 "SHOWPIN * HTTP/1.1\r\nx\x00".toList = .error .deviceid := by
    rfl
  rw [hfault] at hrun
  simp at hrun

end VitaMTP
