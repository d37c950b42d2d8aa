import VitaMTP.Events.SendSubtree
import VitaMTP.Library.LittleEndian

/-! Files the device asks for by URL: the object, and its properties. -/
namespace VitaMTP
open FirstMatch LittleEndian

/-- One region of `g_update_list`. -/
def updateRegion (id : String) : String :=
  "<region id=\"" ++ id ++ "\"><np level0_system_version=\"00.000.000\" " ++
    "level1_system_version=\"00.000.000\" level2_system_version=\"00.000.000\" " ++
    "map=\"00.000.000\" /><version system_version=\"00.000.000\" label=\"0.00\"></version></region>"

/-- `g_update_list`. -/
def updateList : List Byte :=
  let regions := String.join
    (["au", "eu", "jp", "kr", "mx", "ru", "tw", "uk", "us"].map updateRegion)
  ("<?xml version=\"1.0\" encoding=\"UTF-8\"?><update_data_list>" ++ regions ++
    "</update_data_list>").toList.map fun c => BitVec.ofNat 8 c.toNat

def updateListName : CString := "/psp2-updatelist.xml".toList

/-- The file that a URL is mapped to. -/
def requestPath (paths : CmaPaths) (url : CString) : Option CString :=
  if '/' ∈ url then
    -- behind the last slash, up to the query
    let name := (url.reverse.takeWhile (· != '/')).reverse
    some (joinPath paths.urlPath (name.takeWhile (· != '?')))
  else none

section handlers

variable {σ : Type} (posix : Posix σ) (paths : CmaPaths) (fs : Disk σ)

/-- `len` is what `*p_len` holds before. -/
def requestURL (url : CString) (len : BitVec 32) : Option (List Byte) := do
  let name ← requestPath paths url
  readFileToBuffer posix fs name 0 len

/-- `VitaMTP_SendHttpObjectFromURL`. The length of the reply is that of `VitaMTP_SendData`. -/
def sendHttpObjectFromURL (data : List Byte) (len : BitVec 32) : Message :=
  .sendHttpObjectFromURL
    ((encode 8 len.toNat ++ data.take len.toNat).take ((len.toNat + 8) % 2 ^ 32))

/-- `VitaMTP_SendHttpObjectPropFromURL`, without a timestamp. -/
def sendHttpObjectPropFromURL (size : ULong) : Message :=
  .sendHttpObjectPropFromURL (encode 8 size.toNat ++ [0])

/-- `sent` is whether the device accepts the object. -/
def vitaEventSendHttpObjectFromURL (url : Option CString) (sent : Bool) : List Message :=
  match url with
  | none => []
  | some url =>
    match requestURL posix paths fs url 0 with
    | some data =>
      sendHttpObjectFromURL data (BitVec.ofNat 32 data.length) ::
        if sent then [.reportResult .OK] else []
    | none =>
      if (offset? updateListName url).isSome then
        sendHttpObjectFromURL updateList (BitVec.ofNat 32 updateList.length) ::
          if sent then [.reportResult .OK] else []
      else [.reportResult .Failed_Download]

/-- `size` is what the local `httpobjectprop` happens to hold. Only its low half is handed to
`requestURL` and written by it. -/
def vitaEventSendHttpObjectPropFromURL (size : ULong) (url : Option CString) (sent : Bool) :
    List Message :=
  match url with
  | none => []
  | some url =>
    match requestURL posix paths fs url (size.setWidth 32) with
    | none => [.reportResult .Failed_Download]
    | some data =>
      let size : ULong := size.extractLsb' 32 32 ++ BitVec.ofNat 32 data.length
      sendHttpObjectPropFromURL size :: if sent then [.reportResult .OK] else []

end handlers

/-- How many bytes of an object are sent, if one is sent. -/
def objectBytes? (msgs : List Message) : Option ℕ :=
  msgs.findSome? fun
    | .sendHttpObjectFromURL reply => some (reply.drop 8).length
    | _ => none

/-- The size in the properties, if they are sent. -/
def propSize? (msgs : List Message) : Option ℕ :=
  msgs.findSome? fun
    | .sendHttpObjectPropFromURL reply => some (decode (reply.take 8))
    | _ => none

section replies

variable {σ : Type} {posix : Posix σ} {paths : CmaPaths} {fs : Disk σ} {url : CString}

/-- What is behind a URL. -/
def urlFile? (posix : Posix σ) (paths : CmaPaths) (fs : Disk σ) (url : CString) :
    Option (List Byte) :=
  (requestPath paths url).bind fun name => posix.contents fs.state name

theorem requestURL_none (h : urlFile? posix paths fs url = none) (len : BitVec 32) :
    requestURL posix paths fs url len = none := by
  unfold urlFile? at h
  unfold requestURL
  cases hpath : requestPath paths url with
  | none => rfl
  | some name =>
    rw [hpath, Option.bind_some] at h
    simp [readFileToBuffer, h]

theorem requestURL_some {bytes : List Byte} (h : urlFile? posix paths fs url = some bytes)
    (len : BitVec 32) :
    requestURL posix paths fs url len =
      if bufferLength bytes.length len ≤ bytes.length then
        some (bytes.take (bufferLength bytes.length len))
      else none := by
  obtain ⟨name, hpath, hbytes⟩ := Option.bind_eq_some_iff.mp h
  rw [requestURL, hpath, Option.bind_eq_bind, Option.bind_some, readFileToBuffer_eq hbytes]
  simp

theorem objectBytes?_sent (data : List Byte) {len : BitVec 32} (hlen : len.toNat = data.length)
    (sent : Bool) :
    objectBytes? (sendHttpObjectFromURL data len :: if sent then [.reportResult .OK] else []) =
      some (if data.length + 8 < 2 ^ 32 then data.length else 0) := by
  have hlt := len.isLt
  simp only [objectBytes?, sendHttpObjectFromURL, List.findSome?_cons, hlen, List.take_length,
    List.length_drop, List.length_take, List.length_append, length_encode, Option.some.injEq]
  split_ifs <;> omega

theorem propSize?_sent (size : ULong) (sent : Bool) :
    propSize? (sendHttpObjectPropFromURL size :: if sent then [.reportResult .OK] else []) =
      some size.toNat := by
  have hdecode : decode (encode 8 size.toNat) = size.toNat := decode_encode size.isLt
  simp only [propSize?, sendHttpObjectPropFromURL, List.findSome?_cons]
  rw [List.take_left' (length_encode ..), hdecode]

theorem objectBytes?_none (h : urlFile? posix paths fs url = none) (sent : Bool) :
    (objectBytes? (vitaEventSendHttpObjectFromURL posix paths fs (some url) sent)).isSome ↔
      updateListName <:+: url := by
  simp only [vitaEventSendHttpObjectFromURL, requestURL_none h]
  have hfound : (offset? updateListName url).isSome ↔ updateListName <:+: url := by
    rw [Option.isSome_iff_ne_none, ne_eq, offset?_eq_none_iff, not_not]
  rw [← hfound]
  by_cases hlist : (offset? updateListName url).isSome
  · rw [if_pos hlist]
    exact iff_of_true rfl hlist
  · rw [if_neg hlist]
    exact iff_of_false (by simp [objectBytes?]) hlist

theorem objectBytes?_some {bytes : List Byte} (h : urlFile? posix paths fs url = some bytes)
    (sent : Bool) :
    objectBytes? (vitaEventSendHttpObjectFromURL posix paths fs (some url) sent) =
      some (if bytes.length % 2 ^ 32 + 8 < 2 ^ 32 then bytes.length % 2 ^ 32 else 0) := by
  have hmod := Nat.mod_le bytes.length (2 ^ 32)
  have hlen : bufferLength bytes.length 0 = bytes.length % 2 ^ 32 := if_pos rfl
  have hdata : (bytes.take (bytes.length % 2 ^ 32)).length = bytes.length % 2 ^ 32 := by
    rw [List.length_take]
    omega
  simp only [vitaEventSendHttpObjectFromURL, requestURL_some h, hlen, if_pos hmod]
  rw [objectBytes?_sent, hdata]
  rw [BitVec.toNat_ofNat, hdata, Nat.mod_mod]

theorem propSize?_none (h : urlFile? posix paths fs url = none) (size : ULong) (sent : Bool) :
    propSize? (vitaEventSendHttpObjectPropFromURL posix paths fs size (some url) sent) = none := by
  simp [vitaEventSendHttpObjectPropFromURL, requestURL_none h, propSize?]

theorem propSize?_some {bytes : List Byte} (h : urlFile? posix paths fs url = some bytes)
    (size : ULong) (sent : Bool) :
    propSize? (vitaEventSendHttpObjectPropFromURL posix paths fs size (some url) sent) =
      if bufferLength bytes.length (size.setWidth 32) ≤ bytes.length then
        some (size.toNat / 2 ^ 32 * 2 ^ 32 + bufferLength bytes.length (size.setWidth 32))
      else none := by
  simp only [vitaEventSendHttpObjectPropFromURL, requestURL_some h]
  by_cases hread : bufferLength bytes.length (size.setWidth 32) ≤ bytes.length
  · have hdata : (bytes.take (bufferLength bytes.length (size.setWidth 32))).length =
        bufferLength bytes.length (size.setWidth 32) := by
      rw [List.length_take]
      omega
    have hlt := bufferLength_lt bytes.length (size.setWidth 32)
    have hhigh : size.toNat / 2 ^ 32 < 2 ^ 32 := by
      have := size.isLt
      omega
    simp only [if_pos hread, propSize?_sent, hdata, Option.some.injEq]
    rw [BitVec.toNat_append, BitVec.extractLsb'_toNat, BitVec.toNat_ofNat, Nat.mod_eq_of_lt hlt,
      Nat.shiftRight_eq_div_pow, Nat.mod_eq_of_lt hhigh, ← Nat.shiftLeft_add_eq_or_of_lt hlt,
      Nat.shiftLeft_eq]
  · simp [if_neg hread, propSize?]

/-- The two replies agree if and only if there is no file and no update list is asked for, or the
local holds nothing or the narrowed length of the file, which leaves room for the reply. -/
theorem http_agree_iff (posix : Posix σ) (paths : CmaPaths) (fs : Disk σ) (url : CString)
    (size : ULong) (sentProp sentObject : Bool) :
    propSize? (vitaEventSendHttpObjectPropFromURL posix paths fs size (some url) sentProp) =
        objectBytes? (vitaEventSendHttpObjectFromURL posix paths fs (some url) sentObject) ↔
      match urlFile? posix paths fs url with
      | none => ¬ updateListName <:+: url
      | some bytes => bytes.length % 2 ^ 32 + 8 < 2 ^ 32 ∧
          (size.toNat = 0 ∨ size.toNat = bytes.length % 2 ^ 32) := by
  cases hfile : urlFile? posix paths fs url with
  | none =>
    rw [propSize?_none hfile, eq_comm, ← Option.not_isSome_iff_eq_none, objectBytes?_none hfile]
  | some bytes =>
    have hlow : (size.setWidth 32).toNat = size.toNat % 2 ^ 32 := BitVec.toNat_setWidth ..
    have hzero : size.setWidth 32 = 0 ↔ size.toNat % 2 ^ 32 = 0 := by
      rw [← BitVec.toNat_inj, hlow]
      rfl
    have hmod := Nat.mod_le bytes.length (2 ^ 32)
    have hlt := Nat.mod_lt bytes.length (show 0 < 2 ^ 32 by decide)
    simp only [propSize?_some hfile, objectBytes?_some hfile, bufferLength, hzero, hlow]
    by_cases hempty : size.toNat % 2 ^ 32 = 0
    · simp only [if_pos hempty, if_pos hmod, Option.some.injEq]
      split_ifs <;> omega
    · simp only [if_neg hempty]
      by_cases hread : size.toNat % 2 ^ 32 ≤ bytes.length
      · simp only [if_pos hread, Option.some.injEq]
        split_ifs <;> omega
      · simp only [if_neg hread]
        constructor
        · intro h
          simp at h
        · omega

end replies

/-- The update list is sent without properties where there is no file, and of a file of seven
bytes the properties say what happened to be in the local. -/
theorem http_disagree :
    propSize? (vitaEventSendHttpObjectPropFromURL samplePosix samplePaths { state := () } 0
        (some updateListName) true) = none ∧
      (objectBytes? (vitaEventSendHttpObjectFromURL samplePosix samplePaths { state := () }
        (some updateListName) true)).isSome ∧
      propSize? (vitaEventSendHttpObjectPropFromURL readablePosix samplePaths { state := () } 1
        (some ['/', 'f']) true) = some 1 ∧
      objectBytes? (vitaEventSendHttpObjectFromURL readablePosix samplePaths { state := () }
        (some ['/', 'f']) true) = some 7 := by
  have hnone : urlFile? samplePosix samplePaths { state := () } updateListName = none := by
    unfold urlFile?
    cases requestPath samplePaths updateListName <;> rfl
  refine ⟨propSize?_none hnone 0 true, (objectBytes?_none hnone true).mpr (List.infix_refl _), ?_⟩
  exact ⟨by decide +kernel, by decide +kernel⟩

end VitaMTP
