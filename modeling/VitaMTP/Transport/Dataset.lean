import VitaMTP.Transport.Container

/-! What `ptp-pack.c` packs for a device and unpacks: strings, arrays, and the infos of objects. -/
namespace VitaMTP
open LittleEndian

def PTP_MAXSTRLEN : ℕ := 255

def nul : Char := Char.ofNat 0

/-- What `iconv` does with the converters between the names of the host and UCS-2; nothing is an
error. -/
structure Converters where
  toUcs2 : CString → Option (List (BitVec 16))
  toLocale : List (BitVec 16) → Option CString

/-- Converters that get back what they have converted, and its terminator. -/
structure Converters.Faithful (conv : Converters) : Prop where
  back : ∀ {s u}, conv.toUcs2 s = some u → conv.toLocale (u ++ [0]) = some (s ++ [nul])
  empty : conv.toUcs2 [] = some []
  unterminated : ∀ {s u}, nul ∉ s → conv.toUcs2 s = some u → 0 ∉ u

section strings

variable (conv : Converters)

/-- `ptp_unpack_string`: the string, which is null if it is empty, and how many characters it has.
It has no result where the data ends before. -/
def ptpUnpackString (data : List Byte) (offset : ℕ) : Option (Option CString × ℕ) :=
  match data.drop offset with
  | [] => none
  | length :: rest =>
    if length = 0 then some (none, 0)
    else if rest.length < 2 * length.toNat then none
    else
      let string := (List.range length.toNat).map fun i => dtoh16a rest (2 * i)
      -- the hard way, if the conversion fails
      let loclstr := (conv.toLocale string).getD
        (string.map fun c => if 127 < c.toNat then '?' else Char.ofNat c.toNat)
      some (some (loclstr.takeWhile (· ≠ nul)), length.toNat)

/-- The characters of a string, or none at all if it cannot be converted or does not fit. -/
def ucs2str (string : CString) : List (BitVec 16) :=
  match conv.toUcs2 string with
  | none => []
  | some ucs2 => if ucs2.length ≤ PTP_MAXSTRLEN then ucs2 else []

/-- `ptp_pack_string`: how many characters there are with the terminator, and what is written. -/
def ptpPackString (string : CString) : ℕ × List Byte :=
  let packed := (ucs2str conv string).takeWhile (· ≠ 0)
  if PTP_MAXSTRLEN - 1 < packed.length then (0, [])
  else
    (packed.length + 1,
      BitVec.ofNat 8 (packed.length + 1) :: (packed.flatMap htod16a ++ htod16a 0))

end strings

/-- `ptp_unpack_uint32_t_array` -/
def ptpUnpackUint32Array (data : List Byte) (offset : ℕ) : Option (List (BitVec 32)) :=
  if data.length < offset + 4 then none
  else
    let n := (dtoh32a data offset).toNat
    if data.length < offset + 4 * (n + 1) then none
    else some ((List.range n).map fun i => dtoh32a data (offset + 4 * (i + 1)))

/-- `ptp_pack_uint32_t_array` -/
def ptpPackUint32Array (array : List (BitVec 32)) : List Byte :=
  htod32a (BitVec.ofNat 32 array.length) ++ array.flatMap htod32a

/-- `ptp_unpack_OH` -/
def ptpUnpackOH (data : List Byte) : Option (List (BitVec 32)) :=
  if data.length ≠ 0 then ptpUnpackUint32Array data 0 else some []

/-- The types that are asked for. -/
inductive PtpDatatype
  | uint16
  | uint64
  | str
  deriving DecidableEq, Repr

/-- The member of `PTPPropertyValue` that a value of the type is stored in. -/
abbrev PtpDatatype.Value : PtpDatatype → Type
  | .uint16 => BitVec 16
  | .uint64 => ULong
  | .str => Option CString

/-- `ptp_unpack_DPV`; nothing is stored if the data is too short for a number. -/
def ptpUnpackDPV (conv : Converters) (data : List Byte) :
    (datatype : PtpDatatype) → Option (Option datatype.Value)
  | .uint16 => some (if data.length < 2 then none else some (dtoh16a data 0))
  | .uint64 => some (if data.length < 8 then none else some (longAt data 0))
  | .str => (ptpUnpackString conv data 0).map fun (string, _) => some string

/-- The fields of `PTPObjectInfo` that are packed, but for the name. -/
structure PTPObjectInfo where
  storageId : BitVec 32 := 0
  objectFormat : BitVec 16 := 0
  protectionStatus : BitVec 16 := 0
  objectCompressedSize : BitVec 32 := 0
  thumbFormat : BitVec 16 := 0
  thumbCompressedSize : BitVec 32 := 0
  thumbPixWidth : BitVec 32 := 0
  thumbPixHeight : BitVec 32 := 0
  imagePixWidth : BitVec 32 := 0
  imagePixHeight : BitVec 32 := 0
  imageBitDepth : BitVec 32 := 0
  parentObject : BitVec 32 := 0
  associationType : BitVec 16 := 0
  associationDesc : BitVec 32 := 0
  sequenceNumber : BitVec 32 := 0
  deriving DecidableEq, Repr

def PTP_oi_filenamelen : ℕ := 52

def PTPObjectInfo.fixed (oi : PTPObjectInfo) : List Byte :=
  htod32a oi.storageId ++ (htod16a oi.objectFormat ++ (htod16a oi.protectionStatus ++
    (htod32a oi.objectCompressedSize ++ (htod16a oi.thumbFormat ++
    (htod32a oi.thumbCompressedSize ++ (htod32a oi.thumbPixWidth ++ (htod32a oi.thumbPixHeight ++
    (htod32a oi.imagePixWidth ++ (htod32a oi.imagePixHeight ++ (htod32a oi.imageBitDepth ++
    (htod32a oi.parentObject ++ (htod16a oi.associationType ++ (htod32a oi.associationDesc ++
    htod32a oi.sequenceNumber)))))))))))))

/-- `ptp_pack_OI`. There are three bytes behind the name, for the dates and the keywords, which are
not packed. -/
def ptpPackOI (conv : Converters) (oi : PTPObjectInfo) (filename : CString) : List Byte :=
  let (filenamelen, packed) := ptpPackString conv filename
  oi.fixed ++ ((if filenamelen = 0 then [0] else packed) ++ [0, 0, 0])

/-- The fields at the offsets that `ptp_unpack_OI` reads. -/
def PTPObjectInfo.ofBytes (data : List Byte) : PTPObjectInfo where
  storageId := dtoh32a data 0
  objectFormat := dtoh16a data 4
  protectionStatus := dtoh16a data 6
  objectCompressedSize := dtoh32a data 8
  thumbFormat := dtoh16a data 12
  thumbCompressedSize := dtoh32a data 14
  thumbPixWidth := dtoh32a data 18
  thumbPixHeight := dtoh32a data 22
  imagePixWidth := dtoh32a data 26
  imagePixHeight := dtoh32a data 30
  imageBitDepth := dtoh32a data 34
  parentObject := dtoh32a data 38
  associationType := dtoh16a data 42
  associationDesc := dtoh32a data 44
  sequenceNumber := dtoh32a data 48

/-- `ptp_unpack_OI`: the fields, the name, and what there is of the two dates. -/
def ptpUnpackOI (conv : Converters) (data : List Byte) :
    Option (PTPObjectInfo × Option CString × Option CString × Option CString) := do
  let (filename, filenamelen) ← ptpUnpackString conv data PTP_oi_filenamelen
  let (captureDate, capturedatelen) ←
    ptpUnpackString conv data (PTP_oi_filenamelen + filenamelen * 2 + 1)
  let (modificationDate, _) ←
    ptpUnpackString conv data (PTP_oi_filenamelen + filenamelen * 2 + capturedatelen * 2 + 2)
  some (PTPObjectInfo.ofBytes data, filename, captureDate, modificationDate)

theorem length_flatMap_htod16a (us : List (BitVec 16)) :
    (us.flatMap htod16a).length = 2 * us.length := by
  induction us with
  | nil => rfl
  | cons u us ih =>
    rw [List.flatMap_cons, List.length_append, length_htod16a, ih, List.length_cons]
    omega

theorem dtoh16a_flatMap {us : List (BitVec 16)} {rest : List Byte} {i : ℕ} (h : i < us.length) :
    dtoh16a (us.flatMap htod16a ++ rest) (2 * i) = us[i] := by
  have hsplit : us.flatMap htod16a ++ rest = (us.take i).flatMap htod16a ++
      (htod16a us[i] ++ ((us.drop (i + 1)).flatMap htod16a ++ rest)) := by
    have hus : us = us.take i ++ us[i] :: us.drop (i + 1) := by
      rw [List.cons_getElem_drop_succ, List.take_append_drop]
    conv_lhs => rw [hus]
    rw [List.flatMap_append, List.flatMap_cons, List.append_assoc, List.append_assoc]
  have hlength : ((us.take i).flatMap htod16a).length = 2 * i := by
    rw [length_flatMap_htod16a, List.length_take, Nat.min_eq_left h.le]
  rw [hsplit]
  exact dtoh16a_append _ hlength

theorem map_dtoh16a_flatMap (us : List (BitVec 16)) (rest : List Byte) :
    ((List.range us.length).map fun i => dtoh16a (us.flatMap htod16a ++ rest) (2 * i)) = us := by
  apply List.ext_getElem
  · rw [List.length_map, List.length_range]
  · intro i hi hi'
    rw [List.getElem_map, List.getElem_range]
    exact dtoh16a_flatMap hi'

theorem ptpUnpackOH_pack {array : List (BitVec 32)} (h : array.length < 2 ^ 32) :
    ptpUnpackOH (ptpPackUint32Array array) = some array := by
  have hcount := length_htod32a (BitVec.ofNat 32 array.length)
  have hlength : (ptpPackUint32Array array).length = 4 + 4 * array.length := by
    rw [ptpPackUint32Array, List.length_append, hcount, length_flatMap_htod32a]
  have hn : (dtoh32a (ptpPackUint32Array array) 0).toNat = array.length := by
    rw [ptpPackUint32Array, dtoh32a_head, BitVec.toNat_ofNat, Nat.mod_eq_of_lt h]
  rw [ptpUnpackOH, if_pos (by omega), ptpUnpackUint32Array, if_neg (by omega)]
  dsimp only
  rw [hn, if_neg (by omega)]
  congr 1
  apply List.ext_getElem
  · rw [List.length_map, List.length_range]
  · intro i hi hi'
    have hread := @dtoh32a_flatMap (htod32a (BitVec.ofNat 32 array.length)) [] array i hi'
    rw [List.append_nil, hcount] at hread
    rw [List.getElem_map, List.getElem_range, ptpPackUint32Array,
      show 0 + 4 * (i + 1) = 4 + 4 * i by omega]
    exact hread

section names

variable {conv : Converters} {name : CString} {pre rest : List Byte} {offset : ℕ}

theorem ptpUnpackString_none (h : pre.length = offset) :
    ptpUnpackString conv (pre ++ 0 :: rest) offset = some (none, 0) := by
  have hdrop : (pre ++ 0 :: rest).drop offset = 0 :: rest := List.drop_left' h
  rw [ptpUnpackString, hdrop]
  exact if_pos rfl

/-- What is left of a name that is packed and unpacked. -/
def keptName (conv : Converters) (name : CString) : Option CString :=
  match conv.toUcs2 name with
  | none => some []
  | some ucs2 =>
    if ucs2.length < PTP_MAXSTRLEN then some name
    else if ucs2.length = PTP_MAXSTRLEN then none
    else some []

theorem takeWhile_nul {s : CString} (h : nul ∉ s) : (s ++ [nul]).takeWhile (· ≠ nul) = s := by
  rw [List.takeWhile_append_of_pos (fun c hc => by simpa using ne_of_mem_of_not_mem hc h),
    List.takeWhile_cons_of_neg (by simp), List.append_nil]

theorem ptpUnpackString_packed {packed : List (BitVec 16)} (hlt : packed.length < PTP_MAXSTRLEN)
    {s : CString} (hback : conv.toLocale (packed ++ [0]) = some (s ++ [nul])) (hs : nul ∉ s)
    (h : pre.length = offset) :
    ptpUnpackString conv (pre ++ (BitVec.ofNat 8 (packed.length + 1) ::
      (packed.flatMap htod16a ++ htod16a 0) ++ rest)) offset =
      some (some s, packed.length + 1) := by
  unfold PTP_MAXSTRLEN at hlt
  have hlength : (BitVec.ofNat 8 (packed.length + 1)).toNat = packed.length + 1 := by
    rw [BitVec.toNat_ofNat]
    omega
  have hne : BitVec.ofNat 8 (packed.length + 1) ≠ 0 := by
    intro hzero
    rw [hzero] at hlength
    exact Nat.succ_ne_zero _ hlength.symm
  have hstring : packed.flatMap htod16a ++ htod16a 0 = (packed ++ [0]).flatMap htod16a := by
    rw [List.flatMap_append, List.flatMap_singleton]
  have hcount : (packed ++ [(0 : BitVec 16)]).length = packed.length + 1 := List.length_append
  have hroom : ¬ ((packed ++ [0]).flatMap htod16a ++ rest).length < 2 * (packed.length + 1) := by
    rw [List.length_append, length_flatMap_htod16a, hcount]
    omega
  rw [ptpUnpackString, List.drop_left' h, List.cons_append]
  dsimp only
  rw [if_neg hne, hlength, hstring, if_neg hroom, ← hcount, map_dtoh16a_flatMap, hback,
    Option.getD_some, takeWhile_nul hs]

theorem ucs2str_none (h : conv.toUcs2 name = none) : ucs2str conv name = [] := by
  rw [ucs2str, h]

theorem ucs2str_some {ucs2 : List (BitVec 16)} (h : conv.toUcs2 name = some ucs2) :
    ucs2str conv name = if ucs2.length ≤ PTP_MAXSTRLEN then ucs2 else [] := by
  rw [ucs2str, h]

theorem ptpPackString_empty (h : ucs2str conv name = []) :
    ptpPackString conv name = (1, [1, 0, 0]) := by
  rw [ptpPackString, h]
  rfl

theorem keptName_of_length_lt {ucs2 : List (BitVec 16)} (h : conv.toUcs2 name = some ucs2)
    (hlt : ucs2.length < PTP_MAXSTRLEN) : keptName conv name = some name := by
  rw [keptName, h]
  exact if_pos hlt

/-- What `ptp_pack_OI` writes of a name, and how many characters are read of it. -/
theorem ptpUnpackString_pack (hconv : conv.Faithful) (hname : nul ∉ name)
    (h : pre.length = offset) :
    ∃ n, ptpUnpackString conv (pre ++ ((if (ptpPackString conv name).1 = 0 then [0]
        else (ptpPackString conv name).2) ++ rest)) offset = some (keptName conv name, n) ∧
      (if (ptpPackString conv name).1 = 0 then [0] else (ptpPackString conv name).2).length =
        n * 2 + 1 := by
  have hpacked (packed : List (BitVec 16)) : (BitVec.ofNat 8 (packed.length + 1) ::
      (packed.flatMap htod16a ++ htod16a 0)).length = (packed.length + 1) * 2 + 1 := by
    rw [List.length_cons, List.length_append, length_flatMap_htod16a, length_htod16a]
    omega
  have hempty : conv.toLocale ([] ++ [0]) = some ([] ++ [nul]) := hconv.back hconv.empty
  rcases hucs2 : conv.toUcs2 name with _ | ucs2
  · -- a name that cannot be converted is empty
    rw [ptpPackString_empty (ucs2str_none hucs2), if_neg Nat.one_ne_zero, keptName, hucs2]
    exact ⟨1, @ptpUnpackString_packed conv pre rest offset [] (by decide) [] hempty
      List.not_mem_nil h, rfl⟩
  · have hkeep : ucs2.takeWhile (· ≠ 0) = ucs2 := by
      apply List.takeWhile_eq_self_iff.mpr
      intro c hc
      simpa using ne_of_mem_of_not_mem hc (hconv.unterminated hname hucs2)
    rcases lt_trichotomy ucs2.length PTP_MAXSTRLEN with hlt | heq | hgt
    · have hpack : ptpPackString conv name = (ucs2.length + 1,
          BitVec.ofNat 8 (ucs2.length + 1) :: (ucs2.flatMap htod16a ++ htod16a 0)) := by
        rw [ptpPackString, ucs2str_some hucs2, if_pos hlt.le, hkeep]
        exact if_neg (by omega)
      rw [hpack, if_neg (Nat.succ_ne_zero _), keptName_of_length_lt hucs2 hlt]
      exact ⟨_, ptpUnpackString_packed hlt (hconv.back hucs2) hname h, hpacked _⟩
    · -- there is no room for the terminator
      have hpack : ptpPackString conv name = (0, []) := by
        rw [ptpPackString, ucs2str_some hucs2, if_pos heq.le, hkeep]
        exact if_pos (by unfold PTP_MAXSTRLEN at *; omega)
      rw [hpack, if_pos rfl, keptName, hucs2]
      dsimp only
      rw [if_neg heq.not_lt, if_pos heq]
      exact ⟨0, ptpUnpackString_none h, rfl⟩
    · have hempty' : ucs2str conv name = [] := (ucs2str_some hucs2).trans (if_neg hgt.not_ge)
      rw [ptpPackString_empty hempty', if_neg Nat.one_ne_zero, keptName, hucs2]
      dsimp only
      rw [if_neg hgt.not_gt, if_neg hgt.ne']
      exact ⟨1, @ptpUnpackString_packed conv pre rest offset [] (by decide) [] hempty
        List.not_mem_nil h, rfl⟩

end names

section objectInfo

variable {pre rest : List Byte} {off : ℕ} (oi : PTPObjectInfo)

theorem dtoh16a_skip (h : pre.length ≤ off) :
    dtoh16a (pre ++ rest) off = dtoh16a rest (off - pre.length) := by
  rw [dtoh16a, dtoh16a, List.drop_append, List.drop_eq_nil_of_le h, List.nil_append]

theorem dtoh32a_skip (h : pre.length ≤ off) :
    dtoh32a (pre ++ rest) off = dtoh32a rest (off - pre.length) := by
  rw [dtoh32a, dtoh32a, List.drop_append, List.drop_eq_nil_of_le h, List.nil_append]

@[simp] theorem PTPObjectInfo.length_fixed : oi.fixed.length = PTP_oi_filenamelen := by
  simp only [fixed, List.length_append, length_htod16a, length_htod32a]
  rfl

theorem PTPObjectInfo.ofBytes_fixed (rest : List Byte) : ofBytes (oi.fixed ++ rest) = oi := by
  simp only [ofBytes, fixed, List.append_assoc, dtoh16a_skip, dtoh32a_skip, dtoh16a_head,
    dtoh32a_head, length_htod16a, length_htod32a, Nat.reduceLeDiff, Nat.reduceSub]

/-- An info that is packed has a name, as far as it fits, and no dates. -/
theorem ptpUnpackOI_pack {conv : Converters} {filename : CString} (hconv : conv.Faithful)
    (hname : nul ∉ filename) :
    ptpUnpackOI conv (ptpPackOI conv oi filename) =
      some (oi, keptName conv filename, none, none) := by
  obtain ⟨n, hstring, hlength⟩ := @ptpUnpackString_pack conv filename oi.fixed [0, 0, 0]
    PTP_oi_filenamelen hconv hname oi.length_fixed
  set field := if (ptpPackString conv filename).1 = 0 then [0] else (ptpPackString conv filename).2
  have hpack : ptpPackOI conv oi filename = oi.fixed ++ (field ++ [0, 0, 0]) := rfl
  have hpre : (oi.fixed ++ field).length = PTP_oi_filenamelen + n * 2 + 1 := by
    rw [List.length_append, oi.length_fixed, hlength]
    omega
  have hcapture : ptpUnpackString conv (oi.fixed ++ (field ++ [0, 0, 0]))
      (PTP_oi_filenamelen + n * 2 + 1) = some (none, 0) := by
    rw [← List.append_assoc]
    exact ptpUnpackString_none hpre
  have hmodified : ptpUnpackString conv (oi.fixed ++ (field ++ [0, 0, 0]))
      (PTP_oi_filenamelen + n * 2 + 0 * 2 + 2) = some (none, 0) := by
    have hpre' : (oi.fixed ++ (field ++ [0])).length = PTP_oi_filenamelen + n * 2 + 0 * 2 + 2 := by
      rw [← List.append_assoc, List.length_append, hpre]
      rfl
    have hsplit : oi.fixed ++ (field ++ [0, 0, 0]) = oi.fixed ++ (field ++ [0]) ++ 0 :: [0] := by
      rw [List.append_assoc, List.append_assoc]
      rfl
    rw [hsplit]
    exact ptpUnpackString_none hpre'
  rw [ptpUnpackOI, hpack, hstring, oi.ofBytes_fixed]
  rw [Option.bind_eq_bind, Option.bind_some]
  dsimp only
  rw [hcapture, Option.bind_some]
  dsimp only
  rw [hmodified]
  rfl

/-- The converters of a locale with one byte for every character. -/
def byteConverters : Converters where
  toUcs2 s := if s.all (·.toNat < 256) then some (s.map fun c => BitVec.ofNat 16 c.toNat) else none
  toLocale u := some (u.map fun c => Char.ofNat c.toNat)

theorem byteConverters_toUcs2 {s : CString} {u : List (BitVec 16)}
    (h : byteConverters.toUcs2 s = some u) :
    (∀ c ∈ s, c.toNat < 256) ∧ u = s.map fun c => BitVec.ofNat 16 c.toNat := by
  dsimp only [byteConverters] at h
  split_ifs at h with hall
  exact ⟨by simpa using hall, (Option.some.inj h).symm⟩

theorem byteConverters_faithful : byteConverters.Faithful where
  back := by
    intro s u h
    obtain ⟨hall, rfl⟩ := byteConverters_toUcs2 h
    have hback : (s.map fun c => BitVec.ofNat 16 c.toNat).map (fun c => Char.ofNat c.toNat) = s := by
      rw [List.map_map]
      conv_rhs => rw [← List.map_id s]
      apply List.map_congr_left
      intro c hc
      have hlt := hall c hc
      rw [Function.comp_apply, BitVec.toNat_ofNat, Nat.mod_eq_of_lt (by omega), Char.ofNat_toNat]
      rfl
    dsimp only [byteConverters]
    rw [List.map_append, hback]
    rfl
  empty := rfl
  unterminated := by
    intro s u hs h
    obtain ⟨hall, rfl⟩ := byteConverters_toUcs2 h
    intro hzero
    obtain ⟨c, hc, hc0⟩ := List.mem_map.mp hzero
    have hlt := hall c hc
    have hnat : c.toNat = 0 := by
      have := congrArg BitVec.toNat hc0
      rw [BitVec.toNat_ofNat, Nat.mod_eq_of_lt (by omega)] at this
      exact this
    apply hs
    rw [← Char.ofNat_toNat c, hnat] at hc
    exact hc

theorem ptpUnpackOI_pack_sample :
    ptpUnpackOI byteConverters (ptpPackOI byteConverters { parentObject := 7 } ['a', 'b']) =
      some ({ parentObject := 7 }, some ['a', 'b'], none, none) :=
  ptpUnpackOI_pack { parentObject := 7 } byteConverters_faithful (by simp [nul])

end objectInfo

end VitaMTP
