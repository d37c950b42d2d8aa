import VitaMTP.Events.SendSubtree
import VitaMTP.Library.LittleEndian

/-! Sending a part of a file to the device. -/
namespace VitaMTP
open LittleEndian

/-- `send_part_init_t`. -/
structure SendPartInit where
  ohfi : BitVec 32
  offset : ULong
  size : ULong
  deriving DecidableEq, Repr

section handler

variable {σ : Type} (posix : Posix σ)

/-- `VitaMTP_SendPartOfObject`. The length of the reply becomes an `int` and then the
`unsigned int` of `VitaMTP_SendData`. -/
def sendPartOfObject (objectData : List Byte) (objectLen : ULong) : Message :=
  let len : ULong := objectLen + 8
  let data := encode 8 objectLen.toNat ++ objectData.take objectLen.toNat
  .sendPartOfObject (data.take (len.setWidth 32).toNat)

/-- `init` is nothing when the transaction fails, and `sent` is whether the device accepts the
reply. -/
def vitaEventSendPartOfObject (s : Host σ) (init : Option SendPartInit) (sent : Bool) :
    List Message :=
  match init with
  | none => []
  | some partInit =>
    match ohfiToObject s.db partInit.ohfi.toInt with
    | none => [.reportResult .Invalid_Context]
    | some (_, object) =>
      match readFileToBuffer posix s.fs object.path partInit.offset
          (partInit.size.setWidth 32) with
      | none => [.reportResult .Not_Exist_Object]
      | some data =>
        -- the length that `readFileToBuffer` writes back is the one of the buffer
        sendPartOfObject data (BitVec.ofNat 64 data.length) ::
          if sent then [.reportResult .OK] else []

end handler

/-- The reply to a request is the size and exactly that part of the file, and outside of the file
there is an error. -/
def PartSent (bytes : List Byte) (offset size : ULong) (msgs : List Message) : Prop :=
  if offset.toNat + size.toNat ≤ bytes.length then
    msgs = [.sendPartOfObject
        (encode 8 size.toNat ++ (bytes.drop offset.toNat).take size.toNat), .reportResult .OK]
  else ∃ code, code ≠ .OK ∧ msgs = [.reportResult code]

/-- For a part of a file of length `L` the reply fits its length field, and a part of no bytes
is asked for only where the whole length is narrowed to 0. Outside of the file the narrowed
length does not fit either. -/
def PartFits (L : ℕ) (offset size : ULong) : Prop :=
  if offset.toNat + size.toNat ≤ L then
    offset.toNat < 2 ^ 63 ∧ if size = 0 then L % 2 ^ 32 = 0 else size.toNat + 8 < 2 ^ 32
  else 2 ^ 63 ≤ offset.toNat ∨ L - offset.toNat < bufferLength L (size.setWidth 32)

theorem sendPartOfObject_eq_iff {data part : List Byte} {size : ℕ} (hdata : data.length < 2 ^ 32)
    (hpart : part.length = size) :
    sendPartOfObject data (BitVec.ofNat 64 data.length) =
        .sendPartOfObject (encode 8 size ++ part) ↔
      data = part ∧ size + 8 < 2 ^ 32 := by
  have hlen : (BitVec.ofNat 64 data.length).toNat = data.length := by
    rw [BitVec.toNat_ofNat]
    omega
  have hreply : ((BitVec.ofNat 64 data.length + 8).setWidth 32).toNat =
      (data.length + 8) % 2 ^ 32 := by
    have height : (8 : ULong).toNat = 8 := rfl
    simp only [BitVec.toNat_setWidth, BitVec.toNat_add, hlen, height]
    omega
  simp only [sendPartOfObject, hlen, hreply, List.take_length, Message.sendPartOfObject.injEq]
  constructor
  · intro h
    have hl := congrArg List.length h
    simp only [List.length_take, List.length_append, length_encode, hpart] at hl
    have heq : data.length = size := by omega
    rw [List.take_of_length_le (by simp; omega), heq] at h
    exact ⟨List.append_cancel_left h, by omega⟩
  · rintro ⟨rfl, hsize⟩
    rw [hpart, List.take_of_length_le (by simp; omega)]

theorem bufferLength_eq_iff {L : ℕ} {size : ULong} :
    bufferLength L (size.setWidth 32) = size.toNat ∧ size.toNat + 8 < 2 ^ 32 ↔
      if size = 0 then L % 2 ^ 32 = 0 else size.toNat + 8 < 2 ^ 32 := by
  have hzero : size = 0 ↔ size.toNat = 0 := BitVec.toNat_inj.symm
  have hnarrow : (size.setWidth 32).toNat = size.toNat % 2 ^ 32 := BitVec.toNat_setWidth ..
  have hnarrow0 : size.setWidth 32 = 0 ↔ size.toNat % 2 ^ 32 = 0 := by
    rw [← BitVec.toNat_inj, hnarrow]
    rfl
  simp only [bufferLength, hnarrow0, hnarrow, hzero]
  split_ifs <;> omega

section part

variable {σ : Type} {posix : Posix σ} {s : Host σ}

/-- A part is sent exactly as it was asked for if and only if it fits. -/
theorem sendPart_exact_iff {partInit : SendPartInit} {c : Category} {object : CmaObject}
    {bytes : List Byte} (hfound : ohfiToObject s.db partInit.ohfi.toInt = some (c, object))
    (hbytes : posix.contents s.fs.state object.path = some bytes) :
    PartSent bytes partInit.offset partInit.size
        (vitaEventSendPartOfObject posix s (some partInit) true) ↔
      PartFits bytes.length partInit.offset partInit.size := by
  obtain ⟨ohfi, offset, size⟩ := partInit
  simp only [vitaEventSendPartOfObject, hfound, readFileToBuffer_eq hbytes]
  have hlt := bufferLength_lt bytes.length (size.setWidth 32)
  set B := bufferLength bytes.length (size.setWidth 32) with hB
  unfold PartSent PartFits
  by_cases hin : offset.toNat + size.toNat ≤ bytes.length
  · rw [if_pos hin, if_pos hin, ← bufferLength_eq_iff, ← hB]
    by_cases hread : offset.toNat < 2 ^ 63 ∧ B ≤ bytes.length - offset.toNat
    · have hdata : ((bytes.drop offset.toNat).take B).length = B := by
        rw [List.length_take, List.length_drop]
        omega
      have hpart : ((bytes.drop offset.toNat).take size.toNat).length = size.toNat := by
        rw [List.length_take, List.length_drop]
        omega
      rw [if_pos hread]
      simp only [if_true, List.cons.injEq, and_true]
      rw [sendPartOfObject_eq_iff (hdata.symm ▸ hlt) hpart]
      constructor
      · rintro ⟨heq, hsize⟩
        have := congrArg List.length heq
        exact ⟨hread.1, by omega, hsize⟩
      · rintro ⟨-, heq, hsize⟩
        exact ⟨by rw [heq], hsize⟩
    · rw [if_neg hread]
      constructor
      · intro h
        simp at h
      · rintro ⟨hoffset, heq, -⟩
        exact absurd ⟨hoffset, by omega⟩ hread
  · rw [if_neg hin, if_neg hin, ← hB]
    by_cases hread : offset.toNat < 2 ^ 63 ∧ B ≤ bytes.length - offset.toNat
    · rw [if_pos hread]
      constructor
      · rintro ⟨code, -, h⟩
        simp at h
      · intro h
        omega
    · rw [if_neg hread]
      refine iff_of_true ⟨.Not_Exist_Object, by decide, rfl⟩ ?_
      omega

end part

theorem sendPart_sample :
    PartSent [1, 2, 3, 4, 5, 6, 7] 2 3 (vitaEventSendPartOfObject readablePosix
      (sampleHost sampleDatabase) (some ⟨1006, 2, 3⟩) true) := by
  have hfound : ohfiToObject (sampleHost sampleDatabase).db 1006 =
      some (.photos, sampleObject 2) := by decide +kernel
  have hfits : PartFits 7 2 3 := by simp [PartFits]
  exact (@sendPart_exact_iff Unit readablePosix (sampleHost sampleDatabase) ⟨1006, 2, 3⟩ .photos
    (sampleObject 2) [1, 2, 3, 4, 5, 6, 7] hfound rfl).mpr hfits

/-- A part of no bytes is answered with the whole file. -/
theorem sendPart_empty :
    vitaEventSendPartOfObject readablePosix (sampleHost sampleDatabase) (some ⟨1006, 0, 0⟩) true =
        [.sendPartOfObject (encode 8 7 ++ [1, 2, 3, 4, 5, 6, 7]), .reportResult .OK] ∧
      ¬ PartSent [1, 2, 3, 4, 5, 6, 7] 0 0 (vitaEventSendPartOfObject readablePosix
        (sampleHost sampleDatabase) (some ⟨1006, 0, 0⟩) true) := by
  have hrun : vitaEventSendPartOfObject readablePosix (sampleHost sampleDatabase)
      (some ⟨1006, 0, 0⟩) true =
        [.sendPartOfObject (encode 8 7 ++ [1, 2, 3, 4, 5, 6, 7]), .reportResult .OK] := by
    decide +kernel
  refine ⟨hrun, ?_⟩
  rw [hrun]
  simp [PartSent, encode]

end VitaMTP
