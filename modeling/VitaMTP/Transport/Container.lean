import Mathlib.Data.List.GetD
import VitaMTP.Events.Payloads

/-! The container of a request, a response or an event, and the numbers in it. -/
namespace VitaMTP
open LittleEndian

def PTP_RC_GeneralError : BitVec 16 := 0x2002
def PTP_ERROR_IO : BitVec 16 := 0x02FF
def PTP_ERROR_DATA_EXPECTED : BitVec 16 := 0x02FE
def PTP_ERROR_RESP_EXPECTED : BitVec 16 := 0x02FD
def PTP_ERROR_BADPARAM : BitVec 16 := 0x02FC
def PTP_ERROR_CANCEL : BitVec 16 := 0x02FB

def htod16a (x : BitVec 16) : List Byte := encode 2 x.toNat
def htod32a (x : BitVec 32) : List Byte := encode 4 x.toNat

/-- The number at an offset, which has to be within the data. -/
def dtoh16a (data : List Byte) (off : ℕ) : BitVec 16 :=
  BitVec.ofNat 16 (decode ((data.drop off).take 2))

def dtoh32a (data : List Byte) (off : ℕ) : BitVec 32 :=
  BitVec.ofNat 32 (decode ((data.drop off).take 4))

section numbers

variable {pre rest : List Byte} {off : ℕ}

@[simp] theorem length_htod16a (x : BitVec 16) : (htod16a x).length = 2 := length_encode ..

@[simp] theorem length_htod32a (x : BitVec 32) : (htod32a x).length = 4 := length_encode ..

theorem dtoh16a_append (x : BitVec 16) (h : pre.length = off) :
    dtoh16a (pre ++ (htod16a x ++ rest)) off = x := by
  have hx : x.toNat < 256 ^ 2 := x.isLt
  rw [dtoh16a, ← h, List.drop_left, List.take_left' (length_htod16a x), htod16a, decode_encode hx]
  rw [BitVec.ofNat_toNat, BitVec.setWidth_eq]

theorem dtoh32a_append (x : BitVec 32) (h : pre.length = off) :
    dtoh32a (pre ++ (htod32a x ++ rest)) off = x := by
  have hx : x.toNat < 256 ^ 4 := x.isLt
  rw [dtoh32a, ← h, List.drop_left, List.take_left' (length_htod32a x), htod32a, decode_encode hx]
  rw [BitVec.ofNat_toNat, BitVec.setWidth_eq]

/-- What comes first. -/
theorem dtoh16a_head (x : BitVec 16) (rest : List Byte) : dtoh16a (htod16a x ++ rest) 0 = x :=
  @dtoh16a_append [] rest 0 x rfl

theorem dtoh32a_head (x : BitVec 32) (rest : List Byte) : dtoh32a (htod32a x ++ rest) 0 = x :=
  @dtoh32a_append [] rest 0 x rfl

/-- What comes last. -/
theorem dtoh32a_last (x : BitVec 32) (h : pre.length = off) :
    dtoh32a (pre ++ htod32a x) off = x := by
  have hlast := @dtoh32a_append pre [] off x h
  rwa [List.append_nil] at hlast

theorem htod32a_dtoh32a {data : List Byte} (h : off + 4 ≤ data.length) :
    htod32a (dtoh32a data off) = (data.drop off).take 4 := by
  have hlength : ((data.drop off).take 4).length = 4 := by
    rw [List.length_take, List.length_drop]
    omega
  have hlt : decode ((data.drop off).take 4) < 2 ^ 32 :=
    (decode_lt _).trans_eq (by rw [hlength]; rfl)
  rw [htod32a, dtoh32a, BitVec.toNat_ofNat, Nat.mod_eq_of_lt hlt]
  nth_rewrite 1 [← hlength]
  exact encode_decode _

end numbers

instance neZero_five : NeZero 5 := ⟨Nat.succ_ne_zero 4⟩

instance neZero_six : NeZero 6 := ⟨Nat.succ_ne_zero 5⟩

/-- `PTPContainer`: `Param1` to `Param5`, and how many of them are meaningful. -/
structure PTPContainer where
  code : BitVec 16
  sessionId : BitVec 32 := 0
  transactionId : BitVec 32 := 0
  param : Fin 5 → BitVec 32 := fun _ => 0
  nparam : Fin 6 := 0

namespace PTPContainer

variable (ptp : PTPContainer)

/-- The parameters that are sent. -/
def sentParams : List (BitVec 32) := (List.ofFn ptp.param).take ptp.nparam

/-- The first `n` parameters are those in `data`, from `off` on; the others stay what they were. -/
def readParams (data : List Byte) (off n : ℕ) : PTPContainer :=
  { ptp with param := fun i => if i.val < n then dtoh32a data (off + 4 * i.val) else ptp.param i }

/-- The first parameters are `ps`. -/
def setParams (ps : List (BitVec 32)) : PTPContainer :=
  { ptp with param := fun i => ps.getD i.val (ptp.param i) }

@[simp] theorem length_sentParams : ptp.sentParams.length = ptp.nparam.val := by
  have hle := ptp.nparam.isLt
  rw [sentParams, List.length_take, List.length_ofFn]
  omega

end PTPContainer

/-- No parameters. -/
theorem few_nil : ([] : List (BitVec 32)).length ≤ 5 := Nat.zero_le 5

theorem few_one (p : BitVec 32) : [p].length ≤ 5 := Nat.succ_le_succ (Nat.zero_le 4)

theorem few_two (p q : BitVec 32) : [p, q].length ≤ 5 :=
  Nat.succ_le_succ (Nat.succ_le_succ (Nat.zero_le 3))

theorem few_three (p q r : BitVec 32) : [p, q, r].length ≤ 5 :=
  Nat.succ_le_succ (Nat.succ_le_succ (Nat.succ_le_succ (Nat.zero_le 2)))

theorem length_flatMap_htod32a (ps : List (BitVec 32)) :
    (ps.flatMap htod32a).length = 4 * ps.length := by
  induction ps with
  | nil => rfl
  | cons p ps ih =>
    rw [List.flatMap_cons, List.length_append, length_htod32a, ih, List.length_cons]
    omega

/-- The `i`-th of a row of numbers. -/
theorem dtoh32a_flatMap {pre rest : List Byte} {ps : List (BitVec 32)} {i : ℕ}
    (h : i < ps.length) :
    dtoh32a (pre ++ (ps.flatMap htod32a ++ rest)) (pre.length + 4 * i) = ps[i] := by
  induction ps generalizing pre i with
  | nil => exact absurd h (Nat.not_lt_zero _)
  | cons p ps ih =>
    rw [List.flatMap_cons, List.append_assoc]
    cases i with
    | zero => exact dtoh32a_append p rfl
    | succ i =>
      have hnext := @ih (pre ++ htod32a p) i (Nat.lt_of_succ_lt_succ h)
      rw [List.append_assoc, List.length_append, length_htod32a] at hnext
      rw [show pre.length + 4 * (i + 1) = pre.length + 4 + 4 * i by omega, hnext]
      rfl

/-- Reading the parameters that were written. -/
theorem PTPContainer.readParams_flatMap (ptp : PTPContainer) {pre rest : List Byte}
    {ps : List (BitVec 32)} {off : ℕ} (h : pre.length = off) :
    ptp.readParams (pre ++ (ps.flatMap htod32a ++ rest)) off ps.length = ptp.setParams ps := by
  have hparam : (ptp.readParams (pre ++ (ps.flatMap htod32a ++ rest)) off ps.length).param =
      (ptp.setParams ps).param := by
    funext i
    dsimp only [readParams, setParams]
    by_cases hi : i.val < ps.length
    · rw [if_pos hi, List.getD_eq_getElem _ _ hi, ← h, dtoh32a_flatMap hi]
    · rw [if_neg hi, List.getD_eq_default _ _ (Nat.not_lt.mp hi)]
  rw [readParams, setParams, PTPContainer.mk.injEq]
  exact ⟨rfl, rfl, rfl, hparam, rfl⟩

end VitaMTP
