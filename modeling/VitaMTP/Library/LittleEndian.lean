import Mathlib.Data.BitVec
import Mathlib.Data.List.Basic

/-! Numbers as little-endian bytes. -/
namespace LittleEndian

/-- The lowest `w` bytes of `n`, the lowest first. -/
def encode : ℕ → ℕ → List (BitVec 8)
  | 0, _ => []
  | w + 1, n => BitVec.ofNat 8 n :: encode w (n / 256)

def decode : List (BitVec 8) → ℕ
  | [] => 0
  | b :: bs => 256 * decode bs + b.toNat

@[simp] theorem length_encode (w n : ℕ) : (encode w n).length = w := by
  induction w generalizing n with
  | zero => rfl
  | succ w ih => rw [encode, List.length_cons, ih]

theorem decode_encode {w n : ℕ} (h : n < 256 ^ w) : decode (encode w n) = n := by
  induction w generalizing n with
  | zero =>
    rw [pow_zero, Nat.lt_one_iff] at h
    rw [h]
    rfl
  | succ w ih =>
    have hdiv : n / 256 < 256 ^ w := by
      rw [pow_succ] at h
      exact Nat.div_lt_of_lt_mul (by omega)
    rw [encode, decode, ih hdiv, BitVec.toNat_ofNat]
    omega

theorem decode_lt (bs : List (BitVec 8)) : decode bs < 256 ^ bs.length := by
  induction bs with
  | nil => exact Nat.one_pos
  | cons b bs ih =>
    have hb : b.toNat < 256 := b.isLt
    rw [decode, List.length_cons, pow_succ]
    omega

theorem encode_decode (bs : List (BitVec 8)) : encode bs.length (decode bs) = bs := by
  induction bs with
  | nil => rfl
  | cons b bs ih =>
    have hb : b.toNat < 256 := b.isLt
    have hdiv : (256 * decode bs + b.toNat) / 256 = decode bs := by omega
    have hlow : BitVec.ofNat 8 (256 * decode bs + b.toNat) = b := by
      apply BitVec.eq_of_toNat_eq
      rw [BitVec.toNat_ofNat]
      omega
    rw [decode, List.length_cons, encode, hdiv, hlow, ih]

@[simp] theorem decode_replicate (n : ℕ) : decode (List.replicate n 0) = 0 := by
  induction n with
  | zero => rfl
  | succ n ih => rw [List.replicate_succ, decode, ih]; rfl

end LittleEndian
