import Mathlib.Data.Nat.ModEq
import Mathlib.Data.List.Basic

/-! Transfers over a pipe of packets: all but the last packet of a transfer are full, and the last
is short, if need be empty. -/
namespace Transfers

variable {α : Type*} {size n : ℕ} {xs ys : List α} {rest : List (List α)}

/-- The packets of a single write: full ones, and what is left over. -/
def chunks (size : ℕ) (xs : List α) : List (List α) :=
  if 0 < size ∧ size < xs.length then xs.take size :: chunks size (xs.drop size)
  else if xs = [] then [] else [xs]
termination_by xs.length
decreasing_by
  rw [List.length_drop]
  omega

def packets (size : ℕ) (xs : List α) : List (List α) :=
  chunks size xs ++ if size ∣ xs.length then [[]] else []

/-- What the other end makes of the packets: the transfers, and the start of one more. -/
def assemble (size : ℕ) : List α → List (List α) → List (List α) × List α
  | acc, [] => ([], acc)
  | acc, p :: ps =>
    if p.length < size then ((acc ++ p) :: (assemble size [] ps).1, (assemble size [] ps).2)
    else assemble size (acc ++ p) ps

@[simp] theorem chunks_nil (size : ℕ) : chunks size ([] : List α) = [] := by
  rw [chunks, if_neg (by simp), if_pos rfl]

theorem chunks_small (hne : xs ≠ []) (h : xs.length ≤ size) : chunks size xs = [xs] := by
  rw [chunks, if_neg (by omega), if_neg hne]

theorem chunks_full (hsize : 0 < size) (hxs : xs.length = size) :
    chunks size (xs ++ ys) = xs :: chunks size ys := by
  have hne : xs ≠ [] := List.length_pos_iff.mp (by omega)
  cases ys with
  | nil =>
    rw [List.append_nil, chunks_nil]
    exact chunks_small hne hxs.le
  | cons y ys =>
    rw [chunks, if_pos (by simp only [List.length_append, List.length_cons]; omega),
      List.take_left' hxs, List.drop_left' hxs]

theorem chunks_append (hsize : 0 < size) (h : size ∣ xs.length) :
    chunks size (xs ++ ys) = chunks size xs ++ chunks size ys := by
  obtain ⟨k, hk⟩ := h
  induction k generalizing xs with
  | zero =>
    rw [Nat.mul_zero] at hk
    rw [List.length_eq_zero_iff.mp hk, chunks_nil, List.nil_append, List.nil_append]
  | succ k ih =>
    rw [Nat.mul_succ] at hk
    have htake : (xs.take size).length = size := by
      rw [List.length_take]
      omega
    have hdrop := @ih (xs.drop size) (by rw [List.length_drop]; omega)
    have hfirst : xs = xs.take size ++ xs.drop size := (List.take_append_drop size xs).symm
    rw [hfirst, List.append_assoc, chunks_full hsize htake, chunks_full hsize htake, hdrop]
    rfl

theorem packets_append (hsize : 0 < size) (h : size ∣ xs.length) :
    packets size (xs ++ ys) = chunks size xs ++ packets size ys := by
  have hdvd : size ∣ (xs ++ ys).length ↔ size ∣ ys.length := by
    rw [List.length_append, Nat.dvd_add_right h]
  rw [packets, packets, chunks_append hsize h, List.append_assoc]
  simp only [hdvd]

theorem packets_full (hsize : 0 < size) (hxs : xs.length = size) :
    packets size (xs ++ ys) = xs :: packets size ys := by
  have hone : chunks size xs = [xs] :=
    chunks_small (List.length_pos_iff.mp (by omega)) hxs.le
  rw [packets_append hsize (hxs ▸ dvd_rfl), hone]
  rfl

@[simp] theorem packets_nil (size : ℕ) : packets size ([] : List α) = [[]] := by
  rw [packets, chunks_nil, List.length_nil, if_pos (dvd_zero size)]
  rfl

theorem packets_short (h : xs.length < size) : packets size xs = [xs] := by
  by_cases hne : xs = []
  · rw [hne, packets_nil]
  · have hpos := List.length_pos_iff.mpr hne
    rw [packets, chunks_small hne h.le, if_neg (Nat.not_dvd_of_pos_of_lt hpos h), List.append_nil]

/-- A transfer is a full packet in front of a transfer, or a short packet. -/
theorem packets_cases (hsize : 0 < size) (xs : List α) :
    (xs.length < size ∧ packets size xs = [xs]) ∨
      ∃ p ys, xs = p ++ ys ∧ p.length = size ∧ packets size xs = p :: packets size ys := by
  by_cases hlt : xs.length < size
  · exact Or.inl ⟨hlt, packets_short hlt⟩
  · have htake : (xs.take size).length = size := by
      rw [List.length_take]
      omega
    have hfull := @packets_full _ _ _ (xs.drop size) hsize htake
    rw [List.take_append_drop] at hfull
    exact Or.inr ⟨_, _, (List.take_append_drop size xs).symm, htake, hfull⟩

theorem assemble_packets (hsize : 0 < size) (acc xs : List α) (rest : List (List α)) :
    assemble size acc (packets size xs ++ rest) =
      ((acc ++ xs) :: (assemble size [] rest).1, (assemble size [] rest).2) := by
  obtain ⟨n, hn⟩ : ∃ n, xs.length = n := ⟨_, rfl⟩
  induction n using Nat.strong_induction_on generalizing acc xs with
  | _ n ih =>
    rcases packets_cases hsize xs with ⟨hlt, hpackets⟩ | ⟨p, ys, rfl, hp, hpackets⟩
    · rw [hpackets, List.singleton_append, assemble, if_pos hlt]
    · rw [List.length_append] at hn
      rw [hpackets, List.cons_append, assemble, if_neg (by omega), ih _ (by omega) _ _ rfl,
        List.append_assoc]

theorem assemble_transfers (hsize : 0 < size) (transfers : List (List α)) :
    assemble size [] (transfers.flatMap (packets size)) = (transfers, []) := by
  induction transfers with
  | nil => rfl
  | cons xs transfers ih =>
    rw [List.flatMap_cons, assemble_packets hsize, ih, List.nil_append]

/-- A read of at most `n`: it ends with a short packet, or when it has `n`. It fails at the end of
the packets, and where a packet is more than what is wanted. -/
def bulkRead (size : ℕ) : ℕ → List (List α) → Option (List α × List (List α))
  | _, [] => none
  | n, p :: ps =>
    if n < p.length then none
    else if p.length < size ∨ n = p.length then some (p, ps)
    else (bulkRead size (n - p.length) ps).map fun (xs, rest) => (p ++ xs, rest)

theorem bulkRead_lt {ps : List (List α)} (h : bulkRead size n ps = some (xs, rest)) :
    rest.length < ps.length := by
  induction ps generalizing n xs rest with
  | nil => simp [bulkRead] at h
  | cons p ps ih =>
    rw [bulkRead] at h
    split_ifs at h
    · obtain ⟨-, rfl⟩ := Prod.mk.inj (Option.some.inj h)
      exact Nat.lt_succ_self _
    · obtain ⟨⟨ys, rest'⟩, hread, heq⟩ := Option.map_eq_some_iff.mp h
      obtain ⟨-, rfl⟩ := Prod.mk.inj heq
      exact (ih hread).trans (Nat.lt_succ_self _)

theorem bulkRead_le {ps : List (List α)} (h : bulkRead size n ps = some (xs, rest)) :
    xs.length ≤ n := by
  induction ps generalizing n xs rest with
  | nil => simp [bulkRead] at h
  | cons p ps ih =>
    rw [bulkRead] at h
    split_ifs at h with hlong hend
    · obtain ⟨rfl, -⟩ := Prod.mk.inj (Option.some.inj h)
      exact Nat.not_lt.mp hlong
    · obtain ⟨⟨ys, rest'⟩, hread, heq⟩ := Option.map_eq_some_iff.mp h
      obtain ⟨rfl, -⟩ := Prod.mk.inj heq
      have hle := ih hread
      rw [List.length_append]
      omega

theorem bulkRead_short {p : List α} {ps : List (List α)} (hle : p.length ≤ n)
    (h : p.length < size) : bulkRead size n (p :: ps) = some (p, ps) := by
  rw [bulkRead, if_neg (by omega), if_pos (Or.inl h)]

theorem bulkRead_take (hsize : 0 < size) (hn : 0 < n) (hdvd : size ∣ n) (hle : n ≤ xs.length) :
    bulkRead size n (packets size xs ++ rest) =
      some (xs.take n, packets size (xs.drop n) ++ rest) := by
  obtain ⟨k, rfl⟩ := hdvd
  induction k generalizing xs with
  | zero => exact absurd hn (Nat.lt_irrefl _)
  | succ k ih =>
    rw [Nat.mul_succ] at hle hn ⊢
    rcases packets_cases hsize xs with ⟨hlt, -⟩ | ⟨p, ys, rfl, hp, hpackets⟩
    · omega
    rw [List.length_append] at hle
    rw [hpackets, List.cons_append, bulkRead, if_neg (by omega)]
    by_cases hk : k = 0
    · subst hk
      rw [if_pos (Or.inr (by omega))]
      have htotal : size * 0 + size = p.length := by omega
      rw [htotal, List.take_left, List.drop_left]
    · have hpos : 0 < size * k := Nat.mul_pos hsize (Nat.pos_of_ne_zero hk)
      have hadd : size * k + size = p.length + size * k := by omega
      rw [if_neg (by omega), hadd, Nat.add_sub_cancel_left, ih hpos (by omega), Option.map_some,
        List.take_length_add_append, List.drop_length_add_append]

/-- A read of a whole transfer, if there is room for it and its end is a short packet that is read
as well. -/
theorem bulkRead_all (hsize : 0 < size) (hle : xs.length ≤ n)
    (hend : ¬ (size ∣ xs.length ∧ xs.length = n ∧ n ≠ 0)) :
    bulkRead size n (packets size xs ++ rest) = some (xs, rest) := by
  induction hxs : xs.length using Nat.strong_induction_on generalizing xs n with
  | _ m ih =>
    rcases packets_cases hsize xs with ⟨hlt, hpackets⟩ | ⟨p, ys, rfl, hp, hpackets⟩
    · rw [hpackets]
      exact bulkRead_short hle hlt
    · rw [List.length_append] at hle hend hxs
      have hdvd : size ∣ p.length + ys.length ↔ size ∣ ys.length := by
        rw [Nat.dvd_add_right (hp ▸ dvd_rfl)]
      rw [hdvd] at hend
      have hmore : n ≠ p.length := by
        intro hn
        have hys : ys.length = 0 := by omega
        exact hend ⟨hys ▸ dvd_zero size, by omega, by omega⟩
      have hrest := @ih ys.length (by omega) (n - p.length) ys (by omega)
        (fun h => hend ⟨h.1, by omega, by omega⟩) rfl
      rw [hpackets, List.cons_append, bulkRead, if_neg (by omega), if_neg (by omega), hrest]
      rfl

/-- A read of what is left of a transfer: the empty packet that may end it stays. -/
theorem bulkRead_exact (hsize : 0 < size) (hpos : 0 < xs.length) :
    bulkRead size xs.length (packets size xs ++ rest) =
      some (xs, if size ∣ xs.length then [] :: rest else rest) := by
  by_cases hdvd : size ∣ xs.length
  · rw [bulkRead_take hsize hpos hdvd le_rfl, List.take_length, List.drop_length, packets_nil,
      if_pos hdvd]
    rfl
  · rw [bulkRead_all hsize le_rfl (fun h => hdvd h.1), if_neg hdvd]

end Transfers
