import Mathlib.Data.List.Basic

/-! A stream that arrives in pieces, and reads that wait until they are complete. -/
namespace Pieces

variable {α : Type*} {s s' : List { p : List α // p ≠ [] }} {xs ys : List α} {n : ℕ}

/-- What arrives at once, and what a single read can take at most. -/
abbrev Piece (α : Type*) := { p : List α // p ≠ [] }

/-- All that is still to be read. -/
def content (s : List (Piece α)) : List α := (s.map Subtype.val).flatten

@[simp] theorem content_nil : content ([] : List (Piece α)) = [] := rfl

@[simp] theorem content_cons (p : Piece α) (s : List (Piece α)) :
    content (p :: s) = p.val ++ content s := by
  rw [content, content, List.map_cons, List.flatten_cons]

@[simp] theorem content_append (s s' : List (Piece α)) :
    content (s ++ s') = content s ++ content s' := by
  rw [content, content, content, List.map_append, List.flatten_append]

theorem exists_content (xs : List α) : ∃ s, content s = xs := by
  cases xs with
  | nil => exact ⟨[], rfl⟩
  | cons x xs => exact ⟨[⟨x :: xs, List.cons_ne_nil x xs⟩], by simp⟩

/-- What is left of a piece that is only read in part. -/
def unread (p : Piece α) (h : n < p.val.length) : Piece α :=
  ⟨p.val.drop n, by rw [ne_eq, List.drop_eq_nil_iff]; omega⟩

/-- A loop that reads until it has `n`: each round asks for what is still missing, and gets some of
it. At the end of the stream it fails, and nothing is left. -/
def readExact : ℕ → List (Piece α) → Option (List α) × List (Piece α)
  | n, [] => (if n = 0 then some [] else none, [])
  | n, p :: s =>
    if n = 0 then (some [], p :: s)
    else if h : n < p.val.length then (some (p.val.take n), unread p h :: s)
    else
      let (got, rest) := readExact (n - p.val.length) s
      (got.map (p.val ++ ·), rest)

theorem readExact_append (h : content s = xs ++ ys) :
    ∃ rest, readExact xs.length s = (some xs, rest) ∧ content rest = ys := by
  induction s generalizing xs with
  | nil =>
    obtain ⟨rfl, rfl⟩ := List.append_eq_nil_iff.mp h.symm
    exact ⟨[], rfl, rfl⟩
  | cons p s ih =>
    rw [content_cons] at h
    unfold readExact
    by_cases hzero : xs.length = 0
    · obtain rfl := List.length_eq_zero_iff.mp hzero
      rw [if_pos hzero]
      exact ⟨p :: s, rfl, by rw [content_cons, h, List.nil_append]⟩
    · rw [if_neg hzero]
      by_cases hlt : xs.length < p.val.length
      · have htake := congrArg (List.take xs.length) h
        have hdrop := congrArg (List.drop xs.length) h
        have hle : xs.length ≤ p.val.length := Nat.le_of_lt hlt
        rw [List.take_left, List.take_append_of_le_length hle] at htake
        rw [List.drop_left, List.drop_append_of_le_length hle] at hdrop
        rw [dif_pos hlt, htake]
        exact ⟨unread p hlt :: s, rfl, by rw [content_cons]; exact hdrop⟩
      · have htake := congrArg (List.take p.val.length) h
        have hdrop := congrArg (List.drop p.val.length) h
        rw [List.take_left, List.take_append_of_le_length (Nat.not_lt.mp hlt)] at htake
        rw [List.drop_left, List.drop_append_of_le_length (Nat.not_lt.mp hlt)] at hdrop
        obtain ⟨rest, hread, hrest⟩ := ih hdrop
        rw [List.length_drop] at hread
        refine ⟨rest, ?_, hrest⟩
        rw [dif_neg hlt, hread]
        have hwhole : p.val ++ xs.drop p.val.length = xs := by
          nth_rewrite 1 [htake]
          exact List.take_append_drop _ _
        rw [← hwhole]
        simp

theorem readExact_short (h : (content s).length < n) : readExact n s = (none, []) := by
  induction s generalizing n with
  | nil =>
    unfold readExact
    rw [if_neg (by rw [content_nil, List.length_nil] at h; omega)]
  | cons p s ih =>
    rw [content_cons, List.length_append] at h
    unfold readExact
    rw [if_neg (by omega), dif_neg (by omega), ih (by omega)]
    rfl

theorem readExact_eq_some (h : readExact n s = (some xs, s')) :
    content s = xs ++ content s' ∧ xs.length = n := by
  by_cases hshort : (content s).length < n
  · rw [readExact_short hshort] at h
    simp at h
  · have hlength : ((content s).take n).length = n := by
      rw [List.length_take]
      omega
    obtain ⟨rest, hread, hrest⟩ := readExact_append (List.take_append_drop n (content s)).symm
    rw [hlength, h] at hread
    obtain ⟨hxs, rfl⟩ := Prod.mk.inj hread
    obtain rfl := Option.some.inj hxs
    exact ⟨by rw [hrest, List.take_append_drop], hlength⟩

theorem readExact_congr (n : ℕ) (h : content s = content s') :
    (readExact n s).1 = (readExact n s').1 ∧
      content (readExact n s).2 = content (readExact n s').2 := by
  by_cases hshort : (content s).length < n
  · rw [readExact_short hshort, readExact_short (h ▸ hshort)]
    exact ⟨rfl, rfl⟩
  · have hsplit := (List.take_append_drop n (content s)).symm
    obtain ⟨rest, hread, hrest⟩ := readExact_append hsplit
    obtain ⟨rest', hread', hrest'⟩ := readExact_append (h.symm.trans hsplit)
    rw [List.length_take, Nat.min_eq_left (Nat.not_lt.mp hshort)] at hread hread'
    rw [hread, hread']
    exact ⟨rfl, hrest.trans hrest'.symm⟩

theorem readExact_eq_none (h : readExact n s = (none, s')) :
    (content s).length < n ∧ s' = [] := by
  by_cases hshort : (content s).length < n
  · rw [readExact_short hshort] at h
    exact ⟨hshort, (Prod.mk.inj h).2.symm⟩
  · obtain ⟨rest, hread, -⟩ := readExact_append (List.take_append_drop n (content s)).symm
    rw [List.length_take, Nat.min_eq_left (Nat.not_lt.mp hshort), h] at hread
    simp at hread

end Pieces
