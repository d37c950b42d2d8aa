import Mathlib.Data.List.Basic
import Mathlib.Order.Nat

/-! A stream that arrives in chunks with pauses between them. What stands between the pauses is
a given division of the stream exactly if the pauses inside the stream are where its parts end. -/
namespace Segments

variable {α : Type*}

/-- The stream of some arrivals; `none` is a pause. -/
def joined : List (Option (List α)) → List α
  | [] => []
  | none :: as => joined as
  | some chunk :: as => chunk ++ joined as

/-- A piece that has ended, in front of others. -/
def emit : List α → List (List α) → List (List α)
  | [], ps => ps
  | x :: xs, ps => (x :: xs) :: ps

/-- What stands between the pauses, with what has arrived since the last one. -/
def pieces : List α → List (Option (List α)) → List (List α)
  | acc, [] => emit acc []
  | acc, none :: as => emit acc (pieces [] as)
  | acc, some chunk :: as => pieces (acc ++ chunk) as

/-- Where the pauses are, if the arrivals start at `n`. -/
def pauses : ℕ → List (Option (List α)) → List ℕ
  | _, [] => []
  | n, none :: as => n :: pauses n as
  | n, some chunk :: as => pauses (n + chunk.length) as

/-- Where the parts of a division that starts at `n` end. -/
def ends : ℕ → List (List α) → List ℕ
  | _, [] => []
  | n, p :: ps => (n + p.length) :: ends (n + p.length) ps

theorem emit_ne_nil {acc : List α} {ps : List (List α)} (h : ∀ p ∈ ps, p ≠ []) :
    ∀ p ∈ emit acc ps, p ≠ [] := by
  cases acc with
  | nil => exact h
  | cons x xs => exact List.forall_mem_cons.mpr ⟨List.cons_ne_nil x xs, h⟩

theorem flatten_emit (acc : List α) (ps : List (List α)) :
    (emit acc ps).flatten = acc ++ ps.flatten := by
  cases acc <;> rfl

theorem pieces_ne_nil (acc : List α) (as : List (Option (List α))) :
    ∀ p ∈ pieces acc as, p ≠ [] := by
  induction as generalizing acc with
  | nil => exact emit_ne_nil (by simp)
  | cons a as ih =>
    cases a with
    | none => exact emit_ne_nil (ih [])
    | some chunk => exact ih (acc ++ chunk)

theorem flatten_pieces (acc : List α) (as : List (Option (List α))) :
    (pieces acc as).flatten = acc ++ joined as := by
  induction as generalizing acc with
  | nil => exact flatten_emit acc []
  | cons a as ih =>
    cases a with
    | none =>
      unfold pieces joined
      rw [flatten_emit, ih, List.nil_append]
    | some chunk =>
      unfold pieces joined
      rw [ih, List.append_assoc]

theorem le_of_mem_pauses {as : List (Option (List α))} {n m : ℕ} (h : m ∈ pauses n as) :
    n ≤ m := by
  induction as generalizing n with
  | nil => simp [pauses] at h
  | cons a as ih =>
    cases a with
    | none =>
      rcases List.mem_cons.mp h with rfl | h
      · exact Nat.le_refl _
      · exact ih h
    | some chunk =>
      have := ih (n := n + chunk.length) h
      omega

theorem le_of_mem_ends {ps : List (List α)} {n m : ℕ} (h : m ∈ ends n ps) : n ≤ m := by
  induction ps generalizing n with
  | nil => simp [ends] at h
  | cons p ps ih =>
    rcases List.mem_cons.mp h with rfl | h
    · omega
    · have := ih h
      omega

theorem mem_ends_emit (acc : List α) (ps : List (List α)) {n m : ℕ} (hn : n < m) :
    m ∈ ends n (emit acc ps) ↔ m = n + acc.length ∨ m ∈ ends (n + acc.length) ps := by
  cases acc with
  | nil =>
    have hne : m ≠ n := by omega
    simp [emit, hne]
  | cons x xs => exact List.mem_cons

theorem mem_ends_pieces (acc : List α) (as : List (Option (List α))) {n m : ℕ} (hn : n < m)
    (hm : m < n + acc.length + (joined as).length) :
    m ∈ ends n (pieces acc as) ↔ m ∈ pauses (n + acc.length) as := by
  induction as generalizing acc n with
  | nil =>
    have hne : m ≠ n + acc.length := by
      rw [joined, List.length_nil] at hm
      omega
    unfold pieces
    rw [mem_ends_emit acc [] hn]
    simp [ends, pauses, hne]
  | cons a as ih =>
    cases a with
    | some chunk =>
      have hlen : n + acc.length + chunk.length = n + (acc ++ chunk).length := by
        rw [List.length_append]
        omega
      unfold pieces pauses
      rw [hlen]
      refine ih (acc ++ chunk) hn ?_
      simp only [joined, List.length_append] at hm ⊢
      omega
    | none =>
      unfold pieces pauses
      rw [mem_ends_emit acc _ hn, List.mem_cons]
      rcases lt_trichotomy m (n + acc.length) with hlt | heq | hgt
      · constructor
        · rintro (rfl | hmem)
          · exact Or.inl rfl
          · have := le_of_mem_ends hmem
            omega
        · rintro (rfl | hmem)
          · exact Or.inl rfl
          · have := le_of_mem_pauses hmem
            omega
      · exact iff_of_true (Or.inl heq) (Or.inl heq)
      · exact or_congr_right (ih [] hgt (by simpa [joined] using hm))

/-- A division without empty parts is known by the places inside where its parts end. -/
theorem eq_of_ends {ps qs : List (List α)} (hps : ∀ p ∈ ps, p ≠ []) (hqs : ∀ q ∈ qs, q ≠ [])
    (hflat : ps.flatten = qs.flatten) {n : ℕ}
    (hends : ∀ m, n < m → m < n + ps.flatten.length → (m ∈ ends n ps ↔ m ∈ ends n qs)) :
    ps = qs := by
  induction ps generalizing qs n with
  | nil =>
    cases qs with
    | nil => rfl
    | cons q qs =>
      rw [List.flatten_nil, List.flatten_cons, eq_comm, List.append_eq_nil_iff] at hflat
      exact absurd hflat.1 (hqs q List.mem_cons_self)
  | cons p ps ih =>
    cases qs with
    | nil =>
      rw [List.flatten_nil, List.flatten_cons, List.append_eq_nil_iff] at hflat
      exact absurd hflat.1 (hps p List.mem_cons_self)
    | cons q qs =>
      have hp : 0 < p.length := List.length_pos_iff.mpr (hps p List.mem_cons_self)
      have hq : 0 < q.length := List.length_pos_iff.mpr (hqs q List.mem_cons_self)
      rw [List.flatten_cons, List.flatten_cons] at hflat
      have hlen := congrArg List.length hflat
      rw [List.length_append, List.length_append] at hlen
      simp only [List.flatten_cons, List.length_append] at hends
      -- The shorter first part would end inside the other.
      have hsame : p.length = q.length := by
        rcases lt_trichotomy p.length q.length with hlt | heq | hgt
        · have hmem := (hends (n + p.length) (by omega) (by omega)).mp List.mem_cons_self
          rcases List.mem_cons.mp hmem with he | hmem
          · omega
          · have := le_of_mem_ends hmem
            omega
        · exact heq
        · have hmem := (hends (n + q.length) (by omega) (by omega)).mpr List.mem_cons_self
          rcases List.mem_cons.mp hmem with he | hmem
          · omega
          · have := le_of_mem_ends hmem
            omega
      obtain ⟨rfl, hrest⟩ := List.append_inj hflat hsame
      have htail : ps = qs := by
        refine ih (fun x hx => hps x (List.mem_cons_of_mem _ hx))
          (fun x hx => hqs x (List.mem_cons_of_mem _ hx)) hrest (n := n + p.length) ?_
        intro m hn hm
        have hiff := hends m (by omega) (by omega)
        have hne : m ≠ n + p.length := by omega
        simpa [ends, hne] using hiff
      rw [htail]

theorem pieces_eq_iff {as : List (Option (List α))} {ps : List (List α)}
    (hps : ∀ p ∈ ps, p ≠ []) (hjoined : joined as = ps.flatten) :
    pieces [] as = ps ↔
      ∀ m, 0 < m → m < ps.flatten.length → (m ∈ pauses 0 as ↔ m ∈ ends 0 ps) := by
  have hflat : (pieces [] as).flatten = ps.flatten := by
    rw [flatten_pieces, List.nil_append, hjoined]
  have hpauses (m : ℕ) (hm : 0 < m) (hlt : m < ps.flatten.length) :
      m ∈ ends 0 (pieces [] as) ↔ m ∈ pauses 0 as := by
    refine mem_ends_pieces [] as hm ?_
    rw [hjoined]
    simpa using hlt
  constructor
  · intro heq m hm hlt
    rw [← hpauses m hm hlt, heq]
  · intro halign
    refine eq_of_ends (pieces_ne_nil [] as) hps hflat (n := 0) fun m hm hlt => ?_
    rw [hflat, Nat.zero_add] at hlt
    rw [hpauses m hm hlt]
    exact halign m hm hlt

end Segments
