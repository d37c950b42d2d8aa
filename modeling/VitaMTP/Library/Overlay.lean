import Mathlib.Data.List.Basic

/-! Writing chunks over a list, each at its own offset, against adding them at the end. -/
namespace Overlay

variable {α : Type*} [Inhabited α]

/-- `data` written at the offset `off`; what is left out before it is filled. -/
def overlay (l : List α) (off : ℕ) (data : List α) : List α :=
  l.take off ++ List.replicate (off - l.length) default ++ data ++ l.drop (off + data.length)

/-- The chunks written one after the other, each an offset and its data. -/
def overlays (l : List α) (chunks : List (ℕ × List α)) : List α :=
  chunks.foldl (fun l chunk => overlay l chunk.1 chunk.2) l

omit [Inhabited α] in
/-- All the data, as it ends up behind a list that only grows. -/
def appended (chunks : List (ℕ × List α)) : List α := (chunks.map Prod.snd).flatten

omit [Inhabited α] in
/-- Every chunk starts in a list of length `n`, or at its end, that grows by each chunk. -/
def Bounded : ℕ → List (ℕ × List α) → Prop
  | _, [] => True
  | n, (off, data) :: chunks => off ≤ n ∧ Bounded (n + data.length) chunks

omit [Inhabited α] in
/-- Every chunk with data starts where the list ends. -/
def AtEnd : ℕ → List (ℕ × List α) → Prop
  | _, [] => True
  | n, (off, data) :: chunks => (data = [] ∨ off = n) ∧ AtEnd (n + data.length) chunks

/-- Every chunk starts in the list that the chunks before it left, or at its end. -/
def Placed : List α → List (ℕ × List α) → Prop
  | _, [] => True
  | l, (off, data) :: chunks => off ≤ l.length ∧ Placed (overlay l off data) chunks

theorem length_overlay {l : List α} {off : ℕ} (hoff : off ≤ l.length) (data : List α) :
    (overlay l off data).length = max l.length (off + data.length) := by
  simp only [overlay, List.length_append, List.length_take, List.length_replicate,
    List.length_drop]
  omega

theorem overlay_nil {l : List α} {off : ℕ} (hoff : off ≤ l.length) : overlay l off [] = l := by
  have hfill : off - l.length = 0 := by omega
  simp [overlay, hfill]

theorem overlay_length (l data : List α) : overlay l l.length data = l ++ data := by
  simp [overlay]

/-- A chunk goes to the end exactly if it starts there or there is nothing of it. -/
theorem overlay_eq_append_iff {l : List α} {off : ℕ} (hoff : off ≤ l.length) (data : List α) :
    overlay l off data = l ++ data ↔ data = [] ∨ off = l.length := by
  constructor
  · intro h
    have hlength := congrArg List.length h
    rw [length_overlay hoff, List.length_append] at hlength
    by_cases hdata : data = []
    · exact Or.inl hdata
    · have := List.length_pos_of_ne_nil hdata
      right
      omega
  · rintro (rfl | rfl)
    · rw [overlay_nil hoff, List.append_nil]
    · exact overlay_length l data

omit [Inhabited α] in
@[simp] theorem appended_cons (chunk : ℕ × List α) (chunks : List (ℕ × List α)) :
    appended (chunk :: chunks) = chunk.2 ++ appended chunks := rfl

@[simp] theorem overlays_cons (l : List α) (chunk : ℕ × List α) (chunks : List (ℕ × List α)) :
    overlays l (chunk :: chunks) = overlays (overlay l chunk.1 chunk.2) chunks := rfl

omit [Inhabited α] in
theorem AtEnd.initial {n : ℕ} {done chunks : List (ℕ × List α)} (h : AtEnd n chunks)
    (hdone : done <+: chunks) : AtEnd n done := by
  induction done generalizing n chunks with
  | nil => exact trivial
  | cons chunk done ih =>
    obtain ⟨rest, rfl⟩ := hdone
    exact ⟨h.1, ih h.2 ⟨rest, rfl⟩⟩

omit [Inhabited α] in
theorem Bounded.initial {n : ℕ} {done chunks : List (ℕ × List α)} (h : Bounded n chunks)
    (hdone : done <+: chunks) : Bounded n done := by
  induction done generalizing n chunks with
  | nil => exact trivial
  | cons chunk done ih =>
    obtain ⟨rest, rfl⟩ := hdone
    exact ⟨h.1, ih h.2 ⟨rest, rfl⟩⟩

theorem AtEnd.overlays {l : List α} {chunks : List (ℕ × List α)} (h : AtEnd l.length chunks)
    (hbound : Bounded l.length chunks) : overlays l chunks = l ++ appended chunks := by
  induction chunks generalizing l with
  | nil => simp [Overlay.overlays, appended]
  | cons chunk chunks ih =>
    obtain ⟨off, data⟩ := chunk
    rw [overlays_cons, (overlay_eq_append_iff hbound.1 data).mpr h.1, appended_cons,
      ← List.append_assoc]
    apply ih
    · rw [List.length_append]
      exact h.2
    · rw [List.length_append]
      exact hbound.2

theorem AtEnd.placed {l : List α} {chunks : List (ℕ × List α)} (h : AtEnd l.length chunks)
    (hbound : Bounded l.length chunks) : Placed l chunks := by
  induction chunks generalizing l with
  | nil => exact trivial
  | cons chunk chunks ih =>
    obtain ⟨off, data⟩ := chunk
    refine ⟨hbound.1, ?_⟩
    rw [(overlay_eq_append_iff hbound.1 data).mpr h.1]
    apply ih
    · rw [List.length_append]
      exact h.2
    · rw [List.length_append]
      exact hbound.2

/-- Adding at the end is right after every chunk exactly if every chunk starts there. -/
theorem overlays_eq_appended_iff {l : List α} {chunks : List (ℕ × List α)}
    (hbound : Bounded l.length chunks) :
    (∀ done, done <+: chunks → overlays l done = l ++ appended done) ↔
      AtEnd l.length chunks := by
  induction chunks generalizing l with
  | nil =>
    refine iff_of_true (fun done hdone => ?_) trivial
    obtain rfl := List.prefix_nil.mp hdone
    simp [overlays, appended]
  | cons chunk chunks ih =>
    obtain ⟨off, data⟩ := chunk
    have hrest : Bounded (l ++ data).length chunks := by
      rw [List.length_append]
      exact hbound.2
    constructor
    · intro h
      have hfirst : overlay l off data = l ++ data := by
        simpa [overlays, appended] using h [(off, data)] ⟨chunks, rfl⟩
      refine ⟨(overlay_eq_append_iff hbound.1 data).mp hfirst, ?_⟩
      have hlater := (ih hrest).mp fun done hdone => by
        have := h ((off, data) :: done) (List.cons_prefix_cons.mpr ⟨rfl, hdone⟩)
        rwa [overlays_cons, hfirst, appended_cons, ← List.append_assoc] at this
      rwa [List.length_append] at hlater
    · intro h done hdone
      exact (h.initial hdone).overlays (hbound.initial hdone)

end Overlay
