import Mathlib.Data.List.Basic

/-! Programs that ask questions, each of which may depend on the answers so far. -/
namespace Dialogues

/-- A program that asks questions in `Q`, gets answers in `A`, and ends with a result in `R`, or
goes wrong. -/
inductive Dialogue (Q A R : Type)
  | done (r : R)
  | fault
  | ask (q : Q) (next : A → Dialogue Q A R)

namespace Dialogue

variable {Q A R R' S T : Type}

def bind (d : Dialogue Q A R) (next : R → Dialogue Q A R') : Dialogue Q A R' :=
  match d with
  | done r => next r
  | fault => fault
  | ask q more => ask q fun a => (more a).bind next

instance : Monad (Dialogue Q A) where
  pure := done
  bind := bind

def query (q : Q) : Dialogue Q A A := ask q done

/-- Goes wrong where there is no value. -/
def ofOption (r : Option R) : Dialogue Q A R := r.elim fault done

/-- A program whose questions are answered by steps of a state. -/
def run (step : Q → S → Option (A × S)) : Dialogue Q A R → S → Option (R × S)
  | done r, s => some (r, s)
  | fault, _ => none
  | ask q next, s => (step q s).bind fun (a, s) => (next a).run step s

/-- The questions and answers of a run, and its result. -/
inductive Path : Dialogue Q A R → List (Q × A) → R → Prop
  | done (r : R) : Path (done r) [] r
  | ask {q : Q} {a : A} {next : A → Dialogue Q A R} {l : List (Q × A)} {r : R}
      (h : Path (next a) l r) : Path (ask q next) ((q, a) :: l) r

variable {step : Q → S → Option (A × S)} {d : Dialogue Q A R} {next : R → Dialogue Q A R'}
  {l l' : List (Q × A)} {r : R} {r' : R'}

theorem Path.bind (h : Path d l r) (hnext : Path (next r) l' r') :
    Path (d >>= next) (l ++ l') r' := by
  induction h with
  | done r => exact hnext
  | ask _ ih => exact .ask (ih hnext)

theorem path_bind_iff : Path (d >>= next) l r' ↔
    ∃ l₁ r l₂, Path d l₁ r ∧ Path (next r) l₂ r' ∧ l = l₁ ++ l₂ := by
  constructor
  · intro h
    induction d generalizing l with
    | done r => exact ⟨[], r, l, .done r, h, rfl⟩
    | fault => exact nomatch h
    | ask q more ih =>
      cases h with
      | @ask _ a _ l _ h =>
        obtain ⟨l₁, r, l₂, h₁, h₂, rfl⟩ := ih a h
        exact ⟨(q, a) :: l₁, r, l₂, .ask h₁, h₂, rfl⟩
  · rintro ⟨l₁, r, l₂, h₁, h₂, rfl⟩
    exact h₁.bind h₂

theorem path_ofOption_iff {o : Option R} : Path (ofOption o) l r ↔ l = [] ∧ o = some r := by
  cases o with
  | none => exact ⟨nofun, fun h => nomatch h.2⟩
  | some =>
    constructor
    · intro h
      cases h
      exact ⟨rfl, rfl⟩
    · rintro ⟨rfl, h⟩
      cases h
      exact .done _

theorem path_ofOption_bind_iff {o : Option R} :
    Path (ofOption o >>= next) l r' ↔ ∃ r, o = some r ∧ Path (next r) l r' := by
  constructor
  · intro h
    obtain ⟨_, r, l, hpath, hnext, rfl⟩ := path_bind_iff.mp h
    obtain ⟨rfl, ho⟩ := path_ofOption_iff.mp hpath
    exact ⟨r, ho, hnext⟩
  · rintro ⟨r, rfl, h⟩
    exact h

/-- A state that has the answers in store gives them to a program, and keeps the ones that are not
asked for. -/
theorem Path.run {P : List (Q × A) → S → Prop}
    (hserve : ∀ {q a l s}, P ((q, a) :: l) s → ∃ s', step q s = some (a, s') ∧ P l s')
    (h : Path d l r) {more : List (Q × A)} {s : S} (hP : P (l ++ more) s) :
    ∃ s', d.run step s = some (r, s') ∧ P more s' := by
  induction h generalizing s with
  | done r => exact ⟨s, rfl, hP⟩
  | ask _ ih =>
    obtain ⟨s₁, hstep, hP₁⟩ := hserve hP
    obtain ⟨s', hrun, hP'⟩ := ih hP₁
    refine ⟨s', ?_, hP'⟩
    rw [Dialogue.run, hstep, Option.bind_some]
    exact hrun

/-- The answers are those that the steps give, one after the other. -/
def Along (step : Q → S → Option (A × S)) : List (Q × A) → S → S → Prop
  | [], s, s' => s = s'
  | (q, a) :: l, s, s' => ∃ s₁, step q s = some (a, s₁) ∧ Along step l s₁ s'

theorem run_eq_some_iff {s s' : S} :
    d.run step s = some (r, s') ↔ ∃ l, Path d l r ∧ Along step l s s' := by
  constructor
  · intro h
    induction d generalizing s with
    | done r =>
      obtain ⟨rfl, rfl⟩ := Prod.mk.inj (Option.some.inj h)
      exact ⟨[], .done _, rfl⟩
    | fault => simp [Dialogue.run] at h
    | ask q next ih =>
      obtain ⟨⟨a, s₁⟩, hstep, hnext⟩ := Option.bind_eq_some_iff.mp h
      obtain ⟨l, hpath, halong⟩ := ih a hnext
      exact ⟨(q, a) :: l, .ask hpath, s₁, hstep, halong⟩
  · rintro ⟨l, hpath, halong⟩
    induction hpath generalizing s with
    | done r => exact congrArg (fun s => some (r, s)) halong
    | ask _ ih =>
      obtain ⟨s₁, hstep, hrest⟩ := halong
      rw [Dialogue.run, hstep, Option.bind_some]
      exact ih hrest

/-- Every question that a program may ask is in `P`. -/
def Asks (P : Q → Prop) : Dialogue Q A R → Prop
  | done _ => True
  | fault => True
  | ask q next => P q ∧ ∀ a, (next a).Asks P

section asks

variable {P : Q → Prop}

theorem Asks.bind (h : d.Asks P) (hnext : ∀ r, (next r).Asks P) : (d >>= next).Asks P := by
  induction d with
  | done r => exact hnext r
  | fault => trivial
  | ask q more ih => exact ⟨h.1, fun a => ih a (h.2 a)⟩

theorem asks_ofOption (o : Option R) : (ofOption o : Dialogue Q A R).Asks P := by
  cases o <;> trivial

theorem Path.asks (h : Path d l r) (hasks : d.Asks P) : ∀ qa ∈ l, P qa.1 := by
  induction h with
  | done r => exact fun _ hmem => nomatch hmem
  | ask _ ih =>
    intro qa hmem
    rcases List.mem_cons.mp hmem with rfl | hmem
    · exact hasks.1
    · exact ih (hasks.2 _) qa hmem

end asks

end Dialogue

end Dialogues
