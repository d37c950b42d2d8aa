import VitaMTP.Library.Segments
import VitaMTP.Wireless.Pairing

/-! `VitaMTP_Sock_Read_All`, and the loop that processes what it reads from a client. -/
namespace VitaMTP
open Segments

/-- What `recvfrom` gives: bytes with their sender, `SOCK_EWOULDBLOCK`, or another error. -/
inductive Recv (α : Type)
  | bytes (chunk : List Char) (src : α)
  | wouldBlock
  | failed
  deriving DecidableEq, Repr

/-- How a round of the loop of `VitaMTP_Sock_Read_All` ends. -/
inductive ReadRound (α : Type)
  | more (data : List Char) (src : Option α)
  | returned (data : List Char) (src : Option α)
  | failed
  deriving DecidableEq, Repr

def readRound {α : Type} (data : List Char) (src : Option α) : Recv α → ReadRound α
  | .failed => .failed
  | .wouldBlock => .returned data src
  | .bytes chunk from' =>
    if chunk = [] then .returned data (some from') else .more (data ++ chunk) (some from')

/-- `VitaMTP_Sock_Read_All` on a connection, from what `recvfrom` gives until the client has
closed, and what is left of it. As long as there is no data the socket is blocking. -/
def sockReadAll : List Char → List (Recv Unit) → Option (List Char) × List (Recv Unit)
  | data, [] => (some data, [])
  | data, r :: rs =>
    if data = [] ∧ r = .wouldBlock then sockReadAll [] rs
    else
      match readRound data none r with
      | .more data _ => sockReadAll data rs
      | .returned data _ => (some data, rs)
      | .failed => (none, rs)

theorem sockReadAll_length (data : List Char) (rs : List (Recv Unit)) :
    (sockReadAll data rs).2.length ≤ rs.length := by
  induction rs generalizing data with
  | nil => exact Nat.le_refl _
  | cons r rs ih =>
    unfold sockReadAll
    split
    · exact (ih []).trans (Nat.le_succ _)
    · cases readRound data none r with
      | more data src => exact (ih data).trans (Nat.le_succ _)
      | returned data src => exact Nat.le_succ _
      | failed => exact Nat.le_succ _

theorem sockReadAll_lt {rs rest : List (Recv Unit)} {x : Char} {xs : List Char}
    (h : sockReadAll [] rs = (some (x :: xs), rest)) : rest.length < rs.length := by
  cases rs with
  | nil => simp [sockReadAll] at h
  | cons r rs =>
    have hrest : (sockReadAll [] (r :: rs)).2 = rest := by rw [h]
    rw [← hrest]
    unfold sockReadAll
    split
    · exact Nat.lt_succ_of_le (sockReadAll_length [] rs)
    · cases readRound [] none r with
      | more data src => exact Nat.lt_succ_of_le (sockReadAll_length data rs)
      | returned data src => exact Nat.lt_succ_self _
      | failed => exact Nat.lt_succ_self _

/-- The requests that are processed until the call has left the client, and the call then.
The callbacks and the socket react as `react` says. -/
def messageLoop (react : Pairing → List Char → Reaction) (s : Pairing) (rs : List (Recv Unit)) :
    Option (List (List Char) × Pairing) :=
  match _h : sockReadAll [] rs with
  | (none, _) => (s.step .readFailed).map fun s => ([], s)
  | (some [], _) => (s.step .closed).map fun s => ([], s)
  | (some (x :: xs), rest) => do
    let s ← s.step (.received (x :: xs) (react s (x :: xs)))
    if s.phase = .finished then some ([x :: xs], s)
    else
      let (ds, s) ← messageLoop react s rest
      some ((x :: xs) :: ds, s)
termination_by rs.length
decreasing_by exact sockReadAll_lt _h

theorem messageLoop_closed (react : Pairing → List Char → Reaction) (s : Pairing)
    {rs rest : List (Recv Unit)} (h : sockReadAll [] rs = (some [], rest)) :
    messageLoop react s rs = (s.step .closed).map fun s => ([], s) := by
  rw [messageLoop]
  split
  · rename_i heq
    rw [h] at heq
    simp at heq
  · rfl
  · rename_i heq
    rw [h] at heq
    simp at heq

theorem messageLoop_message (react : Pairing → List Char → Reaction) (s : Pairing)
    {rs rest : List (Recv Unit)} {x : Char} {xs : List Char}
    (h : sockReadAll [] rs = (some (x :: xs), rest)) :
    messageLoop react s rs = (s.step (.received (x :: xs) (react s (x :: xs)))).bind fun s =>
      if s.phase = .finished then some ([x :: xs], s)
      else (messageLoop react s rest).bind fun r => some ((x :: xs) :: r.1, r.2) := by
  rw [messageLoop]
  split
  · rename_i heq
    rw [h] at heq
    simp at heq
  · rename_i heq
    rw [h] at heq
    simp at heq
  · rename_i heq
    rw [h] at heq
    obtain ⟨hsome, rfl⟩ := Prod.mk.inj heq
    obtain ⟨rfl, rfl⟩ := List.cons.inj (Option.some.inj hsome)
    rfl

/-- The same loop over requests that are read one at a time. -/
def processEach (react : Pairing → List Char → Reaction) (s : Pairing) :
    List (List Char) → Option (List (List Char) × Pairing)
  | [] => (s.step .closed).map fun s => ([], s)
  | data :: rest => do
    let s ← s.step (.received data (react s data))
    if s.phase = .finished then some ([data], s)
    else
      let (ds, s) ← processEach react s rest
      some (data :: ds, s)

/-- What one `recvfrom` with the buffer of `REQUEST_BUFFER_SIZE` bytes can take from a stream. -/
def Chunk : Type := { chunk : List Char // 0 < chunk.length ∧ chunk.length ≤ 100 }

/-- A stream cut into results of `recvfrom`; `none` is a would-block. -/
abbrev Cuts : Type := List (Option Chunk)

def Cuts.arrivals (cuts : Cuts) : List (Option (List Char)) := cuts.map (·.map Subtype.val)

def Cuts.recvs (cuts : Cuts) : List (Recv Unit) :=
  cuts.map fun
    | none => .wouldBlock
    | some chunk => .bytes chunk.val ()

theorem sockReadAll_cuts (data : List Char) (cuts : Cuts) :
    ∃ d rest, sockReadAll data cuts.recvs = (some d, Cuts.recvs rest) ∧
      pieces data cuts.arrivals = emit d (pieces [] (Cuts.arrivals rest)) ∧
      (d = [] → rest = []) := by
  induction cuts generalizing data with
  | nil => exact ⟨data, [], rfl, rfl, fun _ => rfl⟩
  | cons cut cuts ih =>
    cases cut with
    | none =>
      by_cases hdata : data = []
      · subst hdata
        obtain ⟨d, rest, hread, hpieces, hd⟩ := ih []
        refine ⟨d, rest, ?_, hpieces, hd⟩
        rw [← hread]
        exact if_pos ⟨rfl, rfl⟩
      · refine ⟨data, cuts, ?_, rfl, fun hd => absurd hd hdata⟩
        exact if_neg fun h => hdata h.1
    | some chunk =>
      have hne : chunk.val ≠ [] := List.length_pos_iff.mp chunk.property.1
      obtain ⟨d, rest, hread, hpieces, hd⟩ := ih (data ++ chunk.val)
      refine ⟨d, rest, ?_, hpieces, hd⟩
      rw [← hread]
      change (if data = [] ∧ Recv.bytes chunk.val () = .wouldBlock then _ else _) = _
      rw [if_neg (by simp)]
      simp only [readRound, if_neg hne]
      rfl

theorem messageLoop_cuts (react : Pairing → List Char → Reaction) (s : Pairing) (cuts : Cuts) :
    messageLoop react s cuts.recvs = processEach react s (pieces [] cuts.arrivals) := by
  obtain ⟨n, hn⟩ : ∃ n, cuts.recvs.length = n := ⟨_, rfl⟩
  induction n using Nat.strong_induction_on generalizing s cuts with
  | _ n ih =>
    obtain ⟨d, rest, hread, hpieces, hd⟩ := sockReadAll_cuts [] cuts
    rw [hpieces]
    cases d with
    | nil =>
      obtain rfl := hd rfl
      rw [messageLoop_closed react s hread]
      rfl
    | cons x xs =>
      have hlt := sockReadAll_lt hread
      rw [messageLoop_message react s hread]
      change _ = (s.step (.received (x :: xs) (react s (x :: xs)))).bind fun s =>
        if s.phase = .finished then some ([x :: xs], s)
        else (processEach react s (pieces [] (Cuts.arrivals rest))).bind fun r =>
          some ((x :: xs) :: r.1, r.2)
      congr 1
      funext s'
      rw [ih _ (hn ▸ hlt) s' rest rfl]

end VitaMTP
