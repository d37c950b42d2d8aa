import VitaMTP.Database.Reachable
import VitaMTP.Library.Runs

/-! The loop of `main` that refreshes the database when somebody asks for it: no request is lost,
as long as the loop does not clear one away that came after it has read `g_uuid`. -/
namespace VitaMTP
open Runs

/-- Where the main thread is in the loop. -/
inductive RefreshPhase
  | looping
  | waiting
  | woken
  | refreshing
  | destroyed
  | draining
  | left
  deriving DecidableEq, Repr

/-- The variables the threads share. `inflight` are the requests that have assigned `g_uuid` and
not yet posted, `begun` counts all of them, and `built` is that count when `createDatabase` read
`g_uuid` last. -/
structure Refresher where
  phase : RefreshPhase := .looping
  uuid : CString := "ffffffffffffffff".toList
  sem : ℕ := 0
  connected : Bool := true
  database : Option Database := none
  inflight : ℕ := 0
  begun : ℕ := 0
  built : ℕ := 0

inductive RefreshInput
  | test
  | wait
  | check
  | destroy
  | create (view : DirView) (n : ℕ)
  | tryWait
  | begin (uuid : Option CString)
  | post
  | disconnect
  | wake

namespace Refresher

/-- `sem_wait`. -/
def wait (s : Refresher) : Option Refresher :=
  if s.phase = .waiting ∧ 0 < s.sem then some { s with phase := .woken, sem := s.sem - 1 } else none

def destroy (s : Refresher) : Option Refresher :=
  if s.phase = .refreshing then some { s with phase := .destroyed, database := none } else none

/-- `view` is what the directories hold, which `createDatabase` reads `n` levels deep. -/
def create (paths : CmaPaths) (s : Refresher) (view : DirView) (n : ℕ) : Option Refresher :=
  if s.phase = .destroyed then do
    let db ← createDatabase view n paths s.uuid
    some { s with phase := .draining, database := some db, built := s.begun }
  else none

/-- One `sem_trywait` of `LOCK_SEMAPHORE`. -/
def tryWait (s : Refresher) : Option Refresher :=
  if s.phase = .draining then
    some (if 0 < s.sem then { s with sem := s.sem - 1 } else { s with phase := .looping })
  else none

/-- A request sets `g_uuid`; the one of the command line leaves it as it is. -/
def begin (s : Refresher) (uuid : Option CString) : Refresher :=
  { s with uuid := uuid.getD s.uuid, inflight := s.inflight + 1, begun := s.begun + 1 }

/-- The `sem_post` of a request. -/
def post (s : Refresher) : Option Refresher :=
  if 0 < s.inflight then some { s with inflight := s.inflight - 1, sem := s.sem + 1 } else none

def step (paths : CmaPaths) (s : Refresher) : RefreshInput → Option Refresher
  | .test =>
    if s.phase = .looping then some { s with phase := if s.connected then .waiting else .left }
    else none
  | .wait => s.wait
  | .check =>
    if s.phase = .woken then some { s with phase := if s.connected then .refreshing else .left }
    else none
  | .destroy => s.destroy
  | .create view n => s.create paths view n
  | .tryWait => s.tryWait
  | .begin uuid => some (s.begin uuid)
  | .post => s.post
  | .disconnect => some { s with connected := false }
  -- so we stop waiting
  | .wake => if s.connected then none else some { s with sem := s.sem + 1 }

/-- The main thread is blocked, and no request is between its two steps. -/
def Idle (s : Refresher) : Prop :=
  s.phase = .waiting ∧ s.sem = 0 ∧ s.connected = true ∧ s.inflight = 0

/-- The database was built for the current `g_uuid`. -/
def Current (paths : CmaPaths) (s : Refresher) : Prop :=
  ∃ view n db, s.database = some db ∧ createDatabase view n paths s.uuid = some db

/-- Whenever the loop is blocked, `g_uuid` was read after the last request, and the database is
the one for it. -/
def NothingLost (paths : CmaPaths) (s : Refresher) : Prop :=
  s.Idle → s.built = s.begun ∧ (0 < s.begun → s.Current paths)

/-- The last post that is outstanding is cleared away only if no request came after `g_uuid` was
read. -/
def ClearsServed (s : Refresher) : RefreshInput → Prop
  | .tryWait => 0 < s.sem → s.sem + s.inflight = 1 → s.built = s.begun
  | _ => True

instance (s : Refresher) (input : RefreshInput) : Decidable (s.ClearsServed input) := by
  cases input <;> unfold ClearsServed <;> infer_instance

/-- The main thread is on its way to read `g_uuid`, or has left the loop. -/
def Refreshing (s : Refresher) : Prop :=
  s.phase = .woken ∨ s.phase = .refreshing ∨ s.phase = .destroyed ∨ s.phase = .left

/-- The invariant of a run that clears away only what is served. -/
structure RequestsKept (paths : CmaPaths) (s : Refresher) : Prop where
  counted : s.built ≤ s.begun
  outstanding : s.built < s.begun → 0 < s.sem + s.inflight ∨ s.Refreshing
  current : s.phase ≠ .destroyed → s.built = s.begun → 0 < s.begun → s.Current paths

variable {paths : CmaPaths} {s s' : Refresher}

theorem RequestsKept.nothingLost (h : RequestsKept paths s) : s.NothingLost paths := by
  rintro ⟨hphase, hsem, -, hinflight⟩
  have hbuilt : s.built = s.begun := by
    by_contra hne
    rcases h.outstanding (lt_of_le_of_ne h.counted hne) with hpos | hrefreshing
    · omega
    · simp [Refreshing, hphase] at hrefreshing
  exact ⟨hbuilt, h.current (by simp [hphase]) hbuilt⟩

theorem RequestsKept.wait (h : RequestsKept paths s) (hs : s.wait = some s') :
    RequestsKept paths s' := by
  unfold Refresher.wait at hs
  split at hs
  · rename_i hphase
    obtain rfl := Option.some.inj hs
    refine ⟨h.counted, fun _ => Or.inr (Or.inl rfl), fun _ hbuilt hpos => ?_⟩
    exact h.current (by simp [hphase.1]) hbuilt hpos
  · simp at hs

theorem RequestsKept.destroy (h : RequestsKept paths s) (hs : s.destroy = some s') :
    RequestsKept paths s' := by
  unfold Refresher.destroy at hs
  split at hs
  · obtain rfl := Option.some.inj hs
    exact ⟨h.counted, fun _ => Or.inr (Or.inr (Or.inr (Or.inl rfl))), fun hne => absurd rfl hne⟩
  · simp at hs

theorem RequestsKept.create {view : DirView} {n : ℕ} (hs : s.create paths view n = some s') :
    RequestsKept paths s' := by
  unfold Refresher.create at hs
  split at hs
  · obtain ⟨db, hdb, hs⟩ := Option.bind_eq_some_iff.mp hs
    obtain rfl := Option.some.inj hs
    exact ⟨le_rfl, fun hlt => absurd hlt (lt_irrefl _), fun _ _ _ => ⟨view, n, db, rfl, hdb⟩⟩
  · simp at hs

theorem RequestsKept.tryWait (h : RequestsKept paths s) (hserved : s.ClearsServed .tryWait)
    (hs : s.tryWait = some s') : RequestsKept paths s' := by
  unfold Refresher.tryWait at hs
  split at hs
  · rename_i hphase
    have hcurrent := h.current (by simp [hphase])
    have hpending : s.built < s.begun → 0 < s.sem + s.inflight := by
      intro hlt
      refine (h.outstanding hlt).resolve_right fun hrefreshing => ?_
      simp [Refreshing, hphase] at hrefreshing
    split at hs
    · rename_i hpos
      obtain rfl := Option.some.inj hs
      refine ⟨h.counted, fun hlt => Or.inl ?_, fun _ => hcurrent⟩
      have hmore : s.sem + s.inflight ≠ 1 := fun hone => by
        have hbuilt := hserved hpos hone
        change s.built < s.begun at hlt
        omega
      change 0 < s.sem - 1 + s.inflight
      omega
    · obtain rfl := Option.some.inj hs
      exact ⟨h.counted, fun hlt => Or.inl (hpending hlt), fun _ => hcurrent⟩
  · simp at hs

theorem RequestsKept.begin (h : RequestsKept paths s) (uuid : Option CString) :
    RequestsKept paths (s.begin uuid) := by
  have := h.counted
  refine ⟨?_, fun _ => Or.inl ?_, fun _ hbuilt => ?_⟩
  · change s.built ≤ s.begun + 1
    omega
  · change 0 < s.sem + (s.inflight + 1)
    omega
  · change s.built = s.begun + 1 at hbuilt
    omega

theorem RequestsKept.post (h : RequestsKept paths s) (hs : s.post = some s') :
    RequestsKept paths s' := by
  unfold Refresher.post at hs
  split at hs
  · rename_i hpos
    obtain rfl := Option.some.inj hs
    refine ⟨h.counted, fun _ => Or.inl ?_, h.current⟩
    change 0 < s.sem + 1 + (s.inflight - 1)
    omega
  · simp at hs

theorem RequestsKept.step {input : RefreshInput} (h : RequestsKept paths s)
    (hserved : s.ClearsServed input) (hs : s.step paths input = some s') :
    RequestsKept paths s' := by
  cases input with
  | test =>
    unfold Refresher.step at hs
    dsimp only at hs
    split at hs
    · rename_i hphase
      obtain rfl := Option.some.inj hs
      refine ⟨h.counted, fun hlt => ?_, fun _ => h.current (by simp [hphase])⟩
      refine Or.inl ((h.outstanding hlt).resolve_right fun hrefreshing => ?_)
      simp [Refreshing, hphase] at hrefreshing
    · simp at hs
  | wait => exact h.wait hs
  | check =>
    unfold Refresher.step at hs
    dsimp only at hs
    split at hs
    · rename_i hphase
      obtain rfl := Option.some.inj hs
      refine ⟨h.counted, fun _ => Or.inr ?_, fun _ => h.current (by simp [hphase])⟩
      cases s.connected <;> simp [Refreshing]
    · simp at hs
  | destroy => exact h.destroy hs
  | create view n => exact .create hs
  | tryWait => exact h.tryWait hserved hs
  | begin uuid => exact Option.some.inj hs ▸ h.begin uuid
  | post => exact h.post hs
  | disconnect => exact Option.some.inj hs ▸ ⟨h.counted, h.outstanding, h.current⟩
  | wake =>
    unfold Refresher.step at hs
    dsimp only at hs
    split at hs
    · simp at hs
    · obtain rfl := Option.some.inj hs
      refine ⟨h.counted, fun hlt => Or.inl ?_, h.current⟩
      change 0 < s.sem + 1 + s.inflight
      omega

end Refresher

/-- No request for a refresh is lost, however requests and the loop interleave, if the loop clears
away no last request that came after it has read `g_uuid`. -/
theorem no_request_lost {paths : CmaPaths} {s : Refresher}
    (h : Reached (Refresher.step paths) Refresher.ClearsServed {} s) : s.NothingLost paths := by
  have hkept : s.RequestsKept paths := by
    refine h.invariant ⟨le_rfl, fun hlt => ?_, fun _ _ hpos => ?_⟩
      fun s input s' hs hserved hstep => hs.step hserved hstep
    · exact absurd hlt (lt_irrefl _)
    · exact absurd hpos (lt_irrefl _)
  exact hkept.nothingLost

def sampleRefresher (inputs : List RefreshInput) : Refresher :=
  (inputs.foldlM (Refresher.step samplePaths) {}).getD {}

/-- A request, and the loop up to the database for it. -/
def refreshInputs : List RefreshInput :=
  [.begin (some ['0']), .post, .test, .wait, .check, .destroy, .create sampleView 3]

/-- Nobody asks again before the loop waits. -/
def servedInputs : List RefreshInput := refreshInputs ++ [.tryWait, .test]

/-- Another account before the count of requests is cleared. -/
def lostInputs : List RefreshInput :=
  refreshInputs ++ [.begin (some ['1']), .post, .tryWait, .tryWait, .test]

theorem no_request_lost_sample :
    (sampleRefresher servedInputs).Idle ∧ (sampleRefresher servedInputs).uuid = ['0'] ∧
      (sampleRefresher servedInputs).NothingLost samplePaths := by
  have hrun : servedInputs.foldlM (checked (Refresher.step samplePaths) Refresher.ClearsServed) {} =
      some (sampleRefresher servedInputs) := by
    rfl
  have hreached : Reached (Refresher.step samplePaths) Refresher.ClearsServed {}
      (sampleRefresher servedInputs) :=
    Reached.start.runChecked hrun
  exact ⟨⟨by rfl, by rfl, by rfl, by rfl⟩, by rfl, no_request_lost hreached⟩

/-- The loop waits with the database for the first account. -/
theorem request_lost :
    Reached (Refresher.step samplePaths) (fun _ _ => True) {} (sampleRefresher lostInputs) ∧
      (sampleRefresher lostInputs).Idle ∧ (sampleRefresher lostInputs).uuid = ['1'] ∧
      ¬ (sampleRefresher lostInputs).NothingLost samplePaths := by
  have hrun : lostInputs.foldlM (Refresher.step samplePaths) {} =
      some (sampleRefresher lostInputs) := by
    rfl
  have hidle : (sampleRefresher lostInputs).Idle := ⟨by rfl, by rfl, by rfl, by rfl⟩
  have hbuilt : (sampleRefresher lostInputs).built ≠ (sampleRefresher lostInputs).begun := by
    decide
  exact ⟨Reached.start.run hrun, hidle, by rfl, fun hlost => hbuilt (hlost hidle).1⟩

end VitaMTP
