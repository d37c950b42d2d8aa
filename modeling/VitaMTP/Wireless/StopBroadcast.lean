import VitaMTP.Wireless.Broadcast

/-! A request to stop reaches the broadcast, as long as it is not made before the broadcast has
its command socket and the command is sent. -/
namespace VitaMTP
open Runs

namespace Broadcast

/-- The broadcast has no command socket yet. -/
def Starting (s : Broadcast) : Prop :=
  s.phase = .starting ∨ s.phase = .bound ∨ s.phase = .unpaired

/-- The broadcast is in its loop. -/
def Looping (s : Broadcast) : Prop := s.phase ≠ .returned ∧ ¬ s.Starting

/-- A command is pending on the command socket of the loop. -/
def Woken (s : Broadcast) : Prop :=
  ∃ k p, s.fds.reader = some k ∧ s.pairs[k]? = some p ∧ p.Ready

/-- Once a call to stop it has returned, the broadcast has ended or is about to. -/
def StopReached (s : Broadcast) : Prop := s.stopped → s.phase = .returned ∨ s.Woken

/-- The command sockets are made, and nobody stops the broadcast before: in its start-up a call to
stop it finds at most the socket of a broadcast that went wrong, and has not come to its `send`.
In the loop the `send` succeeds. -/
def StopsInTime (s : Broadcast) (input : BroadcastInput) : Prop :=
  input ≠ .socketpair false ∧
    (input = .stopCheck → s.Starting → s.fds.writer ≠ none) ∧
    (input = .stopSend true → ¬ s.Starting) ∧
    (input = .stopSend false → s.phase = .returned)

instance (s : Broadcast) : Decidable s.Starting := inferInstanceAs (Decidable (_ ∨ _ ∨ _))

instance (s : Broadcast) (input : BroadcastInput) : Decidable (s.StopsInTime input) :=
  inferInstanceAs (Decidable (_ ∧ _ ∧ _ ∧ _))

/-- A step of the loop ends it, or changes nothing that a call to stop it uses. -/
inductive LoopStep (s s' : Broadcast) : Prop
  | ended (hphase : s'.phase = .returned) (hreader : s'.fds.reader = none)
  | goesOn (hloop : s.Looping) (hloop' : s'.Looping) (hfds : s'.fds = s.fds)
      (hpairs : s'.pairs = s.pairs) (hphase : s'.stopPhase = s.stopPhase)
      (hstopped : s'.stopped = s.stopped)

variable {s s' : Broadcast} {info : WirelessHostInfo}

theorem select_step {ok : Bool} (h : s.select ok = some s') : LoopStep s s' := by
  unfold select at h
  split at h
  · rename_i hphase
    have hloop : s.Looping := by simp [Looping, Starting, hphase]
    split at h
    · obtain ⟨k, -, h⟩ := Option.bind_eq_some_iff.mp h
      obtain ⟨p, -, h⟩ := Option.bind_eq_some_iff.mp h
      split at h
      · obtain rfl := Option.some.inj h
        exact .ended rfl rfl
      · split at h
        · simp at h
        · obtain rfl := Option.some.inj h
          exact .goesOn hloop (by simp [Looping, Starting]) rfl rfl rfl rfl
    · obtain rfl := Option.some.inj h
      exact .ended rfl rfl
  · simp at h

theorem recv_step {ok : Bool} (h : s.recv ok = some s') : LoopStep s s' := by
  unfold recv at h
  split at h
  · rename_i data src hphase
    have hloop : s.Looping := by simp [Looping, Starting, hphase]
    dsimp only at h
    split at h
    · simp at h
    · cases hround : readRound data src (s.recvResult ok) with
      | more data src =>
        rw [hround] at h
        obtain rfl := Option.some.inj h
        exact .goesOn hloop (by simp [Looping, Starting]) rfl rfl rfl rfl
      | returned data src =>
        rw [hround] at h
        obtain rfl := Option.some.inj h
        exact .goesOn hloop (by simp [Looping, Starting]) rfl rfl rfl rfl
      | failed =>
        rw [hround] at h
        obtain rfl := Option.some.inj h
        exact .ended rfl rfl
  · simp at h

theorem handle_step {sent : Bool} (h : s.handle info sent = some s') : LoopStep s s' := by
  unfold handle at h
  split at h
  · rename_i data src hphase
    have hloop : s.Looping := by simp [Looping, Starting, hphase]
    split at h
    · obtain rfl := Option.some.inj h
      exact .goesOn hloop (by simp [Looping, Starting]) rfl rfl rfl rfl
    · obtain ⟨text, -, h⟩ := Option.bind_eq_some_iff.mp h
      split at h
      · obtain rfl := Option.some.inj h
        exact .goesOn hloop (by simp [Looping, Starting]) rfl rfl rfl rfl
      · split at h
        · obtain ⟨client, -, h⟩ := Option.bind_eq_some_iff.mp h
          obtain rfl := Option.some.inj h
          exact .goesOn hloop (by simp [Looping, Starting]) rfl rfl rfl rfl
        · obtain rfl := Option.some.inj h
          exact .ended rfl rfl
  · simp at h

/-- A call to stop the broadcast that is not past its check. -/
def Uncommanded (s : Broadcast) : Prop :=
  s.stopped = false ∧ (s.stopPhase = .returned ∨ s.stopPhase = .checked)

/-- A call to stop the broadcast that is past its `send`, and leaves no writing end behind. -/
def Commanded (s : Broadcast) : Prop :=
  s.stopPhase = .sent ∨ s.stopPhase = .closed ∨ s.stopPhase = .returned ∧ s.fds.writer = none

/-- The invariant of a run in which nobody stops the broadcast too early: the loop has a pair
that a call to stop it will send a command through, or has sent one. -/
structure StopKept (s : Broadcast) : Prop where
  reader : ¬ s.Looping → s.fds.reader = none
  starting : s.Starting → s.Uncommanded
  looping : s.Looping → ∃ k p, s.fds.reader = some k ∧ s.pairs[k]? = some p ∧
    (s.fds.writer = some k ∧ p.readerOpen = true ∧ p.writerOpen = true ∧ s.Uncommanded ∨
      p.Ready ∧ s.Commanded)

theorem StopKept.reached (h : StopKept s) : s.StopReached := by
  intro hstopped
  by_cases hreturned : s.phase = .returned
  · exact Or.inl hreturned
  · right
    by_cases hstarting : s.Starting
    · have := (h.starting hstarting).1
      rw [hstopped] at this
      simp at this
    · obtain ⟨k, p, hreader, hp, ⟨-, -, -, hnot, -⟩ | ⟨hready, -⟩⟩ :=
        h.looping ⟨hreturned, hstarting⟩
      · rw [hstopped] at hnot
        simp at hnot
      · exact ⟨k, p, hreader, hp, hready⟩

theorem StopKept.loopStep (h : StopKept s) (hs : LoopStep s s') : StopKept s' := by
  cases hs with
  | ended hphase hreader =>
    have hnot : ¬ s'.Looping := fun hloop => hloop.1 hphase
    have hstarting : ¬ s'.Starting := by simp [Starting, hphase]
    exact ⟨fun _ => hreader, fun hc => absurd hc hstarting, fun hc => absurd hc hnot⟩
  | goesOn hloop hloop' hfds hpairs hphase hstopped =>
    refine ⟨fun hnot => absurd hloop' hnot, fun hc => absurd hc hloop'.2, fun _ => ?_⟩
    unfold Uncommanded Commanded
    rw [hfds, hpairs, hphase, hstopped]
    exact h.looping hloop

theorem StopKept.startStep (h : StopKept s) (hnot : ¬ s.Looping) (hnot' : ¬ s'.Looping)
    (hreader : s'.fds.reader = s.fds.reader) (hstarting : s'.Starting → s'.Uncommanded) :
    StopKept s' :=
  ⟨fun _ => hreader.trans (h.reader hnot), hstarting, fun hloop => absurd hloop hnot'⟩

theorem StopKept.socketpair (h : StopKept s) (hs : s.socketpair true = some s') : StopKept s' := by
  unfold Broadcast.socketpair at hs
  split at hs
  · rename_i hphase
    obtain rfl := Option.some.inj hs
    have huncommanded : s.Uncommanded := h.starting (Or.inr (Or.inr hphase))
    refine ⟨fun hnot => ?_, fun hc => ?_, fun _ => ?_⟩
    · simp [Looping, Starting] at hnot
    · simp [Starting] at hc
    · exact ⟨s.pairs.length, {}, rfl, by simp, Or.inl ⟨rfl, rfl, rfl, huncommanded⟩⟩
  · simp at hs

theorem StopKept.stopCheck (h : StopKept s) (hcheck : s.Starting → s.fds.writer ≠ none)
    (hs : s.stopCheck = some s') : StopKept s' := by
  unfold Broadcast.stopCheck at hs
  split at hs
  · rename_i hphase
    split at hs
    · rename_i hwriter
      obtain rfl := Option.some.inj hs
      refine ⟨h.reader, fun hc => absurd hwriter (hcheck hc), fun hloop => ?_⟩
      obtain ⟨k, p, hreader, hp, ⟨hopen, -⟩ | hcommanded⟩ := h.looping hloop
      · rw [hwriter] at hopen
        simp at hopen
      · exact ⟨k, p, hreader, hp, Or.inr hcommanded⟩
    · rename_i hwriter
      obtain rfl := Option.some.inj hs
      refine ⟨h.reader, fun hc => ⟨(h.starting hc).1, Or.inr rfl⟩, fun hloop => ?_⟩
      obtain ⟨k, p, hreader, hp, ⟨hopen, hr, hw, hstopped, -⟩ | ⟨-, hcommanded⟩⟩ :=
        h.looping hloop
      · exact ⟨k, p, hreader, hp, Or.inl ⟨hopen, hr, hw, hstopped, Or.inr rfl⟩⟩
      · simp [Commanded, hphase, hwriter] at hcommanded
  · simp at hs

/-- In the loop a call that passed its check finds the pair of the loop, with both ends open. -/
theorem StopKept.pair (h : StopKept s) (hloop : s.Looping) (hchecked : s.stopPhase = .checked) :
    ∃ k p, s.fds.reader = some k ∧ s.fds.writer = some k ∧ s.pairs[k]? = some p ∧
      p.readerOpen = true ∧ p.writerOpen = true := by
  obtain ⟨k, p, hreader, hp, ⟨hopen, hr, hw, -⟩ | ⟨-, hcommanded⟩⟩ := h.looping hloop
  · exact ⟨k, p, hreader, hopen, hp, hr, hw⟩
  · simp [Commanded, hchecked] at hcommanded

theorem StopKept.ready (h : StopKept s) (hloop : s.Looping)
    (hsent : s.stopPhase = .sent ∨ s.stopPhase = .closed) :
    ∃ k p, s.fds.reader = some k ∧ s.pairs[k]? = some p ∧ p.Ready := by
  obtain ⟨k, p, hreader, hp, ⟨-, -, -, -, hbefore⟩ | ⟨hready, -⟩⟩ := h.looping hloop
  · rcases hsent with hsent | hsent <;> simp [hsent] at hbefore
  · exact ⟨k, p, hreader, hp, hready⟩

theorem modifyPair_self (s : Broadcast) {k : ℕ} {p : CommandPair} (f : CommandPair → CommandPair)
    (hp : s.pairs[k]? = some p) : (s.modifyPair (some k) f).pairs[k]? = some (f p) := by
  simp [modifyPair, hp]

theorem closeWriter_ready (s : Broadcast) {k : ℕ} {p : CommandPair} (hp : s.pairs[k]? = some p)
    (hready : p.Ready) : ∃ q, s.closeWriter.pairs[k]? = some q ∧ q.Ready := by
  unfold closeWriter modifyPair
  cases s.fds.writer with
  | none => exact ⟨p, hp, hready⟩
  | some j =>
    rw [List.getElem?_modify, hp]
    by_cases hj : j = k
    · exact ⟨{ p with writerOpen := false }, by simp [hj], hready⟩
    · exact ⟨p, by simp [hj], hready⟩

@[simp] theorem modifyPair_fds (s : Broadcast) (pair : Option ℕ) (f : CommandPair → CommandPair) :
    (s.modifyPair pair f).fds = s.fds := by
  cases pair <;> rfl

@[simp] theorem modifyPair_phase (s : Broadcast) (pair : Option ℕ)
    (f : CommandPair → CommandPair) : (s.modifyPair pair f).phase = s.phase := by
  cases pair <;> rfl

@[simp] theorem modifyPair_stopPhase (s : Broadcast) (pair : Option ℕ)
    (f : CommandPair → CommandPair) : (s.modifyPair pair f).stopPhase = s.stopPhase := by
  cases pair <;> rfl

@[simp] theorem modifyPair_stopped (s : Broadcast) (pair : Option ℕ)
    (f : CommandPair → CommandPair) : (s.modifyPair pair f).stopped = s.stopped := by
  cases pair <;> rfl

theorem looping_of_phase (hphase : s'.phase = s.phase) : s'.Looping ↔ s.Looping := by
  unfold Looping Starting
  rw [hphase]

theorem starting_of_phase (hphase : s'.phase = s.phase) : s'.Starting ↔ s.Starting := by
  unfold Starting
  rw [hphase]

theorem StopKept.stopSend (h : StopKept s) (hnot : ¬ s.Starting)
    (hs : s.stopSend true = some s') : StopKept s' := by
  unfold Broadcast.stopSend at hs
  split at hs
  · rename_i hphase
    obtain rfl := Option.some.inj hs
    refine ⟨fun hidle => ?_, fun hc => ?_, fun hloop => ?_⟩
    · simp only [if_true, modifyPair_fds]
      exact h.reader fun hloop => hidle ((looping_of_phase (by simp)).mpr hloop)
    · exact absurd ((starting_of_phase (by simp)).mp hc) hnot
    · obtain ⟨k, p, hreader, hwriter, hp, hr, hw⟩ :=
        h.pair ((looping_of_phase (by simp)).mp hloop) hphase
      have hcommand : p.command.Ready := by simp [CommandPair.command, CommandPair.Ready, hr, hw]
      simp only [if_true, modifyPair_fds, hwriter]
      exact ⟨k, _, hreader, modifyPair_self s _ hp, Or.inr ⟨hcommand, Or.inl rfl⟩⟩
  · simp at hs

theorem StopKept.stopSend_failed (h : StopKept s) (hreturned : s.phase = .returned)
    (hs : s.stopSend false = some s') : StopKept s' := by
  unfold Broadcast.stopSend at hs
  split at hs
  · obtain rfl := Option.some.inj hs
    have hidle : ¬ s.Looping := fun hloop => hloop.1 hreturned
    refine ⟨fun _ => h.reader hidle, fun hc => ?_, fun hloop => absurd hreturned hloop.1⟩
    simp [Starting, hreturned] at hc
  · simp at hs

theorem StopKept.stopClose (h : StopKept s) (hs : s.stopClose = some s') : StopKept s' := by
  unfold Broadcast.stopClose at hs
  split at hs
  · rename_i hphase
    obtain rfl := Option.some.inj hs
    have hsame : s.closeWriter.phase = s.phase := modifyPair_phase ..
    have hfds : s.closeWriter.fds = s.fds := modifyPair_fds ..
    refine ⟨fun hidle => ?_, fun hc => ?_, fun hloop => ?_⟩
    · rw [hfds]
      exact h.reader fun hloop => hidle ((looping_of_phase hsame).mpr hloop)
    · have hbefore := (h.starting ((starting_of_phase hsame).mp hc)).2
      simp [hphase] at hbefore
    · obtain ⟨k, p, hreader, hp, hready⟩ :=
        h.ready ((looping_of_phase hsame).mp hloop) (Or.inl hphase)
      obtain ⟨q, hq, hready⟩ := closeWriter_ready s hp hready
      rw [hfds]
      exact ⟨k, q, hreader, hq, Or.inr ⟨hready, Or.inr (Or.inl rfl)⟩⟩
  · simp at hs

theorem StopKept.stopClear (h : StopKept s) (hs : s.stopClear = some s') : StopKept s' := by
  unfold Broadcast.stopClear at hs
  split at hs
  · rename_i hphase
    obtain rfl := Option.some.inj hs
    refine ⟨h.reader, fun hc => ?_, fun hloop => ?_⟩
    · have hbefore := (h.starting hc).2
      simp [hphase] at hbefore
    · obtain ⟨k, p, hreader, hp, hready⟩ := h.ready hloop (Or.inr hphase)
      exact ⟨k, p, hreader, hp, Or.inr ⟨hready, Or.inr (Or.inr ⟨rfl, rfl⟩)⟩⟩
  · simp at hs

theorem StopKept.step {input : BroadcastInput} (h : StopKept s) (hallowed : s.StopsInTime input)
    (hs : s.step info input = some s') : StopKept s' := by
  obtain ⟨hpair, hcheck, hsend, hfailed⟩ := hallowed
  cases input with
  | start =>
    unfold Broadcast.step Broadcast.start at hs
    dsimp only at hs
    split at hs
    · rename_i hphase
      obtain rfl := Option.some.inj hs
      refine h.startStep (fun hloop => hloop.1 hphase.1) ?_ rfl fun _ => ⟨rfl, Or.inl hphase.2⟩
      simp [Looping, Starting]
    · simp at hs
  | bind ok =>
    unfold Broadcast.step Broadcast.bind at hs
    dsimp only at hs
    split at hs
    · rename_i hphase
      obtain rfl := Option.some.inj hs
      refine h.startStep (fun hloop => hloop.2 (Or.inl hphase)) ?_ rfl
        fun _ => h.starting (Or.inl hphase)
      cases ok <;> simp [Looping, Starting]
    · simp at hs
  | closeOld =>
    unfold Broadcast.step Broadcast.closeOld closeWriter at hs
    dsimp only at hs
    split at hs
    · rename_i hphase
      obtain rfl := Option.some.inj hs
      refine h.startStep (fun hloop => hloop.2 (Or.inr (Or.inl hphase))) ?_ (by simp) fun _ => ?_
      · simp [Looping, Starting]
      · simpa [Uncommanded] using h.starting (Or.inr (Or.inl hphase))
    · simp at hs
  | socketpair ok =>
    cases ok with
    | false => exact absurd rfl hpair
    | true => exact h.socketpair hs
  | select ok => exact h.loopStep (select_step hs)
  | recv ok => exact h.loopStep (recv_step hs)
  | handle sent => exact h.loopStep (handle_step hs)
  | arrive d =>
    unfold Broadcast.step arrive at hs
    dsimp only at hs
    split at hs
    · simp at hs
    · obtain rfl := Option.some.inj hs
      exact ⟨h.reader, h.starting, h.looping⟩
  | stopCheck => exact h.stopCheck (hcheck rfl) hs
  | stopSend ok =>
    cases ok with
    | false => exact h.stopSend_failed (hfailed rfl) hs
    | true => exact h.stopSend (hsend rfl) hs
  | stopClose => exact h.stopClose hs
  | stopClear => exact h.stopClear hs

end Broadcast

/-- A call to stop the broadcast is not lost, in every interleaving in which it is not made before
the broadcast has its command socket, and its `send` succeeds. -/
theorem stop_reaches_broadcast {info : WirelessHostInfo} {s : Broadcast}
    (h : Reached (Broadcast.step info) Broadcast.StopsInTime {} s) : s.StopReached := by
  have hkept : s.StopKept := by
    refine h.invariant ⟨fun _ => rfl, fun hc => ?_, fun hloop => absurd rfl hloop.1⟩
      fun s input s' hs hallowed hstep => hs.step hallowed hstep
    simp [Broadcast.Starting] at hc
  exact hkept.reached

def sampleHostInfo : WirelessHostInfo where
  guid := ['0']
  type := ['w']
  name := ['h']
  port := 9309

def sampleBroadcast (inputs : List BroadcastInput) : Broadcast :=
  (inputs.foldlM (Broadcast.step sampleHostInfo) {}).getD {}

def stoppedInTime : List BroadcastInput :=
  [.start, .bind true, .closeOld, .socketpair true, .stopCheck, .stopSend true, .stopClose,
    .stopClear]

/-- The broadcast is stopped before it has its command socket. -/
def stoppedTooEarly : List BroadcastInput :=
  [.start, .stopCheck, .bind true, .closeOld, .socketpair true]

theorem stop_reaches_broadcast_sample :
    (sampleBroadcast stoppedInTime).stopped = true ∧
      (sampleBroadcast stoppedInTime).phase = .selecting ∧
      (sampleBroadcast stoppedInTime).StopReached := by
  have hrun : stoppedInTime.foldlM (checked (Broadcast.step sampleHostInfo) Broadcast.StopsInTime)
      {} = some (sampleBroadcast stoppedInTime) := by
    decide
  exact ⟨by decide, by decide, stop_reaches_broadcast (Reached.start.runChecked hrun)⟩

/-- The call has returned, and the broadcast waits with nothing to wake it. -/
theorem stop_does_not_reach_broadcast :
    Reached (Broadcast.step sampleHostInfo) (fun _ _ => True) {} (sampleBroadcast stoppedTooEarly) ∧
      (sampleBroadcast stoppedTooEarly).phase = .selecting ∧
      (sampleBroadcast stoppedTooEarly).select true = none ∧
      ¬ (sampleBroadcast stoppedTooEarly).StopReached := by
  have hrun : stoppedTooEarly.foldlM (Broadcast.step sampleHostInfo) {} =
      some (sampleBroadcast stoppedTooEarly) := by
    decide
  refine ⟨Reached.start.run hrun, by decide, by decide, fun hreached => ?_⟩
  rcases hreached (by decide) with hphase | ⟨k, p, hreader, hp, hready⟩
  · revert hphase
    decide
  · have hfds : (sampleBroadcast stoppedTooEarly).fds.reader = some 0 := by decide
    have hpairs : (sampleBroadcast stoppedTooEarly).pairs[0]? = some ({} : CommandPair) := by
      decide
    obtain rfl := Option.some.inj (hfds.symm.trans hreader)
    obtain rfl := Option.some.inj (hpairs.symm.trans hp)
    revert hready
    decide

end VitaMTP
