import Mathlib.Data.List.TakeWhile
import VitaMTP.Wireless.StopBroadcast

/-! Every discovery request is answered to its sender, as long as no read takes one of them
together with what came before it. -/
namespace VitaMTP
open Runs

def Datagram.IsSearch (d : Datagram) : Prop := cString d.data = some searchText

instance (d : Datagram) : Decidable d.IsSearch := inferInstanceAs (Decidable (_ = _))

/-- One response for each request, to its sender. -/
def answers (info : WirelessHostInfo) (ds : List Datagram) : List (CString × BitVec 32) :=
  (ds.filter fun d => d.IsSearch).map fun d => (hostResponse info, d.sender)

theorem answers_concat (info : WirelessHostInfo) (ds : List Datagram) (d : Datagram) :
    answers info (ds ++ [d]) =
      answers info ds ++ if d.IsSearch then [(hostResponse info, d.sender)] else [] := by
  unfold answers
  rw [List.filter_append, List.map_append]
  by_cases hd : d.IsSearch
  · simp [hd]
  · simp [hd]

theorem cString_append {data : List Char} {text : CString} (h : cString data = some text)
    (more : List Char) : cString (data ++ more) = some text := by
  unfold cString at h ⊢
  split at h
  · rename_i hmem
    rw [if_pos (List.mem_append_left more hmem), ← h, List.takeWhile_append, if_neg]
    intro hlength
    have hall := List.takeWhile_eq_self_iff.mp
      ((List.takeWhile_prefix (· != '\x00')).eq_of_length hlength) _ hmem
    simp at hall
  · simp at h

theorem Datagram.ne_nil (d : Datagram) : d.data ≠ [] := by
  intro hd
  have := d.terminated
  rw [hd] at this
  simp at this

theorem Datagram.exists_text (d : Datagram) : ∃ text, cString d.data = some text := by
  have hmem : '\x00' ∈ d.data := List.mem_of_getLast? d.terminated
  unfold cString
  rw [if_pos hmem]
  exact ⟨_, rfl⟩

namespace Broadcast

/-- Whenever the loop waits, what it has received is answered. -/
def DiscoveryAnswered (info : WirelessHostInfo) (s : Broadcast) : Prop :=
  s.phase = .selecting →
    s.arrived = s.received ++ s.queue ∧ s.replies = answers info s.received

/-- A read that has data takes no request with it, and nothing of another client if it has one. -/
def ReadsApart (s : Broadcast) : BroadcastInput → Prop
  | .recv true =>
    match s.phase with
    | .reading data src => data ≠ [] → ∀ d ∈ s.queue.head?,
      ¬ d.IsSearch ∧ (cString data = some searchText → src = some d.sender)
    | _ => True
  | _ => True

instance (s : Broadcast) (input : BroadcastInput) : Decidable (s.ReadsApart input) := by
  unfold ReadsApart
  split
  · split <;> infer_instance
  · infer_instance

variable {info : WirelessHostInfo} {s s' : Broadcast} {data : List Char}
  {src : Option (BitVec 32)}

/-- What has been received is answered once the data that was read is. -/
def Pending (info : WirelessHostInfo) (s : Broadcast) (data : List Char)
    (src : Option (BitVec 32)) : Prop :=
  ∃ client text, src = some client ∧ cString data = some text ∧
    s.replies ++ (if text = searchText then [(hostResponse info, client)] else []) =
      answers info s.received

/-- The invariant of a run in which the reads are apart. -/
structure AnswersKept (info : WirelessHostInfo) (s : Broadcast) : Prop where
  arrived : s.phase ≠ .returned → s.arrived = s.received ++ s.queue
  settled : s.Starting ∨ s.phase = .selecting → s.replies = answers info s.received
  reading : ∀ data src, s.phase = .reading data src →
    data = [] ∧ s.replies = answers info s.received ∨ Pending info s data src
  handling : ∀ data src, s.phase = .handling data src → Pending info s data src

theorem AnswersKept.ended (info : WirelessHostInfo) (hphase : s.phase = .returned) :
    AnswersKept info s := by
  constructor
  · exact fun hne => absurd hphase hne
  · simp [Starting, hphase]
  · simp [hphase]
  · simp [hphase]

/-- A change of what the other thread uses. -/
theorem AnswersKept.congr (h : AnswersKept info s) (hphase : s'.phase = s.phase)
    (harrived : s'.arrived = s.arrived) (hqueue : s'.queue = s.queue)
    (hreceived : s'.received = s.received) (hreplies : s'.replies = s.replies) :
    AnswersKept info s' := by
  constructor
  · rw [hphase, harrived, hqueue, hreceived]
    exact h.arrived
  · rw [starting_of_phase hphase, hphase, hreceived, hreplies]
    exact h.settled
  · unfold Pending
    rw [hphase, hreceived, hreplies]
    exact h.reading
  · unfold Pending
    rw [hphase, hreceived, hreplies]
    exact h.handling

/-- A datagram that a read takes without data, or apart from what it has. -/
theorem AnswersKept.take (h : AnswersKept info s) (hphase : s.phase = .reading data src)
    {d : Datagram} {ds : List Datagram} (hqueue : s.queue = d :: ds)
    (hapart : data ≠ [] → ¬ d.IsSearch ∧ (cString data = some searchText → src = some d.sender)) :
    AnswersKept info { s with
      received := s.received ++ s.queue.take 1
      queue := s.queue.tail
      phase := .reading (data ++ d.data) (some d.sender) } := by
  have htake : s.queue.take 1 = [d] := by rw [hqueue]; rfl
  refine ⟨fun _ => ?_, fun hc => ?_, fun data' src' he => ?_, fun data' src' he => ?_⟩
  · have := h.arrived (by simp [hphase])
    rw [hqueue] at this
    simpa [hqueue] using this
  · simp [Starting] at hc
  · obtain ⟨rfl, rfl⟩ := BroadcastPhase.reading.inj he
    right
    unfold Pending
    dsimp only
    rw [htake, answers_concat]
    rcases h.reading data src hphase with ⟨rfl, hreplies⟩ | ⟨client, text, hsrc, htext, hreplies⟩
    · obtain ⟨text, htext⟩ := d.exists_text
      refine ⟨d.sender, text, rfl, htext, ?_⟩
      rw [hreplies]
      unfold Datagram.IsSearch
      simp [htext]
    · have hdata : data ≠ [] := by
        rintro rfl
        simp [cString] at htext
      obtain ⟨hnot, hsame⟩ := hapart hdata
      refine ⟨d.sender, text, rfl, cString_append htext d.data, ?_⟩
      rw [← hreplies, if_neg hnot, List.append_nil]
      by_cases hsearch : text = searchText
      · have hclient := hsame (hsearch ▸ htext)
        rw [hsrc, Option.some.injEq] at hclient
        rw [hclient]
      · rw [if_neg hsearch, if_neg hsearch]
  · simp at he

theorem AnswersKept.recv {ok : Bool} (h : AnswersKept info s)
    (hallowed : s.ReadsApart (.recv ok)) (hs : s.recv ok = some s') : AnswersKept info s' := by
  unfold Broadcast.recv at hs
  split at hs
  · rename_i data src hphase
    cases ok with
    | false =>
      have hfail : s.recvResult false = .failed := rfl
      simp only [hfail, reduceCtorEq, and_false, if_false, readRound] at hs
      obtain rfl := Option.some.inj hs
      exact .ended info rfl
    | true =>
      cases hqueue : s.queue with
      | nil =>
        have hblock : s.recvResult true = .wouldBlock := by simp [recvResult, hqueue]
        dsimp only at hs
        rw [hblock] at hs
        split at hs
        · simp at hs
        · rename_i hdata
          obtain rfl := Option.some.inj hs
          have hpending := (h.reading data src hphase).resolve_left fun hc => hdata ⟨hc.1, rfl⟩
          refine ⟨fun _ => ?_, fun hc => ?_, fun data' src' he => ?_, fun data' src' he => ?_⟩
          · simpa [hqueue] using h.arrived (by simp [hphase])
          · simp [Starting] at hc
          · simp at he
          · obtain ⟨rfl, rfl⟩ := BroadcastPhase.handling.inj he
            simpa [Pending, hqueue] using hpending
      | cons d ds =>
        have hbytes : s.recvResult true = .bytes d.data d.sender := by simp [recvResult, hqueue]
        have hmore : readRound data src (s.recvResult true) =
            .more (data ++ d.data) (some d.sender) := by
          rw [hbytes, readRound, if_neg d.ne_nil]
        have hapart : data ≠ [] →
            ¬ d.IsSearch ∧ (cString data = some searchText → src = some d.sender) := by
          intro hdata
          unfold ReadsApart at hallowed
          rw [hphase] at hallowed
          exact hallowed hdata d (by simp [hqueue])
        dsimp only at hs
        rw [hmore, if_neg (by simp [hbytes])] at hs
        obtain rfl := Option.some.inj hs
        exact h.take hphase hqueue hapart
  · simp at hs

theorem AnswersKept.handle {sent : Bool} (h : AnswersKept info s)
    (hs : s.handle info sent = some s') : AnswersKept info s' := by
  unfold Broadcast.handle at hs
  split at hs
  · rename_i data src hphase
    obtain ⟨client, text, rfl, htext, hreplies⟩ := h.handling data src hphase
    have harrived := h.arrived (by simp [hphase])
    have hback (replies : List (CString × BitVec 32)) (he : replies = answers info s.received) :
        AnswersKept info { s with phase := .selecting, replies := replies } := by
      refine ⟨fun _ => harrived, fun _ => he, fun data' src' hc => ?_, fun data' src' hc => ?_⟩
      · simp at hc
      · simp at hc
    have hdata : data ≠ [] := by
      rintro rfl
      simp [cString] at htext
    rw [if_neg hdata, htext] at hs
    simp only [Option.bind_eq_bind, Option.bind_some] at hs
    split at hs
    · rename_i hsearch
      obtain rfl := Option.some.inj hs
      rw [if_neg hsearch, List.append_nil] at hreplies
      exact hback s.replies hreplies
    · rename_i hsearch
      split at hs
      · obtain rfl := Option.some.inj hs
        rw [if_pos (not_not.mp hsearch)] at hreplies
        exact hback _ hreplies
      · obtain rfl := Option.some.inj hs
        exact .ended info rfl
  · simp at hs

theorem AnswersKept.select {ok : Bool} (h : AnswersKept info s) (hs : s.select ok = some s') :
    AnswersKept info s' := by
  unfold Broadcast.select at hs
  split at hs
  · rename_i hphase
    split at hs
    · obtain ⟨k, -, hs⟩ := Option.bind_eq_some_iff.mp hs
      obtain ⟨p, -, hs⟩ := Option.bind_eq_some_iff.mp hs
      split at hs
      · obtain rfl := Option.some.inj hs
        exact .ended info rfl
      · split at hs
        · simp at hs
        · obtain rfl := Option.some.inj hs
          refine ⟨fun _ => h.arrived (by simp [hphase]), fun hc => ?_, fun data src he => ?_,
            fun data src he => ?_⟩
          · simp [Starting] at hc
          · obtain ⟨rfl, rfl⟩ := BroadcastPhase.reading.inj he
            exact Or.inl ⟨rfl, h.settled (Or.inr hphase)⟩
          · simp at he
    · obtain rfl := Option.some.inj hs
      exact .ended info rfl
  · simp at hs

theorem AnswersKept.settle (hphase : s'.Starting ∨ s'.phase = .selecting)
    (harrived : s'.arrived = s'.received ++ s'.queue)
    (hreplies : s'.replies = answers info s'.received) : AnswersKept info s' := by
  refine ⟨fun _ => harrived, fun _ => hreplies, fun data src he => ?_, fun data src he => ?_⟩
  · rcases hphase with (h | h | h) | h <;> rw [h] at he <;> simp at he
  · rcases hphase with (h | h | h) | h <;> rw [h] at he <;> simp at he

theorem AnswersKept.arrive {d : Datagram} (h : AnswersKept info s)
    (hs : s.arrive d = some s') : AnswersKept info s' := by
  unfold Broadcast.arrive at hs
  split at hs
  · simp at hs
  · obtain rfl := Option.some.inj hs
    refine ⟨fun hne => ?_, h.settled, h.reading, h.handling⟩
    rw [h.arrived hne, List.append_assoc]

theorem modifyPair_frame (s : Broadcast) (pair : Option ℕ) (f : CommandPair → CommandPair) :
    (s.modifyPair pair f).arrived = s.arrived ∧ (s.modifyPair pair f).queue = s.queue ∧
      (s.modifyPair pair f).received = s.received ∧
      (s.modifyPair pair f).replies = s.replies := by
  cases pair <;> exact ⟨rfl, rfl, rfl, rfl⟩

theorem AnswersKept.modifyPair (h : AnswersKept info s) (pair : Option ℕ)
    (f : CommandPair → CommandPair) : AnswersKept info (s.modifyPair pair f) := by
  obtain ⟨harrived, hqueue, hreceived, hreplies⟩ := s.modifyPair_frame pair f
  exact h.congr (s.modifyPair_phase pair f) harrived hqueue hreceived hreplies

theorem AnswersKept.start (hs : s.start = some s') : AnswersKept info s' := by
  unfold Broadcast.start at hs
  split at hs
  · obtain rfl := Option.some.inj hs
    exact .settle (Or.inl (Or.inl rfl)) rfl rfl
  · simp at hs

theorem AnswersKept.bind {ok : Bool} (h : AnswersKept info s) (hs : s.bind ok = some s') :
    AnswersKept info s' := by
  unfold Broadcast.bind at hs
  split at hs
  · rename_i hphase
    obtain rfl := Option.some.inj hs
    cases ok with
    | false => exact .ended info rfl
    | true =>
      exact .settle (Or.inl (Or.inr (Or.inl rfl))) (h.arrived (by simp [hphase]))
        (h.settled (Or.inl (Or.inl hphase)))
  · simp at hs

theorem AnswersKept.closeOld (h : AnswersKept info s) (hs : s.closeOld = some s') :
    AnswersKept info s' := by
  unfold Broadcast.closeOld closeWriter at hs
  split at hs
  · rename_i hphase
    obtain rfl := Option.some.inj hs
    have hclosed := h.modifyPair s.fds.writer fun p => { p with writerOpen := false }
    have hsame := s.modifyPair_phase s.fds.writer fun p => { p with writerOpen := false }
    exact .settle (Or.inl (Or.inr (Or.inr rfl))) (hclosed.arrived (by simp [hphase]))
      (hclosed.settled (Or.inl (Or.inr (Or.inl (hsame.trans hphase)))))
  · simp at hs

theorem AnswersKept.socketpair {ok : Bool} (h : AnswersKept info s)
    (hs : s.socketpair ok = some s') : AnswersKept info s' := by
  unfold Broadcast.socketpair at hs
  split at hs
  · rename_i hphase
    obtain rfl := Option.some.inj hs
    have harrived := h.arrived (by simp [hphase])
    have hreplies := h.settled (Or.inl (Or.inr (Or.inr hphase)))
    cases ok with
    | false => exact .settle (Or.inr rfl) harrived hreplies
    | true => exact .settle (Or.inr rfl) harrived hreplies
  · simp at hs

theorem AnswersKept.stopCheck (h : AnswersKept info s) (hs : s.stopCheck = some s') :
    AnswersKept info s' := by
  unfold Broadcast.stopCheck at hs
  split at hs
  · split at hs <;> obtain rfl := Option.some.inj hs
    · exact h.congr rfl rfl rfl rfl rfl
    · exact h.congr rfl rfl rfl rfl rfl
  · simp at hs

theorem AnswersKept.stopSend {ok : Bool} (h : AnswersKept info s) (hs : s.stopSend ok = some s') :
    AnswersKept info s' := by
  unfold Broadcast.stopSend at hs
  split at hs
  · split at hs <;> obtain rfl := Option.some.inj hs
    · exact (h.modifyPair s.fds.writer CommandPair.command).congr rfl rfl rfl rfl rfl
    · exact h.congr rfl rfl rfl rfl rfl
  · simp at hs

theorem AnswersKept.stopClose (h : AnswersKept info s) (hs : s.stopClose = some s') :
    AnswersKept info s' := by
  unfold Broadcast.stopClose closeWriter at hs
  split at hs
  · obtain rfl := Option.some.inj hs
    exact (h.modifyPair s.fds.writer _).congr rfl rfl rfl rfl rfl
  · simp at hs

theorem AnswersKept.stopClear (h : AnswersKept info s) (hs : s.stopClear = some s') :
    AnswersKept info s' := by
  unfold Broadcast.stopClear at hs
  split at hs
  · obtain rfl := Option.some.inj hs
    exact h.congr rfl rfl rfl rfl rfl
  · simp at hs

theorem AnswersKept.step {input : BroadcastInput} (h : AnswersKept info s)
    (hallowed : s.ReadsApart input) (hs : s.step info input = some s') : AnswersKept info s' := by
  cases input with
  | start => exact .start hs
  | bind ok => exact h.bind hs
  | closeOld => exact h.closeOld hs
  | socketpair ok => exact h.socketpair hs
  | select ok => exact h.select hs
  | recv ok => exact h.recv hallowed hs
  | handle sent => exact h.handle hs
  | arrive d => exact h.arrive hs
  | stopCheck => exact h.stopCheck hs
  | stopSend ok => exact h.stopSend hs
  | stopClose => exact h.stopClose hs
  | stopClear => exact h.stopClear hs

end Broadcast

/-- Whenever the loop waits, each discovery request that it has received is answered once and to
its sender, and nothing else is, if no read took a request with other data. -/
theorem discovery_answered {info : WirelessHostInfo} {s : Broadcast}
    (h : Reached (Broadcast.step info) Broadcast.ReadsApart {} s) : s.DiscoveryAnswered info := by
  have hkept : s.AnswersKept info :=
    h.invariant (.ended info rfl) fun s input s' hs hallowed hstep => hs.step hallowed hstep
  intro hphase
  exact ⟨hkept.arrived (by simp [hphase]), hkept.settled (Or.inr hphase)⟩

def searchFrom (sender : BitVec 32) : Datagram where
  data := "SRCH * HTTP/1.1\r\n\x00".toList
  sender := sender
  fits := by decide
  terminated := by rfl

def startUp : List BroadcastInput := [.start, .bind true, .closeOld, .socketpair true]

/-- A read with one datagram and its response. -/
def answerOne : List BroadcastInput := [.select true, .recv true, .recv true, .handle true]

/-- Two clients, one after the other. -/
def oneByOne : List BroadcastInput :=
  startUp ++ [.arrive (searchFrom 1)] ++ answerOne ++ [.arrive (searchFrom 2)] ++ answerOne

/-- Two clients before the loop comes to read. -/
def bothAtOnce : List BroadcastInput :=
  startUp ++ [.arrive (searchFrom 1), .arrive (searchFrom 2), .select true, .recv true, .recv true,
    .recv true, .handle true]

theorem discovery_answered_sample :
    (sampleBroadcast oneByOne).replies.map Prod.snd = [1, 2] ∧
      (sampleBroadcast oneByOne).DiscoveryAnswered sampleHostInfo := by
  have hrun : oneByOne.foldlM (checked (Broadcast.step sampleHostInfo) Broadcast.ReadsApart) {} =
      some (sampleBroadcast oneByOne) := by
    decide +kernel
  have hreached : Reached (Broadcast.step sampleHostInfo) Broadcast.ReadsApart {}
      (sampleBroadcast oneByOne) :=
    Reached.start.runChecked hrun
  exact ⟨by decide +kernel, discovery_answered hreached⟩

/-- Only the second client is answered. -/
theorem discovery_not_answered :
    Reached (Broadcast.step sampleHostInfo) (fun _ _ => True) {} (sampleBroadcast bothAtOnce) ∧
      (sampleBroadcast bothAtOnce).replies.map Prod.snd = [2] ∧
      ¬ (sampleBroadcast bothAtOnce).DiscoveryAnswered sampleHostInfo := by
  have hrun : bothAtOnce.foldlM (Broadcast.step sampleHostInfo) {} =
      some (sampleBroadcast bothAtOnce) := by
    decide +kernel
  have hsenders : (sampleBroadcast bothAtOnce).replies.map Prod.snd = [2] := by
    decide +kernel
  have hreceived : (sampleBroadcast bothAtOnce).received = [searchFrom 1, searchFrom 2] := by
    decide +kernel
  have hphase : (sampleBroadcast bothAtOnce).phase = .selecting := by decide +kernel
  have hanswers : (answers sampleHostInfo [searchFrom 1, searchFrom 2]).map Prod.snd = [1, 2] := by
    decide +kernel
  refine ⟨Reached.start.run hrun, hsenders, fun hanswered => ?_⟩
  have hreplies := (hanswered hphase).2
  rw [hreceived] at hreplies
  rw [hreplies, hanswers] at hsenders
  simp at hsenders

end VitaMTP
