import VitaMTP.Wireless.Coherent
import VitaMTP.Wireless.SockRead

/-! Requests are processed as they were sent exactly if `recvfrom` would block at the end of each
of them and nowhere inside. -/
namespace VitaMTP
open Segments

/-- The headers of the request have all that its branch reads. -/
def PairingMessage.Complete : PairingMessage → Prop
  | .connect (.full _ _) _ => True
  | .showPin info => info.deviceid.isSome
  | .register info => info.deviceid.isSome ∧ info.pin.isSome
  | .standby => True
  | .other => True
  | _ => False

instance (m : PairingMessage) : Decidable m.Complete := by
  unfold PairingMessage.Complete
  split <;> infer_instance

/-- A request whose first line is read to its end and whose headers are complete. -/
def WellFormedRequest (data : List Char) : Prop :=
  ∃ r ∈ (readRequest none data).join, r.bytesRead.isSome ∧ ∃ m ∈ r.message, m.Complete

instance (data : List Char) : Decidable (WellFormedRequest data) := by
  unfold WellFormedRequest
  infer_instance

/-- The requests are processed one at a time as they were sent, whatever the callbacks and the
socket do. -/
def ProcessedAsSent (requests : List (List Char)) (cuts : Cuts) : Prop :=
  ∀ react s client, s.phase = .connected client →
    messageLoop react s cuts.recvs = processEach react s requests

/-- Inside the stream there is a would-block exactly at the end of each request. -/
def BlocksBetween (requests : List (List Char)) (cuts : Cuts) : Prop :=
  ∀ n, 0 < n → n < requests.flatten.length → (n ∈ pauses 0 cuts.arrivals ↔ n ∈ ends 0 requests)

namespace Pairing

variable {s : Pairing} {client : BitVec 32} {a : Reaction} {data : List Char}

theorem respond_phase (s : Pairing) (request : Request) (response : Response)
    (ha : a.respSent = true) : (s.respond request response a).phase = s.phase := by
  unfold respond
  rw [if_pos ha]
  rfl

theorem connect_phase {headers guid : CString} {dataPort : ℤ}
    (hline : parseConnect headers = .full guid dataPort) (ha : a.respSent = true) :
    (s.connect headers a).phase = s.phase := by
  unfold connect
  rw [hline]
  dsimp only
  split
  · rw [respond_phase _ _ _ ha]
  · rw [respond_phase _ _ _ ha]
    rfl

theorem showPin_phase {headers deviceid : CString}
    (hid : (parseDeviceHeaders headers).deviceid = some deviceid) (hokay : a.okaySent = true)
    (ha : a.respSent = true) :
    ∃ s', s.showPin headers a = some s' ∧ s'.phase = s.phase := by
  unfold showPin
  simp only [hid, Option.bind_eq_bind, Option.bind_some, hokay, if_true]
  refine ⟨_, rfl, ?_⟩
  split
  · rw [respond_phase _ _ _ ha]
    rfl
  · rfl

theorem register_phase {headers deviceid pinTry : CString}
    (hid : (parseDeviceHeaders headers).deviceid = some deviceid)
    (htry : (parseDeviceHeaders headers).pin = some pinTry) (ha : a.respSent = true) :
    ∃ s', s.register headers a = some s' ∧ s'.phase = s.phase := by
  unfold register
  simp only [hid, htry, Option.bind_eq_bind, Option.bind_some]
  split
  · exact ⟨_, rfl, respond_phase _ _ _ ha⟩
  · split
    · exact ⟨_, rfl, respond_phase _ _ _ ha⟩
    · split
      · exact ⟨_, rfl, respond_phase _ _ _ ha⟩
      · exact ⟨_, rfl, respond_phase _ _ _ ha⟩

end Pairing

/-- The whole first line is read, so nothing depends on what was read before. -/
theorem readRequest_of_none {data : List Char} {r : RequestLine} {bytesRead : Option ℕ}
    (h : readRequest none data = some (some r)) (hread : r.bytesRead.isSome) :
    readRequest bytesRead data = some (some r) := by
  unfold readRequest at h ⊢
  cases hdata : cString data with
  | none => simp [hdata] at h
  | some text =>
    simp only [hdata, Option.bind_eq_bind, Option.bind_some] at h ⊢
    split at h
    · split at h
      · simp at h
      · rename_i hlength
        rw [if_neg hlength]
        obtain rfl := Option.some.inj (Option.some.inj h)
        split at hread
        · rfl
        · simp at hread
    · simp at h

/-- A well-formed request is processed, and the call goes on to the next one. -/
theorem WellFormedRequest.step {data : List Char} (h : WellFormedRequest data) {s : Pairing}
    {client : BitVec 32} (hphase : s.phase = .connected client) {a : Reaction}
    (hokay : a.okaySent = true) (ha : a.respSent = true) :
    ∃ s', s.step (.received data a) = some s' ∧ s'.phase = .connected client := by
  obtain ⟨r, hr, hread, m, hm, hcomplete⟩ := h
  have hrequest : s.step (.received data a) = s.request client data a := by
    unfold Pairing.step
    rw [hphase]
  rw [hrequest, Pairing.request, readRequest_of_none (Option.join_eq_some_iff.mp hr) hread]
  simp only [Option.bind_eq_bind, Option.bind_some]
  unfold RequestLine.message at hm
  rw [Option.mem_def] at hm
  cases hmethod : r.method with
  | connect =>
    rw [hmethod] at hm
    obtain ⟨headers, hheaders, rfl⟩ := Option.map_eq_some_iff.mp hm
    rw [hheaders]
    refine ⟨_, rfl, ?_⟩
    cases hline : parseConnect headers with
    | full guid dataPort => rw [Pairing.connect_phase hline ha, ← hphase]
    | noPort guid => simp [hline, PairingMessage.Complete] at hcomplete
    | malformed => simp [hline, PairingMessage.Complete] at hcomplete
  | showPin =>
    rw [hmethod] at hm
    obtain ⟨headers, hheaders, rfl⟩ := Option.map_eq_some_iff.mp hm
    obtain ⟨deviceid, hid⟩ := Option.isSome_iff_exists.mp hcomplete
    obtain ⟨s', hs', hsame⟩ := Pairing.showPin_phase (s := { s with bytesRead := r.bytesRead })
      hid hokay ha
    rw [hheaders]
    exact ⟨s', hs', hsame.trans hphase⟩
  | register =>
    rw [hmethod] at hm
    obtain ⟨headers, hheaders, rfl⟩ := Option.map_eq_some_iff.mp hm
    obtain ⟨deviceid, hid⟩ := Option.isSome_iff_exists.mp hcomplete.1
    obtain ⟨pinTry, htry⟩ := Option.isSome_iff_exists.mp hcomplete.2
    obtain ⟨s', hs', hsame⟩ := Pairing.register_phase (s := { s with bytesRead := r.bytesRead })
      hid htry ha
    rw [hheaders]
    exact ⟨s', hs', hsame.trans hphase⟩
  | standby => exact ⟨_, rfl, hphase⟩
  | other => exact ⟨_, rfl, hphase⟩

theorem processEach_wellFormed {react : Pairing → List Char → Reaction}
    (hreact : ∀ s data, (react s data).okaySent = true ∧ (react s data).respSent = true)
    {requests : List (List Char)} (hwf : ∀ r ∈ requests, WellFormedRequest r) {s : Pairing}
    {client : BitVec 32} (hphase : s.phase = .connected client) :
    ∃ s', processEach react s requests = some (requests, s') := by
  induction requests generalizing s with
  | nil =>
    unfold processEach Pairing.step
    rw [hphase]
    exact ⟨_, rfl⟩
  | cons data requests ih =>
    obtain ⟨s₁, hs₁, hphase₁⟩ := (hwf data List.mem_cons_self).step hphase (hreact s data).1
      (hreact s data).2
    obtain ⟨s', hs'⟩ := ih (fun r hr => hwf r (List.mem_cons_of_mem _ hr)) hphase₁
    refine ⟨s', ?_⟩
    unfold processEach
    rw [hs₁]
    simp only [Option.bind_eq_bind, Option.bind_some, hphase₁, reduceCtorEq, if_false, hs']

theorem processEach_prefix {react : Pairing → List Char → Reaction} {ds ps : List (List Char)}
    {s s' : Pairing} (h : processEach react s ps = some (ds, s')) : ds <+: ps := by
  induction ps generalizing s s' ds with
  | nil =>
    obtain ⟨t, -, he⟩ := Option.map_eq_some_iff.mp h
    obtain ⟨rfl, -⟩ := Prod.mk.inj he
    exact List.prefix_refl _
  | cons data ps ih =>
    unfold processEach at h
    obtain ⟨s₁, hs₁, h⟩ := Option.bind_eq_some_iff.mp h
    split at h
    · obtain ⟨rfl, -⟩ := Prod.mk.inj (Option.some.inj h)
      exact ⟨ps, rfl⟩
    · obtain ⟨⟨ds', s''⟩, hrest, h⟩ := Option.bind_eq_some_iff.mp h
      obtain ⟨rfl, -⟩ := Prod.mk.inj (Option.some.inj h)
      exact List.cons_prefix_cons.mpr ⟨rfl, ih hrest⟩

theorem WellFormedRequest.ne_nil {data : List Char} (h : WellFormedRequest data) : data ≠ [] := by
  rintro rfl
  obtain ⟨r, hr, -⟩ := h
  simp [readRequest, cString] at hr

def sampleReact : Pairing → List Char → Reaction := fun _ _ => sampleReaction

def sampleClient : Pairing := { phase := .connected 1 }

/-- However a stream of well-formed requests is cut, they are processed as they were sent exactly
if the would-blocks inside are between them. -/
theorem processed_as_sent_iff {requests : List (List Char)}
    (hwf : ∀ r ∈ requests, WellFormedRequest r) {cuts : Cuts}
    (hcuts : joined cuts.arrivals = requests.flatten) :
    ProcessedAsSent requests cuts ↔ BlocksBetween requests cuts := by
  have hne : ∀ r ∈ requests, r ≠ [] := fun r hr => (hwf r hr).ne_nil
  unfold BlocksBetween
  rw [← pieces_eq_iff hne hcuts]
  constructor
  · intro hsent
    have hrun := hsent sampleReact sampleClient 1 rfl
    have hreact : ∀ s data, (sampleReact s data).okaySent = true ∧
        (sampleReact s data).respSent = true := fun _ _ => ⟨rfl, rfl⟩
    have hphase : sampleClient.phase = .connected 1 := rfl
    obtain ⟨s', hs'⟩ := processEach_wellFormed hreact hwf hphase
    rw [messageLoop_cuts, hs'] at hrun
    obtain ⟨extra, hextra⟩ := processEach_prefix hrun
    -- What is read besides the requests has no room in the stream.
    have hflat : (requests ++ extra).flatten = requests.flatten := by
      rw [hextra, flatten_pieces, List.nil_append, hcuts]
    have hrest : extra.flatten = [] := by simpa using hflat
    cases extra with
    | nil => rw [← hextra, List.append_nil]
    | cons p extra =>
      rw [List.flatten_cons, List.append_eq_nil_iff] at hrest
      have hp : p ∈ pieces [] cuts.arrivals := by
        rw [← hextra]
        simp
      exact absurd hrest.1 (pieces_ne_nil [] cuts.arrivals p hp)
  · intro hpieces react s client _
    rw [messageLoop_cuts, hpieces]

def connectData : List Char :=
  "CONNECT * HTTP/1.1\r\ndevice-id:B\r\ndevice-port:9\r\n\x00".toList

def standbyData : List Char := "STANDBY * HTTP/1.1\r\n\x00".toList

/-- The first request in two results, a would-block, and the second request. -/
def cutBetween : Cuts :=
  [some ⟨connectData.take 5, by decide⟩, some ⟨connectData.drop 5, by decide⟩, none,
    some ⟨standbyData, by decide⟩]

def notCut : Cuts := [some ⟨connectData ++ standbyData, by decide⟩]

theorem processed_as_sent_sample : ProcessedAsSent [connectData, standbyData] cutBetween := by
  refine (processed_as_sent_iff (by decide) (by decide)).mpr fun n hn hlt => ?_
  have hpauses : pauses 0 cutBetween.arrivals = [49] := by decide
  have hends : ends 0 [connectData, standbyData] = [49, 70] := by decide
  have hlength : [connectData, standbyData].flatten.length = 70 := by decide
  rw [hpauses, hends]
  simp only [List.mem_cons, List.not_mem_nil, or_false]
  omega

/-- Without a would-block between them the `STANDBY` behind the `CONNECT` is lost. -/
theorem not_processed_as_sent :
    (∀ r ∈ [connectData, standbyData], WellFormedRequest r) ∧
      joined cutBetween.arrivals = [connectData, standbyData].flatten ∧
      joined notCut.arrivals = [connectData, standbyData].flatten ∧
      (messageLoop sampleReact sampleClient cutBetween.recvs).map
        (fun r => (r.1, r.2.dataConnect)) =
        some ([connectData, standbyData], some { guid := ['B'], dataPort := 9, addr := 1 }) ∧
      (messageLoop sampleReact sampleClient notCut.recvs).map (fun r => (r.1, r.2.dataConnect)) =
        some ([connectData ++ standbyData], none) ∧
      ¬ ProcessedAsSent [connectData, standbyData] notCut := by
  have hapart : messageLoop sampleReact sampleClient notCut.recvs ≠
      processEach sampleReact sampleClient [connectData, standbyData] := by
    rw [messageLoop_cuts]
    decide
  refine ⟨by decide, by decide, by decide, ?_, ?_, fun hsent => ?_⟩
  · rw [messageLoop_cuts]
    decide
  · rw [messageLoop_cuts]
    decide
  · exact hapart (hsent sampleReact sampleClient 1 rfl)

end VitaMTP
