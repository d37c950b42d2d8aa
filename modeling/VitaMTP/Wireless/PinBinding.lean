import VitaMTP.Wireless.Authorisation
import VitaMTP.Wireless.Conversation

/-! A device registers with the PIN that was shown for it on the same connection, as long as no
other device connects while the PIN is outstanding and `atoi` takes no other number for it. -/
namespace VitaMTP
open Runs

/-- The last `SHOWPIN` of a connection named the device, and `create_register_pin` gave the PIN
for it. -/
def ShownPin (served : List Served) (guid : CString) (pin : ℤ) : Prop :=
  ∃ pre q mid info deviceid, served = pre ++ q :: mid ∧ q.message = .showPin info ∧
    info.deviceid = some deviceid ∧ deviceid.take 32 = guid ∧
    .createRegisterPin deviceid pin ∈ q.entries ∧ ∀ x ∈ mid, ∀ info, x.message ≠ .showPin info

/-- Each registration that succeeded wrote the PIN that was shown for its device. -/
def PinBound (served : List Served) : Prop :=
  ∀ before q after deviceid, served = before ++ q :: after →
    .answered (.register deviceid) .ok200 ∈ q.entries →
    ∃ info pinTry pin, q.message = .register info ∧ info.deviceid = some deviceid ∧
      info.pin = some pinTry ∧ writtenNumber pinTry = some pin ∧ 0 ≤ pin ∧
      ShownPin before deviceid pin

/-- The id that a `CONNECT` stores before it is answered. -/
def PairingMessage.connectGuid : PairingMessage → Option CString
  | .connect (.full guid _) _ => some guid
  | _ => none

/-- The PIN that a `REGISTER` of the device gives. -/
def PairingMessage.pinTry (deviceid : CString) : PairingMessage → Option CString
  | .register info => if info.deviceid = some deviceid then info.pin else none
  | _ => none

/-- While a PIN is outstanding a `CONNECT` names the device that is stored, and a `REGISTER` of
that device gives nothing that `atoi` takes for the PIN although it writes another number. -/
def KeepsPinDevice (r : Recorded) (input : Input) : Prop :=
  ∀ m ∈ r.messageOf input, 0 ≤ r.pairing.pin →
    (∀ guid ∈ m.connectGuid, guid = r.pairing.device.guid) ∧
    ∀ pinTry ∈ m.pinTry r.pairing.device.guid, atoi pinTry = r.pairing.pin →
      writtenNumber pinTry = some r.pairing.pin

instance (r : Recorded) (input : Input) : Decidable (KeepsPinDevice r input) := by
  unfold KeepsPinDevice
  infer_instance

theorem ShownPin.concat {served : List Served} {guid : CString} {pin : ℤ}
    (h : ShownPin served guid pin) {q : Served} (hq : ∀ info, q.message ≠ .showPin info) :
    ShownPin (served ++ [q]) guid pin := by
  obtain ⟨pre, p, mid, info, deviceid, rfl, hp, hid, hguid, hpin, hmid⟩ := h
  refine ⟨pre, p, mid ++ [q], info, deviceid, by simp, hp, hid, hguid, hpin, fun x hx => ?_⟩
  rcases List.mem_append.mp hx with hx | hx
  · exact hmid x hx
  · exact List.mem_singleton.mp hx ▸ hq

theorem PinBound.concat {served : List Served} (h : PinBound served) {q : Served}
    (hq : ∀ deviceid, .answered (.register deviceid) .ok200 ∈ q.entries →
      ∃ info pinTry pin, q.message = .register info ∧ info.deviceid = some deviceid ∧
        info.pin = some pinTry ∧ writtenNumber pinTry = some pin ∧ 0 ≤ pin ∧
        ShownPin served deviceid pin) :
    PinBound (served ++ [q]) := by
  intro before p after deviceid hsplit hok
  rcases List.eq_nil_or_concat after with rfl | ⟨after', x, rfl⟩
  · obtain ⟨rfl, hp⟩ := List.append_inj' hsplit rfl
    obtain rfl : q = p := by simpa using hp
    exact hq deviceid hok
  · rw [List.concat_eq_append, ← List.cons_append, ← List.append_assoc] at hsplit
    obtain ⟨hsplit, -⟩ := List.append_inj' hsplit rfl
    exact h before p after' deviceid hsplit hok

namespace Pairing

variable {s s' : Pairing} {client : BitVec 32} {a : Reaction} {m : PairingMessage}
  {served : List Served}

theorem Serves.pinBound (hs : Serves s client a m s')
    (hshown : 0 ≤ s.pin → ShownPin served s.device.guid s.pin)
    (hwritten : 0 ≤ s.pin → ∀ pinTry ∈ m.pinTry s.device.guid, atoi pinTry = s.pin →
      writtenNumber pinTry = some s.pin) {deviceid : CString}
    (hok : .answered (.register deviceid) .ok200 ∈ s'.log.drop s.log.length) :
    ∃ info pinTry pin, m = .register info ∧ info.deviceid = some deviceid ∧
      info.pin = some pinTry ∧ writtenNumber pinTry = some pin ∧ 0 ≤ pin ∧
      ShownPin served deviceid pin := by
  cases hs with
  | malformed => simp [stop] at hok
  | connect response entries hresponse hentries hs =>
    rw [hs.log, served_log, List.drop_left] at hok
    rcases List.mem_append.mp hok with hok | hok
    · obtain ⟨answer, he⟩ := hentries _ hok
      simp at he
    · simp at hok
  | noPort => simp [stop] at hok
  | badLine => simp [stop] at hok
  | unsent hid => simp [stop] at hok
  | shown entries hid hentries hs =>
    rw [hs.log, served_log, List.drop_left] at hok
    rcases List.mem_cons.mp hok with he | hok
    · simp at he
    · simpa using hentries _ hok
  | refused hid hs =>
    rw [hs.log, served_log, List.drop_left] at hok
    simp at hok
  | @registered info d pinTry _ hid hguid hpin htry heq hs =>
    rw [hs.log, served_log, List.drop_left] at hok
    obtain rfl : deviceid = d := by simpa using hok
    have hgives : (PairingMessage.register info).pinTry s.device.guid = some pinTry := by
      rw [PairingMessage.pinTry, hguid, if_pos hid, htry]
    exact ⟨info, pinTry, s.pin, rfl, hid, htry, hwritten hpin pinTry hgives heq.symm, hpin,
      hguid ▸ hshown hpin⟩
  | standby => simp at hok
  | other => simp at hok

/-- The PIN that is outstanding after a request was shown for the device that is stored. -/
theorem Serves.shownPin (hs : Serves s client a m s')
    (hshown : 0 ≤ s.pin → ShownPin served s.device.guid s.pin)
    (hkeeps : 0 ≤ s.pin → ∀ guid ∈ m.connectGuid, guid = s.device.guid)
    (hphase : s'.phase ≠ .finished) (hpin : 0 ≤ s'.pin) :
    ShownPin (served ++ [{ message := m, entries := s'.log.drop s.log.length }])
      s'.device.guid s'.pin := by
  cases hs with
  | malformed => exact absurd rfl hphase
  | @connect guid _ _ _ response entries hresponse hentries hs =>
    rw [hs.eq hphase] at hpin ⊢
    have hguid : guid = s.device.guid := hkeeps hpin guid rfl
    rw [served_device, served_pin, hguid]
    exact (hshown hpin).concat (by simp)
  | noPort => exact absurd rfl hphase
  | badLine => exact absurd rfl hphase
  | unsent hid => exact absurd rfl hphase
  | @shown info deviceid _ entries hid hentries hs =>
    rw [hs.eq hphase]
    refine ⟨served, _, [], info, deviceid, rfl, rfl, hid, rfl, ?_, by simp⟩
    simp
  | refused hid hs =>
    rw [hs.eq hphase] at hpin ⊢
    exact (hshown hpin).concat (by simp)
  | registered hid hguid hpin' htry heq hs =>
    rw [hs.eq hphase] at hpin ⊢
    exact (hshown hpin).concat (by simp)
  | standby => exact (hshown hpin).concat (by simp)
  | other => exact (hshown hpin).concat (by simp)

end Pairing

/-- The invariant of a run in which no other device connects while a PIN is outstanding. -/
structure PinKept (r : Recorded) : Prop where
  bound : ∀ conn ∈ r.connections, PinBound conn.served
  reset : r.pairing.phase = .accepting → r.pairing.pin < 0
  shown : ∀ client, r.pairing.phase = .connected client →
    ∃ conn conns, r.connections = conn :: conns ∧
      (0 ≤ r.pairing.pin → ShownPin conn.served r.pairing.device.guid r.pairing.pin)

theorem PinKept.step {r r' : Recorded} {input : Input} (h : PinKept r)
    (hkeeps : KeepsPinDevice r input) (hs : r.step input = some r') : PinKept r' := by
  cases Recorded.step_steps hs with
  | accepted hphase =>
    refine ⟨fun conn hconn => ?_, fun he => by simp at he, fun client hc => ?_⟩
    · rcases List.mem_cons.mp hconn with rfl | hconn
      · intro before q after deviceid hsplit
        simp at hsplit
      · exact h.bound conn hconn
    · have hneg := h.reset hphase
      exact ⟨_, _, rfl, fun hpin => absurd hpin (by simpa using hneg)⟩
  | @received client data a m bytesRead s' hphase hm hserves =>
    obtain ⟨conn, conns, hconns, hshown⟩ := h.shown client hphase
    have hkept : 0 ≤ r.pairing.pin → _ := hkeeps m hm
    rw [hconns]
    refine ⟨fun conn' hconn' => ?_, fun he => ?_, fun client' hc => ?_⟩
    · rcases List.mem_cons.mp hconn' with rfl | hconn'
      · refine (h.bound conn (hconns ▸ List.mem_cons_self)).concat fun deviceid hok => ?_
        exact hserves.pinBound hshown (fun hpin => (hkept hpin).2) hok
      · exact h.bound conn' (hconns ▸ List.mem_cons_of_mem _ hconn')
    · change s'.phase = .accepting at he
      rcases hserves.phase with hsame | hfinished
      · rw [he] at hsame
        rw [hphase] at hsame
        simp at hsame
      · rw [he] at hfinished
        simp at hfinished
    · change s'.phase = .connected client' at hc
      refine ⟨_, _, rfl, fun hpin => ?_⟩
      exact hserves.shownPin hshown (fun hpin => (hkept hpin).1) (by simp [hc]) hpin
  | closed hphase =>
    refine ⟨h.bound, fun _ => by simp, fun client hc => ?_⟩
    dsimp only at hc
    split at hc <;> simp at hc
  | failed hphase hdevice =>
    refine ⟨h.bound, fun he => ?_, fun client hc => ?_⟩
    · rw [hphase] at he
      simp at he
    · rw [hphase] at hc
      simp at hc

def sampleRecorded (inputs : List Input) : Recorded := (inputs.foldlM Recorded.step {}).getD {}

def showPinRequest : Input :=
  .received "SHOWPIN * HTTP/1.1\r\ndevice-id:A\r\n\x00".toList sampleReaction

/-- The device `A` is shown a PIN and registers with it. -/
def registerInputs : List Input :=
  [.accepted 1, showPinRequest,
    .received "REGISTER * HTTP/1.1\r\ndevice-id:A\r\npin-code:5\r\n\x00".toList sampleReaction]

/-- The PIN is shown for `A`, and `B` connects and registers with it. -/
def otherPinInputs : List Input :=
  [.accepted 1, showPinRequest,
    .received "CONNECT * HTTP/1.1\r\ndevice-id:B\r\ndevice-port:9\r\n\x00".toList sampleReaction,
    .received "REGISTER * HTTP/1.1\r\ndevice-id:B\r\npin-code:5\r\n\x00".toList sampleReaction]

end VitaMTP
