import VitaMTP.Wireless.Pairing

/-! What each connection of a call carries: its requests as the loop reads them, and what the
call did for each of them. -/
namespace VitaMTP

/-- A request with the headers that the branch of its method reads, and for a `CONNECT` the port
that it writes. -/
inductive PairingMessage
  | malformed
  | connect (line : ConnectLine) (port : Option ℤ)
  | showPin (info : DeviceHeaders)
  | register (info : DeviceHeaders)
  | standby
  | other
  deriving DecidableEq, Repr

def RequestLine.message (r : RequestLine) : Option PairingMessage :=
  match r.method with
  | .connect => r.headers.map fun headers =>
      .connect (parseConnect headers) (writtenPort headers)
  | .showPin => r.headers.map fun headers => .showPin (parseDeviceHeaders headers)
  | .register => r.headers.map fun headers => .register (parseDeviceHeaders headers)
  | .standby => some .standby
  | .other => some .other

namespace Pairing

def message (s : Pairing) (data : List Char) : Option PairingMessage := do
  match ← readRequest s.bytesRead data with
  | none => some .malformed
  | some r => r.message

/-- The variables after a request that logged `entries`. -/
def served (s : Pairing) (device : WirelessDevice) (pin : ℤ) (entries : List LogEntry) :
    Pairing :=
  { s with device, pin, log := s.log ++ entries }

/-- The end of a round that sends a response. -/
inductive Sent (s : Pairing) : Pairing → Prop
  | sent : Sent s s
  | failed : Sent s s.stop

/-- What a call can do for a request. -/
inductive Serves (s : Pairing) (client : BitVec 32) (a : Reaction) : PairingMessage → Pairing → Prop
  | malformed : Serves s client a .malformed s.stop
  | connect {guid : CString} {dataPort : ℤ} {port : Option ℤ} {s' : Pairing} (response : Response)
      (entries : List LogEntry)
      (hresponse : response = .ok210 ∧ (s.device.registered ∨ a.isRegistered) ∨
        response = .ng605 ∧ ¬ (s.device.registered ∨ a.isRegistered))
      (hentries : ∀ e ∈ entries, ∃ answer, e = .isRegistered guid answer)
      (hs : Sent (s.served { s.device with guid, dataPort } s.pin
        (entries ++ [.answered (.connect guid) response])) s') :
      Serves s client a (.connect (.full guid dataPort) port) s'
  | noPort {guid : CString} {port : Option ℤ} :
      Serves s client a (.connect (.noPort guid) port)
        (s.served { s.device with guid } s.pin []).stop
  | badLine {port : Option ℤ} : Serves s client a (.connect .malformed port) s.stop
  | unsent {info : DeviceHeaders} {deviceid : CString} (hid : info.deviceid = some deviceid) :
      Serves s client a (.showPin info)
        (s.served { s.device with guid := deviceid.take 32 } s.pin []).stop
  | shown {info : DeviceHeaders} {deviceid : CString} {s' : Pairing} (entries : List LogEntry)
      (hid : info.deviceid = some deviceid)
      (hentries : ∀ e ∈ entries, e = .answered (.showPin deviceid) (.registerCancel a.errorcode))
      (hs : Sent (s.served { s.device with guid := deviceid.take 32 } a.createRegisterPin
        (.createRegisterPin deviceid a.createRegisterPin :: entries)) s') :
      Serves s client a (.showPin info) s'
  | refused {info : DeviceHeaders} {deviceid : CString} {s' : Pairing}
      (hid : info.deviceid = some deviceid)
      (hs : Sent (s.served s.device s.pin [.answered (.register deviceid) .ng610]) s') :
      Serves s client a (.register info) s'
  | registered {info : DeviceHeaders} {deviceid pinTry : CString} {s' : Pairing}
      (hid : info.deviceid = some deviceid) (hguid : s.device.guid = deviceid) (hpin : 0 ≤ s.pin)
      (htry : info.pin = some pinTry) (heq : s.pin = atoi pinTry)
      (hs : Sent (s.served { s.device with registered := true } s.pin
        [.answered (.register deviceid) .ok200]) s') :
      Serves s client a (.register info) s'
  | standby :
      Serves s client a .standby
        { s with listen := false, device := { s.device with addr := client } }
  | other : Serves s client a .other s

variable {s s' : Pairing} {client : BitVec 32} {a : Reaction} {headers : CString}

@[simp] theorem served_device (s : Pairing) (device : WirelessDevice) (pin : ℤ)
    (entries : List LogEntry) : (s.served device pin entries).device = device := rfl

@[simp] theorem served_pin (s : Pairing) (device : WirelessDevice) (pin : ℤ)
    (entries : List LogEntry) : (s.served device pin entries).pin = pin := rfl

@[simp] theorem served_log (s : Pairing) (device : WirelessDevice) (pin : ℤ)
    (entries : List LogEntry) : (s.served device pin entries).log = s.log ++ entries := rfl

@[simp] theorem served_listen (s : Pairing) (device : WirelessDevice) (pin : ℤ)
    (entries : List LogEntry) : (s.served device pin entries).listen = s.listen := rfl

theorem Sent.log (h : Sent s s') : s'.log = s.log := by
  cases h <;> rfl

theorem Sent.device (h : Sent s s') : s'.device = s.device := by
  cases h <;> rfl

theorem Sent.eq (h : Sent s s') (hphase : s'.phase ≠ .finished) : s' = s := by
  cases h with
  | sent => rfl
  | failed => exact absurd rfl hphase

theorem Sent.phase (h : Sent s s') : s'.phase = s.phase ∨ s'.phase = .finished := by
  cases h with
  | sent => exact Or.inl rfl
  | failed => exact Or.inr rfl

/-- A call never drops its client because of a request. -/
theorem Serves.phase {m : PairingMessage} (h : Serves s client a m s') :
    s'.phase = s.phase ∨ s'.phase = .finished := by
  cases h with
  | malformed => exact Or.inr rfl
  | connect response entries hresponse hentries hs => exact hs.phase
  | noPort => exact Or.inr rfl
  | badLine => exact Or.inr rfl
  | unsent hid => exact Or.inr rfl
  | shown entries hid hentries hs => exact hs.phase
  | refused hid hs => exact hs.phase
  | registered hid hguid hpin htry heq hs => exact hs.phase
  | standby => exact Or.inl rfl
  | other => exact Or.inl rfl

theorem respond_sent {t : Pairing} {request : Request} {response : Response}
    (ht : s.note (.answered request response) = t) : Sent t (s.respond request response a) := by
  unfold respond
  rw [ht]
  split
  · exact .sent
  · exact .failed

theorem connect_serves (s : Pairing) (client : BitVec 32) (a : Reaction) (headers : CString) :
    Serves s client a (.connect (parseConnect headers) (writtenPort headers))
      (s.connect headers a) := by
  unfold connect
  cases parseConnect headers with
  | malformed => exact .badLine
  | noPort guid =>
    have hset : s.setGuid guid = s.served { s.device with guid } s.pin [] := by
      simp [setGuid, served]
    dsimp only
    rw [hset]
    exact .noPort
  | full guid dataPort =>
    dsimp only
    by_cases hreg : s.device.registered
    · rw [if_pos hreg]
      exact .connect .ok210 [] (Or.inl ⟨rfl, Or.inl hreg⟩) (by simp) (respond_sent rfl)
    · rw [if_neg hreg]
      refine .connect (if a.isRegistered then .ok210 else .ng605)
        [.isRegistered guid a.isRegistered] ?_ (by simp) ?_
      · by_cases ha : a.isRegistered
        · simp [ha]
        · simp [ha, hreg]
      · exact respond_sent (by simp [served, note])

theorem showPin_serves (hs : s.showPin headers a = some s') :
    Serves s client a (.showPin (parseDeviceHeaders headers)) s' := by
  unfold showPin at hs
  cases hid : (parseDeviceHeaders headers).deviceid with
  | none => simp [hid] at hs
  | some deviceid =>
    simp only [hid, Option.bind_eq_bind, Option.bind_some] at hs
    split at hs
    · obtain rfl := Option.some.inj hs
      split
      · refine .shown [.answered (.showPin deviceid) (.registerCancel a.errorcode)] hid (by simp) ?_
        exact respond_sent (by simp [served, note, setGuid])
      · exact .shown [] hid (by simp) (by simpa [served, note, setGuid] using Sent.sent)
    · obtain rfl := Option.some.inj hs
      have hset : s.setGuid (deviceid.take 32) =
          s.served { s.device with guid := deviceid.take 32 } s.pin [] := by
        simp [setGuid, served]
      rw [hset]
      exact .unsent hid

theorem register_serves (hs : s.register headers a = some s') :
    Serves s client a (.register (parseDeviceHeaders headers)) s' := by
  unfold register at hs
  cases hid : (parseDeviceHeaders headers).deviceid with
  | none => simp [hid] at hs
  | some deviceid =>
    have hng : Serves s client a (.register (parseDeviceHeaders headers))
        (s.respond (.register deviceid) .ng610 a) :=
      .refused hid (respond_sent rfl)
    simp only [hid, Option.bind_eq_bind, Option.bind_some] at hs
    split at hs
    · exact Option.some.inj hs ▸ hng
    · rename_i hguid
      split at hs
      · exact Option.some.inj hs ▸ hng
      · rename_i hpin
        cases htry : (parseDeviceHeaders headers).pin with
        | none => simp [htry] at hs
        | some pinTry =>
          simp only [htry, Option.bind_some] at hs
          split at hs
          · exact Option.some.inj hs ▸ hng
          · rename_i heq
            obtain rfl := Option.some.inj hs
            exact .registered hid (not_not.mp hguid) (not_lt.mp hpin) htry (not_not.mp heq)
              (respond_sent rfl)

theorem request_serves {data : List Char} (hs : s.request client data a = some s') :
    ∃ m bytesRead, s.message data = some m ∧
      Serves { s with bytesRead := bytesRead } client a m s' := by
  rw [Pairing.request, Option.bind_eq_bind, Option.bind_eq_some_iff] at hs
  obtain ⟨line, hr, hs⟩ := hs
  cases line with
  | none =>
    obtain rfl := Option.some.inj hs
    exact ⟨.malformed, s.bytesRead, by simp [message, hr], .malformed⟩
  | some r =>
    have hm : s.message data = r.message := by simp [message, hr]
    rw [hm]
    unfold RequestLine.message
    cases hmethod : r.method with
    | connect =>
      simp only [hmethod] at hs
      obtain ⟨headers, hheaders, rfl⟩ := Option.map_eq_some_iff.mp hs
      exact ⟨_, r.bytesRead, by rw [hheaders]; rfl, connect_serves ..⟩
    | showPin =>
      simp only [hmethod] at hs
      obtain ⟨headers, hheaders, hs⟩ := Option.bind_eq_some_iff.mp hs
      exact ⟨_, r.bytesRead, by rw [hheaders]; rfl, showPin_serves hs⟩
    | register =>
      simp only [hmethod] at hs
      obtain ⟨headers, hheaders, hs⟩ := Option.bind_eq_some_iff.mp hs
      exact ⟨_, r.bytesRead, by rw [hheaders]; rfl, register_serves hs⟩
    | standby =>
      simp only [hmethod] at hs
      obtain rfl := Option.some.inj hs
      exact ⟨_, r.bytesRead, rfl, .standby⟩
    | other =>
      simp only [hmethod] at hs
      obtain rfl := Option.some.inj hs
      exact ⟨_, r.bytesRead, rfl, .other⟩

end Pairing

/-- A request and what was logged for it. -/
structure Served where
  message : PairingMessage
  entries : List LogEntry
  deriving DecidableEq, Repr

structure Connection where
  client : BitVec 32
  served : List Served := []
  deriving DecidableEq, Repr

/-- A call with the connections it has accepted, the last one first. -/
structure Recorded where
  pairing : Pairing := {}
  connections : List Connection := []
  deriving DecidableEq, Repr

namespace Recorded

/-- The connection in use carries one more request. -/
def carry (q : Served) : List Connection → List Connection
  | [] => []
  | conn :: conns => { conn with served := conn.served ++ [q] } :: conns

def messageOf (r : Recorded) : Input → Option PairingMessage
  | .received data _ => r.pairing.message data
  | _ => none

def step (r : Recorded) (input : Input) : Option Recorded := do
  let s ← r.pairing.step input
  let connections := match input with
    | .accepted client => { client } :: r.connections
    | input =>
      match r.messageOf input with
      | some message => carry { message, entries := s.log.drop r.pairing.log.length } r.connections
      | none => r.connections
  some { pairing := s, connections }

/-- What a step can do. -/
inductive Steps (r : Recorded) : Input → Recorded → Prop
  | accepted {client : BitVec 32} (hphase : r.pairing.phase = .accepting) :
      Steps r (.accepted client)
        { pairing := { r.pairing with phase := .connected client }
          connections := { client } :: r.connections }
  | received {client : BitVec 32} {data : List Char} {a : Reaction} {m : PairingMessage}
      {bytesRead : Option ℕ} {s' : Pairing} (hphase : r.pairing.phase = .connected client)
      (hm : r.pairing.message data = some m)
      (hs : Pairing.Serves { r.pairing with bytesRead := bytesRead } client a m s') :
      Steps r (.received data a)
        { pairing := s'
          connections := carry { message := m, entries := s'.log.drop r.pairing.log.length }
            r.connections }
  | closed {client : BitVec 32} (hphase : r.pairing.phase = .connected client) :
      Steps r .closed { r with pairing := { r.pairing with
        pin := -1, phase := if r.pairing.listen then .accepting else .finished } }
  | failed {input : Input} {s' : Pairing} (hphase : s'.phase = .finished)
      (hdevice : s'.device = r.pairing.device) : Steps r input { r with pairing := s' }

theorem step_steps {r r' : Recorded} {input : Input} (h : r.step input = some r') :
    Steps r input r' := by
  rw [step, Option.bind_eq_bind, Option.bind_eq_some_iff] at h
  obtain ⟨s, hs, h⟩ := h
  obtain rfl := Option.some.inj h
  unfold Pairing.step at hs
  split at hs
  · exact .failed (Option.some.inj hs ▸ rfl) (Option.some.inj hs ▸ rfl)
  · exact .failed (Option.some.inj hs ▸ rfl) (Option.some.inj hs ▸ rfl)
  · exact .failed (Option.some.inj hs ▸ rfl) (Option.some.inj hs ▸ rfl)
  · rename_i hphase
    obtain rfl := Option.some.inj hs
    exact .accepted hphase
  · exact .failed (Option.some.inj hs ▸ rfl) (Option.some.inj hs ▸ rfl)
  · rename_i hphase
    obtain rfl := Option.some.inj hs
    exact .closed hphase
  · rename_i hphase
    obtain ⟨m, bytesRead, hm, hserves⟩ := Pairing.request_serves hs
    simp only [messageOf, hm]
    exact .received hphase hm hserves
  · simp at hs

end Recorded

end VitaMTP
