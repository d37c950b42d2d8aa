import VitaMTP.Wireless.PinBinding

/-! The device that a call hands on is one client, as long as the client that stands by has been
granted its `CONNECT` on the same connection and nothing names another client afterwards. -/
namespace VitaMTP
open Runs

/-- The request was a `CONNECT` that writes these values and was answered `210 OK`. -/
def Served.Grants (q : Served) (guid : CString) (dataPort : ℤ) : Prop :=
  q.message = .connect (.full guid dataPort) (some dataPort) ∧
    .answered (.connect guid) .ok210 ∈ q.entries

/-- The device is the client of the connection: it stood by there, and was granted a `CONNECT`
with the values of the device. -/
def Connection.Stands (conn : Connection) (device : WirelessDevice) : Prop :=
  device.addr = conn.client ∧ (∃ q ∈ conn.served, q.message = .standby) ∧
    ∃ q ∈ conn.served, q.Grants device.guid device.dataPort

/-- The device that is handed on is the client of one connection. -/
def Coherent (r : Recorded) : Prop :=
  ∀ device, r.pairing.dataConnect = some device → ∃ conn ∈ r.connections, conn.Stands device

/-- A request that stores no other id or port. -/
def PairingMessage.Keeps (guid : CString) (dataPort : ℤ) : PairingMessage → Prop
  | .connect (.full guid' dataPort') _ => guid' = guid ∧ dataPort' = dataPort
  | .connect (.noPort guid') _ => guid' = guid
  | .showPin info => info.deviceid.map (·.take 32) = some guid
  | _ => True

/-- The connection was granted a `CONNECT`, and no other id or port came after it. -/
def Introduced (served : List Served) : Prop :=
  ∃ pre q mid guid dataPort, served = pre ++ q :: mid ∧ q.Grants guid dataPort ∧
    ∀ x ∈ mid, x.message.Keeps guid dataPort

/-- A client stands by after it was introduced, and until it closes only a `CONNECT` that is
granted, with a port that is stored as it is written, stores anything else. -/
def StandsIntroduced (r : Recorded) (input : Input) : Prop :=
  ∀ data a, input = .received data a → ∀ m, r.pairing.message data = some m →
    (m = .standby → ∃ conn conns, r.connections = conn :: conns ∧ Introduced conn.served) ∧
    (r.pairing.listen = false →
      m.Keeps r.pairing.device.guid r.pairing.device.dataPort ∨
        ∃ guid dataPort, m = .connect (.full guid dataPort) (some dataPort) ∧
          (r.pairing.device.registered ∨ a.isRegistered))

/-- The last `CONNECT` of a connection is what is stored, if nothing after it stored else. -/
def Mirrors (served : List Served) (device : WirelessDevice) : Prop :=
  ∀ pre q mid guid dataPort port, served = pre ++ q :: mid →
    q.message = .connect (.full guid dataPort) port →
    (∀ x ∈ mid, x.message.Keeps guid dataPort) →
    device.guid = guid ∧ device.dataPort = dataPort

namespace Pairing

variable {s s' : Pairing} {client : BitVec 32} {a : Reaction} {m : PairingMessage}

theorem Serves.addr (hs : Serves s client a m s') (hm : m ≠ .standby) :
    s'.device.addr = s.device.addr := by
  cases hs with
  | malformed => rfl
  | connect response entries hresponse hentries hs => rw [hs.device, served_device]
  | noPort => rfl
  | badLine => rfl
  | unsent hid => rfl
  | shown entries hid hentries hs => rw [hs.device, served_device]
  | refused hid hs => rw [hs.device, served_device]
  | registered hid hguid hpin htry heq hs => rw [hs.device, served_device]
  | standby => exact absurd rfl hm
  | other => rfl

theorem Serves.listen (hs : Serves s client a m s') (hm : m ≠ .standby)
    (hphase : s'.phase ≠ .finished) : s'.listen = s.listen := by
  cases hs with
  | malformed => exact absurd rfl hphase
  | connect response entries hresponse hentries hs => rw [hs.eq hphase, served_listen]
  | noPort => exact absurd rfl hphase
  | badLine => exact absurd rfl hphase
  | unsent hid => exact absurd rfl hphase
  | shown entries hid hentries hs => rw [hs.eq hphase, served_listen]
  | refused hid hs => rw [hs.eq hphase, served_listen]
  | registered hid hguid hpin htry heq hs => rw [hs.eq hphase, served_listen]
  | standby => exact absurd rfl hm
  | other => rfl

theorem Serves.standby_eq (hs : Serves s client a .standby s') :
    s'.device = { s.device with addr := client } ∧ s'.listen = false := by
  cases hs
  exact ⟨rfl, rfl⟩

theorem Serves.keeps {guid : CString} {dataPort : ℤ} (hs : Serves s client a m s')
    (hm : m.Keeps guid dataPort) (hguid : s.device.guid = guid)
    (hport : s.device.dataPort = dataPort) :
    s'.device.guid = guid ∧ s'.device.dataPort = dataPort := by
  cases hs with
  | malformed => exact ⟨hguid, hport⟩
  | connect response entries hresponse hentries hs =>
    rw [hs.device, served_device]
    exact hm
  | noPort => exact ⟨hm, hport⟩
  | badLine => exact ⟨hguid, hport⟩
  | unsent hid =>
    rw [PairingMessage.Keeps, hid] at hm
    exact ⟨Option.some.inj hm, hport⟩
  | shown entries hid hentries hs =>
    rw [PairingMessage.Keeps, hid] at hm
    rw [hs.device, served_device]
    exact ⟨Option.some.inj hm, hport⟩
  | refused hid hs =>
    rw [hs.device, served_device]
    exact ⟨hguid, hport⟩
  | registered hid hguid' hpin htry heq hs =>
    rw [hs.device, served_device]
    exact ⟨hguid, hport⟩
  | standby => exact ⟨hguid, hport⟩
  | other => exact ⟨hguid, hport⟩

theorem Serves.stores {guid : CString} {dataPort : ℤ} {port : Option ℤ}
    (hs : Serves s client a (.connect (.full guid dataPort) port) s') :
    s'.device.guid = guid ∧ s'.device.dataPort = dataPort := by
  cases hs with
  | connect response entries hresponse hentries hs =>
    rw [hs.device, served_device]
    exact ⟨rfl, rfl⟩

theorem Serves.grants {guid : CString} {dataPort : ℤ} {port : Option ℤ}
    (hs : Serves s client a (.connect (.full guid dataPort) port) s')
    (hknown : s.device.registered ∨ a.isRegistered) :
    .answered (.connect guid) .ok210 ∈ s'.log.drop s.log.length := by
  cases hs with
  | connect response entries hresponse hentries hs =>
    rcases hresponse with ⟨rfl, -⟩ | ⟨-, hnot⟩
    · rw [hs.log, served_log, List.drop_left]
      simp
    · exact absurd hknown hnot

theorem Serves.mirrors {served : List Served} (hs : Serves s client a m s')
    (hmirrors : Mirrors served s.device) :
    Mirrors (served ++ [{ message := m, entries := s'.log.drop s.log.length }]) s'.device := by
  intro pre q mid guid dataPort port hsplit hq hmid
  rcases List.eq_nil_or_concat mid with rfl | ⟨mid', x, rfl⟩
  · obtain ⟨-, hlast⟩ := List.append_inj' hsplit rfl
    obtain rfl := List.singleton_inj.mp hlast
    change m = _ at hq
    exact Serves.stores (hq ▸ hs)
  · rw [List.concat_eq_append] at hsplit hmid
    rw [← List.cons_append, ← List.append_assoc] at hsplit
    obtain ⟨hserved, hlast⟩ := List.append_inj' hsplit rfl
    obtain rfl := List.singleton_inj.mp hlast
    have hold := hmirrors pre q mid' guid dataPort port hserved hq fun x hx =>
      hmid x (List.mem_append_left _ hx)
    exact hs.keeps (hmid _ (List.mem_append_right _ (List.mem_singleton_self _))) hold.1 hold.2

/-- After a `STANDBY` the connection still stands for the device that is stored. -/
theorem Serves.stands {conn : Connection} (hs : Serves s client a m s')
    (hclient : conn.client = client) (hmirrors : Mirrors conn.served s.device)
    (hstands : s.listen = false → conn.Stands s.device)
    (hintroduced : m = .standby → Introduced conn.served)
    (hkeeps : s.listen = false → m.Keeps s.device.guid s.device.dataPort ∨
      ∃ guid dataPort, m = .connect (.full guid dataPort) (some dataPort) ∧
        (s.device.registered ∨ a.isRegistered))
    (hstood : m = .standby ∨ s.listen = false) :
    ({ conn with served := conn.served ++
      [{ message := m, entries := s'.log.drop s.log.length }] } : Connection).Stands s'.device := by
  by_cases hm : m = .standby
  · subst hm
    obtain ⟨pre, q, mid, guid, dataPort, hserved, hgrants, hmid⟩ := hintroduced rfl
    obtain ⟨hguid, hport⟩ := hmirrors pre q mid guid dataPort _ hserved hgrants.1 hmid
    rw [hs.standby_eq.1]
    refine ⟨hclient.symm, ⟨_, List.mem_append_right _ (List.mem_singleton_self _), rfl⟩,
      q, List.mem_append_left _ ?_, ?_⟩
    · rw [hserved]
      simp
    · rw [hguid, hport]
      exact hgrants
  · have hlisten := hstood.resolve_left hm
    obtain ⟨haddr, ⟨p, hp, hstandby⟩, q, hq, hgrants⟩ := hstands hlisten
    refine ⟨(hs.addr hm).trans haddr, ⟨p, List.mem_append_left _ hp, hstandby⟩, ?_⟩
    rcases hkeeps hlisten with hkeep | ⟨guid, dataPort, rfl, hknown⟩
    · obtain ⟨hguid, hport⟩ := hs.keeps hkeep rfl rfl
      rw [hguid, hport]
      exact ⟨q, List.mem_append_left _ hq, hgrants⟩
    · rw [hs.stores.1, hs.stores.2]
      exact ⟨_, List.mem_append_right _ (List.mem_singleton_self _), rfl, hs.grants hknown⟩

end Pairing

/-- The invariant of a run in which the client that stands by was introduced. -/
structure Traced (r : Recorded) : Prop where
  waiting : r.pairing.phase = .accepting → r.pairing.listen = true ∧ r.pairing.device.addr = 0
  current : ∀ client, r.pairing.phase = .connected client →
    ∃ conn conns, r.connections = conn :: conns ∧ conn.client = client ∧
      Mirrors conn.served r.pairing.device ∧
      (r.pairing.listen = true → r.pairing.device.addr = 0) ∧
      (r.pairing.listen = false → conn.Stands r.pairing.device)
  coherent : r.pairing.phase = .finished → r.pairing.device.addr ≠ 0 →
    ∃ conn ∈ r.connections, conn.Stands r.pairing.device

theorem Traced.stands {r : Recorded} (h : Traced r) (haddr : r.pairing.device.addr ≠ 0) :
    ∃ conn ∈ r.connections, conn.Stands r.pairing.device := by
  cases hphase : r.pairing.phase with
  | accepting => exact absurd (h.waiting hphase).2 haddr
  | connected client =>
    obtain ⟨conn, conns, hconns, -, -, hlisten, hstands⟩ := h.current client hphase
    rw [hconns]
    refine ⟨conn, List.mem_cons_self, hstands ?_⟩
    by_contra hne
    exact haddr (hlisten (by simpa using hne))
  | finished => exact h.coherent hphase haddr

theorem Traced.step {r r' : Recorded} {input : Input} (h : Traced r)
    (hallowed : StandsIntroduced r input) (hs : r.step input = some r') : Traced r' := by
  cases Recorded.step_steps hs with
  | @accepted client hphase =>
    obtain ⟨hlisten, haddr⟩ := h.waiting hphase
    refine ⟨fun he => by simp at he, fun client' hc => ?_, fun he => by simp at he⟩
    refine ⟨_, _, rfl, by simpa using hc, ?_, fun _ => haddr, fun he => ?_⟩
    · intro pre q mid guid dataPort port hsplit
      simp at hsplit
    · rw [show r.pairing.listen = false from he] at hlisten
      simp at hlisten
  | @received client data a m bytesRead s' hphase hm hserves =>
    obtain ⟨conn, conns, hconns, hclient, hmirrors, hlisten, hstands⟩ := h.current client hphase
    obtain ⟨hintroduced, hkeeps⟩ := hallowed data a rfl m hm
    have hhead : m = .standby → Introduced conn.served := by
      intro he
      obtain ⟨conn', conns', hconns', hi⟩ := hintroduced he
      rw [hconns, List.cons.injEq] at hconns'
      exact hconns'.1 ▸ hi
    have hafter := hserves.stands hclient hmirrors hstands hhead hkeeps
    have hbefore (hm : m ≠ .standby) (hl : r.pairing.listen = true) : s'.device.addr = 0 :=
      (hserves.addr hm).trans (hlisten hl)
    rw [hconns]
    refine ⟨fun he => ?_, fun client' hc => ?_, fun he haddr => ?_⟩
    · rcases hserves.phase with hsame | hfinished
      · rw [show s'.phase = .accepting from he,
          show _ = Phase.connected client from hphase] at hsame
        simp at hsame
      · rw [show s'.phase = .accepting from he] at hfinished
        simp at hfinished
    · change s'.phase = .connected client' at hc
      have hgoes : s'.phase ≠ .finished := by simp [hc]
      have hsame : client = client' := by
        have := hserves.phase.resolve_right hgoes
        rw [hc, show _ = Phase.connected client from hphase] at this
        simpa using this.symm
      refine ⟨_, _, rfl, hclient.trans hsame, hserves.mirrors hmirrors, fun hl => ?_, fun hl => ?_⟩
      · change s'.listen = true at hl
        have hnot : m ≠ .standby := by
          rintro rfl
          rw [hserves.standby_eq.2] at hl
          simp at hl
        exact hbefore hnot ((hserves.listen hnot hgoes).symm.trans hl)
      · change s'.listen = false at hl
        refine hafter ?_
        by_cases hnot : m = .standby
        · exact Or.inl hnot
        · exact Or.inr ((hserves.listen hnot hgoes).symm.trans hl)
    · refine ⟨_, List.mem_cons_self, hafter ?_⟩
      by_contra hnot
      rw [not_or] at hnot
      exact haddr (hbefore hnot.1 (by simpa using hnot.2))
  | @closed client hphase =>
    obtain ⟨conn, conns, hconns, hclient, hmirrors, hlisten, hstands⟩ := h.current client hphase
    refine ⟨fun he => ?_, fun client' hc => ?_, fun _ haddr => h.stands haddr⟩
    · have hl : r.pairing.listen = true := by
        by_contra hnot
        simp [hnot] at he
      exact ⟨hl, hlisten hl⟩
    · dsimp only at hc
      split at hc <;> simp at hc
  | failed hphase hdevice =>
    refine ⟨fun he => ?_, fun client hc => ?_, fun _ haddr => ?_⟩
    · rw [hphase] at he
      simp at he
    · rw [hphase] at hc
      simp at hc
    · dsimp only at haddr ⊢
      rw [hdevice] at haddr ⊢
      exact h.stands haddr

def connectRequest : Input :=
  .received "CONNECT * HTTP/1.1\r\ndevice-id:B\r\ndevice-port:9\r\n\x00".toList sampleReaction

def standbyRequest : Input := .received "STANDBY * HTTP/1.1\r\n\x00".toList sampleReaction

/-- The device `B` connects and stands by. -/
def standbyInputs : List Input := [.accepted 1, connectRequest, standbyRequest, .closed]

/-- A PIN is shown for `A` between the two requests of `B`. -/
def mixedInputs : List Input :=
  [.accepted 1, connectRequest, showPinRequest, standbyRequest, .closed]

end VitaMTP
