import VitaMTP.Wireless.Pairing

/-! Which devices are let in: those that `is_registered` knows and those that registered in
the same call, as long as no other device uses what a registration leaves behind. -/
namespace VitaMTP
open Runs

/-- `is_registered` was true for the id, or a registration of it has succeeded. -/
def Authorised (log : List LogEntry) (deviceid : CString) : Prop :=
  .isRegistered deviceid true ∈ log ∨ .answered (.register deviceid) .ok200 ∈ log

/-- Each `CONNECT` that was granted came after its device was authorised. -/
def GrantsAuthorised (log : List LogEntry) : Prop :=
  ∀ l deviceid l', log = l ++ .answered (.connect deviceid) .ok210 :: l' → Authorised l deviceid

instance (log : List LogEntry) (deviceid : CString) : Decidable (Authorised log deviceid) :=
  inferInstanceAs (Decidable (_ ∨ _))

theorem Authorised.mono {log log' : List LogEntry} {deviceid : CString}
    (h : Authorised log deviceid) (hsub : log ⊆ log') : Authorised log' deviceid :=
  h.imp (fun h => hsub h) fun h => hsub h

theorem GrantsAuthorised.concat {log : List LogEntry} {entry : LogEntry}
    (h : GrantsAuthorised log)
    (hentry : ∀ deviceid, entry = .answered (.connect deviceid) .ok210 →
      Authorised log deviceid) : GrantsAuthorised (log ++ [entry]) := by
  intro l deviceid l' hl
  rcases List.eq_nil_or_concat l' with rfl | ⟨l'', e, rfl⟩
  · obtain ⟨hlog, he⟩ := List.append_inj' hl rfl
    rw [← hlog]
    exact hentry deviceid (by simpa using he)
  · rw [List.concat_eq_append, ← List.cons_append, ← List.append_assoc] at hl
    obtain ⟨hlog, -⟩ := List.append_inj' hl rfl
    exact h l deviceid l'' hlog

namespace Pairing

/-- The law of a call: grants are authorised, and so is the device that is handed on. -/
def Lawful (s : Pairing) : Prop :=
  GrantsAuthorised s.log ∧ ∀ device, s.dataConnect = some device → Authorised s.log device.guid

/-- The id that a request stores as the id of the device. -/
def storedGuid (r : RequestLine) : Option CString := do
  let headers ← r.headers
  match r.method with
  | .connect =>
    match parseConnect headers with
    | .full guid _ => some guid
    | .noPort guid => some guid
    | .malformed => none
  | .showPin => (parseDeviceHeaders headers).deviceid.map (·.take 32)
  | _ => none

/-- The id of a `CONNECT` that is answered. -/
def connectGuid (r : RequestLine) : Option CString := do
  let headers ← r.headers
  match r.method with
  | .connect =>
    match parseConnect headers with
    | .full guid _ => some guid
    | _ => none
  | _ => none

/-- The request of an input that is not malformed. -/
def requestOf (s : Pairing) : Input → Option (RequestLine × Reaction)
  | .received data a => (readRequest s.bytesRead data).join.map fun r => (r, a)
  | _ => none

/-- The input does not use the state another device has left behind: the `registered` flag is
only relied on by a device that is authorised itself, only such a device stands by, and after
that no other device replaces its id. -/
def OwnState (s : Pairing) (input : Input) : Prop :=
  ∀ p ∈ s.requestOf input,
    (∀ guid ∈ connectGuid p.1, s.device.registered → Authorised s.log guid) ∧
    (p.1.method = .standby → Authorised s.log s.device.guid) ∧
    (∀ guid ∈ storedGuid p.1, s.device.addr ≠ 0 →
      Authorised s.log guid ∨ connectGuid p.1 = some guid ∧ p.2.isRegistered)

instance (s : Pairing) (input : Input) : Decidable (OwnState s input) := by
  unfold OwnState
  infer_instance

/-- The invariant of a run of such inputs. -/
structure Kept (s : Pairing) : Prop where
  grants : GrantsAuthorised s.log
  stored : s.device.addr ≠ 0 → Authorised s.log s.device.guid

variable {s : Pairing}

theorem Kept.lawful (h : Kept s) : Lawful s := by
  refine ⟨h.grants, fun device hdevice => ?_⟩
  unfold dataConnect at hdevice
  split at hdevice
  · rename_i hphase
    exact Option.some.inj hdevice ▸ h.stored hphase.2
  · simp at hdevice

theorem Kept.note (h : Kept s) {entry : LogEntry}
    (hentry : ∀ deviceid, entry = .answered (.connect deviceid) .ok210 →
      Authorised s.log deviceid) : Kept (s.note entry) :=
  ⟨h.grants.concat hentry, fun haddr => (h.stored haddr).mono (List.subset_append_left ..)⟩

theorem Kept.stop (h : Kept s) : Kept s.stop := ⟨h.grants, h.stored⟩

theorem Kept.respond (h : Kept s) {request : Request} {response : Response} {a : Reaction}
    (hgrant : ∀ deviceid, request = .connect deviceid → response = .ok210 →
      Authorised s.log deviceid) : Kept (s.respond request response a) := by
  have hnote : Kept (s.note (.answered request response)) := by
    refine h.note fun deviceid he => ?_
    simp only [LogEntry.answered.injEq] at he
    exact hgrant deviceid he.1 he.2
  unfold Pairing.respond
  split
  · exact hnote
  · exact hnote.stop

theorem Kept.connect (h : Kept s) {headers : CString} {a : Reaction}
    (hflag : s.device.registered → ∀ guid dataPort, parseConnect headers = .full guid dataPort →
      Authorised s.log guid)
    (hfull : s.device.addr ≠ 0 → ∀ guid dataPort, parseConnect headers = .full guid dataPort →
      Authorised s.log guid ∨ a.isRegistered)
    (hpart : s.device.addr ≠ 0 → ∀ guid, parseConnect headers = .noPort guid →
      Authorised s.log guid) : Kept (s.connect headers a) := by
  unfold Pairing.connect
  split
  · rename_i guid dataPort hparse
    by_cases hreg : s.device.registered
    · have hauth := hflag hreg guid dataPort hparse
      rw [if_pos hreg]
      have hset : Kept { s with
          device := { s.device with guid := guid, dataPort := dataPort } } :=
        ⟨h.grants, fun _ => hauth⟩
      refine hset.respond fun deviceid he _ => ?_
      rw [Request.connect.injEq] at he
      exact he ▸ hauth
    · rw [if_neg hreg]
      have hnote : ∀ t : Pairing, t.log = s.log ++ [.isRegistered guid a.isRegistered] →
          a.isRegistered → Authorised t.log guid := by
        intro t ht ha
        rw [ht, ha]
        exact Or.inl (by simp)
      refine Kept.respond ⟨?_, fun haddr => ?_⟩ fun deviceid he hresp => ?_
      · exact h.grants.concat (by simp)
      · rcases hfull haddr guid dataPort hparse with hauth | ha
        · exact hauth.mono (List.subset_append_left ..)
        · exact hnote _ rfl ha
      · rw [Request.connect.injEq] at he
        refine he ▸ hnote _ rfl ?_
        by_contra ha
        rw [if_neg ha] at hresp
        simp at hresp
  · rename_i guid hparse
    exact Kept.stop ⟨h.grants, fun haddr => hpart haddr guid hparse⟩
  · exact h.stop

theorem Kept.showPin (h : Kept s) {headers : CString} {a : Reaction}
    (hstored : s.device.addr ≠ 0 → ∀ deviceid, (parseDeviceHeaders headers).deviceid =
      some deviceid → Authorised s.log (deviceid.take 32)) {s' : Pairing}
    (hs : s.showPin headers a = some s') : Kept s' := by
  unfold Pairing.showPin at hs
  cases hid : (parseDeviceHeaders headers).deviceid with
  | none => simp [hid] at hs
  | some deviceid =>
    have hset : Kept (s.setGuid (deviceid.take 32)) :=
      ⟨h.grants, fun haddr => hstored haddr deviceid hid⟩
    simp only [hid, Option.bind_eq_bind, Option.bind_some] at hs
    split at hs
    · have hpin : Kept { (s.setGuid (deviceid.take 32)).note
          (.createRegisterPin deviceid a.createRegisterPin) with pin := a.createRegisterPin } :=
        ⟨(hset.note (by simp)).grants, (hset.note (by simp)).stored⟩
      rw [← Option.some.inj hs]
      split
      · exact hpin.respond (by simp)
      · exact hpin
    · exact Option.some.inj hs ▸ hset.stop

theorem Kept.register (h : Kept s) {headers : CString} {a : Reaction} {s' : Pairing}
    (hs : s.register headers a = some s') : Kept s' := by
  have hng (deviceid : CString) : Kept (s.respond (.register deviceid) .ng610 a) :=
    h.respond (by simp)
  unfold Pairing.register at hs
  cases hid : (parseDeviceHeaders headers).deviceid with
  | none => simp [hid] at hs
  | some deviceid =>
    simp only [hid, Option.bind_eq_bind, Option.bind_some] at hs
    split at hs
    · exact Option.some.inj hs ▸ hng deviceid
    · split at hs
      · exact Option.some.inj hs ▸ hng deviceid
      · cases hpin : (parseDeviceHeaders headers).pin with
        | none => simp [hpin] at hs
        | some pinTry =>
          simp only [hpin, Option.bind_some] at hs
          split at hs
          · exact Option.some.inj hs ▸ hng deviceid
          · refine Option.some.inj hs ▸ Kept.respond ?_ (by simp)
            exact ⟨h.grants, h.stored⟩

theorem Kept.request (h : Kept s) {client : BitVec 32} {data : List Char} {a : Reaction}
    (hown : OwnState s (.received data a)) {s' : Pairing}
    (hs : s.request client data a = some s') : Kept s' := by
  rw [Pairing.request, Option.bind_eq_bind, Option.bind_eq_some_iff] at hs
  obtain ⟨line, hr, hs⟩ := hs
  cases line with
  | none => exact Option.some.inj hs ▸ h.stop
  | some r =>
    obtain ⟨hflag, hstandby, hreplace⟩ := hown (r, a) (by simp [requestOf, hr])
    have hread : Kept { s with bytesRead := r.bytesRead } := ⟨h.grants, h.stored⟩
    cases hmethod : r.method with
    | connect =>
      simp only [hmethod] at hs
      obtain ⟨headers, hheaders, rfl⟩ := Option.map_eq_some_iff.mp hs
      simp only [connectGuid, storedGuid, hheaders, hmethod, Option.bind_eq_bind,
        Option.bind_some] at hflag hreplace
      refine hread.connect (fun hreg guid port hp => ?_) (fun haddr guid port hp => ?_)
        fun haddr guid hp => ?_
      · exact hflag guid (by rw [hp]; rfl) hreg
      · exact (hreplace guid (by rw [hp]; rfl) haddr).imp_right And.right
      · refine (hreplace guid (by rw [hp]; rfl) haddr).resolve_right fun hc => ?_
        rw [hp] at hc
        simp at hc
    | showPin =>
      simp only [hmethod] at hs
      obtain ⟨headers, hheaders, hs⟩ := Option.bind_eq_some_iff.mp hs
      simp only [connectGuid, storedGuid, hheaders, hmethod, Option.bind_eq_bind,
        Option.bind_some] at hreplace
      refine hread.showPin (fun haddr deviceid hid => ?_) hs
      refine (hreplace _ (by rw [hid]; rfl) haddr).resolve_right fun hc => ?_
      simp at hc
    | register =>
      simp only [hmethod] at hs
      obtain ⟨headers, -, hs⟩ := Option.bind_eq_some_iff.mp hs
      exact hread.register hs
    | standby =>
      simp only [hmethod] at hs
      exact Option.some.inj hs ▸ ⟨h.grants, fun _ => hstandby hmethod⟩
    | other =>
      simp only [hmethod] at hs
      exact Option.some.inj hs ▸ hread

theorem Kept.step (h : Kept s) {input : Input} (hown : OwnState s input) {s' : Pairing}
    (hs : s.step input = some s') : Kept s' := by
  unfold Pairing.step at hs
  split at hs
  · exact Option.some.inj hs ▸ ⟨h.grants, h.stored⟩
  · exact Option.some.inj hs ▸ ⟨h.grants, h.stored⟩
  · exact Option.some.inj hs ▸ ⟨h.grants, h.stored⟩
  · exact Option.some.inj hs ▸ ⟨h.grants, h.stored⟩
  · exact Option.some.inj hs ▸ h.stop
  · exact Option.some.inj hs ▸ ⟨h.grants, h.stored⟩
  · exact h.request hown hs
  · simp at hs

end Pairing

def sampleReaction : Reaction where
  isRegistered := true
  createRegisterPin := 5
  errorcode := 0
  okaySent := true
  respSent := true

def knownInputs : List Input :=
  [.accepted 1,
    .received "CONNECT * HTTP/1.1\r\ndevice-id:A\r\ndevice-port:9\r\n\x00".toList sampleReaction,
    .received "STANDBY * HTTP/1.1\r\n\x00".toList sampleReaction, .closed]

/-- A device registers, and then a device that is not known connects. -/
def strangerInputs : List Input :=
  [.accepted 1,
    .received "SHOWPIN * HTTP/1.1\r\ndevice-id:A\r\n\x00".toList sampleReaction,
    .received "REGISTER * HTTP/1.1\r\ndevice-id:A\r\npin-code:5\r\n\x00".toList sampleReaction,
    .closed, .accepted 2,
    .received "CONNECT * HTTP/1.1\r\ndevice-id:B\r\ndevice-port:9\r\n\x00".toList
      { sampleReaction with isRegistered := false }]

def samplePairing (inputs : List Input) : Pairing := (inputs.foldlM Pairing.step {}).getD {}

end VitaMTP
