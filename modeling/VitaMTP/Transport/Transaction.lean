import VitaMTP.Transport.Container

/-! Transactions over any transport: a request, data in one direction or none, and the response
that belongs to it. -/
namespace VitaMTP

def PTP_OC_OpenSession : BitVec 16 := 0x1002
def PTP_OC_CloseSession : BitVec 16 := 0x1003

/-- The functions of `PTPParams` that send and receive, on connections with states in `σ`. They
have no result where memory is read that is not there. A response uses up some of what is still
to be read. -/
structure Transport (σ : Type) where
  sendreq : PTPContainer → σ → BitVec 16 × σ
  senddata : PTPContainer → List Byte → σ → BitVec 16 × σ
  /-- the data is what the handler has been given, also if there is an error -/
  getdata : PTPContainer → σ → Option (BitVec 16 × List Byte × σ)
  getresp : PTPContainer → σ → Option (BitVec 16 × PTPContainer × σ)
  /-- a null pointer has no result -/
  cancelreq : BitVec 32 → σ → Option (BitVec 16 × σ)
  /-- what `ptp_opensession` resets -/
  reset : σ → σ
  unread : σ → ℕ
  getresp_lt : ∀ {resp s ret resp' s'}, getresp resp s = some (ret, resp', s') →
    ret = PTP_RC_OK ∨ ret = PTP_ERROR_RESP_EXPECTED → unread s' < unread s

/-- `PTPParams`, as far as a transaction uses it. -/
structure PTPParams where
  transactionId : BitVec 32 := 0
  sessionId : BitVec 32 := 0
  deriving DecidableEq, Repr

/-- The container of the next transaction. -/
def PTPParams.stamp (params : PTPParams) (ptp : PTPContainer) : PTPContainer :=
  { ptp with transactionId := params.transactionId, sessionId := params.sessionId }

/-- `transaction_id++` -/
def PTPParams.next (params : PTPParams) : PTPParams :=
  { params with transactionId := params.transactionId + 1 }

/-- The flags of a transaction, and the data that is sent. -/
inductive DataPhase
  | nodata
  | senddata (data : List Byte)
  | getdata
  deriving DecidableEq, Repr

/-- The data that is sent, if there is any to send. -/
def DataPhase.sent : DataPhase → Option (List Byte)
  | .senddata data => some data
  | .nodata | .getdata => none

/-- A transaction that is to be run. -/
structure Call where
  code : BitVec 16
  params : List (BitVec 32)
  few : params.length ≤ 5
  phase : DataPhase

namespace Call

/-- `PTP_CNT_INIT`, and what the caller fills in. -/
def container (call : Call) : PTPContainer where
  code := call.code
  param i := call.params.getD i 0
  nparam := ⟨call.params.length, Nat.lt_succ_of_le call.few⟩

@[simp] theorem sentParams_container (call : Call) : call.container.sentParams = call.params := by
  have hlength := call.container.length_sentParams
  apply List.ext_getElem hlength
  intro i hi hi'
  simp only [PTPContainer.sentParams, container, List.getElem_take, List.getElem_ofFn]
  exact List.getD_eq_getElem _ _ hi'

end Call

/-- A response of the device. -/
structure PtpResponse where
  code : BitVec 16
  transactionId : BitVec 32
  params : List (BitVec 32)
  few : params.length ≤ 5

/-- What comes of a transaction. -/
structure Completed (σ : Type) where
  ret : BitVec 16
  ptp : PTPContainer
  data : List Byte
  params : PTPParams
  state : σ

section transaction

variable {σ : Type} (t : Transport σ)

/-- The loop that gets the response: `tries` rounds, of which those with an old response or with
something else than a response do not count. -/
def responseLoop (cmd : BitVec 16) (id : BitVec 32) (tries : ℕ) (ptp : PTPContainer) (s : σ) :
    Option (BitVec 16 × PTPContainer × σ) :=
  match tries with
  | 0 => some (ptp.code, ptp, s)
  | tries + 1 =>
    match _h : t.getresp ptp s with
    | none => none
    | some (ret, ptp, s') =>
      if _hret : ret = PTP_ERROR_RESP_EXPECTED then responseLoop cmd id (tries + 1) ptp s'
      else if _hok : ret ≠ PTP_RC_OK then some (ret, ptp, s')
      else if ptp.transactionId < id then responseLoop cmd id (tries + 1) ptp s'
      else if ptp.transactionId ≠ id then
        -- what is left of an earlier session
        if cmd = PTP_OC_OpenSession ∧ tries ≠ 0 then responseLoop cmd id tries ptp s'
        else some (PTP_ERROR_BADPARAM, ptp, s')
      else some (ptp.code, ptp, s')
termination_by t.unread s
decreasing_by
  · exact t.getresp_lt _h (Or.inr _hret)
  · exact t.getresp_lt _h (Or.inl (not_not.mp _hok))
  · exact t.getresp_lt _h (Or.inl (not_not.mp _hok))

/-- A data phase that has been cancelled here is cancelled on the device as well. -/
def cancelled (id : BitVec 32) (ret : BitVec 16) (s : σ) : Option (BitVec 16 × σ) :=
  if ret = PTP_ERROR_CANCEL then
    (t.cancelreq id s).map fun (ret, s) =>
      (if ret = PTP_RC_OK then PTP_ERROR_CANCEL else ret, s)
  else some (ret, s)

/-- The data phase: what it returns, and the data it gets. -/
def dataPhase (ptp : PTPContainer) (phase : DataPhase) (s : σ) :
    Option (BitVec 16 × List Byte × σ) :=
  match phase with
  | .nodata => some (PTP_RC_OK, [], s)
  | .senddata data => do
    let (ret, s) := t.senddata ptp data s
    let (ret, s) ← cancelled t ptp.transactionId ret s
    some (ret, [], s)
  | .getdata => do
    let (ret, data, s) ← t.getdata ptp s
    let (ret, s) ← cancelled t ptp.transactionId ret s
    some (ret, data, s)

/-- `ptp_transaction_new`, with the handlers of `ptp_transaction`. -/
def ptpTransaction (params : PTPParams) (ptp : PTPContainer) (phase : DataPhase) (s : σ) :
    Option (Completed σ) :=
  let cmd := ptp.code
  let ptp := params.stamp ptp
  let (ret, s) := t.sendreq ptp s
  if ret ≠ PTP_RC_OK then some ⟨ret, ptp, [], params.next, s⟩
  else do
    let (ret, data, s) ← dataPhase t ptp phase s
    if ret ≠ PTP_RC_OK then some ⟨ret, ptp, data, params.next, s⟩
    else
      let (ret, ptp, s) ← responseLoop t cmd params.transactionId 3 ptp s
      some ⟨ret, ptp, data, params.next, s⟩

/-- `ptp_opensession` -/
def ptpOpensession (session : BitVec 32) (s : σ) : Option (Completed σ) :=
  let ptp : PTPContainer :=
    { code := PTP_OC_OpenSession, param := fun i => if i = 0 then session else 0, nparam := 1 }
  (ptpTransaction t {} ptp .nodata (t.reset s)).map fun r =>
    { r with params := { r.params with sessionId := session } }

/-- `ptp_closesession` -/
def ptpClosesession (params : PTPParams) (s : σ) : Option (Completed σ) :=
  ptpTransaction t params { code := PTP_OC_CloseSession } .nodata s

/-- Transactions one after the other: what each returns, and the data it gets. A result that is an
error does not stop the next one. -/
def runCalls : List Call → PTPParams → σ → Option (List (BitVec 16 × List Byte) × PTPParams × σ)
  | [], params, s => some ([], params, s)
  | call :: calls, params, s => do
    let c ← ptpTransaction t params call.container call.phase s
    let (results, params, s) ← runCalls calls c.params c.state
    some ((c.ret, c.data) :: results, params, s)

variable {t} {cmd : BitVec 16} {id : BitVec 32} {tries : ℕ} {ptp ptp' : PTPContainer}
  {s s' s₁ s₂ : σ} {ret : BitVec 16}

@[simp] theorem dataPhase_nodata (t : Transport σ) (ptp : PTPContainer) (s : σ) :
    dataPhase t ptp .nodata s = some (PTP_RC_OK, [], s) := rfl

theorem cancelled_not (s : σ) (h : ret ≠ PTP_ERROR_CANCEL) :
    cancelled t id ret s = some (ret, s) := by
  rw [cancelled, if_neg h]

theorem dataPhase_senddata {data : List Byte} (h : t.senddata ptp data s = (ret, s'))
    (hcancel : ret ≠ PTP_ERROR_CANCEL) :
    dataPhase t ptp (.senddata data) s = some (ret, [], s') := by
  simp only [dataPhase, h, cancelled_not s' hcancel, Option.bind_eq_bind, Option.bind_some]

theorem dataPhase_getdata {data : List Byte} (h : t.getdata ptp s = some (ret, data, s'))
    (hcancel : ret ≠ PTP_ERROR_CANCEL) :
    dataPhase t ptp .getdata s = some (ret, data, s') := by
  simp only [dataPhase, h, cancelled_not s' hcancel, Option.bind_eq_bind, Option.bind_some]

theorem ptpTransaction_response {params : PTPParams} {phase : DataPhase} {data : List Byte}
    (hsend : t.sendreq (params.stamp ptp) s = (PTP_RC_OK, s₁))
    (hphase : dataPhase t (params.stamp ptp) phase s₁ = some (PTP_RC_OK, data, s₂))
    (hloop : responseLoop t ptp.code params.transactionId 3 (params.stamp ptp) s₂ =
      some (ret, ptp', s')) :
    ptpTransaction t params ptp phase s = some ⟨ret, ptp', data, params.next, s'⟩ := by
  simp only [ptpTransaction, hsend]
  rw [if_neg (not_not.mpr rfl), hphase, Option.bind_eq_bind, Option.bind_some,
    if_neg (not_not.mpr rfl), hloop, Option.bind_eq_bind, Option.bind_some]

theorem ptpTransaction_eq_some {params : PTPParams} {phase : DataPhase} {c : Completed σ}
    (hsend : t.sendreq (params.stamp ptp) s = (PTP_RC_OK, s₁))
    (h : ptpTransaction t params ptp phase s = some c) :
    ∃ ret data s₂, dataPhase t (params.stamp ptp) phase s₁ = some (ret, data, s₂) ∧
      (ret ≠ PTP_RC_OK ∧ c = ⟨ret, params.stamp ptp, data, params.next, s₂⟩ ∨
        ret = PTP_RC_OK ∧ ∃ ret' ptp' s',
          responseLoop t ptp.code params.transactionId 3 (params.stamp ptp) s₂ =
            some (ret', ptp', s') ∧ c = ⟨ret', ptp', data, params.next, s'⟩) := by
  simp only [ptpTransaction, hsend] at h
  rw [if_neg (not_not.mpr rfl)] at h
  obtain ⟨⟨ret, data, s₂⟩, hphase, h⟩ := Option.bind_eq_some_iff.mp h
  refine ⟨ret, data, s₂, hphase, ?_⟩
  dsimp only at h
  split at h
  · rename_i hne
    exact Or.inl ⟨hne, (Option.some.inj h).symm⟩
  · rename_i hok
    obtain ⟨⟨ret', ptp', s'⟩, hloop, h⟩ := Option.bind_eq_some_iff.mp h
    exact Or.inr ⟨not_not.mp hok, ret', ptp', s', hloop, (Option.some.inj h).symm⟩

theorem responseLoop_succ (cmd : BitVec 16) (id : BitVec 32) (tries : ℕ)
    (h : t.getresp ptp s = some (ret, ptp', s')) :
    responseLoop t cmd id (tries + 1) ptp s =
      if ret = PTP_ERROR_RESP_EXPECTED then responseLoop t cmd id (tries + 1) ptp' s'
      else if ret ≠ PTP_RC_OK then some (ret, ptp', s')
      else if ptp'.transactionId < id then responseLoop t cmd id (tries + 1) ptp' s'
      else if ptp'.transactionId ≠ id then
        if cmd = PTP_OC_OpenSession ∧ tries ≠ 0 then responseLoop t cmd id tries ptp' s'
        else some (PTP_ERROR_BADPARAM, ptp', s')
      else some (ptp'.code, ptp', s') := by
  rw [responseLoop]
  split
  · rename_i hnone
    rw [h] at hnone
    simp at hnone
  · rename_i hsome
    rw [h] at hsome
    obtain ⟨rfl, hrest⟩ := Prod.mk.inj (Option.some.inj hsome)
    obtain ⟨rfl, rfl⟩ := Prod.mk.inj hrest
    rfl

theorem responseLoop_old (cmd : BitVec 16) (tries : ℕ)
    (h : t.getresp ptp s = some (PTP_RC_OK, ptp', s')) (hold : ptp'.transactionId < id) :
    responseLoop t cmd id (tries + 1) ptp s = responseLoop t cmd id (tries + 1) ptp' s' := by
  rw [responseLoop_succ cmd id tries h, if_neg (by decide), if_neg (by decide), if_pos hold]

theorem responseLoop_own (cmd : BitVec 16) (tries : ℕ)
    (h : t.getresp ptp s = some (PTP_RC_OK, ptp', s')) (hown : ptp'.transactionId = id) :
    responseLoop t cmd id (tries + 1) ptp s = some (ptp'.code, ptp', s') := by
  have hlt : ¬ ptp'.transactionId < id := by rw [hown]; exact BitVec.lt_irrefl _
  rw [responseLoop_succ cmd id tries h, if_neg (by decide), if_neg (by decide), if_neg hlt,
    if_neg (not_not.mpr hown)]

/-- The response of an earlier session, which only `PTP_OC_OpenSession` puts up with, and only as
long as it has tries. -/
theorem responseLoop_later (h : t.getresp ptp s = some (PTP_RC_OK, ptp', s'))
    (hlater : id < ptp'.transactionId) :
    responseLoop t cmd id (tries + 1) ptp s =
      if cmd = PTP_OC_OpenSession ∧ tries ≠ 0 then responseLoop t cmd id tries ptp' s'
      else some (PTP_ERROR_BADPARAM, ptp', s') := by
  have hlt : ¬ ptp'.transactionId < id := BitVec.not_lt.mpr (BitVec.le_of_lt hlater)
  have hne : ptp'.transactionId ≠ id := fun heq => BitVec.lt_irrefl id (heq ▸ hlater)
  rw [responseLoop_succ cmd id tries h, if_neg (by decide), if_neg (by decide), if_neg hlt,
    if_pos hne]

/-- Where the result of the loop comes from: the response with the right id, one that should not
be there yet, or an error of the function that gets it. `P` is what getting a response keeps. -/
theorem responseLoop_eq_some {P : σ → Prop} (htries : tries ≠ 0) (hP : P s)
    (hstep : ∀ {ptp s ret ptp' s'}, P s → t.getresp ptp s = some (ret, ptp', s') → P s')
    (h : responseLoop t cmd id tries ptp s = some (ret, ptp', s')) :
    ∃ ptp₁ s₁ got, P s₁ ∧ t.getresp ptp₁ s₁ = some (got, ptp', s') ∧
      (got = PTP_RC_OK ∧ ptp'.transactionId = id ∧ ret = ptp'.code ∨
        got = PTP_RC_OK ∧ id < ptp'.transactionId ∧ ret = PTP_ERROR_BADPARAM ∨
        got ≠ PTP_RC_OK ∧ ret = got) := by
  obtain ⟨n, hn⟩ : ∃ n, t.unread s = n := ⟨_, rfl⟩
  induction n using Nat.strong_induction_on generalizing tries ptp s with
  | _ n ih =>
    obtain ⟨tries, rfl⟩ := Nat.exists_eq_succ_of_ne_zero htries
    rcases hget : t.getresp ptp s with _ | ⟨got, ptp₁, s₁⟩
    · rw [responseLoop] at h
      split at h
      · simp at h
      · rename_i hsome
        rw [hget] at hsome
        simp at hsome
    have hP₁ := hstep hP hget
    rw [responseLoop_succ cmd id tries hget] at h
    split_ifs at h with hexpected hok hold hne hopen
    · exact ih _ (hn ▸ t.getresp_lt hget (Or.inr hexpected)) (Nat.succ_ne_zero _) hP₁ h rfl
    · obtain ⟨rfl, hrest⟩ := Prod.mk.inj (Option.some.inj h)
      obtain ⟨rfl, rfl⟩ := Prod.mk.inj hrest
      exact ⟨ptp, s, got, hP, hget, Or.inr (Or.inr ⟨hok, rfl⟩)⟩
    · exact ih _ (hn ▸ t.getresp_lt hget (Or.inl (not_not.mp hok))) (Nat.succ_ne_zero _) hP₁ h rfl
    · exact ih _ (hn ▸ t.getresp_lt hget (Or.inl (not_not.mp hok))) hopen.2 hP₁ h rfl
    · obtain ⟨rfl, hrest⟩ := Prod.mk.inj (Option.some.inj h)
      obtain ⟨rfl, rfl⟩ := Prod.mk.inj hrest
      have hlater := BitVec.lt_of_le_ne (BitVec.not_lt.mp hold) (Ne.symm hne)
      exact ⟨ptp, s, got, hP, hget, Or.inr (Or.inl ⟨not_not.mp hok, hlater, rfl⟩)⟩
    · obtain ⟨rfl, hrest⟩ := Prod.mk.inj (Option.some.inj h)
      obtain ⟨rfl, rfl⟩ := Prod.mk.inj hrest
      exact ⟨ptp, s, got, hP, hget, Or.inl ⟨not_not.mp hok, not_not.mp hne, rfl⟩⟩

theorem responseLoop_none (cmd : BitVec 16) (id : BitVec 32) (tries : ℕ)
    (h : t.getresp ptp s = none) : responseLoop t cmd id (tries + 1) ptp s = none := by
  rw [responseLoop]
  split
  · rfl
  · rename_i hsome
    rw [h] at hsome
    simp at hsome

end transaction

/-- What a device answers to a call: its data, and the code and the parameters of its response. -/
structure CallReply where
  code : BitVec 16
  data : List Byte := []
  params : List (BitVec 32) := []
  deriving DecidableEq, Repr

def CallReply.result (reply : CallReply) : BitVec 16 × List Byte := (reply.code, reply.data)

/-- If all is well, a container has the parameters of the response. -/
def CallReply.Fills (reply : CallReply) (ptp : PTPContainer) : Prop :=
  reply.code = PTP_RC_OK →
    ∀ i : Fin 5, i.val < reply.params.length → ptp.param i = reply.params.getD i 0

/-- A device that answers each call in turn, where `answers` says what it sends to answer one. -/
inductive Conversation {α : Type}
    (answers : BitVec 32 → Call → CallReply → List α → Prop) :
    BitVec 32 → List Call → List CallReply → List α → Prop
  | nil {id : BitVec 32} : Conversation answers id [] [] []
  | cons {id : BitVec 32} {call : Call} {calls : List Call} {reply : CallReply}
      {replies : List CallReply} {xs rest : List α} (h : answers id call reply xs)
      (hrest : Conversation answers (id + 1) calls replies rest) :
      Conversation answers id (call :: calls) (reply :: replies) (xs ++ rest)

theorem Call.next_add (id : BitVec 32) (n : ℕ) :
    id + 1 + BitVec.ofNat 32 n = id + BitVec.ofNat 32 (n + 1) := by
  rw [BitVec.add_assoc, BitVec.ofNat_add, BitVec.add_comm (BitVec.ofNat 32 n)]
  rfl

/-- If every call that is answered returns the answer, reads no more than that, and keeps `Inv`,
then so do calls one after the other. What `Wrote` says about one call it has to say about all. -/
theorem Conversation.runCalls {α σ : Type} {t : Transport σ} {unread : σ → List α} {Inv : σ → Prop}
    {Ok : Call → Prop} {answers : BitVec 32 → Call → CallReply → List α → Prop}
    {Wrote : BitVec 32 → List Call → List CallReply → σ → σ → Prop}
    (hstep : ∀ {params call reply xs rest s}, Ok call → answers params.transactionId call reply xs →
      Inv s → unread s = xs ++ rest →
      ∃ c, ptpTransaction t params call.container call.phase s = some c ∧ c.ret = reply.code ∧
        c.data = reply.data ∧ c.params = params.next ∧ Inv c.state ∧ unread c.state = rest ∧
        ∀ {calls replies s'}, Wrote (params.transactionId + 1) calls replies c.state s' →
          Wrote params.transactionId (call :: calls) (reply :: replies) s s')
    (hnil : ∀ id s, Wrote id [] [] s s) {params : PTPParams} {calls : List Call}
    {replies : List CallReply} {xs rest : List α} {s : σ}
    (hok : ∀ call ∈ calls, Ok call)
    (hconversation : Conversation answers params.transactionId calls replies xs) (hinv : Inv s)
    (h : unread s = xs ++ rest) :
    ∃ params' s', VitaMTP.runCalls t calls params s =
        some (replies.map CallReply.result, params', s') ∧
      params' = { params with
        transactionId := params.transactionId + BitVec.ofNat 32 calls.length } ∧
      Wrote params.transactionId calls replies s s' ∧ Inv s' ∧ unread s' = rest := by
  obtain ⟨id, hid⟩ : ∃ id, params.transactionId = id := ⟨_, rfl⟩
  rw [hid] at hconversation ⊢
  induction hconversation generalizing params s with
  | nil =>
    refine ⟨params, s, rfl, ?_, hnil _ s, hinv, h⟩
    rw [List.length_nil, ← hid, BitVec.add_zero]
  | @cons id call calls reply replies xs more hanswer _ ih =>
    rw [List.append_assoc] at h
    subst hid
    obtain ⟨c, hcall, hret, hdata, hparams, hinv₁, h₁, hwrote⟩ :=
      hstep (hok call List.mem_cons_self) hanswer hinv h
    have hnext : c.params.transactionId = params.transactionId + 1 := by
      rw [hparams]
      rfl
    obtain ⟨params', s', hrun, hparams', hwrote', hinv', h'⟩ :=
      ih (fun call hmem => hok call (List.mem_cons_of_mem _ hmem)) hinv₁ h₁ hnext
    refine ⟨params', s', ?_, ?_, hwrote hwrote', hinv', h'⟩
    · simp only [VitaMTP.runCalls, hcall, hrun, hret, hdata, Option.bind_eq_bind, Option.bind_some,
        List.map_cons, CallReply.result]
    · rw [hparams', Call.next_add, hparams]
      rfl

def openSession (session : BitVec 32) : Call where
  code := PTP_OC_OpenSession
  params := [session]
  few := few_one session
  phase := .nodata

def closeSession : Call where
  code := PTP_OC_CloseSession
  params := []
  few := few_nil
  phase := .nodata

theorem openSession_container (session : BitVec 32) :
    (openSession session).container =
      { code := PTP_OC_OpenSession, param := fun i => if i = 0 then session else 0, nparam := 1 } := by
  have hparam : (openSession session).container.param = fun i => if i = 0 then session else 0 := by
    funext i
    cases i using Fin.cases with
    | zero => rfl
    | succ i => rw [if_neg (Fin.succ_ne_zero i)]; rfl
  rw [← hparam]
  rfl

theorem ptpOpensession_eq {σ : Type} (t : Transport σ) (session : BitVec 32) (s : σ) :
    ptpOpensession t session s =
      (ptpTransaction t {} (openSession session).container .nodata (t.reset s)).map fun r =>
        { r with params := { r.params with sessionId := session } } := by
  rw [ptpOpensession, openSession_container]

theorem ptpClosesession_eq {σ : Type} (t : Transport σ) (params : PTPParams) (s : σ) :
    ptpClosesession t params s = ptpTransaction t params closeSession.container .nodata s := by
  have hcontainer : closeSession.container = { code := PTP_OC_CloseSession } := by
    have hparam : closeSession.container.param = fun _ => 0 := funext fun _ => rfl
    rw [show closeSession.container =
      { closeSession.container with param := closeSession.container.param } from rfl, hparam]
    rfl
  rw [ptpClosesession, hcontainer]

theorem rel_bind {α β γ δ : Type*} {r : α → β → Prop} {q : γ → δ → Prop} {x : Option α}
    {y : Option β} {f : α → Option γ} {g : β → Option δ} (h : Option.Rel r x y)
    (hnext : ∀ a b, r a b → Option.Rel q (f a) (g b)) : Option.Rel q (x.bind f) (y.bind g) := by
  cases h with
  | none => exact .none
  | some hr => exact hnext _ _ hr

section simulation

variable {σ τ : Type} {t : Transport σ} {t' : Transport τ} {R : σ → τ → Prop}

/-- The same result, and states that belong together. -/
def Same {ρ : Type} (R : σ → τ → Prop) (a : ρ × σ) (b : ρ × τ) : Prop := a.1 = b.1 ∧ R a.2 b.2

def Same₂ {ρ ρ' : Type} (R : σ → τ → Prop) (a : ρ × ρ' × σ) (b : ρ × ρ' × τ) : Prop :=
  a.1 = b.1 ∧ Same R a.2 b.2

/-- From states that belong together, every function does the same and leaves such states. -/
structure Transport.Simulates (t : Transport σ) (t' : Transport τ) (R : σ → τ → Prop) : Prop where
  sendreq : ∀ ptp {s s'}, R s s' → Same R (t.sendreq ptp s) (t'.sendreq ptp s')
  senddata : ∀ ptp data {s s'}, R s s' → Same R (t.senddata ptp data s) (t'.senddata ptp data s')
  getdata : ∀ ptp {s s'}, R s s' → Option.Rel (Same₂ R) (t.getdata ptp s) (t'.getdata ptp s')
  getresp : ∀ resp {s s'}, R s s' → Option.Rel (Same₂ R) (t.getresp resp s) (t'.getresp resp s')
  cancelreq : ∀ id {s s'}, R s s' → Option.Rel (Same R) (t.cancelreq id s) (t'.cancelreq id s')

namespace Transport.Simulates

variable {params : PTPParams} {ptp : PTPContainer} {s : σ} {s' : τ}

theorem cancelled (h : t.Simulates t' R) (id : BitVec 32) (ret : BitVec 16) (hR : R s s') :
    Option.Rel (Same R) (cancelled t id ret s) (cancelled t' id ret s') := by
  unfold VitaMTP.cancelled
  split
  · rw [Option.map_eq_bind, Option.map_eq_bind]
    apply rel_bind (h.cancelreq id hR)
    rintro ⟨ret, s⟩ ⟨ret', s'⟩ ⟨rfl, hR⟩
    exact .some ⟨rfl, hR⟩
  · exact .some ⟨rfl, hR⟩

theorem dataPhase (h : t.Simulates t' R) (ptp : PTPContainer) (phase : DataPhase) (hR : R s s') :
    Option.Rel (Same₂ R) (dataPhase t ptp phase s) (dataPhase t' ptp phase s') := by
  cases phase with
  | nodata => exact .some ⟨rfl, rfl, hR⟩
  | senddata data =>
    obtain ⟨hret, hR₁⟩ := h.senddata ptp data hR
    simp only [VitaMTP.dataPhase, hret]
    apply rel_bind (h.cancelled _ _ hR₁)
    rintro ⟨ret, s⟩ ⟨ret', s'⟩ ⟨rfl, hR⟩
    exact .some ⟨rfl, rfl, hR⟩
  | getdata =>
    apply rel_bind (h.getdata ptp hR)
    rintro ⟨ret, data, s⟩ ⟨ret', data', s'⟩ ⟨rfl, rfl, hR₁⟩
    apply rel_bind (h.cancelled _ _ hR₁)
    rintro ⟨ret, s⟩ ⟨ret', s'⟩ ⟨rfl, hR⟩
    exact .some ⟨rfl, rfl, hR⟩

theorem responseLoop (h : t.Simulates t' R) (cmd : BitVec 16) (id : BitVec 32) (tries : ℕ)
    (ptp : PTPContainer) (hR : R s s') :
    Option.Rel (Same₂ R) (responseLoop t cmd id tries ptp s)
      (responseLoop t' cmd id tries ptp s') := by
  obtain ⟨n, hn⟩ : ∃ n, t.unread s = n := ⟨_, rfl⟩
  induction n using Nat.strong_induction_on generalizing tries ptp s s' with
  | _ n ih =>
    cases tries with
    | zero =>
      rw [VitaMTP.responseLoop, VitaMTP.responseLoop]
      exact .some ⟨rfl, rfl, hR⟩
    | succ tries =>
      have hget := h.getresp ptp hR
      rcases hs : t.getresp ptp s with _ | ⟨ret, ptp₁, s₁⟩
      · rcases hs' : t'.getresp ptp s' with _ | ⟨ret', ptp₁', s₁'⟩
        · rw [responseLoop_none cmd id tries hs, responseLoop_none cmd id tries hs']
          exact .none
        · rw [hs, hs'] at hget
          exact nomatch hget
      rcases hs' : t'.getresp ptp s' with _ | ⟨ret', ptp₁', s₁'⟩
      · rw [hs, hs'] at hget
        exact nomatch hget
      rw [hs, hs'] at hget
      cases hget with
      | some hsame =>
        obtain ⟨rfl, rfl, hR₁⟩ := hsame
        have hlt := fun hret => hn ▸ t.getresp_lt hs hret
        rw [responseLoop_succ cmd id tries hs, responseLoop_succ cmd id tries hs']
        dsimp only at hR₁ ⊢
        split_ifs with hexpected hok hold hne hopen
        · exact ih _ (hlt (Or.inr hexpected)) _ _ hR₁ rfl
        · exact .some ⟨rfl, rfl, hR₁⟩
        · exact ih _ (hlt (Or.inl (not_not.mp hok))) _ _ hR₁ rfl
        · exact ih _ (hlt (Or.inl (not_not.mp hok))) _ _ hR₁ rfl
        · exact .some ⟨rfl, rfl, hR₁⟩
        · exact .some ⟨rfl, rfl, hR₁⟩

def SameCompleted (R : σ → τ → Prop) (c : Completed σ) (c' : Completed τ) : Prop :=
  c.ret = c'.ret ∧ c.ptp = c'.ptp ∧ c.data = c'.data ∧ c.params = c'.params ∧ R c.state c'.state

theorem ptpTransaction (h : t.Simulates t' R) (params : PTPParams) (ptp : PTPContainer)
    (phase : DataPhase) (hR : R s s') :
    Option.Rel (SameCompleted R) (ptpTransaction t params ptp phase s)
      (ptpTransaction t' params ptp phase s') := by
  obtain ⟨hret, hR₁⟩ := h.sendreq (params.stamp ptp) hR
  simp only [VitaMTP.ptpTransaction, hret]
  split
  · exact .some ⟨rfl, rfl, rfl, rfl, hR₁⟩
  apply rel_bind (h.dataPhase _ phase hR₁)
  rintro ⟨ret, data, s₂⟩ ⟨ret', data', s₂'⟩ ⟨rfl, rfl, hR₂⟩
  dsimp only at hR₂ ⊢
  split
  · exact .some ⟨rfl, rfl, rfl, rfl, hR₂⟩
  apply rel_bind (h.responseLoop _ _ _ _ hR₂)
  rintro ⟨ret, ptp, s₃⟩ ⟨ret', ptp', s₃'⟩ ⟨rfl, rfl, hR₃⟩
  exact .some ⟨rfl, rfl, rfl, rfl, hR₃⟩

theorem runCalls (h : t.Simulates t' R) (calls : List Call) (params : PTPParams) (hR : R s s') :
    Option.Rel (Same₂ R) (runCalls t calls params s) (runCalls t' calls params s') := by
  induction calls generalizing params s s' with
  | nil => exact .some ⟨rfl, rfl, hR⟩
  | cons call calls ih =>
    apply rel_bind (h.ptpTransaction params call.container call.phase hR)
    rintro c c' ⟨hret, -, hdata, hparams, hR₁⟩
    rw [hret, hdata, hparams]
    apply rel_bind (ih c'.params hR₁)
    rintro ⟨results, params, s⟩ ⟨results', params', s'⟩ ⟨rfl, rfl, hR⟩
    exact .some ⟨rfl, rfl, hR⟩

end Transport.Simulates

end simulation

end VitaMTP
