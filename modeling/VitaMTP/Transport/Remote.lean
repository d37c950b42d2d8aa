import VitaMTP.Library.Dialogue
import VitaMTP.Transport.UsbSession

/-! Programs that are dialogues with a device, over any transport. -/
namespace VitaMTP
open Dialogues Pieces

/-- A transaction of a program, and whether it reads the parameters of the response. -/
structure Query where
  call : Call
  handles : Bool := false

/-- What a program gets of a transaction. -/
structure Answer where
  ret : BitVec 16
  data : List Byte := []
  /-- the first three parameters, if they are read and all is well -/
  handles : Option (BitVec 32 × BitVec 32 × BitVec 32) := none
  deriving DecidableEq, Repr

abbrev Remote : Type → Type := Dialogue Query Answer

/-- A transaction of a program, over a transport. -/
def remoteStep {σ : Type} (t : Transport σ) (q : Query) (s : PTPParams × σ) :
    Option (Answer × (PTPParams × σ)) :=
  (ptpTransaction t s.1 q.call.container q.call.phase s.2).map fun c =>
    ({ ret := c.ret
       data := c.data
       handles :=
        if q.handles ∧ c.ret = PTP_RC_OK then
          some (c.ptp.param 0, c.ptp.param 1, c.ptp.param 2)
        else none }, (c.params, c.state))

def Remote.over {σ R : Type} (t : Transport σ) (d : Remote R) (params : PTPParams) (s : σ) :
    Option (R × PTPParams × σ) :=
  d.run (remoteStep t) (params, s)

/-- A transport gives what the device has answered: `answers` says what it sends, and `unread` is
what is still to be read. -/
structure Transport.Serves {α σ : Type} (t : Transport σ) (unread : σ → List α) (Inv : σ → Prop)
    (Ok : Call → Prop) (answers : BitVec 32 → Call → CallReply → List α → Prop) : Prop where
  answered : ∀ {params call reply xs rest s}, Ok call → answers params.transactionId call reply xs →
    Inv s → unread s = xs ++ rest →
    ∃ c, ptpTransaction t params call.container call.phase s = some c ∧ c.ret = reply.code ∧
      c.data = reply.data ∧ reply.Fills c.ptp ∧ c.params = params.next ∧ Inv c.state ∧
      unread c.state = rest

theorem ptpip_serves {socket : Socket} (hopen : socket.Open) :
    (ptpip socket).Serves (fun s => content s.cmd) (fun _ => True) (fun _ => True) Answers where
  answered := by
    intro params call reply bytes rest s _ hanswer _ h
    obtain ⟨c, hcall, hret, hdata, hfills, hparams, -, hrest⟩ :=
      ptpTransaction_answered hopen hanswer h
    exact ⟨c, hcall, hret, hdata, hfills, hparams, trivial, hrest⟩

theorem usb_serves {pipes : UsbPipes} (splits : Bool) (hregular : pipes.Regular)
    (hwhole : pipes.Whole) :
    (usb pipes).Serves UsbLink.incoming (UsbLink.Ready splits) Call.Sized
      (UsbAnswers pipes splits) where
  answered := by
    intro params call reply incoming rest link hsized hanswer hready h
    obtain ⟨c, hcall, hret, hdata, hfills, hparams, hready', hrest, -⟩ :=
      ptpTransaction_usb_answered hregular hwhole hready hsized hanswer h
    exact ⟨c, hcall, hret, hdata, hfills, hparams, hready', hrest⟩

/-- A reply of the device is the answer that a program gets. -/
structure Delivers (q : Query) (a : Answer) (reply : CallReply) : Prop where
  ret : reply.code = a.ret
  data : reply.data = a.data
  handles : if q.handles ∧ a.ret = PTP_RC_OK then
      ∃ x y z more, reply.params = x :: y :: z :: more ∧ a.handles = some (x, y, z)
    else a.handles = none

section serving

variable {α σ R : Type} {t : Transport σ} {unread : σ → List α} {Inv : σ → Prop} {Ok : Call → Prop}
  {answers : BitVec 32 → Call → CallReply → List α → Prop} {rest : List α}

/-- The answers to a program are what is to be read next. -/
def Holds (unread : σ → List α) (Inv : σ → Prop) (Ok : Call → Prop)
    (answers : BitVec 32 → Call → CallReply → List α → Prop) (rest : List α)
    (l : List (Query × Answer)) (s : PTPParams × σ) : Prop :=
  ∃ replies xs, List.Forall₂ (fun qa reply => Delivers qa.1 qa.2 reply) l replies ∧
    Conversation answers s.1.transactionId (l.map fun qa => qa.1.call) replies xs ∧
    (∀ qa ∈ l, Ok qa.1.call) ∧ Inv s.2 ∧ unread s.2 = xs ++ rest

/-- The handles of an answer are the parameters of a container that has those of the response. -/
theorem Delivers.answer_eq {q : Query} {a : Answer} {reply : CallReply} (h : Delivers q a reply)
    {c : Completed σ} (hret : c.ret = reply.code) (hdata : c.data = reply.data)
    (hfills : reply.Fills c.ptp) :
    ({ ret := c.ret
       data := c.data
       handles :=
        if q.handles ∧ c.ret = PTP_RC_OK then
          some (c.ptp.param 0, c.ptp.param 1, c.ptp.param 2)
        else none } : Answer) = a := by
  have hcode : c.ret = a.ret := hret.trans h.ret
  have hhandles := h.handles
  rw [hcode, hdata.trans h.data, Answer.mk.injEq]
  refine ⟨rfl, rfl, ?_⟩
  by_cases hread : q.handles ∧ a.ret = PTP_RC_OK
  · rw [if_pos hread] at hhandles
    obtain ⟨x, y, z, more, hparams, htriple⟩ := hhandles
    have hfill (i : Fin 5) (hi : i.val < 3) : c.ptp.param i = reply.params.getD i 0 := by
      apply hfills (h.ret.trans hread.2) i
      rw [hparams]
      exact hi.trans_le (Nat.le_add_left 3 more.length)
    rw [if_pos hread, htriple, hfill 0 (by decide), hfill 1 (by decide), hfill 2 (by decide),
      hparams]
    rfl
  · rw [if_neg hread] at hhandles ⊢
    exact hhandles.symm

theorem Transport.Serves.remoteStep (h : t.Serves unread Inv Ok answers) {q : Query} {a : Answer}
    {l : List (Query × Answer)} {s : PTPParams × σ}
    (hholds : Holds unread Inv Ok answers rest ((q, a) :: l) s) :
    ∃ s', remoteStep t q s = some (a, s') ∧ Holds unread Inv Ok answers rest l s' := by
  obtain ⟨replies, xs, hdelivers, hconversation, hok, hinv, hunread⟩ := hholds
  cases hdelivers with
  | @cons _ reply _ replies hdeliver hdelivers =>
    cases hconversation with
    | @cons _ _ _ _ _ xs more hanswer hconversation =>
      rw [List.append_assoc] at hunread
      obtain ⟨c, hcall, hret, hdata, hfills, hparams, hinv', hrest⟩ :=
        h.answered (hok _ List.mem_cons_self) hanswer hinv hunread
      refine ⟨(c.params, c.state), ?_, replies, more, hdelivers, ?_, ?_, hinv', hrest⟩
      · rw [VitaMTP.remoteStep, hcall, Option.map_some, hdeliver.answer_eq hret hdata hfills]
      · rw [hparams]
        exact hconversation
      · exact fun qa hmem => hok qa (List.mem_cons_of_mem _ hmem)

/-- A program over a transport does what it does with the answers themselves, and reads them and
nothing else. -/
theorem Transport.Serves.over (h : t.Serves unread Inv Ok answers) {d : Remote R}
    {l more : List (Query × Answer)} {r : R} (hpath : d.Path l r) {params : PTPParams} {s : σ}
    (hholds : Holds unread Inv Ok answers rest (l ++ more) (params, s)) :
    ∃ params' s', Remote.over t d params s = some (r, params', s') ∧
      Holds unread Inv Ok answers rest more (params', s') := by
  obtain ⟨⟨params', s'⟩, hrun, hmore⟩ := @Dialogue.Path.run Query Answer R (PTPParams × σ)
    (VitaMTP.remoteStep t) d l r (Holds unread Inv Ok answers rest)
    (fun {_ _ _ _} hholds => h.remoteStep hholds) hpath more (params, s) hholds
  exact ⟨params', s', hrun, hmore⟩

end serving

def Query.Reads (q : Query) : Prop := q.call.phase = .getdata

theorem ok_ne_respExpected : PTP_RC_OK ≠ PTP_ERROR_RESP_EXPECTED := by decide

/-- A transaction that gets as much data as can be announced. -/
structure GetsData (qa : Query × Answer) : Prop where
  reads : qa.1.Reads
  handles : qa.1.handles = false ∧ qa.2.handles = none
  code : qa.2.ret ≠ PTP_ERROR_RESP_EXPECTED
  small : 12 + qa.2.data.length < 0xffffffff

def dataBytes (id : BitVec 32) (a : Answer) : List Byte :=
  packet PTPIP_START_DATA_PACKET (htod32a id ++ htod32a (BitVec.ofNat 32 a.data.length)) ++
    dataPackets id a.data ++ PtpResponse.bytes
      { code := a.ret, transactionId := id, params := [], few := few_nil }

theorem GetsData.answers {qa : Query × Answer} (h : GetsData qa) (id : BitVec 32) :
    Answers id qa.1.call { code := qa.2.ret, data := qa.2.data } (dataBytes id qa.2) := by
  have hid := length_htod32a id
  have hsize := length_htod32a (BitVec.ofNat 32 qa.2.data.length)
  have hlength : (dtoh32a (htod32a id ++ htod32a (BitVec.ofNat 32 qa.2.data.length)) 4).toNat =
      qa.2.data.length := by
    have hsmall := h.small
    rw [dtoh32a_last _ hid, BitVec.toNat_ofNat, Nat.mod_eq_of_lt (by omega)]
  refine ⟨_, [], { code := qa.2.ret, transactionId := id, params := [], few := few_nil }, rfl,
    nofun, rfl, rfl, rfl, Or.inl ⟨h.reads, _, _, rfl, ?_, ?_, hlength,
      gathers_dataPackets id qa.2.data⟩⟩
  · rw [List.length_append, hid, hsize]
  · rw [List.length_append, hid, hsize]
    decide

theorem GetsData.delivers {qa : Query × Answer} (h : GetsData qa) :
    Delivers qa.1 qa.2 { code := qa.2.ret, data := qa.2.data } where
  ret := rfl
  data := rfl
  handles := by
    rw [if_neg (by simp [h.handles.1])]
    exact h.handles.2

theorem GetsData.usbAnswers {qa : Query × Answer} (h : GetsData qa) (pipes : UsbPipes)
    (splits : Bool) (id : BitVec 32) : ∃ incoming,
      UsbAnswers pipes splits id qa.1.call { code := qa.2.ret, data := qa.2.data } incoming :=
  ⟨_, ⟨_, [], { code := qa.2.ret, transactionId := id, params := [], few := few_nil }, rfl, nofun,
    rfl, rfl, rfl, Or.inl ⟨h.reads, rfl⟩⟩, h.code, h.small⟩

theorem exists_conversation {α : Type} {answers : BitVec 32 → Call → CallReply → List α → Prop}
    {l : List (Query × Answer)}
    (h : ∀ qa ∈ l, Delivers qa.1 qa.2 { code := qa.2.ret, data := qa.2.data } ∧
      ∀ id, ∃ xs, answers id qa.1.call { code := qa.2.ret, data := qa.2.data } xs)
    (id : BitVec 32) : ∃ replies xs,
      List.Forall₂ (fun qa reply => Delivers qa.1 qa.2 reply) l replies ∧
      Conversation answers id (l.map fun qa => qa.1.call) replies xs := by
  induction l generalizing id with
  | nil => exact ⟨[], [], .nil, .nil⟩
  | cons qa l ih =>
    obtain ⟨⟨hdeliver, hanswer⟩, hl⟩ := List.forall_mem_cons.mp h
    obtain ⟨replies, rest, hdelivers, hconversation⟩ := ih hl (id + 1)
    obtain ⟨xs, hxs⟩ := hanswer id
    exact ⟨_ :: replies, xs ++ rest, .cons hdeliver hdelivers, .cons hxs hconversation⟩

end VitaMTP
