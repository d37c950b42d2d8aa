import VitaMTP.Transport.Session
import VitaMTP.Transport.UsbRead

/-! Sessions over USB, with a device that sends data behind the header of its container or apart
from it. -/
namespace VitaMTP
open Transfers

theorem ptpUsbGetpacket_lt {pipes : UsbPipes} {link : UsbLink}
    (h : (ptpUsbGetpacket pipes link).1 = PTP_RC_OK) :
    (ptpUsbGetpacket pipes link).2.2.incoming.length +
        (if (ptpUsbGetpacket pipes link).2.2.responsePacket = [] then 0 else 1) <
      link.incoming.length + (if link.responsePacket = [] then 0 else 1) := by
  rw [ptpUsbGetpacket] at h ⊢
  by_cases hnone : link.responsePacket = []
  · rw [if_neg (not_not.mpr hnone)] at h ⊢
    have hlt := ptpReadFunc_block_lt pipes h
    have hkeep : (ptpReadFunc pipes PTP_USB_BULK_HS_MAX_PACKET_LEN_READ false
        link).2.2.responsePacket = link.responsePacket := by
      rw [ptpReadFunc_block]
      split <;> rfl
    rw [hkeep, if_pos hnone]
    exact hlt
  · rw [if_pos hnone, if_neg hnone, if_pos rfl]
    exact Nat.lt_succ_self _

/-- The functions that `configure_usb_device` sets. -/
def usb (pipes : UsbPipes) : Transport UsbLink where
  sendreq := ptpUsbSendreq pipes
  senddata := ptpUsbSenddata pipes
  getdata ptp link := some (ptpUsbGetdata pipes ptp link)
  getresp resp link := some (ptpUsbGetresp pipes resp link)
  cancelreq _ link := some (ptpUsbControlCancelRequest pipes, link)
  reset link := { link with responsePacket := [], splitHeaderData := false }
  unread link := link.incoming.length + if link.responsePacket = [] then 0 else 1
  getresp_lt := by
    intro resp link ret resp' link' h hret
    have hget := (Option.some.inj h).symm
    rw [ptpUsbGetresp] at hget
    by_cases hok : (ptpUsbGetpacket pipes link).1 = PTP_RC_OK
    · have hstate : link' = (ptpUsbGetpacket pipes link).2.2 := by
        have hlink := congrArg (fun r => r.2.2) hget
        dsimp only at hlink
        rw [hlink]
        split_ifs <;> rfl
      rw [hstate]
      exact ptpUsbGetpacket_lt hok
    · have hio : ret = PTP_ERROR_IO := by
        have hret := congrArg (fun r => r.1) hget
        dsimp only at hret
        rw [if_pos hok, if_pos PTP_ERROR_IO_ne_OK] at hret
        exact hret
      rw [hio] at hret
      exact absurd hret (by decide)

theorem UsbLink.Receives.trans {link link₁ link₂ : UsbLink} {rest rest' : List (List Byte)}
    (h : link.Receives link₁ rest) (h' : link₁.Receives link₂ rest') :
    link.Receives link₂ rest' where
  incoming := h'.incoming
  responsePacket := h'.responsePacket
  sent := h'.sent.trans h.sent
  total := h'.total.trans h.total
  complete := h.complete.trans h'.complete

/-- The packets of responses, one after the other. -/
def PtpResponse.usbPackets (pipes : UsbPipes) (rs : List PtpResponse) : List (List Byte) :=
  rs.flatMap fun r => packets pipes.outMaxpacket r.usbBytes

section loop

variable {pipes : UsbPipes} {link : UsbLink} {rest : List (List Byte)} {cmd : BitVec 16}
  {id : BitVec 32} {tries : ℕ} {rs : List PtpResponse} {r : PtpResponse}

theorem PtpResponse.usb_loop_old (hregular : pipes.Regular) (hnone : link.responsePacket = [])
    (hold : ∀ r ∈ rs, r.code = PTP_RC_OK ∧ r.transactionId < id) (ptp : PTPContainer)
    (h : link.incoming = usbPackets pipes rs ++ rest) :
    ∃ ptp' link', responseLoop (usb pipes) cmd id (tries + 1) ptp link =
        responseLoop (usb pipes) cmd id (tries + 1) ptp' link' ∧ link.Receives link' rest ∧
      link'.splitHeaderData = link.splitHeaderData := by
  induction rs generalizing ptp link with
  | nil => exact ⟨ptp, link, rfl, ⟨h, hnone, rfl, rfl, le_rfl⟩, rfl⟩
  | cons r rs ih =>
    obtain ⟨hok, hlt⟩ := hold r List.mem_cons_self
    rw [usbPackets, List.flatMap_cons, List.append_assoc] at h
    have hget := ptpUsbGetresp_usb hregular hnone r ptp h
    rw [if_pos (Or.inl hok)] at hget
    have hfirst := @responseLoop_old _ (usb pipes) id ptp _ link _ cmd tries (congrArg some hget) hlt
    have hreceives := receives_receive hnone r.usbBytes (usbPackets pipes rs ++ rest)
    obtain ⟨ptp', link', hloop, hreceives', hsplit⟩ := ih hreceives.responsePacket
      (fun r hr => hold r (List.mem_cons_of_mem _ hr)) (r.usbFill ptp) hreceives.incoming
    exact ⟨ptp', link', hfirst.trans hloop, hreceives.trans hreceives', hsplit⟩

theorem PtpResponse.usb_loop_error (hregular : pipes.Regular) (hnone : link.responsePacket = [])
    (hcode : r.code ≠ PTP_RC_OK ∧ r.code ≠ PTP_ERROR_RESP_EXPECTED) {ptp : PTPContainer}
    (hown : r.code ≠ ptp.code) (h : link.incoming = packets pipes.outMaxpacket r.usbBytes ++ rest) :
    responseLoop (usb pipes) cmd id (tries + 1) ptp link =
      some (r.code, ptp, link.receive r.usbBytes rest) := by
  have hget := ptpUsbGetresp_usb hregular hnone r ptp h
  rw [if_neg (not_or.mpr ⟨hcode.1, hown⟩)] at hget
  rw [@responseLoop_succ _ (usb pipes) ptp _ link _ _ cmd id tries (congrArg some hget),
    if_neg hcode.2, if_pos hcode.1]

theorem PtpResponse.usb_loop_own (hregular : pipes.Regular) (hnone : link.responsePacket = [])
    (hold : ∀ r ∈ rs, r.code = PTP_RC_OK ∧ r.transactionId < id) (hid : r.transactionId = id)
    (hexpected : r.code ≠ PTP_ERROR_RESP_EXPECTED) (ptp : PTPContainer)
    (h : link.incoming = usbPackets pipes rs ++ (packets pipes.outMaxpacket r.usbBytes ++ rest)) :
    ∃ ptp' link', responseLoop (usb pipes) cmd id (tries + 1) ptp link =
        some (r.code, ptp', link') ∧
      (r.code = PTP_RC_OK → ∀ i, ptp'.param i = r.params.getD i 0) ∧ link.Receives link' rest ∧
      link'.splitHeaderData = link.splitHeaderData := by
  obtain ⟨ptp₁, link₁, hloop, hreceives, hsplit⟩ :=
    @usb_loop_old _ _ _ cmd id tries rs hregular hnone hold ptp h
  have hreceives' := receives_receive hreceives.responsePacket r.usbBytes rest
  by_cases hcode : r.code = PTP_RC_OK ∨ r.code = ptp₁.code
  · have hget := ptpUsbGetresp_usb hregular hreceives.responsePacket r ptp₁ hreceives.incoming
    rw [if_pos hcode] at hget
    have hown := @responseLoop_own _ (usb pipes) id ptp₁ _ link₁ _ cmd tries (congrArg some hget) hid
    exact ⟨_, _, hloop.trans hown, fun _ _ => rfl, hreceives.trans hreceives', hsplit⟩
  · rw [not_or] at hcode
    have herror := @usb_loop_error _ link₁ rest cmd id tries r hregular hreceives.responsePacket
      ⟨hcode.1, hexpected⟩ ptp₁ hcode.2 hreceives.incoming
    exact ⟨_, _, hloop.trans herror, fun hok => absurd hok hcode.1, hreceives.trans hreceives',
      hsplit⟩

end loop

namespace Call

/-- The container of a call, with its transaction. -/
def stamped (id : BitVec 32) (call : Call) : PTPContainer :=
  { call.container with transactionId := id }

/-- The transfers of a data phase, to a device that gets the header apart from the data or not. -/
def phaseTransfers (split : Bool) (id : BitVec 32) (call : Call) : List (List Byte) :=
  call.phase.sent.elim [] fun data =>
    if split then
      usbHeader PTP_USB_CONTAINER_DATA call.code id data.length :: if data = [] then [] else [data]
    else [usbData (call.stamped id) data]

/-- The transfers of one call after the other. Once a device has sent data apart from the header,
it gets data so. -/
def usbWire (splits : Bool) :
    Bool → BitVec 32 → List Call → List CallReply → List (List Byte)
  | split, id, call :: calls, reply :: replies =>
    usbRequest (call.stamped id) :: (call.phaseTransfers split id ++
      usbWire splits (split || splits && reply.data ≠ []) (id + 1) calls replies)
  | _, _, _, _ => []

end Call

/-- An answer to a call over USB: its data, responses to earlier calls that are no errors, and its
response. -/
structure UsbAnswers (pipes : UsbPipes) (splits : Bool) (id : BitVec 32) (call : Call)
    (reply : CallReply) (incoming : List (List Byte)) : Prop where
  parts : ∃ (phase : List (List Byte)) (olds : List PtpResponse) (response : PtpResponse),
    incoming = phase ++
      (PtpResponse.usbPackets pipes olds ++ packets pipes.outMaxpacket response.usbBytes) ∧
    (∀ old ∈ olds, old.code = PTP_RC_OK ∧ old.transactionId < id) ∧
    response.transactionId = id ∧ response.code = reply.code ∧ response.params = reply.params ∧
    (call.phase = .getdata ∧ phase = usbDataPackets pipes splits (call.stamped id) reply.data ∨
      call.phase ≠ .getdata ∧ phase = [] ∧ reply.data = [])
  code : reply.code ≠ PTP_ERROR_RESP_EXPECTED
  size : 12 + reply.data.length < 0xffffffff

/-- What holds of the connection between transactions. -/
structure UsbLink.Ready (splits : Bool) (link : UsbLink) : Prop where
  responsePacket : link.responsePacket = []
  total : link.total ≤ link.complete
  splitHeaderData : splits = false → link.splitHeaderData = false

def Call.Sized (call : Call) : Prop :=
  ∀ data, call.phase.sent = some data → data.length < 2 ^ 32

section session

variable {pipes : UsbPipes} {splits : Bool} {link : UsbLink} {rest incoming : List (List Byte)}
  {params : PTPParams} {call : Call} {reply : CallReply} {got : List Byte}

theorem usb_sendreq (hwhole : pipes.Whole) (hready : link.Ready splits) :
    ∃ link', (usb pipes).sendreq (params.stamp call.container) link = (PTP_RC_OK, link') ∧
      link'.Ready splits ∧ link'.incoming = link.incoming ∧
      link'.splitHeaderData = link.splitHeaderData ∧
      link'.sent = link.sent ++
        packets pipes.outMaxpacket (usbRequest (call.stamped params.transactionId)) := by
  obtain ⟨link', hsend, hsends⟩ := ptpUsbSendreq_whole hwhole (params.stamp call.container)
    hready.total
  refine ⟨link', hsend, ?_, hsends.incoming, hsends.splitHeaderData, hsends.sent⟩
  have htotal := hready.total
  constructor
  · rw [hsends.responsePacket, hready.responsePacket]
  · rw [hsends.total, hsends.complete]
    omega
  · rw [hsends.splitHeaderData]
    exact hready.splitHeaderData

theorem usb_senddata (hregular : pipes.Regular) (hwhole : pipes.Whole) (hready : link.Ready splits)
    {data : List Byte} (hcall : call.phase = .senddata data) (hsize : data.length < 2 ^ 32) :
    ∃ link', (usb pipes).senddata (params.stamp call.container) data link = (PTP_RC_OK, link') ∧
      link'.Ready splits ∧ link'.incoming = link.incoming ∧
      link'.splitHeaderData = link.splitHeaderData ∧
      link'.sent = link.sent ++
        (call.phaseTransfers link.splitHeaderData params.transactionId).flatMap
          (packets pipes.outMaxpacket) := by
  have hend {link' : UsbLink} {sent : List (List Byte)}
      (hsends : (link.start data.length).Sends link' sent (PTP_USB_BULK_HDR_LEN + data.length)) :
      link'.Ready splits := by
    constructor
    · rw [hsends.responsePacket]
      exact hready.responsePacket
    · have htotal : link'.total = data.length + PTP_USB_BULK_HDR_LEN := hsends.total
      have hcomplete : link'.complete = 0 + (PTP_USB_BULK_HDR_LEN + data.length) := hsends.complete
      omega
    · rw [hsends.splitHeaderData]
      exact hready.splitHeaderData
  by_cases hsplit : link.splitHeaderData = true
  · obtain ⟨link', hsend, hsends⟩ := ptpUsbSenddata_split hwhole (params.stamp call.container) hsize
      hsplit hregular.header (fits_of_dvd hregular.dvd)
    refine ⟨link', hsend, hend hsends, hsends.incoming, hsends.splitHeaderData, ?_⟩
    rw [hsends.sent, Call.phaseTransfers, hcall, DataPhase.sent, Option.elim_some, if_pos hsplit,
      List.flatMap_cons]
    by_cases hnil : data = []
    · rw [if_pos hnil, if_pos hnil]
      rfl
    · rw [if_neg hnil, if_neg hnil, List.flatMap_singleton]
      rfl
  · obtain ⟨link', hsend, hsends⟩ := ptpUsbSenddata_unsplit hwhole (params.stamp call.container)
      hsize (eq_false_of_ne_true hsplit) (Or.inr hregular.dvd)
    refine ⟨link', hsend, hend hsends, hsends.incoming, hsends.splitHeaderData, ?_⟩
    rw [hsends.sent, Call.phaseTransfers, hcall, DataPhase.sent, Option.elim_some, if_neg hsplit,
      List.flatMap_singleton]
    rfl

theorem UsbLink.Receives.ready {link' : UsbLink} (hready : link.Ready splits)
    (h : link.Receives link' rest)
    (hsplit : splits = false → link'.splitHeaderData = link.splitHeaderData) :
    link'.Ready splits where
  responsePacket := h.responsePacket
  total := h.total ▸ hready.total.trans h.complete
  splitHeaderData hnot := (hsplit hnot).trans (hready.splitHeaderData hnot)

theorem usb_dataPhase (hregular : pipes.Regular) (hwhole : pipes.Whole) (hready : link.Ready splits)
    (hsized : call.Sized) {phase : List (List Byte)}
    (hphase : call.phase = .getdata ∧
        phase = usbDataPackets pipes splits (call.stamped params.transactionId) got ∨
      call.phase ≠ .getdata ∧ phase = [] ∧ got = [])
    (hsize : 12 + got.length < 0xffffffff) (h : link.incoming = phase ++ rest) :
    ∃ link', dataPhase (usb pipes) (params.stamp call.container) call.phase link =
        some (PTP_RC_OK, got, link') ∧ link'.Ready splits ∧ link'.incoming = rest ∧
      link'.splitHeaderData = (link.splitHeaderData || splits && got ≠ []) ∧
      link'.sent = link.sent ++
        (call.phaseTransfers link.splitHeaderData params.transactionId).flatMap
          (packets pipes.outMaxpacket) := by
  rcases hphase with ⟨hget, rfl⟩ | ⟨hget, rfl, hnil⟩
  · obtain ⟨link', hgot, hreceives, hsplit⟩ := ptpUsbGetdata_packets hregular hready.responsePacket
      hready.splitHeaderData hsize h
    have hkeep : splits = false → link'.splitHeaderData = link.splitHeaderData := by
      rintro rfl
      rw [hsplit, Bool.false_and, Bool.or_false]
    refine ⟨link', ?_, hreceives.ready hready hkeep, hreceives.incoming, hsplit, ?_⟩
    · rw [hget]
      exact @dataPhase_getdata _ (usb pipes) _ _ _ _ _ (congrArg some hgot) (by decide)
    · rw [hreceives.sent, Call.phaseTransfers, hget, DataPhase.sent, Option.elim_none,
        List.flatMap_nil, List.append_nil]
  · have hsplit : (link.splitHeaderData || splits && decide (got ≠ [])) =
        link.splitHeaderData := by
      rw [hnil, decide_eq_false (not_not.mpr rfl), Bool.and_false, Bool.or_false]
    rw [hsplit, hnil]
    cases hcall : call.phase with
    | getdata => exact absurd hcall hget
    | nodata =>
      refine ⟨link, rfl, hready, h, rfl, ?_⟩
      rw [Call.phaseTransfers, hcall, DataPhase.sent, Option.elim_none, List.flatMap_nil,
        List.append_nil]
    | senddata data =>
      obtain ⟨link', hsend, hready', hincoming, hsplit', hsent⟩ := @usb_senddata pipes splits link
        params call hregular hwhole hready data hcall (hsized data (by rw [hcall]; rfl))
      exact ⟨link', @dataPhase_senddata _ (usb pipes) _ _ _ _ _ hsend (by decide), hready',
        hincoming.trans h, hsplit', hsent⟩

theorem ptpTransaction_usb_answered (hregular : pipes.Regular) (hwhole : pipes.Whole)
    (hready : link.Ready splits) (hsized : call.Sized)
    (hanswer : UsbAnswers pipes splits params.transactionId call reply incoming)
    (h : link.incoming = incoming ++ rest) :
    ∃ c, ptpTransaction (usb pipes) params call.container call.phase link = some c ∧
      c.ret = reply.code ∧ c.data = reply.data ∧ reply.Fills c.ptp ∧ c.params = params.next ∧
      c.state.Ready splits ∧ c.state.incoming = rest ∧
      c.state.splitHeaderData = (link.splitHeaderData || splits && reply.data ≠ []) ∧
      c.state.sent = link.sent ++ (usbRequest (call.stamped params.transactionId) ::
        call.phaseTransfers link.splitHeaderData params.transactionId).flatMap
          (packets pipes.outMaxpacket) := by
  obtain ⟨phase, olds, response, rfl, hold, hid, hcode, hparams, hphase⟩ := hanswer.parts
  have hexpected : response.code ≠ PTP_ERROR_RESP_EXPECTED := by
    rw [hcode]
    exact hanswer.code
  obtain ⟨link₁, hsend, hready₁, hincoming₁, hsplit₁, hsent₁⟩ :=
    @usb_sendreq pipes splits link params call hwhole hready
  rw [h, List.append_assoc, List.append_assoc] at hincoming₁
  obtain ⟨link₂, hdata, hready₂, hincoming₂, hsplit₂, hsent₂⟩ := usb_dataPhase hregular hwhole
    hready₁ hsized hphase hanswer.size hincoming₁
  obtain ⟨ptp', link₃, hloop, hfill, hreceives, hsplit₃⟩ := @PtpResponse.usb_loop_own pipes link₂ rest
    call.container.code params.transactionId 2 olds response hregular hready₂.responsePacket hold
    hid hexpected (params.stamp call.container) hincoming₂
  refine ⟨_, ptpTransaction_response hsend hdata hloop, hcode, rfl,
    fun hok i _ => hparams ▸ hfill (hcode.trans hok) i, rfl,
    hreceives.ready hready₂ (fun _ => hsplit₃), hreceives.incoming, ?_, ?_⟩
  · dsimp only
    rw [hsplit₃, hsplit₂, hsplit₁]
  · dsimp only
    rw [hreceives.sent, hsent₂, hsent₁, hsplit₁, List.flatMap_cons, List.append_assoc]

/-- A device that answers every call, with the data behind the header or apart from it: every call
returns what the device has answered to it, nothing of the next answers is read, and the device
gets the transfers of the calls, once each and in order. -/
theorem runCalls_usb_conversation (hregular : pipes.Regular) (hwhole : pipes.Whole)
    {calls : List Call} {replies : List CallReply}
    (hsized : ∀ call ∈ calls, call.Sized)
    (hconversation : Conversation (UsbAnswers pipes splits) params.transactionId calls replies
      incoming)
    (hready : link.Ready splits) (h : link.incoming = incoming ++ rest) :
    ∃ params' link', runCalls (usb pipes) calls params link =
        some (replies.map CallReply.result, params', link') ∧
      params' = { params with
        transactionId := params.transactionId + BitVec.ofNat 32 calls.length } ∧
      link'.sent = link.sent ++
        (Call.usbWire splits link.splitHeaderData params.transactionId calls replies).flatMap
          (packets pipes.outMaxpacket) ∧
      link'.Ready splits ∧ link'.incoming = rest :=
  @Conversation.runCalls _ _
    (usb pipes) UsbLink.incoming (UsbLink.Ready splits) Call.Sized (UsbAnswers pipes splits)
    (fun id calls replies link link' => link'.sent = link.sent ++
      (Call.usbWire splits link.splitHeaderData id calls replies).flatMap
        (packets pipes.outMaxpacket))
    (fun {params call reply incoming rest link} hsized hanswer hready h => by
      obtain ⟨c, hcall, hret, hdata, -, hparams, hready₁, hrest, hsplit, hsent⟩ :=
        ptpTransaction_usb_answered hregular hwhole hready hsized hanswer h
      refine ⟨c, hcall, hret, hdata, hparams, hready₁, hrest, fun {calls replies link'} hwrote => ?_⟩
      rw [hwrote, hsent, hsplit, Call.usbWire, List.append_assoc, ← List.flatMap_append,
        List.cons_append])
    (fun _ _ => (List.append_nil _).symm) params calls replies incoming rest link hsized
    hconversation hready h

def PtpResponse.Numbered : BitVec 32 → List PtpResponse → Prop
  | _, [] => True
  | id, r :: rs => r.transactionId = id ∧ Numbered (id + 1) rs

/-- What calls return of responses that are behind an error: each the response to the call before,
up to one that is no error, which is skipped. -/
def lateResults : BitVec 16 → List PtpResponse → List (BitVec 16 × List Byte)
  | _, [] => []
  | late, r :: rs =>
    (late, []) :: if r.code = PTP_RC_OK then rs.map fun r => (r.code, []) else lateResults r.code rs

/-- Responses make a conversation, if no data is asked for. The first of them may be behind old
ones. -/
theorem conversation_numbered {calls : List Call} {olds rs : List PtpResponse} {id : BitVec 32}
    (hget : ∀ call ∈ calls, call.phase ≠ .getdata) (hlength : rs.length = calls.length)
    (hold : ∀ old ∈ olds, old.code = PTP_RC_OK ∧ old.transactionId < id)
    (hnone : rs = [] → olds = []) (hnumbered : PtpResponse.Numbered id rs)
    (hcode : ∀ r ∈ rs, r.code ≠ PTP_ERROR_RESP_EXPECTED) :
    Conversation (UsbAnswers pipes splits) id calls (rs.map fun r => ⟨r.code, [], r.params⟩)
      (PtpResponse.usbPackets pipes (olds ++ rs)) := by
  induction rs generalizing calls olds id with
  | nil =>
    rw [List.length_eq_zero_iff.mp hlength.symm, hnone rfl]
    exact .nil
  | cons r rs ih =>
    cases calls with
    | nil => simp at hlength
    | cons call calls =>
      have hanswer : UsbAnswers pipes splits id call ⟨r.code, [], r.params⟩
          (PtpResponse.usbPackets pipes olds ++ packets pipes.outMaxpacket r.usbBytes) := by
        refine ⟨⟨[], olds, r, rfl, hold, hnumbered.1, rfl, rfl, Or.inr ⟨?_, rfl, rfl⟩⟩, ?_, ?_⟩
        · exact hget call List.mem_cons_self
        · exact hcode r List.mem_cons_self
        · exact (by decide : 12 + 0 < 0xffffffff)
      have hrest := @ih calls [] (id + 1) (fun call hmem => hget call (List.mem_cons_of_mem _ hmem))
        (Nat.succ.inj hlength) (by simp) (fun _ => rfl) hnumbered.2
        (fun r hmem => hcode r (List.mem_cons_of_mem _ hmem))
      have hall := Conversation.cons hanswer hrest
      rw [List.nil_append, List.append_assoc] at hall
      rw [PtpResponse.usbPackets, List.flatMap_append, List.flatMap_cons]
      exact hall

/-- An error that comes late is the result of the next call, whatever call it belongs to, and what
that call is answered is left for the one after it. -/
theorem runCalls_usb_late (hregular : pipes.Regular) (hwhole : pipes.Whole) {calls : List Call}
    {late : PtpResponse} {rs : List PtpResponse} (hsized : ∀ call ∈ calls, call.Sized)
    (hget : ∀ call ∈ calls, call.phase ≠ .getdata) (hlength : rs.length = calls.length)
    (hnumbered : PtpResponse.Numbered params.transactionId rs)
    (hwrap : params.transactionId.toNat + calls.length ≤ 2 ^ 32) (hlate : late.code ≠ PTP_RC_OK)
    (hcode : ∀ r ∈ late :: rs,
      r.code ≠ PTP_ERROR_RESP_EXPECTED ∧ ∀ call ∈ calls, r.code ≠ call.code)
    (hready : link.Ready splits)
    (h : link.incoming = PtpResponse.usbPackets pipes (late :: rs) ++ rest) :
    ∃ params' link', runCalls (usb pipes) calls params link =
      some (lateResults late.code rs, params', link') := by
  induction calls generalizing late rs params link with
  | nil =>
    rw [List.length_nil, List.length_eq_zero_iff] at hlength
    rw [hlength]
    exact ⟨params, link, rfl⟩
  | cons call calls ih =>
    cases rs with
    | nil => simp at hlength
    | cons r rs =>
      have hfirst := hcode late List.mem_cons_self
      have hmore {call' : Call} (hmem : call' ∈ calls) : call' ∈ call :: calls :=
        List.mem_cons_of_mem _ hmem
      rw [PtpResponse.usbPackets, List.flatMap_cons, List.append_assoc] at h
      obtain ⟨link₁, hsend, hready₁, hincoming₁, -, -⟩ :=
        @usb_sendreq pipes splits link params call hwhole hready
      obtain ⟨link₂, hdata, hready₂, hincoming₂, -, -⟩ := @usb_dataPhase pipes splits link₁ _ params
        call [] hregular hwhole hready₁ (hsized call List.mem_cons_self) []
        (Or.inr ⟨hget call List.mem_cons_self, rfl, rfl⟩) (by decide) (hincoming₁.trans h)
      have hloop := @PtpResponse.usb_loop_error pipes link₂ _ call.container.code
        params.transactionId 2 late hregular hready₂.responsePacket ⟨hlate, hfirst.1⟩
        (params.stamp call.container) (hfirst.2 call List.mem_cons_self) hincoming₂
      have hcall := ptpTransaction_response hsend hdata hloop
      have hready₃ := (receives_receive hready₂.responsePacket late.usbBytes
        (PtpResponse.usbPackets pipes (r :: rs) ++ rest)).ready hready₂ fun _ => rfl
      have hnext : params.next.transactionId.toNat = (params.transactionId.toNat + 1) % 2 ^ 32 := rfl
      suffices hrun : ∃ params' link', runCalls (usb pipes) calls params.next
          (link₂.receive late.usbBytes (PtpResponse.usbPackets pipes (r :: rs) ++ rest)) =
          some (if r.code = PTP_RC_OK then rs.map fun r => (r.code, []) else lateResults r.code rs,
            params', link') by
        obtain ⟨params', link', hrun⟩ := hrun
        rw [PtpResponse.usbPackets] at hrun
        refine ⟨params', link', ?_⟩
        simp only [runCalls, hcall, hrun, Option.bind_eq_bind, Option.bind_some, lateResults]
      rw [List.length_cons] at hwrap
      by_cases hok : r.code = PTP_RC_OK
      · rw [if_pos hok]
        by_cases hnil : rs = []
        · have hcalls : calls = [] := List.length_eq_zero_iff.mp (by
            rw [← Nat.succ.inj hlength, hnil, List.length_nil])
          rw [hcalls, hnil]
          exact ⟨_, _, rfl⟩
        have hpos := List.length_pos_iff.mpr hnil
        have hcount : rs.length = calls.length := Nat.succ.inj hlength
        -- the response to this call is an old one to the next
        have hlt : r.transactionId < params.next.transactionId := by
          rw [hnumbered.1, BitVec.lt_def, hnext]
          omega
        have hconversation := @conversation_numbered pipes splits calls [r] rs _
          (fun call hmem => hget call (hmore hmem)) hcount
          (by simpa using ⟨hok, hlt⟩) (fun h => absurd h hnil) hnumbered.2
          (fun r hmem => (hcode r (by simp [hmem])).1)
        obtain ⟨params', link', hrun, -⟩ := @runCalls_usb_conversation pipes splits _ rest _
          params.next hregular hwhole calls _ (fun call hmem => hsized call (hmore hmem))
          hconversation hready₃ rfl
        rw [List.map_map] at hrun
        exact ⟨params', link', hrun⟩
      · rw [if_neg hok]
        refine @ih _ params.next r rs (fun call hmem => hsized call (hmore hmem))
          (fun call hmem => hget call (hmore hmem)) (Nat.succ.inj hlength) hnumbered.2 ?_ hok
          (fun r' hmem => ?_) hready₃ rfl
        · rw [hnext]
          omega
        · have hr := hcode r' (List.mem_cons_of_mem _ hmem)
          exact ⟨hr.1, fun call hmem => hr.2 call (hmore hmem)⟩

theorem wholePipes_regular : wholePipes.Regular where
  same := rfl
  dvd := dvd_rfl
  header := by decide

def failedResponse (id : BitVec 32) : PtpResponse where
  code := PTP_RC_GeneralError
  transactionId := id
  params := []
  few := few_nil

theorem runCalls_usb_late_sample :
    ∃ params' link', runCalls (usb wholePipes) [closeSession, closeSession] ⟨5, 1⟩
        { incoming := PtpResponse.usbPackets wholePipes
            [failedResponse 4, okResponse 5, okResponse 6] ++ [] } =
      some (lateResults PTP_RC_GeneralError [okResponse 5, okResponse 6], params', link') :=
  @runCalls_usb_late wholePipes false _ [] ⟨5, 1⟩ wholePipes_regular wholePipes_whole
    [closeSession, closeSession] (failedResponse 4) [okResponse 5, okResponse 6]
    (by simp [Call.Sized, closeSession, DataPhase.sent]) (by simp [closeSession]) rfl
    ⟨rfl, rfl, trivial⟩ (by decide) (by decide)
    (by simp [failedResponse, okResponse, closeSession, PTP_RC_GeneralError, PTP_RC_OK,
      PTP_ERROR_RESP_EXPECTED, PTP_OC_CloseSession]) ⟨rfl, le_rfl, fun _ => rfl⟩ rfl

end session

end VitaMTP
