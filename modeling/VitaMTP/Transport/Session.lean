import VitaMTP.Transport.PtpIpTransport

/-! Sessions over PTP/IP: one transaction after the other, on connections that may cut and delay
what they carry, with a device that may still send what it owes from before. -/
namespace VitaMTP
open Pieces

namespace Call

def request (id : BitVec 32) (call : Call) : List Byte :=
  packet PTPIP_CMD_REQUEST (htod32a 1 ++ (htod16a call.code ++
    (htod32a id ++ call.params.flatMap htod32a)))

theorem requestPacket_container (call : Call) (params : PTPParams) :
    requestPacket (params.stamp call.container) = call.request params.transactionId := by
  have hsent : (params.stamp call.container).sentParams = call.params := call.sentParams_container
  rw [requestPacket, hsent]
  rfl

/-- What is written for a call, on a connection that takes it. -/
def written (id : BitVec 32) (call : Call) : List Byte :=
  call.request id ++ call.phase.sent.elim [] (sentPhase id)

/-- What is written for one call after the other, the first with the transaction id `id`. -/
def wire (id : BitVec 32) : List Call → List Byte
  | [] => []
  | call :: calls => call.written id ++ wire (id + 1) calls

theorem wire_append (id : BitVec 32) (calls calls' : List Call) :
    wire id (calls ++ calls') = wire id calls ++ wire (id + BitVec.ofNat 32 calls.length) calls' := by
  induction calls generalizing id with
  | nil => rw [List.nil_append, List.length_nil, wire, List.nil_append, BitVec.add_zero]
  | cons call calls ih =>
    rw [List.cons_append, wire, wire, ih, List.append_assoc, List.length_cons, next_add]

end Call

/-- A data phase of the device: any first packet that announces the data, and any packets it can
be gathered from. -/
def IsDataPhase (data bytes : List Byte) : Prop :=
  ∃ head packets, bytes = packet PTPIP_START_DATA_PACKET head ++ packets ∧
    8 ≤ head.length ∧ head.length < 2 ^ 31 ∧ (dtoh32a head 4).toNat = data.length ∧
    Gathers data packets

/-- An answer to a call: its data, responses that belong to earlier calls, and its response. -/
structure Answers (id : BitVec 32) (call : Call) (reply : CallReply)
    (bytes : List Byte) : Prop where
  parts : ∃ (phase : List Byte) (olds : List PtpResponse) (response : PtpResponse),
    bytes = phase ++ (olds.flatMap PtpResponse.bytes ++ response.bytes) ∧
    (∀ old ∈ olds, old.transactionId < id) ∧ response.transactionId = id ∧
    response.code = reply.code ∧ response.params = reply.params ∧
    (call.phase = .getdata ∧ IsDataPhase reply.data phase ∨
      call.phase ≠ .getdata ∧ phase = [] ∧ reply.data = [])

/-- A connection that does not break, and that takes as much as a request at once. -/
structure Socket.Open (socket : Socket) : Prop where
  unbroken : ∀ n len, socket.send n len ≠ none
  whole : ∀ n len, len ≤ 38 → socket.send n len = some len

theorem takingSocket_open : takingSocket.Open where
  unbroken _ _ := Option.some_ne_none _
  whole _ len h := congrArg some (min_eq_left (h.trans (by decide)))

section session

variable {socket : Socket} {params : PTPParams} {s : IpLink} {call : Call}
  {reply : CallReply} {bytes rest data : List Byte} {out : Outgoing}

theorem Socket.Open.sendTo_whole (hopen : socket.Open) (out : Outgoing)
    (hle : data.length ≤ 38) :
    socket.sendTo out data = (some data.length, ⟨out.calls + 1, out.bytes ++ data⟩) := by
  rw [Socket.sendTo, hopen.whole _ _ hle]
  dsimp only
  rw [List.take_length]

theorem Socket.Open.sendAll (hopen : socket.Open) (out : Outgoing) (data : List Byte) :
    (socket.sendAll out data).1 = true := by
  obtain ⟨n, hn⟩ : ∃ n, data.length = n := ⟨_, rfl⟩
  induction n using Nat.strong_induction_on generalizing out data with
  | _ n ih =>
    unfold Socket.sendAll
    by_cases hne : data = []
    · rw [if_pos hne]
    rw [if_neg hne]
    split
    · rename_i out₁ hsend
      unfold Socket.sendTo at hsend
      obtain ⟨k, hk⟩ := Option.ne_none_iff_exists'.mp (hopen.unbroken out.calls data.length)
      simp [hk] at hsend
    · rename_i k out₁ hsend
      obtain ⟨hle, hpos, -⟩ := Socket.sendTo_some hsend
      have hk := hpos hne
      exact ih _ (by rw [List.length_drop]; omega) out₁ (data.drop k) rfl

theorem Socket.Open.senddataLoop (hopen : socket.Open) (tid : BitVec 32) (out : Outgoing)
    (left : ℕ) (data : List Byte) : (ptpipSenddataLoop socket tid out left data).1 = PTP_RC_OK := by
  induction left using Nat.strong_induction_on generalizing out data with
  | _ left ih =>
    rw [ptpipSenddataLoop]
    split_ifs with hzero
    · rfl
    all_goals
      dsimp only
      rw [if_pos (hopen.sendAll _ _)]
      apply ih
      unfold WRITE_BLOCKSIZE
      omega

theorem Socket.Open.senddata (hopen : socket.Open) (out : Outgoing) (ptp : PTPContainer)
    (data : List Byte) :
    (ptpipSenddata socket out ptp data.length data).1 = PTP_RC_OK ∧
      (ptpipSenddata socket out ptp data.length data).2.bytes =
        out.bytes ++ sentPhase ptp.transactionId data := by
  have hlength : (startDataPacket ptp.transactionId data.length).length = 20 := rfl
  have hok : (ptpipSenddata socket out ptp data.length data).1 = PTP_RC_OK := by
    unfold ptpipSenddata
    rw [hopen.sendTo_whole out (by rw [hlength]; omega), hlength]
    exact hopen.senddataLoop ..
  obtain ⟨sent, hbytes, -, hall⟩ := (ptpipSenddata_writes socket out ptp data).sent
  exact ⟨hok, by rw [hbytes, hall.mp hok]⟩

theorem length_request_le (id : BitVec 32) (call : Call) : (call.request id).length ≤ 38 := by
  have hfew := call.few
  simp only [Call.request, length_packet, List.length_append, length_htod16a, length_htod32a,
    length_flatMap_htod32a]
  omega

theorem Socket.Open.sendreq (hopen : socket.Open) (call : Call) (params : PTPParams) (s : IpLink) :
    ∃ s₁, (ptpip socket).sendreq (params.stamp call.container) s = (PTP_RC_OK, s₁) ∧
      s₁.out.bytes = s.out.bytes ++ call.request params.transactionId ∧ s₁.cmd = s.cmd := by
  have hle := length_request_le params.transactionId call
  refine ⟨_, ptpip_sendreq socket _ s, ?_, rfl⟩
  rw [call.requestPacket_container, hopen.sendTo_whole s.out hle]

theorem dataPhase_answered (hopen : socket.Open) {ptp : PTPContainer} {phase : List Byte}
    (hphase : call.phase = .getdata ∧ IsDataPhase data phase ∨
      call.phase ≠ .getdata ∧ phase = [] ∧ data = [])
    (h : content s.cmd = phase ++ rest)
    (hrequest : s.out.bytes = bytes ++ call.request ptp.transactionId) :
    ∃ s', dataPhase (ptpip socket) ptp call.phase s = some (PTP_RC_OK, data, s') ∧
      s'.out.bytes = bytes ++ call.written ptp.transactionId ∧ content s'.cmd = rest := by
  rcases hphase with ⟨hget, hphase⟩ | ⟨hget, rfl, rfl⟩
  · obtain ⟨head, packets, rfl, h8, hsize, htotal, hg⟩ := hphase
    rw [List.append_assoc] at h
    obtain ⟨cmd, hgot, hrest⟩ :=
      (ptpipGetdata_ok_iff s.cmd data rest).mpr ⟨head, packets, h, h8, hsize, htotal, hg⟩
    have hdata : (ptpip socket).getdata ptp s = some (PTP_RC_OK, data, { s with cmd := cmd }) := by
      simp only [ptpip, hgot, Option.map_some]
    refine ⟨{ s with cmd := cmd }, ?_, ?_, hrest⟩
    · rw [hget]
      exact dataPhase_getdata hdata (by decide)
    · rw [Call.written, hget, DataPhase.sent, Option.elim_none, List.append_nil]
      exact hrequest
  · cases hcall : call.phase with
    | getdata => exact absurd hcall hget
    | nodata =>
      refine ⟨s, rfl, ?_, h⟩
      rw [Call.written, hcall, DataPhase.sent, Option.elim_none, List.append_nil]
      exact hrequest
    | senddata sent =>
      obtain ⟨hok, hbytes⟩ := hopen.senddata s.out ptp sent
      refine ⟨{ s with out := (ptpipSenddata socket s.out ptp sent.length sent).2 }, ?_, ?_, h⟩
      · refine dataPhase_senddata ?_ (by decide)
        rw [← hok]
        rfl
      · rw [Call.written, hcall, DataPhase.sent, Option.elim_some]
        dsimp only
        rw [hbytes, hrequest, List.append_assoc]

theorem ptpTransaction_answered (hopen : socket.Open)
    (hanswer : Answers params.transactionId call reply bytes)
    (h : content s.cmd = bytes ++ rest) :
    ∃ c, ptpTransaction (ptpip socket) params call.container call.phase s = some c ∧
      c.ret = reply.code ∧ c.data = reply.data ∧ reply.Fills c.ptp ∧ c.params = params.next ∧
      c.state.out.bytes = s.out.bytes ++ call.written params.transactionId ∧
      content c.state.cmd = rest := by
  obtain ⟨phase, olds, response, rfl, hold, hid, hcode, hparams, hphase⟩ := hanswer.parts
  obtain ⟨s₁, hsend, hrequest, hcmd⟩ := hopen.sendreq call params s
  have h₁ : content s₁.cmd =
      phase ++ (olds.flatMap PtpResponse.bytes ++ (response.bytes ++ rest)) := by
    rw [hcmd, h]
    simp only [List.append_assoc]
  obtain ⟨s₂, hdata, hwritten, h₂⟩ := @dataPhase_answered _ _ call _ _ _ hopen
    (params.stamp call.container) phase hphase h₁ hrequest
  obtain ⟨s₃, hloop, hout, h₃⟩ := @PtpResponse.loop_own socket (params.stamp call.container)
    response s₂ rest call.container.code params.transactionId 2 olds hold hid h₂
  refine ⟨_, ptpTransaction_response hsend hdata hloop, hcode, rfl, fun _ i hi => ?_, rfl, ?_, h₃⟩
  · rw [← hparams] at hi ⊢
    dsimp only [PtpResponse.fill, PTPContainer.setParams]
    rw [List.getD_eq_getElem _ _ hi, List.getD_eq_getElem _ _ hi]
  · rw [hout, hwritten]
    rfl

/-- A device that answers every call, however what it sends is cut and whatever old responses it
sends in between: every call returns what the device has answered to it, nothing of the next
answers is read, and the calls have been written once each and in order. -/
theorem runCalls_conversation (hopen : socket.Open) {calls : List Call}
    {replies : List CallReply}
    (hconversation : Conversation Answers params.transactionId calls replies bytes)
    (h : content s.cmd = bytes ++ rest) :
    ∃ params' s', runCalls (ptpip socket) calls params s =
        some (replies.map CallReply.result, params', s') ∧
      params' = { params with
        transactionId := params.transactionId + BitVec.ofNat 32 calls.length } ∧
      s'.out.bytes = s.out.bytes ++ Call.wire params.transactionId calls ∧
      content s'.cmd = rest := by
  obtain ⟨params', s', hrun, hparams, hwrote, -, hrest⟩ := @Conversation.runCalls _ _
    (ptpip socket) (fun s => content s.cmd) (fun _ => True) (fun _ => True) Answers
    (fun id calls _ s s' => s'.out.bytes = s.out.bytes ++ Call.wire id calls)
    (fun {params call reply bytes rest s} _ hanswer _ h => by
      obtain ⟨c, hcall, hret, hdata, -, hparams, hout, h₁⟩ := ptpTransaction_answered hopen hanswer h
      refine ⟨c, hcall, hret, hdata, hparams, trivial, h₁, fun {calls _ s'} hwrote => ?_⟩
      rw [hwrote, hout, Call.wire, List.append_assoc])
    (fun _ _ => (List.append_nil _).symm) params calls replies bytes rest s (fun _ _ => trivial)
    hconversation trivial h
  exact ⟨params', s', hrun, hparams, hwrote, hrest⟩

def getCall : Call where
  code := 0x1009
  params := [7]
  few := Nat.le_of_ble_eq_true rfl
  phase := .getdata

/-- The bytes of a device that opens a session, sends two bytes of data, and closes the session. -/
def servedBytes : List Byte :=
  packet PTPIP_START_DATA_PACKET (htod32a 1 ++ htod32a 2) ++ dataPackets 1 [5, 6] ++
    (okResponse 1).bytes

end session

/-- What a call looks like on the connection: whether the host will read data is not announced. -/
def Call.visible (call : Call) : BitVec 16 × List (BitVec 32) × Option (List Byte) :=
  (call.code, call.params, call.phase.sent)

section decoding

variable {id : BitVec 32} {call call' : Call} {data data' rest rest' : List Byte}

theorem packet_inj {type type' : BitVec 32} {payload payload' : List Byte}
    (hsize : payload.length < 2 ^ 31) (hsize' : payload'.length < 2 ^ 31)
    (h : packet type payload ++ rest = packet type' payload' ++ rest') :
    type = type' ∧ payload = payload' ∧ rest = rest' := by
  obtain ⟨s, hs⟩ := exists_content (packet type payload ++ rest)
  obtain ⟨s₁, hread, hrest⟩ := genericRead_packet hsize hs
  obtain ⟨s₂, hread', hrest'⟩ := genericRead_packet hsize' (hs.trans h)
  rw [hread] at hread'
  obtain ⟨hsome, rfl⟩ := Prod.mk.inj hread'
  obtain ⟨hhdr, hpayload⟩ := Prod.mk.inj (Option.some.inj hsome)
  exact ⟨(PTPIPHeader.mk.inj hhdr).2, hpayload, hrest.symm.trans hrest'⟩

theorem flatMap_htod32a_inj {ps qs : List (BitVec 32)}
    (h : ps.flatMap htod32a = qs.flatMap htod32a) : ps = qs := by
  have hlength := congrArg List.length h
  rw [length_flatMap_htod32a, length_flatMap_htod32a] at hlength
  have hcount : ps.length = qs.length := by omega
  apply List.ext_getElem hcount
  intro i hi hi'
  have hread := @dtoh32a_flatMap [] [] ps i hi
  have hread' := @dtoh32a_flatMap [] [] qs i hi'
  rw [← hread, ← hread', h]

theorem request_inj (h : call.request id ++ rest = call'.request id ++ rest') :
    call.code = call'.code ∧ call.params = call'.params ∧ rest = rest' := by
  have hsize := length_request_le id call
  have hsize' := length_request_le id call'
  rw [Call.request, length_packet] at hsize hsize'
  obtain ⟨-, hpayload, hrest⟩ := packet_inj (by omega) (by omega) h
  obtain ⟨hcode, hparams⟩ := List.append_inj (List.append_cancel_left hpayload) rfl
  refine ⟨?_, flatMap_htod32a_inj (List.append_cancel_left hparams), hrest⟩
  have hread := dtoh16a_head call.code []
  rw [hcode] at hread
  exact hread.symm.trans (dtoh16a_head call'.code [])

theorem sentPhase_inj (hsize : data.length < 2 ^ 32) (hsize' : data'.length < 2 ^ 32)
    (h : sentPhase id data ++ rest = sentPhase id data' ++ rest') : data = data' ∧ rest = rest' := by
  obtain ⟨s, hs⟩ := exists_content (sentPhase id data ++ rest)
  obtain ⟨s₁, hget, hrest⟩ := (ptpipGetdata_sentPhase_iff id data rest hs).mpr hsize
  obtain ⟨s₂, hget', hrest'⟩ := (ptpipGetdata_sentPhase_iff id data' rest' (hs.trans h)).mpr hsize'
  rw [hget] at hget'
  obtain ⟨-, hpair⟩ := Prod.mk.inj (Option.some.inj hget')
  obtain ⟨rfl, rfl⟩ := Prod.mk.inj hpair
  exact ⟨rfl, hrest.symm.trans hrest'⟩

theorem wire_cons_ne_nil (id : BitVec 32) (call : Call) (calls : List Call) :
    Call.wire id (call :: calls) ≠ Call.wire id [] := by
  intro h
  have hlength := congrArg List.length h
  simp only [Call.wire, Call.written, Call.request, List.length_append, length_packet,
    List.length_nil] at hlength
  omega

theorem sentPhase_ne_wire {calls : List Call} {id' : BitVec 32} :
    sentPhase id data ++ rest ≠ Call.wire id' calls := by
  intro h
  rw [sentPhase, startDataPacket, List.append_assoc] at h
  cases calls with
  | nil =>
    have hlength := congrArg List.length h
    rw [List.length_append, length_packet, Call.wire, List.length_nil] at hlength
    omega
  | cons call calls =>
    have hsize := length_request_le id' call
    rw [Call.request, length_packet] at hsize
    rw [Call.wire, Call.written, List.append_assoc] at h
    have hlength : (htod32a id ++ (htod32a (BitVec.ofNat 32 data.length) ++
      htod32a 0)).length = 12 := rfl
    obtain ⟨htype, -⟩ := packet_inj (by rw [hlength]; omega) (by omega) h
    exact absurd htype (by decide)

/-- Nothing but whether data is read is lost on the way: two lists of calls write the same bytes
exactly if they look the same, call for call. -/
theorem wire_eq_iff {calls calls' : List Call}
    (hsize : ∀ call ∈ calls, ∀ data, call.phase.sent = some data → data.length < 2 ^ 32)
    (hsize' : ∀ call ∈ calls', ∀ data, call.phase.sent = some data → data.length < 2 ^ 32) :
    Call.wire id calls = Call.wire id calls' ↔ calls.map Call.visible = calls'.map Call.visible := by
  constructor
  · intro h
    induction calls generalizing calls' id with
    | nil =>
      cases calls' with
      | nil => rfl
      | cons call' calls' => exact absurd h.symm (wire_cons_ne_nil id call' calls')
    | cons call calls ih =>
      cases calls' with
      | nil => exact absurd h (wire_cons_ne_nil id call calls)
      | cons call' calls' =>
        rw [Call.wire, Call.wire, Call.written, Call.written, List.append_assoc,
          List.append_assoc] at h
        obtain ⟨hcode, hparams, h⟩ := request_inj h
        have hlater {call : Call} (hmem : call ∈ calls) := hsize call (List.mem_cons_of_mem _ hmem)
        have hlater' {call : Call} (hmem : call ∈ calls') :=
          hsize' call (List.mem_cons_of_mem _ hmem)
        have hsent : call.phase.sent = call'.phase.sent ∧
            Call.wire (id + 1) calls = Call.wire (id + 1) calls' := by
          cases hdata : call.phase.sent with
          | none =>
            cases hdata' : call'.phase.sent with
            | none =>
              rw [hdata, hdata'] at h
              exact ⟨rfl, h⟩
            | some data' =>
              rw [hdata, hdata'] at h
              exact absurd h.symm sentPhase_ne_wire
          | some data =>
            cases hdata' : call'.phase.sent with
            | none =>
              rw [hdata, hdata'] at h
              exact absurd h sentPhase_ne_wire
            | some data' =>
              rw [hdata, hdata'] at h
              obtain ⟨rfl, hrest⟩ := sentPhase_inj (hsize call List.mem_cons_self data hdata)
                (hsize' call' List.mem_cons_self data' hdata') h
              exact ⟨rfl, hrest⟩
        rw [List.map_cons, List.map_cons, Call.visible, Call.visible, hcode, hparams, hsent.1]
        exact congrArg _ (ih (fun _ => hlater) (fun _ => hlater') hsent.2)
  · intro h
    induction calls generalizing calls' id with
    | nil =>
      rw [List.map_nil, eq_comm, List.map_eq_nil_iff] at h
      rw [h]
    | cons call calls ih =>
      cases calls' with
      | nil => simp at h
      | cons call' calls' =>
        rw [List.map_cons, List.map_cons] at h
        obtain ⟨hvisible, hrest⟩ := List.cons.inj h
        obtain ⟨hcode, hpair⟩ := Prod.mk.inj hvisible
        obtain ⟨hparams, hsent⟩ := Prod.mk.inj hpair
        have hwire := @ih (id + 1) calls' (fun call hmem => hsize call (List.mem_cons_of_mem _ hmem))
          (fun call hmem => hsize' call (List.mem_cons_of_mem _ hmem)) hrest
        rw [Call.wire, Call.wire, Call.written, Call.written, Call.request, Call.request, hcode,
          hparams, hsent, hwire]

def sendCall (data : List Byte) : Call where
  code := 0x100D
  params := []
  few := few_nil
  phase := .senddata data

/-- Whether a call reads data does not show; what it sends does. -/
theorem wire_eq_sample :
    Call.wire 0 [sendCall [1, 2], getCall] =
        Call.wire 0 [sendCall [1, 2], { getCall with phase := .nodata }] ∧
      Call.wire 0 [sendCall [1, 2], getCall] ≠ Call.wire 0 [sendCall [1, 3], getCall] :=
  ⟨(wire_eq_iff (by simp [sendCall, getCall, DataPhase.sent])
      (by simp [sendCall, DataPhase.sent])).mpr rfl,
    fun h => absurd ((wire_eq_iff (by simp [sendCall, getCall, DataPhase.sent])
      (by simp [sendCall, getCall, DataPhase.sent])).mp h) (by decide)⟩

end decoding

end VitaMTP
