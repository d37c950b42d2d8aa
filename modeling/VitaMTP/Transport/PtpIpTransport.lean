import VitaMTP.Transport.PtpIpData
import VitaMTP.Transport.Transaction

/-! Transactions over PTP/IP. -/
namespace VitaMTP
open Pieces

/-- The connection for commands: what has been written, and what is still to be read. -/
structure IpLink where
  out : Outgoing := {}
  cmd : List (Piece Byte) := []

theorem ptpipGetresp_lt {resp resp' : PTPContainer} {s s' : List (Piece Byte)} {ret : BitVec 16}
    (h : ptpipGetresp resp s = some (ret, resp', s')) :
    ret = PTP_RC_GeneralError ∨
      ret = PTP_RC_OK ∧ (content s').length < (content s).length := by
  unfold ptpipGetresp at h
  rcases hread : genericRead s with ⟨_ | ⟨hdr, data⟩, s₁⟩
  · rw [hread] at h
    exact Or.inl (Prod.mk.inj (Option.some.inj h)).1.symm
  · rw [hread] at h
    dsimp only at h
    split at h
    · simp at h
    · obtain ⟨rfl, hrest⟩ := Prod.mk.inj (Option.some.inj h)
      obtain ⟨-, rfl⟩ := Prod.mk.inj hrest
      exact Or.inr ⟨rfl, genericRead_lt hread⟩

/-- The functions that `VitaMTP_Data_Connect` sets. There is none that cancels. -/
def ptpip (socket : Socket) : Transport IpLink where
  sendreq ptp s :=
    let (ret, out) := ptpipSendreq socket s.out ptp
    (ret, { s with out := out })
  senddata ptp data s :=
    let (ret, out) := ptpipSenddata socket s.out ptp data.length data
    (ret, { s with out := out })
  getdata _ s := (ptpipGetdata s.cmd).map fun (ret, data, cmd) => (ret, data, { s with cmd := cmd })
  getresp resp s :=
    (ptpipGetresp resp s.cmd).map fun (ret, resp, cmd) => (ret, resp, { s with cmd := cmd })
  cancelreq _ _ := none
  reset s := s
  unread s := (content s.cmd).length
  getresp_lt := by
    intro resp s ret resp' s' h hret
    obtain ⟨⟨ret₁, resp₁, cmd⟩, hget, heq⟩ := Option.map_eq_some_iff.mp h
    obtain ⟨rfl, hrest⟩ := Prod.mk.inj heq
    obtain ⟨rfl, rfl⟩ := Prod.mk.inj hrest
    rcases ptpipGetresp_lt hget with herror | ⟨-, hlt⟩
    · rw [herror] at hret
      exact absurd hret (by decide)
    · exact hlt

namespace PtpResponse

def bytes (r : PtpResponse) : List Byte :=
  packet PTPIP_CMD_RESPONSE
    (htod16a r.code ++ (htod32a r.transactionId ++ r.params.flatMap htod32a))

/-- What a response leaves in the container; parameters it does not have stay. -/
def fill (r : PtpResponse) (ptp : PTPContainer) : PTPContainer :=
  { ptp with code := r.code, transactionId := r.transactionId }.setParams r.params

variable (socket : Socket) (ptp : PTPContainer) {r : PtpResponse} {s : IpLink}
  {rest : List Byte} {cmd : BitVec 16} {id : BitVec 32} {tries : ℕ}

theorem getresp (h : content s.cmd = r.bytes ++ rest) :
    ∃ s', (ptpip socket).getresp ptp s = some (PTP_RC_OK, r.fill ptp, s') ∧ s'.out = s.out ∧
      content s'.cmd = rest := by
  have hfew := r.few
  have hlength : (htod16a r.code ++ (htod32a r.transactionId ++
      r.params.flatMap htod32a)).length = 6 + 4 * r.params.length := by
    simp only [List.length_append, length_htod16a, length_htod32a, length_flatMap_htod32a]
    omega
  obtain ⟨cmd, hread, hrest⟩ := genericRead_packet (by rw [hlength]; omega) h
  have hcode : dtoh16a (htod16a r.code ++ (htod32a r.transactionId ++
      r.params.flatMap htod32a)) 0 = r.code := dtoh16a_head ..
  have hid : dtoh32a (htod16a r.code ++ (htod32a r.transactionId ++
      r.params.flatMap htod32a)) 2 = r.transactionId := dtoh32a_append _ (length_htod16a _)
  have hn : ((BitVec.ofNat 32 (8 + (6 + 4 * r.params.length))).toNat - 8 - 6) / 4 =
      r.params.length := by
    rw [BitVec.toNat_ofNat]
    omega
  have hparams (ptp : PTPContainer) : ptp.readParams (htod16a r.code ++ (htod32a r.transactionId ++
      r.params.flatMap htod32a)) 6 r.params.length = ptp.setParams r.params := by
    have hread := @PTPContainer.readParams_flatMap ptp (htod16a r.code ++ htod32a r.transactionId)
      [] r.params 6 rfl
    rwa [List.append_nil, List.append_assoc] at hread
  refine ⟨{ s with cmd := cmd }, ?_, rfl, hrest⟩
  simp only [ptpip, ptpipGetresp, hread, hlength, hcode, hid, hn]
  rw [if_neg (by omega), if_pos hfew, hparams]
  rfl

theorem loop_old {rs : List PtpResponse} (hold : ∀ r ∈ rs, r.transactionId < id)
    (h : content s.cmd = rs.flatMap bytes ++ rest) :
    ∃ s', responseLoop (ptpip socket) cmd id (tries + 1) ptp s =
        responseLoop (ptpip socket) cmd id (tries + 1) (rs.foldl (fun ptp r => r.fill ptp) ptp) s' ∧
      s'.out = s.out ∧ content s'.cmd = rest := by
  induction rs generalizing ptp s with
  | nil => exact ⟨s, rfl, rfl, h⟩
  | cons r rs ih =>
    rw [List.flatMap_cons, List.append_assoc] at h
    obtain ⟨s₁, hget, hout, hrest⟩ := getresp socket ptp h
    obtain ⟨s', hloop, hout', hrest'⟩ := ih (r.fill ptp)
      (fun r' hr' => hold r' (List.mem_cons_of_mem r hr')) hrest
    have hfirst := responseLoop_old cmd tries hget (hold r List.mem_cons_self)
    exact ⟨s', hfirst.trans hloop, hout'.trans hout, hrest'⟩

theorem loop_own {rs : List PtpResponse} (hold : ∀ r ∈ rs, r.transactionId < id)
    (hown : r.transactionId = id) (h : content s.cmd = rs.flatMap bytes ++ (r.bytes ++ rest)) :
    ∃ s', responseLoop (ptpip socket) cmd id (tries + 1) ptp s =
        some (r.code, r.fill (rs.foldl (fun ptp r => r.fill ptp) ptp), s') ∧
      s'.out = s.out ∧ content s'.cmd = rest := by
  obtain ⟨s₁, hloop, hout, hrest⟩ := loop_old socket ptp hold h
  obtain ⟨s', hget, hout', hrest'⟩ := getresp socket (rs.foldl (fun ptp r => r.fill ptp) ptp) hrest
  exact ⟨s', hloop.trans (responseLoop_own cmd tries hget hown), hout'.trans hout, hrest'⟩

/-- Responses of an earlier session, in front of a loop that puts up with them: each takes a try,
and the one that takes the last is an error. -/
theorem loop_later {rs : List PtpResponse} (hlater : ∀ r ∈ rs, id < r.transactionId)
    (h : content s.cmd = rs.flatMap bytes ++ rest) :
    ∃ ptp' s', s'.out = s.out ∧
      if rs.length ≤ tries then
        responseLoop (ptpip socket) PTP_OC_OpenSession id (tries + 1) ptp s =
            responseLoop (ptpip socket) PTP_OC_OpenSession id (tries - rs.length + 1) ptp' s' ∧
          content s'.cmd = rest
      else
        responseLoop (ptpip socket) PTP_OC_OpenSession id (tries + 1) ptp s =
            some (PTP_ERROR_BADPARAM, ptp', s') ∧
          content s'.cmd = (rs.drop (tries + 1)).flatMap bytes ++ rest := by
  induction rs generalizing tries ptp s with
  | nil =>
    refine ⟨ptp, s, rfl, ?_⟩
    rw [List.length_nil, if_pos (Nat.zero_le _)]
    exact ⟨rfl, h⟩
  | cons r rs ih =>
    rw [List.flatMap_cons, List.append_assoc] at h
    obtain ⟨s₁, hget, hout, hrest⟩ := getresp socket ptp h
    have hfirst := @responseLoop_later _ _ PTP_OC_OpenSession _ tries _ _ _ _ hget
      (hlater r List.mem_cons_self)
    cases tries with
    | zero =>
      rw [if_neg (by simp)] at hfirst
      refine ⟨r.fill ptp, s₁, hout, ?_⟩
      rw [if_neg (by rw [List.length_cons]; omega)]
      exact ⟨hfirst, hrest⟩
    | succ tries =>
      rw [if_pos ⟨rfl, Nat.succ_ne_zero _⟩] at hfirst
      obtain ⟨ptp', s', hout', hloop⟩ := ih (r.fill ptp)
        (fun r' hr' => hlater r' (List.mem_cons_of_mem r hr')) hrest
      refine ⟨ptp', s', hout'.trans hout, ?_⟩
      rw [hfirst, List.length_cons, Nat.add_sub_add_right, List.drop_succ_cons]
      split_ifs at hloop ⊢ with hle hle' hle'
      · exact hloop
      · omega
      · omega
      · exact hloop

end PtpResponse

section session

variable {socket : Socket} {s : IpLink} {r : PtpResponse} {rest : List Byte}

theorem PtpResponse.bytes_ne_nil (r : PtpResponse) : r.bytes ≠ [] := by
  apply List.length_pos_iff.mp
  rw [bytes, length_packet]
  omega

theorem ptpip_sendreq (socket : Socket) (ptp : PTPContainer) (s : IpLink) :
    (ptpip socket).sendreq ptp s =
      (PTP_RC_OK, { s with out := (socket.sendTo s.out (requestPacket ptp)).2 }) := rfl

/-- Opening a session puts up with what is left of an earlier one exactly if that is at most two
responses. -/
theorem ptpOpensession_leftover_iff {rs : List PtpResponse} (session : BitVec 32)
    (hleft : ∀ r ∈ rs, r.transactionId ≠ 0) (hown : r.transactionId = 0)
    (h : content s.cmd = rs.flatMap PtpResponse.bytes ++ (r.bytes ++ rest)) :
    ∃ c, ptpOpensession (ptpip socket) session s = some c ∧
      c.params = { transactionId := 1, sessionId := session } ∧
      (c.ret = r.code ∧ content c.state.cmd = rest ↔ rs.length ≤ 2) := by
  have hlater : ∀ r ∈ rs, (0 : BitVec 32) < r.transactionId := fun r hr =>
    BitVec.lt_of_le_ne (BitVec.le_def.mpr (Nat.zero_le _)) (Ne.symm (hleft r hr))
  set ptp : PTPContainer :=
    { code := PTP_OC_OpenSession, param := fun i => if i = 0 then session else 0, nparam := 1 }
    with hptp
  set s₁ : IpLink := { s with
    out := (socket.sendTo s.out (requestPacket (({} : PTPParams).stamp ptp))).2 } with hs₁
  have hsend : (ptpip socket).sendreq (({} : PTPParams).stamp ptp) ((ptpip socket).reset s) =
      (PTP_RC_OK, s₁) := rfl
  obtain ⟨ptp', s', -, hloop⟩ := @PtpResponse.loop_later socket
    (({} : PTPParams).stamp ptp) s₁ _ _ 2 _ hlater h
  split_ifs at hloop with hle
  · obtain ⟨hskip, hrest⟩ := hloop
    obtain ⟨s₂, hown, -, hrest₂⟩ := @PtpResponse.loop_own socket ptp' _ _ _
      PTP_OC_OpenSession _ (2 - rs.length) [] (by simp) hown hrest
    have hdone := ptpTransaction_response hsend (dataPhase_nodata ..) (hskip.trans hown)
    refine ⟨_, by rw [ptpOpensession, hdone]; rfl, rfl, ?_⟩
    exact iff_of_true ⟨rfl, hrest₂⟩ hle
  · obtain ⟨hskip, hrest⟩ := hloop
    have hdone := ptpTransaction_response hsend (dataPhase_nodata ..) hskip
    refine ⟨_, by rw [ptpOpensession, hdone]; rfl, rfl, ?_⟩
    refine iff_of_false (fun hboth => ?_) hle
    have hlength := congrArg List.length (hrest.symm.trans hboth.2)
    have hpos := List.length_pos_iff.mpr r.bytes_ne_nil
    simp only [List.length_append] at hlength
    omega

/-- A socket that takes a thousand bytes at once. -/
def takingSocket : Socket where
  send _ len := some (min len 1000)
  takes h := by
    obtain rfl := Option.some.inj h
    omega

/-- A connection over which bytes come one by one. -/
def trickle (bytes : List Byte) : IpLink where
  cmd := bytes.map fun b => ⟨[b], List.cons_ne_nil b []⟩

theorem content_trickle (bytes : List Byte) : content (trickle bytes).cmd = bytes := by
  induction bytes with
  | nil => rfl
  | cons b bytes ih => exact (content_cons _ _).trans (congrArg (b :: ·) ih)

def okResponse (id : BitVec 32) : PtpResponse where
  code := PTP_RC_OK
  transactionId := id
  params := []
  few := few_nil

theorem ptpOpensession_leftover_sample :
    ∃ c, ptpOpensession (ptpip takingSocket) 1
          (trickle ((okResponse 5).bytes ++ (okResponse 0).bytes)) = some c ∧
      c.params = ⟨1, 1⟩ ∧
      (c.ret = PTP_RC_OK ∧ content c.state.cmd = [] ↔ [okResponse 5].length ≤ 2) :=
  @ptpOpensession_leftover_iff takingSocket _ (okResponse 0) [] [okResponse 5] 1
    (fun r hr => by rw [List.mem_singleton.mp hr]; decide) rfl
    (by rw [content_trickle, List.append_nil, List.flatMap_singleton])

end session

/-- The packets behind the first one of a data phase of the device: blocks, and a last one. -/
def blockPackets (tid : BitVec 32) (blocks : List (List Byte)) (last : List Byte) : List Byte :=
  blocks.flatMap (dataPacket PTPIP_DATA_PACKET tid) ++ dataPacket PTPIP_END_DATA_PACKET tid last

section blocks

variable {socket : Socket} {params : PTPParams} {ptp : PTPContainer} {tid : BitVec 32}
  {blocks : List (List Byte)} {last acc rest : List Byte} {toread : ℕ} {s : List (Piece Byte)}

theorem gathers_blockPackets (hsize : ∀ block ∈ last :: blocks, 4 + block.length < 2 ^ 31)
    (hlast : last ≠ []) : Gathers (blocks.flatten ++ last) (blockPackets tid blocks last) := by
  induction blocks with
  | nil =>
    have hend := @Gathers.block PTPIP_END_DATA_PACKET tid last [] [] (Or.inl rfl)
      (hsize last List.mem_cons_self) (by rwa [List.append_nil]) .done
    rwa [List.append_nil, List.append_nil] at hend
  | cons block blocks ih =>
    have hrest := ih fun b hb => hsize b (List.mem_cons.mpr
      ((List.mem_cons.mp hb).imp_right (List.mem_cons_of_mem block)))
    have hne : block ++ (blocks.flatten ++ last) ≠ [] := by
      simp only [ne_eq, List.append_eq_nil_iff, not_and]
      exact fun _ _ => hlast
    have hblock := @Gathers.block PTPIP_DATA_PACKET tid block _ _ (Or.inr rfl)
      (hsize block (List.mem_cons_of_mem _ List.mem_cons_self)) hne hrest
    rw [List.flatten_cons, List.append_assoc, blockPackets, List.flatMap_cons, List.append_assoc]
    exact hblock

/-- With an empty last block, the loop is done before it, and a packet without data is left. -/
theorem ptpipGetdataLoop_empty (hsize : ∀ block ∈ blocks, 4 + block.length < 2 ^ 31)
    (htoread : acc.length + blocks.flatten.length = toread)
    (h : content s = blockPackets tid blocks [] ++ rest) :
    ∃ s' type more, ptpipGetdataLoop toread acc s = some (PTP_RC_OK, acc ++ blocks.flatten, s') ∧
      content s' = dataPacket type tid [] ++ more := by
  induction blocks generalizing acc s with
  | nil =>
    rw [List.flatten_nil, List.length_nil] at htoread
    refine ⟨s, PTPIP_END_DATA_PACKET, rest, ?_, h⟩
    rw [List.flatten_nil, List.append_nil]
    exact ptpipGetdataLoop_done htoread
  | cons block blocks ih =>
    rw [blockPackets, List.flatMap_cons, List.append_assoc, List.append_assoc] at h
    rw [List.flatten_cons] at htoread ⊢
    by_cases hdone : block ++ blocks.flatten = []
    · obtain ⟨rfl, -⟩ := List.append_eq_nil_iff.mp hdone
      rw [hdone, List.length_nil] at htoread
      refine ⟨s, PTPIP_DATA_PACKET, _, ?_, h⟩
      rw [hdone, List.append_nil]
      exact ptpipGetdataLoop_done htoread
    · have hpos := List.length_pos_iff.mpr hdone
      rw [List.length_append] at hpos htoread
      have hlt : acc.length < toread := by omega
      obtain ⟨s₁, hloop, hrest⟩ := ptpipGetdataLoop_block (Or.inr rfl)
        (hsize block List.mem_cons_self) hlt (by omega) h
      have htotal : (acc ++ block).length + blocks.flatten.length = toread := by
        rw [List.length_append]
        omega
      obtain ⟨s', type, more, hend, hleft⟩ := ih
        (fun b hb => hsize b (List.mem_cons_of_mem _ hb)) htotal
        (by rw [hrest, blockPackets, List.append_assoc])
      refine ⟨s', type, more, ?_, hleft⟩
      rw [hloop, hend, List.append_assoc]

theorem ptpip_getresp_empty {type : BitVec 32} {link : IpLink}
    (h : content link.cmd = dataPacket type tid [] ++ rest) :
    (ptpip socket).getresp ptp link = none := by
  have hlength : (htod32a tid ++ []).length = 4 := rfl
  obtain ⟨s', hread, -⟩ := genericRead_packet (by rw [hlength]; omega) h
  simp only [ptpip, ptpipGetresp, hread, hlength]
  rfl

/-- However the device cuts its data into blocks: it is received, and the response behind it,
exactly if the last block is not empty. If it is, the packet is taken for the response, and read
beyond its end. -/
theorem ptpTransaction_blocks_iff {link : IpLink} {head : List Byte} {r : PtpResponse}
    (hsize : ∀ block ∈ last :: blocks, 4 + block.length < 2 ^ 31)
    (hhead : 8 ≤ head.length ∧ head.length < 2 ^ 31)
    (htotal : (dtoh32a head 4).toNat = (blocks.flatten ++ last).length)
    (hid : r.transactionId = params.transactionId)
    (h : content link.cmd = packet PTPIP_START_DATA_PACKET head ++
      (blockPackets tid blocks last ++ (r.bytes ++ rest))) :
    (∃ c, ptpTransaction (ptpip socket) params ptp .getdata link = some c ∧ c.ret = r.code ∧
        c.data = blocks.flatten ++ last ∧ content c.state.cmd = rest) ↔ last ≠ [] := by
  have hsend := ptpip_sendreq socket (params.stamp ptp) link
  set s₁ : IpLink := { link with
    out := (socket.sendTo link.out (requestPacket (params.stamp ptp))).2 } with hs₁
  have hgot {data : List Byte} {cmd : List (Piece Byte)}
      (hdata : ptpipGetdata link.cmd = some (PTP_RC_OK, data, cmd)) :
      dataPhase (ptpip socket) (params.stamp ptp) .getdata s₁ =
        some (PTP_RC_OK, data, { s₁ with cmd := cmd }) := by
    apply dataPhase_getdata _ (by decide)
    simp only [ptpip, hs₁, hdata, Option.map_some]
  constructor
  · rintro ⟨c, hc, -⟩ rfl
    rw [List.append_nil] at htotal
    obtain ⟨s₂, hstart, hrest⟩ := ptpipGetdata_start hhead.1 hhead.2 h
    obtain ⟨s₃, type, more, hloop, hleft⟩ := @ptpipGetdataLoop_empty tid blocks [] _ _ s₂
      (fun b hb => hsize b (List.mem_cons_of_mem _ hb)) (Nat.zero_add _) hrest
    rw [htotal, hloop] at hstart
    obtain ⟨ret, data, s₄, hphase, hcases⟩ := ptpTransaction_eq_some hsend hc
    rw [hgot hstart] at hphase
    obtain ⟨rfl, hpair⟩ := Prod.mk.inj (Option.some.inj hphase)
    obtain ⟨-, rfl⟩ := Prod.mk.inj hpair
    rcases hcases with ⟨hne, -⟩ | ⟨-, ret', ptp', s', hresponse, -⟩
    · exact hne rfl
    · rw [responseLoop_none _ _ 2 (ptpip_getresp_empty hleft)] at hresponse
      exact Option.some_ne_none _ hresponse.symm
  · intro hlast
    obtain ⟨cmd, hdata, hrest⟩ := (ptpipGetdata_ok_iff link.cmd _ _).mpr
      ⟨head, _, h, hhead.1, hhead.2, htotal, gathers_blockPackets hsize hlast⟩
    obtain ⟨s', hloop, -, hrest'⟩ := @PtpResponse.loop_own socket (params.stamp ptp) r
      { s₁ with cmd := cmd } rest ptp.code params.transactionId 2 [] (by simp) hid hrest
    exact ⟨_, ptpTransaction_response hsend (hgot hdata) hloop, rfl, rfl, hrest'⟩

theorem ptpTransaction_blocks_sample :
    (∃ c, ptpTransaction (ptpip takingSocket) {} { code := 0x1009 } .getdata
        (trickle (packet PTPIP_START_DATA_PACKET (htod32a 0 ++ htod32a 2) ++
          (blockPackets 0 [[1]] [2] ++ (okResponse 0).bytes))) = some c ∧
        c.ret = PTP_RC_OK ∧ c.data = [1, 2] ∧ content c.state.cmd = []) ↔ [(2 : Byte)] ≠ [] :=
  @ptpTransaction_blocks_iff takingSocket {} { code := 0x1009 } 0 [[1]] [2] [] _
    (htod32a 0 ++ htod32a 2) (okResponse 0) (by decide) (by decide) (by decide) rfl
    (by rw [content_trickle, List.append_nil])

end blocks

section received

variable {socket : Socket} {params : PTPParams} {ptp : PTPContainer} {phase : DataPhase}
  {s s' : List (Piece Byte)} {ret : BitVec 16} {data : List Byte}

theorem readExact_suffix {n : ℕ} {got : Option (List Byte)} (h : readExact n s = (got, s')) :
    content s' <:+ content s := by
  cases got with
  | none =>
    rw [(readExact_eq_none h).2]
    exact List.nil_suffix
  | some xs =>
    rw [(readExact_eq_some h).1]
    exact List.suffix_append xs _

theorem genericRead_suffix {got : Option (PTPIPHeader × List Byte)}
    (h : genericRead s = (got, s')) : content s' <:+ content s := by
  unfold genericRead at h
  rcases hread₁ : readExact 8 s with ⟨_ | xhdr, s₁⟩
  · rw [hread₁] at h
    obtain ⟨-, rfl⟩ := Prod.mk.inj h
    exact readExact_suffix hread₁
  have hsuffix := readExact_suffix hread₁
  rw [hread₁] at h
  dsimp only at h
  split at h
  · obtain ⟨-, rfl⟩ := Prod.mk.inj h
    exact hsuffix
  rcases hread₂ : readExact ((dtoh32a xhdr 0 - 8).toInt).toNat s₁ with ⟨_ | data, s₂⟩
  all_goals
    rw [hread₂] at h
    obtain ⟨-, rfl⟩ := Prod.mk.inj h
    exact (readExact_suffix hread₂).trans hsuffix

theorem ptpipGetdataLoop_suffix {toread : ℕ} {acc : List Byte}
    (h : ptpipGetdataLoop toread acc s = some (ret, data, s')) : content s' <:+ content s := by
  obtain ⟨n, hn⟩ : ∃ n, (content s).length = n := ⟨_, rfl⟩
  induction n using Nat.strong_induction_on generalizing acc s with
  | _ n ih =>
    by_cases hlt : acc.length < toread
    case neg =>
      rw [ptpipGetdataLoop, if_neg hlt] at h
      obtain ⟨-, hrest⟩ := Prod.mk.inj (Option.some.inj h)
      rw [(Prod.mk.inj hrest).2]
    rcases hread : genericRead s with ⟨_ | ⟨hdr, xdata⟩, s₁⟩
    · rw [ptpipGetdataLoop_end hlt hread] at h
      obtain ⟨-, hrest⟩ := Prod.mk.inj (Option.some.inj h)
      obtain ⟨-, rfl⟩ := Prod.mk.inj hrest
      exact genericRead_suffix hread
    have hsuffix := genericRead_suffix hread
    have hsmaller := genericRead_lt hread
    rw [ptpipGetdataLoop_read hlt hread] at h
    split_ifs at h
    · obtain ⟨-, hrest⟩ := Prod.mk.inj (Option.some.inj h)
      obtain ⟨-, rfl⟩ := Prod.mk.inj hrest
      exact hsuffix
    · obtain ⟨block, -, h⟩ := Option.bind_eq_some_iff.mp h
      exact (ih _ (hn ▸ hsmaller) h rfl).trans hsuffix
    · exact (ih _ (hn ▸ hsmaller) h rfl).trans hsuffix

theorem ptpipGetdata_suffix (h : ptpipGetdata s = some (ret, data, s')) :
    content s' <:+ content s := by
  unfold ptpipGetdata at h
  rcases hread : genericRead s with ⟨_ | ⟨hdr, head⟩, s₁⟩
  · rw [hread] at h
    obtain ⟨-, hrest⟩ := Prod.mk.inj (Option.some.inj h)
    obtain ⟨-, rfl⟩ := Prod.mk.inj hrest
    exact genericRead_suffix hread
  have hsuffix := genericRead_suffix hread
  rw [hread] at h
  dsimp only at h
  split_ifs at h
  · obtain ⟨-, hrest⟩ := Prod.mk.inj (Option.some.inj h)
    obtain ⟨-, rfl⟩ := Prod.mk.inj hrest
    exact hsuffix
  · obtain ⟨-, hrest⟩ := Prod.mk.inj (Option.some.inj h)
    obtain ⟨-, rfl⟩ := Prod.mk.inj hrest
    exact hsuffix
  · exact (ptpipGetdataLoop_suffix h).trans hsuffix

theorem ptpipGetresp_suffix {resp resp' : PTPContainer}
    (h : ptpipGetresp resp s = some (ret, resp', s')) : content s' <:+ content s := by
  unfold ptpipGetresp at h
  rcases hread : genericRead s with ⟨_ | ⟨hdr, payload⟩, s₁⟩
  all_goals
    rw [hread] at h
    dsimp only at h
  · obtain ⟨-, hrest⟩ := Prod.mk.inj (Option.some.inj h)
    obtain ⟨-, rfl⟩ := Prod.mk.inj hrest
    exact genericRead_suffix hread
  · split at h
    · simp at h
    · obtain ⟨-, hrest⟩ := Prod.mk.inj (Option.some.inj h)
      obtain ⟨-, rfl⟩ := Prod.mk.inj hrest
      exact genericRead_suffix hread

theorem ptpipGetresp_ret {resp resp' : PTPContainer}
    (h : ptpipGetresp resp s = some (ret, resp', s')) :
    ret = PTP_RC_OK ∨ ret = PTP_RC_GeneralError :=
  (ptpipGetresp_lt h).symm.imp_left And.left

theorem ptpipGetresp_packet {resp resp' : PTPContainer}
    (h : ptpipGetresp resp s = some (PTP_RC_OK, resp', s')) :
    ∃ type payload, content s = packet type payload ++ content s' ∧
      resp'.code = dtoh16a payload 0 ∧ resp'.transactionId = dtoh32a payload 2 := by
  unfold ptpipGetresp at h
  rcases hread : genericRead s with ⟨_ | ⟨hdr, payload⟩, s₁⟩
  · rw [hread] at h
    exact absurd (Prod.mk.inj (Option.some.inj h)).1 PTP_RC_GeneralError_ne_OK
  obtain ⟨-, -, hcontent⟩ := genericRead_eq_some hread
  rw [hread] at h
  dsimp only at h
  split at h
  · simp at h
  obtain ⟨-, hrest⟩ := Prod.mk.inj (Option.some.inj h)
  obtain ⟨rfl, rfl⟩ := Prod.mk.inj hrest
  refine ⟨hdr.type, payload, hcontent, ?_, ?_⟩
  all_goals split <;> rfl

theorem ne_cancel (hret : ret = PTP_RC_OK ∨ ret = PTP_RC_GeneralError) : ret ≠ PTP_ERROR_CANCEL := by
  rcases hret with rfl | rfl
  · decide
  · decide

theorem dataPhase_ptpip {s s' : IpLink}
    (h : dataPhase (ptpip socket) ptp phase s = some (ret, data, s')) :
    (ret = PTP_RC_OK ∨ ret = PTP_RC_GeneralError) ∧ content s'.cmd <:+ content s.cmd := by
  cases phase with
  | nodata =>
    obtain ⟨rfl, hrest⟩ := Prod.mk.inj (Option.some.inj h)
    obtain ⟨-, rfl⟩ := Prod.mk.inj hrest
    exact ⟨Or.inl rfl, List.suffix_refl _⟩
  | senddata sent =>
    have hret := ptpipSenddata_ret socket s.out ptp sent.length sent
    rw [dataPhase_senddata rfl (ne_cancel hret)] at h
    obtain ⟨rfl, hrest⟩ := Prod.mk.inj (Option.some.inj h)
    obtain ⟨-, rfl⟩ := Prod.mk.inj hrest
    exact ⟨hret, List.suffix_refl _⟩
  | getdata =>
    rcases hget : ptpipGetdata s.cmd with _ | ⟨got, xdata, cmd⟩
    · simp [dataPhase, ptpip, hget] at h
    have hret := ptpipGetdata_ret hget
    have hgot : (ptpip socket).getdata ptp s = some (got, xdata, { s with cmd := cmd }) := by
      simp [ptpip, hget]
    rw [dataPhase_getdata hgot (ne_cancel hret)] at h
    obtain ⟨rfl, hrest⟩ := Prod.mk.inj (Option.some.inj h)
    obtain ⟨-, rfl⟩ := Prod.mk.inj hrest
    exact ⟨hret, ptpipGetdata_suffix hget⟩

theorem ptpip_getresp_eq_some {ptp' : PTPContainer} {s s' : IpLink}
    (h : (ptpip socket).getresp ptp s = some (ret, ptp', s')) :
    ptpipGetresp ptp s.cmd = some (ret, ptp', s'.cmd) := by
  obtain ⟨⟨got, resp, cmd⟩, hgot, heq⟩ := Option.map_eq_some_iff.mp h
  obtain ⟨rfl, hrest⟩ := Prod.mk.inj heq
  obtain ⟨rfl, rfl⟩ := Prod.mk.inj hrest
  exact hgot

/-- Whatever the device sends: a transaction ends in an error of the host, or with the code of a
packet that has been received and that names this transaction. -/
theorem ptpTransaction_ret {s : IpLink} {c : Completed IpLink}
    (h : ptpTransaction (ptpip socket) params ptp phase s = some c) :
    c.ret = PTP_RC_GeneralError ∨ c.ret = PTP_ERROR_BADPARAM ∨
      ∃ before type payload,
        content s.cmd = before ++ (packet type payload ++ content c.state.cmd) ∧
        dtoh16a payload 0 = c.ret ∧ dtoh32a payload 2 = params.transactionId := by
  obtain ⟨ret, data, s₂, hphase, hrest⟩ :=
    ptpTransaction_eq_some (ptpip_sendreq socket (params.stamp ptp) s) h
  obtain ⟨hret, hsuffix⟩ := dataPhase_ptpip hphase
  rcases hrest with ⟨hne, rfl⟩ | ⟨-, ret', ptp', s', hloop, rfl⟩
  · exact Or.inl (hret.resolve_left hne)
  obtain ⟨ptp₁, s₃, got, hP, hget, hcases⟩ :=
    @responseLoop_eq_some _ _ _ _ _ _ _ _ _ _ (fun s₃ => content s₃.cmd <:+ content s.cmd)
      (by decide) hsuffix
      (fun hP hget => (ptpipGetresp_suffix (ptpip_getresp_eq_some hget)).trans hP) hloop
  have hgetresp := ptpip_getresp_eq_some hget
  rcases hcases with ⟨rfl, hid, hcode⟩ | ⟨-, -, hbad⟩ | ⟨hne, hgot⟩
  · obtain ⟨type, payload, hpacket, hcode', hid'⟩ := ptpipGetresp_packet hgetresp
    obtain ⟨before, hbefore⟩ := hP
    refine Or.inr (Or.inr ⟨before, type, payload, ?_, ?_, ?_⟩)
    · rw [← hpacket]
      exact hbefore.symm
    · rw [hcode, hcode']
    · rw [← hid', hid]
  · exact Or.inr (Or.inl hbad)
  · exact Or.inl (hgot.trans ((ptpipGetresp_ret hgetresp).resolve_left hne))

theorem ptpTransaction_ret_sample :
    ∃ c, ptpTransaction (ptpip takingSocket) {} { code := PTP_OC_CloseSession } .nodata
          (trickle (okResponse 0).bytes) = some c ∧
      (c.ret = PTP_RC_GeneralError ∨ c.ret = PTP_ERROR_BADPARAM ∨
        ∃ before type payload,
          content (trickle (okResponse 0).bytes).cmd =
            before ++ (packet type payload ++ content c.state.cmd) ∧
          dtoh16a payload 0 = c.ret ∧ dtoh32a payload 2 = 0) := by
  obtain ⟨s', hget, -⟩ := @PtpResponse.getresp takingSocket
    { code := PTP_OC_CloseSession } (okResponse 0)
    { trickle (okResponse 0).bytes with
      out := (takingSocket.sendTo {} (requestPacket { code := PTP_OC_CloseSession })).2 } []
    (by rw [List.append_nil]; exact content_trickle _)
  have hcall : ptpTransaction (ptpip takingSocket) {} { code := PTP_OC_CloseSession } .nodata
      (trickle (okResponse 0).bytes) =
        some ⟨PTP_RC_OK, (okResponse 0).fill { code := PTP_OC_CloseSession }, [], ⟨1, 0⟩, s'⟩ :=
    ptpTransaction_response (ptpip_sendreq takingSocket _ _) rfl
      (responseLoop_own PTP_OC_CloseSession 2 hget rfl)
  exact ⟨_, hcall, ptpTransaction_ret hcall⟩

end received

end VitaMTP
