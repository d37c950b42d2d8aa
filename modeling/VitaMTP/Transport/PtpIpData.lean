import VitaMTP.Transport.PtpIp

/-! The data phases of PTP/IP: what is written, however little the socket takes at a time, and what
is read, however the packets arrive. -/
namespace VitaMTP
open Pieces LittleEndian

section sending

variable {socket : Socket} {out out' : Outgoing} {ptp : PTPContainer} {tid : BitVec 32}
  {data : List Byte}

/-- What comes of writing `data`: all of it, or a part and an error. -/
structure Writes (data : List Byte) (ok : Prop) (out out' : Outgoing) : Prop where
  sent : ∃ sent, out'.bytes = out.bytes ++ sent ∧ sent <+: data ∧ (ok ↔ sent = data)

theorem Writes.append {data rest : List Byte} {ok : Prop} {out₁ out₂ out₃ : Outgoing}
    (h : Writes data True out₁ out₂) (h' : Writes rest ok out₂ out₃) :
    Writes (data ++ rest) ok out₁ out₃ := by
  obtain ⟨sent, hbytes, -, hall⟩ := h.sent
  obtain ⟨sent', hbytes', hpre, hok⟩ := h'.sent
  obtain rfl := hall.mp trivial
  refine ⟨⟨sent ++ sent', ?_, (List.prefix_append_right_inj sent).mpr hpre, ?_⟩⟩
  · rw [hbytes', hbytes, List.append_assoc]
  · rw [List.append_cancel_left_eq]
    exact hok

/-- What has failed stays failed, whatever would have been written behind it. -/
theorem Writes.failed (h : Writes data False out out') (rest : List Byte) :
    Writes (data ++ rest) False out out' := by
  obtain ⟨sent, hbytes, hpre, hok⟩ := h.sent
  refine ⟨⟨sent, hbytes, hpre.trans (List.prefix_append _ _), ?_⟩⟩
  refine ⟨False.elim, fun hall => hok.mpr ?_⟩
  have hlength := congrArg List.length hall
  rw [List.length_append] at hlength
  exact hpre.eq_of_length_le (by omega)

theorem Socket.sendAll_writes (socket : Socket) (out : Outgoing) (data : List Byte) :
    Writes data ((socket.sendAll out data).1 = true) out (socket.sendAll out data).2 := by
  obtain ⟨n, hn⟩ : ∃ n, data.length = n := ⟨_, rfl⟩
  induction n using Nat.strong_induction_on generalizing out data with
  | _ n ih =>
    unfold Socket.sendAll
    by_cases hne : data = []
    · rw [if_pos hne]
      exact ⟨⟨[], (List.append_nil _).symm, List.nil_prefix, iff_of_true rfl hne.symm⟩⟩
    rw [if_neg hne]
    split
    · rename_i out₁ hsend
      refine ⟨⟨[], ?_, List.nil_prefix, iff_of_false Bool.false_ne_true (Ne.symm hne)⟩⟩
      rw [Socket.sendTo_none hsend, List.append_nil]
    · rename_i k out₁ hsend
      obtain ⟨hle, hpos, hbytes⟩ := Socket.sendTo_some hsend
      have hk := hpos hne
      have hfirst : Writes (data.take k) True out out₁ :=
        ⟨⟨_, hbytes, List.prefix_refl _, iff_of_true trivial rfl⟩⟩
      have hrest := ih (data.drop k).length (by rw [List.length_drop]; omega) out₁ (data.drop k) rfl
      have hboth := hfirst.append hrest
      rwa [List.take_append_drop] at hboth

/-- The packets behind the first one: blocks of `WRITE_BLOCKSIZE`, and the rest in the last one. -/
def dataPackets (tid : BitVec 32) (data : List Byte) : List Byte :=
  if data = [] then []
  else if WRITE_BLOCKSIZE < data.length then
    dataPacket PTPIP_DATA_PACKET tid (data.take WRITE_BLOCKSIZE) ++
      dataPackets tid (data.drop WRITE_BLOCKSIZE)
  else dataPacket PTPIP_END_DATA_PACKET tid data
termination_by data.length
decreasing_by
  rename_i hlt
  unfold WRITE_BLOCKSIZE at hlt ⊢
  rw [List.length_drop]
  omega

theorem dataPackets_nil (tid : BitVec 32) : dataPackets tid [] = [] := by
  rw [dataPackets, if_pos rfl]

theorem PTP_RC_GeneralError_ne_OK : PTP_RC_GeneralError ≠ PTP_RC_OK := by decide

/-- A packet, and what is written if that has worked. -/
theorem Writes.sendAll (socket : Socket) (out : Outgoing) (block : List Byte) {rest : List Byte}
    (next : Outgoing → BitVec 16 × Outgoing)
    (hnext : ∀ out', Writes rest ((next out').1 = PTP_RC_OK) out' (next out').2) :
    let written := socket.sendAll out block
    let r := if written.1 then next written.2 else (PTP_RC_GeneralError, written.2)
    Writes (block ++ rest) (r.1 = PTP_RC_OK) out r.2 := by
  have hwrites := socket.sendAll_writes out block
  cases hok : (socket.sendAll out block).1 with
  | false =>
    have hfailed : Writes block False out (socket.sendAll out block).2 := by
      simpa [hok] using hwrites
    have hret : (PTP_RC_GeneralError = PTP_RC_OK) = False :=
      propext (iff_of_false PTP_RC_GeneralError_ne_OK id)
    simp only [hok, if_neg Bool.false_ne_true, hret]
    exact hfailed.failed rest
  | true =>
    have hdone : Writes block True out (socket.sendAll out block).2 := by
      simpa [hok] using hwrites
    simp only [hok, if_true]
    exact hdone.append (hnext _)

theorem ptpipSenddataLoop_full (socket : Socket) (tid : BitVec 32) (out : Outgoing)
    (h : WRITE_BLOCKSIZE < data.length) :
    dataPackets tid data = dataPacket PTPIP_DATA_PACKET tid (data.take WRITE_BLOCKSIZE) ++
        dataPackets tid (data.drop WRITE_BLOCKSIZE) ∧
      ptpipSenddataLoop socket tid out data.length data =
        let written :=
          socket.sendAll out (dataPacket PTPIP_DATA_PACKET tid (data.take WRITE_BLOCKSIZE))
        if written.1 then
          ptpipSenddataLoop socket tid written.2 (data.drop WRITE_BLOCKSIZE).length
            (data.drop WRITE_BLOCKSIZE)
        else (PTP_RC_GeneralError, written.2) := by
  have hlength : data.length ≠ 0 := by omega
  have hnil : data ≠ [] := mt List.length_eq_zero_iff.mpr hlength
  constructor
  · rw [dataPackets, if_neg hnil, if_pos h]
  · rw [ptpipSenddataLoop, if_neg hlength, if_pos h, min_eq_right h.le, List.length_drop]

theorem ptpipSenddataLoop_last (socket : Socket) (tid : BitVec 32) (out : Outgoing)
    (hnil : data ≠ []) (h : ¬ WRITE_BLOCKSIZE < data.length) :
    dataPackets tid data = dataPacket PTPIP_END_DATA_PACKET tid data ++ [] ∧
      ptpipSenddataLoop socket tid out data.length data =
        let written := socket.sendAll out (dataPacket PTPIP_END_DATA_PACKET tid data)
        if written.1 then (PTP_RC_OK, written.2) else (PTP_RC_GeneralError, written.2) := by
  have hlength : data.length ≠ 0 := mt List.length_eq_zero_iff.mp hnil
  constructor
  · rw [dataPackets, if_neg hnil, if_neg h, List.append_nil]
  · have hend (out : Outgoing) : ptpipSenddataLoop socket tid out 0 [] = (PTP_RC_OK, out) := by
      rw [ptpipSenddataLoop, if_pos rfl]
    rw [ptpipSenddataLoop, if_neg hlength, if_neg h, min_eq_left (Nat.not_lt.mp h)]
    simp only [List.take_length, List.drop_length, Nat.sub_self, hend]

theorem Writes.nil (out : Outgoing) : Writes [] (PTP_RC_OK = PTP_RC_OK) out out :=
  ⟨⟨[], (List.append_nil _).symm, List.nil_prefix, iff_of_true rfl rfl⟩⟩

theorem ptpipSenddataLoop_writes (socket : Socket) (tid : BitVec 32) (out : Outgoing)
    (data : List Byte) :
    Writes (dataPackets tid data)
      ((ptpipSenddataLoop socket tid out data.length data).1 = PTP_RC_OK) out
      (ptpipSenddataLoop socket tid out data.length data).2 := by
  obtain ⟨n, hn⟩ : ∃ n, data.length = n := ⟨_, rfl⟩
  induction n using Nat.strong_induction_on generalizing out data with
  | _ n ih =>
    by_cases hnil : data = []
    · subst hnil
      rw [dataPackets_nil, List.length_nil, ptpipSenddataLoop, if_pos rfl]
      exact Writes.nil out
    by_cases hlt : WRITE_BLOCKSIZE < data.length
    · obtain ⟨hpackets, hloop⟩ := ptpipSenddataLoop_full socket tid out hlt
      have hsmaller : (data.drop WRITE_BLOCKSIZE).length < n := by
        rw [List.length_drop, WRITE_BLOCKSIZE]
        omega
      rw [hpackets, hloop]
      exact Writes.sendAll socket out _
        (fun out => ptpipSenddataLoop socket tid out (data.drop WRITE_BLOCKSIZE).length _)
        (fun out' => ih _ hsmaller out' _ rfl)
    · obtain ⟨hpackets, hloop⟩ := ptpipSenddataLoop_last socket tid out hnil hlt
      rw [hpackets, hloop]
      exact Writes.sendAll socket out _ (fun out => (PTP_RC_OK, out)) Writes.nil

/-- All the packets of a data phase. -/
def sentPhase (tid : BitVec 32) (data : List Byte) : List Byte :=
  startDataPacket tid data.length ++ dataPackets tid data

/-- Whatever a socket takes at a time: either the phase is written once and whole, or a proper part
of it and there is an error. -/
theorem ptpipSenddata_writes (socket : Socket) (out : Outgoing) (ptp : PTPContainer)
    (data : List Byte) :
    Writes (sentPhase ptp.transactionId data)
      ((ptpipSenddata socket out ptp data.length data).1 = PTP_RC_OK) out
      (ptpipSenddata socket out ptp data.length data).2 := by
  have hlength : (startDataPacket ptp.transactionId data.length).length = 20 := rfl
  have hne : startDataPacket ptp.transactionId data.length ≠ [] :=
    List.length_pos_iff.mp (by omega)
  have hfailed {out' : Outgoing} {sent : List Byte} (hbytes : out'.bytes = out.bytes ++ sent)
      (hpre : sent <+: startDataPacket ptp.transactionId data.length) (hlt : sent.length < 20) :
      Writes (sentPhase ptp.transactionId data) (PTP_RC_GeneralError = PTP_RC_OK) out out' := by
    refine ⟨⟨sent, hbytes, hpre.trans (List.prefix_append _ _), ?_⟩⟩
    refine iff_of_false PTP_RC_GeneralError_ne_OK fun hall => ?_
    rw [hall, sentPhase, List.length_append] at hlt
    omega
  unfold ptpipSenddata
  rcases hsend : socket.sendTo out (startDataPacket ptp.transactionId data.length) with
    ⟨_ | k, out'⟩
  · have hnone : (none : Option ℕ) ≠ some 20 := Option.some_ne_none 20 |>.symm
    simp only [if_neg hnone]
    have hbytes : out'.bytes = out.bytes ++ [] := by
      rw [Socket.sendTo_none hsend, List.append_nil]
    exact hfailed hbytes List.nil_prefix (by rw [List.length_nil]; omega)
  · obtain ⟨hle, -, hbytes⟩ := Socket.sendTo_some hsend
    by_cases hk : k = 20
    · subst hk
      rw [← hlength, List.take_length] at hbytes
      have hfirst : Writes (startDataPacket ptp.transactionId data.length) True out out' :=
        ⟨⟨_, hbytes, List.prefix_refl _, iff_of_true trivial rfl⟩⟩
      simp only [if_true]
      exact hfirst.append (ptpipSenddataLoop_writes socket ptp.transactionId out' data)
    · have hsome : some k ≠ some 20 := mt Option.some.inj hk
      simp only [if_neg hsome]
      exact hfailed hbytes (List.take_prefix _ _) (by rw [List.length_take]; omega)

theorem ptpipSenddataLoop_ret (socket : Socket) (tid : BitVec 32) (out : Outgoing) (left : ℕ)
    (data : List Byte) :
    (ptpipSenddataLoop socket tid out left data).1 = PTP_RC_OK ∨
      (ptpipSenddataLoop socket tid out left data).1 = PTP_RC_GeneralError := by
  induction left using Nat.strong_induction_on generalizing out data with
  | _ left ih =>
    rw [ptpipSenddataLoop]
    split_ifs with hzero
    · exact Or.inl rfl
    all_goals
      dsimp only
      split_ifs
      · apply ih
        unfold WRITE_BLOCKSIZE
        omega
      · exact Or.inr rfl

theorem ptpipSenddata_ret (socket : Socket) (out : Outgoing) (ptp : PTPContainer) (size : ℕ)
    (data : List Byte) :
    (ptpipSenddata socket out ptp size data).1 = PTP_RC_OK ∨
      (ptpipSenddata socket out ptp size data).1 = PTP_RC_GeneralError := by
  unfold ptpipSenddata
  dsimp only
  split_ifs
  · exact ptpipSenddataLoop_ret ..
  · exact Or.inr rfl

end sending

/-- What is gathered from packets as long as something is missing: the blocks of the data packets,
whatever stands between them. -/
inductive Gathers : List Byte → List Byte → Prop
  | done : Gathers [] []
  | block {type tid : BitVec 32} {block data bytes : List Byte}
      (htype : type = PTPIP_END_DATA_PACKET ∨ type = PTPIP_DATA_PACKET)
      (hsize : 4 + block.length < 2 ^ 31) (hne : block ++ data ≠ []) (h : Gathers data bytes) :
      Gathers (block ++ data) (dataPacket type tid block ++ bytes)
  | other {type : BitVec 32} {payload data bytes : List Byte}
      (htype : ¬ (type = PTPIP_END_DATA_PACKET ∨ type = PTPIP_DATA_PACKET))
      (hsize : payload.length < 2 ^ 31) (hne : data ≠ []) (h : Gathers data bytes) :
      Gathers data (packet type payload ++ bytes)

section getting

variable {s s' : List (Piece Byte)} {toread : ℕ} {acc data bytes rest : List Byte}

theorem datalen_eq {payload : List Byte} (h4 : 4 ≤ payload.length)
    (hsize : payload.length < 2 ^ 31) :
    (BitVec.ofNat 32 (8 + payload.length) - 8 - 4).toNat = payload.length - 4 := by
  have height : (8 : BitVec 32).toNat = 8 := rfl
  have hfour : (4 : BitVec 32).toNat = 4 := rfl
  simp only [BitVec.toNat_sub, BitVec.toNat_ofNat, height, hfour]
  omega

/-- A packet that is shorter than a transaction id seems to have a block of nearly 4 GiB. -/
theorem datalen_short {payload : List Byte} (h4 : payload.length < 4) :
    (BitVec.ofNat 32 (8 + payload.length) - 8 - 4).toNat = 2 ^ 32 - (4 - payload.length) := by
  have height : (8 : BitVec 32).toNat = 8 := rfl
  have hfour : (4 : BitVec 32).toNat = 4 := rfl
  simp only [BitVec.toNat_sub, BitVec.toNat_ofNat, height, hfour]
  omega

theorem ptpipGetdataLoop_done (h : acc.length = toread) :
    ptpipGetdataLoop toread acc s = some (PTP_RC_OK, acc, s) := by
  rw [ptpipGetdataLoop, if_neg (by omega)]

theorem ptpipGetdataLoop_read {hdr : PTPIPHeader} {xdata : List Byte} (hlt : acc.length < toread)
    (hread : genericRead s = (some (hdr, xdata), s')) :
    ptpipGetdataLoop toread acc s =
      if hdr.type = PTPIP_END_DATA_PACKET ∨ hdr.type = PTPIP_DATA_PACKET then
        if toread - acc.length < (hdr.length - 8 - 4).toNat then
          some (PTP_RC_GeneralError, acc, s')
        else (memcpy? xdata 4 (hdr.length - 8 - 4).toNat).bind fun block =>
          ptpipGetdataLoop toread (acc ++ block) s'
      else ptpipGetdataLoop toread acc s' := by
  rw [ptpipGetdataLoop, if_pos hlt]
  split
  · rename_i hnone
    rw [hread] at hnone
    simp at hnone
  · rename_i hsome
    rw [hread] at hsome
    obtain ⟨hpair, rfl⟩ := Prod.mk.inj hsome
    obtain ⟨rfl, rfl⟩ := Prod.mk.inj (Option.some.inj hpair)
    rfl

theorem ptpipGetdataLoop_end (hlt : acc.length < toread) (hread : genericRead s = (none, s')) :
    ptpipGetdataLoop toread acc s = some (PTP_RC_GeneralError, acc, s') := by
  rw [ptpipGetdataLoop, if_pos hlt]
  split
  · rename_i hnone
    rw [hread] at hnone
    obtain ⟨-, rfl⟩ := Prod.mk.inj hnone
    rfl
  · rename_i hsome
    rw [hread] at hsome
    simp at hsome

theorem ptpipGetdataLoop_block {type tid : BitVec 32} {block : List Byte}
    (htype : type = PTPIP_END_DATA_PACKET ∨ type = PTPIP_DATA_PACKET)
    (hsize : 4 + block.length < 2 ^ 31) (hlt : acc.length < toread)
    (hle : acc.length + block.length ≤ toread)
    (h : content s = dataPacket type tid block ++ rest) :
    ∃ s', ptpipGetdataLoop toread acc s = ptpipGetdataLoop toread (acc ++ block) s' ∧
      content s' = rest := by
  have hlength : (htod32a tid ++ block).length = 4 + block.length := by
    rw [List.length_append, length_htod32a]
  obtain ⟨s', hread, hrest⟩ := genericRead_packet (by rw [hlength]; exact hsize) h
  have hdatalen := @datalen_eq (htod32a tid ++ block) (by omega) (by omega)
  have hcopy : memcpy? (htod32a tid ++ block) 4 block.length = some block := by
    rw [memcpy?, if_pos (by omega), List.drop_left' (length_htod32a tid), List.take_length]
  refine ⟨s', ?_, hrest⟩
  rw [ptpipGetdataLoop_read hlt hread, if_pos htype, hdatalen, hlength, Nat.add_sub_cancel_left,
    if_neg (by omega), hcopy, Option.bind_some]

theorem ptpipGetdataLoop_other {type : BitVec 32} {payload : List Byte}
    (htype : ¬ (type = PTPIP_END_DATA_PACKET ∨ type = PTPIP_DATA_PACKET))
    (hsize : payload.length < 2 ^ 31) (hlt : acc.length < toread)
    (h : content s = packet type payload ++ rest) :
    ∃ s', ptpipGetdataLoop toread acc s = ptpipGetdataLoop toread acc s' ∧ content s' = rest := by
  obtain ⟨s', hread, hrest⟩ := genericRead_packet hsize h
  exact ⟨s', by rw [ptpipGetdataLoop_read hlt hread, if_neg htype], hrest⟩

theorem ptpipGetdataLoop_gathers (hg : Gathers data bytes)
    (htoread : acc.length + data.length = toread) (h : content s = bytes ++ rest) :
    ∃ s', ptpipGetdataLoop toread acc s = some (PTP_RC_OK, acc ++ data, s') ∧
      content s' = rest := by
  induction hg generalizing acc s with
  | done =>
    refine ⟨s, ?_, h⟩
    rw [List.append_nil]
    exact ptpipGetdataLoop_done htoread
  | @block type tid block data bytes htype hsize hne hg ih =>
    have hpos := List.length_pos_iff.mpr hne
    rw [List.length_append] at hpos htoread
    rw [List.append_assoc] at h
    have hlt : acc.length < toread := by omega
    obtain ⟨s₁, hloop, hrest⟩ := ptpipGetdataLoop_block htype hsize hlt (by omega) h
    have htotal : (acc ++ block).length + data.length = toread := by
      rw [List.length_append]
      omega
    obtain ⟨s', hend, hend'⟩ := ih htotal hrest
    refine ⟨s', ?_, hend'⟩
    rw [hloop, hend, List.append_assoc]
  | other htype hsize hne hg ih =>
    have hpos := List.length_pos_iff.mpr hne
    rw [List.append_assoc] at h
    have hlt : acc.length < toread := by omega
    obtain ⟨s₁, hloop, hrest⟩ := ptpipGetdataLoop_other htype hsize hlt h
    obtain ⟨s', hend, hend'⟩ := ih htoread hrest
    exact ⟨s', hloop.trans hend, hend'⟩

theorem ptpipGetdataLoop_eq_some (h : ptpipGetdataLoop toread acc s = some (PTP_RC_OK, data, s'))
    (hle : acc.length ≤ toread) :
    ∃ missing bytes, data = acc ++ missing ∧ acc.length + missing.length = toread ∧
      content s = bytes ++ content s' ∧ Gathers missing bytes := by
  obtain ⟨n, hn⟩ : ∃ n, (content s).length = n := ⟨_, rfl⟩
  induction n using Nat.strong_induction_on generalizing acc s with
  | _ n ih =>
    by_cases hlt : acc.length < toread
    case neg =>
      rw [ptpipGetdataLoop_done (by omega)] at h
      obtain ⟨-, hrest⟩ := Prod.mk.inj (Option.some.inj h)
      obtain ⟨rfl, rfl⟩ := Prod.mk.inj hrest
      refine ⟨[], [], (List.append_nil _).symm, ?_, rfl, .done⟩
      rw [List.length_nil]
      omega
    rcases hread : genericRead s with ⟨_ | ⟨hdr, xdata⟩, s₁⟩
    · rw [ptpipGetdataLoop_end hlt hread] at h
      exact absurd (Prod.mk.inj (Option.some.inj h)).1 PTP_RC_GeneralError_ne_OK
    obtain ⟨hsize, hlength, hcontent⟩ := genericRead_eq_some hread
    have hsmaller := genericRead_lt hread
    rw [ptpipGetdataLoop_read hlt hread] at h
    by_cases htype : hdr.type = PTPIP_END_DATA_PACKET ∨ hdr.type = PTPIP_DATA_PACKET
    · rw [if_pos htype] at h
      split at h
      · exact absurd (Prod.mk.inj (Option.some.inj h)).1 PTP_RC_GeneralError_ne_OK
      rename_i hfits
      obtain ⟨block, hcopy, h⟩ := Option.bind_eq_some_iff.mp h
      by_cases h4 : 4 ≤ xdata.length
      case neg =>
        rw [hlength, datalen_short (by omega), memcpy?, if_neg (by omega)] at hcopy
        simp at hcopy
      have hdatalen := datalen_eq h4 hsize
      rw [hlength, hdatalen] at hcopy hfits
      rw [memcpy?, if_pos (by omega)] at hcopy
      have hblock : block = xdata.drop 4 := by
        rw [← Option.some.inj hcopy]
        exact List.take_of_length_le (by rw [List.length_drop])
      have hblocklen : block.length = xdata.length - 4 := by rw [hblock, List.length_drop]
      have hpayload : htod32a (dtoh32a xdata 0) ++ block = xdata := by
        rw [htod32a_dtoh32a (by omega), hblock, List.drop_zero, List.take_append_drop]
      obtain ⟨missing, bytes, hdata, htotal, hbytes, hg⟩ := ih _ (hn ▸ hsmaller) h
        (by rw [List.length_append]; omega) rfl
      refine ⟨block ++ missing, dataPacket hdr.type (dtoh32a xdata 0) block ++ bytes, ?_, ?_, ?_,
        .block htype (by omega) ?_ hg⟩
      · rw [hdata, List.append_assoc]
      · rw [List.length_append] at htotal ⊢
        omega
      · rw [hcontent, dataPacket, hpayload, hbytes, List.append_assoc]
      · apply List.length_pos_iff.mp
        rw [List.length_append] at htotal ⊢
        omega
    · rw [if_neg htype] at h
      obtain ⟨missing, bytes, hdata, htotal, hbytes, hg⟩ := ih _ (hn ▸ hsmaller) h hle rfl
      refine ⟨missing, packet hdr.type xdata ++ bytes, hdata, htotal, ?_,
        .other htype hsize ?_ hg⟩
      · rw [hcontent, hbytes, List.append_assoc]
      · exact List.length_pos_iff.mp (by omega)

theorem ptpipGetdataLoop_ret {ret : BitVec 16}
    (h : ptpipGetdataLoop toread acc s = some (ret, data, s')) :
    ret = PTP_RC_OK ∨ ret = PTP_RC_GeneralError := by
  obtain ⟨n, hn⟩ : ∃ n, (content s).length = n := ⟨_, rfl⟩
  induction n using Nat.strong_induction_on generalizing acc s with
  | _ n ih =>
    by_cases hlt : acc.length < toread
    case neg =>
      rw [ptpipGetdataLoop, if_neg hlt] at h
      exact Or.inl (Prod.mk.inj (Option.some.inj h)).1.symm
    rcases hread : genericRead s with ⟨_ | ⟨hdr, xdata⟩, s₁⟩
    · rw [ptpipGetdataLoop_end hlt hread] at h
      exact Or.inr (Prod.mk.inj (Option.some.inj h)).1.symm
    have hsmaller := genericRead_lt hread
    rw [ptpipGetdataLoop_read hlt hread] at h
    split_ifs at h
    · exact Or.inr (Prod.mk.inj (Option.some.inj h)).1.symm
    · obtain ⟨block, -, h⟩ := Option.bind_eq_some_iff.mp h
      exact ih _ (hn ▸ hsmaller) h rfl
    · exact ih _ (hn ▸ hsmaller) h rfl

theorem ptpipGetdata_ret {ret : BitVec 16} (h : ptpipGetdata s = some (ret, data, s')) :
    ret = PTP_RC_OK ∨ ret = PTP_RC_GeneralError := by
  unfold ptpipGetdata at h
  rcases hread : genericRead s with ⟨_ | ⟨hdr, head⟩, s₁⟩
  · rw [hread] at h
    exact Or.inr (Prod.mk.inj (Option.some.inj h)).1.symm
  rw [hread] at h
  dsimp only at h
  split_ifs at h
  · exact Or.inr (Prod.mk.inj (Option.some.inj h)).1.symm
  · exact Or.inr (Prod.mk.inj (Option.some.inj h)).1.symm
  · exact ptpipGetdataLoop_ret h

theorem ptpipGetdata_start {head : List Byte} (h8 : 8 ≤ head.length)
    (hsize : head.length < 2 ^ 31) (h : content s = packet PTPIP_START_DATA_PACKET head ++ rest) :
    ∃ s₁, ptpipGetdata s = ptpipGetdataLoop (dtoh32a head 4).toNat [] s₁ ∧ content s₁ = rest := by
  obtain ⟨s₁, hread, hrest⟩ := genericRead_packet hsize h
  have hresponse : PTPIP_START_DATA_PACKET ≠ PTPIP_CMD_RESPONSE := by decide
  refine ⟨s₁, ?_, hrest⟩
  unfold ptpipGetdata
  rw [hread]
  dsimp only
  rw [if_neg hresponse, if_neg (not_not.mpr rfl), if_neg (by omega)]

/-- However the packets arrive: `data` comes of a data phase exactly if its first packet announces
that many bytes and they are in the data packets behind it, and no more is read. -/
theorem ptpipGetdata_ok_iff (s : List (Piece Byte)) (data rest : List Byte) :
    (∃ s', ptpipGetdata s = some (PTP_RC_OK, data, s') ∧ content s' = rest) ↔
      ∃ head bytes, content s = packet PTPIP_START_DATA_PACKET head ++ (bytes ++ rest) ∧
        8 ≤ head.length ∧ head.length < 2 ^ 31 ∧ (dtoh32a head 4).toNat = data.length ∧
        Gathers data bytes := by
  constructor
  · rintro ⟨s', h, hrest⟩
    unfold ptpipGetdata at h
    rcases hread : genericRead s with ⟨_ | ⟨hdr, head⟩, s₁⟩
    · rw [hread] at h
      exact absurd (Prod.mk.inj (Option.some.inj h)).1 PTP_RC_GeneralError_ne_OK
    obtain ⟨hsize, hlength, hcontent⟩ := genericRead_eq_some hread
    rw [hread] at h
    dsimp only at h
    split_ifs at h with hresponse hshort hstart h8
    · exact absurd (Prod.mk.inj (Option.some.inj h)).1 PTP_RC_GeneralError_ne_OK
    · exact absurd (Prod.mk.inj (Option.some.inj h)).1 PTP_RC_GeneralError_ne_OK
    obtain ⟨missing, bytes, hdata, htotal, hbytes, hg⟩ :=
      ptpipGetdataLoop_eq_some h (Nat.zero_le _)
    rw [List.nil_append] at hdata
    subst hdata
    rw [not_not.mp hstart, hbytes, hrest] at hcontent
    exact ⟨head, bytes, hcontent, by omega, hsize, by simpa using htotal.symm, hg⟩
  · rintro ⟨head, bytes, hcontent, h8, hsize, htotal, hg⟩
    obtain ⟨s₁, hstart, hrest₁⟩ := ptpipGetdata_start h8 hsize hcontent
    have hnone : ([] : List Byte).length + data.length = data.length := Nat.zero_add _
    obtain ⟨s', hloop, hrest⟩ := ptpipGetdataLoop_gathers hg hnone hrest₁
    refine ⟨s', ?_, hrest⟩
    rw [hstart, htotal, hloop, List.nil_append]

theorem gathers_dataPackets (tid : BitVec 32) (data : List Byte) :
    Gathers data (dataPackets tid data) := by
  obtain ⟨n, hn⟩ : ∃ n, data.length = n := ⟨_, rfl⟩
  induction n using Nat.strong_induction_on generalizing data with
  | _ n ih =>
    rw [dataPackets]
    by_cases hnil : data = []
    · rw [if_pos hnil, hnil]
      exact .done
    rw [if_neg hnil]
    by_cases hlt : WRITE_BLOCKSIZE < data.length
    · have hblock : (data.take WRITE_BLOCKSIZE).length = 32756 := by
        rw [List.length_take, min_eq_left hlt.le, WRITE_BLOCKSIZE]
      have hsmaller : (data.drop WRITE_BLOCKSIZE).length < n := by
        rw [List.length_drop, WRITE_BLOCKSIZE]
        omega
      rw [if_pos hlt]
      have hg := @Gathers.block PTPIP_DATA_PACKET tid _ _ _ (Or.inr rfl) (by rw [hblock]; omega)
        (by rwa [List.take_append_drop]) (ih _ hsmaller _ rfl)
      rwa [List.take_append_drop] at hg
    · have hsize : 4 + data.length < 2 ^ 31 := by
        unfold WRITE_BLOCKSIZE at hlt
        omega
      rw [if_neg hlt]
      have hg := @Gathers.block PTPIP_END_DATA_PACKET tid _ _ _ (Or.inl rfl) hsize
        (by rwa [List.append_nil]) .done
      rwa [List.append_nil, List.append_nil] at hg

/-- What `ptp_ptpip_senddata` writes is what `ptp_ptpip_getdata` reads back, with whatever comes
behind it left alone, exactly as long as the size fits its field. -/
theorem ptpipGetdata_sentPhase_iff (tid : BitVec 32) (data rest : List Byte)
    {s : List (Piece Byte)} (h : content s = sentPhase tid data ++ rest) :
    (∃ s', ptpipGetdata s = some (PTP_RC_OK, data, s') ∧ content s' = rest) ↔
      data.length < 2 ^ 32 := by
  have hhead : (htod32a tid ++ (htod32a (BitVec.ofNat 32 data.length) ++ htod32a 0)).length = 12 :=
    rfl
  have hsize : (dtoh32a (htod32a tid ++ (htod32a (BitVec.ofNat 32 data.length) ++ htod32a 0))
      4).toNat = data.length % 2 ^ 32 := by
    rw [dtoh32a_append _ (length_htod32a tid), BitVec.toNat_ofNat]
  rw [sentPhase, List.append_assoc] at h
  rw [ptpipGetdata_ok_iff]
  constructor
  · rintro ⟨head, bytes, hcontent, -, hlt, htotal, -⟩
    obtain ⟨s₁, hread, -⟩ := genericRead_packet (by rw [hhead]; omega) h
    obtain ⟨s₂, hread', -⟩ := genericRead_packet hlt hcontent
    rw [hread] at hread'
    obtain ⟨hsome, -⟩ := Prod.mk.inj hread'
    obtain ⟨-, rfl⟩ := Prod.mk.inj (Option.some.inj hsome)
    rw [hsize] at htotal
    omega
  · intro hlt
    exact ⟨_, dataPackets tid data, h, by rw [hhead]; omega, by rw [hhead]; omega,
      by rw [hsize]; exact Nat.mod_eq_of_lt hlt, gathers_dataPackets tid data⟩

end getting

end VitaMTP
