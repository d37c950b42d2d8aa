import VitaMTP.Transport.Usb

/-! What a device makes of the packets that are written to it over USB. -/
namespace VitaMTP
open Transfers

/-- Every write takes what it is offered. -/
def UsbPipes.Whole (pipes : UsbPipes) : Prop := ∀ n len, pipes.write n len = some len

/-- Packets that have been written, `count` bytes, and nothing else that has changed. -/
structure UsbLink.Sends (link link' : UsbLink) (packets : List (List Byte)) (count : ℕ) : Prop where
  sent : link'.sent = link.sent ++ packets
  complete : link'.complete = link.complete + count
  total : link'.total = link.total
  incoming : link'.incoming = link.incoming
  splitHeaderData : link'.splitHeaderData = link.splitHeaderData
  responsePacket : link'.responsePacket = link.responsePacket

namespace UsbLink.Sends

variable {link link₁ link₂ : UsbLink} {packets packets' : List (List Byte)} {count count' : ℕ}

theorem trans (h : link.Sends link₁ packets count) (h' : link₁.Sends link₂ packets' count') :
    link.Sends link₂ (packets ++ packets') (count + count') where
  sent := by rw [h'.sent, h.sent, List.append_assoc]
  complete := by rw [h'.complete, h.complete, Nat.add_assoc]
  total := h'.total.trans h.total
  incoming := h'.incoming.trans h.incoming
  splitHeaderData := h'.splitHeaderData.trans h.splitHeaderData
  responsePacket := h'.responsePacket.trans h.responsePacket

end UsbLink.Sends

section writing

variable {pipes : UsbPipes} {data : List Byte} {link : UsbLink}

theorem usbWriteBlock_whole (hwhole : pipes.Whole) (hne : data ≠ []) (last : ℕ) (link : UsbLink) :
    ∃ link', usbWriteBlock pipes last data link = (some data.length, link') ∧
      link.Sends link' (chunks pipes.outMaxpacket data) data.length := by
  have hnil (last : ℕ) (link : UsbLink) : usbWriteBlock pipes last [] link = (some last, link) := by
    rw [usbWriteBlock, if_pos rfl]
  rw [usbWriteBlock, if_neg hne]
  split
  · rename_i hnone
    rw [hwhole] at hnone
    simp at hnone
  · rename_i k hsome
    obtain rfl := Option.some.inj ((hwhole _ _).symm.trans hsome)
    rw [List.drop_length, List.take_length, hnil]
    exact ⟨_, rfl, rfl, rfl, rfl, rfl, rfl, rfl⟩

/-- The blocks end where packets do. -/
def UsbPipes.Fits (pipes : UsbPipes) (size : ℕ) : Prop :=
  size ≤ CONTEXT_BLOCK_SIZE ∨ pipes.outMaxpacket ∣ CONTEXT_BLOCK_SIZE

theorem blockSize_le (pipes : UsbPipes) (size : ℕ) : blockSize pipes size ≤ size := by
  unfold blockSize
  split_ifs <;> omega

theorem blockSize_dvd {size : ℕ} (hfits : pipes.Fits size) (hlt : blockSize pipes size < size) :
    pipes.outMaxpacket ∣ blockSize pipes size ∧ pipes.Fits (size - blockSize pipes size) := by
  have hdvd : pipes.outMaxpacket ∣ size - size % pipes.outMaxpacket := Nat.dvd_sub_mod size
  unfold UsbPipes.Fits at hfits ⊢
  unfold blockSize at hlt ⊢
  split_ifs at hlt ⊢ with hlong hsplit
  · have hcontext := hfits.resolve_left (Nat.not_le.mpr hlong)
    exact ⟨hcontext, Or.inr hcontext⟩
  · exact ⟨hdvd, Or.inl (by omega)⟩
  · exact absurd hlt (Nat.lt_irrefl _)

theorem ptpWriteLoop_whole (hwhole : pipes.Whole) (hne : data ≠ []) (written towrite : ℕ)
    (link : UsbLink) :
    ∃ last packets link', ptpWriteLoop pipes written towrite data link =
        (some (written + data.length, last), link') ∧ link.Sends link' packets data.length ∧
      (pipes.Fits data.length → packets = chunks pipes.outMaxpacket data ∧
        (last % pipes.outMaxpacket = 0 ↔ pipes.outMaxpacket ∣ data.length)) := by
  obtain ⟨n, hn⟩ : ∃ n, data.length = n := ⟨_, rfl⟩
  induction n using Nat.strong_induction_on generalizing written towrite data link with
  | _ n ih =>
    have hlength := List.length_pos_iff.mpr hne
    have hpos := blockSize_pos pipes hlength
    have hle := blockSize_le pipes data.length
    have htake : (data.take (blockSize pipes data.length)).length =
        blockSize pipes data.length := by
      rw [List.length_take, Nat.min_eq_left hle]
    have hrest : (data.drop (blockSize pipes data.length)).length =
        data.length - blockSize pipes data.length := List.length_drop
    have hblock : data.take (blockSize pipes data.length) ≠ [] :=
      List.length_pos_iff.mp (by omega)
    obtain ⟨link₁, hwrite, hsends⟩ := usbWriteBlock_whole hwhole hblock 0 link
    rw [ptpWriteLoop, dif_neg hne]
    simp only [hwrite]
    rw [htake, if_neg (Nat.lt_irrefl _)]
    rcases hle.lt_or_eq with hlt | heq
    · have hmore : data.drop (blockSize pipes data.length) ≠ [] :=
        List.length_pos_iff.mp (by omega)
      obtain ⟨last, packets, link', hloop, hsends', hlast⟩ := ih _ (by omega) hmore
        (written + blockSize pipes data.length) (blockSize pipes data.length) link₁ rfl
      rw [hrest] at hlast
      refine ⟨last, chunks pipes.outMaxpacket (data.take (blockSize pipes data.length)) ++ packets,
        link', ?_, ?_, fun hfits => ?_⟩
      · rw [hloop, hrest, Nat.add_assoc, Nat.add_sub_cancel' hle]
      · have hboth := hsends.trans hsends'
        rw [hrest, htake, Nat.add_sub_cancel' hle] at hboth
        exact hboth
      · obtain ⟨hdvd, hfits'⟩ := blockSize_dvd hfits hlt
        obtain ⟨rfl, hend⟩ := hlast hfits'
        have hdvd' : pipes.outMaxpacket ∣ (data.take (blockSize pipes data.length)).length := by
          rw [htake]
          exact hdvd
        rw [← chunks_append pipes.outMaxpacket_pos hdvd', List.take_append_drop]
        exact ⟨rfl, hend.trans (Nat.dvd_sub_iff_left hle hdvd)⟩
    · have hdone : data.drop (blockSize pipes data.length) = [] :=
        List.length_eq_zero_iff.mp (by omega)
      rw [heq, List.take_length] at hsends
      rw [hdone, heq]
      refine ⟨data.length, _, link₁, ?_, hsends, fun _ => ⟨rfl, ?_⟩⟩
      · rw [ptpWriteLoop, dif_pos rfl]
      · exact (Nat.dvd_iff_mod_eq_zero ..).symm

/-- What is written of a block: the packets of a transfer, if it ends here. -/
def UsbLink.blockPackets (pipes : UsbPipes) (link : UsbLink) (data : List Byte) :
    List (List Byte) :=
  if link.total ≤ link.complete + data.length then packets pipes.outMaxpacket data
  else chunks pipes.outMaxpacket data

theorem ptpWriteFunc_whole (hwhole : pipes.Whole) (hne : data ≠ []) (link : UsbLink) :
    ∃ packets link', ptpWriteFunc pipes data link = (PTP_RC_OK, data.length, link') ∧
      link.Sends link' packets data.length ∧
      (pipes.Fits data.length → packets = link.blockPackets pipes data) := by
  obtain ⟨last, packets, link₁, hloop, hsends, hlast⟩ := ptpWriteLoop_whole hwhole hne 0 0 link
  have hzero : link₁.Sends { link₁ with writes := link₁.writes + 1, sent := link₁.sent ++ [[]] }
      [[]] 0 := ⟨rfl, rfl, rfl, rfl, rfl, rfl⟩
  rw [ptpWriteFunc, hloop, Nat.zero_add]
  dsimp only
  rw [hwhole]
  have htotal : link₁.total ≤ link₁.complete ↔ link.total ≤ link.complete + data.length := by
    rw [hsends.total, hsends.complete]
  by_cases hend : link.total ≤ link.complete + data.length
  · by_cases hmod : last % pipes.outMaxpacket = 0
    · rw [if_pos ⟨htotal.mpr hend, hmod⟩]
      refine ⟨_, _, rfl, hsends.trans hzero, fun hfits => ?_⟩
      obtain ⟨rfl, hdvd⟩ := hlast hfits
      rw [UsbLink.blockPackets, if_pos hend, Transfers.packets, if_pos (hdvd.mp hmod)]
    · rw [if_neg (fun h => hmod h.2)]
      refine ⟨_, _, rfl, hsends, fun hfits => ?_⟩
      obtain ⟨rfl, hdvd⟩ := hlast hfits
      rw [UsbLink.blockPackets, if_pos hend, Transfers.packets, if_neg (mt hdvd.mpr hmod),
        List.append_nil]
  · rw [if_neg (fun h => hend (htotal.mp h.1))]
    refine ⟨_, _, rfl, hsends, fun hfits => ?_⟩
    rw [UsbLink.blockPackets, if_neg hend]
    exact (hlast hfits).1

@[simp] theorem length_usbHeader (type code : BitVec 16) (tid : BitVec 32) (size : ℕ) :
    (usbHeader type code tid size).length = PTP_USB_BULK_HDR_LEN := by
  simp only [usbHeader, List.length_append, length_htod16a, length_htod32a]
  rfl

@[simp] theorem length_usbContainer (type code : BitVec 16) (tid : BitVec 32)
    (payload : List Byte) :
    (usbContainer type code tid payload).length = PTP_USB_BULK_HDR_LEN + payload.length := by
  rw [usbContainer, List.length_append, length_usbHeader]

def usbRequest (req : PTPContainer) : List Byte :=
  usbContainer PTP_USB_CONTAINER_COMMAND req.code req.transactionId
    (req.sentParams.flatMap htod32a)

theorem ptpUsbSendreq_whole (hwhole : pipes.Whole) (req : PTPContainer)
    (hdone : link.total ≤ link.complete) :
    ∃ link', ptpUsbSendreq pipes req link = (PTP_RC_OK, link') ∧
      link.Sends link' (packets pipes.outMaxpacket (usbRequest req)) (usbRequest req).length := by
  have hlength : (usbRequest req).length = 12 + 4 * req.nparam.val := by
    rw [usbRequest, length_usbContainer, length_flatMap_htod32a, PTPContainer.length_sentParams]
    rfl
  have hparams := req.nparam.isLt
  have hfits : pipes.Fits (usbRequest req).length := by
    left
    rw [hlength]
    unfold CONTEXT_BLOCK_SIZE CONTEXT_BLOCK_SIZE_1 CONTEXT_BLOCK_SIZE_2
    omega
  have hne : usbRequest req ≠ [] := List.length_pos_iff.mp (by omega)
  obtain ⟨packets, link', hwrite, hsends, hpackets⟩ := ptpWriteFunc_whole hwhole hne link
  rw [hpackets hfits, UsbLink.blockPackets, if_pos (by omega)] at hsends
  refine ⟨link', ?_, hsends⟩
  unfold ptpUsbSendreq
  dsimp only
  rw [← usbRequest, hwrite]
  dsimp only
  rw [if_neg (by simp)]

/-- `current_transfer_complete` and `current_transfer_total` at the start of a data phase. -/
def UsbLink.start (link : UsbLink) (size : ℕ) : UsbLink :=
  { link with complete := 0, total := size + PTP_USB_BULK_HDR_LEN }

theorem ptpUsbSenddataLoop_whole (hwhole : pipes.Whole) (hne : data ≠ []) (link : UsbLink) :
    ∃ packets link', ptpUsbSenddataLoop pipes data.length data link = (PTP_RC_OK, link') ∧
      link.Sends link' packets data.length ∧
      (pipes.Fits data.length → packets = link.blockPackets pipes data) := by
  obtain ⟨packets, link', hwrite, hsends, hpackets⟩ := ptpWriteFunc_whole hwhole hne link
  have hlength : data.length ≠ 0 := mt List.length_eq_zero_iff.mp hne
  refine ⟨packets, link', ?_, hsends, hpackets⟩
  rw [ptpUsbSenddataLoop, dif_neg hlength, List.take_length, hwrite]
  dsimp only
  rw [if_neg (not_not.mpr rfl), dif_neg hlength, Nat.sub_self, ptpUsbSenddataLoop, dif_pos rfl]

/-- How much of the data is in the packet of the header. -/
def UsbLink.datawlen (link : UsbLink) (size : ℕ) : ℕ :=
  if link.splitHeaderData then 0 else min size PTP_USB_BULK_PAYLOAD_LEN_WRITE

/-- The header, and the data that goes with it. -/
def UsbLink.firstPart (link : UsbLink) (ptp : PTPContainer) (data : List Byte) : List Byte :=
  usbHeader PTP_USB_CONTAINER_DATA ptp.code ptp.transactionId data.length ++
    data.take (link.datawlen data.length)

theorem datawlen_le (link : UsbLink) (size : ℕ) :
    link.datawlen size ≤ size ∧ link.datawlen size ≤ PTP_USB_BULK_PAYLOAD_LEN_WRITE := by
  unfold UsbLink.datawlen
  split <;> omega

@[simp] theorem length_firstPart (link : UsbLink) (ptp : PTPContainer) (data : List Byte) :
    (link.firstPart ptp data).length = PTP_USB_BULK_HDR_LEN + link.datawlen data.length := by
  have hle := datawlen_le link data.length
  rw [UsbLink.firstPart, List.length_append, length_usbHeader, List.length_take,
    Nat.min_eq_left hle.1]

/-- A data phase: the first part, which ends a transfer if there is no more, and the rest. -/
theorem ptpUsbSenddata_whole (hwhole : pipes.Whole) (ptp : PTPContainer)
    (hsize : data.length < 2 ^ 32) (link : UsbLink) :
    ∃ more link', ptpUsbSenddata pipes ptp data link = (PTP_RC_OK, link') ∧
      (link.start data.length).Sends link'
        (if data.drop (link.datawlen data.length) = [] then
          packets pipes.outMaxpacket (link.firstPart ptp data)
        else chunks pipes.outMaxpacket (link.firstPart ptp data) ++ more)
        (PTP_USB_BULK_HDR_LEN + data.length) ∧
      (pipes.Fits (data.drop (link.datawlen data.length)).length →
        more = packets pipes.outMaxpacket (data.drop (link.datawlen data.length))) := by
  have hle := datawlen_le link data.length
  have hrest : (data.drop (link.datawlen data.length)).length =
      data.length - link.datawlen data.length := List.length_drop
  have hfirst := length_firstPart link ptp data
  have hfits : pipes.Fits (link.firstPart ptp data).length := by
    left
    rw [hfirst]
    unfold PTP_USB_BULK_HDR_LEN PTP_USB_BULK_PAYLOAD_LEN_WRITE CONTEXT_BLOCK_SIZE
      CONTEXT_BLOCK_SIZE_1 CONTEXT_BLOCK_SIZE_2 at *
    omega
  have hne : link.firstPart ptp data ≠ [] := by
    apply List.length_pos_iff.mp
    rw [hfirst, PTP_USB_BULK_HDR_LEN]
    omega
  obtain ⟨packets, link₁, hwrite, hsends, hpackets⟩ :=
    ptpWriteFunc_whole hwhole hne (link.start data.length)
  have htotal : (link.start data.length).total = data.length + PTP_USB_BULK_HDR_LEN := rfl
  have hcomplete : (link.start data.length).complete = 0 := rfl
  rw [hpackets hfits, UsbLink.blockPackets, htotal, hcomplete, hfirst] at hsends
  have hstart : ptpUsbSenddata pipes ptp data link =
      if data.length ≤ link.datawlen data.length then (PTP_RC_OK, link₁)
      else ptpUsbSenddataLoop pipes
        (BitVec.ofNat 32 data.length - BitVec.ofNat 32 (link.datawlen data.length)).toNat
        (data.drop (link.datawlen data.length)) link₁ := by
    unfold UsbLink.firstPart UsbLink.start at hwrite
    unfold ptpUsbSenddata
    rw [show (if link.splitHeaderData = true then 0
      else min data.length PTP_USB_BULK_PAYLOAD_LEN_WRITE) = link.datawlen data.length from rfl]
    dsimp only
    rw [hwrite]
    dsimp only
    rw [if_neg (not_not.mpr rfl)]
  rw [hstart]
  by_cases hdone : data.drop (link.datawlen data.length) = []
  · have hzero := List.length_eq_zero_iff.mpr hdone
    rw [if_pos (by omega)] at hsends
    refine ⟨Transfers.packets pipes.outMaxpacket (data.drop (link.datawlen data.length)), link₁,
      if_pos (by omega), ?_, fun _ => rfl⟩
    have hall : link.datawlen data.length = data.length := by omega
    rw [if_pos hdone]
    rwa [hall] at hsends
  · have hpos := List.length_pos_iff.mpr hdone
    have hleft : (BitVec.ofNat 32 data.length -
        BitVec.ofNat 32 (link.datawlen data.length)).toNat =
        (data.drop (link.datawlen data.length)).length := by
      rw [hrest, BitVec.toNat_sub, BitVec.toNat_ofNat, BitVec.toNat_ofNat]
      omega
    obtain ⟨more, link', hloop, hsends', hmore⟩ := ptpUsbSenddataLoop_whole hwhole hdone link₁
    rw [if_neg (by omega)] at hsends
    rw [if_neg (by omega), hleft, hloop]
    refine ⟨more, link', rfl, ?_, fun hfits => ?_⟩
    · rw [if_neg hdone]
      have hboth := hsends.trans hsends'
      have hcount : PTP_USB_BULK_HDR_LEN + link.datawlen data.length +
          (data.drop (link.datawlen data.length)).length = PTP_USB_BULK_HDR_LEN + data.length := by
        omega
      rwa [hcount] at hboth
    · rw [hmore hfits, UsbLink.blockPackets, if_pos]
      rw [hsends.total, hsends.complete, htotal, hcomplete]
      omega

theorem fits_of_dvd {size : ℕ} (h : pipes.outMaxpacket ∣ 512) : pipes.Fits size :=
  Or.inr (h.trans ⟨32, rfl⟩)

def usbData (ptp : PTPContainer) (data : List Byte) : List Byte :=
  usbContainer PTP_USB_CONTAINER_DATA ptp.code ptp.transactionId data

theorem firstPart_append (link : UsbLink) (ptp : PTPContainer) (data : List Byte) :
    link.firstPart ptp data ++ data.drop (link.datawlen data.length) = usbData ptp data := by
  rw [UsbLink.firstPart, List.append_assoc, List.take_append_drop]
  rfl

theorem datawlen_unsplit (hsplit : link.splitHeaderData = false) (size : ℕ) :
    link.datawlen size = min size PTP_USB_BULK_PAYLOAD_LEN_WRITE := by
  rw [UsbLink.datawlen, hsplit, if_neg Bool.false_ne_true]

theorem firstPart_whole (h : data.drop (link.datawlen data.length) = []) (ptp : PTPContainer) :
    link.firstPart ptp data = usbData ptp data := by
  have happend := firstPart_append link ptp data
  rwa [h, List.append_nil] at happend

/-- With a maximum packet that divides 512, the device gets the container as one transfer. -/
theorem ptpUsbSenddata_unsplit (hwhole : pipes.Whole) (ptp : PTPContainer)
    (hsize : data.length < 2 ^ 32) (hsplit : link.splitHeaderData = false)
    (hdvd : data.length ≤ PTP_USB_BULK_PAYLOAD_LEN_WRITE ∨ pipes.outMaxpacket ∣ 512) :
    ∃ link', ptpUsbSenddata pipes ptp data link = (PTP_RC_OK, link') ∧
      (link.start data.length).Sends link' (packets pipes.outMaxpacket (usbData ptp data))
        (PTP_USB_BULK_HDR_LEN + data.length) := by
  obtain ⟨more, link', hsend, hsends, hmore⟩ := ptpUsbSenddata_whole hwhole ptp hsize link
  have hlen := datawlen_unsplit hsplit data.length
  refine ⟨link', hsend, ?_⟩
  by_cases hdone : data.drop (link.datawlen data.length) = []
  · rwa [if_pos hdone, firstPart_whole hdone] at hsends
  · have hlong : PTP_USB_BULK_PAYLOAD_LEN_WRITE < data.length := by
      have hpos := List.length_pos_iff.mpr hdone
      rw [List.length_drop] at hpos
      omega
    have h512 := hdvd.resolve_left (Nat.not_le.mpr hlong)
    have hfirst : pipes.outMaxpacket ∣ (link.firstPart ptp data).length := by
      rw [length_firstPart, hlen, Nat.min_eq_right hlong.le]
      exact h512
    rw [if_neg hdone, hmore (fits_of_dvd h512), ← packets_append pipes.outMaxpacket_pos hfirst,
      firstPart_append] at hsends
    exact hsends

theorem ptpUsbSenddata_cut (hwhole : pipes.Whole) (ptp : PTPContainer)
    (hsize : data.length < 2 ^ 32) (hmore : data.drop (link.datawlen data.length) ≠ [])
    (hshort : ¬ pipes.outMaxpacket ∣ (link.firstPart ptp data).length) :
    ∃ packets link', ptpUsbSenddata pipes ptp data link = (PTP_RC_OK, link') ∧
      link'.sent = link.sent ++ packets ∧
      assemble pipes.outMaxpacket [] packets ≠ ([usbData ptp data], []) := by
  obtain ⟨more, link', hsend, hsends, -⟩ := ptpUsbSenddata_whole hwhole ptp hsize link
  have hfirst : chunks pipes.outMaxpacket (link.firstPart ptp data) =
      packets pipes.outMaxpacket (link.firstPart ptp data) := by
    rw [packets, if_neg hshort, List.append_nil]
  rw [if_neg hmore, hfirst] at hsends
  refine ⟨_, link', hsend, hsends.sent, ?_⟩
  rw [assemble_packets pipes.outMaxpacket_pos, List.nil_append]
  intro h
  have hwholeData := (List.cons.inj (Prod.mk.inj h).1).1
  rw [← firstPart_append link ptp data, List.self_eq_append_right] at hwholeData
  exact hmore hwholeData

/-- The device gets a data phase as one transfer exactly if it fits into the first packet, or the
maximum packet divides 512. With the header apart it does only if there is no data. -/
theorem ptpUsbSenddata_transfers_iff (hwhole : pipes.Whole) (ptp : PTPContainer)
    (hsize : data.length < 2 ^ 32)
    (hheader : link.splitHeaderData = true → ¬ pipes.outMaxpacket ∣ PTP_USB_BULK_HDR_LEN) :
    ∃ packets link', ptpUsbSenddata pipes ptp data link = (PTP_RC_OK, link') ∧
      link'.sent = link.sent ++ packets ∧
      (assemble pipes.outMaxpacket [] packets = ([usbData ptp data], []) ↔
        if link.splitHeaderData then data = []
        else data.length ≤ PTP_USB_BULK_PAYLOAD_LEN_WRITE ∨ pipes.outMaxpacket ∣ 512) := by
  have hlength := length_firstPart link ptp data
  have hone {packets : List (List Byte)} (hp : packets = Transfers.packets pipes.outMaxpacket
      (usbData ptp data)) : assemble pipes.outMaxpacket [] packets = ([usbData ptp data], []) := by
    have htransfer := assemble_packets pipes.outMaxpacket_pos [] (usbData ptp data) []
    rw [List.append_nil] at htransfer
    rw [hp, htransfer]
    rfl
  cases hsplit : link.splitHeaderData with
  | true =>
    have hlen : link.datawlen data.length = 0 := by rw [UsbLink.datawlen, hsplit, if_pos rfl]
    rw [if_pos rfl]
    by_cases hnil : data = []
    · obtain ⟨more, link', hsend, hsends, -⟩ := ptpUsbSenddata_whole hwhole ptp hsize link
      have hdone : data.drop (link.datawlen data.length) = [] := by rw [hnil, List.drop_nil]
      rw [if_pos hdone, firstPart_whole hdone] at hsends
      exact ⟨_, link', hsend, hsends.sent, iff_of_true (hone rfl) hnil⟩
    · rw [hlen, Nat.add_zero] at hlength
      obtain ⟨packets, link', hsend, hsent, hcut⟩ := ptpUsbSenddata_cut hwhole ptp hsize
        (by rwa [hlen, List.drop_zero]) (hlength ▸ hheader hsplit)
      exact ⟨packets, link', hsend, hsent, iff_of_false hcut hnil⟩
  | false =>
    rw [if_neg Bool.false_ne_true]
    by_cases hdvd : data.length ≤ PTP_USB_BULK_PAYLOAD_LEN_WRITE ∨ pipes.outMaxpacket ∣ 512
    · obtain ⟨link', hsend, hsends⟩ := ptpUsbSenddata_unsplit hwhole ptp hsize hsplit hdvd
      exact ⟨_, link', hsend, hsends.sent, iff_of_true (hone rfl) hdvd⟩
    · obtain ⟨hlong, h512⟩ := not_or.mp hdvd
      rw [Nat.not_le] at hlong
      have hlen : link.datawlen data.length = PTP_USB_BULK_PAYLOAD_LEN_WRITE := by
        rw [datawlen_unsplit hsplit, Nat.min_eq_right hlong.le]
      have hmore : data.drop (link.datawlen data.length) ≠ [] := by
        apply List.length_pos_iff.mp
        rw [List.length_drop]
        omega
      rw [hlen] at hlength
      obtain ⟨packets, link', hsend, hsent, hcut⟩ := ptpUsbSenddata_cut hwhole ptp hsize hmore
        (hlength ▸ h512)
      exact ⟨packets, link', hsend, hsent, iff_of_false hcut hdvd⟩

/-- Pipes with the maximum packet of high speed that take everything at once. -/
def wholePipes : UsbPipes where
  inMaxpacket := 512
  outMaxpacket := 512
  outMaxpacket_pos := Nat.succ_pos 511
  write _ len := some len
  takes h := by
    obtain rfl := Option.some.inj h
    exact ⟨le_rfl, id⟩
  failed _ := []
  control := 0

theorem wholePipes_whole : wholePipes.Whole := fun _ _ => rfl

theorem ptpUsbSenddata_transfers_sample :
    (∃ packets link', ptpUsbSenddata wholePipes { code := 0x100D } [1, 2] {} =
        (PTP_RC_OK, link') ∧ link'.sent = [] ++ packets ∧
      assemble wholePipes.outMaxpacket [] packets =
        ([usbData { code := 0x100D } [1, 2]], [])) ∧
    ∃ packets link', ptpUsbSenddata wholePipes { code := 0x100D } [1, 2]
        { splitHeaderData := true } = (PTP_RC_OK, link') ∧ link'.sent = [] ++ packets ∧
      assemble wholePipes.outMaxpacket [] packets ≠
        ([usbData { code := 0x100D } [1, 2]], []) := by
  constructor
  · obtain ⟨packets, link', hsend, hsent, hiff⟩ := @ptpUsbSenddata_transfers_iff wholePipes [1, 2] {}
      wholePipes_whole { code := 0x100D } (by decide) (by decide)
    exact ⟨packets, link', hsend, hsent, hiff.mpr (Or.inl (by decide))⟩
  · obtain ⟨packets, link', hsend, hsent, hiff⟩ := @ptpUsbSenddata_transfers_iff wholePipes [1, 2]
      { splitHeaderData := true } wholePipes_whole { code := 0x100D } (by decide) (by decide)
    exact ⟨packets, link', hsend, hsent, mt hiff.mp (by decide)⟩

/-- With the header apart, the device gets it as a transfer, and the data as another. -/
theorem ptpUsbSenddata_split (hwhole : pipes.Whole) (ptp : PTPContainer)
    (hsize : data.length < 2 ^ 32) (hsplit : link.splitHeaderData = true)
    (hheader : ¬ pipes.outMaxpacket ∣ PTP_USB_BULK_HDR_LEN) (hfits : pipes.Fits data.length) :
    ∃ link', ptpUsbSenddata pipes ptp data link = (PTP_RC_OK, link') ∧
      (link.start data.length).Sends link'
        (packets pipes.outMaxpacket
            (usbHeader PTP_USB_CONTAINER_DATA ptp.code ptp.transactionId data.length) ++
          if data = [] then [] else packets pipes.outMaxpacket data)
        (PTP_USB_BULK_HDR_LEN + data.length) := by
  obtain ⟨more, link', hsend, hsends, hmore⟩ := ptpUsbSenddata_whole hwhole ptp hsize link
  have hlen : link.datawlen data.length = 0 := by rw [UsbLink.datawlen, hsplit, if_pos rfl]
  have hfirst : link.firstPart ptp data =
      usbHeader PTP_USB_CONTAINER_DATA ptp.code ptp.transactionId data.length := by
    rw [UsbLink.firstPart, hlen, List.take_zero, List.append_nil]
  have hshort : chunks pipes.outMaxpacket
      (usbHeader PTP_USB_CONTAINER_DATA ptp.code ptp.transactionId data.length) =
      packets pipes.outMaxpacket
        (usbHeader PTP_USB_CONTAINER_DATA ptp.code ptp.transactionId data.length) := by
    rw [packets, length_usbHeader, if_neg hheader, List.append_nil]
  rw [hlen, List.drop_zero] at hmore hsends
  rw [hmore hfits, hfirst, hshort] at hsends
  refine ⟨link', hsend, ?_⟩
  by_cases hnil : data = []
  · rw [if_pos hnil] at hsends ⊢
    rwa [List.append_nil]
  · rwa [if_neg hnil] at hsends ⊢

end writing

end VitaMTP
