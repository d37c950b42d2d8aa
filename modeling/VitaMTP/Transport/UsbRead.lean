import VitaMTP.Transport.UsbWrite

/-! What is read over USB of the transfers of a device. -/
namespace VitaMTP
open Transfers

/-- Endpoints with packets of one size, which divides the 512 bytes that are read first, and is more
than a quarter of a header. -/
structure UsbPipes.Regular (pipes : UsbPipes) : Prop where
  same : pipes.inMaxpacket = pipes.outMaxpacket
  dvd : pipes.outMaxpacket ∣ 512
  header : ¬ pipes.outMaxpacket ∣ PTP_USB_BULK_HDR_LEN

section reading

variable {pipes : UsbPipes} {link : UsbLink} {xs data : List Byte} {rest : List (List Byte)}
  {ptp : PTPContainer}

theorem receive_receive (link : UsbLink) (xs ys : List Byte) (i j : List (List Byte)) :
    (link.receive xs i).receive ys j = link.receive (xs ++ ys) j := by
  rw [UsbLink.receive, UsbLink.receive, UsbLink.receive, List.length_append, Nat.add_assoc]

/-- However long it is, what is left of a transfer is read in blocks of full packets; the empty
packet that may end it stays. -/
theorem ptpReadLoop_transfer (hregular : pipes.Regular) {size cur : ℕ} (last : ℕ)
    (hpos : 0 < xs.length) (hsize : cur + xs.length = size)
    (h : link.incoming = packets pipes.outMaxpacket xs ++ rest) :
    ptpReadLoop pipes size cur last data link = (PTP_RC_OK, data ++ xs,
      link.receive xs (if pipes.outMaxpacket ∣ xs.length then [] :: rest else rest)) := by
  obtain ⟨n, hn⟩ : ∃ n, xs.length = n := ⟨_, rfl⟩
  induction n using Nat.strong_induction_on generalizing xs cur last data link with
  | _ n ih =>
    by_cases hlast : size - cur < CONTEXT_BLOCK_SIZE
    · have hexact : size - cur = xs.length := by omega
      rw [ptpReadLoop_last pipes (by omega) hlast, hregular.same, h, hexact,
        bulkRead_exact pipes.outMaxpacket_pos hpos]
    obtain ⟨toread, hsizes, hblock⟩ := ptpReadLoop_block pipes hlast last data link
    have htoread : 0 < toread ∧ toread < CONTEXT_BLOCK_SIZE ∧ 512 ∣ toread := by
      unfold CONTEXT_BLOCK_SIZE CONTEXT_BLOCK_SIZE_1 CONTEXT_BLOCK_SIZE_2 at *
      omega
    have hread := @bulkRead_take _ pipes.outMaxpacket toread xs rest pipes.outMaxpacket_pos
      htoread.1 (hregular.dvd.trans htoread.2.2) (by omega)
    have htake : (xs.take toread).length = toread := by
      rw [List.length_take]
      omega
    have hdrop : (xs.drop toread).length = xs.length - toread := List.length_drop
    have hdvd : pipes.outMaxpacket ∣ (xs.drop toread).length ↔ pipes.outMaxpacket ∣ xs.length := by
      rw [hdrop]
      exact Nat.dvd_sub_iff_left (by omega) (hregular.dvd.trans htoread.2.2)
    rw [hblock _ _ (by rw [hregular.same, h]; exact hread) htake,
      ih _ (by omega) toread (by omega) (by omega) rfl rfl, receive_receive, List.append_assoc,
      List.take_append_drop]
    simp only [hdvd]

theorem ptpReadFunc_transfer (hregular : pipes.Regular) (hpos : 0 < xs.length)
    (h : link.incoming = packets pipes.outMaxpacket xs ++ rest) :
    ptpReadFunc pipes xs.length true link = (PTP_RC_OK, xs, link.receive xs rest) := by
  have hloop := @ptpReadLoop_transfer pipes link xs [] rest hregular xs.length 0 0 hpos
    (Nat.zero_add _) h
  rw [ptpReadFunc, hloop, List.nil_append]
  dsimp only
  rw [if_neg (not_not.mpr rfl)]
  by_cases hdvd : pipes.outMaxpacket ∣ xs.length
  · have hzero : bulkRead pipes.inMaxpacket 0 ([] :: rest) = some ([], rest) :=
      bulkRead_short (Nat.zero_le _) (hregular.same ▸ pipes.outMaxpacket_pos)
    rw [if_pos ⟨rfl, Nat.dvd_iff_mod_eq_zero.mp hdvd⟩, if_pos hdvd, zeroRead]
    simp only [UsbLink.receive, hzero]
  · rw [if_neg (fun h => hdvd (Nat.dvd_iff_mod_eq_zero.mpr h.2)), if_neg hdvd]

theorem ptpUsbGetpacket_short (hnone : link.responsePacket = []) (hlt : xs.length < 512)
    (hregular : pipes.Regular) (h : link.incoming = packets pipes.outMaxpacket xs ++ rest) :
    ptpUsbGetpacket pipes link = (PTP_RC_OK, xs, link.receive xs rest) := by
  have hread : bulkRead pipes.inMaxpacket PTP_USB_BULK_HS_MAX_PACKET_LEN_READ link.incoming =
      some (xs, rest) := by
    rw [hregular.same, h]
    exact bulkRead_all pipes.outMaxpacket_pos hlt.le (fun h => by
      rw [PTP_USB_BULK_HS_MAX_PACKET_LEN_READ] at h
      omega)
  rw [ptpUsbGetpacket, if_neg (not_not.mpr hnone), ptpReadFunc_block, hread]

theorem ptpUsbGetpacket_long (hnone : link.responsePacket = []) (hle : 512 ≤ xs.length)
    (hregular : pipes.Regular) (h : link.incoming = packets pipes.outMaxpacket xs ++ rest) :
    ptpUsbGetpacket pipes link = (PTP_RC_OK, xs.take 512,
      link.receive (xs.take 512) (packets pipes.outMaxpacket (xs.drop 512) ++ rest)) := by
  have hread : bulkRead pipes.inMaxpacket PTP_USB_BULK_HS_MAX_PACKET_LEN_READ link.incoming =
      some (xs.take 512, packets pipes.outMaxpacket (xs.drop 512) ++ rest) := by
    rw [hregular.same, h]
    exact bulkRead_take pipes.outMaxpacket_pos (by decide) hregular.dvd hle
  rw [ptpUsbGetpacket, if_neg (not_not.mpr hnone), ptpReadFunc_block, hread]

theorem usbContainerOf_fields (type code : BitVec 16) (tid : BitVec 32) (size : ℕ)
    (xs : List Byte) :
    dtoh32a (usbContainerOf (usbHeader type code tid size ++ xs)) 0 =
        BitVec.ofNat 32 (PTP_USB_BULK_HDR_LEN + size) ∧
      dtoh16a (usbContainerOf (usbHeader type code tid size ++ xs)) 4 = type ∧
      dtoh16a (usbContainerOf (usbHeader type code tid size ++ xs)) 6 = code ∧
      dtoh32a (usbContainerOf (usbHeader type code tid size ++ xs)) 8 = tid := by
  have hlength (x : BitVec 32) (y : BitVec 16) : (htod32a x ++ htod16a y).length = 6 := by
    rw [List.length_append, length_htod32a, length_htod16a]
  have hlength' (x : BitVec 32) (y z : BitVec 16) :
      (htod32a x ++ (htod16a y ++ htod16a z)).length = 8 := by
    rw [List.length_append, List.length_append, length_htod32a, length_htod16a, length_htod16a]
  unfold usbContainerOf usbHeader
  simp only [List.append_assoc]
  refine ⟨dtoh32a_head .., dtoh16a_append _ (length_htod32a _), ?_, ?_⟩
  · rw [← List.append_assoc]
    exact dtoh16a_append _ (hlength _ _)
  · rw [← List.append_assoc (htod16a type), ← List.append_assoc]
    exact dtoh32a_append _ (hlength' _ _ _)

/-- What has been read, up to `rest`, and nothing else that matters to writing. -/
structure UsbLink.Receives (link link' : UsbLink) (rest : List (List Byte)) : Prop where
  incoming : link'.incoming = rest
  responsePacket : link'.responsePacket = []
  sent : link'.sent = link.sent
  total : link'.total = link.total
  complete : link.complete ≤ link'.complete

theorem receives_receive (hnone : link.responsePacket = []) (xs : List Byte)
    (rest : List (List Byte)) : link.Receives (link.receive xs rest) rest :=
  ⟨rfl, hnone, rfl, rfl, Nat.le_add_right _ _⟩

theorem ptpUsbGetdata_first {packet : List Byte} {link₁ link₂ link₃ : UsbLink}
    (hget : ptpUsbGetpacket pipes link = (PTP_RC_OK, usbHeader PTP_USB_CONTAINER_DATA ptp.code
      ptp.transactionId data.length ++ packet, link₁))
    (hle : packet.length ≤ data.length) (hsize : 12 + data.length < 0xffffffff)
    (hdetect : (if packet = [] ∧ data ≠ [] then { link₁ with splitHeaderData := true } else link₁) =
      link₂)
    (hend : (if data.length = PTP_USB_BULK_PAYLOAD_LEN_WRITE ∧ link₂.splitHeaderData = false then
      zeroRead pipes link₂ else link₂) = link₃) :
    ptpUsbGetdata pipes ptp link =
      if data.length ≤ packet.length then (PTP_RC_OK, packet, link₃)
      else
        let r := ptpReadFunc pipes (data.length - packet.length) true link₃
        (r.1, packet ++ r.2.1, r.2.2) := by
  obtain ⟨hlength, htype, hcode, -⟩ := usbContainerOf_fields PTP_USB_CONTAINER_DATA ptp.code
    ptp.transactionId data.length packet
  have htoNat : (BitVec.ofNat 32 (PTP_USB_BULK_HDR_LEN + data.length)).toNat =
      12 + data.length := by
    rw [BitVec.toNat_ofNat, PTP_USB_BULK_HDR_LEN]
    omega
  have hpacket : (usbHeader PTP_USB_CONTAINER_DATA ptp.code ptp.transactionId data.length ++
      packet).length = 12 + packet.length := by
    rw [List.length_append, length_usbHeader]
    rfl
  have hmin : min (12 + packet.length) (12 + data.length) = 12 + packet.length := by omega
  have hsurplus : ((usbHeader PTP_USB_CONTAINER_DATA ptp.code ptp.transactionId data.length ++
      packet).drop (12 + data.length)).length = 0 := by
    rw [List.length_drop, hpacket]
    omega
  have hdata : ((usbHeader PTP_USB_CONTAINER_DATA ptp.code ptp.transactionId data.length ++
      packet).take (12 + packet.length)).drop 12 = packet := by
    have h12 := length_usbHeader PTP_USB_CONTAINER_DATA ptp.code ptp.transactionId data.length
    rw [← hpacket, List.take_length]
    exact List.drop_left' h12
  have hsplit : 12 < 12 + data.length ∧ 12 + packet.length = 12 ↔ packet = [] ∧ data ≠ [] := by
    rw [← List.length_eq_zero_iff, ne_eq, ← List.length_eq_zero_iff]
    omega
  have hzero : 12 + data.length = 512 ↔ data.length = 500 := by omega
  have hall : 12 + data.length ≤ 12 + packet.length ↔ data.length ≤ packet.length := by omega
  have hleft : 12 + data.length - (12 + packet.length) = data.length - packet.length := by omega
  have hhdr : PTP_USB_BULK_HDR_LEN = 12 := rfl
  have hread : PTP_USB_BULK_HS_MAX_PACKET_LEN_READ = 512 := rfl
  have hwrite : PTP_USB_BULK_PAYLOAD_LEN_WRITE = 500 := rfl
  unfold ptpUsbGetdata
  rw [hget]
  dsimp only
  rw [if_neg (not_not.mpr rfl), htype, if_neg (not_not.mpr rfl), hcode, if_neg (not_not.mpr rfl),
    hlength, htoNat, if_neg (by omega)]
  have hnone : ¬ 12 ≤ 0 := by decide
  have hheader : ¬ 12 + packet.length < 12 := by omega
  simp only [hhdr, hread, hpacket, hmin, hsurplus, hdata, hsplit, hzero, hall, hleft,
    if_neg hnone, if_neg hheader, hdetect]
  rw [← hwrite, hend]

/-- What a device sends of a data phase: one transfer, or the header apart from the data. -/
def usbDataPackets (pipes : UsbPipes) (splits : Bool) (ptp : PTPContainer) (data : List Byte) :
    List (List Byte) :=
  if splits ∧ data ≠ [] then
    packets pipes.outMaxpacket
        (usbHeader PTP_USB_CONTAINER_DATA ptp.code ptp.transactionId data.length) ++
      packets pipes.outMaxpacket data
  else packets pipes.outMaxpacket (usbData ptp data)

theorem UsbLink.Receives.receive {link link₁ : UsbLink} (h : link.Receives link₁ rest)
    (xs : List Byte) (rest' : List (List Byte)) : link.Receives (link₁.receive xs rest') rest' :=
  ⟨rfl, h.responsePacket, h.sent, h.total, h.complete.trans (Nat.le_add_right _ _)⟩

theorem ptpUsbGetdata_together (hregular : pipes.Regular) (hnone : link.responsePacket = [])
    (hsplit : data.length = 500 → link.splitHeaderData = false)
    (hsize : 12 + data.length < 0xffffffff)
    (h : link.incoming = packets pipes.outMaxpacket (usbData ptp data) ++ rest) :
    ∃ link', ptpUsbGetdata pipes ptp link = (PTP_RC_OK, data, link') ∧ link.Receives link' rest ∧
      link'.splitHeaderData = link.splitHeaderData := by
  have hlength : (usbData ptp data).length = 12 + data.length := length_usbContainer ..
  have hwrite : PTP_USB_BULK_PAYLOAD_LEN_WRITE = 500 := rfl
  by_cases hshort : 12 + data.length < 512
  · have hget := ptpUsbGetpacket_short hnone (hlength ▸ hshort) hregular h
    refine ⟨link.receive (usbData ptp data) rest, ?_, receives_receive hnone _ _, rfl⟩
    rw [usbData, usbContainer] at hget
    have hfirst := ptpUsbGetdata_first hget le_rfl hsize (if_neg fun h => h.2 h.1)
      (if_neg fun h => by omega)
    rw [hfirst, if_pos le_rfl]
    rfl
  · have hget := ptpUsbGetpacket_long hnone (by omega) hregular h
    have hheader := length_usbHeader PTP_USB_CONTAINER_DATA ptp.code ptp.transactionId data.length
    have htake : (usbData ptp data).take 512 =
        usbHeader PTP_USB_CONTAINER_DATA ptp.code ptp.transactionId data.length ++
          data.take 500 := by
      rw [usbData, usbContainer, List.take_append, hheader, List.take_of_length_le]
      · rfl
      · rw [hheader, PTP_USB_BULK_HDR_LEN]
        omega
    have hdrop : (usbData ptp data).drop 512 = data.drop 500 := by
      rw [usbData, usbContainer, List.drop_append, hheader, List.drop_eq_nil_of_le]
      · rfl
      · rw [hheader, PTP_USB_BULK_HDR_LEN]
        omega
    have hfirst : (data.take 500).length = 500 := by
      rw [List.length_take]
      omega
    have hsome : ¬ (data.take 500 = [] ∧ data ≠ []) := by
      intro h
      rw [h.1] at hfirst
      simp at hfirst
    rw [htake, hdrop] at hget
    have hreceives := receives_receive hnone
      (usbHeader PTP_USB_CONTAINER_DATA ptp.code ptp.transactionId data.length ++ data.take 500)
      (packets pipes.outMaxpacket (data.drop 500) ++ rest)
    have hgot := fun link₃ => @ptpUsbGetdata_first pipes link data ptp _ _ _ link₃ hget
      (List.length_take_le' _ _) hsize (if_neg hsome)
    rw [hfirst] at hgot
    by_cases hall : data.length = 500
    · have hnil : data.drop 500 = [] := List.drop_eq_nil_of_le hall.le
      have hzero : bulkRead pipes.inMaxpacket 0 ([] :: rest) = some ([], rest) :=
        bulkRead_short (Nat.zero_le _) (hregular.same ▸ pipes.outMaxpacket_pos)
      rw [hgot _ (if_pos ⟨hall, hsplit hall⟩), if_pos hall.le, hnil, packets_nil, List.singleton_append,
        List.take_of_length_le hall.le, zeroRead]
      simp only [UsbLink.receive, hzero]
      exact ⟨_, rfl, ⟨rfl, hnone, rfl, rfl, Nat.le_add_right _ _⟩, rfl⟩
    · have hrest : (data.drop 500).length = data.length - 500 := List.length_drop
      have hread := @ptpReadFunc_transfer pipes (link.receive
        (usbHeader PTP_USB_CONTAINER_DATA ptp.code ptp.transactionId data.length ++ data.take 500)
        (packets pipes.outMaxpacket (data.drop 500) ++ rest)) (data.drop 500) rest hregular
        (by omega) rfl
      rw [hrest] at hread
      rw [hgot _ (if_neg fun h => hall h.1), if_neg (by omega), hread]
      dsimp only
      rw [List.take_append_drop]
      exact ⟨_, rfl, hreceives.receive _ _, rfl⟩

theorem ptpUsbGetdata_apart (hregular : pipes.Regular) (hnone : link.responsePacket = [])
    (hne : data ≠ []) (hsize : 12 + data.length < 0xffffffff)
    (h : link.incoming = packets pipes.outMaxpacket
        (usbHeader PTP_USB_CONTAINER_DATA ptp.code ptp.transactionId data.length) ++
      (packets pipes.outMaxpacket data ++ rest)) :
    ∃ link', ptpUsbGetdata pipes ptp link = (PTP_RC_OK, data, link') ∧ link.Receives link' rest ∧
      link'.splitHeaderData = true := by
  have hheader := length_usbHeader PTP_USB_CONTAINER_DATA ptp.code ptp.transactionId data.length
  have hpos := List.length_pos_iff.mpr hne
  have hget := ptpUsbGetpacket_short hnone (hheader ▸ (by decide)) hregular h
  have hreceives := receives_receive hnone
    (usbHeader PTP_USB_CONTAINER_DATA ptp.code ptp.transactionId data.length)
    (packets pipes.outMaxpacket data ++ rest)
  rw [← List.append_nil (usbHeader ..)] at hget
  have hfirst := ptpUsbGetdata_first hget (Nat.zero_le _) hsize (if_pos ⟨rfl, hne⟩)
    (if_neg fun h => Bool.false_ne_true h.2.symm)
  have hread := @ptpReadFunc_transfer pipes { (link.receive
      (usbHeader PTP_USB_CONTAINER_DATA ptp.code ptp.transactionId data.length)
      (packets pipes.outMaxpacket data ++ rest)) with splitHeaderData := true } data rest hregular
    hpos rfl
  rw [hfirst, List.length_nil, if_neg (by omega), Nat.sub_zero, List.append_nil, hread]
  dsimp only
  exact ⟨_, rfl, ⟨rfl, hnone, rfl, rfl, (hreceives.receive data rest).complete⟩, rfl⟩

theorem ptpUsbGetdata_packets (hregular : pipes.Regular) (hnone : link.responsePacket = [])
    {splits : Bool} (hsplit : splits = false → link.splitHeaderData = false)
    (hsize : 12 + data.length < 0xffffffff)
    (h : link.incoming = usbDataPackets pipes splits ptp data ++ rest) :
    ∃ link', ptpUsbGetdata pipes ptp link = (PTP_RC_OK, data, link') ∧ link.Receives link' rest ∧
      link'.splitHeaderData = (link.splitHeaderData || splits && data ≠ []) := by
  by_cases hapart : splits = true ∧ data ≠ []
  · rw [usbDataPackets, if_pos hapart, List.append_assoc] at h
    obtain ⟨link', hget, hreceives, hsplit'⟩ :=
      ptpUsbGetdata_apart hregular hnone hapart.2 hsize h
    refine ⟨link', hget, hreceives, ?_⟩
    rw [hsplit', hapart.1, decide_eq_true hapart.2, Bool.and_self, Bool.or_true]
  · rw [usbDataPackets, if_neg hapart] at h
    have htogether : data.length = 500 → link.splitHeaderData = false := by
      intro hlength
      apply hsplit
      by_contra hsplits
      apply hapart
      exact ⟨eq_true_of_ne_false hsplits, List.length_pos_iff.mp (by omega)⟩
    have hnot : (splits && decide (data ≠ [])) = false := by
      rw [Bool.and_eq_false_iff, decide_eq_false_iff_not]
      exact (not_and_or.mp hapart).imp_left eq_false_of_ne_true
    obtain ⟨link', hget, hreceives, hsplit'⟩ :=
      ptpUsbGetdata_together hregular hnone htogether hsize h
    exact ⟨link', hget, hreceives, by rw [hsplit', hnot, Bool.or_false]⟩

def PtpResponse.usbBytes (r : PtpResponse) : List Byte :=
  usbContainer PTP_USB_CONTAINER_RESPONSE r.code r.transactionId (r.params.flatMap htod32a)

/-- What a container has after a response that is read; the fields of a packet that ends early are
zeros. -/
def PtpResponse.usbFill (r : PtpResponse) (ptp : PTPContainer) : PTPContainer :=
  { ptp with code := r.code, transactionId := r.transactionId, param := fun i => r.params.getD i 0 }

theorem dtoh32a_zeros {n off : ℕ} (h : xs.length ≤ off) :
    dtoh32a (xs ++ List.replicate n 0) off = 0 := by
  rw [dtoh32a, List.drop_append, List.drop_eq_nil_of_le h, List.nil_append, List.drop_replicate,
    List.take_replicate, LittleEndian.decode_replicate]
  rfl

theorem PtpResponse.length_usbBytes (r : PtpResponse) :
    r.usbBytes.length = 12 + 4 * r.params.length := by
  rw [PtpResponse.usbBytes, length_usbContainer, length_flatMap_htod32a]
  rfl

theorem PtpResponse.readParams_usbBytes (r : PtpResponse) (ptp : PTPContainer) :
    ({ ptp with code := r.code, transactionId := r.transactionId } : PTPContainer).readParams
      (usbContainerOf r.usbBytes) 12 5 = r.usbFill ptp := by
  rw [PTPContainer.readParams, PtpResponse.usbFill, PTPContainer.mk.injEq]
  refine ⟨rfl, rfl, rfl, funext fun i => ?_, rfl⟩
  have hheader := length_usbHeader PTP_USB_CONTAINER_RESPONSE r.code r.transactionId
    (r.params.flatMap htod32a).length
  rw [if_pos i.isLt]
  by_cases hi : i.val < r.params.length
  · rw [List.getD_eq_getElem _ _ hi, usbContainerOf, PtpResponse.usbBytes, usbContainer,
      List.append_assoc, show 12 = PTP_USB_BULK_HDR_LEN from rfl, ← hheader]
    exact dtoh32a_flatMap hi
  · rw [List.getD_eq_default _ _ (Nat.not_lt.mp hi), usbContainerOf]
    apply dtoh32a_zeros
    rw [r.length_usbBytes]
    omega

/-- A response with another code than the one that has been asked for is an error, unless that
other code means that all is well. -/
theorem ptpUsbGetresp_usb (hregular : pipes.Regular) (hnone : link.responsePacket = [])
    (r : PtpResponse) (resp : PTPContainer)
    (h : link.incoming = packets pipes.outMaxpacket r.usbBytes ++ rest) :
    ptpUsbGetresp pipes resp link =
      if r.code = PTP_RC_OK ∨ r.code = resp.code then
        (PTP_RC_OK, r.usbFill resp, link.receive r.usbBytes rest)
      else (r.code, resp, link.receive r.usbBytes rest) := by
  have hfew := r.few
  have hlength := r.length_usbBytes
  have hget := ptpUsbGetpacket_short hnone (by omega) hregular h
  obtain ⟨-, htype, hcode, hid⟩ := usbContainerOf_fields PTP_USB_CONTAINER_RESPONSE r.code
    r.transactionId (r.params.flatMap htod32a).length (r.params.flatMap htod32a)
  rw [← usbContainer, ← PtpResponse.usbBytes] at htype hcode hid
  rw [ptpUsbGetresp, hget]
  dsimp only
  rw [if_neg (not_not.mpr rfl), htype, if_neg (not_not.mpr rfl), hcode, hid, r.readParams_usbBytes]
  by_cases hsame : r.code = resp.code
  · rw [if_neg (not_not.mpr hsame), if_neg (not_not.mpr rfl), if_pos (Or.inr hsame)]
  · rw [if_pos hsame]
    by_cases hok : r.code = PTP_RC_OK
    · rw [if_neg (not_not.mpr hok), if_pos (Or.inl hok)]
    · rw [if_pos hok, if_neg (not_or.mpr ⟨hok, hsame⟩)]

end reading

end VitaMTP
