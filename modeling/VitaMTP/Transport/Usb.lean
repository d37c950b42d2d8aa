import VitaMTP.Library.Transfers
import VitaMTP.Transport.Transaction

/-! USB: the containers that `usb.c` writes to the pipes of a device and reads from them. -/
namespace VitaMTP
open Transfers

def PTP_USB_CONTAINER_COMMAND : BitVec 16 := 1
def PTP_USB_CONTAINER_DATA : BitVec 16 := 2
def PTP_USB_CONTAINER_RESPONSE : BitVec 16 := 3
def PTP_RC_Undefined : BitVec 16 := 0x2000
def PTP_RC_SpecificationOfDestinationUnsupported : BitVec 16 := 0x2020

def CONTEXT_BLOCK_SIZE_1 : ℕ := 0x3e00
def CONTEXT_BLOCK_SIZE_2 : ℕ := 0x200
def CONTEXT_BLOCK_SIZE : ℕ := CONTEXT_BLOCK_SIZE_1 + CONTEXT_BLOCK_SIZE_2
def PTP_USB_BULK_HDR_LEN : ℕ := 12
def PTP_USB_BULK_HS_MAX_PACKET_LEN_READ : ℕ := 512
def PTP_USB_BULK_PAYLOAD_LEN_WRITE : ℕ := 500

/-- The endpoints, and the library below them. -/
structure UsbPipes where
  inMaxpacket : ℕ
  outMaxpacket : ℕ
  outMaxpacket_pos : 0 < outMaxpacket
  /-- how much of what it is offered the `n`-th write takes; `none` is an error -/
  write : ℕ → ℕ → Option ℕ
  takes : ∀ {n len k}, write n len = some k → k ≤ len ∧ (len ≠ 0 → k ≠ 0)
  /-- what is left of the packets by a read that fails -/
  failed : List (List Byte) → List (List Byte)
  /-- what comes of the control transfer that cancels -/
  control : ℤ

/-- What `vita_usb` and `PTPParams` keep between calls. -/
structure UsbLink where
  writes : ℕ := 0
  /-- the packets that have been written -/
  sent : List (List Byte) := []
  /-- the packets that are still to be read -/
  incoming : List (List Byte) := []
  complete : ℕ := 0
  total : ℕ := 0
  splitHeaderData : Bool := false
  /-- what has been read too much; nothing is a null pointer -/
  responsePacket : List Byte := []

section pipes

variable (pipes : UsbPipes)

/-- The bytes of a read that works, and the packets it leaves. -/
def UsbLink.receive (link : UsbLink) (bytes : List Byte) (incoming : List (List Byte)) : UsbLink :=
  { link with incoming := incoming, complete := link.complete + bytes.length }

/-- What a read that fails leaves. -/
def UsbLink.lose (link : UsbLink) : UsbLink :=
  { link with incoming := pipes.failed link.incoming }

/-- The loop of `ptp_read_func`: `cur` bytes have been read, the last time a block of `last`. -/
def ptpReadLoop (size cur last : ℕ) (data : List Byte) (link : UsbLink) :
    BitVec 16 × List Byte × UsbLink :=
  if _hcur : cur < size then
    -- the blocks alternate until less than both together is left
    let toread :=
      if size - cur < CONTEXT_BLOCK_SIZE then size - cur
      else if cur = 0 then CONTEXT_BLOCK_SIZE_1
      else if last = CONTEXT_BLOCK_SIZE_1 then CONTEXT_BLOCK_SIZE_2
      else CONTEXT_BLOCK_SIZE_1
    match bulkRead pipes.inMaxpacket toread link.incoming with
    | none => ( PTP_ERROR_IO, data, link.lose pipes)
    | some (bytes, incoming) =>
      let link := link.receive bytes incoming
      if _hread : bytes.length < toread then (PTP_RC_OK, data ++ bytes, link)
      else ptpReadLoop size (cur + bytes.length) toread (data ++ bytes) link
  else (PTP_RC_OK, data, link)
termination_by size - cur
decreasing_by
  have hpos : 0 < toread := by
    simp only [toread]
    unfold CONTEXT_BLOCK_SIZE CONTEXT_BLOCK_SIZE_1 CONTEXT_BLOCK_SIZE_2
    split_ifs <;> omega
  omega

/-- A read of nothing, for the packet that may end a transfer. It only logs that it fails. -/
def zeroRead (link : UsbLink) : UsbLink :=
  match bulkRead pipes.inMaxpacket 0 link.incoming with
  | none => link.lose pipes
  | some (_, incoming) => { link with incoming := incoming }

/-- `ptp_read_func`, with a handler that takes what it is given. -/
def ptpReadFunc (size : ℕ) (readzero : Bool) (link : UsbLink) :
    BitVec 16 × List Byte × UsbLink :=
  let r := ptpReadLoop pipes size 0 0 [] link
  if r.1 ≠ PTP_RC_OK then r
  else if readzero ∧ r.2.1.length % pipes.outMaxpacket = 0 then
    (PTP_RC_OK, r.2.1, zeroRead pipes r.2.2)
  else r

/-- The loop over `libusb_bulk_transfer` for a block; the result is what the last call took. -/
def usbWriteBlock (last : ℕ) (block : List Byte) (link : UsbLink) : Option ℕ × UsbLink :=
  if block = [] then (some last, link)
  else
    match _h : pipes.write link.writes block.length with
    | none => (none, { link with writes := link.writes + 1 })
    | some k =>
      usbWriteBlock k (block.drop k)
        { link with
          writes := link.writes + 1
          sent := link.sent ++ chunks pipes.outMaxpacket (block.take k)
          complete := link.complete + k }
termination_by block.length
decreasing_by
  rename_i hne
  obtain ⟨hle, hpos⟩ := pipes.takes _h
  have hk := hpos (mt List.length_eq_zero_iff.mp hne)
  rw [List.length_drop]
  omega

/-- The size of the next block: nothing short in front of the end. -/
def blockSize (size : ℕ) : ℕ :=
  if CONTEXT_BLOCK_SIZE < size then CONTEXT_BLOCK_SIZE
  else if pipes.outMaxpacket < size ∧ size % pipes.outMaxpacket ≠ 0 then
    size - size % pipes.outMaxpacket
  else size

theorem blockSize_pos {size : ℕ} (h : 0 < size) : 0 < blockSize pipes size := by
  have hmod := Nat.mod_lt size pipes.outMaxpacket_pos
  unfold blockSize CONTEXT_BLOCK_SIZE CONTEXT_BLOCK_SIZE_1 CONTEXT_BLOCK_SIZE_2
  split_ifs <;> omega

/-- The loop of `ptp_write_func`: `written` bytes have been written, the last block of `towrite`.
Nothing is an error. -/
def ptpWriteLoop (written towrite : ℕ) (data : List Byte) (link : UsbLink) :
    Option (ℕ × ℕ) × UsbLink :=
  if _hne : data = [] then (some (written, towrite), link)
  else
    let towrite := blockSize pipes data.length
    let r := usbWriteBlock pipes 0 (data.take towrite) link
    match r.1 with
    | none => (none, r.2)
    | some last =>
      if last < towrite then (some (written + towrite, towrite), r.2)
      else ptpWriteLoop (written + towrite) towrite (data.drop towrite) r.2
termination_by data.length
decreasing_by
  have hlength := List.length_pos_iff.mpr _hne
  have hpos := blockSize_pos pipes hlength
  rw [List.length_drop]
  omega

/-- `ptp_write_func`: the result, how much has been written, and an empty packet if that is where a
transfer ends. -/
def ptpWriteFunc (data : List Byte) (link : UsbLink) : BitVec 16 × ℕ × UsbLink :=
  match ptpWriteLoop pipes 0 0 data link with
  | (none, link) => ( PTP_ERROR_IO, 0, link)
  | (some (written, towrite), link) =>
    if link.total ≤ link.complete ∧ towrite % pipes.outMaxpacket = 0 then
      match pipes.write link.writes 0 with
      | none => ( PTP_ERROR_IO, written, { link with writes := link.writes + 1 })
      | some _ =>
        (PTP_RC_OK, written, { link with writes := link.writes + 1, sent := link.sent ++ [[]] })
    else (PTP_RC_OK, written, link)

/-- The head of a `PTPUSBBulkContainer` for `size` bytes. -/
def usbHeader (type code : BitVec 16) (transactionId : BitVec 32) (size : ℕ) : List Byte :=
  htod32a (BitVec.ofNat 32 (PTP_USB_BULK_HDR_LEN + size)) ++ (htod16a type ++ (htod16a code ++
    htod32a transactionId))

/-- A `PTPUSBBulkContainer`. -/
def usbContainer (type code : BitVec 16) (transactionId : BitVec 32) (payload : List Byte) :
    List Byte :=
  usbHeader type code transactionId payload.length ++ payload

/-- `ptp_usb_sendreq` -/
def ptpUsbSendreq (req : PTPContainer) (link : UsbLink) : BitVec 16 × UsbLink :=
  let request := usbContainer PTP_USB_CONTAINER_COMMAND req.code req.transactionId
    (req.sentParams.flatMap htod32a)
  let r := ptpWriteFunc pipes request link
  (if r.1 ≠ PTP_RC_OK ∨ r.2.1 ≠ request.length then PTP_ERROR_IO else PTP_RC_OK, r.2.2)

/-- The loop of `ptp_usb_senddata`, with `left` bytes to go. -/
def ptpUsbSenddataLoop (left : ℕ) (data : List Byte) (link : UsbLink) : BitVec 16 × UsbLink :=
  if _hleft : left = 0 then (PTP_RC_OK, link)
  else
    let r := ptpWriteFunc pipes (data.take left) link
    if r.1 ≠ PTP_RC_OK then ( PTP_ERROR_IO, r.2.2)
    else if _hwritten : r.2.1 = 0 then ( PTP_ERROR_IO, r.2.2)
    else ptpUsbSenddataLoop (left - r.2.1) (data.drop r.2.1) r.2.2
termination_by left
decreasing_by exact Nat.sub_lt (Nat.pos_of_ne_zero _hleft) (Nat.pos_of_ne_zero _hwritten)

/-- `ptp_usb_senddata`. What is left for the loop is counted in 32 bits. -/
def ptpUsbSenddata (ptp : PTPContainer) (data : List Byte) (link : UsbLink) :
    BitVec 16 × UsbLink :=
  let datawlen := if link.splitHeaderData then 0 else min data.length PTP_USB_BULK_PAYLOAD_LEN_WRITE
  let first := usbHeader PTP_USB_CONTAINER_DATA ptp.code ptp.transactionId data.length ++
    data.take datawlen
  let r := ptpWriteFunc pipes first
    { link with complete := 0, total := data.length + PTP_USB_BULK_HDR_LEN }
  if r.1 ≠ PTP_RC_OK then (r.1, r.2.2)
  else if data.length ≤ datawlen then (r.1, r.2.2)
  else
    ptpUsbSenddataLoop pipes (BitVec.ofNat 32 data.length - BitVec.ofNat 32 datawlen).toNat
      (data.drop datawlen) r.2.2

/-- `ptp_usb_getpacket`: what has been read too much, or one more read. -/
def ptpUsbGetpacket (link : UsbLink) : BitVec 16 × List Byte × UsbLink :=
  if link.responsePacket ≠ [] then
    (PTP_RC_OK, link.responsePacket, { link with responsePacket := [] })
  else ptpReadFunc pipes PTP_USB_BULK_HS_MAX_PACKET_LEN_READ false link

/-- A container that is cleared before a packet is copied into it. -/
def usbContainerOf (packet : List Byte) : List Byte :=
  packet ++ List.replicate (PTP_USB_BULK_HS_MAX_PACKET_LEN_READ - packet.length) 0

theorem ptpReadLoop_done {size cur : ℕ} (h : size ≤ cur) (last : ℕ) (data : List Byte)
    (link : UsbLink) : ptpReadLoop pipes size cur last data link = (PTP_RC_OK, data, link) := by
  rw [ptpReadLoop, dif_neg (by omega)]

theorem ptpReadLoop_last {size cur : ℕ} (hlt : cur < size)
    (hrest : size - cur < CONTEXT_BLOCK_SIZE) (last : ℕ) (data : List Byte) (link : UsbLink) :
    ptpReadLoop pipes size cur last data link =
      match bulkRead pipes.inMaxpacket (size - cur) link.incoming with
      | none => ( PTP_ERROR_IO, data, link.lose pipes)
      | some (bytes, incoming) => (PTP_RC_OK, data ++ bytes, link.receive bytes incoming) := by
  rw [ptpReadLoop, dif_pos hlt]
  simp only [if_pos hrest]
  split
  · rfl
  · rename_i bytes incoming hread
    split
    · rfl
    · have hle := bulkRead_le hread
      exact ptpReadLoop_done pipes (by omega) ..

theorem ptpReadLoop_block {size cur : ℕ} (hlong : ¬ size - cur < CONTEXT_BLOCK_SIZE) (last : ℕ)
    (data : List Byte) (link : UsbLink) :
    ∃ toread, (toread = CONTEXT_BLOCK_SIZE_1 ∨ toread = CONTEXT_BLOCK_SIZE_2) ∧
      ∀ bytes incoming,
        bulkRead pipes.inMaxpacket toread link.incoming = some (bytes, incoming) →
        bytes.length = toread →
        ptpReadLoop pipes size cur last data link =
          ptpReadLoop pipes size (cur + toread) toread (data ++ bytes)
            (link.receive bytes incoming) := by
  refine ⟨if cur = 0 then CONTEXT_BLOCK_SIZE_1
    else if last = CONTEXT_BLOCK_SIZE_1 then CONTEXT_BLOCK_SIZE_2 else CONTEXT_BLOCK_SIZE_1, ?_, ?_⟩
  · split_ifs
    · exact Or.inl rfl
    · exact Or.inr rfl
    · exact Or.inl rfl
  · intro bytes incoming hread hlength
    have hlt : cur < size := by
      unfold CONTEXT_BLOCK_SIZE CONTEXT_BLOCK_SIZE_1 CONTEXT_BLOCK_SIZE_2 at hlong
      omega
    rw [ptpReadLoop, dif_pos hlt]
    simp only [if_neg hlong, hread]
    rw [dif_neg (by omega), hlength]

theorem ptpReadFunc_block (link : UsbLink) :
    ptpReadFunc pipes PTP_USB_BULK_HS_MAX_PACKET_LEN_READ false link =
      match bulkRead pipes.inMaxpacket PTP_USB_BULK_HS_MAX_PACKET_LEN_READ link.incoming with
      | none => ( PTP_ERROR_IO, [], link.lose pipes)
      | some (bytes, incoming) => (PTP_RC_OK, bytes, link.receive bytes incoming) := by
  have hnone (r : BitVec 16 × List Byte × UsbLink) :
      (if r.1 ≠ PTP_RC_OK then r
      else if false = true ∧ r.2.1.length % pipes.outMaxpacket = 0 then
        (PTP_RC_OK, r.2.1, zeroRead pipes r.2.2) else r) = r := by
    rw [if_neg (fun h : false = true ∧ _ => Bool.false_ne_true h.1), ite_self]
  rw [ptpReadFunc]
  rw [hnone, ptpReadLoop_last pipes (by decide) (by decide)]
  rfl

theorem PTP_ERROR_IO_ne_OK : PTP_ERROR_IO ≠ PTP_RC_OK := by decide

theorem ptpReadFunc_block_lt {link : UsbLink}
    (h : (ptpReadFunc pipes PTP_USB_BULK_HS_MAX_PACKET_LEN_READ false link).1 = PTP_RC_OK) :
    (ptpReadFunc pipes PTP_USB_BULK_HS_MAX_PACKET_LEN_READ false link).2.2.incoming.length <
      link.incoming.length := by
  rw [ptpReadFunc_block] at h ⊢
  cases hread : bulkRead pipes.inMaxpacket PTP_USB_BULK_HS_MAX_PACKET_LEN_READ link.incoming with
  | none =>
    rw [hread] at h
    exact absurd h PTP_ERROR_IO_ne_OK
  | some r => exact bulkRead_lt hread

/-- The loop of `ptp_usb_getdata` for data of unknown length, up to a short read. -/
def ptpUsbGetdataLoop (data : List Byte) (link : UsbLink) : BitVec 16 × List Byte × UsbLink :=
  let r := ptpReadFunc pipes PTP_USB_BULK_HS_MAX_PACKET_LEN_READ false link
  if _hok : r.1 ≠ PTP_RC_OK then (r.1, data ++ r.2.1, r.2.2)
  else if r.2.1.length < PTP_USB_BULK_HS_MAX_PACKET_LEN_READ then
    (PTP_RC_OK, data ++ r.2.1, r.2.2)
  else ptpUsbGetdataLoop (data ++ r.2.1) r.2.2
termination_by link.incoming.length
decreasing_by exact ptpReadFunc_block_lt pipes (not_not.mp _hok)

/-- `ptp_usb_getdata`, with a handler that has been given nothing yet. A packet that is shorter
than its head makes the handler allocate nearly 2^64 bytes, which fails. -/
def ptpUsbGetdata (ptp : PTPContainer) (link : UsbLink) : BitVec 16 × List Byte × UsbLink :=
  let (ret, packet, link) := ptpUsbGetpacket pipes link
  let usbdata := usbContainerOf packet
  let code := dtoh16a usbdata 6
  let length := (dtoh32a usbdata 0).toNat
  if ret ≠ PTP_RC_OK then ( PTP_ERROR_IO, [], link)
  else if dtoh16a usbdata 4 ≠ PTP_USB_CONTAINER_DATA then (PTP_ERROR_DATA_EXPECTED, [], link)
  else if code ≠ ptp.code then
    (if code < PTP_RC_Undefined ∨ PTP_RC_SpecificationOfDestinationUnsupported < code then
      PTP_ERROR_IO else code, [], link)
  else if length = 0xffffffff then
    if packet.length < PTP_USB_BULK_HDR_LEN then (PTP_RC_GeneralError, [], link)
    else ptpUsbGetdataLoop pipes (packet.drop PTP_USB_BULK_HDR_LEN) link
  else
    let rlen := min packet.length length
    let surplus := packet.drop length
    let link :=
      if PTP_USB_BULK_HDR_LEN ≤ surplus.length then { link with responsePacket := surplus }
      else link
    let link :=
      if PTP_USB_BULK_HDR_LEN < length ∧ rlen = PTP_USB_BULK_HDR_LEN then
        { link with splitHeaderData := true }
      else link
    if rlen < PTP_USB_BULK_HDR_LEN then (PTP_RC_GeneralError, [], link)
    else
      let data := (packet.take rlen).drop PTP_USB_BULK_HDR_LEN
      let link :=
        if length = PTP_USB_BULK_HS_MAX_PACKET_LEN_READ ∧ link.splitHeaderData = false then
          zeroRead pipes link
        else link
      if length ≤ rlen then (PTP_RC_OK, data, link)
      else
        let (ret, more, link) := ptpReadFunc pipes (length - rlen) true link
        (ret, data ++ more, link)

/-- `ptp_usb_getresp`, with the session that is in the container already. Whether the transaction is
the right one is only looked at later, and only if the code is no error. -/
def ptpUsbGetresp (resp : PTPContainer) (link : UsbLink) : BitVec 16 × PTPContainer × UsbLink :=
  let (ret, packet, link) := ptpUsbGetpacket pipes link
  let usbresp := usbContainerOf packet
  let code := dtoh16a usbresp 6
  let ret :=
    if ret ≠ PTP_RC_OK then PTP_ERROR_IO
    else if dtoh16a usbresp 4 ≠ PTP_USB_CONTAINER_RESPONSE then PTP_ERROR_RESP_EXPECTED
    else if code ≠ resp.code then code
    else PTP_RC_OK
  if ret ≠ PTP_RC_OK then (ret, resp, link)
  else
    let resp := { resp with code := code, transactionId := dtoh32a usbresp 8 }
    (PTP_RC_OK, resp.readParams usbresp 12 5, link)

/-- `ptp_usb_control_cancel_request`. A negative result is compared as an unsigned number. -/
def ptpUsbControlCancelRequest : BitVec 16 :=
  if 0 ≤ pipes.control ∧ pipes.control < 6 then PTP_ERROR_IO else PTP_RC_OK

end pipes

end VitaMTP
