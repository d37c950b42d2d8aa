import VitaMTP.Library.Pieces
import VitaMTP.Transport.Container

/-! PTP/IP: the packets that `wireless.c` writes to a connection and reads from it. -/
namespace VitaMTP
open Pieces

def PTPIP_INIT_COMMAND_REQUEST : BitVec 32 := 1
def PTPIP_INIT_COMMAND_ACK : BitVec 32 := 2
def PTPIP_INIT_EVENT_REQUEST : BitVec 32 := 3
def PTPIP_INIT_EVENT_ACK : BitVec 32 := 4
def PTPIP_CMD_REQUEST : BitVec 32 := 6
def PTPIP_CMD_RESPONSE : BitVec 32 := 7
def PTPIP_EVENT : BitVec 32 := 8
def PTPIP_START_DATA_PACKET : BitVec 32 := 9
def PTPIP_DATA_PACKET : BitVec 32 := 10
def PTPIP_END_DATA_PACKET : BitVec 32 := 12

def WRITE_BLOCKSIZE : ℕ := 32756

/-- How much of what it is offered the `n`-th call of `send` takes; `none` is an error. -/
structure Socket where
  send : ℕ → ℕ → Option ℕ
  takes : ∀ {n len k}, send n len = some k → k ≤ len ∧ (len ≠ 0 → k ≠ 0)

/-- What has been written to a connection, and in how many calls. -/
structure Outgoing where
  calls : ℕ := 0
  bytes : List Byte := []
  deriving DecidableEq, Repr

/-- `send` -/
def Socket.sendTo (socket : Socket) (out : Outgoing) (data : List Byte) : Option ℕ × Outgoing :=
  match socket.send out.calls data.length with
  | none => (none, { out with calls := out.calls + 1 })
  | some k => (some k, { calls := out.calls + 1, bytes := out.bytes ++ data.take k })

theorem Socket.sendTo_some {socket : Socket} {out out' : Outgoing} {data : List Byte} {k : ℕ}
    (h : socket.sendTo out data = (some k, out')) :
    k ≤ data.length ∧ (data ≠ [] → k ≠ 0) ∧ out'.bytes = out.bytes ++ data.take k := by
  unfold sendTo at h
  cases hsend : socket.send out.calls data.length with
  | none => simp [hsend] at h
  | some k' =>
    obtain ⟨hle, hpos⟩ := socket.takes hsend
    rw [hsend] at h
    obtain ⟨hk, rfl⟩ := Prod.mk.inj h
    obtain rfl := Option.some.inj hk
    exact ⟨hle, fun hne => hpos (mt List.length_eq_zero_iff.mp hne), rfl⟩

theorem Socket.sendTo_none {socket : Socket} {out out' : Outgoing} {data : List Byte}
    (h : socket.sendTo out data = (none, out')) : out'.bytes = out.bytes := by
  unfold sendTo at h
  cases hsend : socket.send out.calls data.length with
  | none =>
    rw [hsend] at h
    obtain ⟨-, rfl⟩ := Prod.mk.inj h
    rfl
  | some k => simp [hsend] at h

def packet (type : BitVec 32) (payload : List Byte) : List Byte :=
  htod32a (BitVec.ofNat 32 (8 + payload.length)) ++ (htod32a type ++ payload)

/-- What `ptp_ptpip_sendreq` writes; the data phase is always announced as 1. -/
def requestPacket (req : PTPContainer) : List Byte :=
  packet PTPIP_CMD_REQUEST (htod32a 1 ++ (htod16a req.code ++
    (htod32a req.transactionId ++ req.sentParams.flatMap htod32a)))

def startDataPacket (transactionId : BitVec 32) (size : ℕ) : List Byte :=
  packet PTPIP_START_DATA_PACKET (htod32a transactionId ++ (htod32a (BitVec.ofNat 32 size) ++
    htod32a 0))

def dataPacket (type transactionId : BitVec 32) (block : List Byte) : List Byte :=
  packet type (htod32a transactionId ++ block)

/-- A request that is not written whole is logged, and the call succeeds. -/
def ptpipSendreq (socket : Socket) (out : Outgoing) (req : PTPContainer) : BitVec 16 × Outgoing :=
  (PTP_RC_OK, (socket.sendTo out (requestPacket req)).2)

/-- The loop over `send` until all is written, or a call fails. -/
def Socket.sendAll (socket : Socket) (out : Outgoing) (data : List Byte) : Bool × Outgoing :=
  if data = [] then (true, out)
  else
    match _h : socket.sendTo out data with
    | (none, out) => (false, out)
    | (some k, out) => socket.sendAll out (data.drop k)
termination_by data.length
decreasing_by
  rename_i hne
  obtain ⟨hle, hpos, -⟩ := Socket.sendTo_some _h
  have hk := hpos hne
  rw [List.length_drop]
  omega

/-- The loop of `ptp_ptpip_senddata`, with `left` bytes to go and `data` in the handler. -/
def ptpipSenddataLoop (socket : Socket) (transactionId : BitVec 32) (out : Outgoing) (left : ℕ)
    (data : List Byte) : BitVec 16 × Outgoing :=
  if left = 0 then (PTP_RC_OK, out)
  else
    let towrite := min left WRITE_BLOCKSIZE
    let type := if WRITE_BLOCKSIZE < left then PTPIP_DATA_PACKET else PTPIP_END_DATA_PACKET
    let written := socket.sendAll out (dataPacket type transactionId (data.take towrite))
    if written.1 then
      ptpipSenddataLoop socket transactionId written.2 (left - towrite) (data.drop towrite)
    else (PTP_RC_GeneralError, written.2)
termination_by left
decreasing_by
  unfold WRITE_BLOCKSIZE
  omega

/-- The first packet has to be taken by a single call. -/
def ptpipSenddata (socket : Socket) (out : Outgoing) (ptp : PTPContainer) (size : ℕ)
    (data : List Byte) : BitVec 16 × Outgoing :=
  let first := socket.sendTo out (startDataPacket ptp.transactionId size)
  if first.1 = some 20 then ptpipSenddataLoop socket ptp.transactionId first.2 size data
  else (PTP_RC_GeneralError, first.2)

/-- `PTPIPHeader` -/
structure PTPIPHeader where
  length : BitVec 32
  type : BitVec 32
  deriving DecidableEq, Repr

/-- `ptp_ptpip_generic_read`; nothing is `PTP_RC_GeneralError`. -/
def genericRead (s : List (Piece Byte)) :
    Option (PTPIPHeader × List Byte) × List (Piece Byte) :=
  match readExact 8 s with
  | (none, s) => (none, s)
  | (some xhdr, s) =>
    let hdr : PTPIPHeader := ⟨dtoh32a xhdr 0, dtoh32a xhdr 4⟩
    let len : ℤ := (hdr.length - 8).toInt
    if len < 0 then (none, s)
    else
      match readExact len.toNat s with
      | (none, s) => (none, s)
      | (some data, s) => (some (hdr, data), s)

section packets

variable {s s' : List (Piece Byte)} {type : BitVec 32} {payload rest : List Byte}
  {hdr : PTPIPHeader}

@[simp] theorem length_packet (type : BitVec 32) (payload : List Byte) :
    (packet type payload).length = 8 + payload.length := by
  simp only [packet, List.length_append, length_htod32a]
  omega

theorem genericRead_packet (hsize : payload.length < 2 ^ 31)
    (h : content s = packet type payload ++ rest) :
    ∃ s', genericRead s = (some (⟨BitVec.ofNat 32 (8 + payload.length), type⟩, payload), s') ∧
      content s' = rest := by
  have hxhdr : (htod32a (BitVec.ofNat 32 (8 + payload.length)) ++ htod32a type).length = 8 := by
    rw [List.length_append, length_htod32a, length_htod32a]
  have hsplit : content s = (htod32a (BitVec.ofNat 32 (8 + payload.length)) ++ htod32a type) ++
      (payload ++ rest) := by
    rw [h, packet]
    simp only [List.append_assoc]
  obtain ⟨s₁, hread₁, hcontent₁⟩ := readExact_append hsplit
  obtain ⟨s₂, hread₂, hcontent₂⟩ := readExact_append hcontent₁
  have hlength : dtoh32a (htod32a (BitVec.ofNat 32 (8 + payload.length)) ++ htod32a type) 0 =
      BitVec.ofNat 32 (8 + payload.length) := dtoh32a_head ..
  have htype : dtoh32a (htod32a (BitVec.ofNat 32 (8 + payload.length)) ++ htod32a type) 4 =
      type := dtoh32a_last type (length_htod32a _)
  have hlen : (BitVec.ofNat 32 (8 + payload.length) - 8).toInt = payload.length := by
    have hnat : (BitVec.ofNat 32 (8 + payload.length) - 8).toNat = payload.length := by
      have height : (8 : BitVec 32).toNat = 8 := rfl
      simp only [BitVec.toNat_sub, BitVec.toNat_ofNat, height]
      omega
    rw [BitVec.toInt_eq_toNat_of_lt (by omega), hnat]
  refine ⟨s₂, ?_, hcontent₂⟩
  rw [hxhdr] at hread₁
  simp only [genericRead, hread₁, hlength, htype, hlen]
  rw [if_neg (by omega), Int.toNat_natCast, hread₂]

theorem genericRead_eq_some (h : genericRead s = (some (hdr, payload), s')) :
    payload.length < 2 ^ 31 ∧ hdr.length = BitVec.ofNat 32 (8 + payload.length) ∧
      content s = packet hdr.type payload ++ content s' := by
  unfold genericRead at h
  rcases hread₁ : readExact 8 s with ⟨_ | xhdr, s₁⟩
  · simp [hread₁] at h
  rw [hread₁] at h
  dsimp only at h
  split at h
  · simp at h
  rename_i hlen
  rcases hread₂ : readExact ((dtoh32a xhdr 0 - 8).toInt).toNat s₁ with ⟨_ | data, s₂⟩
  · rw [hread₂] at h
    simp at h
  rw [hread₂] at h
  obtain ⟨hsome, rfl⟩ := Prod.mk.inj h
  obtain ⟨rfl, rfl⟩ := Prod.mk.inj (Option.some.inj hsome)
  obtain ⟨hcontent₁, hxhdr⟩ := readExact_eq_some hread₁
  obtain ⟨hcontent₂, hdata⟩ := readExact_eq_some hread₂
  have hlt := (dtoh32a xhdr 0 - 8).toInt_lt
  have hlength : dtoh32a xhdr 0 = BitVec.ofNat 32 (8 + data.length) := by
    have hint : (dtoh32a xhdr 0 - 8).toInt = data.length := by omega
    have hnat := BitVec.toInt_eq_toNat_cond (dtoh32a xhdr 0 - 8)
    apply BitVec.eq_of_toNat_eq
    have height : (8 : BitVec 32).toNat = 8 := rfl
    simp only [BitVec.toNat_sub, BitVec.toNat_ofNat, height] at hnat ⊢
    omega
  refine ⟨by omega, hlength, ?_⟩
  have hfirst : htod32a (dtoh32a xhdr 0) = xhdr.take 4 := htod32a_dtoh32a (by omega)
  have hsecond : htod32a (dtoh32a xhdr 4) = xhdr.drop 4 := by
    rw [htod32a_dtoh32a (by omega), List.take_of_length_le (by rw [List.length_drop]; omega)]
  rw [packet, ← hlength, hfirst, hsecond, ← List.append_assoc, List.take_append_drop,
    List.append_assoc, ← hcontent₂]
  exact hcontent₁

theorem genericRead_lt (h : genericRead s = (some (hdr, payload), s')) :
    (content s').length < (content s).length := by
  obtain ⟨-, -, hcontent⟩ := genericRead_eq_some h
  rw [hcontent, List.length_append, length_packet]
  omega

end packets

/-- The loop of `ptp_ptpip_getdata`; `data` is what the handler has been given. -/
def ptpipGetdataLoop (toread : ℕ) (data : List Byte) (s : List (Piece Byte)) :
    Option (BitVec 16 × List Byte × List (Piece Byte)) :=
  if data.length < toread then
    match _h : genericRead s with
    | (none, s) => some (PTP_RC_GeneralError, data, s)
    | (some (hdr, xdata), s') =>
      if hdr.type = PTPIP_END_DATA_PACKET ∨ hdr.type = PTPIP_DATA_PACKET then
        let datalen := (hdr.length - 8 - 4).toNat
        if toread - data.length < datalen then some (PTP_RC_GeneralError, data, s')
        else do
          let block ← memcpy? xdata 4 datalen
          ptpipGetdataLoop toread (data ++ block) s'
      else ptpipGetdataLoop toread data s'
  else some (PTP_RC_OK, data, s)
termination_by (content s).length
decreasing_by all_goals exact genericRead_lt _h

/-- `ptp_ptpip_getdata`, with a handler that has been given nothing yet. It has no result where it
reads outside of a packet. -/
def ptpipGetdata (s : List (Piece Byte)) : Option (BitVec 16 × List Byte × List (Piece Byte)) :=
  match genericRead s with
  | (none, s) => some (PTP_RC_GeneralError, [], s)
  | (some (hdr, xdata), s) =>
    if hdr.type = PTPIP_CMD_RESPONSE then
      -- the message that is logged reads a number at offset 8
      if xdata.length < 12 then none else some (PTP_RC_GeneralError, [], s)
    else if hdr.type ≠ PTPIP_START_DATA_PACKET then some (PTP_RC_GeneralError, [], s)
    else if xdata.length < 8 then none
    else ptpipGetdataLoop (dtoh32a xdata 4).toNat [] s

/-- `ptp_ptpip_getresp`. The type of the packet is not looked at. -/
def ptpipGetresp (resp : PTPContainer) (s : List (Piece Byte)) :
    Option (BitVec 16 × PTPContainer × List (Piece Byte)) :=
  match genericRead s with
  | (none, s) => some (PTP_RC_GeneralError, resp, s)
  | (some (hdr, data), s) =>
    if data.length < 6 then none
    else
      let n := (hdr.length.toNat - 8 - 6) / 4
      let resp := { resp with code := dtoh16a data 0, transactionId := dtoh32a data 2 }
      some (PTP_RC_OK, if n ≤ 5 then resp.readParams data 6 n else resp, s)

/-- `ptp_ptpip_event_wait`. Packets of other types are logged and forgotten. -/
def ptpipEventWait (event : PTPContainer) (s : List (Piece Byte)) :
    Option (BitVec 16 × PTPContainer × List (Piece Byte)) :=
  match _h : genericRead s with
  | (none, s) => some (PTP_RC_GeneralError, event, s)
  | (some (hdr, data), s') =>
    if hdr.type = PTPIP_EVENT then
      if data.length < 6 then none
      else
        let n := (hdr.length.toNat - 8 - 6) / 4
        let event := { event with code := dtoh16a data 0, transactionId := dtoh32a data 2 }
        some (PTP_RC_OK, if n ≤ 3 then event.readParams data 6 n else event, s')
    else ptpipEventWait event s'
termination_by (content s).length
decreasing_by exact genericRead_lt _h

end VitaMTP
