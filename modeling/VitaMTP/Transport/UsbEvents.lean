import VitaMTP.Transport.EventStream
import VitaMTP.Transport.PtpIpTransport
import VitaMTP.Transport.UsbRead

/-! The events of a device, which are the same over the interrupt endpoint of USB and the second
connection of PTP/IP. -/
namespace VitaMTP
open Pieces

def PTP_USB_CONTAINER_EVENT : BitVec 16 := 4

/-- A read that gets nothing is repeated once. -/
def interruptRead :
    List (ℤ × List Byte) → Option ((ℤ × List Byte) × List (ℤ × List Byte))
  | [] => none
  | r :: reads =>
    if r.2 ≠ [] then some (r, reads)
    else
      match reads with
      | [] => none
      | r :: reads => some (r, reads)

/-- `ptp_usb_event_wait`, on what the reads of the endpoint return and get; it waits for ever at the
end of them. -/
def ptpUsbEventWait (event : PTPContainer) (reads : List (ℤ × List Byte)) :
    Option (BitVec 16 × PTPContainer × List (ℤ × List Byte)) := do
  let (r, reads) ← interruptRead reads
  if r.1 < 0 then some ( PTP_ERROR_IO, event, reads)
  else if r.2.length < 8 then some ( PTP_ERROR_IO, event, reads)
  else
    let usbevent := usbContainerOf r.2
    let event := { event with code := dtoh16a usbevent 6, transactionId := dtoh32a usbevent 8 }
    some (PTP_RC_OK, event.readParams usbevent 12 3, reads)

/-- `VitaMTP_Read_Event`, for a device on the bus. -/
def usbReadEvent (reads : List (ℤ × List Byte)) :
    Option (Option ReadEvent × List (ℤ × List Byte)) :=
  (ptpUsbEventWait { code := 0 } reads).map fun (ret, event, reads) =>
    (if ret ≠ PTP_RC_OK then none else some event.readEvent, reads)

theorem interruptRead_lt {r : ℤ × List Byte} {reads reads' : List (ℤ × List Byte)}
    (h : interruptRead reads = some (r, reads')) : reads'.length < reads.length := by
  cases reads with
  | nil => simp [interruptRead] at h
  | cons r reads =>
    cases reads with
    | nil =>
      simp only [interruptRead] at h
      split_ifs at h
      obtain ⟨-, rfl⟩ := Prod.mk.inj (Option.some.inj h)
      exact Nat.lt_succ_self _
    | cons r' reads =>
      simp only [interruptRead] at h
      split_ifs at h
      · obtain ⟨-, rfl⟩ := Prod.mk.inj (Option.some.inj h)
        exact Nat.lt_succ_self _
      · obtain ⟨-, rfl⟩ := Prod.mk.inj (Option.some.inj h)
        exact Nat.lt_succ_of_lt (Nat.lt_succ_self _)

theorem usbReadEvent_lt {reads reads' : List (ℤ × List Byte)} {event : ReadEvent}
    (h : usbReadEvent reads = some (some event, reads')) : reads'.length < reads.length := by
  obtain ⟨⟨ret, event', reads₁⟩, hwait, heq⟩ := Option.map_eq_some_iff.mp h
  obtain ⟨-, rfl⟩ := Prod.mk.inj heq
  rw [ptpUsbEventWait] at hwait
  obtain ⟨⟨r, more⟩, hread, hwait⟩ := Option.bind_eq_some_iff.mp hwait
  have hsame : reads₁ = more := by
    dsimp only at hwait
    split_ifs at hwait
    all_goals
      obtain ⟨-, hpair⟩ := Prod.mk.inj (Option.some.inj hwait)
      exact (Prod.mk.inj hpair).2.symm
  rw [hsame]
  exact interruptRead_lt hread

/-- The loop of `vitaEventListener`, up to the first -1, or to where it waits for ever. -/
def usbListenedEvents (reads : List (ℤ × List Byte)) : List ReadEvent :=
  match _h : usbReadEvent reads with
  | none | some (none, _) => []
  | some (some event, reads') => event :: usbListenedEvents reads'
termination_by reads.length
decreasing_by exact usbReadEvent_lt _h

theorem usbListenedEvents_event {reads reads' : List (ℤ × List Byte)} {event : ReadEvent}
    (h : usbReadEvent reads = some (some event, reads')) :
    usbListenedEvents reads = event :: usbListenedEvents reads' := by
  rw [usbListenedEvents]
  split
  · rename_i hnone
    rw [h] at hnone
    simp at hnone
  · rename_i hnone
    rw [h] at hnone
    simp at hnone
  · rename_i hsome
    rw [h] at hsome
    obtain ⟨hevent, rfl⟩ := Prod.mk.inj (Option.some.inj hsome)
    rw [Option.some.inj hevent]

theorem usbListenedEvents_end {reads : List (ℤ × List Byte)}
    (h : ∀ event reads', usbReadEvent reads ≠ some (some event, reads')) :
    usbListenedEvents reads = [] := by
  rw [usbListenedEvents]
  split
  · rfl
  · rfl
  · rename_i hsome
    exact absurd hsome (h _ _)

/-- An event of a device. -/
structure DeviceEvent where
  code : BitVec 16
  transactionId : BitVec 32
  params : List (BitVec 32)
  few : params.length ≤ 3

namespace DeviceEvent

variable (e : DeviceEvent)

/-- What `VitaMTP_Read_Event` should make of it. -/
def read : ReadEvent where
  code := e.code
  param1 := e.params.getD 0 0
  param2 := e.params.getD 1 0
  param3 := e.params.getD 2 0

def payload : List Byte :=
  htod16a e.code ++ (htod32a e.transactionId ++ e.params.flatMap htod32a)

def interrupt : List Byte :=
  usbContainer PTP_USB_CONTAINER_EVENT e.code e.transactionId (e.params.flatMap htod32a)

theorem length_payload : e.payload.length = 6 + 4 * e.params.length := by
  simp only [payload, List.length_append, length_htod16a, length_htod32a, length_flatMap_htod32a]
  omega

def devicePacket : DevicePacket where
  type := PTPIP_EVENT
  payload := e.payload
  size := by
    have hfew := e.few
    rw [e.length_payload]
    omega

theorem setParams_readEvent (id : BitVec 32) :
    (({ code := e.code, transactionId := id } : PTPContainer).setParams e.params).readEvent =
      e.read := by
  rfl

theorem event?_devicePacket : e.devicePacket.event? = some e.read := by
  have hfew := e.few
  have hlength := e.length_payload
  have hn : (e.payload.length - 6) / 4 = e.params.length := by omega
  have hcode : dtoh16a e.payload 0 = e.code := dtoh16a_head ..
  have hid : dtoh32a e.payload 2 = e.transactionId := dtoh32a_append _ (length_htod16a _)
  have hparams (ptp : PTPContainer) :
      ptp.readParams e.payload 6 e.params.length = ptp.setParams e.params := by
    have hread := @PTPContainer.readParams_flatMap ptp (htod16a e.code ++ htod32a e.transactionId)
      [] e.params 6 rfl
    rwa [List.append_nil, List.append_assoc] at hread
  have hlong : ¬ e.devicePacket.payload.length < 6 := by
    rw [devicePacket, hlength]
    omega
  rw [DevicePacket.event?, if_neg hlong]
  dsimp only [devicePacket]
  rw [hn, if_pos hfew, hcode, hid, hparams, setParams_readEvent]

theorem usbReadEvent_interrupt {ret : ℤ} (hret : 0 ≤ ret) {gap : List (ℤ × List Byte)}
    (hgap : gap = [] ∨ ∃ err, gap = [(err, [])]) (reads : List (ℤ × List Byte)) :
    usbReadEvent (gap ++ (ret, e.interrupt) :: reads) = some (some e.read, reads) := by
  have hfew := e.few
  have hheader := length_usbHeader PTP_USB_CONTAINER_EVENT e.code e.transactionId
    (e.params.flatMap htod32a).length
  have hlength : e.interrupt.length = 12 + 4 * e.params.length := by
    rw [interrupt, length_usbContainer, length_flatMap_htod32a]
    rfl
  have hne : e.interrupt ≠ [] := List.length_pos_iff.mp (by omega)
  have hread : interruptRead (gap ++ (ret, e.interrupt) :: reads) =
      some ((ret, e.interrupt), reads) := by
    rcases hgap with rfl | ⟨err, rfl⟩
    · rw [List.nil_append, interruptRead.eq_def]
      exact if_pos hne
    · rfl
  obtain ⟨-, -, hcode, hid⟩ := usbContainerOf_fields PTP_USB_CONTAINER_EVENT e.code
    e.transactionId (e.params.flatMap htod32a).length (e.params.flatMap htod32a)
  rw [← usbContainer, ← interrupt] at hcode hid
  have hparam (i : Fin 5) (hi : i.val < 3) :
      dtoh32a (usbContainerOf e.interrupt) (12 + 4 * i.val) = e.params.getD i 0 := by
    by_cases hlt : i.val < e.params.length
    · rw [List.getD_eq_getElem _ _ hlt, usbContainerOf, interrupt, usbContainer,
        List.append_assoc, show 12 = PTP_USB_BULK_HDR_LEN from rfl, ← hheader]
      exact dtoh32a_flatMap hlt
    · rw [List.getD_eq_default _ _ (Nat.not_lt.mp hlt), usbContainerOf]
      apply dtoh32a_zeros
      omega
  rw [usbReadEvent, ptpUsbEventWait, hread, Option.bind_eq_bind, Option.bind_some]
  dsimp only
  rw [if_neg (by omega), if_neg (by omega), Option.map_some, if_neg (not_not.mpr rfl), hcode, hid]
  have hevent (ptp : PTPContainer) (hcode : ptp.code = e.code) :
      (ptp.readParams (usbContainerOf e.interrupt) 12 3).readEvent = e.read := by
    rw [PTPContainer.readEvent, PTPContainer.readParams, DeviceEvent.read, hcode]
    dsimp only
    rw [if_pos (by decide), if_pos (by decide), if_pos (by decide), hparam 0 (by decide),
      hparam 1 (by decide), hparam 2 (by decide)]
    rfl
  rw [hevent _ rfl]

end DeviceEvent

/-- What the endpoint brings of events: a transfer each, and what may get nothing in between. -/
inductive Interrupts : List DeviceEvent → List (ℤ × List Byte) → Prop
  | nil : Interrupts [] []
  | cons {e : DeviceEvent} {events : List DeviceEvent} {ret : ℤ} {gap reads : List (ℤ × List Byte)}
      (hgap : gap = [] ∨ ∃ err, gap = [(err, [])]) (hret : 0 ≤ ret) (h : Interrupts events reads) :
      Interrupts (e :: events) (gap ++ (ret, e.interrupt) :: reads)

/-- A device whose events come over one or the other: what is served is the same, each event once
and in its order, however the connection cuts them and whichever reads of the endpoint get
nothing. -/
theorem listenedEvents_same {events : List DeviceEvent} {s : List (Piece Byte)} {tail : List Byte}
    {reads : List (ℤ × List Byte)}
    (h : content s = (events.map DeviceEvent.devicePacket).flatMap DevicePacket.bytes ++ tail)
    (htail : NoPacket tail) (hreads : Interrupts events reads) :
    listenedEvents s = some (events.map DeviceEvent.read) ∧
      usbListenedEvents reads = events.map DeviceEvent.read := by
  induction hreads generalizing s with
  | nil =>
    constructor
    · rw [List.map_nil, List.flatMap_nil, List.nil_append] at h
      rcases genericRead_packet_or s with ⟨s₁, hread⟩ | ⟨p, -, s₁, -, -, hcontent, -⟩
      · exact listenedEvents_end (vitaReadEvent_end hread)
      · exact absurd (h.symm.trans hcontent) (htail p _)
    · apply usbListenedEvents_end
      intro event reads'
      simp [usbReadEvent, ptpUsbEventWait, interruptRead]
  | @cons e events ret gap reads hgap hret _ ih =>
    rw [List.map_cons, List.flatMap_cons, List.append_assoc, DevicePacket.bytes] at h
    obtain ⟨s₁, hread, hrest⟩ := genericRead_packet e.devicePacket.size h
    obtain ⟨hip, husb⟩ := ih hrest
    have hfirst := vitaReadEvent_read rfl hread
    rw [if_pos (show e.devicePacket.isEvent = true from rfl), e.event?_devicePacket,
      Option.map_some] at hfirst
    rw [listenedEvents_event hfirst, hip,
      usbListenedEvents_event (e.usbReadEvent_interrupt hret hgap reads), husb]
    exact ⟨rfl, rfl⟩

def terminateEvent : DeviceEvent where
  code := 0xC126
  transactionId := 3
  params := [7]
  few := Nat.le_of_ble_eq_true rfl

theorem noPacket_nil : NoPacket [] := by
  intro p rest h
  have hlength := congrArg List.length h
  rw [DevicePacket.bytes, List.length_append, length_packet, List.length_nil] at hlength
  omega

theorem listenedEvents_same_sample :
    listenedEvents (trickle terminateEvent.devicePacket.bytes).cmd = some [terminateEvent.read] ∧
      usbListenedEvents [(-7, []), (0, terminateEvent.interrupt)] = [terminateEvent.read] :=
  @listenedEvents_same [terminateEvent] _ [] _
    (by rw [content_trickle, List.append_nil]; exact (List.flatMap_singleton _ _).symm)
    noPacket_nil (.cons (Or.inr ⟨-7, rfl⟩) le_rfl .nil)

end VitaMTP
