import VitaMTP.Events.Dispatch
import VitaMTP.Transport.PtpIpData

/-! The events that are read from the second connection of PTP/IP. -/
namespace VitaMTP
open Pieces

/-- What `VitaMTP_Read_Event` copies out of the container. -/
def PTPContainer.readEvent (event : PTPContainer) : ReadEvent where
  code := event.code
  param1 := event.param 0
  param2 := event.param 1
  param3 := event.param 2

/-- `VitaMTP_Read_Event`; no event is the result -1. -/
def vitaReadEvent (s : List (Piece Byte)) : Option (Option ReadEvent × List (Piece Byte)) :=
  (ptpipEventWait { code := 0 } s).map fun (ret, event, s) =>
    (if ret ≠ PTP_RC_OK then none else some event.readEvent, s)

/-- A packet that the device can send. -/
structure DevicePacket where
  type : BitVec 32
  payload : List Byte
  size : payload.length < 2 ^ 31

namespace DevicePacket

def bytes (p : DevicePacket) : List Byte := packet p.type p.payload

def isEvent (p : DevicePacket) : Bool := p.type = PTPIP_EVENT

/-- The event in a packet. One that is too short is read beyond its end, and one with more than
three parameters has none. -/
def event? (p : DevicePacket) : Option ReadEvent :=
  if p.payload.length < 6 then none
  else
    let n := (p.payload.length - 6) / 4
    let event : PTPContainer :=
      { code := dtoh16a p.payload 0, transactionId := dtoh32a p.payload 2 }
    some (if n ≤ 3 then event.readParams p.payload 6 n else event).readEvent

end DevicePacket

/-- No packet is complete. -/
def NoPacket (tail : List Byte) : Prop := ∀ (p : DevicePacket) rest, tail ≠ p.bytes ++ rest

section waiting

variable {s s' : List (Piece Byte)} {event : PTPContainer}

theorem noPacket_of_genericRead (h : genericRead s = (none, s')) : NoPacket (content s) := by
  intro p rest hcontent
  obtain ⟨s₁, hread, -⟩ := genericRead_packet p.size hcontent
  rw [h] at hread
  simp at hread

theorem ptpipEventWait_end (h : genericRead s = (none, s')) :
    ptpipEventWait event s = some (PTP_RC_GeneralError, event, s') := by
  rw [ptpipEventWait]
  split
  · rename_i hnone
    rw [h] at hnone
    obtain ⟨-, rfl⟩ := Prod.mk.inj hnone
    rfl
  · rename_i hsome
    rw [h] at hsome
    simp at hsome

theorem ptpipEventWait_read {hdr : PTPIPHeader} {data : List Byte}
    (h : genericRead s = (some (hdr, data), s')) :
    ptpipEventWait event s =
      if hdr.type = PTPIP_EVENT then
        if data.length < 6 then none
        else
          let n := (hdr.length.toNat - 8 - 6) / 4
          let event := { event with code := dtoh16a data 0, transactionId := dtoh32a data 2 }
          some (PTP_RC_OK, if n ≤ 3 then event.readParams data 6 n else event, s')
      else ptpipEventWait event s' := by
  rw [ptpipEventWait]
  split
  · rename_i hnone
    rw [h] at hnone
    simp at hnone
  · rename_i hsome
    rw [h] at hsome
    obtain ⟨hpair, rfl⟩ := Prod.mk.inj hsome
    obtain ⟨rfl, rfl⟩ := Prod.mk.inj (Option.some.inj hpair)
    rfl

theorem vitaReadEvent_end (h : genericRead s = (none, s')) :
    vitaReadEvent s = some (none, s') := by
  rw [vitaReadEvent, ptpipEventWait_end h, Option.map_some]
  dsimp only
  rw [if_pos PTP_RC_GeneralError_ne_OK]

theorem vitaReadEvent_read {p : DevicePacket} {length : BitVec 32}
    (hlength : length = BitVec.ofNat 32 (8 + p.payload.length))
    (h : genericRead s = (some (⟨length, p.type⟩, p.payload), s')) :
    vitaReadEvent s =
      if p.isEvent then p.event?.map fun event => (some event, s') else vitaReadEvent s' := by
  have hn : length.toNat - 8 - 6 = p.payload.length - 6 := by
    have hsize := p.size
    rw [hlength, BitVec.toNat_ofNat]
    omega
  rw [vitaReadEvent, ptpipEventWait_read h, vitaReadEvent]
  dsimp only
  by_cases hevent : p.type = PTPIP_EVENT
  · have hisEvent : p.isEvent = true := decide_eq_true hevent
    rw [if_pos hevent, if_pos hisEvent, hn, DevicePacket.event?]
    split
    · rfl
    · rw [Option.map_some, Option.map_some, if_neg (not_not.mpr rfl)]
  · have hisEvent : ¬ p.isEvent = true := mt of_decide_eq_true hevent
    rw [if_neg hevent, if_neg hisEvent]

theorem genericRead_packet_or (s : List (Piece Byte)) :
    (∃ s', genericRead s = (none, s')) ∨
      ∃ (p : DevicePacket) (length : BitVec 32) (s' : List (Piece Byte)),
        length = BitVec.ofNat 32 (8 + p.payload.length) ∧
        genericRead s = (some (⟨length, p.type⟩, p.payload), s') ∧
        content s = p.bytes ++ content s' ∧ (content s').length < (content s).length := by
  rcases hread : genericRead s with ⟨_ | ⟨⟨length, type⟩, payload⟩, s'⟩
  · exact Or.inl ⟨s', rfl⟩
  · obtain ⟨hsize, hlength, hcontent⟩ := genericRead_eq_some hread
    exact Or.inr ⟨⟨type, payload, hsize⟩, length, s', hlength, rfl, hcontent, genericRead_lt hread⟩

theorem vitaReadEvent_lt {event : ReadEvent} (h : vitaReadEvent s = some (some event, s')) :
    (content s').length < (content s).length := by
  obtain ⟨n, hn⟩ : ∃ n, (content s).length = n := ⟨_, rfl⟩
  induction n using Nat.strong_induction_on generalizing s with
  | _ n ih =>
    rcases genericRead_packet_or s with ⟨s₁, hread⟩ | ⟨p, length, s₁, hlength, hread, -, hlt⟩
    · rw [vitaReadEvent_end hread] at h
      simp at h
    · rw [vitaReadEvent_read hlength hread] at h
      split at h
      · obtain ⟨event', -, heq⟩ := Option.map_eq_some_iff.mp h
        obtain ⟨-, rfl⟩ := Prod.mk.inj heq
        exact hlt
      · exact (ih _ (hn ▸ hlt) h rfl).trans hlt

end waiting

/-- The loop of `vitaEventListener`, up to the first -1: the events that it serves. -/
def listenedEvents (s : List (Piece Byte)) : Option (List ReadEvent) :=
  match _h : vitaReadEvent s with
  | none => none
  | some (none, _) => some []
  | some (some event, s') => (listenedEvents s').map (event :: ·)
termination_by (content s).length
decreasing_by exact vitaReadEvent_lt _h

section listening

variable {s s' : List (Piece Byte)}

theorem listenedEvents_end (h : vitaReadEvent s = some (none, s')) :
    listenedEvents s = some [] := by
  rw [listenedEvents]
  split
  · rename_i hnone
    rw [h] at hnone
    simp at hnone
  · rfl
  · rename_i hsome
    rw [h] at hsome
    simp at hsome

theorem listenedEvents_fault (h : vitaReadEvent s = none) : listenedEvents s = none := by
  rw [listenedEvents]
  split
  · rfl
  all_goals
    rename_i hsome
    rw [h] at hsome
    simp at hsome

theorem listenedEvents_event {event : ReadEvent} (h : vitaReadEvent s = some (some event, s')) :
    listenedEvents s = (listenedEvents s').map (event :: ·) := by
  rw [listenedEvents]
  split
  · rename_i hnone
    rw [h] at hnone
    simp at hnone
  · rename_i hnone
    rw [h] at hnone
    simp at hnone
  · rename_i hsome
    rw [h] at hsome
    obtain ⟨hevent, rfl⟩ := Prod.mk.inj (Option.some.inj hsome)
    rw [Option.some.inj hevent]

theorem listenedEvents_congr (h : vitaReadEvent s = vitaReadEvent s') :
    listenedEvents s = listenedEvents s' := by
  rcases hread : vitaReadEvent s' with _ | ⟨_ | event, s₁⟩
  · rw [listenedEvents_fault hread, listenedEvents_fault (h.trans hread)]
  · rw [listenedEvents_end hread, listenedEvents_end (h.trans hread)]
  · rw [listenedEvents_event hread, listenedEvents_event (h.trans hread)]

/-- Whatever comes on the event connection, and however it arrives: it is a row of packets and an
end that is none, and the events that are served are those of the event packets, each once and in
their order. -/
theorem listenedEvents_packets (s : List (Piece Byte)) :
    ∃ (packets : List DevicePacket) (tail : List Byte),
      content s = packets.flatMap DevicePacket.bytes ++ tail ∧ NoPacket tail ∧
        listenedEvents s = (packets.filter DevicePacket.isEvent).mapM DevicePacket.event? := by
  obtain ⟨n, hn⟩ : ∃ n, (content s).length = n := ⟨_, rfl⟩
  induction n using Nat.strong_induction_on generalizing s with
  | _ n ih =>
    rcases genericRead_packet_or s with ⟨s₁, hread⟩ |
      ⟨p, length, s₁, hlength, hread, hcontent, hlt⟩
    · refine ⟨[], content s, rfl, noPacket_of_genericRead hread, ?_⟩
      rw [listenedEvents_end (vitaReadEvent_end hread)]
      rfl
    · obtain ⟨packets, tail, hpackets, htail, hlistened⟩ := ih _ (hn ▸ hlt) s₁ rfl
      have hfirst := vitaReadEvent_read hlength hread
      refine ⟨p :: packets, tail, ?_, htail, ?_⟩
      · rw [hcontent, hpackets, List.flatMap_cons, List.append_assoc]
      by_cases hevent : p.isEvent = true
      · rw [if_pos hevent] at hfirst
        rw [List.filter_cons_of_pos hevent, List.mapM_cons, ← hlistened]
        cases hdecoded : p.event? with
        | none =>
          rw [hdecoded] at hfirst
          exact listenedEvents_fault hfirst
        | some event =>
          rw [hdecoded] at hfirst
          rw [listenedEvents_event hfirst]
          cases listenedEvents s₁ <;> rfl
      · rw [if_neg hevent] at hfirst
        rw [List.filter_cons_of_neg hevent, ← hlistened]
        exact listenedEvents_congr hfirst

end listening

end VitaMTP
