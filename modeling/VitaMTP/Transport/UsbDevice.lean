import VitaMTP.Transport.UsbSession

/-! A Vita on the bus: finding its endpoints, opening it, and letting go of it. -/
namespace VitaMTP
open Transfers

def PTP_RC_InvalidTransactionID : BitVec 16 := 0x2004
def PTP_RC_SessionAlreadyOpened : BitVec 16 := 0x201E

def LIBUSB_TRANSFER_TYPE_BULK : BitVec 8 := 2
def LIBUSB_TRANSFER_TYPE_INTERRUPT : BitVec 8 := 3
def LIBUSB_ENDPOINT_DIR_MASK : BitVec 8 := 0x80

structure UsbEndpoint where
  bEndpointAddress : BitVec 8
  bmAttributes : BitVec 8
  wMaxPacketSize : BitVec 16
  deriving DecidableEq, Repr

/-- The first setting of an interface. -/
structure UsbInterface where
  bInterfaceNumber : BitVec 8
  endpoint : List UsbEndpoint
  deriving DecidableEq, Repr

/-- What `find_interface_and_endpoints` writes. -/
structure UsbInfo where
  interface : BitVec 8 := 0
  inep : BitVec 8 := 0
  inepMaxpacket : BitVec 16 := 0
  outep : BitVec 8 := 0
  outepMaxpacket : BitVec 16 := 0
  intep : BitVec 8 := 0
  deriving DecidableEq, Repr

/-- What has been written, and what is known to have been found. -/
structure EndpointScan where
  info : UsbInfo
  foundInep : Bool := false
  foundOutep : Bool := false
  foundIntep : Bool := false
  deriving DecidableEq, Repr

namespace UsbEndpoint

variable (ep : UsbEndpoint)

def dir : BitVec 8 := ep.bEndpointAddress &&& LIBUSB_ENDPOINT_DIR_MASK

/-- The body of the loop over the endpoints. -/
def scan (s : EndpointScan) : EndpointScan :=
  if ep.bmAttributes = LIBUSB_TRANSFER_TYPE_BULK then
    let s :=
      if ep.dir = LIBUSB_ENDPOINT_DIR_MASK then
        { s with
          info := { s.info with
            inep := ep.bEndpointAddress
            inepMaxpacket := ep.wMaxPacketSize }
          foundInep := true }
      else s
    if ep.dir = 0 then
      { s with
        info := { s.info with
          outep := ep.bEndpointAddress
          outepMaxpacket := ep.wMaxPacketSize }
        foundOutep := true }
    else s
  else if ep.bmAttributes = LIBUSB_TRANSFER_TYPE_INTERRUPT then
    if ep.dir = LIBUSB_ENDPOINT_DIR_MASK then
      { s with
        info := { s.info with intep := ep.bEndpointAddress }
        foundIntep := true }
    else s
  else s

def IsIn : Prop := ep.bmAttributes = LIBUSB_TRANSFER_TYPE_BULK ∧ ep.dir = LIBUSB_ENDPOINT_DIR_MASK

def IsOut : Prop := ep.bmAttributes = LIBUSB_TRANSFER_TYPE_BULK ∧ ep.dir = 0

def IsInt : Prop :=
  ep.bmAttributes = LIBUSB_TRANSFER_TYPE_INTERRUPT ∧ ep.dir = LIBUSB_ENDPOINT_DIR_MASK

end UsbEndpoint

namespace UsbInterface

variable (iface : UsbInterface)

/-- The body of the loop over the interfaces: whether everything has been found. -/
def scan (info : UsbInfo) : Bool × UsbInfo :=
  if iface.endpoint.length ≠ 3 then (false, info)
  else
    let s := iface.endpoint.foldl (fun s ep => ep.scan s)
      { info := { info with interface := iface.bInterfaceNumber } }
    (s.foundInep && s.foundOutep && s.foundIntep, s.info)

/-- An interface of a device for MTP. -/
structure Suitable : Prop where
  three : iface.endpoint.length = 3
  inep : ∃ ep ∈ iface.endpoint, ep.IsIn
  outep : ∃ ep ∈ iface.endpoint, ep.IsOut
  intep : ∃ ep ∈ iface.endpoint, ep.IsInt

end UsbInterface

/-- What has been written is from the one interface. -/
structure UsbInfo.Describes (info : UsbInfo) (iface : UsbInterface) : Prop where
  interface : info.interface = iface.bInterfaceNumber
  inep : ∃ ep ∈ iface.endpoint, ep.IsIn ∧ info.inep = ep.bEndpointAddress ∧
    info.inepMaxpacket = ep.wMaxPacketSize
  outep : ∃ ep ∈ iface.endpoint, ep.IsOut ∧ info.outep = ep.bEndpointAddress ∧
    info.outepMaxpacket = ep.wMaxPacketSize
  intep : ∃ ep ∈ iface.endpoint, ep.IsInt ∧ info.intep = ep.bEndpointAddress

def scanInterfaces : List UsbInterface → UsbInfo → Bool × UsbInfo
  | [], info => (false, info)
  | iface :: ifaces, info =>
    if (iface.scan info).1 then (true, (iface.scan info).2)
    else scanInterfaces ifaces (iface.scan info).2

/-- The loop over the configurations, of which some may not be there to be read. -/
def scanConfigs : List (Option (List UsbInterface)) → UsbInfo → Bool × UsbInfo
  | [], info => (false, info)
  | none :: configs, info => scanConfigs configs info
  | some ifaces :: configs, info =>
    if (scanInterfaces ifaces info).1 then (true, (scanInterfaces ifaces info).2)
    else scanConfigs configs (scanInterfaces ifaces info).2

/-- `find_interface_and_endpoints`, on the descriptor of a device if it can be read. -/
def findInterfaceAndEndpoints (descriptor : Option (List (Option (List UsbInterface))))
    (info : UsbInfo) : ℤ × UsbInfo :=
  match descriptor with
  | none => (-1, info)
  | some configs => (if (scanConfigs configs info).1 then 0 else -1, (scanConfigs configs info).2)

section endpoints

variable {ep : UsbEndpoint} {eps : List UsbEndpoint} {iface : UsbInterface} {info : UsbInfo}
  {P Q Q' : UsbEndpoint → Prop} {found : Bool}

/-- A flag says whether there is an endpoint with `P` so far, and `Q` holds of one such. -/
structure Tracks (found : Bool) (P Q : UsbEndpoint → Prop) (eps : List UsbEndpoint) : Prop where
  found_iff : found = true ↔ ∃ ep ∈ eps, P ep
  of_found : found = true → ∃ ep ∈ eps, P ep ∧ Q ep

namespace Tracks

theorem nil : Tracks false P Q [] :=
  ⟨iff_of_false Bool.false_ne_true (by simp), fun h => absurd h Bool.false_ne_true⟩

theorem hit (hP : P ep) (hQ : Q ep) : Tracks true P Q (eps ++ [ep]) := by
  have hmem : ep ∈ eps ++ [ep] := List.mem_append_right _ (List.mem_singleton_self _)
  exact ⟨iff_of_true rfl ⟨ep, hmem, hP⟩, fun _ => ⟨ep, hmem, hP, hQ⟩⟩

theorem miss (h : Tracks found P Q eps) (hP : ¬ P ep) : Tracks found P Q (eps ++ [ep]) := by
  constructor
  · rw [h.found_iff]
    constructor
    · rintro ⟨ep', hmem, hP'⟩
      exact ⟨ep', List.mem_append_left _ hmem, hP'⟩
    · rintro ⟨ep', hmem, hP'⟩
      rcases List.mem_append.mp hmem with hmem | hmem
      · exact ⟨ep', hmem, hP'⟩
      · exact absurd (List.mem_singleton.mp hmem ▸ hP') hP
  · intro hfound
    obtain ⟨ep', hmem, hboth⟩ := h.of_found hfound
    exact ⟨ep', List.mem_append_left _ hmem, hboth⟩

end Tracks

/-- What the loop knows after the endpoints `eps`. -/
structure EndpointScan.Knows (s : EndpointScan) (eps : List UsbEndpoint) (interface : BitVec 8) :
    Prop where
  interface : s.info.interface = interface
  inep : Tracks s.foundInep UsbEndpoint.IsIn
    (fun ep => s.info.inep = ep.bEndpointAddress ∧ s.info.inepMaxpacket = ep.wMaxPacketSize) eps
  outep : Tracks s.foundOutep UsbEndpoint.IsOut
    (fun ep => s.info.outep = ep.bEndpointAddress ∧ s.info.outepMaxpacket = ep.wMaxPacketSize) eps
  intep : Tracks s.foundIntep UsbEndpoint.IsInt
    (fun ep => s.info.intep = ep.bEndpointAddress) eps

theorem knows_scan {s : EndpointScan} {interface : BitVec 8} (h : s.Knows eps interface)
    (ep : UsbEndpoint) : (ep.scan s).Knows (eps ++ [ep]) interface := by
  have hdir : LIBUSB_ENDPOINT_DIR_MASK ≠ 0 := by decide
  have htype : LIBUSB_TRANSFER_TYPE_BULK ≠ LIBUSB_TRANSFER_TYPE_INTERRUPT := by decide
  by_cases hbulk : ep.bmAttributes = LIBUSB_TRANSFER_TYPE_BULK
  · have hint : ¬ ep.IsInt := fun h => htype (hbulk.symm.trans h.1)
    by_cases hin : ep.dir = LIBUSB_ENDPOINT_DIR_MASK
    · have hnout : ep.dir ≠ 0 := fun h => hdir (hin.symm.trans h)
      rw [UsbEndpoint.scan, if_pos hbulk, if_pos hin, if_neg hnout]
      exact ⟨h.interface, .hit ⟨hbulk, hin⟩ ⟨rfl, rfl⟩, h.outep.miss fun h => hnout h.2,
        h.intep.miss hint⟩
    · have hnin : ¬ ep.IsIn := fun h => hin h.2
      rw [UsbEndpoint.scan, if_pos hbulk, if_neg hin]
      by_cases hout : ep.dir = 0
      · rw [if_pos hout]
        exact ⟨h.interface, h.inep.miss hnin, .hit ⟨hbulk, hout⟩ ⟨rfl, rfl⟩, h.intep.miss hint⟩
      · rw [if_neg hout]
        exact ⟨h.interface, h.inep.miss hnin, h.outep.miss fun h => hout h.2, h.intep.miss hint⟩
  · have hnin : ¬ ep.IsIn := fun h => hbulk h.1
    have hnout : ¬ ep.IsOut := fun h => hbulk h.1
    rw [UsbEndpoint.scan, if_neg hbulk]
    split_ifs with hinterrupt hin
    · exact ⟨h.interface, h.inep.miss hnin, h.outep.miss hnout, .hit ⟨hinterrupt, hin⟩ rfl⟩
    · exact ⟨h.interface, h.inep.miss hnin, h.outep.miss hnout, h.intep.miss fun h => hin h.2⟩
    · exact ⟨h.interface, h.inep.miss hnin, h.outep.miss hnout,
        h.intep.miss fun h => hinterrupt h.1⟩

theorem knows_foldl {s : EndpointScan} {interface : BitVec 8} (h : s.Knows eps interface)
    (more : List UsbEndpoint) :
    (more.foldl (fun s ep => ep.scan s) s).Knows (eps ++ more) interface := by
  induction more generalizing s eps with
  | nil =>
    rw [List.append_nil]
    exact h
  | cons ep more ih =>
    have hnext := ih (knows_scan h ep)
    rw [List.append_assoc] at hnext
    exact hnext

/-- An interface is taken exactly if it is suitable, and then everything comes from it. -/
theorem scan_iff (iface : UsbInterface) (info : UsbInfo) :
    ((iface.scan info).1 = true ↔ iface.Suitable) ∧
      ((iface.scan info).1 = true → (iface.scan info).2.Describes iface) := by
  rw [UsbInterface.scan]
  by_cases hthree : iface.endpoint.length = 3
  · have hknows := @knows_foldl [] { info := { info with interface := iface.bInterfaceNumber } }
      iface.bInterfaceNumber ⟨rfl, .nil, .nil, .nil⟩ iface.endpoint
    rw [List.nil_append] at hknows
    rw [if_neg (not_not.mpr hthree)]
    dsimp only
    rw [Bool.and_eq_true, Bool.and_eq_true]
    constructor
    · rw [hknows.inep.found_iff, hknows.outep.found_iff, hknows.intep.found_iff]
      exact ⟨fun h => ⟨hthree, h.1.1, h.1.2, h.2⟩, fun h => ⟨⟨h.inep, h.outep⟩, h.intep⟩⟩
    · intro h
      exact ⟨hknows.interface, hknows.inep.of_found h.1.1, hknows.outep.of_found h.1.2,
        hknows.intep.of_found h.2⟩
  · rw [if_pos hthree]
    exact ⟨iff_of_false Bool.false_ne_true fun h => hthree h.three,
      fun h => absurd h Bool.false_ne_true⟩

/-- The first of some interfaces that is suitable. -/
def FirstSuitable (ifaces : List UsbInterface) (iface : UsbInterface) : Prop :=
  ∃ pre post, ifaces = pre ++ iface :: post ∧ (∀ j ∈ pre, ¬ j.Suitable) ∧ iface.Suitable

/-- A search: it ends at the first one that is suitable, or has found none. -/
def Finds (r : Bool × UsbInfo) (ifaces : List UsbInterface) : Prop :=
  (r.1 = true ∧ ∃ iface, FirstSuitable ifaces iface ∧ r.2.Describes iface) ∨
    (r.1 = false ∧ ∀ iface ∈ ifaces, ¬ iface.Suitable)

theorem FirstSuitable.behind {ifaces : List UsbInterface} (h : FirstSuitable ifaces iface)
    {pre : List UsbInterface} (hpre : ∀ j ∈ pre, ¬ j.Suitable) :
    FirstSuitable (pre ++ ifaces) iface := by
  obtain ⟨pre', post, rfl, hpre', hsuitable⟩ := h
  refine ⟨pre ++ pre', post, (List.append_assoc ..).symm, fun j hj => ?_, hsuitable⟩
  exact (List.mem_append.mp hj).elim (hpre j) (hpre' j)

theorem FirstSuitable.append {ifaces : List UsbInterface} (h : FirstSuitable ifaces iface)
    (more : List UsbInterface) : FirstSuitable (ifaces ++ more) iface := by
  obtain ⟨pre, post, rfl, hpre, hsuitable⟩ := h
  exact ⟨pre, post ++ more, by rw [List.append_assoc, List.cons_append], hpre, hsuitable⟩

theorem Finds.then {r r' : Bool × UsbInfo} {ifaces more : List UsbInterface}
    (h : Finds r ifaces) (h' : Finds r' more) :
    Finds (if r.1 then (true, r.2) else r') (ifaces ++ more) := by
  rcases h with ⟨hfound, iface, hfirst, hdescribes⟩ | ⟨hnone, hpre⟩
  · rw [if_pos hfound]
    exact Or.inl ⟨rfl, iface, hfirst.append more, hdescribes⟩
  · rw [if_neg (by rw [hnone]; exact Bool.false_ne_true)]
    refine h'.imp ?_ ?_
    · rintro ⟨hfound, iface, hfirst, hdescribes⟩
      exact ⟨hfound, iface, hfirst.behind hpre, hdescribes⟩
    · rintro ⟨hnone', hmore⟩
      exact ⟨hnone', fun j hj => (List.mem_append.mp hj).elim (hpre j) (hmore j)⟩

theorem finds_scan (iface : UsbInterface) (info : UsbInfo) : Finds (iface.scan info) [iface] := by
  obtain ⟨hiff, hdescribes⟩ := scan_iff iface info
  cases hfound : (iface.scan info).1 with
  | true =>
    exact Or.inl ⟨hfound, iface, ⟨[], [], rfl, by simp, hiff.mp hfound⟩, hdescribes hfound⟩
  | false =>
    refine Or.inr ⟨hfound, fun j hj hsuitable => ?_⟩
    rw [List.mem_singleton.mp hj, ← hiff, hfound] at hsuitable
    exact Bool.false_ne_true hsuitable

theorem finds_scanInterfaces (ifaces : List UsbInterface) (info : UsbInfo) :
    Finds (scanInterfaces ifaces info) ifaces := by
  induction ifaces generalizing info with
  | nil => exact Or.inr ⟨rfl, by simp⟩
  | cons iface ifaces ih => exact (finds_scan iface info).then (ih _)

/-- The interfaces of all configurations that can be read. -/
def readInterfaces (configs : List (Option (List UsbInterface))) : List UsbInterface :=
  configs.flatMap fun config => config.getD []

theorem finds_scanConfigs (configs : List (Option (List UsbInterface))) (info : UsbInfo) :
    Finds (scanConfigs configs info) (readInterfaces configs) := by
  induction configs generalizing info with
  | nil => exact Or.inr ⟨rfl, by simp [readInterfaces]⟩
  | cons config configs ih =>
    cases config with
    | none => exact ih info
    | some ifaces => exact (finds_scanInterfaces ifaces info).then (ih _)

/-- Whatever a device says about itself, and whatever has been written before: the endpoints are all
those of one interface, the first that is suitable, and without one there is an error. -/
theorem findInterfaceAndEndpoints_first (configs : List (Option (List UsbInterface)))
    (info : UsbInfo) :
    ((findInterfaceAndEndpoints (some configs) info).1 = 0 ∧
        ∃ iface, FirstSuitable (readInterfaces configs) iface ∧
          (findInterfaceAndEndpoints (some configs) info).2.Describes iface) ∨
      ((findInterfaceAndEndpoints (some configs) info).1 = -1 ∧
        ∀ iface ∈ readInterfaces configs, ¬ iface.Suitable) := by
  rcases finds_scanConfigs configs info with ⟨hfound, hiface⟩ | ⟨hnone, hall⟩
  · exact Or.inl ⟨if_pos hfound, hiface⟩
  · refine Or.inr ⟨if_neg ?_, hall⟩
    rw [hnone]
    exact Bool.false_ne_true

end endpoints

/-- A device on the bus. -/
structure UsbBus where
  descriptor : Option (List (Option (List UsbInterface)))
  /-- whether `libusb_open` gives a handle -/
  opens : Bool
  /-- whether there are converters for names -/
  iconvOpen : Bool
  pipes : UsbInfo → UsbPipes
  inMaxpacket : ∀ info, (pipes info).inMaxpacket = info.inepMaxpacket.toNat
  outMaxpacket : ∀ info, info.outepMaxpacket ≠ 0 →
    (pipes info).outMaxpacket = info.outepMaxpacket.toNat

/-- `vita_device_t` for a device on the bus. -/
structure UsbDevice where
  info : UsbInfo := {}
  link : UsbLink := {}
  handleOpen : Bool := false
  converters : Bool := false

def UsbBus.interfaces (bus : UsbBus) : List UsbInterface := readInterfaces (bus.descriptor.getD [])

section device

variable (bus : UsbBus)

/-- `configure_usb_device`. The new transaction id of the second try is lost at once: opening a
session starts again from 0. -/
def configureUsbDevice (d : UsbDevice) : Option (ℤ × PTPParams × UsbDevice) :=
  let (ret, info) := findInterfaceAndEndpoints bus.descriptor d.info
  let d := { d with info := info }
  if ret ≠ 0 then some (-1, {}, d)
  else if bus.opens = false then some (-1, {}, d)
  else do
    let d := { d with handleOpen := true }
    let c ← ptpOpensession (usb (bus.pipes info)) 1 d.link
    if c.ret = PTP_ERROR_IO then some (-1, c.params, { d with link := c.state })
    else
      let c ←
        if c.ret = PTP_RC_InvalidTransactionID then
          ptpOpensession (usb (bus.pipes info)) 1 c.state
        else some c
      let d := { d with link := c.state }
      if c.ret ≠ PTP_RC_SessionAlreadyOpened ∧ c.ret ≠ PTP_RC_OK then some (-1, c.params, d)
      else some (0, c.params, d)

/-- `VitaMTP_Open_USB_Vita`; nothing is a null pointer. -/
def openUsbVita (d : UsbDevice) : Option (Option PTPParams × UsbDevice) :=
  if bus.iconvOpen = false then some (none, d)
  else do
    let (ret, params, d) ← configureUsbDevice bus { d with converters := true }
    if ret < 0 then some (none, d) else some (some params, d)

/-- `VitaMTP_Release_USB_Device`. A session that is not closed is only logged. -/
def releaseUsbDevice (params : PTPParams) (d : UsbDevice) : Option UsbDevice := do
  let c ← ptpClosesession (usb (bus.pipes d.info)) params d.link
  some { d with link := c.state, handleOpen := false, converters := false }

/-- Opens a device, makes calls, and lets go of it; without a device there are no calls. -/
def usbVitaSession (calls : List Call) (d : UsbDevice) :
    Option (Option (List (BitVec 16 × List Byte)) × UsbDevice) := do
  let (params, d) ← openUsbVita bus d
  match params with
  | none => some (none, d)
  | some params =>
    let (results, params, link) ← runCalls (usb (bus.pipes d.info)) calls params d.link
    let d ← releaseUsbDevice bus params { d with link := link }
    some (some results, d)

end device

section lifetime

variable {bus : UsbBus} {d d' : UsbDevice} {ret : ℤ} {params : PTPParams}

theorem findInterfaceAndEndpoints_eq_zero_iff (bus : UsbBus) (info : UsbInfo) :
    (findInterfaceAndEndpoints bus.descriptor info).1 = 0 ↔
      ∃ iface ∈ bus.interfaces, iface.Suitable := by
  rw [UsbBus.interfaces]
  cases bus.descriptor with
  | none => exact iff_of_false (show (-1 : ℤ) ≠ 0 by decide) (by simp [readInterfaces])
  | some configs =>
    rw [Option.getD_some, findInterfaceAndEndpoints]
    rcases finds_scanConfigs configs info with ⟨hfound, iface, ⟨pre, post, heq, -, hs⟩, -⟩ |
      ⟨hnone, hall⟩
    · refine iff_of_true (if_pos hfound) ⟨iface, ?_, hs⟩
      rw [heq]
      exact List.mem_append_right _ List.mem_cons_self
    · refine iff_of_false ?_ fun ⟨iface, hmem, hsuitable⟩ => hall iface hmem hsuitable
      dsimp only
      rw [hnone, if_neg Bool.false_ne_true]
      decide

theorem configureUsbDevice_leaves (h : configureUsbDevice bus d = some (ret, params, d')) :
    d'.converters = d.converters ∧
      (d'.handleOpen = true ↔ d.handleOpen = true ∨
        bus.opens = true ∧ ∃ iface ∈ bus.interfaces, iface.Suitable) := by
  have hfind := findInterfaceAndEndpoints_eq_zero_iff bus d.info
  rw [configureUsbDevice] at h
  dsimp only at h
  split_ifs at h with hret hopens
  · obtain ⟨-, hpair⟩ := Prod.mk.inj (Option.some.inj h)
    obtain ⟨-, rfl⟩ := Prod.mk.inj hpair
    refine ⟨rfl, (or_iff_left ?_).symm⟩
    rintro ⟨-, hsuitable⟩
    exact hret (hfind.mpr hsuitable)
  · obtain ⟨-, hpair⟩ := Prod.mk.inj (Option.some.inj h)
    obtain ⟨-, rfl⟩ := Prod.mk.inj hpair
    refine ⟨rfl, (or_iff_left ?_).symm⟩
    rintro ⟨hopen, -⟩
    exact Bool.false_ne_true (hopens.symm.trans hopen)
  · have hsuitable : bus.opens = true ∧ ∃ iface ∈ bus.interfaces, iface.Suitable :=
      ⟨eq_true_of_ne_false hopens, hfind.mp (not_not.mp hret)⟩
    obtain ⟨c, -, h⟩ := Option.bind_eq_some_iff.mp h
    split_ifs at h
    · obtain ⟨-, hpair⟩ := Prod.mk.inj (Option.some.inj h)
      obtain ⟨-, rfl⟩ := Prod.mk.inj hpair
      exact ⟨rfl, iff_of_true rfl (Or.inr hsuitable)⟩
    all_goals
      obtain ⟨c', -, h⟩ := Option.bind_eq_some_iff.mp h
      split_ifs at h
      all_goals
        obtain ⟨-, hpair⟩ := Prod.mk.inj (Option.some.inj h)
        obtain ⟨-, rfl⟩ := Prod.mk.inj hpair
        exact ⟨rfl, iff_of_true rfl (Or.inr hsuitable)⟩

/-- A device that cannot be opened never gets its converters back, and its handle stays open if it
has got that far. -/
theorem openUsbVita_leaves_open_iff (hclosed : d.handleOpen = false ∧ d.converters = false)
    (h : openUsbVita bus d = some (none, d')) :
    (d'.converters = true ↔ bus.iconvOpen = true) ∧
      (d'.handleOpen = true ↔ bus.iconvOpen = true ∧ bus.opens = true ∧
        ∃ iface ∈ bus.interfaces, iface.Suitable) := by
  rw [openUsbVita] at h
  split_ifs at h with hiconv
  · obtain ⟨-, rfl⟩ := Prod.mk.inj (Option.some.inj h)
    rw [hclosed.1, hclosed.2, hiconv]
    exact ⟨Iff.rfl, iff_of_false Bool.false_ne_true fun h => Bool.false_ne_true h.1⟩
  · have hyes := eq_true_of_ne_false hiconv
    obtain ⟨⟨ret, params, d₁⟩, hconfigure, h⟩ := Option.bind_eq_some_iff.mp h
    obtain ⟨hconverters, hhandle⟩ := configureUsbDevice_leaves hconfigure
    dsimp only at h hconverters hhandle
    split_ifs at h
    · obtain ⟨-, rfl⟩ := Prod.mk.inj (Option.some.inj h)
      rw [hclosed.1] at hhandle
      rw [hconverters, hhandle]
      refine ⟨iff_of_true rfl hyes, ?_⟩
      exact ⟨fun h => ⟨hyes, h.resolve_left Bool.false_ne_true⟩, fun h => Or.inr h.2⟩
    · simp at h

def sampleInterface : UsbInterface where
  bInterfaceNumber := 0
  endpoint := [⟨0x81, LIBUSB_TRANSFER_TYPE_BULK, 512⟩, ⟨0x02, LIBUSB_TRANSFER_TYPE_BULK, 512⟩,
    ⟨0x83, LIBUSB_TRANSFER_TYPE_INTERRUPT, 64⟩]

def sampleInfo : UsbInfo where
  interface := 0
  inep := 0x81
  inepMaxpacket := 512
  outep := 0x02
  outepMaxpacket := 512
  intep := 0x83

def sampleBus : UsbBus where
  descriptor := some [some [sampleInterface]]
  opens := true
  iconvOpen := true
  pipes info :=
    { wholePipes with
      inMaxpacket := info.inepMaxpacket.toNat
      outMaxpacket := max 1 info.outepMaxpacket.toNat
      outMaxpacket_pos := Nat.le_max_left 1 _ }
  inMaxpacket _ := rfl
  outMaxpacket _ h := max_eq_right (Nat.one_le_iff_ne_zero.mpr fun hzero =>
    h (BitVec.eq_of_toNat_eq hzero))

/-- A bus without a handle. -/
theorem openUsbVita_leaves_open_sample :
    ∃ d', openUsbVita { sampleBus with opens := false } {} = some (none, d') ∧
      (d'.converters = true ↔ sampleBus.iconvOpen = true) ∧
      (d'.handleOpen = true ↔ sampleBus.iconvOpen = true ∧ false = true ∧
        ∃ iface ∈ sampleBus.interfaces, iface.Suitable) :=
  ⟨_, rfl, @openUsbVita_leaves_open_iff { sampleBus with opens := false } {} _ ⟨rfl, rfl⟩ rfl⟩

end lifetime

def openRequest : List Byte := usbRequest ((openSession 1).stamped 0)

/-- A device that opens a session, at once or, with a complaint about the transaction, at the second
try: how often it is asked, and what it sends. -/
inductive OpensSession (pipes : UsbPipes) (splits : Bool) : ℕ → List (List Byte) → Prop
  | once {reply : CallReply} {incoming : List (List Byte)}
      (hcode : reply.code = PTP_RC_OK ∨ reply.code = PTP_RC_SessionAlreadyOpened)
      (h : UsbAnswers pipes splits 0 (openSession 1) reply incoming) :
      OpensSession pipes splits 1 incoming
  | twice {complaint reply : CallReply} {first second : List (List Byte)}
      (hcomplaint : complaint.code = PTP_RC_InvalidTransactionID)
      (hcode : reply.code = PTP_RC_OK ∨ reply.code = PTP_RC_SessionAlreadyOpened)
      (h : UsbAnswers pipes splits 0 (openSession 1) complaint first)
      (h' : UsbAnswers pipes splits 0 (openSession 1) reply second) :
      OpensSession pipes splits 2 (first ++ second)

section session

variable {pipes : UsbPipes} {splits : Bool} {link : UsbLink} {rest incoming : List (List Byte)}
  {bus : UsbBus} {d : UsbDevice} {info : UsbInfo} {n : ℕ}

theorem ptpOpensession_usb (hregular : pipes.Regular) (hwhole : pipes.Whole) {reply : CallReply}
    (hanswer : UsbAnswers pipes splits 0 (openSession 1) reply incoming)
    (hready : link.Ready splits) (h : link.incoming = incoming ++ rest) :
    ∃ c, ptpOpensession (usb pipes) 1 link = some c ∧ c.ret = reply.code ∧ c.params = ⟨1, 1⟩ ∧
      c.state.Ready splits ∧ c.state.incoming = rest ∧ c.state.splitHeaderData = false ∧
      c.state.sent = link.sent ++ packets pipes.outMaxpacket openRequest := by
  have hreset : ((usb pipes).reset link).Ready splits := ⟨rfl, hready.total, fun _ => rfl⟩
  have hsized : (openSession 1).Sized := by
    intro data hdata
    simp [openSession, DataPhase.sent] at hdata
  obtain ⟨-, -, -, -, -, -, -, -, ⟨hget, -⟩ | ⟨-, -, hnil⟩⟩ := hanswer.parts
  · simp [openSession] at hget
  obtain ⟨c, hcall, hret, -, -, hparams, hready', hrest, hsplit, hsent⟩ :=
    @ptpTransaction_usb_answered pipes splits ((usb pipes).reset link) rest incoming {}
      (openSession 1) _ hregular hwhole hreset hsized hanswer h
  refine ⟨{ c with params := { c.params with sessionId := 1 } }, ?_, hret, ?_, hready', hrest, ?_,
    ?_⟩
  · rw [ptpOpensession_eq]
    exact congrArg _ hcall
  · rw [hparams]
    rfl
  · rw [hsplit, hnil]
    cases splits <;> rfl
  · rw [hsent]
    exact congrArg (link.sent ++ ·) (List.append_nil _)

theorem configureUsbDevice_opens (hfind : findInterfaceAndEndpoints bus.descriptor d.info = (0, info))
    (hopens : bus.opens = true) (hregular : (bus.pipes info).Regular)
    (hwhole : (bus.pipes info).Whole) (hopened : OpensSession (bus.pipes info) splits n incoming)
    (hready : d.link.Ready splits) (h : d.link.incoming = incoming ++ rest) :
    ∃ link', configureUsbDevice bus d =
        some (0, ⟨1, 1⟩, { d with info := info, link := link', handleOpen := true }) ∧
      link'.Ready splits ∧ link'.incoming = rest ∧ link'.splitHeaderData = false ∧
      link'.sent = d.link.sent ++ (List.replicate n openRequest).flatMap
        (packets (bus.pipes info).outMaxpacket) := by
  have hnerror {code : BitVec 16} (hcode : code = PTP_RC_OK ∨ code = PTP_RC_SessionAlreadyOpened) :
      code ≠ PTP_ERROR_IO ∧ code ≠ PTP_RC_InvalidTransactionID ∧
        ¬ (code ≠ PTP_RC_SessionAlreadyOpened ∧ code ≠ PTP_RC_OK) := by
    rcases hcode with rfl | rfl <;> decide
  rw [configureUsbDevice, hfind]
  dsimp only
  rw [if_neg (by decide), if_neg (by rw [hopens]; decide)]
  cases hopened with
  | @once reply _ hcode hanswer =>
    obtain ⟨hio, hinvalid, hok⟩ := hnerror hcode
    obtain ⟨c, hsession, hret, hparams, hready', hrest, hsplit, hsent⟩ :=
      ptpOpensession_usb hregular hwhole hanswer hready h
    rw [← hret] at hio hinvalid hok
    refine ⟨c.state, ?_, hready', hrest, hsplit, ?_⟩
    · rw [hsession, Option.bind_eq_bind, Option.bind_some, if_neg hio, if_neg hinvalid,
        Option.bind_some, if_neg hok, hparams]
    · rw [hsent, List.replicate_one, List.flatMap_singleton]
  | @twice complaint reply first second hcomplaint hcode hanswer hanswer' =>
    obtain ⟨-, -, hok⟩ := hnerror hcode
    rw [List.append_assoc] at h
    obtain ⟨c, hsession, hret, -, hready₁, hrest₁, -, hsent₁⟩ :=
      ptpOpensession_usb hregular hwhole hanswer hready h
    obtain ⟨c', hsession', hret', hparams, hready', hrest, hsplit, hsent⟩ :=
      ptpOpensession_usb hregular hwhole hanswer' hready₁ hrest₁
    rw [← hret'] at hok
    refine ⟨c'.state, ?_, hready', hrest, hsplit, ?_⟩
    · rw [hsession, Option.bind_eq_bind, Option.bind_some, hret, hcomplaint, if_neg (by decide),
        if_pos rfl, hsession', Option.bind_some, if_neg hok, hparams]
    · rw [hsent, hsent₁, List.replicate_succ, List.replicate_one, List.flatMap_cons,
        List.flatMap_singleton, List.append_assoc]

/-- The whole life of a connection over USB: every call returns what the device has answered to it,
the device gets the transfers of the session, once each and in order, and in the end the handle is
closed and nothing that belongs to later has been read. -/
theorem usbVitaSession_served {calls : List Call} {replies : List CallReply}
    {bye : CallReply} {opened closed : List (List Byte)}
    (hfind : findInterfaceAndEndpoints bus.descriptor d.info = (0, info))
    (hopens : bus.opens = true) (hiconv : bus.iconvOpen = true)
    (hregular : (bus.pipes info).Regular) (hwhole : (bus.pipes info).Whole)
    (hsized : ∀ call ∈ calls, call.Sized)
    (hopened : OpensSession (bus.pipes info) splits n opened)
    (hconversation : Conversation (UsbAnswers (bus.pipes info) splits) 1 calls replies incoming)
    (hclosed : UsbAnswers (bus.pipes info) splits (1 + BitVec.ofNat 32 calls.length) closeSession
      bye closed)
    (hready : d.link.Ready splits)
    (h : d.link.incoming = opened ++ (incoming ++ (closed ++ rest))) :
    ∃ d' sent, usbVitaSession bus calls d = some (some (replies.map CallReply.result), d') ∧
      (d'.handleOpen = false ∧ d'.converters = false) ∧ d'.link.incoming = rest ∧
      d'.link.sent = d.link.sent ++ sent ∧
      assemble (bus.pipes info).outMaxpacket [] sent =
        (List.replicate n openRequest ++ (Call.usbWire splits false 1 calls replies ++
          [usbRequest (closeSession.stamped (1 + BitVec.ofNat 32 calls.length))]), []) := by
  have hready₀ : ({ d with converters := true } : UsbDevice).link.Ready splits := hready
  obtain ⟨link₁, hconfigure, hready₁, hrest₁, hsplit₁, hsent₁⟩ :=
    @configureUsbDevice_opens splits _ opened bus { d with converters := true } info n hfind hopens
      hregular hwhole hopened hready₀ h
  obtain ⟨params', link₂, hrun, hparams, hsent₂, hready₂, hrest₂⟩ := @runCalls_usb_conversation
    (bus.pipes info) splits link₁ _ incoming ⟨1, 1⟩ hregular hwhole calls replies hsized
    hconversation hready₁ hrest₁
  have hid : params'.transactionId = 1 + BitVec.ofNat 32 calls.length := by rw [hparams]
  have hsized' : closeSession.Sized := by
    intro data hdata
    simp [closeSession, DataPhase.sent] at hdata
  obtain ⟨c, hclose, -, -, -, -, -, hrest₃, -, hsent₃⟩ := @ptpTransaction_usb_answered
    (bus.pipes info) splits link₂ rest closed params' closeSession _ hregular hwhole hready₂ hsized'
    (hid ▸ hclosed) hrest₂
  have hopen : openUsbVita bus d = some (some ⟨1, 1⟩, { d with
      info := info, link := link₁, handleOpen := true, converters := true }) := by
    rw [openUsbVita, if_neg (by rw [hiconv]; decide), hconfigure, Option.bind_eq_bind,
      Option.bind_some]
    rfl
  have hnodata : ptpTransaction (usb (bus.pipes info)) params' closeSession.container .nodata
      link₂ = some c := hclose
  have hrelease : releaseUsbDevice bus params' { d with
      info := info, link := link₂, handleOpen := true, converters := true } =
      some { d with info := info, link := c.state, handleOpen := false, converters := false } := by
    rw [releaseUsbDevice, ptpClosesession_eq]
    dsimp only
    rw [hnodata, Option.bind_eq_bind, Option.bind_some]
  refine ⟨{ d with info := info, link := c.state, handleOpen := false, converters := false },
    (List.replicate n openRequest ++ (Call.usbWire splits false 1 calls replies ++
      [usbRequest (closeSession.stamped (1 + BitVec.ofNat 32 calls.length))])).flatMap
        (packets (bus.pipes info).outMaxpacket), ?_, ⟨rfl, rfl⟩, hrest₃, ?_,
    assemble_transfers (bus.pipes info).outMaxpacket_pos _⟩
  · rw [usbVitaSession, hopen, Option.bind_eq_bind, Option.bind_some]
    dsimp only
    rw [hrun, Option.bind_eq_bind, Option.bind_some]
    dsimp only
    rw [hrelease, Option.bind_eq_bind, Option.bind_some]
  · dsimp only
    rw [hsent₃, hsent₂, hsent₁, hsplit₁, hid, List.flatMap_append, List.flatMap_append,
      List.append_assoc, List.append_assoc]
    rfl

theorem usbAnswers_done {call : Call} (id : BitVec 32) (h : call.phase ≠ .getdata) :
    UsbAnswers pipes splits id call { code := PTP_RC_OK }
      (packets pipes.outMaxpacket (okResponse id).usbBytes) where
  parts := ⟨[], [], okResponse id, rfl, nofun, rfl, rfl, rfl, Or.inr ⟨h, rfl, rfl⟩⟩
  code := by decide
  size := by decide

theorem usbVitaSession_served_sample :
    ∃ d' sent, usbVitaSession sampleBus [closeSession]
          { link := { incoming := packets 512 (okResponse 0).usbBytes ++
              (packets 512 (okResponse 1).usbBytes ++
                (packets 512 (okResponse 2).usbBytes ++ [])) } } =
        some (some [(PTP_RC_OK, [])], d') ∧
      (d'.handleOpen = false ∧ d'.converters = false) ∧ d'.link.incoming = [] ∧
      d'.link.sent = [] ++ sent ∧
      assemble 512 [] sent =
        ([openRequest] ++ ([usbRequest (closeSession.stamped 1)] ++
          [usbRequest (closeSession.stamped 2)]), []) :=
  @usbVitaSession_served false [] (packets 512 (okResponse 1).usbBytes ++ []) sampleBus
    { link := { incoming := packets 512 (okResponse 0).usbBytes ++
        (packets 512 (okResponse 1).usbBytes ++ (packets 512 (okResponse 2).usbBytes ++ [])) } }
    sampleInfo 1 [closeSession] [{ code := PTP_RC_OK }] { code := PTP_RC_OK }
    (packets 512 (okResponse 0).usbBytes) (packets 512 (okResponse 2).usbBytes)
    rfl rfl rfl ⟨rfl, dvd_rfl, by decide⟩ (fun _ _ => rfl)
    (by simp [Call.Sized, closeSession, DataPhase.sent])
    (.once (Or.inl rfl) (usbAnswers_done 0 nofun)) (.cons (usbAnswers_done 1 nofun) .nil)
    (usbAnswers_done 2 nofun) ⟨rfl, le_rfl, fun _ => rfl⟩
    (by rw [List.append_nil, List.append_nil])

end session

end VitaMTP
