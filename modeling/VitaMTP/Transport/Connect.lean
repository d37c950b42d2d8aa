import VitaMTP.Transport.Session

/-! Connecting to a wireless device, and letting go of it: two sockets, a handshake on each, and a
session. -/
namespace VitaMTP
open Pieces

/-- The system calls: which of them succeed, and what the sockets do. -/
structure Network where
  iconvOpen : Bool
  cmdSocket : Bool
  evtSocket : Bool
  cmdConnect : Bool
  evtConnect : Bool
  cmd : Socket
  evt : Socket

/-- The two connections to a device. -/
structure IpDevice where
  link : IpLink
  evtOut : Outgoing := {}
  evt : List (Piece Byte)
  eventpipeid : BitVec 32 := 0
  cmdOpen : Bool := false
  evtOpen : Bool := false
  converters : Bool := false

namespace IpDevice

/-- `closesocket` on both. -/
def closed (d : IpDevice) : IpDevice := { d with cmdOpen := false, evtOpen := false }

end IpDevice

def ptpipInit (socket : Socket) (out : Outgoing) (request : List Byte) : BitVec 16 × Outgoing :=
  let sent := socket.sendTo out request
  (if sent.1 = some request.length then PTP_RC_OK else PTP_RC_GeneralError, sent.2)

def initCommandRequest : List Byte := packet PTPIP_INIT_COMMAND_REQUEST (List.replicate 16 0)

def initEventRequest (eventpipeid : BitVec 32) : List Byte :=
  packet PTPIP_INIT_EVENT_REQUEST (htod32a eventpipeid)

/-- `ptp_ptpip_init_command_request` -/
def ptpipInitCommandRequest (socket : Socket) (out : Outgoing) : BitVec 16 × Outgoing :=
  ptpipInit socket out initCommandRequest

/-- `ptp_ptpip_init_command_ack`. An acknowledgement without a number is read beyond its end. -/
def ptpipInitCommandAck (d : IpDevice) : Option (BitVec 16 × IpDevice) :=
  match genericRead d.link.cmd with
  | (none, cmd) => some (PTP_RC_GeneralError, { d with link := { d.link with cmd := cmd } })
  | (some (hdr, data), cmd) =>
    let d := { d with link := { d.link with cmd := cmd } }
    if hdr.type ≠ PTPIP_INIT_COMMAND_ACK then some (PTP_RC_GeneralError, d)
    else if data.length < 4 then none
    else some (PTP_RC_OK, { d with eventpipeid := dtoh32a data 0 })

/-- `ptp_ptpip_init_event_request` -/
def ptpipInitEventRequest (socket : Socket) (d : IpDevice) : BitVec 16 × IpDevice :=
  let (ret, out) := ptpipInit socket d.evtOut (initEventRequest d.eventpipeid)
  (ret, { d with evtOut := out })

/-- `ptp_ptpip_init_event_ack` -/
def ptpipInitEventAck (d : IpDevice) : BitVec 16 × IpDevice :=
  match genericRead d.evt with
  | (none, evt) => (PTP_RC_GeneralError, { d with evt := evt })
  | (some (hdr, _), evt) =>
    (if hdr.type ≠ PTPIP_INIT_EVENT_ACK then PTP_RC_GeneralError else PTP_RC_OK,
      { d with evt := evt })

/-- `VitaMTP_PTPIP_Connect` -/
def ptpipConnect (net : Network) (d : IpDevice) : Option (ℤ × IpDevice) :=
  if net.cmdSocket = false then some (-1, d)
  else
    let d := { d with cmdOpen := true }
    if net.evtSocket = false then some (-1, { d with cmdOpen := false })
    else
      let d := { d with evtOpen := true }
      if net.cmdConnect = false ∨ net.evtConnect = false then some (-1, d.closed)
      else
        let (ret, out) := ptpipInitCommandRequest net.cmd d.link.out
        let d := { d with link := { d.link with out := out } }
        if ret ≠ PTP_RC_OK then some (-1, d.closed)
        else do
          let (ret, d) ← ptpipInitCommandAck d
          if ret ≠ PTP_RC_OK then some (-1, d.closed)
          else
            let (ret, d) := ptpipInitEventRequest net.evt d
            if ret ≠ PTP_RC_OK then some (-1, d.closed)
            else
              let (ret, d) := ptpipInitEventAck d
              if ret ≠ PTP_RC_OK then some (-1, d.closed) else some (0, d)

/-- `VitaMTP_Data_Connect`. Without a connection there are no parameters. -/
def dataConnect (net : Network) (d : IpDevice) : Option (Option PTPParams × IpDevice) :=
  if net.iconvOpen = false then some (none, d)
  else do
    let (ret, d) ← ptpipConnect net { d with converters := true }
    if ret < 0 then some (none, d)
    else
      let session ← ptpOpensession (ptpip net.cmd) 1 d.link
      let d := { d with link := session.state }
      some (if session.ret ≠ PTP_RC_OK then none else some session.params, d)

/-- `VitaMTP_Release_Wireless_Device`. What becomes of the session is only logged. -/
def releaseWirelessDevice (net : Network) (params : PTPParams) (d : IpDevice) : Option IpDevice :=
  (ptpClosesession (ptpip net.cmd) params d.link).map fun c =>
    { d with link := c.state, cmdOpen := false, evtOpen := false, converters := false }

section handshake

variable {net : Network} {d d' : IpDevice} {socket : Socket} {out : Outgoing}
  {ret : BitVec 16} {request rest : List Byte}

theorem ptpipInit_taken (h : socket.send out.calls request.length = some request.length) :
    ptpipInit socket out request = (PTP_RC_OK, ⟨out.calls + 1, out.bytes ++ request⟩) := by
  rw [ptpipInit, Socket.sendTo, h]
  dsimp only
  rw [if_pos rfl, List.take_length]

theorem ptpipInit_ok (h : (ptpipInit socket out request).1 = PTP_RC_OK) :
    socket.send out.calls request.length = some request.length := by
  rw [ptpipInit, Socket.sendTo] at h
  cases hsend : socket.send out.calls request.length with
  | none =>
    rw [hsend] at h
    exact absurd h PTP_RC_GeneralError_ne_OK
  | some k =>
    rw [hsend] at h
    dsimp only at h
    split at h
    · rename_i hwhole
      exact hwhole
    · exact absurd h PTP_RC_GeneralError_ne_OK

theorem ptpipInitCommandAck_ok (h : ptpipInitCommandAck d = some (PTP_RC_OK, d')) :
    ∃ ack cmd, content d.link.cmd = packet PTPIP_INIT_COMMAND_ACK ack ++ content cmd ∧
      4 ≤ ack.length ∧ ack.length < 2 ^ 31 ∧
      d' = { d with link := { d.link with cmd := cmd }, eventpipeid := dtoh32a ack 0 } := by
  unfold ptpipInitCommandAck at h
  rcases hread : genericRead d.link.cmd with ⟨_ | ⟨hdr, ack⟩, cmd⟩
  · rw [hread] at h
    exact absurd (Prod.mk.inj (Option.some.inj h)).1 PTP_RC_GeneralError_ne_OK
  obtain ⟨hsize, -, hcontent⟩ := genericRead_eq_some hread
  rw [hread] at h
  dsimp only at h
  split_ifs at h with htype h4
  · exact absurd (Prod.mk.inj (Option.some.inj h)).1 PTP_RC_GeneralError_ne_OK
  · rw [not_not.mp htype] at hcontent
    exact ⟨ack, cmd, hcontent, Nat.not_lt.mp h4, hsize,
      (Prod.mk.inj (Option.some.inj h)).2.symm⟩

theorem ptpipInitCommandAck_packet {ack : List Byte} (h4 : 4 ≤ ack.length)
    (hsize : ack.length < 2 ^ 31)
    (h : content d.link.cmd = packet PTPIP_INIT_COMMAND_ACK ack ++ rest) :
    ∃ cmd, ptpipInitCommandAck d = some (PTP_RC_OK,
        { d with link := { d.link with cmd := cmd }, eventpipeid := dtoh32a ack 0 }) ∧
      content cmd = rest := by
  obtain ⟨cmd, hread, hrest⟩ := genericRead_packet hsize h
  refine ⟨cmd, ?_, hrest⟩
  unfold ptpipInitCommandAck
  rw [hread]
  dsimp only
  rw [if_neg (not_not.mpr rfl), if_neg (by omega)]

theorem ptpipInitEventAck_ok (h : ptpipInitEventAck d = (PTP_RC_OK, d')) :
    ∃ ack evt, content d.evt = packet PTPIP_INIT_EVENT_ACK ack ++ content evt ∧
      ack.length < 2 ^ 31 ∧ d' = { d with evt := evt } := by
  unfold ptpipInitEventAck at h
  rcases hread : genericRead d.evt with ⟨_ | ⟨hdr, ack⟩, evt⟩
  · rw [hread] at h
    exact absurd (Prod.mk.inj h).1 PTP_RC_GeneralError_ne_OK
  obtain ⟨hsize, -, hcontent⟩ := genericRead_eq_some hread
  rw [hread] at h
  dsimp only at h
  split_ifs at h with htype
  · exact absurd (Prod.mk.inj h).1 PTP_RC_GeneralError_ne_OK
  · rw [not_not.mp htype] at hcontent
    exact ⟨ack, evt, hcontent, hsize, (Prod.mk.inj h).2.symm⟩

theorem ptpipInitEventAck_packet {ack : List Byte} (hsize : ack.length < 2 ^ 31)
    (h : content d.evt = packet PTPIP_INIT_EVENT_ACK ack ++ rest) :
    ∃ evt, ptpipInitEventAck d = (PTP_RC_OK, { d with evt := evt }) ∧ content evt = rest := by
  obtain ⟨evt, hread, hrest⟩ := genericRead_packet hsize h
  refine ⟨evt, ?_, hrest⟩
  unfold ptpipInitEventAck
  rw [hread]
  dsimp only
  rw [if_neg (not_not.mpr rfl)]

/-- The system calls of a handshake work, and both requests are taken at once. -/
structure Network.Reaches (net : Network) (d : IpDevice) : Prop where
  cmdSocket : net.cmdSocket = true
  evtSocket : net.evtSocket = true
  cmdConnect : net.cmdConnect = true
  evtConnect : net.evtConnect = true
  cmd : net.cmd.send d.link.out.calls 24 = some 24
  evt : net.evt.send d.evtOut.calls 12 = some 12

/-- The device after a handshake: the number it has acknowledged with is what it gets back. -/
def IpDevice.shaken (d : IpDevice) (ack : List Byte) (cmd evt : List (Piece Byte)) : IpDevice where
  link := { out := ⟨d.link.out.calls + 1, d.link.out.bytes ++ initCommandRequest⟩, cmd := cmd }
  evtOut := ⟨d.evtOut.calls + 1, d.evtOut.bytes ++ initEventRequest (dtoh32a ack 0)⟩
  evt := evt
  eventpipeid := dtoh32a ack 0
  cmdOpen := true
  evtOpen := true
  converters := d.converters

theorem ptpipConnect_shaken {ack ack' rest' : List Byte} (hnet : net.Reaches d)
    (h4 : 4 ≤ ack.length) (hsize : ack.length < 2 ^ 31) (hsize' : ack'.length < 2 ^ 31)
    (h : content d.link.cmd = packet PTPIP_INIT_COMMAND_ACK ack ++ rest)
    (h' : content d.evt = packet PTPIP_INIT_EVENT_ACK ack' ++ rest') :
    ∃ cmd evt, ptpipConnect net d = some (0, d.shaken ack cmd evt) ∧ content cmd = rest ∧
      content evt = rest' := by
  have hinit : ptpipInitCommandRequest net.cmd d.link.out = (PTP_RC_OK, _) :=
    ptpipInit_taken hnet.cmd
  obtain ⟨cmd, hack, hrest⟩ := @ptpipInitCommandAck_packet
    { d with
      link := ⟨⟨d.link.out.calls + 1, d.link.out.bytes ++ initCommandRequest⟩, d.link.cmd⟩
      cmdOpen := true
      evtOpen := true } rest ack h4 hsize h
  obtain ⟨evt, hack', hrest'⟩ := @ptpipInitEventAck_packet
    (d.shaken ack cmd d.evt) rest' ack' hsize' h'
  have hinit' : ptpipInit net.evt d.evtOut (initEventRequest (dtoh32a ack 0)) = (PTP_RC_OK, _) :=
    ptpipInit_taken hnet.evt
  refine ⟨cmd, evt, ?_, hrest, hrest'⟩
  unfold ptpipConnect ptpipInitEventRequest
  rw [if_neg (by simp [hnet.cmdSocket]), if_neg (by simp [hnet.evtSocket]),
    if_neg (by simp [hnet.cmdConnect, hnet.evtConnect])]
  dsimp only
  rw [hinit]
  dsimp only
  rw [if_neg (not_not.mpr rfl), hack, Option.bind_eq_bind, Option.bind_some]
  dsimp only
  rw [if_neg (not_not.mpr rfl), hinit']
  dsimp only
  rw [if_neg (not_not.mpr rfl)]
  change (if (ptpipInitEventAck (d.shaken ack cmd d.evt)).1 ≠ PTP_RC_OK then
    some (-1, (ptpipInitEventAck (d.shaken ack cmd d.evt)).2.closed)
    else some (0, (ptpipInitEventAck (d.shaken ack cmd d.evt)).2)) = _
  rw [hack', if_neg (not_not.mpr rfl)]
  rfl

/-- Where a handshake can end: without a socket that is open, or with both requests sent and both
acknowledged. -/
theorem ptpipConnect_cases {r : ℤ} (hclosed : d.cmdOpen = false ∧ d.evtOpen = false)
    (h : ptpipConnect net d = some (r, d')) :
    (r = -1 ∧ d'.cmdOpen = false ∧ d'.evtOpen = false) ∨
      r = 0 ∧ net.Reaches d ∧ ∃ ack ack' cmd evt,
        content d.link.cmd = packet PTPIP_INIT_COMMAND_ACK ack ++ content cmd ∧
        4 ≤ ack.length ∧ ack.length < 2 ^ 31 ∧
        content d.evt = packet PTPIP_INIT_EVENT_ACK ack' ++ content evt ∧ ack'.length < 2 ^ 31 ∧
        d' = d.shaken ack cmd evt := by
  have hfailed {d₁ : IpDevice} (h : some ((-1 : ℤ), d₁) = some (r, d'))
      (hd₁ : d₁.cmdOpen = false ∧ d₁.evtOpen = false) :
      r = -1 ∧ d'.cmdOpen = false ∧ d'.evtOpen = false := by
    obtain ⟨rfl, rfl⟩ := Prod.mk.inj (Option.some.inj h)
    exact ⟨rfl, hd₁⟩
  unfold ptpipConnect at h
  split at h
  · exact Or.inl (hfailed h hclosed)
  rename_i hcmdSocket
  dsimp only at h
  split at h
  · exact Or.inl (hfailed h ⟨rfl, hclosed.2⟩)
  rename_i hevtSocket
  split at h
  · exact Or.inl (hfailed h ⟨rfl, rfl⟩)
  rename_i hconnect
  split at h
  · exact Or.inl (hfailed h ⟨rfl, rfl⟩)
  rename_i hinit
  have hsend := ptpipInit_ok (not_not.mp hinit)
  rw [show ptpipInitCommandRequest net.cmd d.link.out = _ from ptpipInit_taken hsend] at h
  obtain ⟨⟨ret, d₁⟩, hack, h⟩ := Option.bind_eq_some_iff.mp h
  dsimp only at h
  split at h
  · exact Or.inl (hfailed h ⟨rfl, rfl⟩)
  rename_i hok
  rw [not_not.mp hok] at hack
  obtain ⟨ack, cmd, hcontent, h4, hsize, rfl⟩ := ptpipInitCommandAck_ok hack
  unfold ptpipInitEventRequest at h
  dsimp only at h
  split at h
  · exact Or.inl (hfailed h ⟨rfl, rfl⟩)
  rename_i hinit'
  have hsend' := ptpipInit_ok (not_not.mp hinit')
  rw [ptpipInit_taken hsend'] at h
  dsimp only at h
  split at h
  · exact Or.inl (hfailed h ⟨rfl, rfl⟩)
  rename_i hok'
  obtain ⟨ack', evt, hcontent', hsize', hd⟩ := ptpipInitEventAck_ok (Prod.ext (not_not.mp hok') rfl)
  obtain ⟨rfl, rfl⟩ := Prod.mk.inj (Option.some.inj h)
  rw [not_or] at hconnect
  refine Or.inr ⟨rfl, ⟨by simpa using hcmdSocket, by simpa using hevtSocket,
    by simpa using hconnect.1, by simpa using hconnect.2, hsend, hsend'⟩,
    ack, ack', cmd, evt, hcontent, h4, hsize, hcontent', hsize', hd⟩

/-- The handshake works exactly if the system calls do, both requests are taken at once, and the
device sends an acknowledgement with a number on one connection, and one on the other. -/
theorem ptpipConnect_ok_iff (hclosed : d.cmdOpen = false ∧ d.evtOpen = false)
    (rest rest' : List Byte) :
    (∃ d', ptpipConnect net d = some (0, d') ∧ content d'.link.cmd = rest ∧
        content d'.evt = rest') ↔
      net.Reaches d ∧ ∃ ack ack',
        content d.link.cmd = packet PTPIP_INIT_COMMAND_ACK ack ++ rest ∧
        4 ≤ ack.length ∧ ack.length < 2 ^ 31 ∧
        content d.evt = packet PTPIP_INIT_EVENT_ACK ack' ++ rest' ∧ ack'.length < 2 ^ 31 := by
  constructor
  · rintro ⟨d', h, rfl, rfl⟩
    rcases ptpipConnect_cases hclosed h with ⟨hr, -⟩ |
      ⟨-, hnet, ack, ack', cmd, evt, hack, h4, hsize, hack', hsize', rfl⟩
    · exact absurd hr (by decide)
    · exact ⟨hnet, ack, ack', hack, h4, hsize, hack', hsize'⟩
  · rintro ⟨hnet, ack, ack', hack, h4, hsize, hack', hsize'⟩
    obtain ⟨cmd, evt, h, hrest, hrest'⟩ := ptpipConnect_shaken hnet h4 hsize hsize' hack hack'
    exact ⟨_, h, hrest, hrest'⟩

def openNetwork : Network where
  iconvOpen := true
  cmdSocket := true
  evtSocket := true
  cmdConnect := true
  evtConnect := true
  cmd := takingSocket
  evt := takingSocket

/-- A device that sends these bytes on its two connections. -/
def sendingDevice (cmd evt : List Byte) : IpDevice where
  link := trickle cmd
  evt := (trickle evt).cmd

theorem ptpipConnect_ok_sample :
    ∃ d', ptpipConnect openNetwork (sendingDevice (packet PTPIP_INIT_COMMAND_ACK (htod32a 9))
          (packet PTPIP_INIT_EVENT_ACK [])) = some (0, d') ∧
        content d'.link.cmd = [] ∧ content d'.evt = [] :=
  (ptpipConnect_ok_iff ⟨rfl, rfl⟩ [] []).mpr ⟨⟨rfl, rfl, rfl, rfl, rfl, rfl⟩, htod32a 9, [],
    (content_trickle _).trans (List.append_nil _).symm, by decide, by decide,
    (content_trickle _).trans (List.append_nil _).symm, by decide⟩

end handshake

/-- Connects, makes calls, and lets go of the device; without a connection there are no calls. -/
def wirelessSession (net : Network) (calls : List Call) (d : IpDevice) :
    Option (Option (List (BitVec 16 × List Byte)) × IpDevice) := do
  let (params, d) ← dataConnect net d
  match params with
  | none => some (none, d)
  | some params =>
    let (results, params, link) ← runCalls (ptpip net.cmd) calls params d.link
    let d ← releaseWirelessDevice net params { d with link := link }
    some (some results, d)

section lifetime

variable {net : Network} {d d' : IpDevice} {params : Option PTPParams}

/-- A connection that does not come about leaves its sockets open exactly if the handshake has
worked and the device does not open a session. Then there is nothing left to close them with. -/
theorem dataConnect_leaves_open_iff (hclosed : d.cmdOpen = false ∧ d.evtOpen = false)
    (h : dataConnect net d = some (none, d')) :
    d'.cmdOpen = d'.evtOpen ∧
      (d'.cmdOpen = true ↔ net.iconvOpen = true ∧
        ∃ d₁ c, ptpipConnect net { d with converters := true } = some (0, d₁) ∧
          ptpOpensession (ptpip net.cmd) 1 d₁.link = some c ∧ c.ret ≠ PTP_RC_OK) := by
  unfold dataConnect at h
  split at h
  · rename_i hiconv
    obtain ⟨-, rfl⟩ := Prod.mk.inj (Option.some.inj h)
    refine ⟨hclosed.1.trans hclosed.2.symm, iff_of_false ?_ ?_⟩
    · rw [hclosed.1]
      exact Bool.false_ne_true
    · rw [hiconv]
      exact fun h => Bool.false_ne_true h.1
  rename_i hiconv
  obtain ⟨⟨r, d₁⟩, hconnect, h⟩ := Option.bind_eq_some_iff.mp h
  rcases @ptpipConnect_cases net { d with converters := true } _ _ hclosed hconnect with
    ⟨rfl, hcmd, hevt⟩ | ⟨rfl, -, ack, ack', cmd, evt, -, -, -, -, -, rfl⟩
  · obtain ⟨-, rfl⟩ := Prod.mk.inj (Option.some.inj h)
    refine ⟨hcmd.trans hevt.symm, iff_of_false ?_ ?_⟩
    · rw [hcmd]
      exact Bool.false_ne_true
    · rintro ⟨-, d₁, c, hconnect', -⟩
      rw [hconnect] at hconnect'
      exact absurd (Prod.mk.inj (Option.some.inj hconnect')).1 (by decide)
  · dsimp only at h
    rw [if_neg (by decide)] at h
    obtain ⟨c, hsession, h⟩ := Option.bind_eq_some_iff.mp h
    obtain ⟨hparams, rfl⟩ := Prod.mk.inj (Option.some.inj h)
    have hret : c.ret ≠ PTP_RC_OK := by
      intro hok
      rw [if_neg (not_not.mpr hok)] at hparams
      exact Option.some_ne_none _ hparams
    exact ⟨rfl, iff_of_true rfl ⟨by simpa using hiconv, _, c, hconnect, hsession, hret⟩⟩

/-- A device that acknowledges both requests, and answers to the session that is asked for. -/
theorem dataConnect_answered {hello : CallReply} {ack ack' opened rest rest' : List Byte}
    (hnet : net.Reaches d) (hiconv : net.iconvOpen = true) (hopen : net.cmd.Open)
    (h4 : 4 ≤ ack.length) (hsize : ack.length < 2 ^ 31) (hsize' : ack'.length < 2 ^ 31)
    (hopened : Answers 0 (openSession 1) hello opened)
    (h : content d.link.cmd = packet PTPIP_INIT_COMMAND_ACK ack ++ (opened ++ rest))
    (h' : content d.evt = packet PTPIP_INIT_EVENT_ACK ack' ++ rest') :
    ∃ cmd evt c,
      ptpipConnect net { d with converters := true } =
        some (0, { d with converters := true }.shaken ack cmd evt) ∧
      ptpOpensession (ptpip net.cmd) 1 ({ d with converters := true }.shaken ack cmd evt).link =
        some c ∧
      dataConnect net d = some (if c.ret ≠ PTP_RC_OK then none else some c.params,
        { { d with converters := true }.shaken ack cmd evt with link := c.state }) ∧
      c.ret = hello.code ∧ c.params.transactionId = 1 ∧
      c.state.out.bytes =
        d.link.out.bytes ++ (initCommandRequest ++ (openSession 1).written 0) ∧
      content c.state.cmd = rest ∧ content evt = rest' := by
  set d₀ : IpDevice := { d with converters := true } with hd₀
  have hnet₀ : net.Reaches d₀ := ⟨hnet.1, hnet.2, hnet.3, hnet.4, hnet.5, hnet.6⟩
  obtain ⟨cmd, evt, hconnect, hcmd, hevt⟩ :=
    @ptpipConnect_shaken net d₀ _ ack ack' rest' hnet₀ h4 hsize hsize' h h'
  obtain ⟨c, hsession, hret, -, -, hnext, hout, hcmd₁⟩ := @ptpTransaction_answered net.cmd {}
    (d₀.shaken ack cmd evt).link (openSession 1) _ opened _ hopen hopened hcmd
  have hopensession : ptpOpensession (ptpip net.cmd) 1 (d₀.shaken ack cmd evt).link =
      some { c with params := { c.params with sessionId := 1 } } := by
    rw [ptpOpensession_eq]
    exact congrArg _ hsession
  refine ⟨cmd, evt, _, hconnect, hopensession, ?_, hret, ?_, ?_, hcmd₁, hevt⟩
  · rw [dataConnect, if_neg (by simp [hiconv]), hconnect, Option.bind_eq_bind, Option.bind_some]
    dsimp only
    rw [if_neg (by decide), hopensession, Option.bind_eq_bind, Option.bind_some]
  · dsimp only
    rw [hnext]
    rfl
  · exact hout.trans (List.append_assoc ..)

def refusal : PtpResponse := { okResponse 0 with code := PTP_RC_GeneralError }

/-- A device that acknowledges, and refuses the session. -/
def refusingDevice : IpDevice :=
  sendingDevice (packet PTPIP_INIT_COMMAND_ACK (htod32a 9) ++ (refusal.bytes ++ []))
    (packet PTPIP_INIT_EVENT_ACK [])

theorem refusingDevice_refuses : ∃ d₁ c d',
    ptpipConnect openNetwork { refusingDevice with converters := true } = some (0, d₁) ∧
      ptpOpensession (ptpip openNetwork.cmd) 1 d₁.link = some c ∧ c.ret ≠ PTP_RC_OK ∧
      dataConnect openNetwork refusingDevice = some (none, d') := by
  obtain ⟨cmd, evt, c, hconnect, hsession, hdata, hret, -⟩ := @dataConnect_answered openNetwork
    refusingDevice { code := PTP_RC_GeneralError } (htod32a 9) [] refusal.bytes [] []
    ⟨rfl, rfl, rfl, rfl, rfl, rfl⟩ rfl takingSocket_open (by decide) (by decide) (by decide)
    ⟨[], [], refusal, rfl, nofun, rfl, rfl, rfl, Or.inr ⟨nofun, rfl, rfl⟩⟩ (content_trickle _)
    ((content_trickle _).trans (List.append_nil _).symm)
  have hrefused : c.ret ≠ PTP_RC_OK := hret ▸ PTP_RC_GeneralError_ne_OK
  rw [if_pos hrefused] at hdata
  exact ⟨_, c, _, hconnect, hsession, hrefused, hdata⟩

theorem dataConnect_leaves_open_sample :
    ∃ d', dataConnect openNetwork refusingDevice = some (none, d') ∧
      d'.cmdOpen = true ∧ d'.evtOpen = true := by
  obtain ⟨d₁, c, d', hconnect, hsession, hrefused, hdata⟩ := refusingDevice_refuses
  obtain ⟨hsame, hleft⟩ := dataConnect_leaves_open_iff ⟨rfl, rfl⟩ hdata
  have hcmd := hleft.mpr ⟨rfl, d₁, c, hconnect, hsession, hrefused⟩
  exact ⟨d', hdata, hcmd, hsame.symm.trans hcmd⟩

/-- The whole life of a wireless connection: the device gets its own number back, every call
returns what the device has answered to it, and in the end both sockets are closed and nothing that
belongs to later has been read. -/
theorem wirelessSession_served {calls : List Call} {replies : List CallReply}
    {hello bye : CallReply} {ack ack' opened bytes closed rest rest' : List Byte}
    (hnet : net.Reaches d) (hiconv : net.iconvOpen = true) (hopen : net.cmd.Open)
    (h4 : 4 ≤ ack.length) (hsize : ack.length < 2 ^ 31) (hsize' : ack'.length < 2 ^ 31)
    (hopened : Answers 0 (openSession 1) hello opened) (hok : hello.code = PTP_RC_OK)
    (hconversation : Conversation Answers 1 calls replies bytes)
    (hclosed : Answers (1 + BitVec.ofNat 32 calls.length) closeSession bye closed)
    (h : content d.link.cmd =
      packet PTPIP_INIT_COMMAND_ACK ack ++ (opened ++ (bytes ++ (closed ++ rest))))
    (h' : content d.evt = packet PTPIP_INIT_EVENT_ACK ack' ++ rest') :
    ∃ d', wirelessSession net calls d = some (some (replies.map CallReply.result), d') ∧
      (d'.cmdOpen = false ∧ d'.evtOpen = false ∧ d'.converters = false) ∧
      content d'.link.cmd = rest ∧ content d'.evt = rest' ∧
      d'.link.out.bytes = d.link.out.bytes ++ (initCommandRequest ++
        Call.wire 0 (openSession 1 :: (calls ++ [closeSession]))) ∧
      d'.evtOut.bytes = d.evtOut.bytes ++ initEventRequest (dtoh32a ack 0) := by
  obtain ⟨cmd, evt, c, -, -, hdata, hret, hid, hout, hcmd, hevt⟩ :=
    @dataConnect_answered net d hello ack ack' opened _ rest' hnet hiconv hopen h4 hsize hsize'
      hopened h h'
  rw [if_neg (not_not.mpr (hret.trans hok))] at hdata
  obtain ⟨params', link, hrun, hparams', hout', hcmd'⟩ := @runCalls_conversation net.cmd
    c.params c.state bytes _ hopen calls replies (hid ▸ hconversation) hcmd
  have hid' : params'.transactionId = 1 + BitVec.ofNat 32 calls.length := by
    rw [hparams', hid]
  obtain ⟨c', hclose, -, -, -, -, hout'', hcmd''⟩ := @ptpTransaction_answered net.cmd params' link
    closeSession _ closed rest hopen (hid' ▸ hclosed) hcmd'
  set d₁ := { d with converters := true }.shaken ack cmd evt with hd₁
  have hrelease : releaseWirelessDevice net params' { d₁ with link := link } =
      some { d₁ with link := c'.state, cmdOpen := false, evtOpen := false, converters := false } := by
    rw [releaseWirelessDevice, ptpClosesession_eq]
    exact congrArg _ hclose
  refine ⟨{ d₁ with link := c'.state, cmdOpen := false, evtOpen := false, converters := false }, ?_,
    ⟨rfl, rfl, rfl⟩, hcmd'', hevt, ?_, rfl⟩
  · rw [wirelessSession, hdata, Option.bind_eq_bind, Option.bind_some]
    dsimp only
    rw [hrun, Option.bind_eq_bind, Option.bind_some]
    dsimp only
    rw [hrelease, Option.bind_eq_bind, Option.bind_some]
  · rw [hid] at hout'
    rw [hid'] at hout''
    rw [hout'', hout', hout, Call.wire, Call.wire_append, Call.wire, Call.wire, List.append_nil]
    simp only [List.append_assoc]
    rfl

theorem wirelessSession_served_sample :
    ∃ d', wirelessSession openNetwork [getCall]
          (sendingDevice (packet PTPIP_INIT_COMMAND_ACK (htod32a 9) ++ ((okResponse 0).bytes ++
            (servedBytes ++ (okResponse 2).bytes))) (packet PTPIP_INIT_EVENT_ACK [])) =
        some (some [(PTP_RC_OK, [5, 6])], d') ∧
      (d'.cmdOpen = false ∧ d'.evtOpen = false ∧ d'.converters = false) ∧
      content d'.link.cmd = [] ∧ content d'.evt = [] ∧
      d'.link.out.bytes =
        [] ++ (initCommandRequest ++ Call.wire 0 [openSession 1, getCall, closeSession]) ∧
      d'.evtOut.bytes = [] ++ initEventRequest 9 :=
  @wirelessSession_served openNetwork _ [getCall] [{ code := PTP_RC_OK, data := [5, 6] }]
    { code := PTP_RC_OK } { code := PTP_RC_OK } (htod32a 9) [] (okResponse 0).bytes
    (servedBytes ++ []) (okResponse 2).bytes [] [] ⟨rfl, rfl, rfl, rfl, rfl, rfl⟩ rfl
    takingSocket_open (by decide) (by decide) (by decide)
    ⟨[], [], okResponse 0, rfl, nofun, rfl, rfl, rfl, Or.inr ⟨nofun, rfl, rfl⟩⟩ rfl
    (.cons ⟨_, [], okResponse 1, rfl, nofun, rfl, rfl, rfl,
      Or.inl ⟨rfl, htod32a 1 ++ htod32a 2, dataPackets 1 [5, 6], rfl, by decide, by decide,
        by decide, gathers_dataPackets 1 [5, 6]⟩⟩ .nil)
    ⟨[], [], okResponse 2, rfl, nofun, rfl, rfl, rfl, Or.inr ⟨nofun, rfl, rfl⟩⟩
    (by rw [List.append_nil, List.append_nil]; exact content_trickle _)
    (by rw [List.append_nil]; exact content_trickle _)

end lifetime

end VitaMTP
