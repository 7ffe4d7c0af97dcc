import InternetApplications.Dhcp.Packet

namespace InternetApplications.Dhcp

open ByteMemory TagScan Executions Tracing

structure Interface where
  hwaddr : Mac
  addr : UInt32
deriving DecidableEq, Repr

inductive Request
  | siocsifaddr (addr : UInt32)
  | siocsifnetmask (netmask : UInt32)
  | siocaddrt (gateway : UInt32)
deriving DecidableEq, Repr

/-- What the client finds outside when it starts or goes on: the clock, the
value `rand` returns after seeding, which `ioctl` requests succeed, and what its
uninitialised packet buffers hold. -/
structure Host where
  now : ℕ
  rand : UInt32
  getAddr : Bool
  getHwaddr : Bool
  setAddr : Bool
  setNetmask : Bool
  addRoute : Bool
  offerResidue : DhcpT
  ackResidue : DhcpT

structure Client where
  interface : Interface
  leaseTime : UInt32
  t1Time : UInt32
  t2Time : UInt32
  dhcpServerAddr : UInt32
  dhcpClientAddr : UInt32
  xid : UInt32
  yiaddr : UInt32
  dhcpServerIdentifier : UInt32
  deadline : Option ℕ
deriving DecidableEq, Repr

structure Delivery where
  host : Host
  datagram : List UInt8

/-- `option_value`, a pointer into the options of some packet. -/
abbrev OptionValue := Option (DhcpT × ℕ)

def pointedByte : OptionValue → Except Fault UInt8
  | none => .error .unsetPointer
  | some (dhcp, o) => derefByte dhcp (some o)

def pointedWord : OptionValue → Except Fault UInt32
  | none => .error .unsetPointer
  | some (dhcp, o) => derefWord dhcp (some o)

section Options

variable {m : Type → Type} [Monad m] [Noting (OptionUse (DhcpT × ℕ)) Fault m]

def lookupOption (value : OptionValue) (dhcp : DhcpT) (tag : UInt8) : m (UInt8 × OptionValue) :=
  note (.lookup tag : OptionUse (DhcpT × ℕ)) do
    let (len, o) ← getDhcpOption dhcp tag
    return (len, (o.map fun o ↦ (dhcp, o)).or value)

def readPointedByte (tag : UInt8) (value : OptionValue) : m UInt8 :=
  note (.read tag 1 value : OptionUse (DhcpT × ℕ)) (pointedByte value)

def readPointedWord (tag : UInt8) (value : OptionValue) : m UInt32 :=
  note (.read tag 4 value : OptionUse (DhcpT × ℕ)) (pointedWord value)

/-- `get_dhcp_option(dhcp_ack, tag, ..) != 4` leaves the value out. -/
def wordOption (dhcpAck : DhcpT) (tag : UInt8) : m (Option UInt32) := do
  let (len, value) ← lookupOption none dhcpAck tag
  if len ≠ 4 then return none
  else
    let word ← readPointedWord tag value
    return some word

def setupRequests (host : Host) (dhcpAck : DhcpT) : m (List Request) :=
  if !host.setAddr then return []
  else do
    let done := [.siocsifaddr dhcpAck.yiaddr]
    match ← wordOption dhcpAck optionSubnetMask with
    | none => return done
    | some netmask =>
      if !host.setNetmask then return done
      else
        let done := done ++ [.siocsifnetmask netmask]
        match ← wordOption dhcpAck optionRouter with
        | none => return done
        | some gateway => if !host.addRoute then return done else return done ++ [.siocaddrt gateway]

theorem lookupOption_of_ok {dhcp : DhcpT} {tag len : UInt8} {o : Option ℕ}
    (h : getDhcpOption dhcp tag = .ok (len, o)) (value : OptionValue) :
    lookupOption value dhcp tag = .ok (len, (o.map fun o ↦ (dhcp, o)).or value) := by
  rw [lookupOption, h]
  rfl

theorem readPointedByte_eq (tag : UInt8) (value : OptionValue) :
    readPointedByte tag value = pointedByte value := rfl

theorem readPointedWord_eq (tag : UInt8) (value : OptionValue) :
    readPointedWord tag value = pointedWord value := rfl

end Options

/-- How an exchange ends: the value returned, the buffer of the acknowledgement,
and what is still to come. -/
structure Ended where
  state : ℤ
  client : Client
  dhcpAck : DhcpT
  host : Host
  rest : List Delivery

structure Done where
  client : Client
  sent : List Sent
  accepted : List (ℕ × DhcpT)

namespace Client

def dhcpSetup (interface : Interface) : Client where
  interface := interface
  leaseTime := 0
  t1Time := 0
  t2Time := 0
  dhcpServerAddr := inaddrBroadcast
  dhcpClientAddr := inaddrAny
  xid := 0
  yiaddr := inaddrAny
  dhcpServerIdentifier := 0
  deadline := none

def changeSocketSetup (c : Client) (clientAddr serverAddr : UInt32) : Client :=
  { c with dhcpClientAddr := clientAddr, dhcpServerAddr := serverAddr }

/-- `srand(time(NULL)); xid = rand();` -/
def drawXid (c : Client) (host : Host) : Client := { c with xid := host.rand }

def getMacAddress (c : Client) (host : Host) : Option Mac :=
  if host.getHwaddr then some c.interface.hwaddr else none

def getIpAddress (c : Client) (host : Host) : UInt32 :=
  if host.getAddr then c.interface.addr else 0

def setIdentifier (c : Client) (identifier : UInt32) : Client :=
  { c with dhcpServerIdentifier := identifier }

def setYiaddr (c : Client) (yiaddr : UInt32) : Client := { c with yiaddr := yiaddr }

def siocsifaddr (c : Client) (addr : UInt32) : Client :=
  { c with interface := { c.interface with addr := addr } }

/-- Only one of the requests is about the address. -/
def carryOut (c : Client) : Request → Client
  | .siocsifaddr addr => c.siocsifaddr addr
  | .siocsifnetmask _ | .siocaddrt _ => c

def setTimes (c : Client) (leaseTime t1Time t2Time : UInt32) : Client :=
  { c with leaseTime := leaseTime, t1Time := t1Time, t2Time := t2Time }

/-- `alarm(seconds)`, which replaces the pending alarm; 0 only cancels it. -/
def alarm (c : Client) (now : ℕ) (seconds : UInt32) : Client :=
  { c with deadline := if seconds = 0 then none else some (now + seconds.toNat) }

def alarmGone (c : Client) : Client := { c with deadline := none }

def requestFlags (state : UInt8) : UInt16 :=
  if state = dhcprelease ∨ state = dhcpdecline then bootpFlagsUnicast else bootpFlags

def packetHeader (c : Client) (ciaddr : UInt32) (mac : Mac) (state : UInt8) : DhcpT :=
  let dhcp := write DhcpT.zero 0
    [bootpMessageTypeRequest, hardwareType, UInt8.ofNat hardwareAddressLength, dhcpHops]
  let dhcp := write dhcp 4 (wordBytes c.xid)
  let dhcp := write dhcp 8 (halfBytes secondsElapsed)
  let dhcp := write dhcp 10 (halfBytes (requestFlags state))
  let dhcp := write dhcp 12 (wordBytes ciaddr)
  let dhcp := write dhcp 16 (wordBytes inaddrAny)
  let dhcp := write dhcp 20 (wordBytes inaddrAny)
  let dhcp := write dhcp 24 (wordBytes inaddrAny)
  let dhcp := write dhcp 28 mac.toList
  write dhcp 236 (wordBytes dhcpMagicCookie)

def constructDhcpPacket (c : Client) (host : Host) (state : UInt8) : Except Fault (DhcpT × ℕ) :=
  match c.getMacAddress host with
  | none => .error .noReturn
  | some mac =>
    let ciaddr := c.getIpAddress host
    let w := appendOption (c.packetHeader ciaddr mac state, 0) optionDhcpMessageType [state]
    let w := if state = dhcprequest ∨ state = dhcprelease then
      appendOption w optionDhcpServerIdentifier (wordBytes c.dhcpServerIdentifier) else w
    let w := if ciaddr = inaddrAny then
      appendOption w optionRequestedIp (wordBytes c.yiaddr) else w
    let w := if state ≠ dhcprelease ∧ state ≠ dhcpdecline then
      appendOption (appendOption w optionParameterRequestList parameterReqList)
        optionVendorClassIdentifier dhcpClientVendorClassId else w
    let w := appendOption w optionEnd [0]
    .ok (w.1, dhcpFixedNonUdp + w.2)

def sendto (c : Client) (packet : DhcpT × ℕ) : Sent :=
  ⟨c.dhcpServerAddr, read packet.1 0 packet.2⟩

/-- Every exchange draws a transaction id, sets the socket addresses and sends a packet. -/
def startExchange (c : Client) (host : Host) (clientAddr serverAddr : UInt32) (state : UInt8) :
    Except Fault (Client × Sent) := do
  let c := (c.drawXid host).changeSocketSetup clientAddr serverAddr
  let packet ← c.constructDhcpPacket host state
  return (c, c.sendto packet)

def sendDiscover (c : Client) (host : Host) : Except Fault (Client × Sent) :=
  c.startExchange host inaddrAny inaddrBroadcast dhcpdiscover

def sendInform (c : Client) (host : Host) : Except Fault (Client × Sent) :=
  c.startExchange host (c.getIpAddress host) inaddrBroadcast dhcpinform

def sendRenew (c : Client) (host : Host) : Except Fault (Client × Sent) :=
  c.startExchange host (c.getIpAddress host) c.dhcpServerIdentifier dhcprequest

def sendRebind (c : Client) (host : Host) : Except Fault (Client × Sent) :=
  c.startExchange host (c.getIpAddress host) inaddrBroadcast dhcprequest

def dhcpRelease (c : Client) (host : Host) : Except Fault (Client × Sent) :=
  c.startExchange host (c.getIpAddress host) c.dhcpServerIdentifier dhcprelease

/-- The request that answers an offer belongs to the exchange of the discover. -/
def sendRequest (c : Client) (host : Host) : Except Fault Sent := do
  let packet ← c.constructDhcpPacket host dhcprequest
  return c.sendto packet

def Takes (c : Client) (dhcp : DhcpT) : Prop :=
  dhcp.opcode = bootpMessageTypeReply ∧ dhcp.xid = c.xid

instance (c : Client) (dhcp : DhcpT) : Decidable (c.Takes dhcp) :=
  inferInstanceAs (Decidable (_ ∧ _))

section Replies

variable {m : Type → Type} [Monad m] [Noting (OptionUse (DhcpT × ℕ)) Fault m]

def takeOffer (c : Client) (dhcpOffer : DhcpT) : m (Client × OptionValue) := do
  let (_, value) ← lookupOption none dhcpOffer optionDhcpServerIdentifier
  let identifier ← readPointedWord optionDhcpServerIdentifier value
  return ((c.setIdentifier identifier).setYiaddr dhcpOffer.yiaddr, value)

def takeAck (c : Client) (dhcpAck : DhcpT) (value : OptionValue) : m (ℤ × Client) := do
  let (_, value) ← lookupOption value dhcpAck optionDhcpMessageType
  let type ← readPointedByte optionDhcpMessageType value
  if type = dhcpnak then return (1, c)
  else
    let (_, value) ← lookupOption value dhcpAck optionDhcpServerIdentifier
    let identifier ← readPointedWord optionDhcpServerIdentifier value
    return (0, c.setIdentifier identifier)

def setupInterface (c : Client) (host : Host) (dhcpAck : DhcpT) : m Client := do
  let requests ← setupRequests host dhcpAck
  return requests.foldl carryOut c

def setAlarm (c : Client) (host : Host) (dhcpAck : DhcpT) : m Client := do
  match ← wordOption dhcpAck optionIpAddressLeaseTime with
  | none => return c
  | some leaseTime =>
    let t1 ← wordOption dhcpAck optionIpT1RenewalTime
    let t2 ← wordOption dhcpAck optionIpT2RebindTime
    let t1Time := t1.getD (leaseTime / 2)
    let t2Time := t2.getD (leaseTime / 8 * 7)
    return (c.setTimes leaseTime t1Time t2Time).alarm host.now t1Time

end Replies

/-- The loop of `dhcp_discover` that waits for an offer. The deliveries end with a time-out. -/
def awaitOffer (c : Client) (dhcpOffer : DhcpT) :
    List Delivery → Except Fault (Option (Client × OptionValue × Host × List Delivery))
  | [] => .ok none
  | d :: rest =>
    let dhcpOffer := dhcpOffer.recvfrom d.datagram
    if c.Takes dhcpOffer then do
      let (c, value) ← c.takeOffer dhcpOffer
      return some (c, value, d.host, rest)
    else c.awaitOffer dhcpOffer rest

def awaitAck (c : Client) (dhcpAck : DhcpT) (value : OptionValue) (host : Host) :
    List Delivery → Except Fault Ended
  | [] => .ok ⟨-1, c, dhcpAck, host, []⟩
  | d :: rest =>
    let dhcpAck := dhcpAck.recvfrom d.datagram
    if c.Takes dhcpAck then do
      let (state, c) ← c.takeAck dhcpAck value
      return ⟨state, c, dhcpAck, d.host, rest⟩
    else c.awaitAck dhcpAck value d.host rest

def dhcpDiscover (c : Client) (host : Host) (deliveries : List Delivery) :
    Except Fault (List Sent × Ended) := do
  let (c, discover) ← c.sendDiscover host
  match ← c.awaitOffer host.offerResidue deliveries with
  | none => return ([discover], ⟨-1, c, host.ackResidue, host, []⟩)
  | some (c, value, host', rest) =>
    let request ← c.sendRequest host'
    let ended ← c.awaitAck host.ackResidue value host' rest
    return ([discover, request], ended)

def dhcpInform (c : Client) (host : Host) (deliveries : List Delivery) :
    Except Fault (List Sent × Ended) := do
  let (c, inform) ← c.sendInform host
  let ended ← c.awaitAck host.ackResidue none host deliveries
  return ([inform], ended)

def dhcpRenew (c : Client) (host : Host) (deliveries : List Delivery) :
    Except Fault (List Sent × Ended) := do
  let (c, renew) ← c.sendRenew host
  let ended ← c.awaitAck host.ackResidue none host deliveries
  return ([renew], ended)

def dhcpRebind (c : Client) (host : Host) (deliveries : List Delivery) :
    Except Fault (List Sent × Ended) := do
  let (c, rebind) ← c.sendRebind host
  let ended ← c.awaitAck host.ackResidue none host deliveries
  return ([rebind], ended)

def setupInterfaceRelease (c : Client) (host : Host) : Client :=
  if !host.setAddr then c else c.siocsifaddr inaddrAny

def discover (c : Client) (host : Host) (deliveries : List Delivery) : Except Fault Done :=
  if c.getIpAddress host ≠ 0 then return ⟨c, [], []⟩
  else do
    let (sent, ended) ← c.dhcpDiscover host deliveries
    if ended.state < 0 then return ⟨ended.client, sent, []⟩
    else if ended.state > 0 then
      return ⟨ended.client.setupInterfaceRelease ended.host, sent, []⟩
    else
      let c ← ended.client.setupInterface ended.host ended.dhcpAck
      let c ← c.setAlarm ended.host ended.dhcpAck
      return ⟨c, sent, [(ended.host.now, ended.dhcpAck)]⟩

def release (c : Client) (host : Host) : Except Fault Done := do
  let c := c.alarm host.now 0
  let (c, sent) ← c.dhcpRelease host
  return ⟨c.setupInterfaceRelease host, [sent], []⟩

def inform (c : Client) (host : Host) (deliveries : List Delivery) : Except Fault Done := do
  let (sent, ended) ← c.dhcpInform host deliveries
  return ⟨ended.client, sent, []⟩

def extendLease (sent : List Sent) (ended : Ended) : Except Fault Done :=
  if ended.state < 0 then return ⟨ended.client, sent, []⟩
  else if ended.state > 0 then do
    let c := ended.client.setupInterfaceRelease ended.host
    let done ← c.discover ended.host ended.rest
    return { done with sent := sent ++ done.sent }
  else do
    let c ← ended.client.setAlarm ended.host ended.dhcpAck
    return ⟨c, sent, [(ended.host.now, ended.dhcpAck)]⟩

def renew (c : Client) (host : Host) (deliveries : List Delivery) : Except Fault Done := do
  let (sent, ended) ← c.dhcpRenew host deliveries
  extendLease sent ended

def rebind (c : Client) (host : Host) (deliveries : List Delivery) : Except Fault Done := do
  let (sent, ended) ← c.dhcpRebind host deliveries
  extendLease sent ended

def leaseTimeOut (c : Client) (host : Host) (deliveries : List Delivery) : Except Fault Done :=
  if c.t1Time ≠ 0 then
    let c := c.alarm host.now (c.t2Time - c.t1Time)
    (c.setTimes c.leaseTime 0 c.t2Time).renew host deliveries
  else if c.t2Time ≠ 0 then
    let c := c.alarm host.now (c.leaseTime - c.t2Time)
    (c.setTimes c.leaseTime c.t1Time 0).rebind host deliveries
  else return ⟨c.setupInterfaceRelease host, [], []⟩

section Setters

variable (c : Client) (host : Host) (x : UInt32)

@[simp] theorem setIdentifier_interface : (c.setIdentifier x).interface = c.interface := rfl

@[simp] theorem setYiaddr_interface : (c.setYiaddr x).interface = c.interface := rfl

@[simp] theorem setIdentifier_xid : (c.setIdentifier x).xid = c.xid := rfl

@[simp] theorem setYiaddr_xid : (c.setYiaddr x).xid = c.xid := rfl

@[simp] theorem setIdentifier_identifier : (c.setIdentifier x).dhcpServerIdentifier = x := rfl

@[simp] theorem setYiaddr_identifier :
    (c.setYiaddr x).dhcpServerIdentifier = c.dhcpServerIdentifier := rfl

@[simp] theorem setYiaddr_yiaddr : (c.setYiaddr x).yiaddr = x := rfl

@[simp] theorem setIdentifier_getIpAddress :
    (c.setIdentifier x).getIpAddress host = c.getIpAddress host := rfl

@[simp] theorem setYiaddr_getIpAddress :
    (c.setYiaddr x).getIpAddress host = c.getIpAddress host := rfl

end Setters

end Client

structure Host.Succeeds (host : Host) : Prop where
  getAddr : host.getAddr
  getHwaddr : host.getHwaddr
  setAddr : host.setAddr
  setNetmask : host.setNetmask
  addRoute : host.addRoute

instance (host : Host) : Decidable host.Succeeds :=
  decidable_of_iff (host.getAddr ∧ host.getHwaddr ∧ host.setAddr ∧ host.setNetmask ∧ host.addRoute)
    ⟨fun ⟨h₁, h₂, h₃, h₄, h₅⟩ ↦ ⟨h₁, h₂, h₃, h₄, h₅⟩,
      fun ⟨h₁, h₂, h₃, h₄, h₅⟩ ↦ ⟨h₁, h₂, h₃, h₄, h₅⟩⟩

def quietHost (now : ℕ) (rand : UInt32) : Host :=
  ⟨now, rand, true, true, true, true, true, DhcpT.zero, DhcpT.zero⟩

inductive Command
  | discover
  | release
  | inform
  | renew
  | rebind
deriving DecidableEq, Repr

def interact (command : Command) (c : Client) (host : Host) (deliveries : List Delivery) :
    Except Fault Done :=
  match command with
  | .discover => c.discover host deliveries
  | .release => c.release host
  | .inform => c.inform host deliveries
  | .renew => c.renew host deliveries
  | .rebind => c.rebind host deliveries

/-- Why a step of a system of programs is not possible. -/
inductive Stuck
  | disabled
  | fault (f : Fault)
deriving DecidableEq, Repr

end InternetApplications.Dhcp
