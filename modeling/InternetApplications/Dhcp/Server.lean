import Mathlib.Algebra.Group.Int.Defs
import InternetApplications.Library.KeyedList
import InternetApplications.Dhcp.Packet

namespace InternetApplications.Dhcp

open ByteMemory TagScan KeyedList Tracing

structure LeaseT where
  timeStamp : ℕ
  addr : UInt32
  chaddr : Mac
deriving DecidableEq, Repr

structure LeaseTable where
  leases : List LeaseT
  numOfLease : ℤ
deriving DecidableEq, Repr

structure Server where
  dhcpRecv : DhcpT
  table : LeaseTable
  dhcpServerAddr : UInt32
  dhcpClientAddr : UInt32

/-- What one pass of the main loop takes from outside: the clock, the values
`rand` returns after seeding, and what the uninitialised `offer_ip` holds. -/
structure Env where
  now : ℕ
  draws : List ℕ
  stale : UInt32
deriving DecidableEq, Repr

def intValue (n : ℤ) : Except Fault ℤ :=
  if -2 ^ 31 ≤ n ∧ n < 2 ^ 31 then .ok n else .error .overflow

def dhcpSetup : Server where
  dhcpRecv := DhcpT.zero
  table := ⟨[], 0⟩
  dhcpServerAddr := inaddrAny
  dhcpClientAddr := inaddrBroadcast

def checkLeases (now : ℕ) (reqIp : UInt32) (mac : Mac) : List LeaseT → ℤ
  | [] => 1
  | lease :: rest =>
    if lease.addr = reqIp then
      if lease.timeStamp + ipAddressLeaseTime > now then if lease.chaddr ≠ mac then -1 else 1
      else 1
    else checkLeases now reqIp mac rest

def checkIpaddr (t : LeaseTable) (now : ℕ) (ip : UInt32) (mac : Mac) : ℤ :=
  if ip < ipAddressPoolStart ∨
      ip > ipAddressPoolStart + UInt32.ofNat ipAddressPoolAmount - 1 then -1
  else checkLeases now ip mac t.leases

/-- The random probe `outer`. It has not returned when the draws run out. -/
def probe (leases : List LeaseT) : List ℕ → Except Fault UInt32
  | [] => .error .noReturn
  | r :: draws =>
    let newIp := ipAddressPoolStart + UInt32.ofNat (r % ipAddressPoolAmount)
    if leases.any fun lease ↦ lease.addr = newIp then probe leases draws else .ok newIp

/-- The return value, `*new_ip` and the table. -/
def allocateIp (t : LeaseTable) (env : Env) (newIp : UInt32) (mac : Mac) :
    Except Fault (ℤ × UInt32 × LeaseTable) :=
  match t.leases.find? fun lease ↦ lease.chaddr = mac with
  | some lease =>
    .ok (0, lease.addr, { t with
      leases := touch (fun lease ↦ lease.chaddr = mac)
        (fun lease ↦ { lease with timeStamp := env.now }) t.leases })
  | none =>
    if t.numOfLease > ipAddressPoolAmount - 1 then .ok (-1, newIp, t)
    else do
      let ip ← probe t.leases env.draws
      return (0, ip, t)

def addLease (t : LeaseTable) (now : ℕ) (newIp : UInt32) (mac : Mac) : Except Fault LeaseTable :=
  if t.leases.any fun lease ↦ lease.addr = newIp then
    .ok { t with
      leases := touch (fun lease ↦ lease.addr = newIp)
        (fun lease ↦ { lease with timeStamp := now }) t.leases }
  else do
    let n ← intValue (t.numOfLease + 1)
    return ⟨t.leases ++ [⟨now, newIp, mac⟩], n⟩

def deleteLease (t : LeaseTable) (ip : UInt32) (mac : Mac) : Except Fault LeaseTable :=
  if t.leases.any fun lease ↦ lease.addr = ip ∧ lease.chaddr = mac then do
    let n ← intValue (t.numOfLease - 1)
    return ⟨t.leases.eraseP fun lease ↦ lease.addr = ip ∧ lease.chaddr = mac, n⟩
  else .ok t

section Handlers

variable {m : Type → Type} [Monad m] [MonadLiftT (Except Fault) m] [Noting (OptionUse ℕ) Fault m]

def requestedIp (dhcp : DhcpT) (t : LeaseTable) (now : ℕ) : m (Option UInt32) := do
  let (len, value) ← findOption dhcp optionRequestedIp
  if len = 4 then
    let ip ← readWord dhcp optionRequestedIp value
    return if 0 < checkIpaddr t now ip dhcp.chaddr then some ip else none
  else return none

/-- The value of `yiaddr` and the table; there is no value when no address is left. -/
def yourIpAddress (dhcp : DhcpT) (t : LeaseTable) (env : Env) (state : UInt8) :
    m (Option UInt32 × LeaseTable) :=
  if state = dhcpnak then return (some inaddrAny, t)
  else if state = dhcpoffer then do
    match ← requestedIp dhcp t env.now with
    | some ip => return (some ip, t)
    | none =>
      let (result, offerIp, t') ← allocateIp t env env.stale dhcp.chaddr
      if result < 0 then return (none, t') else return (some offerIp, t')
  else if state = dhcpack ∧ dhcp.ciaddr = inaddrAny then do
    let (_, value) ← findOption dhcp optionRequestedIp
    let ip ← readWord dhcp optionRequestedIp value
    let t' ← addLease t env.now ip dhcp.chaddr
    return (some ip, t')
  else do
    let (_, offerIp, t') ← allocateIp t env env.stale dhcp.chaddr
    return (some offerIp, t')

/-- The options are written over those of the request, which `msg_type` points into. -/
def fillOptions (dhcp : DhcpT) (state : UInt8) (msgType : Option ℕ) :
    m (DhcpT × ℕ) := do
  let w := appendOption (dhcp, 0) optionDhcpMessageType [state]
  let w := appendOption w optionDhcpServerIdentifier (wordBytes dhcpServerIpAddress)
  let w := appendOption w optionVendorClassIdentifier dhcpServerVendorClassId
  if state ≠ dhcpnak then
    let w := appendOption w optionSubnetMask (wordBytes subnetMask)
    let w := appendOption w optionRouter (wordBytes routerIpAddress)
    let w := appendOption w optionDomainNameServer (wordBytes domainNameServerAddress)
    let type ← readByte w.1 optionDhcpMessageType msgType
    if type ≠ dhcpinform then
      let w := appendOption w optionIpAddressLeaseTime
        (wordBytes (UInt32.ofNat ipAddressLeaseTime))
      let w := appendOption w optionIpT1RenewalTime (wordBytes (UInt32.ofNat t1RenewalTime))
      let w := appendOption w optionIpT2RebindTime (wordBytes (UInt32.ofNat t2RebindTime))
      return appendOption w optionEnd [0]
    else return appendOption w optionEnd [0]
  else return appendOption w optionEnd [0]

/-- The reply is built in `dhcp_recv` itself; its length is 0 when there is none. -/
def constructDhcpPacket (s : Server) (env : Env) (state : UInt8) :
    m (Server × ℕ) := do
  let dhcp := write s.dhcpRecv 0 [bootpMessageTypeReply]
  let (yiaddr, t) ← yourIpAddress dhcp s.table env state
  match yiaddr with
  | none => return ({ s with dhcpRecv := dhcp, table := t }, 0)
  | some yiaddr =>
    let dhcp := write dhcp 16 (wordBytes yiaddr)
    let dhcp := write dhcp 24 (wordBytes relayAgentIpAddress)
    let (_, msgType) ← findOption dhcp optionDhcpMessageType
    let (dhcp, len) ← fillOptions dhcp state msgType
    return ({ s with dhcpRecv := dhcp, table := t }, dhcpFixedNonUdp + len)

def selectedServer (dhcp : DhcpT) : m (Option ℕ) := do
  let (len, value) ← findOption dhcp optionDhcpServerIdentifier
  if len = 4 then
    let selected ← readWord dhcp optionDhcpServerIdentifier value
    return if selected = dhcpServerIpAddress then value else none
  else return none

namespace Server

def changeSocketSetup (s : Server) (serverAddr clientAddr : UInt32) : Server :=
  { s with dhcpServerAddr := serverAddr, dhcpClientAddr := clientAddr }

@[simp] theorem changeSocketSetup_dhcpRecv (s : Server) (serverAddr clientAddr : UInt32) :
    (s.changeSocketSetup serverAddr clientAddr).dhcpRecv = s.dhcpRecv := rfl

@[simp] theorem changeSocketSetup_table (s : Server) (serverAddr clientAddr : UInt32) :
    (s.changeSocketSetup serverAddr clientAddr).table = s.table := rfl

/-- A client without the broadcast flag that asks for a usable address is
answered at its own address. -/
def unicastSetup (s : Server) (env : Env) : m Server :=
  if s.dhcpRecv.flags = bootpFlagsUnicast then do
    match ← requestedIp s.dhcpRecv s.table env.now with
    | some _ => return s.changeSocketSetup dhcpServerIpAddress s.dhcpRecv.ciaddr
    | none => return s
  else return s

def sendto (s : Server) (size : ℕ) : Sent := ⟨s.dhcpClientAddr, read s.dhcpRecv 0 size⟩

def dhcpHandleDiscover (s : Server) (env : Env) : m (Server × Option Sent) := do
  let s := s.changeSocketSetup inaddrAny inaddrBroadcast
  let s ← s.unicastSetup env
  let (s, size) ← constructDhcpPacket s env dhcpoffer
  return (s, some (s.sendto size))

def answerRequest (s : Server) (env : Env) (ip : UInt32) : m (Server × Option Sent) := do
  let state := if 0 < checkIpaddr s.table env.now ip s.dhcpRecv.chaddr then dhcpack else dhcpnak
  let (s, size) ← constructDhcpPacket s env state
  return (s, some (s.sendto size))

def dhcpHandleRequest (s : Server) (env : Env) : m (Server × Option Sent) := do
  match ← selectedServer s.dhcpRecv with
  | none => return (s, none)
  | some identifier =>
    if s.dhcpRecv.ciaddr = inaddrAny then
      let s := s.changeSocketSetup inaddrAny inaddrBroadcast
      let s ← s.unicastSetup env
      let (_, value) ← findOption s.dhcpRecv optionRequestedIp
      -- without option 50 the pointer still leads to the server identifier
      let ip ← readWord s.dhcpRecv optionRequestedIp (some (value.getD identifier))
      s.answerRequest env ip
    else
      let s := s.changeSocketSetup dhcpServerIpAddress s.dhcpRecv.ciaddr
      s.answerRequest env s.dhcpRecv.ciaddr

def dhcpHandleRelease (s : Server) : m (Server × Option Sent) := do
  match ← selectedServer s.dhcpRecv with
  | none => return (s, none)
  | some _ =>
    let t ← deleteLease s.table s.dhcpRecv.ciaddr s.dhcpRecv.chaddr
    return ({ s with table := t }, none)

def dhcpHandleInform (s : Server) (env : Env) : m (Server × Option Sent) := do
  let s := s.changeSocketSetup dhcpServerIpAddress s.dhcpRecv.ciaddr
  let (s, size) ← constructDhcpPacket s env dhcpack
  return (s, some (s.sendto size))

end Server

def receivedType (dhcp : DhcpT) : m (Option UInt8) :=
  if dhcp.opcode = bootpMessageTypeRequest then do
    let (len, value) ← findOption dhcp optionDhcpMessageType
    if len = 1 then
      let type ← readByte dhcp optionDhcpMessageType value
      return some type
    else return none
  else return none

structure Input where
  env : Env
  datagram : List UInt8

def mainLoop (s : Server) (i : Input) : m (Server × Option Sent) := do
  let s := s.changeSocketSetup inaddrAny inaddrBroadcast
  let s := { s with dhcpRecv := s.dhcpRecv.recvfrom i.datagram }
  match ← receivedType s.dhcpRecv with
  | none => return (s, none)
  | some type =>
    if type = dhcpdiscover then s.dhcpHandleDiscover i.env
    else if type = dhcprequest then s.dhcpHandleRequest i.env
    else if type = dhcprelease then s.dhcpHandleRelease
    else if type = dhcpinform then s.dhcpHandleInform i.env
    else return (s, none)

end Handlers

end InternetApplications.Dhcp
