import InternetApplications.Library.TagScan
import InternetApplications.Library.Execution
import InternetApplications.Library.Traced

namespace InternetApplications.Dhcp

open ByteMemory TagScan Executions Tracing

def maxWaitTime : ℕ := 5

def bootpMessageTypeRequest : UInt8 := 1
def bootpMessageTypeReply : UInt8 := 2

def hardwareType : UInt8 := 1
def hardwareAddressLength : ℕ := 6

def dhcpHops : UInt8 := 0
def secondsElapsed : UInt16 := 0
def bootpFlagsUnicast : UInt16 := 0x0000
def bootpFlagsBroadcast : UInt16 := 0x8000
def bootpFlags : UInt16 := bootpFlagsBroadcast
def dhcpMagicCookie : UInt32 := 0x63825363

def dhcpUdpOverhead : ℕ := 20 + 8
def dhcpFixedNonUdp : ℕ := 240
def dhcpFixedLen : ℕ := dhcpFixedNonUdp + dhcpUdpOverhead
def dhcpMtuMax : ℕ := 1500
def dhcpMaxOptionLen : ℕ := dhcpMtuMax - dhcpFixedLen

def optionSubnetMask : UInt8 := 1
def optionRouter : UInt8 := 3
def optionDomainNameServer : UInt8 := 6
def optionRequestedIp : UInt8 := 50
def optionIpAddressLeaseTime : UInt8 := 51
def optionDhcpMessageType : UInt8 := 53
def optionDhcpServerIdentifier : UInt8 := 54
def optionParameterRequestList : UInt8 := 55
def optionIpT1RenewalTime : UInt8 := 58
def optionIpT2RebindTime : UInt8 := 59
def optionVendorClassIdentifier : UInt8 := 60
def optionEnd : UInt8 := 255

def dhcpdiscover : UInt8 := 1
def dhcpoffer : UInt8 := 2
def dhcprequest : UInt8 := 3
def dhcpdecline : UInt8 := 4
def dhcpack : UInt8 := 5
def dhcpnak : UInt8 := 6
def dhcprelease : UInt8 := 7
def dhcpinform : UInt8 := 8

def dhcpClientVendorClassId : List UInt8 :=
  ['2', '0', '1', '4', '2', '1', '2', '8', '8', '0'].map fun c ↦ UInt8.ofNat c.toNat
def dhcpServerVendorClassId : List UInt8 :=
  ['2', '0', '1', '4', '2', '1', '2', '8', '7', '3'].map fun c ↦ UInt8.ofNat c.toNat

def ipAddressPoolStart : UInt32 := 0xC0A80002
def ipAddressPoolAmount : ℕ := 100
def ipAddressLeaseTime : ℕ := 32
def dhcpServerIpAddress : UInt32 := 0xC0A80001
def relayAgentIpAddress : UInt32 := dhcpServerIpAddress
def subnetMask : UInt32 := 0xFFFFFF00
def routerIpAddress : UInt32 := dhcpServerIpAddress
def domainNameServerAddress : UInt32 := dhcpServerIpAddress
def t1RenewalTime : ℕ := ipAddressLeaseTime * 5 / 10
def t2RebindTime : ℕ := ipAddressLeaseTime * 875 / 1000

def inaddrAny : UInt32 := 0
def inaddrBroadcast : UInt32 := 0xFFFFFFFF

def parameterReqList : List UInt8 :=
  [optionSubnetMask, optionRouter, optionDomainNameServer, optionIpAddressLeaseTime,
    optionIpT1RenewalTime, optionIpT2RebindTime, optionVendorClassIdentifier]

/-- Where the C program has no defined result, or never returns. -/
inductive Fault
  | outOfBounds
  | unsetPointer
  | overflow
  | noReturn
deriving DecidableEq, Repr

abbrev Mac := Vector UInt8 hardwareAddressLength

/-- A `struct dhcp_t` as the bytes it occupies. Multi-byte fields are read
through `ntohl`, so they do not depend on the host's byte order. -/
abbrev DhcpT := Memory

def sizeofDhcpT : ℕ := dhcpFixedNonUdp + dhcpMaxOptionLen

namespace DhcpT

def opcode (p : DhcpT) : UInt8 := p 0
def xid (p : DhcpT) : UInt32 := loadWord p 4
def flags (p : DhcpT) : UInt16 := UInt16.ofNat ((p 10).toNat * 2 ^ 8 + (p 11).toNat)
def ciaddr (p : DhcpT) : UInt32 := loadWord p 12
def yiaddr (p : DhcpT) : UInt32 := loadWord p 16
def chaddr (p : DhcpT) : Mac := Vector.ofFn fun i ↦ p (28 + i)
def options (p : DhcpT) : Memory := fun i ↦ p (dhcpFixedNonUdp + i)

def zero : DhcpT := fun _ ↦ 0

/-- The datagram covers a prefix of the buffer; the rest keeps what it held. -/
def recvfrom (p : DhcpT) (datagram : List UInt8) : DhcpT :=
  write p 0 (datagram.take sizeofDhcpT)

end DhcpT

/-- The returned length, and the offset given to `*option_value` when it is set. -/
def getDhcpOption (dhcp : DhcpT) (optionType : UInt8) : Except Fault (UInt8 × Option ℕ) :=
  match search dhcp.options dhcpMaxOptionLen optionType 0 with
  | .escaped => .error .outOfBounds
  | .absent => .ok (0, none)
  | .found pos =>
    if pos + 1 < dhcpMaxOptionLen then .ok (dhcp.options (pos + 1), some (pos + 2))
    else .error .outOfBounds

def fillDhcpOption (dhcp : DhcpT) (start : ℕ) (code : UInt8) (data : List UInt8) : DhcpT × ℕ :=
  (write dhcp (dhcpFixedNonUdp + start) (Field.bytes ⟨code, data⟩), data.length + 2)

def appendOption (w : DhcpT × ℕ) (code : UInt8) (data : List UInt8) : DhcpT × ℕ :=
  let (dhcp, size) := fillDhcpOption w.1 w.2 code data
  (dhcp, w.2 + size)

def derefByte (dhcp : DhcpT) : Option ℕ → Except Fault UInt8
  | none => .error .unsetPointer
  | some o => if o < dhcpMaxOptionLen then .ok (dhcp.options o) else .error .outOfBounds

def derefWord (dhcp : DhcpT) : Option ℕ → Except Fault UInt32
  | none => .error .unsetPointer
  | some o =>
    if o + 4 ≤ dhcpMaxOptionLen then .ok (loadWord dhcp.options o) else .error .outOfBounds

/-- What a routine does with the options: it looks for one, or reads through a pointer what it takes
for the value of one, of some width. -/
inductive OptionUse (π : Type)
  | lookup (tag : UInt8)
  | read (tag width : UInt8) (pointer : Option π)

section Server

variable {m : Type → Type} [Noting (OptionUse ℕ) Fault m]

def findOption (dhcp : DhcpT) (tag : UInt8) : m (UInt8 × Option ℕ) :=
  note (.lookup tag : OptionUse ℕ) (getDhcpOption dhcp tag)

def readByte (dhcp : DhcpT) (tag : UInt8) (value : Option ℕ) : m UInt8 :=
  note (.read tag 1 value : OptionUse ℕ) (derefByte dhcp value)

def readWord (dhcp : DhcpT) (tag : UInt8) (value : Option ℕ) : m UInt32 :=
  note (.read tag 4 value : OptionUse ℕ) (derefWord dhcp value)

theorem findOption_eq (dhcp : DhcpT) (tag : UInt8) : findOption dhcp tag = getDhcpOption dhcp tag :=
  rfl

theorem readByte_eq (dhcp : DhcpT) (tag : UInt8) (value : Option ℕ) :
    readByte dhcp tag value = derefByte dhcp value := rfl

theorem readWord_eq (dhcp : DhcpT) (tag : UInt8) (value : Option ℕ) :
    readWord dhcp tag value = derefWord dhcp value := rfl

end Server

def optionByte (dhcp : DhcpT) (tag : UInt8) : Option UInt8 :=
  match getDhcpOption dhcp tag with
  | .ok (len, value) => if len = 1 then (derefByte dhcp value).toOption else none
  | .error _ => none

def optionWord (dhcp : DhcpT) (tag : UInt8) : Option UInt32 :=
  match getDhcpOption dhcp tag with
  | .ok (len, value) => if len = 4 then (derefWord dhcp value).toOption else none
  | .error _ => none

/-- A datagram given to `sendto`, with the address it goes to. -/
structure Sent where
  dest : UInt32
  payload : List UInt8
deriving DecidableEq, Repr

/-- The packet that a receiver with a cleared buffer sees. -/
def Sent.packet (m : Sent) : DhcpT := DhcpT.zero.recvfrom m.payload

def Sent.messageType (m : Sent) : Option UInt8 := optionByte m.packet optionDhcpMessageType

theorem dhcpMaxOptionLen_eq : dhcpMaxOptionLen = 1232 := rfl

theorem sizeofDhcpT_eq : sizeofDhcpT = 1472 := rfl

end InternetApplications.Dhcp
