import InternetApplications.Dhcp.ServerStep

namespace InternetApplications.Dhcp

open ByteMemory TagScan Executions LeaseTable

abbrev Event := Transition Server Input (Option Sent)

def Event.packet (e : Event) : DhcpT := e.before.received e.input

def Event.now (e : Event) : ℕ := e.input.env.now

def ServerReachable (s : Server) : Prop := Reachable mainLoop dhcpSetup s

def Sent.IsAck (m : Sent) : Prop := m.messageType = some dhcpack

theorem Handled.valid {s : Server} {i : Input} {t : LeaseTable} {out : Option Sent}
    (hs : s.table.Valid) (h : Handled s i t out) : t.Valid := by
  cases h with
  | silent | offerRequested | nak => exact hs
  | offerAllocated _ ha | offerNone _ ha | ackRenewed _ _ _ ha | informKnown _ _ ha =>
    exact allocateIp_valid hs ha
  | ackSelected _ _ _ _ ha | informSelected _ _ _ ha => exact addLease_valid hs ha
  | released _ _ hd => exact deleteLease_valid hs hd

theorem valid_setup : dhcpSetup.table.Valid := ⟨List.nodup_nil, rfl, by decide⟩

theorem mainLoop_valid {s s' : Server} {i : Input} {out : Option Sent}
    (h : mainLoop s i = .ok (s', out)) (hs : s.table.Valid) : s'.table.Valid :=
  (mainLoop_handled h).valid hs

theorem ServerReachable.valid {s : Server} (h : ServerReachable s) : s.table.Valid :=
  Reachable.invariant (I := fun s ↦ s.table.Valid) h (fun _ _ _ _ ↦ mainLoop_valid) valid_setup

section Samples

def bootpRequest (mac : Mac) (ciaddr : UInt32) (fields : List Field) : List UInt8 :=
  [bootpMessageTypeRequest, hardwareType, 6, dhcpHops] ++ List.replicate 8 0 ++ wordBytes ciaddr ++
    List.replicate 12 0 ++ mac.toList ++ List.replicate 202 0 ++ wordBytes dhcpMagicCookie ++
    encode fields

def selectingRequest (mac : Mac) (ciaddr requested : UInt32) : List UInt8 :=
  bootpRequest mac ciaddr [⟨optionDhcpMessageType, [dhcprequest]⟩,
    ⟨optionDhcpServerIdentifier, wordBytes dhcpServerIpAddress⟩,
    ⟨optionRequestedIp, wordBytes requested⟩, endField]

def informing (mac : Mac) (requested : UInt32) : List UInt8 :=
  bootpRequest mac inaddrAny [⟨optionDhcpMessageType, [dhcpinform]⟩,
    ⟨optionRequestedIp, wordBytes requested⟩, endField]

def clientA : Mac := #v[2, 0, 0, 0, 0, 1]
def clientB : Mac := #v[2, 0, 0, 0, 0, 2]

end Samples

end InternetApplications.Dhcp
