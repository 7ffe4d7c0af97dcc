import InternetApplications.Dhcp.Server
import InternetApplications.Dhcp.Options

namespace InternetApplications.Dhcp

open ByteMemory TagScan Executions

section Header

variable {p q : DhcpT}

theorem requestedIp_congr (h : DhcpT.options p = DhcpT.options q) (hm : p.chaddr = q.chaddr)
    (t : LeaseTable) (now : ℕ) : requestedIp p t now = requestedIp q t now := by
  simp only [requestedIp, findOption_eq, readWord_eq, getDhcpOption_congr h, derefWord_congr h, hm]

theorem yourIpAddress_congr (h : DhcpT.options p = DhcpT.options q) (hm : p.chaddr = q.chaddr)
    (hc : p.ciaddr = q.ciaddr) (t : LeaseTable) (env : Env) (state : UInt8) :
    yourIpAddress p t env state = yourIpAddress q t env state := by
  simp only [yourIpAddress, requestedIp_congr h hm, findOption_eq, readWord_eq,
    getDhcpOption_congr h, derefWord_congr h, hm, hc]

/-- The choice of `yiaddr` does not look at the opcode, which has been overwritten by then. -/
theorem yourIpAddress_opcode (p : DhcpT) (t : LeaseTable) (env : Env) (state : UInt8) :
    yourIpAddress (write p 0 [bootpMessageTypeReply]) t env state = yourIpAddress p t env state :=
  yourIpAddress_congr (DhcpT.options_write (by decide)) (DhcpT.chaddr_write (by simp))
    (DhcpT.loadWord_write (by simp)) t env state

end Header

section Options

def networkFields : List Field :=
  [⟨optionSubnetMask, wordBytes subnetMask⟩, ⟨optionRouter, wordBytes routerIpAddress⟩,
    ⟨optionDomainNameServer, wordBytes domainNameServerAddress⟩]

def leaseFields : List Field :=
  [⟨optionIpAddressLeaseTime, wordBytes (UInt32.ofNat ipAddressLeaseTime)⟩,
    ⟨optionIpT1RenewalTime, wordBytes (UInt32.ofNat t1RenewalTime)⟩,
    ⟨optionIpT2RebindTime, wordBytes (UInt32.ofNat t2RebindTime)⟩]

def identityFields (state : UInt8) : List Field :=
  [⟨optionDhcpMessageType, [state]⟩,
    ⟨optionDhcpServerIdentifier, wordBytes dhcpServerIpAddress⟩,
    ⟨optionVendorClassIdentifier, dhcpServerVendorClassId⟩]

def replyFields (state : UInt8) (leased : Bool) : List Field :=
  identityFields state ++ (if state = dhcpnak then [] else
    networkFields ++ if leased then leaseFields else []) ++ [endField]

theorem fillOptions_nak (p : DhcpT) (msgType : Option ℕ) (leased : Bool) :
    fillOptions p dhcpnak msgType = .ok (packed p (replyFields dhcpnak leased)) := by
  simp only [fillOptions, ← packed_nil p, appendOption_packed]
  rfl

theorem fillOptions_eq {p : DhcpT} {state : UInt8} (hs : state ≠ dhcpnak) (msgType : Option ℕ) :
    fillOptions p state msgType = do
      let type ← derefByte (packed p (identityFields state ++ networkFields)).1 msgType
      return packed p (replyFields state (type ≠ dhcpinform)) := by
  simp only [fillOptions, ← packed_nil p, appendOption_packed, hs, ne_eq, not_false_eq_true,
    if_true]
  refine congrArg (Bind.bind _) (funext fun type ↦ ?_)
  by_cases ht : type = dhcpinform
  · simp [ht, replyFields, hs, identityFields, networkFields, endField]
  · simp [ht, replyFields, hs, identityFields, networkFields, leaseFields, endField]

theorem replyFields_wellFormed {state : UInt8} {leased : Bool} :
    ∀ f ∈ replyFields state leased, f.WellFormed := by
  have hid : ∀ f ∈ identityFields state, f.WellFormed := by
    intro f hf
    simp only [identityFields, List.mem_cons, List.not_mem_nil, or_false] at hf
    rcases hf with rfl | rfl | rfl
    · exact ⟨show optionDhcpMessageType ≠ 0 by decide, by simp⟩
    · decide
    · decide
  intro f hf
  simp only [replyFields, List.mem_append] at hf
  rcases hf with (hf | hf) | hf
  · exact hid f hf
  · split at hf
    · cases hf
    · revert f
      cases leased <;> decide
  · revert f
    decide

theorem length_replyFields (state : UInt8) (leased : Bool) :
    (encode (replyFields state leased)).length ≤ 60 := by
  simp only [replyFields]
  split
  · exact Nat.le_of_ble_eq_true rfl
  · cases leased <;> exact Nat.le_of_ble_eq_true rfl

end Options

def replyHeader (b : DhcpT) (yiaddr : UInt32) : DhcpT :=
  write (write (write b 0 [bootpMessageTypeReply]) 16 (wordBytes yiaddr)) 24
    (wordBytes relayAgentIpAddress)

theorem replyHeader_options (b : DhcpT) (yiaddr : UInt32) :
    DhcpT.options (replyHeader b yiaddr) = DhcpT.options b := by
  rw [replyHeader, DhcpT.options_write (by decide), DhcpT.options_write (by simp [dhcpFixedNonUdp]),
    DhcpT.options_write (by decide)]

theorem replyHeader_lookup (b : DhcpT) (yiaddr : UInt32) (tag : UInt8) :
    getDhcpOption (replyHeader b yiaddr) tag = getDhcpOption b tag :=
  getDhcpOption_congr (replyHeader_options b yiaddr) tag

def replyPacket (b : DhcpT) (state : UInt8) (yiaddr : UInt32) (leased : Bool) : DhcpT :=
  write (replyHeader b yiaddr) dhcpFixedNonUdp (encode (replyFields state leased))

def replySize (state : UInt8) (leased : Bool) : ℕ :=
  dhcpFixedNonUdp + (encode (replyFields state leased)).length

def IsReply (b : DhcpT) (m : Sent) (state : UInt8) (yiaddr : UInt32) (leased : Bool) : Prop :=
  m.payload = read (replyPacket b state yiaddr leased) 0 (replySize state leased)

namespace IsReply

variable {b : DhcpT} {m : Sent} {state : UInt8} {yiaddr : UInt32} {leased : Bool}

theorem replySize_le : replySize state leased ≤ 300 := by
  have h := length_replyFields state leased
  unfold replySize dhcpFixedNonUdp
  omega

theorem recvfrom_eq (h : IsReply b m state yiaddr leased) (p : DhcpT) {i : ℕ}
    (hi : i < replySize state leased) :
    p.recvfrom m.payload i = replyPacket b state yiaddr leased i := by
  have hs : replySize state leased ≤ 300 := replySize_le
  exact DhcpT.recvfrom_eq (by rw [sizeofDhcpT_eq]; omega) h hi

end IsReply

structure ReadsReply (q b : DhcpT) (state : UInt8) (yiaddr : UInt32) (leased : Bool) : Prop where
  opcode : q.opcode = bootpMessageTypeReply
  xid : q.xid = b.xid
  ciaddr : q.ciaddr = b.ciaddr
  yiaddr : q.yiaddr = yiaddr
  chaddr : q.chaddr = b.chaddr
  carries : Carries q (replyFields state leased)

theorem IsReply.reads {b : DhcpT} {m : Sent} {state : UInt8} {yiaddr : UInt32} {leased : Bool}
    (h : IsReply b m state yiaddr leased) (p : DhcpT) :
    ReadsReply (p.recvfrom m.payload) b state yiaddr leased := by
  have hlen := length_replyFields state leased
  have hsize : dhcpFixedNonUdp ≤ replySize state leased := Nat.le_add_right _ _
  have hhead {i : ℕ} (hi : i < dhcpFixedNonUdp) :
      p.recvfrom m.payload i = replyHeader b yiaddr i := by
    rw [h.recvfrom_eq p (by omega), replyPacket, write_before hi]
  have hword {o : ℕ} (ho : o + 4 ≤ dhcpFixedNonUdp) :
      loadWord (p.recvfrom m.payload) o = loadWord (replyHeader b yiaddr) o :=
    loadWord_congr fun i hi ↦ hhead (by omega)
  have hfixed : dhcpFixedNonUdp = 240 := rfl
  constructor
  · rw [DhcpT.opcode, hhead (by omega), replyHeader, write_before (by omega), write_before (by omega)]
    rfl
  · rw [DhcpT.xid, hword (by omega), replyHeader, DhcpT.loadWord_write (by simp), DhcpT.loadWord_write (by simp),
      DhcpT.loadWord_write (by simp)]
    rfl
  · rw [DhcpT.ciaddr, hword (by omega), replyHeader, DhcpT.loadWord_write (by simp),
      DhcpT.loadWord_write (by simp), DhcpT.loadWord_write (by simp)]
    rfl
  · rw [DhcpT.yiaddr, hword (by omega), replyHeader, DhcpT.loadWord_write (by simp)]
    exact holds_write.loadWord
  · have hbytes (i : Fin hardwareAddressLength) : p.recvfrom m.payload (28 + i) = b (28 + i) := by
      have hi : i.val < 6 := i.isLt
      rw [hhead (by omega), replyHeader, write_after (by simp), write_after (by simp; omega),
        write_after (by simp; omega)]
    simp only [DhcpT.chaddr, hbytes]
  · refine ⟨replyFields_wellFormed, by rw [dhcpMaxOptionLen_eq]; omega, fun i hi ↦ ?_⟩
    rw [DhcpT.options, Nat.zero_add, h.recvfrom_eq p (by unfold replySize; omega), replyPacket,
      write_at hi]

namespace ReadsReply

variable {q b : DhcpT} {state : UInt8} {yiaddr : UInt32} {leased : Bool}

theorem messageType (h : ReadsReply q b state yiaddr leased) :
    optionByte q optionDhcpMessageType = some state :=
  (show Carries q ([] ++ ⟨optionDhcpMessageType, [state]⟩ :: _) from h.carries).optionByte
    (by simp) rfl

end ReadsReply

theorem IsReply.messageType {b : DhcpT} {m : Sent} {state : UInt8} {yiaddr : UInt32} {leased : Bool}
    (h : IsReply b m state yiaddr leased) : m.messageType = some state :=
  (h.reads DhcpT.zero).messageType

end InternetApplications.Dhcp
