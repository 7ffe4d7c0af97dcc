import InternetApplications.Dhcp.FreshAddress
import InternetApplications.Dhcp.Leftovers
import InternetApplications.SimpleClient.Input

namespace InternetApplications.SimpleClient

open ByteMemory TagScan Executions
open Dhcp (Answers Carries DhcpT Env InPool LeaseTable Mac Sent Server ServerReachable)

/-- The frame brings the datagram from the server's port, perhaps with padding behind it. -/
structure Delivers (frame : Capture) (datagram : List UInt8) : Prop where
  whole : frame.len ≤ bufsiz
  sender : frame.FromServer
  payload : datagram <+: frame.bytes.drop 42

def hardwareOf (mac : MacBytes) : Mac := Vector.ofFn fun i ↦ mac[i.val]

/-- The first lease of the client, whose time is renewed, or an address of the pool that is in no
lease before or after. -/
def Allotted (t t' : LeaseTable) (now : ℕ) (mac : Mac) (y : UInt32) : Prop :=
  (∃ lease, t.firstOf mac = some lease ∧ y = lease.addr ∧ t' = t.stampMac now mac) ∨
    (t.firstOf mac = none ∧ InPool y ∧ t.lookup y = none ∧ t' = t)

/-- The datagram fits into a frame, and the client prints the address when the frame comes behind
others that it can pass over. -/
structure Printed (pcapLoop : PcapLoop) (m : Sent) (y : UInt32) : Prop where
  fits : ∃ capture, Delivers capture m.payload
  prints : ∀ pre capture post, (∀ r ∈ pre, r.Passed) → Delivers capture m.payload →
    gotIp pcapLoop (pre ++ .frame capture :: post) = .ok ((wordBytes y).map UInt8.toUInt32)

inductive Offered (pcapLoop : PcapLoop) (t : LeaseTable) (now : ℕ) (mac : Mac) (m : Sent) :
    LeaseTable → Prop
  | nothing : m.payload = [] → t.firstOf mac = none →
      (Dhcp.ipAddressPoolAmount : ℤ) ≤ t.numOfLease → Offered pcapLoop t now mac m t
  | address {t' : LeaseTable} {y : UInt32} : Allotted t t' now mac y → Printed pcapLoop m y →
      Offered pcapLoop t now mac m t'

section Wire

variable {frame : Capture} {datagram : List UInt8} {m : Sent} {b : DhcpT} {state : UInt8}
  {y : UInt32} {i : ℕ}

theorem Delivers.byte (h : Delivers frame datagram) (hi : i < datagram.length) :
    frame.byte (42 + i) = .ok datagram[i] := by
  obtain ⟨rest, hrest⟩ := h.payload
  have hget : frame.bytes[42 + i]? = some datagram[i] := by
    rw [← List.getElem?_drop, ← hrest, List.getElem?_append_left hi, List.getElem?_eq_getElem hi]
  rw [Capture.byte, hget]

theorem Delivers.packet (h : Delivers frame m.payload) (hi : i < m.payload.length)
    (hfit : m.payload.length ≤ Dhcp.sizeofDhcpT) : frame.byte (42 + i) = .ok (m.packet i) := by
  have hwhole : m.payload.take Dhcp.sizeofDhcpT = m.payload := List.take_of_length_le hfit
  have hbyte : m.packet i = m.payload[i] := by
    rw [Sent.packet, DhcpT.recvfrom_at (by rw [hwhole]; exact hi)]
    simp only [hwhole]
  rw [h.byte hi, hbyte]

/-- Every reply of the server is taken for an offer. -/
theorem Delivers.offers (h : Delivers frame m.payload) (ha : Answers b m state y) :
    frame.Offers y := by
  obtain ⟨o, -, hr⟩ := ha
  have hsize : Dhcp.replySize state (Dhcp.leasedAt b state y o) ≤ 300 :=
    Dhcp.IsReply.replySize_le
  have hlength : m.payload.length = Dhcp.replySize state (Dhcp.leasedAt b state y o) := by
    rw [hr, length_read]
  have hlong : 240 ≤ m.payload.length := by
    rw [hlength]
    exact Nat.le_add_right _ _
  have hfit : m.payload.length ≤ Dhcp.sizeofDhcpT := by
    rw [hlength, Dhcp.sizeofDhcpT_eq]
    omega
  have hreads := hr.reads DhcpT.zero
  have hbyte {i : ℕ} (hi : i < 240) : frame.byte (42 + i) = .ok (m.packet i) :=
    h.packet (by omega) hfit
  refine ⟨h.whole, h.sender, ?_, ?_⟩
  · rw [show 42 = 42 + 0 from rfl, hbyte (by omega)]
    exact congrArg Except.ok hreads.opcode
  · rw [Capture.word, show 58 = 42 + 16 from rfl, hbyte (by omega), hbyte (i := 17) (by omega),
      hbyte (i := 18) (by omega), hbyte (i := 19) (by omega)]
    exact congrArg Except.ok hreads.yiaddr

def onWire (datagram : List UInt8) : List UInt8 :=
  List.replicate 12 0xFF ++ halfBytes ethertypeIp ++ List.replicate 9 0 ++ [ipprotoUdp] ++
    List.replicate 10 0 ++ halfBytes dhcpServerPort ++ halfBytes dhcpClientPort ++
      List.replicate 4 0 ++ datagram

theorem exists_delivers (h : datagram.length ≤ 1472) : ∃ frame, Delivers frame datagram := by
  have hlength : (onWire datagram).length = 42 + datagram.length := by
    rw [onWire, List.length_append]
    rfl
  have hbufsiz : bufsiz = 8192 := rfl
  refine ⟨⟨(onWire datagram).length, onWire datagram, ?_⟩, ?_, ⟨⟨rfl, rfl⟩, rfl⟩, ?_⟩
  · omega
  · simp only
    omega
  · exact List.prefix_rfl

end Wire

section Request

variable {s : Server} {env : Env} {mac : MacBytes} {b : DhcpT} {t : LeaseTable} {now : ℕ}

theorem discoveryFrame_payload (o : ByteOrder) (mac : MacBytes) :
    (discoveryFrame o mac).drop 42 = bootpHeader mac ++ encode discoveryFields := by
  have hlength : (etherHeaderBytes mac ++ ipHeaderBytes o 286 [0xA9, 0xC0] ++
      udpHeaderBytes 266).length = 42 := by
    rw [List.length_append, List.length_append, length_etherHeaderBytes]
    cases o <;> rfl
  rw [discoveryFrame, ← List.append_assoc, ← List.append_assoc, List.drop_left' hlength]

structure ReadsDiscovery (b : DhcpT) (mac : MacBytes) : Prop where
  header : Holds b 0 (bootpHeader mac)
  carries : Carries b discoveryFields

theorem reads_discovery (p : DhcpT) (mac : MacBytes) :
    ReadsDiscovery (p.recvfrom (bootpHeader mac ++ encode discoveryFields)) mac := by
  have hheader := length_bootpHeader mac
  have hfields : (encode discoveryFields).length = 18 := rfl
  have hwhole : (bootpHeader mac ++ encode discoveryFields).take Dhcp.sizeofDhcpT =
      bootpHeader mac ++ encode discoveryFields := by
    refine List.take_of_length_le ?_
    rw [List.length_append, hheader, hfields]
    exact Nat.le_of_ble_eq_true rfl
  have hholds : Holds (p.recvfrom (bootpHeader mac ++ encode discoveryFields)) 0
      (bootpHeader mac ++ encode discoveryFields) := by
    rw [DhcpT.recvfrom, hwhole]
    exact holds_write
  obtain ⟨hfront, hoptions⟩ := holds_append.mp hholds
  refine ⟨hfront, by decide, Nat.le_of_ble_eq_true rfl, fun i hi ↦ ?_⟩
  have hbyte := hoptions i hi
  rw [hheader] at hbyte
  rw [DhcpT.options, ← hbyte, Nat.zero_add, Nat.zero_add]
  rfl

namespace ReadsDiscovery

theorem opcode (h : ReadsDiscovery b mac) : b.opcode = Dhcp.bootpMessageTypeRequest :=
  h.header 0 (by rw [length_bootpHeader]; decide)

theorem flags (h : ReadsDiscovery b mac) : b.flags = Dhcp.bootpFlagsUnicast := by
  have h₀ : b (0 + 10) = 0 := h.header 10 (by rw [length_bootpHeader]; decide)
  have h₁ : b (0 + 11) = 0 := h.header 11 (by rw [length_bootpHeader]; decide)
  rw [DhcpT.flags, ← Nat.zero_add 10, ← Nat.zero_add 11, h₀, h₁]
  rfl

theorem chaddr (h : ReadsDiscovery b mac) : b.chaddr = hardwareOf mac := by
  have hmac : Holds b 28 mac.toList := by
    have hfront : ([dhcpBootrequest, dhcpHardwareType10Ehthernet, 6] ++ List.replicate 25 0).length =
        28 := rfl
    have hheader := h.header
    rw [bootpHeader, List.append_assoc, List.append_assoc] at hheader
    have hrest := (holds_append.mp hheader).2
    rw [hfront, Nat.zero_add] at hrest
    exact (holds_append.mp hrest).1
  have hbyte (i : Fin Dhcp.hardwareAddressLength) : b (28 + i) = mac[i.val] := by
    have hi : i.val < 6 := i.isLt
    rw [hmac i (by rw [length_mac]; omega), Vector.getElem_toList]
  simp only [DhcpT.chaddr, hardwareOf, hbyte]

theorem receivedType (h : ReadsDiscovery b mac) :
    Dhcp.receivedType b = .ok (some Dhcp.dhcpdiscover) := by
  obtain ⟨hg, hv⟩ : Dhcp.getDhcpOption b Dhcp.optionDhcpMessageType = .ok (1, some 2) ∧
      b.options 2 = dhcpOptionDiscover := h.carries.first
  rw [Dhcp.receivedType, if_pos h.opcode, Dhcp.findOption_eq, hg, ok_bind]
  simp only [if_true]
  rw [Dhcp.readByte_eq, Dhcp.derefByte, if_pos (by decide), hv]
  rfl

theorem requestedIp (h : ReadsDiscovery b mac) : Dhcp.requestedIp b t now = .ok none := by
  have hcarries : Dhcp.Carries b ([⟨messageTypeDhcp, [dhcpOptionDiscover]⟩] ++
    ⟨messageTypeReqIp, wordBytes 0xC0A8010A⟩ :: _) := h.carries
  obtain ⟨o, hg, hw⟩ : ∃ o, Dhcp.getDhcpOption b Dhcp.optionRequestedIp = .ok (4, some o) ∧
    Dhcp.derefWord b (some o) = .ok 0xC0A8010A := hcarries.word (by decide) rfl
  rw [Dhcp.requestedIp_eq, Dhcp.checkedWord_of_word hg hw, if_neg]
  intro hp
  exact absurd (Dhcp.checkIpaddr_pos.mp hp).1 (by decide)

end ReadsDiscovery

/-- The server looks for an address of its own choice and answers to everybody. -/
theorem ReadsDiscovery.reaction (h : ReadsDiscovery b mac) (t : LeaseTable) (env : Env) :
    ∃ o, Dhcp.getDhcpOption b Dhcp.optionDhcpMessageType = .ok (1, some o) ∧
      Dhcp.reaction b t env = Dhcp.offered t env (hardwareOf mac) none >>= fun p ↦
        .ok (p.2, some ⟨Dhcp.inaddrBroadcast, Dhcp.replyBytes b Dhcp.dhcpoffer o p.1⟩) := by
  obtain ⟨o, ho, -⟩ := Dhcp.receivedType_ok h.receivedType
  have hdest : Dhcp.replyDest b t env.now = .ok Dhcp.inaddrBroadcast := by
    rw [Dhcp.replyDest, if_pos h.flags, h.requestedIp]
    rfl
  refine ⟨o, ho, ?_⟩
  rw [Dhcp.reaction_discover h.receivedType ho, Dhcp.onDiscover, hdest, ok_bind, Dhcp.answer,
    Dhcp.yourIpAddress_offer_eq, h.requestedIp, ok_bind, h.chaddr]

theorem ReadsDiscovery.answered {datagram : List UInt8} {a : ℤ × UInt32 × LeaseTable}
    (h : ReadsDiscovery (s.received ⟨env, datagram⟩) mac) (pcapLoop : PcapLoop)
    (halloc : Dhcp.allocateIp s.table env env.stale (hardwareOf mac) = .ok a) :
    ∃ s' m, Dhcp.mainLoop s ⟨env, datagram⟩ = .ok (s', some m) ∧ m.dest = Dhcp.inaddrBroadcast ∧
      Offered pcapLoop s.table env.now (hardwareOf mac) m s'.table := by
  obtain ⟨o, ho, hreaction⟩ := h.reaction s.table env
  obtain ⟨r, z, t⟩ := a
  have heffect := Dhcp.mainLoop_effect s ⟨env, datagram⟩
  rw [hreaction, Dhcp.offered, halloc, ok_bind, ok_bind] at heffect
  obtain ⟨s', m, hstep, ht', rfl⟩ : ∃ s' m, Dhcp.mainLoop s ⟨env, datagram⟩ = .ok (s', some m) ∧
      s'.table = t ∧ m = ⟨Dhcp.inaddrBroadcast, Dhcp.replyBytes (s.received ⟨env, datagram⟩)
        Dhcp.dhcpoffer o (if r < 0 then none else some z)⟩ := by
    cases hstep : Dhcp.mainLoop s ⟨env, datagram⟩ with
    | error e =>
      rw [hstep] at heffect
      cases heffect
    | ok p =>
      rw [hstep] at heffect
      obtain ⟨ht', hout⟩ := Prod.mk.inj (Except.ok.inj heffect)
      exact ⟨p.1, _, congrArg Except.ok (Prod.ext rfl hout), ht', rfl⟩
  refine ⟨s', _, hstep, rfl, ?_⟩
  rw [ht']
  have hprinted (y : UInt32) : Printed pcapLoop ⟨Dhcp.inaddrBroadcast,
      Dhcp.replyBytes (s.received ⟨env, datagram⟩) Dhcp.dhcpoffer o (some y)⟩ y := by
    refine ⟨exists_delivers ?_, fun pre capture post hpre hdelivers ↦ ?_⟩
    · have hsize : Dhcp.replySize Dhcp.dhcpoffer
          (Dhcp.leasedAt (s.received ⟨env, datagram⟩) Dhcp.dhcpoffer y o) ≤ 300 :=
        Dhcp.IsReply.replySize_le
      rw [Dhcp.replyBytes, length_read]
      omega
    · exact gotIp_ok.mpr ⟨y, .offer hpre (hdelivers.offers ⟨o, ho, rfl⟩), rfl⟩
  obtain ⟨lease, hl, rfl, rfl, ht⟩ | ⟨hnone, rfl, -, ht, hfull⟩ | ⟨hnone, rfl, hpool, hfree, ht⟩ :=
    Dhcp.allocateIp_cases halloc
  · rw [if_neg (by simp)]
    exact .address (.inl ⟨lease, hl, rfl, ht⟩) (hprinted lease.addr)
  · rw [if_pos (by simp), ht]
    exact .nothing rfl hnone hfull
  · rw [if_neg (by simp)]
    exact .address (.inr ⟨hnone, hpool, hfree, ht⟩) (hprinted _)

/-- The discovery of any client, over any history of the server, is answered to everybody once the
draws have met a free address: with an empty datagram when no address is left, and else with an
address for the client, which it prints. No lease is made for it. -/
theorem discovery_answered {rand : ℕ → ℕ} (h : ServerReachable s) (hrand : Dhcp.Covers rand)
    (pcapLoop : PcapLoop) (o : ByteOrder) (packet : Memory) (mac : MacBytes) (now : ℕ)
    (stale : UInt32) : ∃ frame, dhcpDiscovery o packet mac = .ok frame ∧ ∃ n, ∀ k, n ≤ k →
      ∃ s' m, Dhcp.mainLoop s ⟨⟨now, (List.range k).map rand, stale⟩, frame.drop 42⟩ =
          .ok (s', some m) ∧ m.dest = Dhcp.inaddrBroadcast ∧
        Offered pcapLoop s.table now (hardwareOf mac) m s'.table := by
  refine ⟨discoveryFrame o mac, dhcpDiscovery_eq o packet mac, ?_⟩
  obtain ⟨n, hreturns⟩ := hrand.allocateIp_returns h.valid now stale stale (hardwareOf mac)
  refine ⟨n, fun k hk ↦ ?_⟩
  obtain ⟨a, halloc⟩ := hreturns k hk
  refine ReadsDiscovery.answered ?_ pcapLoop halloc
  rw [discoveryFrame_payload]
  exact reads_discovery s.dhcpRecv mac

theorem discovery_answered_first : ∃ frame,
    dhcpDiscovery .little (fun _ ↦ 0xAA) (Vector.replicate dhcpChaddrLen 2) = .ok frame ∧
    ∃ (k : ℕ) (s' : Server) (m : Sent) (y : UInt32),
      Dhcp.mainLoop Dhcp.dhcpSetup ⟨⟨0, (List.range k).map id, 0⟩, frame.drop 42⟩ =
        .ok (s', some m) ∧ InPool y ∧ Printed .live m y := by
  have hstart : ServerReachable Dhcp.dhcpSetup := .refl
  have hcovers : Dhcp.Covers id := fun r hr ↦ ⟨r, Nat.mod_eq_of_lt hr⟩
  obtain ⟨frame, hsent, n, hanswer⟩ := discovery_answered hstart hcovers .live .little
    (fun _ ↦ 0xAA) (Vector.replicate dhcpChaddrLen 2) 0 0
  obtain ⟨s', m, hstep, -, hoffered⟩ := hanswer n le_rfl
  refine ⟨frame, hsent, n, s', m, ?_⟩
  generalize s'.table = t at hoffered
  cases hoffered with
  | nothing _ _ hfull => exact absurd hfull (by decide)
  | address hallotted hprinted =>
    obtain ⟨lease, hl, -⟩ | ⟨-, hpool, -⟩ := hallotted
    · cases hl
    · exact ⟨_, hstep, hpool, hprinted⟩

end Request

end InternetApplications.SimpleClient
