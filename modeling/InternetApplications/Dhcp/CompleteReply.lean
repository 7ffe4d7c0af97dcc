import InternetApplications.Dhcp.Availability
import InternetApplications.Dhcp.Commitment

namespace InternetApplications.Dhcp

open ByteMemory TagScan Executions LeaseTable Client

/-- The datagram is a whole reply to the other one: the header has its transaction and client, and
the options can be walked to their end, with a message type and this server on the way. -/
structure Complete (datagram : List UInt8) (m : Sent) : Prop where
  header : dhcpFixedNonUdp ≤ m.payload.length
  opcode : m.payload[0]? = some bootpMessageTypeReply
  xid : (m.payload.drop 4).take 4 = (datagram.drop 4).take 4
  chaddr : (m.payload.drop 28).take 16 = (datagram.drop 28).take 16
  options : ∃ (fields : List Field) (rest : List UInt8),
    m.payload.drop dhcpFixedNonUdp = encode fields ++ optionEnd :: rest ∧
    (∀ f ∈ fields, f.WellFormed ∧ f.tag ≠ optionEnd) ∧
    (∃ state, (state = dhcpoffer ∨ state = dhcpack ∨ state = dhcpnak) ∧
      fields.find? (fun f ↦ f.tag = optionDhcpMessageType) = some ⟨optionDhcpMessageType, [state]⟩) ∧
    fields.find? (fun f ↦ f.tag = optionDhcpServerIdentifier) =
      some ⟨optionDhcpServerIdentifier, wordBytes dhcpServerIpAddress⟩

section Payload

variable {b p : DhcpT} {m : Sent} {state : UInt8} {y : UInt32} {leased : Bool} {datagram : List UInt8}
  {i o n : ℕ}

theorem replyPacket_header (hi : i < dhcpFixedNonUdp) (hzero : i ≠ 0)
    (hyiaddr : i < 16 ∨ 20 ≤ i) (hgiaddr : i < 24 ∨ 28 ≤ i) :
    replyPacket b state y leased i = b i := by
  rw [replyPacket, write_before hi, replyHeader, write_outside (by simp; omega),
    write_outside (by simp; omega), write_after (by simp; omega)]

theorem IsReply.getElem? (h : IsReply b m state y leased) (hi : i < dhcpFixedNonUdp) :
    m.payload[i]? = some (replyPacket b state y leased i) := by
  have hlen : i < m.payload.length := by
    rw [h, length_read, replySize]
    omega
  rw [List.getElem?_eq_getElem hlen, getElem_of_eq_read h, Nat.zero_add]

theorem recvfrom_getElem? (hi : i < datagram.length) (hs : i < sizeofDhcpT) :
    datagram[i]? = some (p.recvfrom datagram i) := by
  rw [DhcpT.recvfrom_at (by rw [List.length_take]; omega), List.getElem_take,
    List.getElem?_eq_getElem hi]

theorem IsReply.keeps (h : IsReply (p.recvfrom datagram) m state y leased)
    (hlen : dhcpFixedNonUdp ≤ datagram.length) (hn : o + n ≤ dhcpFixedNonUdp) (hzero : 0 < o)
    (hyiaddr : o + n ≤ 16 ∨ 20 ≤ o) (hgiaddr : o + n ≤ 24 ∨ 28 ≤ o) :
    (m.payload.drop o).take n = (datagram.drop o).take n := by
  apply List.ext_getElem?
  intro i
  rw [List.getElem?_take, List.getElem?_take]
  split
  · rename_i hi
    have hfixed : dhcpFixedNonUdp < sizeofDhcpT := by decide
    rw [List.getElem?_drop, List.getElem?_drop, h.getElem? (by omega),
      recvfrom_getElem? (p := p) (by omega) (by omega),
      replyPacket_header (by omega) (by omega) (by omega) (by omega)]
  · rfl

theorem IsReply.drop (h : IsReply b m state y leased) :
    m.payload.drop dhcpFixedNonUdp = encode (replyFields state leased) := by
  have hlen : (m.payload.drop dhcpFixedNonUdp).length = (encode (replyFields state leased)).length := by
    rw [List.length_drop, h, length_read, replySize]
    omega
  refine List.ext_getElem hlen ?_
  intro i hi hi'
  rw [List.getElem_drop, getElem_of_eq_read h, Nat.zero_add, replyPacket, write_at hi']

def openFields (state : UInt8) (leased : Bool) : List Field :=
  identityFields state ++ if state = dhcpnak then [] else
    networkFields ++ if leased then leaseFields else []

theorem openFields_ne_end : ∀ f ∈ openFields state leased, f.tag ≠ optionEnd := by
  have hid : ∀ f ∈ identityFields state, f.tag ≠ optionEnd := by
    intro f hf
    simp only [identityFields, List.mem_cons, List.not_mem_nil, or_false] at hf
    rcases hf with rfl | rfl | rfl
    · exact show optionDhcpMessageType ≠ optionEnd by decide
    · decide
    · decide
  intro f hf
  rw [openFields, List.mem_append] at hf
  rcases hf with hf | hf
  · exact hid f hf
  · split at hf
    · cases hf
    · revert f
      cases leased <;> decide

theorem Answers.complete (h : Answers (p.recvfrom datagram) m state y)
    (hlen : dhcpFixedNonUdp ≤ datagram.length)
    (hstate : state = dhcpoffer ∨ state = dhcpack ∨ state = dhcpnak) : Complete datagram m := by
  obtain ⟨o, -, h⟩ := h
  generalize leasedAt (p.recvfrom datagram) state y o = leased at h
  have hfixed : dhcpFixedNonUdp = 240 := rfl
  constructor
  · rw [h, length_read]
    exact Nat.le_add_right _ _
  · rw [h.getElem? (by omega), replyPacket, write_before (by omega), replyHeader,
      write_before (by omega), write_before (by omega)]
    rfl
  · exact h.keeps hlen (by omega) (by omega) (by omega) (by omega)
  · exact h.keeps hlen (by omega) (by omega) (by omega) (by omega)
  · refine ⟨openFields state leased, [1, 0], ?_, ?_, ⟨state, hstate, rfl⟩, rfl⟩
    · rw [h.drop, replyFields, openFields, encode_append]
      rfl
    · intro f hf
      exact ⟨replyFields_wellFormed f (List.mem_append_left _ hf), openFields_ne_end f hf⟩

theorem not_complete_empty (h : m.payload = []) : ¬Complete datagram m := by
  intro hcomplete
  have hopcode := hcomplete.opcode
  rw [h] at hopcode
  cases hopcode

end Payload

/-- The address of the reply is to come from `allocate_ip`. -/
inductive Allocates (s : Server) (i : Input) : Prop
  | discover :
      receivedType (s.received i) = .ok (some dhcpdiscover) →
      requestedIp (s.received i) s.table i.env.now = .ok none → Allocates s i
  | request :
      receivedType (s.received i) = .ok (some dhcprequest) →
      optionWord (s.received i) optionDhcpServerIdentifier = some dhcpServerIpAddress →
      (s.received i).ciaddr ≠ inaddrAny →
      0 < checkIpaddr s.table i.env.now (s.received i).ciaddr (s.received i).chaddr → Allocates s i
  | inform :
      receivedType (s.received i) = .ok (some dhcpinform) →
      (s.received i).ciaddr ≠ inaddrAny → Allocates s i

def Unavailable (s : Server) (i : Input) : Prop :=
  Allocates s i ∧
    ∃ y t, allocateIp s.table i.env i.env.stale (s.received i).chaddr = .ok (-1, y, t)

structure Exhausted (s : Server) (i : Input) : Prop where
  allocates : Allocates s i
  unknown : s.table.firstOf (s.received i).chaddr = none
  full : (ipAddressPoolAmount : ℤ) ≤ s.table.numOfLease

def SendsComplete (s : Server) (i : Input) (out : Option Sent) : Prop :=
  (∀ m, out = some m → Complete i.datagram m) ∧ (Unavailable s i → out = none)

section Steps

variable {s s' : Server} {i : Input} {t : LeaseTable} {out : Option Sent}

theorem unavailable_iff : Unavailable s i ↔ Exhausted s i := by
  constructor
  · rintro ⟨hallocates, y, t, halloc⟩
    obtain ⟨_, _, hr, _⟩ | ⟨hnone, _, _, _, hfull⟩ | ⟨_, hr, _⟩ := allocateIp_cases halloc
    · cases hr
    · exact ⟨hallocates, hnone, hfull⟩
    · cases hr
  · intro h
    exact ⟨h.allocates, (allocateIp_exhausted_iff h.unknown i.env i.env.stale).mpr h.full⟩

theorem Allocates.answered (h : Allocates s i) (hstep : Handled s i t out) : out ≠ none := by
  cases hstep with
  | silent hignored =>
    exfalso
    cases h with
    | discover htype => exact (hignored _ htype).1 rfl
    | request htype hself => exact (hignored _ htype).2.2 (.inl rfl) hself
    | inform htype => exact (hignored _ htype).2.1 rfl
  | released htype =>
    exfalso
    cases h with
    | discover htype' | request htype' | inform htype' => cases htype.symm.trans htype'
  | _ => exact Option.some_ne_none _

theorem Discovered.complete (htype : receivedType (s.received i) = .ok (some dhcpdiscover))
    (hlen : dhcpFixedNonUdp ≤ i.datagram.length) (hno : ¬Exhausted s i)
    (h : Discovered s i t out) : ∀ m, out = some m → Complete i.datagram m := by
  cases h with
  | requested _ ha | allocated _ _ _ ha =>
    rintro m ⟨⟩
    exact ha.complete hlen (.inl rfl)
  | exhausted hreq halloc hr =>
    obtain ⟨_, _, rfl, _⟩ | ⟨hnone, _, _, _, hfull⟩ | ⟨_, rfl, _⟩ := allocateIp_cases halloc
    · exact absurd hr (by decide)
    · exact absurd ⟨.discover htype hreq, hnone, hfull⟩ hno
    · exact absurd hr (by decide)

theorem Handled.complete (hlen : dhcpFixedNonUdp ≤ i.datagram.length)
    (hno : receivedType (s.received i) ≠ .ok (some dhcpdiscover)) (h : Handled s i t out) :
    ∀ m, out = some m → Complete i.datagram m := by
  cases h with
  | silent | released =>
    intro m hm
    cases hm
  | offerRequested h | offerAllocated h | offerNone h => exact absurd h hno
  | ackSelected _ _ _ _ _ ha | ackRenewed _ _ _ _ ha | informSelected _ _ _ _ ha
  | informKnown _ _ _ ha =>
    rintro m ⟨⟩
    exact ha.complete hlen (.inr (.inl rfl))
  | nak _ _ ha =>
    rintro m ⟨⟩
    exact ha.complete hlen (.inr (.inr rfl))

/-- Only complete replies are sent exactly when the address does not have to come from a pool that
is used up, to a client without a lease. -/
theorem complete_replies_iff (hlen : dhcpFixedNonUdp ≤ i.datagram.length)
    (h : mainLoop s i = .ok (s', out)) : SendsComplete s i out ↔ ¬Exhausted s i := by
  constructor
  · intro hsends hexhausted
    exact hexhausted.allocates.answered (mainLoop_handled h)
      (hsends.2 (unavailable_iff.mpr hexhausted))
  · intro hno
    refine ⟨?_, fun hnone ↦ absurd (unavailable_iff.mp hnone) hno⟩
    by_cases htype : receivedType (s.received i) = .ok (some dhcpdiscover)
    · exact (mainLoop_discovered htype h).complete htype hlen hno
    · exact (mainLoop_handled h).complete hlen htype

theorem complete_replies_iff_first : ∃ (s' : Server) (m : Sent),
    mainLoop dhcpSetup ⟨⟨5, [7], 0⟩, discovering clientA 0⟩ = .ok (s', some m) ∧
      SendsComplete dhcpSetup ⟨⟨5, [7], 0⟩, discovering clientA 0⟩ (some m) := by
  obtain ⟨⟨s', out⟩, hstep, hout⟩ := exists_ok
    (mainLoop dhcpSetup ⟨⟨5, [7], 0⟩, discovering clientA 0⟩) (fun r ↦ r.2.isSome)
    (by decide +kernel)
  obtain ⟨m, rfl⟩ := Option.isSome_iff_exists.mp hout
  have hcomplete := (complete_replies_iff (by decide +kernel) hstep).mpr fun hexhausted ↦
    absurd hexhausted.full (by decide)
  exact ⟨s', m, hstep, hcomplete⟩

theorem constructDhcpPacket_exhausted
    (hreq : requestedIp s.dhcpRecv s.table i.env.now = .ok none)
    (hm : s.table.firstOf s.dhcpRecv.chaddr = none)
    (hn : (ipAddressPoolAmount : ℤ) ≤ s.table.numOfLease) :
    ∃ s', constructDhcpPacket s i.env dhcpoffer = .ok (s', 0) := by
  obtain ⟨y, t, halloc⟩ := (allocateIp_exhausted_iff hm i.env i.env.stale).mpr hn
  have hy : yourIpAddress s.dhcpRecv s.table i.env dhcpoffer = .ok (none, t) := by
    rw [yourIpAddress, if_neg (by decide), if_pos rfl, hreq, ok_bind]
    simp only
    rw [Tracing.lift_except, halloc, ok_bind]
    rfl
  obtain ⟨s', hc, -⟩ := constructDhcpPacket_none hy
  exact ⟨s', hc⟩

/-- When the whole pool has been leased, a new client's discover is answered by an empty datagram. -/
theorem empty_reply : ∃ (s s' : Server) (i : Input) (m : Sent), ServerReachable s ∧
    dhcpFixedNonUdp ≤ i.datagram.length ∧ mainLoop s i = .ok (s', some m) ∧
    m.payload = [] ∧ ¬Complete i.datagram m := by
  obtain ⟨s, hs, ht⟩ := exists_filled le_rfl
  obtain ⟨c, datagram, hyiaddr, -, hlen, hread⟩ :=
    exists_request s ⟨0, [], 0⟩ clientA inaddrAny inaddrAny dhcpdiscover
  obtain ⟨o, hg, hx⟩ := hread.requested rfl
  have hreq : requestedIp (s.received ⟨⟨0, [], 0⟩, datagram⟩) s.table 0 = .ok none := by
    rw [requestedIp_eq, checkedWord_of_word hg hx, hyiaddr,
      if_neg (fun hp ↦ absurd (checkIpaddr_pos.mp hp).1 (by decide))]
  have hm : s.table.firstOf (s.received ⟨⟨0, [], 0⟩, datagram⟩).chaddr = none := by
    rw [hread.chaddr, ht]
    decide +kernel
  have hflags : (s.received ⟨⟨0, [], 0⟩, datagram⟩).flags ≠ bootpFlagsUnicast := by
    rw [hread.flags]
    decide
  obtain ⟨s', hc⟩ := constructDhcpPacket_exhausted (s := s.ready ⟨⟨0, [], 0⟩, datagram⟩)
    (i := ⟨⟨0, [], 0⟩, datagram⟩) hreq hm (by
      show (ipAddressPoolAmount : ℤ) ≤ s.table.numOfLease
      rw [ht]
      exact Int.le_refl _)
  refine ⟨s, s', ⟨⟨0, [], 0⟩, datagram⟩, s'.sendto 0, hs, hlen, ?_, rfl, not_complete_empty rfl⟩
  have hunicast : ((s.ready ⟨⟨0, [], 0⟩, datagram⟩).changeSocketSetup inaddrAny
      inaddrBroadcast).unicastSetup ⟨0, [], 0⟩ = .ok (s.ready ⟨⟨0, [], 0⟩, datagram⟩) :=
    if_neg hflags
  rw [mainLoop_discover hread.receivedType, Server.dhcpHandleDiscover]
  simp only
  rw [hunicast, ok_bind, hc]
  rfl

end Steps

end InternetApplications.Dhcp
