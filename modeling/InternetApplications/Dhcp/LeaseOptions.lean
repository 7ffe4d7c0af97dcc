import InternetApplications.Dhcp.LeaseSafety

namespace InternetApplications.Dhcp

open ByteMemory TagScan Executions

def Sent.Contains (m : Sent) (tag : UInt8) : Prop :=
  ∃ len o, getDhcpOption m.packet tag = .ok (len, some o)

def leaseTags : List UInt8 :=
  [optionIpAddressLeaseTime, optionIpT1RenewalTime, optionIpT2RebindTime]

def LeaseOptionsFollow (type : UInt8) (m : Sent) : Prop :=
  ∀ tag ∈ leaseTags, m.Contains tag ↔ type ≠ dhcpinform

/-- How many bytes are written before the server looks at the request's message type again. -/
def writtenBefore : ℕ := (encode (identityFields dhcpack ++ networkFields)).length

variable {b : DhcpT} {m : Sent} {state type tag : UInt8} {y : UInt32} {leased : Bool} {o : ℕ}

theorem length_written : (encode (identityFields state ++ networkFields)).length = writtenBefore := rfl

theorem written_ne_inform (hs : state = dhcpoffer ∨ state = dhcpack) :
    ∀ x ∈ encode (identityFields state ++ networkFields), x ≠ dhcpinform := by
  have hall : (encode (identityFields state ++ networkFields)).all fun x ↦ x ≠ dhcpinform := by
    rcases hs with rfl | rfl <;> decide
  exact fun x hx ↦ of_decide_eq_true (List.all_eq_true.mp hall x hx)

theorem mem_leaseTags (h : tag ∈ leaseTags) : tag = optionIpAddressLeaseTime ∨
    tag = optionIpT1RenewalTime ∨ tag = optionIpT2RebindTime := by
  simpa only [leaseTags, List.mem_cons, List.not_mem_nil, or_false] using h

/-- The reply has no byte 8 where the type is overwritten. -/
theorem leasedAt_written (hs : state = dhcpoffer ∨ state = dhcpack) (ho : o < writtenBefore) :
    leasedAt b state y o = true := by
  rw [← (@length_written state)] at ho
  have hwritten : write (replyHeader b y) dhcpFixedNonUdp
      (encode (identityFields state ++ networkFields)) (dhcpFixedNonUdp + o) = _ := write_at ho
  simp only [leasedAt, packed, DhcpT.options, hwritten]
  exact decide_eq_true (written_ne_inform hs _ (List.getElem_mem _))

theorem leasedAt_kept (ho : writtenBefore ≤ o) :
    leasedAt b state y o = decide (b.options o ≠ dhcpinform) := by
  have hkept : DhcpT.options (packed (replyHeader b y) (identityFields state ++ networkFields)).1 o =
      DhcpT.options (replyHeader b y) o := by
    rw [← (@length_written state)] at ho
    exact write_after (Nat.add_le_add_left ho dhcpFixedNonUdp)
  rw [leasedAt, hkept, replyHeader_options]

theorem IsReply.behind (h : IsReply b m state y leased) :
    m.packet.options (encode (replyFields state leased)).length = 0 := by
  have hlen : m.payload.length = replySize state leased := by rw [h, length_read]
  rw [DhcpT.options, Sent.packet, DhcpT.recvfrom_behind]
  · rfl
  · rw [List.length_take, hlen]
    exact Nat.min_le_right _ _

theorem IsReply.contains (h : IsReply b m state y leased) (hs : state = dhcpoffer ∨ state = dhcpack)
    (htag : tag ∈ leaseTags) : m.Contains tag ↔ leased = true := by
  have hcarries : Carries m.packet (replyFields state leased) := (h.reads DhcpT.zero).carries
  cases leased with
  | true =>
    have hfound : ∃ f, (replyFields state true).find? (fun f ↦ f.tag = tag) = some f := by
      apply Option.isSome_iff_exists.mp
      rcases hs with rfl | rfl <;> rcases mem_leaseTags htag with rfl | rfl | rfl <;> decide
    obtain ⟨f, hf⟩ := hfound
    obtain ⟨o, hg, -⟩ := hcarries.lookup hf
    exact iff_of_true ⟨_, o, hg⟩ rfl
  | false =>
    have hne : ∀ f ∈ replyFields state false, f.tag ≠ tag := by
      rcases hs with rfl | rfl <;> rcases mem_leaseTags htag with rfl | rfl | rfl <;> decide
    have hfits := length_replyFields state false
    have habsent := hcarries.absent (by rw [dhcpMaxOptionLen_eq]; omega) h.behind hne
    refine iff_of_false ?_ Bool.false_ne_true
    rintro ⟨len, o, hg⟩
    cases habsent.symm.trans hg

theorem Answers.follows_iff (h : Answers b m state y) (hs : state = dhcpoffer ∨ state = dhcpack)
    (ho : getDhcpOption b optionDhcpMessageType = .ok (1, some o)) (hx : b.options o = type) :
    LeaseOptionsFollow type m ↔ type ≠ dhcpinform ∨ writtenBefore ≤ o := by
  obtain ⟨o', ho', hr⟩ := h
  cases ho.symm.trans ho'
  have hcontains : LeaseOptionsFollow type m ↔ (leasedAt b state y o = true ↔ type ≠ dhcpinform) := by
    constructor
    · intro hall
      rw [← hr.contains hs (show optionIpAddressLeaseTime ∈ leaseTags by decide)]
      exact hall _ (by decide)
    · intro hiff tag htag
      rw [hr.contains hs htag]
      exact hiff
  rw [hcontains]
  rcases Nat.lt_or_ge o writtenBefore with hlt | hge
  · rw [leasedAt_written hs hlt]
    simp [Nat.not_le.mpr hlt]
  · rw [leasedAt_kept hge, hx]
    simp [hge]

theorem Handled.answers {s : Server} {i : Input} {t : LeaseTable} (h : Handled s i t (some m)) :
    m.payload = [] ∨ ∃ state y, Answers (s.received i) m state y := by
  cases h with
  | offerRequested _ _ ha | offerAllocated _ _ _ ha | ackSelected _ _ _ _ _ ha
  | ackRenewed _ _ _ _ ha | nak _ _ ha | informSelected _ _ _ _ ha | informKnown _ _ _ ha =>
    exact .inr ⟨_, _, ha⟩
  | offerNone _ _ _ hempty => exact .inl hempty

/-- An `OFFER` or `ACK` carries the lease times exactly when its request is no `DHCPINFORM`, except
for an inform whose message type stands where the reply is already written. -/
theorem lease_options_follow_iff {s s' : Server} {i : Input} (h : mainLoop s i = .ok (s', some m))
    (htype : receivedType (s.received i) = .ok (some type))
    (hm : m.messageType = some dhcpoffer ∨ m.messageType = some dhcpack) :
    LeaseOptionsFollow type m ↔ type ≠ dhcpinform ∨
      ∃ o, getDhcpOption (s.received i) optionDhcpMessageType = .ok (1, some o) ∧
        writtenBefore ≤ o := by
  obtain ⟨o, ho, hx⟩ := receivedType_ok htype
  have hplace : (∃ o, getDhcpOption (s.received i) optionDhcpMessageType = .ok (1, some o) ∧
      writtenBefore ≤ o) ↔ writtenBefore ≤ o := by
    constructor
    · rintro ⟨o', ho', hle⟩
      cases ho.symm.trans ho'
      exact hle
    · intro hle
      exact ⟨o, ho, hle⟩
  rw [hplace]
  rcases (mainLoop_handled h).answers with hempty | ⟨state, y, ha⟩
  · rw [messageType_empty hempty] at hm
    rcases hm with hm | hm <;> cases hm
  · obtain ⟨o', ho', hr⟩ := ha
    rw [hr.messageType] at hm
    have hs : state = dhcpoffer ∨ state = dhcpack := hm.imp Option.some.inj Option.some.inj
    exact Answers.follows_iff ⟨o', ho', hr⟩ hs ho hx

section Informs

def informingLate (mac : Mac) (requested : UInt32) : List UInt8 :=
  bootpRequest mac inaddrAny [⟨optionVendorClassIdentifier, List.replicate 40 7⟩,
    ⟨optionRequestedIp, wordBytes requested⟩, ⟨optionDhcpMessageType, [dhcpinform]⟩, endField]

theorem lease_options_follow_late : ∃ (s' : Server) (m : Sent),
    mainLoop dhcpSetup ⟨⟨0, [], 0⟩, informingLate clientA 0xC0A80002⟩ = .ok (s', some m) ∧
      m.messageType = some dhcpack ∧ LeaseOptionsFollow dhcpinform m := by
  obtain ⟨⟨s', out⟩, hstep, hout⟩ := exists_ok
    (mainLoop dhcpSetup ⟨⟨0, [], 0⟩, informingLate clientA 0xC0A80002⟩)
    (fun r ↦ r.2.any fun m ↦ m.messageType = some dhcpack) (by decide +kernel)
  obtain ⟨m, rfl, hm⟩ := (Option.any_eq_true _ _).mp hout
  have htype := of_decide_eq_true hm
  refine ⟨s', m, hstep, htype, ?_⟩
  apply (lease_options_follow_iff hstep (by decide +kernel) (.inr htype)).mpr
  exact .inr ⟨50, by decide +kernel, by decide⟩

/-- The message type of an inform comes first, as in the client's own packets, and the `ACK` carries
the lease times. -/
theorem inform_answered_with_lease : ∃ (s' : Server) (m : Sent),
    mainLoop dhcpSetup ⟨⟨0, [], 0⟩, informing clientA 0xC0A80002⟩ = .ok (s', some m) ∧
      receivedType (dhcpSetup.received ⟨⟨0, [], 0⟩, informing clientA 0xC0A80002⟩) =
        .ok (some dhcpinform) ∧
      m.messageType = some dhcpack ∧ m.Contains optionIpAddressLeaseTime ∧
      ¬LeaseOptionsFollow dhcpinform m := by
  obtain ⟨⟨s', out⟩, hstep, hout⟩ := exists_ok
    (mainLoop dhcpSetup ⟨⟨0, [], 0⟩, informing clientA 0xC0A80002⟩)
    (fun r ↦ r.2.any fun m ↦ m.messageType = some dhcpack ∧
      getDhcpOption m.packet optionIpAddressLeaseTime = .ok (4, some 41)) (by decide +kernel)
  obtain ⟨m, rfl, hm⟩ := (Option.any_eq_true _ _).mp hout
  obtain ⟨hack, hlease⟩ := of_decide_eq_true hm
  refine ⟨s', m, hstep, by decide +kernel, hack, ⟨_, _, hlease⟩, ?_⟩
  intro hfollow
  exact (hfollow optionIpAddressLeaseTime (by decide)).mp ⟨_, _, hlease⟩ rfl

end Informs

end InternetApplications.Dhcp
