import InternetApplications.Dhcp.ServerRuns

namespace InternetApplications.Dhcp

open ByteMemory TagScan KeyedList Executions LeaseTable

section Replies

variable {b : DhcpT} {m : Sent} {state : UInt8} {y : UInt32}

theorem Answers.messageType (h : Answers b m state y) : m.messageType = some state := by
  obtain ⟨o, -, hr⟩ := h
  exact hr.messageType

theorem Answers.yiaddr (h : Answers b m state y) : m.packet.yiaddr = y := by
  obtain ⟨o, -, hr⟩ := h
  exact (hr.reads DhcpT.zero).yiaddr

theorem messageType_empty (h : m.payload = []) : m.messageType = none := by
  have hp : m.packet = DhcpT.zero := by
    rw [Sent.packet, h]
    exact write_nil
  rw [Sent.messageType, hp]
  decide +kernel

theorem IsReply.payload_ne {leased : Bool} (h : IsReply b m state y leased) : m.payload ≠ [] := by
  intro hempty
  have htype := h.messageType
  rw [messageType_empty hempty] at htype
  cases htype

theorem Answers.payload_ne (h : Answers b m state y) : m.payload ≠ [] := by
  obtain ⟨o, -, hr⟩ := h
  exact hr.payload_ne

end Replies

section Tables

variable {t t' : LeaseTable} {env : Env} {now : ℕ} {stale x y : UInt32} {m : Mac} {r : ℤ}
  {lease : LeaseT}

theorem allocateIp_keeps (hm : lease.chaddr ≠ m) (hl : lease ∈ t.leases)
    (h : allocateIp t env stale m = .ok (r, y, t')) : lease ∈ t'.leases := by
  obtain ⟨_, _, _, _, rfl⟩ | ⟨_, _, _, rfl, _⟩ | ⟨_, _, _, _, rfl⟩ := allocateIp_cases h
  · exact mem_touch_of_not hl (by simpa using hm)
  · exact hl
  · exact hl

theorem addLease_keeps (hx : lease.addr ≠ x) (hl : lease ∈ t.leases)
    (h : addLease t now x m = .ok t') : lease ∈ t'.leases := by
  obtain ⟨_, _, rfl⟩ | ⟨_, rfl, _⟩ := addLease_cases h
  · exact mem_touch_of_not hl (by simpa using hx)
  · exact List.mem_append_left _ hl

theorem deleteLease_keeps (hd : lease.addr = x → lease.chaddr ≠ m) (hl : lease ∈ t.leases)
    (h : deleteLease t x m = .ok t') : lease ∈ t'.leases := by
  obtain ⟨_, _, rfl⟩ | ⟨_, rfl⟩ := deleteLease_cases h
  · exact (List.mem_eraseP_of_neg (by simpa using hd)).mpr hl
  · exact hl

theorem checkIpaddr_live (ht : t.Valid) (hl : lease ∈ t.leases) (hlive : lease.Live now)
    (hm : m ≠ lease.chaddr) (hp : 0 < checkIpaddr t now x m) : lease.addr ≠ x := by
  rintro rfl
  exact hm ((checkIpaddr_pos.mp hp).2 lease (lookup_mem ht hl) hlive).symm

theorem allocateIp_other (ht : t.Valid) (hl : lease ∈ t.leases) (hm : m ≠ lease.chaddr)
    (hr : ¬r < 0) (h : allocateIp t env stale m = .ok (r, y, t')) : y ≠ lease.addr := by
  obtain ⟨own, hown, -, rfl, -⟩ | ⟨-, rfl, -⟩ | ⟨-, -, -, hfree, -⟩ := allocateIp_cases h
  · obtain ⟨hmem, rfl⟩ := firstOf_some hown
    exact fun he ↦ hm (congrArg LeaseT.chaddr (ht.distinct.eq_of_key hmem hl he))
  · exact absurd (by decide) hr
  · rintro rfl
    rw [lookup_mem ht hl] at hfree
    cases hfree

end Tables

/-- No other client's datagram, informs apart, touches a live lease or is
answered with its address. -/
theorem live_lease_isolated {s s' : Server} {i : Input} {out : Option Sent} {lease : LeaseT}
    (h : ServerReachable s) (hl : lease ∈ s.table.leases) (hlive : lease.Live i.env.now)
    (hm : (s.received i).chaddr ≠ lease.chaddr)
    (htype : receivedType (s.received i) ≠ .ok (some dhcpinform))
    (hstep : mainLoop s i = .ok (s', out)) :
    lease ∈ s'.table.leases ∧
    ∀ sent, out = some sent →
      sent.messageType = some dhcpoffer ∨
        (sent.messageType = some dhcpack ∧ (s.received i).ciaddr = inaddrAny) →
      sent.packet.yiaddr ≠ lease.addr := by
  have ht := h.valid
  have hhandled := mainLoop_handled hstep
  generalize s'.table = t at hhandled ⊢
  cases hhandled with
  | silent => exact ⟨hl, fun _ hout ↦ by cases hout⟩
  | offerRequested _ hp ha =>
    refine ⟨hl, fun sent hout _ ↦ ?_⟩
    cases hout
    rw [ha.yiaddr]
    exact (checkIpaddr_live ht hl hlive hm hp).symm
  | offerAllocated _ halloc hr ha =>
    refine ⟨allocateIp_keeps hm.symm hl halloc, fun sent hout _ ↦ ?_⟩
    cases hout
    rw [ha.yiaddr]
    exact allocateIp_other ht hl hm hr halloc
  | offerNone _ halloc _ he =>
    refine ⟨allocateIp_keeps hm.symm hl halloc, fun sent hout hkind ↦ ?_⟩
    cases hout
    rw [messageType_empty he] at hkind
    simp at hkind
  | ackSelected _ _ _ hp hadd ha =>
    have hx := checkIpaddr_live ht hl hlive hm hp
    refine ⟨addLease_keeps hx hl hadd, fun sent hout _ ↦ ?_⟩
    cases hout
    rw [ha.yiaddr]
    exact hx.symm
  | ackRenewed _ hc _ halloc ha =>
    refine ⟨allocateIp_keeps hm.symm hl halloc, fun sent hout hkind ↦ ?_⟩
    cases hout
    rw [ha.messageType] at hkind
    rcases hkind with hkind | hkind
    · exact absurd hkind (by decide)
    · exact absurd hkind.2 hc
  | nak _ _ ha =>
    refine ⟨hl, fun sent hout hkind ↦ ?_⟩
    cases hout
    rw [ha.messageType] at hkind
    rcases hkind with hkind | hkind
    · exact absurd hkind (by decide)
    · exact absurd hkind.1 (by decide)
  | released _ _ hd =>
    exact ⟨deleteLease_keeps (fun _ ↦ hm.symm) hl hd, fun _ hout ↦ by cases hout⟩
  | informSelected hinform | informKnown hinform => exact absurd hinform htype

theorem live_lease_isolated_refused : ∃ s s' : Server, ∃ out : Option Sent,
    mainLoop s ⟨⟨1, [], 0⟩, selectingRequest clientB 0 0xC0A80002⟩ = .ok (s', out) ∧
      (⟨0, 0xC0A80002, clientA⟩ : LeaseT) ∈ s'.table.leases := by
  obtain ⟨trace, s, hrun, hs⟩ := exists_execution mainLoop dhcpSetup
    [⟨⟨0, [], 0⟩, selectingRequest clientA 0 0xC0A80002⟩]
    (fun _ s ↦ s.table.leases = [⟨0, 0xC0A80002, clientA⟩] ∧
      (Except.toOption (mainLoop s ⟨⟨1, [], 0⟩, selectingRequest clientB 0 0xC0A80002⟩)).any (fun _ ↦ true) ∧
      (s.received ⟨⟨1, [], 0⟩, selectingRequest clientB 0 0xC0A80002⟩).chaddr = clientB ∧
      receivedType (s.received ⟨⟨1, [], 0⟩, selectingRequest clientB 0 0xC0A80002⟩) =
        .ok (some dhcprequest)) (by decide +kernel)
  obtain ⟨hleases, hsome, hmac, htype⟩ := of_decide_eq_true hs
  obtain ⟨r, hstep, -⟩ := exists_ok _ _ hsome
  refine ⟨s, r.1, r.2, hstep, (live_lease_isolated ⟨trace, hrun⟩ (by simp [hleases])
    (by decide) ?_ ?_ hstep).1⟩
  · rw [hmac]
    decide
  · rw [htype]
    decide

def requestedAddress (b : DhcpT) : Option UInt32 :=
  if b.ciaddr = inaddrAny then requestedOption b else some b.ciaddr

theorem Handled.of_ack {s : Server} {i : Input} {t : LeaseTable} {sent : Sent}
    (h : Handled s i t (some sent))
    (htype : receivedType (s.received i) = .ok (some dhcprequest)) (hack : sent.IsAck) :
    ((s.received i).ciaddr = inaddrAny ∧ ∃ x, requestedOption (s.received i) = some x ∧
      0 < checkIpaddr s.table i.env.now x (s.received i).chaddr ∧
      addLease s.table i.env.now x (s.received i).chaddr = .ok t ∧
      sent.packet.yiaddr = x) ∨
    ((s.received i).ciaddr ≠ inaddrAny ∧
      0 < checkIpaddr s.table i.env.now (s.received i).ciaddr (s.received i).chaddr ∧
      ∃ r y, allocateIp s.table i.env i.env.stale (s.received i).chaddr = .ok (r, y, t) ∧
        sent.packet.yiaddr = y) := by
  cases h with
  | offerRequested h | offerAllocated h | offerNone h | informSelected h | informKnown h =>
    exact absurd (htype.symm.trans h) (by decide)
  | ackSelected _ hc hx hp hadd ha => exact .inl ⟨hc, _, hx, hp, hadd, ha.yiaddr⟩
  | ackRenewed _ hc hp halloc ha => exact .inr ⟨hc, hp, _, _, halloc, ha.yiaddr⟩
  | nak _ _ ha =>
    rw [Sent.IsAck, ha.messageType] at hack
    exact absurd hack (by decide)

/-- The list entry for the address, if any, belongs to the client that asks for it; when
it asks by its own address, that entry is the first one it has. -/
def RecordsGrant (t : LeaseTable) (b : DhcpT) (x : UInt32) : Prop :=
  if b.ciaddr = inaddrAny then ∀ lease, t.lookup x = some lease → lease.chaddr = b.chaddr
  else ∃ lease, t.firstOf b.chaddr = some lease ∧ lease.addr = x

section Record

variable {t t' : LeaseTable} {env : Env} {now : ℕ} {stale x y : UInt32} {m : Mac} {r : ℤ}

def OnRecord (t : LeaseTable) (x : UInt32) (m : Mac) (now : ℕ) : Prop :=
  ∃ lease ∈ t.leases, lease.addr = x ∧ lease.chaddr = m ∧ lease.timeStamp = now

theorem onRecord_iff (ht : t.Valid) : OnRecord t x m now ↔ t.lookup x = some ⟨now, x, m⟩ := by
  constructor
  · rintro ⟨lease, hl, rfl, rfl, rfl⟩
    exact lookup_mem ht hl
  · intro h
    exact ⟨_, (lookup_some h).1, rfl, rfl, rfl⟩

theorem addLease_onRecord (ht : t.Valid) (h : addLease t now x m = .ok t') :
    OnRecord t' x m now ↔ ∀ lease, t.lookup x = some lease → lease.chaddr = m := by
  rw [onRecord_iff (addLease_valid ht h)]
  obtain ⟨lease, hl, rfl⟩ | ⟨hl, rfl, -⟩ := addLease_cases h
  · have haddr := (lookup_some hl).2
    rw [lookup_stampAddr ht hl, if_pos rfl]
    simp [hl, LeaseT.stamped, haddr]
  · rw [lookup_append hl, if_pos rfl]
    simp [hl]

theorem allocateIp_onRecord (h : allocateIp t env stale m = .ok (r, y, t')) :
    y = x ∧ OnRecord t' x m env.now ↔ ∃ lease, t.firstOf m = some lease ∧ lease.addr = x := by
  have hnone {u : LeaseTable} (hf : u.firstOf m = none) : ¬OnRecord u x m env.now := by
    rintro ⟨lease, hl, -, hm, -⟩
    exact firstOf_none hf hl hm
  obtain ⟨lease, hl, -, rfl, rfl⟩ | ⟨hf, -, -, rfl, -⟩ | ⟨hf, -, -, -, rfl⟩ := allocateIp_cases h
  · constructor
    · rintro ⟨hy, -⟩
      exact ⟨lease, hl, hy⟩
    · rintro ⟨lease', hl', rfl⟩
      cases hl.symm.trans hl'
      exact ⟨rfl, _, mem_touch_found hl, rfl, (firstOf_some hl).2, rfl⟩
  · simp [hf, hnone hf]
  · simp [hf, hnone hf]

end Record

/-- An acknowledgement gives what was asked for and is on record exactly when no other
client's lease, or no other lease of the client, comes in between. -/
theorem ack_on_record_iff {s s' : Server} {i : Input} {sent : Sent} {x : UInt32}
    (h : ServerReachable s) (hstep : mainLoop s i = .ok (s', some sent))
    (htype : receivedType (s.received i) = .ok (some dhcprequest)) (hack : sent.IsAck)
    (hx : requestedAddress (s.received i) = some x) :
    (sent.packet.yiaddr = x ∧ OnRecord s'.table x (s.received i).chaddr i.env.now) ↔
      RecordsGrant s.table (s.received i) x := by
  rcases (mainLoop_handled hstep).of_ack htype hack with
    ⟨hc, y, hy, -, hadd, hyi⟩ | ⟨hc, -, r, y, halloc, hyi⟩
  · rw [requestedAddress, if_pos hc, hy] at hx
    cases hx
    rw [hyi, RecordsGrant, if_pos hc, addLease_onRecord h.valid hadd]
    simp
  · rw [hyi, RecordsGrant, if_neg hc]
    exact allocateIp_onRecord halloc

theorem ack_on_record_iff_first : ∃ s' : Server, ∃ sent : Sent,
    mainLoop dhcpSetup ⟨⟨7, [], 0⟩, selectingRequest clientA 0 0xC0A80009⟩ = .ok (s', some sent) ∧
      OnRecord s'.table 0xC0A80009 clientA 7 := by
  obtain ⟨⟨s', out⟩, hstep, hr⟩ := exists_ok
    (mainLoop dhcpSetup ⟨⟨7, [], 0⟩, selectingRequest clientA 0 0xC0A80009⟩)
    (fun r ↦ r.2.any fun sent ↦ sent.messageType = some dhcpack) (by decide +kernel)
  cases out with
  | none => cases hr
  | some sent =>
    have hmac : (dhcpSetup.received ⟨⟨7, [], 0⟩,
        selectingRequest clientA 0 0xC0A80009⟩).chaddr = clientA := by decide +kernel
    have hc : (dhcpSetup.received ⟨⟨7, [], 0⟩,
        selectingRequest clientA 0 0xC0A80009⟩).ciaddr = inaddrAny := by decide +kernel
    have hack : sent.messageType = some dhcpack := by simpa using hr
    have hx : requestedAddress (dhcpSetup.received ⟨⟨7, [], 0⟩,
        selectingRequest clientA 0 0xC0A80009⟩) = some 0xC0A80009 := by decide +kernel
    have hrecord := (ack_on_record_iff .refl hstep (by decide +kernel) hack hx).mpr (by
      rw [RecordsGrant, if_pos hc]
      exact fun lease hl ↦ by cases hl)
    exact ⟨s', sent, hstep, hmac ▸ hrecord.2⟩

/-- A client without any lease renews 192.168.0.9: it is acknowledged another
address, and nothing is recorded. -/
theorem renewal_not_on_record : ∃ s' : Server, ∃ sent : Sent,
    mainLoop dhcpSetup ⟨⟨0, [5], 0⟩, selectingRequest clientA 0xC0A80009 0⟩ = .ok (s', some sent) ∧
      sent.IsAck ∧ sent.packet.yiaddr = 0xC0A80007 ∧ s'.table.leases = [] := by
  obtain ⟨⟨s', out⟩, hstep, hr⟩ := exists_ok
    (mainLoop dhcpSetup ⟨⟨0, [5], 0⟩, selectingRequest clientA 0xC0A80009 0⟩)
    (fun r ↦ r.2.any (fun sent ↦ sent.messageType = some dhcpack ∧
      sent.packet.yiaddr = 0xC0A80007) ∧ r.1.table.leases = []) (by decide +kernel)
  obtain ⟨hout, hleases⟩ := of_decide_eq_true hr
  cases out with
  | none => cases hout
  | some sent =>
    obtain ⟨hack, hyi⟩ := of_decide_eq_true hout
    exact ⟨s', sent, hstep, hack, hyi, hleases⟩

end InternetApplications.Dhcp
