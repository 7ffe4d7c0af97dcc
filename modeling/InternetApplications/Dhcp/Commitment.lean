import InternetApplications.Dhcp.LeasePool
import InternetApplications.Dhcp.ServerAnswer

namespace InternetApplications.Dhcp

open ByteMemory TagScan KeyedList Executions LeaseTable

section Discovers

variable {s s' : Server} {i : Input} {out : Option Sent}

theorem mainLoop_discover (h : receivedType (s.received i) = .ok (some dhcpdiscover)) :
    mainLoop s i = (s.ready i).dhcpHandleDiscover i.env := by
  have h' : receivedType ((s.changeSocketSetup inaddrAny inaddrBroadcast).dhcpRecv.recvfrom
      i.datagram) = .ok (some dhcpdiscover) := h
  simp only [mainLoop, h']
  rfl

inductive Discovered (s : Server) (i : Input) : LeaseTable → Option Sent → Prop
  | requested {m : Sent} {y : UInt32} :
      requestedIp (s.received i) s.table i.env.now = .ok (some y) →
      Answers (s.received i) m dhcpoffer y → Discovered s i s.table (some m)
  | allocated {m : Sent} {y : UInt32} {r : ℤ} {t : LeaseTable} :
      requestedIp (s.received i) s.table i.env.now = .ok none →
      allocateIp s.table i.env i.env.stale (s.received i).chaddr = .ok (r, y, t) → ¬r < 0 →
      Answers (s.received i) m dhcpoffer y → Discovered s i t (some m)
  | exhausted {m : Sent} {y : UInt32} {r : ℤ} {t : LeaseTable} :
      requestedIp (s.received i) s.table i.env.now = .ok none →
      allocateIp s.table i.env i.env.stale (s.received i).chaddr = .ok (r, y, t) → r < 0 →
      m.payload = [] → Discovered s i t (some m)

theorem mainLoop_discovered (htype : receivedType (s.received i) = .ok (some dhcpdiscover))
    (h : mainLoop s i = .ok (s', out)) : Discovered s i s'.table out := by
  obtain ⟨o, ho, -⟩ := receivedType_ok htype
  rw [mainLoop_discover htype] at h
  obtain ⟨m, rfl, ⟨y, hreq, ht, ha⟩ | ⟨hreq, r, y, halloc, ⟨hr, he⟩ | ⟨hr, ha⟩⟩⟩ :=
    dhcpHandleDiscover_ok (s := s.ready i) ho h
  · rw [ht]
    exact .requested hreq ha
  · exact .exhausted hreq halloc hr he
  · exact .allocated hreq halloc hr ha

end Discovers

section Tables

variable {t t' : LeaseTable} {env : Env} {now : ℕ} {stale x y : UInt32} {m : Mac} {r : ℤ}
  {lease : LeaseT}

theorem stamped_eq_self_iff : lease.stamped now = lease ↔ lease.timeStamp = now := by
  obtain ⟨stamp, addr, mac⟩ := lease
  simp [LeaseT.stamped, eq_comm]

theorem stampMac_eq_self_iff (h : t.firstOf m = some lease) :
    t.stampMac now m = t ↔ lease.timeStamp = now := by
  rw [← stamped_eq_self_iff]
  obtain ⟨leases, n⟩ := t
  rw [LeaseTable.stampMac, LeaseTable.mk.injEq, and_iff_left rfl]
  exact touch_eq_self_iff h

theorem stampAddr_eq_self_iff (h : t.lookup x = some lease) :
    t.stampAddr now x = t ↔ lease.timeStamp = now := by
  rw [← stamped_eq_self_iff]
  obtain ⟨leases, n⟩ := t
  rw [LeaseTable.stampAddr, LeaseTable.mk.injEq, and_iff_left rfl]
  exact touch_eq_self_iff h

theorem allocateIp_unchanged (h : allocateIp t env stale m = .ok (r, y, t')) :
    t' = t ↔ ∀ lease, t.firstOf m = some lease → lease.timeStamp = env.now := by
  obtain ⟨lease, hl, -, -, rfl⟩ | ⟨hl, -, -, rfl, -⟩ | ⟨hl, -, -, -, rfl⟩ := allocateIp_cases h
  · rw [stampMac_eq_self_iff hl]
    simp [hl]
  · simp [hl]
  · simp [hl]

theorem addLease_unchanged (h : addLease t now x m = .ok t') :
    t' = t ↔ ∃ lease, t.lookup x = some lease ∧ lease.timeStamp = now := by
  obtain ⟨lease, hl, rfl⟩ | ⟨hl, rfl, -⟩ := addLease_cases h
  · rw [stampAddr_eq_self_iff hl]
    simp [hl]
  · constructor
    · intro he
      have hlen := congrArg (fun u ↦ u.leases.length) he
      simp [LeaseTable.append] at hlen
    · rintro ⟨lease, hl', -⟩
      cases hl.symm.trans hl'

end Tables

/-- The discover or inform finds no lease to stamp, or one with the present time, and no lease
to add. -/
inductive CommitsNothing (s : Server) (i : Input) : Prop
  | requested {x : UInt32} :
      receivedType (s.received i) = .ok (some dhcpdiscover) →
      requestedIp (s.received i) s.table i.env.now = .ok (some x) → CommitsNothing s i
  | fresh :
      receivedType (s.received i) = .ok (some dhcpdiscover) ∨
        (receivedType (s.received i) = .ok (some dhcpinform) ∧
          (s.received i).ciaddr ≠ inaddrAny) →
      (∀ lease, s.table.firstOf (s.received i).chaddr = some lease →
        lease.timeStamp = i.env.now) → CommitsNothing s i
  | again {x : UInt32} {lease : LeaseT} :
      receivedType (s.received i) = .ok (some dhcpinform) →
      (s.received i).ciaddr = inaddrAny → requestedOption (s.received i) = some x →
      s.table.lookup x = some lease → lease.timeStamp = i.env.now → CommitsNothing s i

section Steps

variable {s s' : Server} {i : Input} {t : LeaseTable} {out : Option Sent}

theorem Discovered.unchanged (htype : receivedType (s.received i) = .ok (some dhcpdiscover))
    (h : Discovered s i t out) : t = s.table ↔ CommitsNothing s i := by
  cases h with
  | requested hreq => exact iff_of_true rfl (.requested htype hreq)
  | allocated hreq ha | exhausted hreq ha =>
    rw [allocateIp_unchanged ha]
    constructor
    · intro hfresh
      exact .fresh (.inl htype) hfresh
    · intro hcommits
      cases hcommits with
      | requested _ hreq' => cases hreq.symm.trans hreq'
      | fresh _ hfresh => exact hfresh
      | again hinform => exact absurd (htype.symm.trans hinform) (by decide)

theorem Handled.inform_unchanged (htype : receivedType (s.received i) = .ok (some dhcpinform))
    (h : Handled s i t out) : t = s.table ↔ CommitsNothing s i := by
  cases h with
  | silent hsilent => exact absurd rfl (hsilent _ htype).2.1
  | offerRequested h | offerAllocated h | offerNone h | ackSelected h | ackRenewed h | nak h
  | released h => exact absurd (htype.symm.trans h) (by decide)
  | informSelected _ hc hx hadd =>
    rw [addLease_unchanged hadd]
    constructor
    · rintro ⟨lease, hl, hnow⟩
      exact .again htype hc hx hl hnow
    · intro hcommits
      cases hcommits with
      | requested hdiscover => exact absurd (htype.symm.trans hdiscover) (by decide)
      | fresh hkind =>
        rcases hkind with hdiscover | ⟨-, hne⟩
        · exact absurd (htype.symm.trans hdiscover) (by decide)
        · exact absurd hc hne
      | again _ _ hx' hl hnow =>
        cases hx.symm.trans hx'
        exact ⟨_, hl, hnow⟩
  | informKnown _ hc ha =>
    rw [allocateIp_unchanged ha]
    constructor
    · intro hfresh
      exact .fresh (.inr ⟨htype, hc⟩) hfresh
    · intro hcommits
      cases hcommits with
      | requested hdiscover => exact absurd (htype.symm.trans hdiscover) (by decide)
      | fresh _ hfresh => exact hfresh
      | again _ hc' => exact absurd hc' hc

end Steps

/-- A discover or an inform leaves the table as it was exactly when it finds nothing to stamp
and nothing to add. -/
theorem commits_nothing_iff {s s' : Server} {i : Input} {out : Option Sent}
    (htype : receivedType (s.received i) = .ok (some dhcpdiscover) ∨
      receivedType (s.received i) = .ok (some dhcpinform))
    (h : mainLoop s i = .ok (s', out)) : s'.table = s.table ↔ CommitsNothing s i := by
  rcases htype with htype | htype
  · exact (mainLoop_discovered htype h).unchanged htype
  · exact (mainLoop_handled h).inform_unchanged htype

def discovering (mac : Mac) (requested : UInt32) : List UInt8 :=
  bootpRequest mac inaddrAny [⟨optionDhcpMessageType, [dhcpdiscover]⟩,
    ⟨optionRequestedIp, wordBytes requested⟩, endField]

/-- The discover of a second client leaves the lease of the first alone. -/
theorem commits_nothing_iff_second : ∃ (s s' : Server) (i : Input) (out : Option Sent),
    ServerReachable s ∧ s.table.leases = [⟨0, 0xC0A80002, clientA⟩] ∧
      mainLoop s i = .ok (s', out) ∧ s'.table = s.table := by
  obtain ⟨trace, s, hrun, hs⟩ := exists_execution mainLoop dhcpSetup
    [⟨⟨0, [], 0⟩, selectingRequest clientA 0 0xC0A80002⟩]
    (fun _ s ↦ s.table.leases = [⟨0, 0xC0A80002, clientA⟩] ∧
      receivedType (s.received ⟨⟨5, [7], 0⟩, discovering clientB 0⟩) = .ok (some dhcpdiscover) ∧
      (s.received ⟨⟨5, [7], 0⟩, discovering clientB 0⟩).chaddr = clientB ∧
      (Except.toOption (mainLoop s ⟨⟨5, [7], 0⟩, discovering clientB 0⟩)).any fun _ ↦ true)
    (by decide +kernel)
  obtain ⟨hbefore, htype, hmac, hany⟩ := of_decide_eq_true hs
  obtain ⟨⟨s', out⟩, hstep, -⟩ := exists_ok _ _ hany
  refine ⟨s, s', _, out, ⟨trace, hrun⟩, hbefore, hstep, (commits_nothing_iff (.inl htype) hstep).mpr ?_⟩
  refine .fresh (.inl htype) ?_
  rw [hmac]
  intro lease hl
  rw [LeaseTable.firstOf, hbefore] at hl
  cases hl

/-- A discover renews the lease of its client, and an inform records one. -/
theorem discover_renews_and_inform_records :
    (∃ (s s' : Server) (i : Input) (out : Option Sent), ServerReachable s ∧
      receivedType (s.received i) = .ok (some dhcpdiscover) ∧ mainLoop s i = .ok (s', out) ∧
      s.table.leases = [⟨0, 0xC0A80002, clientA⟩] ∧ s'.table.leases = [⟨5, 0xC0A80002, clientA⟩]) ∧
    ∃ (s s' : Server) (i : Input) (out : Option Sent), ServerReachable s ∧
      receivedType (s.received i) = .ok (some dhcpinform) ∧ mainLoop s i = .ok (s', out) ∧
      s.table.leases = [] ∧ s'.table.leases = [⟨5, 0xC0A80003, clientB⟩] := by
  constructor
  · obtain ⟨trace, s, hrun, hs⟩ := exists_execution mainLoop dhcpSetup
      [⟨⟨0, [], 0⟩, selectingRequest clientA 0 0xC0A80002⟩]
      (fun _ s ↦ s.table.leases = [⟨0, 0xC0A80002, clientA⟩] ∧
        receivedType (s.received ⟨⟨5, [], 0⟩, discovering clientA 0⟩) = .ok (some dhcpdiscover) ∧
        (Except.toOption (mainLoop s ⟨⟨5, [], 0⟩, discovering clientA 0⟩)).any
          fun r ↦ r.1.table.leases = [⟨5, 0xC0A80002, clientA⟩]) (by decide +kernel)
    obtain ⟨hbefore, htype, hany⟩ := of_decide_eq_true hs
    obtain ⟨⟨s', out⟩, hstep, hafter⟩ := exists_ok _ _ hany
    exact ⟨s, s', _, out, ⟨trace, hrun⟩, htype, hstep, hbefore, of_decide_eq_true hafter⟩
  · obtain ⟨⟨s', out⟩, hstep, hafter⟩ := exists_ok
      (mainLoop dhcpSetup ⟨⟨5, [], 0⟩, informing clientB 0xC0A80003⟩)
      (fun r ↦ r.1.table.leases = [⟨5, 0xC0A80003, clientB⟩]) (by decide +kernel)
    exact ⟨dhcpSetup, s', _, out, .refl, by decide +kernel, hstep, rfl, of_decide_eq_true hafter⟩

end InternetApplications.Dhcp
