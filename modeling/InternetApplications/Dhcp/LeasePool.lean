import InternetApplications.Dhcp.ServerRuns

namespace InternetApplications.Dhcp

open KeyedList Executions LeaseTable

def pool : List UInt32 :=
  (List.range ipAddressPoolAmount).map fun n ↦ ipAddressPoolStart + UInt32.ofNat n

@[simp] theorem length_pool : pool.length = ipAddressPoolAmount := by simp [pool]

theorem pool_inj {k n : ℕ} (hk : k < ipAddressPoolAmount) (hn : n < ipAddressPoolAmount)
    (h : ipAddressPoolStart + UInt32.ofNat k = ipAddressPoolStart + UInt32.ofNat n) : k = n := by
  simp only [ipAddressPoolAmount] at hk hn
  simp only [ipAddressPoolStart, ← UInt32.toNat_inj, UInt32.toNat_add, UInt32.toNat_ofNat',
    UInt32.toNat_ofNat] at h
  omega

theorem nodup_pool : pool.Nodup := by
  refine List.Nodup.map_on ?_ List.nodup_range
  intro k hk n hn h
  exact pool_inj (List.mem_range.mp hk) (List.mem_range.mp hn) h

theorem mem_pool {x : UInt32} : x ∈ pool ↔ InPool x := by
  constructor
  · intro h
    obtain ⟨n, hn, rfl⟩ := List.mem_map.mp h
    have hmod := inPool_probe n
    rwa [Nat.mod_eq_of_lt (List.mem_range.mp hn)] at hmod
  · intro h
    exact List.mem_map.mpr (inPool_offset h)

def AllInPool (t : LeaseTable) : Prop := ∀ lease ∈ t.leases, InPool lease.addr

/-- A `DHCPINFORM` without a client address whose option 50 lies outside the pool. -/
def InformsOutside (s : Server) (i : Input) : Prop :=
  receivedType (s.received i) = .ok (some dhcpinform) ∧ (s.received i).ciaddr = inaddrAny ∧
    ∃ x, requestedOption (s.received i) = some x ∧ ¬InPool x

section Tables

variable {t t' : LeaseTable} {env : Env} {now : ℕ} {stale x y : UInt32} {m : Mac} {r : ℤ}

theorem AllInPool.touch {p : LeaseT → Bool} (ht : AllInPool t) :
    ∀ lease ∈ touch p (LeaseT.stamped now) t.leases, InPool lease.addr := by
  intro lease hl
  rcases mem_touch hl with hl | ⟨old, hold, rfl⟩
  · exact ht lease hl
  · exact ht old (List.mem_of_find?_eq_some hold)

theorem allocateIp_inPool (ht : AllInPool t)
    (h : allocateIp t env stale m = .ok (r, y, t')) : AllInPool t' := by
  obtain ⟨_, _, _, _, rfl⟩ | ⟨_, _, _, rfl, _⟩ | ⟨_, _, _, _, rfl⟩ := allocateIp_cases h
  · exact ht.touch
  · exact ht
  · exact ht

theorem addLease_inPool (ht : AllInPool t) (hx : InPool x)
    (h : addLease t now x m = .ok t') : AllInPool t' := by
  obtain ⟨_, _, rfl⟩ | ⟨_, rfl, _⟩ := addLease_cases h
  · exact ht.touch
  · intro lease hl
    rcases List.mem_append.mp hl with hl | hl
    · exact ht lease hl
    · rw [List.mem_singleton.mp hl]
      exact hx

theorem addLease_mem (h : addLease t now x m = .ok t') : ∃ lease ∈ t'.leases, lease.addr = x := by
  obtain ⟨lease, hl, rfl⟩ | ⟨_, rfl, _⟩ := addLease_cases h
  · exact ⟨_, mem_touch_found hl, (lookup_some hl).2⟩
  · exact ⟨_, List.mem_append_right _ (List.mem_singleton_self _), rfl⟩

theorem deleteLease_inPool (ht : AllInPool t) (h : deleteLease t x m = .ok t') : AllInPool t' := by
  obtain ⟨_, _, rfl⟩ | ⟨_, rfl⟩ := deleteLease_cases h
  · exact fun lease hl ↦ ht lease (List.mem_of_mem_eraseP hl)
  · exact ht

end Tables

theorem AllInPool.length_le {t : LeaseTable} (h : AllInPool t) (ht : t.Valid) :
    t.leases.length ≤ ipAddressPoolAmount := by
  have hsub : t.leases.map LeaseT.addr ⊆ pool := by
    intro x hx
    obtain ⟨lease, hl, rfl⟩ := List.mem_map.mp hx
    exact mem_pool.mpr (h lease hl)
  have hle := List.Nodup.length_le_of_subset ht.distinct hsub
  simpa using hle

variable {s : Server} {i : Input} {t : LeaseTable} {out : Option Sent}

theorem Handled.of_inform (h : Handled s i t out)
    (htype : receivedType (s.received i) = .ok (some dhcpinform))
    (hc : (s.received i).ciaddr = inaddrAny) :
    ∃ x m, requestedOption (s.received i) = some x ∧
      addLease s.table i.env.now x (s.received i).chaddr = .ok t ∧
      out = some m ∧ Answers (s.received i) m dhcpack x := by
  cases h with
  | silent h => exact absurd rfl (h _ htype).2.1
  | offerRequested h | offerAllocated h | offerNone h | ackSelected h | ackRenewed h | nak h
  | released h => exact absurd (htype.symm.trans h) (by decide)
  | informSelected _ _ hx hadd ha => exact ⟨_, _, hx, hadd, rfl, ha⟩
  | informKnown _ hne => exact absurd hc hne

theorem Handled.inPool (h : Handled s i t out) (hno : ¬InformsOutside s i)
    (hs : AllInPool s.table) : AllInPool t := by
  cases h with
  | silent | offerRequested | nak => exact hs
  | offerAllocated _ ha | offerNone _ ha | ackRenewed _ _ _ ha | informKnown _ _ ha =>
    exact allocateIp_inPool hs ha
  | ackSelected _ _ _ hp ha => exact addLease_inPool hs (checkIpaddr_pos.mp hp).1 ha
  | released _ _ hd => exact deleteLease_inPool hs hd
  | informSelected htype hc hx ha =>
    have hpool := not_not.mp fun hout ↦ hno ⟨htype, hc, _, hx, hout⟩
    exact addLease_inPool hs hpool ha

theorem Handled.outside (h : Handled s i t out) (hout : InformsOutside s i) : ¬AllInPool t := by
  obtain ⟨htype, hc, x, hx, hpool⟩ := hout
  obtain ⟨y, -, hy, ha, -⟩ := h.of_inform htype hc
  cases hx.symm.trans hy
  obtain ⟨lease, hl, rfl⟩ := addLease_mem ha
  exact fun hall ↦ hpool (hall lease hl)

/-- In a run every state keeps its leases in the pool exactly when no inform of
the run asks for an address outside it. -/
theorem leases_in_pool_iff {trace : List Event} {u : Server}
    (h : Execution mainLoop dhcpSetup trace u) :
    (∀ e ∈ trace, AllInPool e.after.table) ↔
      ∀ e ∈ trace, ¬InformsOutside e.before e.input := by
  constructor
  · intro hall e he hout
    exact (mainLoop_handled (h.step_eq he)).outside hout (hall e he)
  · intro hno e he
    have hinv := h.invariant (I := fun s ↦ AllInPool s.table)
      (A := fun e ↦ ¬InformsOutside e.before e.input)
      (fun e hstep hne hs ↦ (mainLoop_handled hstep).inPool hne hs) hno
      (by intro lease hl; cases hl)
    exact (hinv.2 e he).2

/-- One inform records the address 10.0.0.1. -/
theorem inform_leaves_pool : ∃ s : Server, ServerReachable s ∧ ¬AllInPool s.table := by
  obtain ⟨trace, s, hrun, hs⟩ := exists_execution mainLoop dhcpSetup
    [⟨⟨0, [], 0⟩, informing clientA 0x0A000001⟩]
    (fun _ s ↦ s.table.leases = [⟨0, 0x0A000001, clientA⟩]) (by decide +kernel)
  refine ⟨s, ⟨trace, hrun⟩, fun hall ↦ ?_⟩
  rw [AllInPool, of_decide_eq_true hs] at hall
  exact absurd (hall _ (List.mem_singleton_self _)) (by decide)

theorem leases_in_pool_iff_three : ∃ trace : List Event, trace.length = 3 ∧
    ∀ e ∈ trace, ¬InformsOutside e.before e.input := by
  obtain ⟨trace, s, hrun, hs⟩ := exists_execution mainLoop dhcpSetup
    [⟨⟨0, [], 0⟩, selectingRequest clientA 0 0xC0A80002⟩,
      ⟨⟨1, [], 0⟩, informing clientB 0xC0A80003⟩,
      ⟨⟨40, [], 0⟩, selectingRequest clientB 0 0xC0A80002⟩]
    (fun trace _ ↦ trace.length = 3 ∧
      ∀ e ∈ trace, ∀ lease ∈ e.after.table.leases, InPool lease.addr) (by decide +kernel)
  obtain ⟨hlen, hpool⟩ := of_decide_eq_true hs
  exact ⟨trace, hlen, (leases_in_pool_iff hrun).mp hpool⟩

end InternetApplications.Dhcp
