import InternetApplications.Dhcp.LeaseMap
import InternetApplications.Dhcp.LeasePool
import InternetApplications.Dhcp.ServerAnswer

namespace InternetApplications.Dhcp

open KeyedList Executions LeaseTable

def unexpired (t : LeaseTable) (now : ℕ) : List LeaseT :=
  t.leases.filter fun lease ↦ InPool lease.addr ∧ lease.Live now

section Tables

variable {t : LeaseTable} {env : Env} {now n : ℕ} {newIp x : UInt32} {m : Mac}

/-- Every address of the pool is under a live lease exactly when there are as many of these as
the pool has addresses. -/
theorem length_unexpired (ht : t.Valid) : (unexpired t now).length = ipAddressPoolAmount ↔
    ∀ x, InPool x → ∃ lease ∈ t.leases, lease.addr = x ∧ lease.Live now := by
  have hdistinct : ((unexpired t now).map LeaseT.addr).Nodup :=
    ht.distinct.sublist (List.filter_sublist.map LeaseT.addr)
  have hsub : (unexpired t now).map LeaseT.addr ⊆ pool := by
    intro x hx
    obtain ⟨lease, hl, rfl⟩ := List.mem_map.mp hx
    have hlive : InPool lease.addr ∧ lease.Live now := by simpa using (List.mem_filter.mp hl).2
    exact mem_pool.mpr hlive.1
  constructor
  · intro hlen x hx
    have hcover := subset_of_length hdistinct hsub (by simp [hlen])
    obtain ⟨lease, hl, haddr⟩ := List.mem_map.mp (hcover (mem_pool.mpr hx))
    obtain ⟨hmem, hlive⟩ := List.mem_filter.mp hl
    exact ⟨lease, hmem, haddr, by simpa using (of_decide_eq_true hlive).2⟩
  · intro hcover
    have hle := List.Nodup.length_le_of_subset hdistinct hsub
    have hge : pool ⊆ (unexpired t now).map LeaseT.addr := by
      intro x hx
      have hin := mem_pool.mp hx
      obtain ⟨lease, hmem, rfl, hlive⟩ := hcover x hin
      exact List.mem_map_of_mem (List.mem_filter.mpr ⟨hmem, by simp [hin, hlive]⟩)
    have hge' := List.Nodup.length_le_of_subset nodup_pool hge
    simp only [List.length_map, length_pool] at hle hge'
    omega

theorem allocateIp_exhausted_iff (hm : t.firstOf m = none) (env : Env) (newIp : UInt32) :
    (∃ y t', allocateIp t env newIp m = .ok (-1, y, t')) ↔ (ipAddressPoolAmount : ℤ) ≤ t.numOfLease := by
  constructor
  · rintro ⟨y, t', h⟩
    obtain ⟨lease, hl, -⟩ | ⟨-, -, -, -, hn⟩ | ⟨-, hr, -⟩ := allocateIp_cases h
    · cases hm.symm.trans hl
    · exact hn
    · exact absurd hr (by decide)
  · intro hn
    refine ⟨newIp, t, ?_⟩
    rw [allocateIp, show t.leases.find? (fun lease ↦ lease.chaddr = m) = none from hm]
    simp only
    rw [if_pos (by omega)]

theorem unusable_iff (ht : t.Valid) (hm : t.firstOf m = none) :
    (∀ x, ¬0 < checkIpaddr t now x m) ↔ (unexpired t now).length = ipAddressPoolAmount := by
  rw [length_unexpired ht]
  simp only [checkIpaddr_pos, not_and, not_forall, exists_prop]
  constructor
  · intro hno x hx
    obtain ⟨lease, hl, hlive, -⟩ := hno x hx
    exact ⟨lease, (lookup_some hl).1, (lookup_some hl).2, hlive⟩
  · intro hall x hx
    obtain ⟨lease, hmem, rfl, hlive⟩ := hall x hx
    exact ⟨lease, lookup_mem ht hmem, hlive, firstOf_none hm hmem⟩

end Tables

section Full

def poolClient (k : ℕ) : Mac := #v[4, 0, 0, 0, 0, UInt8.ofNat k]

def filled (n : ℕ) : LeaseTable :=
  ⟨(List.range n).map fun k ↦ ⟨0, ipAddressPoolStart + UInt32.ofNat k, poolClient k⟩, n⟩

theorem lookup_filled {n : ℕ} (hn : n < ipAddressPoolAmount) :
    (filled n).lookup (ipAddressPoolStart + UInt32.ofNat n) = none := by
  apply view_eq_none.mpr
  intro lease hl he
  obtain ⟨k, hk, rfl⟩ := List.mem_map.mp hl
  have hlt := List.mem_range.mp hk
  exact absurd (pool_inj (hlt.trans hn) hn he) (by omega)

/-- One client after the other can lease the whole pool. -/
theorem exists_filled {n : ℕ} (hn : n ≤ ipAddressPoolAmount) :
    ∃ s, ServerReachable s ∧ s.table = filled n := by
  induction n with
  | zero => exact ⟨dhcpSetup, .refl, rfl⟩
  | succ n ih =>
    obtain ⟨s, hs, ht⟩ := ih (by omega)
    have hlt : n < ipAddressPoolAmount := hn
    have hfree := lookup_filled hlt
    rw [← ht] at hfree
    obtain ⟨c, datagram, hyiaddr, hid, -, hread⟩ := exists_request s ⟨0, [], 0⟩ (poolClient n)
      inaddrAny (ipAddressPoolStart + UInt32.ofNat n) dhcprequest
    have hcheck : 0 < checkIpaddr s.table 0 c.yiaddr (poolClient n) := by
      rw [hyiaddr]
      refine checkIpaddr_pos.mpr ⟨mem_pool.mp ?_, ?_⟩
      · exact List.mem_map_of_mem (List.mem_range.mpr hlt)
      · intro lease hl
        cases hfree.symm.trans hl
    have hlen : s.table.leases.length + 1 < 2 ^ 31 := by
      have hamount : ipAddressPoolAmount = 100 := rfl
      rw [ht]
      simp only [filled, List.length_map, List.length_range]
      omega
    obtain ⟨t, hadd⟩ := addLease_returns hs.valid (x := c.yiaddr) 0 (poolClient n) (.inr hlen)
    obtain ⟨s', sent, hstep, rfl, -⟩ :=
      mainLoop_selecting (i := ⟨⟨0, [], 0⟩, datagram⟩) hread hid hcheck hadd
    refine ⟨s', hs.next hstep, ?_⟩
    rw [hyiaddr] at hadd
    obtain ⟨lease, hl, -⟩ | ⟨-, hnew, -⟩ := addLease_cases hadd
    · cases hfree.symm.trans hl
    · rw [hnew, ht, filled, filled, LeaseTable.append, List.range_succ, List.map_append]
      rfl

end Full

/-- The counter and the check agree on exhaustion exactly when the counter is below the size of
the pool, or no lease of the pool has run out. -/
theorem availability_agrees_iff {s : Server} {env : Env} {newIp : UInt32} {m : Mac}
    (h : ServerReachable s) (hm : s.table.firstOf m = none) :
    ((∃ y t, allocateIp s.table env newIp m = .ok (-1, y, t)) →
        ∀ x, ¬0 < checkIpaddr s.table env.now x m) ↔
      s.table.numOfLease < ipAddressPoolAmount ∨
        (unexpired s.table env.now).length = ipAddressPoolAmount := by
  rw [allocateIp_exhausted_iff hm env newIp, unusable_iff h.valid hm]
  constructor
  · intro himp
    by_cases hn : (ipAddressPoolAmount : ℤ) ≤ s.table.numOfLease
    · exact .inr (himp hn)
    · exact .inl (by omega)
  · rintro (hlt | hall) hn
    · omega
    · exact hall

theorem availability_agrees_iff_full : ∃ s, ServerReachable s ∧
    s.table = filled ipAddressPoolAmount ∧ ∀ x, ¬0 < checkIpaddr s.table 0 x clientA := by
  obtain ⟨s, hs, ht⟩ := exists_filled le_rfl
  have hnone : s.table.firstOf clientA = none := by
    rw [ht]
    decide +kernel
  have hlive : (unexpired s.table 0).length = ipAddressPoolAmount := by
    rw [ht]
    decide +kernel
  have hgivesUp := (allocateIp_exhausted_iff hnone ⟨0, [], 0⟩ 0).mpr (by
    rw [ht]
    exact Int.le_refl _)
  exact ⟨s, hs, ht, (@availability_agrees_iff s ⟨0, [], 0⟩ 0 clientA hs hnone).mpr (.inr hlive)
    hgivesUp⟩

/-- Once all leases of the pool have run out, a new client is refused all the same. -/
theorem exhausted_with_expired_leases : ∃ (s : Server) (env : Env) (m : Mac),
    ServerReachable s ∧ s.table.firstOf m = none ∧
      (∃ y t, allocateIp s.table env 0 m = .ok (-1, y, t)) ∧
      0 < checkIpaddr s.table env.now ipAddressPoolStart m := by
  obtain ⟨s, hs, ht⟩ := exists_filled le_rfl
  refine ⟨s, ⟨40, [], 0⟩, clientA, hs, ?_⟩
  rw [ht]
  have hnone : (filled ipAddressPoolAmount).firstOf clientA = none := by decide +kernel
  exact ⟨hnone, (allocateIp_exhausted_iff hnone _ _).mpr (Int.le_refl _), by decide +kernel⟩

end InternetApplications.Dhcp
