import InternetApplications.Dhcp.LeasePool

namespace InternetApplications.Dhcp

open KeyedList Executions LeaseTable

def LeaseTable.Free (t : LeaseTable) (x : UInt32) : Prop :=
  InPool x ∧ ∀ lease ∈ t.leases, lease.addr ≠ x

/-- The stream of `rand` takes every residue. -/
def Covers (rand : ℕ → ℕ) : Prop :=
  ∀ r < ipAddressPoolAmount, ∃ k, rand k % ipAddressPoolAmount = r

section Probe

variable {leases : List LeaseT} {draws more : List ℕ} {x : UInt32}

theorem probe_append (h : probe leases draws = .ok x) : probe leases (draws ++ more) = .ok x := by
  induction draws with
  | nil => cases h
  | cons r draws ih =>
    rw [List.cons_append]
    simp only [probe] at h ⊢
    split at h
    · rename_i htaken
      rw [if_pos htaken]
      exact ih h
    · rename_i hfree
      rw [if_neg hfree]
      exact h

theorem probe_returns (h : ∃ r ∈ draws, ∀ lease ∈ leases,
    lease.addr ≠ ipAddressPoolStart + UInt32.ofNat (r % ipAddressPoolAmount)) :
    ∃ x, probe leases draws = .ok x := by
  induction draws with
  | nil =>
    obtain ⟨r, hr, -⟩ := h
    cases hr
  | cons d draws ih =>
    simp only [probe]
    split
    · rename_i htaken
      apply ih
      obtain ⟨r, hr, hfree⟩ := h
      refine ⟨r, ?_, hfree⟩
      apply (List.mem_cons.mp hr).resolve_left
      rintro rfl
      obtain ⟨lease, hl, he⟩ := List.any_eq_true.mp htaken
      exact hfree lease hl (of_decide_eq_true he)
    · exact ⟨_, rfl⟩

end Probe

section Tables

variable {t : LeaseTable} {rand : ℕ → ℕ} {x : UInt32}

theorem LeaseTable.Valid.exists_free (ht : t.Valid) (hn : t.numOfLease ≤ ipAddressPoolAmount - 1) :
    ∃ x, t.Free x := by
  by_contra hnone
  have hcover : pool ⊆ t.leases.map LeaseT.addr := by
    intro x hx
    by_contra hfree
    apply hnone
    refine ⟨x, mem_pool.mp hx, ?_⟩
    rintro lease hl rfl
    exact hfree (List.mem_map_of_mem hl)
  have hle := List.Nodup.length_le_of_subset nodup_pool hcover
  rw [length_pool, List.length_map] at hle
  have hcount := ht.counted
  omega

theorem Covers.draws (h : Covers rand) (hx : t.Free x) :
    ∃ n, ∃ r ∈ (List.range n).map rand, ∀ lease ∈ t.leases,
      lease.addr ≠ ipAddressPoolStart + UInt32.ofNat (r % ipAddressPoolAmount) := by
  obtain ⟨hpool, hfree⟩ := hx
  obtain ⟨r, hr, rfl⟩ := inPool_offset hpool
  obtain ⟨k, hk⟩ := h r (List.mem_range.mp hr)
  refine ⟨k + 1, rand k, List.mem_map_of_mem (List.mem_range.mpr k.lt_succ_self), ?_⟩
  rw [hk]
  exact hfree

/-- From some draw on the loop has ended with one free address. -/
theorem Covers.probe_ends (h : Covers rand) (hx : ∃ x, t.Free x) :
    ∃ n x, t.Free x ∧ ∀ k, n ≤ k → probe t.leases ((List.range k).map rand) = .ok x := by
  obtain ⟨x, hx⟩ := hx
  obtain ⟨n, hn⟩ := h.draws hx
  obtain ⟨y, hy⟩ := probe_returns hn
  obtain ⟨hpool, hfree⟩ := probe_ok hy
  refine ⟨n, y, ⟨hpool, fun lease hl ↦ view_eq_none.mp hfree lease hl⟩, ?_⟩
  intro k hk
  obtain ⟨j, rfl⟩ := Nat.exists_eq_add_of_le hk
  rw [List.range_add, List.map_append]
  exact probe_append hy

/-- With enough draws `allocate_ip` returns. -/
theorem Covers.allocateIp_returns (h : Covers rand) (ht : t.Valid) (now : ℕ) (newIp stale : UInt32)
    (m : Mac) : ∃ n, ∀ k, n ≤ k → ∃ a,
      allocateIp t ⟨now, (List.range k).map rand, stale⟩ newIp m = .ok a := by
  simp only [allocateIp]
  cases t.leases.find? fun lease ↦ lease.chaddr = m with
  | some lease => exact ⟨0, fun _ _ ↦ ⟨_, rfl⟩⟩
  | none =>
    by_cases hn : t.numOfLease ≤ ipAddressPoolAmount - 1
    · obtain ⟨n, x, -, hprobe⟩ := h.probe_ends (ht.exists_free hn)
      refine ⟨n, fun k hk ↦ ?_⟩
      simp only
      rw [if_neg (by omega), hprobe k hk]
      exact ⟨_, rfl⟩
    · refine ⟨0, fun k _ ↦ ?_⟩
      simp only
      rw [if_pos (by omega)]
      exact ⟨_, rfl⟩

end Tables

/-- To a client without a lease `allocate_ip` gives up at the counter and changes nothing, or there
is a free address, the loop ends, and what it returns is free. -/
theorem allocateIp_finishes {s : Server} {m : Mac} (h : ServerReachable s)
    (hm : ∀ lease ∈ s.table.leases, lease.chaddr ≠ m) (newIp : UInt32) :
    (s.table.numOfLease ≤ ipAddressPoolAmount - 1 →
      (∃ x, s.table.Free x) ∧
      (∀ rand, Covers rand → ∀ now stale, ∃ n x, s.table.Free x ∧ ∀ k, n ≤ k →
        allocateIp s.table ⟨now, (List.range k).map rand, stale⟩ newIp m = .ok (0, x, s.table)) ∧
      ∀ env r x t, allocateIp s.table env newIp m = .ok (r, x, t) →
        r = 0 ∧ s.table.Free x ∧ t = s.table) ∧
    (¬s.table.numOfLease ≤ ipAddressPoolAmount - 1 →
      ∀ env, allocateIp s.table env newIp m = .ok (-1, newIp, s.table)) := by
  have hnone : s.table.firstOf m = none := by
    rw [LeaseTable.firstOf, List.find?_eq_none]
    intro lease hl
    simpa using hm lease hl
  have hfind : s.table.leases.find? (fun lease ↦ lease.chaddr = m) = none := hnone
  constructor
  · intro hn
    have hfree := h.valid.exists_free hn
    refine ⟨hfree, ?_, ?_⟩
    · intro rand hrand now stale
      obtain ⟨n, x, hx, hprobe⟩ := hrand.probe_ends hfree
      refine ⟨n, x, hx, ?_⟩
      intro k hk
      rw [allocateIp, hfind]
      simp only
      rw [if_neg (by omega), hprobe k hk]
      rfl
    · intro env r x t halloc
      rcases allocateIp_cases halloc with ⟨lease, hl, -⟩ | ⟨-, -, -, -, hfull⟩ | ⟨-, hr, hpool, hx, ht⟩
      · cases hnone.symm.trans hl
      · omega
      · exact ⟨hr, ⟨hpool, fun lease hl ↦ view_eq_none.mp hx lease hl⟩, ht⟩
  · intro hn env
    rw [allocateIp, hfind]
    simp only
    rw [if_pos (by omega)]

theorem allocateIp_finishes_second : ∃ s, ServerReachable s ∧ s.table.leases.length = 1 ∧
    ∃ n x, s.table.Free x ∧ ∀ k, n ≤ k →
      allocateIp s.table ⟨0, (List.range k).map id, 0⟩ 0 clientB = .ok (0, x, s.table) := by
  obtain ⟨trace, s, hrun, hs⟩ := exists_execution mainLoop dhcpSetup
    [⟨⟨0, [], 0⟩, selectingRequest clientA 0 0xC0A80002⟩]
    (fun _ s ↦ s.table = ⟨[⟨0, 0xC0A80002, clientA⟩], 1⟩) (by decide +kernel)
  have ht := of_decide_eq_true hs
  have hother : ∀ lease ∈ s.table.leases, lease.chaddr ≠ clientB := by
    rw [ht]
    decide
  have hlow : s.table.numOfLease ≤ ipAddressPoolAmount - 1 := by
    rw [ht]
    decide
  have hcovers : Covers id := fun r hr ↦ ⟨r, Nat.mod_eq_of_lt hr⟩
  refine ⟨s, ⟨trace, hrun⟩, by rw [ht]; rfl, ?_⟩
  exact ((allocateIp_finishes ⟨trace, hrun⟩ hother 0).1 hlow).2.1 id hcovers 0 0

end InternetApplications.Dhcp
