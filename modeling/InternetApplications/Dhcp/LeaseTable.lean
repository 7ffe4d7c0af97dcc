import InternetApplications.Dhcp.Server

namespace InternetApplications.Dhcp

open KeyedList Executions

def InPool (x : UInt32) : Prop :=
  ipAddressPoolStart ≤ x ∧ x ≤ ipAddressPoolStart + UInt32.ofNat ipAddressPoolAmount - 1

instance (x : UInt32) : Decidable (InPool x) := inferInstanceAs (Decidable (_ ∧ _))

theorem inPool_probe (r : ℕ) :
    InPool (ipAddressPoolStart + UInt32.ofNat (r % ipAddressPoolAmount)) := by
  have hr : r % 100 < 100 := Nat.mod_lt _ (by omega)
  simp only [InPool, ipAddressPoolStart, ipAddressPoolAmount, UInt32.le_iff_toNat_le,
    UInt32.toNat_add, UInt32.toNat_sub, UInt32.toNat_ofNat', UInt32.reduceOfNat,
    UInt32.toNat_ofNat]
  omega

theorem inPool_offset {x : UInt32} (h : InPool x) :
    ∃ n ∈ List.range ipAddressPoolAmount, ipAddressPoolStart + UInt32.ofNat n = x := by
  simp only [InPool, ipAddressPoolStart, ipAddressPoolAmount, UInt32.le_iff_toNat_le,
    UInt32.toNat_add, UInt32.toNat_sub, UInt32.reduceOfNat, UInt32.toNat_ofNat] at h
  refine ⟨x.toNat - 3232235522, ?_, ?_⟩
  · simp only [List.mem_range, ipAddressPoolAmount]
    omega
  · simp only [ipAddressPoolStart, ← UInt32.toNat_inj, UInt32.toNat_add, UInt32.toNat_ofNat',
      UInt32.toNat_ofNat]
    omega

namespace LeaseT

def Live (lease : LeaseT) (now : ℕ) : Prop := now < lease.timeStamp + ipAddressLeaseTime

instance (lease : LeaseT) (now : ℕ) : Decidable (lease.Live now) :=
  inferInstanceAs (Decidable (_ < _))

def stamped (now : ℕ) (lease : LeaseT) : LeaseT := { lease with timeStamp := now }

end LeaseT

namespace LeaseTable

variable {t t' : LeaseTable} {now : ℕ} {x y : UInt32} {m : Mac} {lease : LeaseT}

def lookup (t : LeaseTable) (x : UInt32) : Option LeaseT := view LeaseT.addr t.leases x

def firstOf (t : LeaseTable) (m : Mac) : Option LeaseT :=
  t.leases.find? fun lease ↦ lease.chaddr = m

def stampAddr (t : LeaseTable) (now : ℕ) (x : UInt32) : LeaseTable :=
  { t with leases := touch (fun lease ↦ lease.addr = x) (LeaseT.stamped now) t.leases }

def stampMac (t : LeaseTable) (now : ℕ) (m : Mac) : LeaseTable :=
  { t with leases := touch (fun lease ↦ lease.chaddr = m) (LeaseT.stamped now) t.leases }

def append (t : LeaseTable) (lease : LeaseT) : LeaseTable :=
  ⟨t.leases ++ [lease], t.numOfLease + 1⟩

def erase (t : LeaseTable) (x : UInt32) (m : Mac) : LeaseTable :=
  ⟨t.leases.eraseP fun lease ↦ lease.addr = x ∧ lease.chaddr = m, t.numOfLease - 1⟩

/-- The addresses are distinct and the counter, an `int`, is the length. -/
structure Valid (t : LeaseTable) : Prop where
  distinct : Distinct LeaseT.addr t.leases
  counted : t.numOfLease = t.leases.length
  small : t.numOfLease < 2 ^ 31

theorem lookup_some (h : t.lookup x = some lease) : lease ∈ t.leases ∧ lease.addr = x :=
  view_some h

theorem lookup_mem (ht : t.Valid) (h : lease ∈ t.leases) : t.lookup lease.addr = some lease :=
  view_mem ht.distinct h

theorem firstOf_some (h : t.firstOf m = some lease) : lease ∈ t.leases ∧ lease.chaddr = m := by
  refine ⟨List.mem_of_find?_eq_some h, ?_⟩
  simpa using List.find?_some h

theorem firstOf_none (h : t.firstOf m = none) (hl : lease ∈ t.leases) : lease.chaddr ≠ m := by
  simpa using List.find?_eq_none.mp h lease hl

theorem find?_addr (t : LeaseTable) (x : UInt32) :
    t.leases.find? (fun lease ↦ lease.addr = x) = t.lookup x := rfl

theorem any_addr : t.leases.any (fun lease ↦ lease.addr = x) = (t.lookup x).isSome := by
  rw [← find?_addr, List.isSome_find?]

theorem Valid.stampAddr (ht : t.Valid) : (t.stampAddr now x).Valid :=
  ⟨ht.distinct.touch fun _ ↦ rfl, by simpa [LeaseTable.stampAddr] using ht.counted, ht.small⟩

theorem Valid.stampMac (ht : t.Valid) : (t.stampMac now m).Valid :=
  ⟨ht.distinct.touch fun _ ↦ rfl, by simpa [LeaseTable.stampMac] using ht.counted, ht.small⟩

theorem Valid.append (ht : t.Valid) (hx : t.lookup lease.addr = none)
    (hn : t.numOfLease + 1 < 2 ^ 31) : (t.append lease).Valid :=
  ⟨ht.distinct.append hx, by simp [LeaseTable.append, ht.counted], hn⟩

theorem Valid.erase (ht : t.Valid)
    (hx : t.leases.find? (fun lease ↦ lease.addr = x ∧ lease.chaddr = m) = some lease) :
    (t.erase x m).Valid := by
  refine ⟨ht.distinct.eraseP, ?_, ?_⟩
  · have hl := length_eraseP hx
    have hc := ht.counted
    simp only [LeaseTable.erase]
    omega
  · have hs := ht.small
    simp only [LeaseTable.erase]
    omega

theorem lookup_stampAddr (ht : t.Valid) (h : t.lookup x = some lease) (y : UInt32) :
    (t.stampAddr now x).lookup y = if x = y then some (lease.stamped now) else t.lookup y := by
  rw [← (lookup_some h).2]
  rw [← (lookup_some h).2] at h
  exact view_touch (fun _ ↦ rfl) ht.distinct h

theorem lookup_stampMac (ht : t.Valid) (h : t.firstOf m = some lease) (y : UInt32) :
    (t.stampMac now m).lookup y =
      if lease.addr = y then some (lease.stamped now) else t.lookup y :=
  view_touch (fun _ ↦ rfl) ht.distinct h

theorem lookup_append (h : t.lookup lease.addr = none) (y : UInt32) :
    (t.append lease).lookup y = if lease.addr = y then some lease else t.lookup y :=
  view_append h

end LeaseTable

open LeaseTable

section Check

variable {t : LeaseTable} {now : ℕ} {x : UInt32} {m : Mac}

theorem checkLeases_pos (l : List LeaseT) : 0 < checkLeases now x m l ↔
    ∀ lease, view LeaseT.addr l x = some lease → lease.Live now → lease.chaddr = m := by
  induction l with
  | nil => simp [checkLeases, view]
  | cons head rest ih =>
    rw [checkLeases, view_cons]
    split
    · rename_i hx
      simp only [Option.some.injEq, forall_eq', LeaseT.Live]
      split
      · rename_i hlive
        split
        · rename_i hm
          exact ⟨fun h ↦ absurd h (by decide), fun h ↦ absurd (h hlive) hm⟩
        · rename_i hm
          exact ⟨fun _ _ ↦ not_not.mp hm, fun _ ↦ by decide⟩
      · rename_i hlive
        exact ⟨fun _ h ↦ absurd h hlive, fun _ ↦ by decide⟩
    · exact ih

/-- The address is usable: in the pool, and not under another client's live lease. -/
theorem checkIpaddr_pos : 0 < checkIpaddr t now x m ↔
    InPool x ∧ ∀ lease, t.lookup x = some lease → lease.Live now → lease.chaddr = m := by
  have hpool : (x < ipAddressPoolStart ∨
      x > ipAddressPoolStart + UInt32.ofNat ipAddressPoolAmount - 1) ↔ ¬InPool x := by
    simp only [InPool, not_and_or, UInt32.not_le, gt_iff_lt]
  rw [checkIpaddr]
  split
  · rename_i h
    exact ⟨fun hp ↦ absurd hp (by decide), fun hp ↦ absurd hp.1 (hpool.mp h)⟩
  · rename_i h
    rw [hpool, not_not] at h
    rw [checkLeases_pos]
    exact ⟨fun hl ↦ ⟨h, hl⟩, fun hl ↦ hl.2⟩

end Check

section Walks

variable {t t' : LeaseTable} {env : Env} {now : ℕ} {stale x y : UInt32} {m : Mac} {r : ℤ}

theorem probe_ok {leases : List LeaseT} {draws : List ℕ} (h : probe leases draws = .ok y) :
    InPool y ∧ view LeaseT.addr leases y = none := by
  induction draws with
  | nil => cases h
  | cons d draws ih =>
    simp only [probe] at h
    split at h
    · exact ih h
    · rename_i hfree
      obtain rfl := Except.ok.inj h
      refine ⟨inPool_probe d, ?_⟩
      simpa [view] using hfree

/-- How `allocate_ip` can return: the client's first lease, renewed; nothing,
the pool counting as full; or an address that no lease has. -/
theorem allocateIp_cases (h : allocateIp t env stale m = .ok (r, y, t')) :
    (∃ lease, t.firstOf m = some lease ∧ r = 0 ∧ y = lease.addr ∧
      t' = t.stampMac env.now m) ∨
    (t.firstOf m = none ∧ r = -1 ∧ y = stale ∧ t' = t ∧ (ipAddressPoolAmount : ℤ) ≤ t.numOfLease) ∨
    (t.firstOf m = none ∧ r = 0 ∧ InPool y ∧ t.lookup y = none ∧ t' = t) := by
  rw [allocateIp] at h
  split at h
  · rename_i lease hl
    cases h
    exact .inl ⟨lease, hl, rfl, rfl, rfl⟩
  · rename_i hl
    split at h
    · cases h
      exact .inr (.inl ⟨hl, rfl, rfl, rfl, by omega⟩)
    · obtain ⟨ip, hip, h⟩ := bind_eq_ok.mp h
      cases h
      obtain ⟨hpool, hfree⟩ := probe_ok hip
      exact .inr (.inr ⟨hl, rfl, hpool, hfree, rfl⟩)

theorem allocateIp_valid (ht : t.Valid) (h : allocateIp t env stale m = .ok (r, y, t')) :
    t'.Valid := by
  obtain ⟨_, _, _, _, rfl⟩ | ⟨_, _, _, rfl, _⟩ | ⟨_, _, _, _, rfl⟩ := allocateIp_cases h
  · exact ht.stampMac
  · exact ht
  · exact ht

theorem intValue_ok {n k : ℤ} (h : intValue n = .ok k) : k = n ∧ -2 ^ 31 ≤ n ∧ n < 2 ^ 31 := by
  rw [intValue] at h
  split at h
  · rename_i hn
    cases h
    exact ⟨rfl, hn⟩
  · cases h

theorem addLease_cases (h : addLease t now x m = .ok t') :
    (∃ lease, t.lookup x = some lease ∧ t' = t.stampAddr now x) ∨
    (t.lookup x = none ∧ t' = t.append ⟨now, x, m⟩ ∧ t.numOfLease + 1 < 2 ^ 31) := by
  rw [addLease, any_addr] at h
  split at h
  · rename_i hl
    obtain ⟨lease, hl⟩ := Option.isSome_iff_exists.mp hl
    cases h
    exact .inl ⟨lease, hl, rfl⟩
  · rename_i hl
    obtain ⟨n, hn, h⟩ := bind_eq_ok.mp h
    obtain ⟨rfl, -, hlt⟩ := intValue_ok hn
    cases h
    exact .inr ⟨by simpa using hl, rfl, hlt⟩

theorem addLease_valid (ht : t.Valid) (h : addLease t now x m = .ok t') : t'.Valid := by
  obtain ⟨_, _, rfl⟩ | ⟨hl, rfl, hn⟩ := addLease_cases h
  · exact ht.stampAddr
  · exact ht.append hl hn

theorem deleteLease_cases (h : deleteLease t x m = .ok t') :
    (∃ lease, t.leases.find? (fun lease ↦ lease.addr = x ∧ lease.chaddr = m) = some lease ∧
      t' = t.erase x m) ∨
    (t.leases.find? (fun lease ↦ lease.addr = x ∧ lease.chaddr = m) = none ∧ t' = t) := by
  rw [deleteLease, ← List.isSome_find?] at h
  split at h
  · rename_i hl
    obtain ⟨lease, hl⟩ := Option.isSome_iff_exists.mp hl
    obtain ⟨n, hn, h⟩ := bind_eq_ok.mp h
    obtain ⟨rfl, -⟩ := intValue_ok hn
    cases h
    exact .inl ⟨lease, hl, rfl⟩
  · rename_i hl
    cases h
    exact .inr ⟨by simpa using hl, rfl⟩

theorem deleteLease_valid (ht : t.Valid) (h : deleteLease t x m = .ok t') : t'.Valid := by
  obtain ⟨_, hl, rfl⟩ | ⟨_, rfl⟩ := deleteLease_cases h
  · exact ht.erase hl
  · exact ht

end Walks

end InternetApplications.Dhcp
