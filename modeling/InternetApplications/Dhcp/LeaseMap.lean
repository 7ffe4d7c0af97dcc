import InternetApplications.Dhcp.ServerRuns
import Mathlib.Logic.Function.Basic

namespace InternetApplications.Dhcp

open KeyedList Executions LeaseTable

/-- What the lease list stands for: the client that holds an address, and since when. -/
abbrev LeaseMap := UInt32 → Option (Mac × ℕ)

namespace LeaseMap

def holder (M : LeaseMap) (x : UInt32) : Option Mac := (M x).map Prod.fst

/-- A present address keeps its holder. -/
def add (M : LeaseMap) (x : UInt32) (m : Mac) (now : ℕ) : LeaseMap :=
  Function.update M x (some ((M.holder x).getD m, now))

def delete (M : LeaseMap) (x : UInt32) (m : Mac) : LeaseMap :=
  if M.holder x = some m then Function.update M x none else M

end LeaseMap

namespace LeaseTable

variable {t t' : LeaseTable} {env : Env} {now : ℕ} {stale x y : UInt32} {m : Mac} {r : ℤ}
  {lease : LeaseT}

def toMap (t : LeaseTable) : LeaseMap := fun x ↦
  (t.lookup x).map fun lease ↦ (lease.chaddr, lease.timeStamp)

theorem toMap_none (h : t.lookup x = none) : t.toMap x = none := by rw [toMap, h, Option.map_none]

theorem toMap_some (h : t.lookup x = some lease) :
    t.toMap x = some (lease.chaddr, lease.timeStamp) := by
  rw [toMap, h, Option.map_some]

theorem toMap_addLease (ht : t.Valid) (h : addLease t now x m = .ok t') :
    t'.toMap = t.toMap.add x m now := by
  funext y
  rw [LeaseMap.add, Function.update_apply, LeaseMap.holder]
  obtain ⟨lease, hl, rfl⟩ | ⟨hl, rfl, -⟩ := addLease_cases h
  · rw [toMap, lookup_stampAddr ht hl, toMap_some hl]
    by_cases hy : x = y
    · simp [hy, LeaseT.stamped]
    · rw [if_neg hy, if_neg (Ne.symm hy)]
      rfl
  · rw [toMap, lookup_append hl, toMap_none hl]
    by_cases hy : x = y
    · simp [hy]
    · rw [if_neg hy, if_neg (Ne.symm hy)]
      rfl

theorem addLease_returns (ht : t.Valid) (now : ℕ) (m : Mac)
    (hx : (t.toMap x).isSome ∨ t.leases.length + 1 < 2 ^ 31) :
    ∃ t', addLease t now x m = .ok t' := by
  rw [addLease, any_addr]
  split
  · exact ⟨_, rfl⟩
  · rename_i hl
    have hlen : t.leases.length + 1 < 2 ^ 31 := by
      refine hx.resolve_left fun hs ↦ hl ?_
      simpa [toMap] using hs
    have hc := ht.counted
    rw [intValue, if_pos (by omega)]
    exact ⟨_, rfl⟩

theorem toMap_deleteLease (ht : t.Valid) (x : UInt32) (m : Mac) :
    ∃ t', deleteLease t x m = .ok t' ∧ t'.toMap = t.toMap.delete x m := by
  rw [deleteLease, ← List.isSome_find?, LeaseMap.delete]
  cases hf : t.leases.find? fun lease ↦ lease.addr = x ∧ lease.chaddr = m with
  | none =>
    refine ⟨t, if_neg (by simp), (if_neg fun hm ↦ ?_).symm⟩
    obtain ⟨⟨m', stamp⟩, hx, rfl⟩ := Option.map_eq_some_iff.mp hm
    obtain ⟨lease, hl, he⟩ := Option.map_eq_some_iff.mp hx
    obtain ⟨hmem, haddr⟩ := lookup_some hl
    have hno := List.find?_eq_none.mp hf lease hmem
    cases he
    simp [haddr] at hno
  | some lease =>
    have hmem := List.mem_of_find?_eq_some hf
    have hp := List.find?_some hf
    simp only [decide_eq_true_eq] at hp
    obtain ⟨rfl, rfl⟩ := hp
    have hl := lookup_mem ht hmem
    have hc := ht.counted
    have hs := ht.small
    refine ⟨t.erase lease.addr lease.chaddr, ?_, ?_⟩
    · rw [Option.isSome_some, if_pos rfl, intValue, if_pos (by omega)]
      rfl
    · funext y
      rw [LeaseMap.holder, toMap_some hl, Option.map_some, if_pos rfl, Function.update_apply, toMap,
        show (t.erase lease.addr lease.chaddr).lookup y = _ from view_eraseP ht.distinct hf]
      by_cases hy : lease.addr = y
      · rw [if_pos hy, if_pos hy.symm, Option.map_none]
      · rw [if_neg hy, if_neg (Ne.symm hy)]
        rfl

theorem toMap_allocateIp (ht : t.Valid) (h : allocateIp t env stale m = .ok (r, y, t')) :
    t'.toMap.holder = t.toMap.holder ∧ ∃ x, ∀ z, z ≠ x → t'.toMap z = t.toMap z := by
  obtain ⟨lease, hl, -, -, rfl⟩ | ⟨-, -, -, rfl, -⟩ | ⟨-, -, -, -, rfl⟩ := allocateIp_cases h
  · have hlook := lookup_mem ht (firstOf_some hl).1
    refine ⟨?_, lease.addr, fun z hz ↦ ?_⟩
    · funext z
      rw [LeaseMap.holder, LeaseMap.holder, toMap, lookup_stampMac ht hl]
      by_cases hz : lease.addr = z
      · subst hz
        rw [if_pos rfl, toMap_some hlook]
        rfl
      · rw [if_neg hz]
        rfl
    · rw [toMap, lookup_stampMac ht hl, if_neg (Ne.symm hz)]
      rfl
  · exact ⟨rfl, 0, fun _ _ ↦ rfl⟩
  · exact ⟨rfl, 0, fun _ _ ↦ rfl⟩

end LeaseTable

/-- In every reachable state the addresses are distinct, the counter is the
length, and the operations on the list are the operations on the map. -/
theorem lease_list_refines_map {s : Server} (h : ServerReachable s) :
    Distinct LeaseT.addr s.table.leases ∧
    s.table.numOfLease = s.table.leases.length ∧
    (∀ now x m t', addLease s.table now x m = .ok t' →
      t'.toMap = s.table.toMap.add x m now) ∧
    (∀ now x m, (s.table.toMap x).isSome ∨ s.table.leases.length + 1 < 2 ^ 31 →
      ∃ t', addLease s.table now x m = .ok t') ∧
    (∀ x m, ∃ t', deleteLease s.table x m = .ok t' ∧ t'.toMap = s.table.toMap.delete x m) ∧
    (∀ env stale m r y t', allocateIp s.table env stale m = .ok (r, y, t') →
      t'.toMap.holder = s.table.toMap.holder ∧
        ∃ x, ∀ z, z ≠ x → t'.toMap z = s.table.toMap z) :=
  ⟨h.valid.distinct, h.valid.counted, fun _ _ _ _ ↦ toMap_addLease h.valid,
    fun now _ m ↦ addLease_returns h.valid now m, toMap_deleteLease h.valid,
    fun _ _ _ _ _ _ ↦ toMap_allocateIp h.valid⟩

theorem lease_list_refines_map_two : ∃ s : Server, s.table.leases.length = 2 ∧
    Distinct LeaseT.addr s.table.leases ∧
    s.table.numOfLease = s.table.leases.length := by
  obtain ⟨trace, s, hrun, hs⟩ := exists_execution mainLoop dhcpSetup
    [⟨⟨0, [], 0⟩, selectingRequest clientA 0 0xC0A80002⟩,
      ⟨⟨1, [], 0⟩, selectingRequest clientB 0 0xC0A80003⟩,
      ⟨⟨2, [], 0⟩, selectingRequest clientA 0 0xC0A80002⟩]
    (fun _ s ↦ s.table.leases.length = 2) (by decide +kernel)
  have h := lease_list_refines_map ⟨trace, hrun⟩
  exact ⟨s, by simpa using hs, h.1, h.2.1⟩

end InternetApplications.Dhcp
