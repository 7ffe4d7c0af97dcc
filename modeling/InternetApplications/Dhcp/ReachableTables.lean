import Mathlib.Tactic.TFAE
import InternetApplications.Dhcp.DiscoverExchange
import InternetApplications.Dhcp.ExclusiveGrant
import InternetApplications.Dhcp.Reaction

namespace InternetApplications.Dhcp

open ByteMemory TagScan KeyedList Executions LeaseTable Client

def ComesTo (A : Event → Prop) (now : ℕ) (t : LeaseTable) : Prop :=
  ∃ trace s, Execution mainLoop dhcpSetup trace s ∧ s.table = t ∧ (∀ e ∈ trace, A e) ∧
    trace.Pairwise (fun e f ↦ Event.now e ≤ Event.now f) ∧ ∀ e ∈ trace, Event.now e ≤ now

/-- The datagram is one that the repository's client sends when it has no address. -/
def Event.Asks (type : UInt8) (e : Event) : Prop :=
  ∃ (c : Client) (m : Sent) (mac : Mac), c.IsRequest m inaddrAny mac type ∧
    e.input.datagram = m.payload

def LetsRecord (A : Event → Prop) (P : UInt32 → Prop) : Prop :=
  ∀ (s : Server) (now : ℕ) (x : UInt32) (mac : Mac) (t : LeaseTable), P x →
    (∀ lease, s.table.lookup x = some lease → lease.chaddr = mac) →
    addLease s.table now x mac = .ok t →
    ∃ i s' out, i.env.now = now ∧ mainLoop s i = .ok (s', out) ∧ s'.table = t ∧ A ⟨s, i, out, s'⟩

section Building

variable {A B : Event → Prop} {P : UInt32 → Prop} {now now' : ℕ} {t t' : LeaseTable} {x : UInt32}
  {mac : Mac}

theorem ComesTo.mono (h : ComesTo A now t) (hab : ∀ e, A e → B e) : ComesTo B now t := by
  obtain ⟨trace, s, hrun, ht, ha, hclock, hnow⟩ := h
  exact ⟨trace, s, hrun, ht, fun e he ↦ hab e (ha e he), hclock, hnow⟩

theorem ComesTo.later (h : ComesTo A now t) (hle : now ≤ now') : ComesTo A now' t := by
  obtain ⟨trace, s, hrun, ht, ha, hclock, hnow⟩ := h
  exact ⟨trace, s, hrun, ht, ha, hclock, fun e he ↦ (hnow e he).trans hle⟩

theorem ComesTo.record (h : ComesTo A now t) (hA : LetsRecord A P) (hle : now ≤ now') (hx : P x)
    (hown : ∀ lease, t.lookup x = some lease → lease.chaddr = mac)
    (hadd : addLease t now' x mac = .ok t') : ComesTo A now' t' := by
  obtain ⟨trace, s, hrun, rfl, ha, hclock, hnow⟩ := h
  obtain ⟨i, s', out, rfl, hstep, ht, he⟩ := hA s now' x mac t' hx hown hadd
  refine ⟨trace ++ [⟨s, i, out, s'⟩], s', hrun.append (.one hstep), ht, ?_, ?_, ?_⟩
  · exact List.forall_mem_append.mpr ⟨ha, List.forall_mem_singleton.mpr he⟩
  · refine List.pairwise_append.mpr ⟨hclock, List.pairwise_singleton _ _, fun e he f hf ↦ ?_⟩
    rw [List.mem_singleton.mp hf]
    exact (hnow e he).trans hle
  · refine List.forall_mem_append.mpr ⟨fun e he ↦ (hnow e he).trans hle, ?_⟩
    exact List.forall_mem_singleton.mpr (le_refl _)

def unstamped (rest leases : List LeaseT) : LeaseTable :=
  ⟨leases.map fun lease ↦ if lease ∈ rest then lease.stamped 0 else lease, leases.length⟩

@[simp] theorem stamping_addr (rest : List LeaseT) (lease : LeaseT) :
    (if lease ∈ rest then lease.stamped 0 else lease).addr = lease.addr := by
  split <;> rfl

@[simp] theorem stamping_chaddr (rest : List LeaseT) (lease : LeaseT) :
    (if lease ∈ rest then lease.stamped 0 else lease).chaddr = lease.chaddr := by
  split <;> rfl

variable {leases rest : List LeaseT} {lease : LeaseT}

theorem unstamped_valid (rest : List LeaseT) (hd : Distinct LeaseT.addr leases)
    (hlen : leases.length < 2 ^ 31) : (unstamped rest leases).Valid := by
  refine ⟨?_, by simp [unstamped], ?_⟩
  · simpa [unstamped, Distinct, Function.comp_def] using hd
  · have hcounted : (unstamped rest leases).numOfLease = leases.length := rfl
    omega

theorem lookup_unstamped (rest : List LeaseT) (hd : Distinct LeaseT.addr leases)
    (hlen : leases.length < 2 ^ 31) (hmem : lease ∈ leases) :
    (unstamped rest leases).lookup lease.addr =
      some (if lease ∈ rest then lease.stamped 0 else lease) := by
  have hvalid := unstamped_valid rest hd hlen
  have hl := lookup_mem hvalid (List.mem_map_of_mem hmem)
  rwa [stamping_addr] at hl

theorem lookup_unstamped_none (rest : List LeaseT)
    (hd : Distinct LeaseT.addr (leases ++ [lease])) :
    (unstamped rest leases).lookup lease.addr = none := by
  apply view_eq_none.mpr
  intro found hfound haddr
  obtain ⟨l, hl, rfl⟩ := List.mem_map.mp hfound
  rw [stamping_addr] at haddr
  rw [Distinct, List.map_append, List.nodup_append] at hd
  exact hd.2.2 _ (List.mem_map_of_mem hl) _ (List.mem_map_of_mem List.mem_cons_self) haddr

theorem unstamped_self (leases : List LeaseT) :
    unstamped leases leases = ⟨leases.map (LeaseT.stamped 0), leases.length⟩ := by
  rw [unstamped, List.map_congr_left fun lease hl ↦ if_pos hl]

/-- One lease after the other can be recorded, all of them at the start. -/
theorem comesTo_unstamped (hA : LetsRecord A P) (hd : Distinct LeaseT.addr leases)
    (hlen : leases.length < 2 ^ 31) (hP : ∀ lease ∈ leases, P lease.addr) :
    ComesTo A 0 (unstamped leases leases) := by
  induction leases using List.reverseRecOn with
  | nil =>
    refine ⟨[], dhcpSetup, .nil _, rfl, fun e he ↦ ?_, .nil, fun e he ↦ ?_⟩
    · cases he
    · cases he
  | append_singleton leases lease ih =>
    have hd' : Distinct LeaseT.addr leases := hd.sublist ((List.sublist_append_left _ _).map _)
    have hlen' : leases.length + 1 < 2 ^ 31 := by simpa using hlen
    have hprev := ih hd' (by omega) fun l hl ↦ hP l (List.mem_append_left _ hl)
    have hnone := lookup_unstamped_none leases hd
    obtain ⟨t, hadd⟩ := addLease_returns (x := lease.addr) (unstamped_valid leases hd' (by omega)) 0
      lease.chaddr (.inr (by simpa [unstamped] using hlen'))
    have ht : t = unstamped (leases ++ [lease]) (leases ++ [lease]) := by
      obtain ⟨_, hsome, -⟩ | ⟨-, rfl, -⟩ := addLease_cases hadd
      · cases hnone.symm.trans hsome
      · rw [unstamped_self, unstamped_self, LeaseTable.append]
        simp [LeaseT.stamped]
    rw [← ht]
    refine hprev.record hA le_rfl (hP lease (List.mem_append_right _ List.mem_cons_self)) ?_ hadd
    intro found hsome
    cases hnone.symm.trans hsome

/-- And then be renewed, in the order of their times. -/
theorem comesTo_stamped (hA : LetsRecord A P) (hd : Distinct LeaseT.addr leases)
    (hlen : leases.length < 2 ^ 31) (hP : ∀ lease ∈ leases, P lease.addr)
    (hrest : ∀ lease ∈ rest, lease ∈ leases) (hnodup : rest.Nodup)
    (hsorted : rest.Pairwise fun a b ↦ a.timeStamp ≤ b.timeStamp)
    (hnow : ∀ lease ∈ rest, now ≤ lease.timeStamp ∧ lease.timeStamp ≤ now') (hle : now ≤ now')
    (h : ComesTo A now (unstamped rest leases)) : ComesTo A now' ⟨leases, leases.length⟩ := by
  induction rest generalizing now with
  | nil => simpa [unstamped] using h.later hle
  | cons lease rest ih =>
    obtain ⟨hmem, hrest'⟩ := List.forall_mem_cons.mp hrest
    obtain ⟨hnotin, hnodup'⟩ := List.nodup_cons.mp hnodup
    obtain ⟨hfirst, hsorted'⟩ := List.pairwise_cons.mp hsorted
    obtain ⟨⟨hearly, hlate⟩, hnow'⟩ := List.forall_mem_cons.mp hnow
    have hlookup := lookup_unstamped (lease :: rest) hd hlen hmem
    have hstamp : (unstamped (lease :: rest) leases).stampAddr lease.timeStamp lease.addr =
        unstamped rest leases := by
      rw [LeaseTable.stampAddr, unstamped, unstamped,
        touch_map (fun l ↦ stamping_addr (lease :: rest) l) hd hmem, LeaseTable.mk.injEq]
      refine ⟨List.map_congr_left fun l _ ↦ ?_, rfl⟩
      by_cases hl : l = lease
      · subst hl
        simp [hnotin, LeaseT.stamped]
      · simp [hl]
    have hadd : addLease (unstamped (lease :: rest) leases) lease.timeStamp lease.addr lease.chaddr =
        .ok (unstamped rest leases) := by
      obtain ⟨t, hadd⟩ := addLease_returns (x := lease.addr)
        (unstamped_valid (lease :: rest) hd hlen) lease.timeStamp lease.chaddr
        (.inl (by simp [LeaseTable.toMap, hlookup]))
      obtain ⟨_, -, rfl⟩ | ⟨hnone, -, -⟩ := addLease_cases hadd
      · rw [hadd, hstamp]
      · cases hlookup.symm.trans hnone
    refine ih hrest' hnodup' hsorted' (fun other ho ↦ ⟨hfirst other ho, (hnow' other ho).2⟩) hlate ?_
    refine h.record hA hearly (hP lease hmem) (fun found hfound ↦ ?_) hadd
    rw [hlookup] at hfound
    cases hfound
    exact stamping_chaddr _ _

theorem Valid.comesTo (hA : LetsRecord A P) (ht : t.Valid) (hP : ∀ lease ∈ t.leases, P lease.addr)
    (hs : StampedBy now t) : ComesTo A now t := by
  obtain ⟨leases, n⟩ := t
  obtain ⟨hd, hcounted, hsmall⟩ := ht
  have hn : n = leases.length := hcounted
  subst hn
  have hlen : leases.length < 2 ^ 31 := by
    simp only at hsmall
    omega
  obtain ⟨rest, hperm, hsorted⟩ : ∃ rest : List LeaseT, rest.Perm leases ∧
      rest.Pairwise fun a b ↦ a.timeStamp ≤ b.timeStamp := by
    refine ⟨leases.mergeSort fun a b ↦ a.timeStamp ≤ b.timeStamp, leases.mergeSort_perm _, ?_⟩
    have hpairwise : (leases.mergeSort fun a b ↦ a.timeStamp ≤ b.timeStamp).Pairwise
        fun a b ↦ decide (a.timeStamp ≤ b.timeStamp) = true :=
      List.pairwise_mergeSort (fun a b c ↦ by simpa using Nat.le_trans)
        (fun a b ↦ by simpa using Nat.le_total _ _) leases
    simpa using hpairwise
  have hsame : unstamped rest leases = unstamped leases leases := by simp [unstamped, hperm.mem_iff]
  refine comesTo_stamped hA hd hlen hP (fun lease hl ↦ hperm.subset hl)
    (hperm.nodup_iff.mpr (List.Nodup.of_map _ hd)) hsorted
    (fun lease hl ↦ ⟨Nat.zero_le _, hs lease (hperm.subset hl)⟩) (Nat.zero_le now) ?_
  rw [hsame]
  exact comesTo_unstamped hA hd hlen hP

end Building

theorem informs_record : LetsRecord (Event.Asks dhcpinform) fun _ ↦ True := by
  intro s now x mac t _ _ hadd
  obtain ⟨c, m, hyiaddr, -, hrequest⟩ := exists_isRequest mac inaddrAny x dhcpinform
  have hreads : ReadsRequest (s.received ⟨⟨now, [], 0⟩, m.payload⟩) c inaddrAny mac dhcpinform :=
    hrequest.reads s.dhcpRecv
  obtain ⟨ho, -⟩ := hreads.messageType
  obtain ⟨o, hg, hx⟩ := hreads.requested rfl
  have hchaddr : (s.received ⟨⟨now, [], 0⟩, m.payload⟩).chaddr = mac := hreads.chaddr
  have hchosen : yourIpAddress (s.received ⟨⟨now, [], 0⟩, m.payload⟩) s.table ⟨now, [], 0⟩ dhcpack =
      .ok (some x, t) := by
    rw [yourIpAddress_selected_eq _ _ hreads.ciaddr (hreads.requestedOption rfl), hyiaddr, hchaddr,
      hadd, ok_bind]
  have hreacts : ∃ out, reaction (s.received ⟨⟨now, [], 0⟩, m.payload⟩) s.table ⟨now, [], 0⟩ =
      .ok (t, out) := by
    rw [reaction_of_type hreads.receivedType ho, if_neg (by decide), if_neg (by decide),
      if_neg (by decide), if_pos rfl, onInform, answer, hchosen, ok_bind]
    exact ⟨_, rfl⟩
  obtain ⟨out, hreacts⟩ := hreacts
  obtain ⟨s', hstep, ht⟩ := mainLoop_of_reaction (i := ⟨⟨now, [], 0⟩, m.payload⟩) hreacts
  exact ⟨_, s', out, rfl, hstep, ht, c, m, mac, hrequest, rfl⟩

theorem requests_record : LetsRecord (Event.Asks dhcprequest) InPool := by
  intro s now x mac t hpool hown hadd
  obtain ⟨c, m, hyiaddr, hid, hrequest⟩ := exists_isRequest mac inaddrAny x dhcprequest
  have hreads : ReadsRequest (s.received ⟨⟨now, [], 0⟩, m.payload⟩) c inaddrAny mac dhcprequest :=
    hrequest.reads s.dhcpRecv
  subst hyiaddr
  have hcheck : 0 < checkIpaddr s.table now c.yiaddr mac :=
    checkIpaddr_pos.mpr ⟨hpool, fun lease hl _ ↦ hown lease hl⟩
  obtain ⟨s', sent, hstep, ht, -⟩ :=
    mainLoop_selecting (i := ⟨⟨now, [], 0⟩, m.payload⟩) hreads hid hcheck hadd
  exact ⟨_, s', some sent, rfl, hstep, ht, c, m, mac, hrequest, rfl⟩

section Invariants

variable {A : Event → Prop} {now : ℕ} {t : LeaseTable}

theorem ComesTo.valid (h : ComesTo A now t) : t.Valid ∧ StampedBy now t := by
  obtain ⟨trace, s, hrun, rfl, -, -, hnow⟩ := h
  refine ⟨ServerReachable.valid ⟨trace, hrun⟩, ?_⟩
  exact (hrun.invariant (I := fun s ↦ StampedBy now s.table) (A := fun e ↦ Event.now e ≤ now)
    (fun e hstep hle hs ↦ (mainLoop_handled hstep).stampedBy hs hle) hnow nofun).1

theorem ComesTo.inPool (h : ComesTo (fun e ↦ ¬InformsOutside e.before e.input) now t) :
    AllInPool t := by
  obtain ⟨trace, s, hrun, rfl, hinside, -, -⟩ := h
  exact (hrun.invariant (I := fun s ↦ AllInPool s.table)
    (A := fun e ↦ ¬InformsOutside e.before e.input)
    (fun e hstep hno hs ↦ (mainLoop_handled hstep).inPool hno hs) hinside nofun).1

end Invariants

/-- What the server can have on record is any list of fewer than 2^31 leases with distinct addresses,
with any clients and any times up to now, and informs of the repository's client are enough to bring
it about. Without informs that name an address outside the pool it is any such list of addresses of
the pool, and requests are enough. So nothing more can be relied on of the table than what each
operation keeps. -/
theorem reachable_tables (now : ℕ) (t : LeaseTable) :
    [ComesTo (fun _ ↦ True) now t, ComesTo (Event.Asks dhcpinform) now t,
      t.Valid ∧ StampedBy now t].TFAE ∧
    [ComesTo (fun e ↦ ¬InformsOutside e.before e.input) now t,
      ComesTo (Event.Asks dhcprequest) now t, t.Valid ∧ AllInPool t ∧ StampedBy now t].TFAE := by
  constructor
  · tfae_have 1 → 3 := fun h ↦ h.valid
    tfae_have 3 → 2 := fun h ↦ Valid.comesTo informs_record h.1 (fun _ _ ↦ trivial) h.2
    tfae_have 2 → 1 := fun h ↦ h.mono fun _ _ ↦ trivial
    tfae_finish
  · tfae_have 1 → 3 := fun h ↦ ⟨h.valid.1, h.inPool, h.valid.2⟩
    tfae_have 3 → 2 := fun h ↦ Valid.comesTo requests_record h.1 h.2.1 h.2.2
    tfae_have 2 → 1 := fun h ↦ h.mono fun e hasks ↦ by
      rintro ⟨hinform, -⟩
      obtain ⟨c, m, mac, hrequest, hm⟩ := hasks
      have hreads : ReadsRequest (e.before.received e.input) c inaddrAny mac dhcprequest := by
        rw [Server.received, hm]
        exact hrequest.reads e.before.dhcpRecv
      cases hinform.symm.trans hreads.receivedType
    tfae_finish

end InternetApplications.Dhcp
