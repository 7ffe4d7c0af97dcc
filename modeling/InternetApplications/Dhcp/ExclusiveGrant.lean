import InternetApplications.Dhcp.LeaseMap
import InternetApplications.Dhcp.LeaseSafety
import InternetApplications.Dhcp.ServerAnswer

namespace InternetApplications.Dhcp

open KeyedList Executions LeaseTable

structure Event.Grants (e : Event) (x : UInt32) (m : Mac) : Prop where
  request : receivedType e.packet = .ok (some dhcprequest)
  address : requestedAddress e.packet = some x
  client : e.packet.chaddr = m
  acked : ∃ sent, e.output = some sent ∧ sent.IsAck

instance (e : Event) (x : UInt32) (m : Mac) : Decidable (e.Grants x m) :=
  decidable_of_iff (receivedType e.packet = .ok (some dhcprequest) ∧
      requestedAddress e.packet = some x ∧ e.packet.chaddr = m ∧
      ∃ sent ∈ e.output, sent.messageType = some dhcpack)
    ⟨fun ⟨h₁, h₂, h₃, h₄⟩ ↦ ⟨h₁, h₂, h₃, h₄⟩, fun ⟨h₁, h₂, h₃, h₄⟩ ↦ ⟨h₁, h₂, h₃, h₄⟩⟩

structure Event.Releases (e : Event) (x : UInt32) (m : Mac) : Prop where
  release : receivedType e.packet = .ok (some dhcprelease)
  server : optionWord e.packet optionDhcpServerIdentifier = some dhcpServerIpAddress
  address : e.packet.ciaddr = x
  client : e.packet.chaddr = m

/-- The grant leaves a lease of the address to the client with the time of the grant. -/
def Secures (t : LeaseTable) (b : DhcpT) (now : ℕ) (x : UInt32) : Prop :=
  if b.ciaddr = inaddrAny then ∀ lease, t.lookup x = some lease → lease.chaddr = b.chaddr
  else ∃ lease, t.lookup x = some lease ∧ lease.chaddr = b.chaddr ∧
    (t.firstOf b.chaddr = some lease ∨ lease.timeStamp = now)

def Holding (since : ℕ) (x : UInt32) (m : Mac) (t : LeaseTable) : Prop :=
  ∃ lease ∈ t.leases, lease.addr = x ∧ lease.chaddr = m ∧ since ≤ lease.timeStamp

section Tables

variable {t t' : LeaseTable} {env : Env} {now since : ℕ} {stale x y z : UInt32} {m m' : Mac} {r : ℤ}

theorem Holding.touch {p : LeaseT → Bool} (h : Holding since x m t) (hn : since ≤ now) :
    ∃ lease ∈ touch p (LeaseT.stamped now) t.leases,
      lease.addr = x ∧ lease.chaddr = m ∧ since ≤ lease.timeStamp := by
  obtain ⟨lease, hl, hx, hm, hs⟩ := h
  rcases mem_touch_or (p := p) (f := LeaseT.stamped now) hl with hl | hl
  · exact ⟨lease, hl, hx, hm, hs⟩
  · exact ⟨_, hl, hx, hm, hn⟩

theorem allocateIp_holding (h : Holding since x m t) (hn : since ≤ env.now)
    (ha : allocateIp t env stale m' = .ok (r, y, t')) : Holding since x m t' := by
  obtain ⟨_, _, _, _, rfl⟩ | ⟨_, _, _, rfl, _⟩ | ⟨_, _, _, _, rfl⟩ := allocateIp_cases ha
  · exact h.touch hn
  · exact h
  · exact h

theorem addLease_holding (h : Holding since x m t) (hn : since ≤ now)
    (ha : addLease t now y m' = .ok t') : Holding since x m t' := by
  obtain ⟨_, _, rfl⟩ | ⟨_, rfl, _⟩ := addLease_cases ha
  · exact h.touch hn
  · obtain ⟨lease, hl, h⟩ := h
    exact ⟨lease, List.mem_append_left _ hl, h⟩

theorem deleteLease_holding (h : Holding since x m t) (hd : ¬(y = x ∧ m' = m))
    (ha : deleteLease t y m' = .ok t') : Holding since x m t' := by
  obtain ⟨lease, hl, hx, hm, hs⟩ := h
  refine ⟨lease, deleteLease_keeps ?_ hl ha, hx, hm, hs⟩
  intro hy hm'
  exact hd ⟨hy ▸ hx, hm' ▸ hm⟩

theorem Holding.refuses (ht : t.Valid) (h : Holding since x m t) (hm : m' ≠ m)
    (hp : 0 < checkIpaddr t now x m') : since + ipAddressLeaseTime ≤ now := by
  obtain ⟨lease, hl, hx, hm', hs⟩ := h
  subst hm'
  by_contra hlt
  have hlive : lease.Live now := by
    unfold LeaseT.Live
    omega
  exact checkIpaddr_live ht hl hlive hm hp hx

end Tables

theorem Handled.holding {s : Server} {i : Input} {t : LeaseTable} {out : Option Sent} {since : ℕ}
    {x : UInt32} {m : Mac} (h : Handled s i t out) (hs : Holding since x m s.table)
    (hn : since ≤ i.env.now) (hr : ¬Event.Releases ⟨s, i, out, { s with table := t }⟩ x m) :
    Holding since x m t := by
  cases h with
  | silent | offerRequested | nak => exact hs
  | offerAllocated _ ha | offerNone _ ha | ackRenewed _ _ _ ha | informKnown _ _ ha =>
    exact allocateIp_holding hs hn ha
  | ackSelected _ _ _ _ ha | informSelected _ _ _ ha => exact addLease_holding hs hn ha
  | released htype hserver hd =>
    refine deleteLease_holding hs ?_ hd
    rintro ⟨hx, hm⟩
    exact hr ⟨htype, hserver, hx, hm⟩

def StampedBy (now : ℕ) (t : LeaseTable) : Prop := ∀ lease ∈ t.leases, lease.timeStamp ≤ now

section Stamps

variable {t t' : LeaseTable} {env : Env} {now since : ℕ} {stale x y : UInt32} {m : Mac} {r : ℤ}

theorem StampedBy.touch {p : LeaseT → Bool} (h : StampedBy now t) (hn : since ≤ now) :
    ∀ lease ∈ touch p (LeaseT.stamped since) t.leases, lease.timeStamp ≤ now := by
  intro lease hl
  rcases mem_touch hl with hl | ⟨old, -, rfl⟩
  · exact h lease hl
  · exact hn

theorem allocateIp_stampedBy (h : StampedBy now t) (hn : env.now ≤ now)
    (ha : allocateIp t env stale m = .ok (r, y, t')) : StampedBy now t' := by
  obtain ⟨_, _, _, _, rfl⟩ | ⟨_, _, _, rfl, _⟩ | ⟨_, _, _, _, rfl⟩ := allocateIp_cases ha
  · exact h.touch hn
  · exact h
  · exact h

theorem addLease_stampedBy (h : StampedBy now t) (hn : since ≤ now)
    (ha : addLease t since x m = .ok t') : StampedBy now t' := by
  obtain ⟨_, _, rfl⟩ | ⟨_, rfl, _⟩ := addLease_cases ha
  · exact h.touch hn
  · intro lease hl
    rcases List.mem_append.mp hl with hl | hl
    · exact h lease hl
    · rw [List.mem_singleton.mp hl]
      exact hn

theorem deleteLease_stampedBy (h : StampedBy now t) (ha : deleteLease t x m = .ok t') :
    StampedBy now t' := by
  obtain ⟨_, _, rfl⟩ | ⟨_, rfl⟩ := deleteLease_cases ha
  · exact fun lease hl ↦ h lease (List.mem_of_mem_eraseP hl)
  · exact h

end Stamps

theorem Handled.stampedBy {s : Server} {i : Input} {t : LeaseTable} {out : Option Sent} {now : ℕ}
    (h : Handled s i t out) (hs : StampedBy now s.table) (hn : i.env.now ≤ now) :
    StampedBy now t := by
  cases h with
  | silent | offerRequested | nak => exact hs
  | offerAllocated _ ha | offerNone _ ha | ackRenewed _ _ _ ha | informKnown _ _ ha =>
    exact allocateIp_stampedBy hs hn ha
  | ackSelected _ _ _ _ ha | informSelected _ _ _ ha => exact addLease_stampedBy hs hn ha
  | released _ _ hd => exact deleteLease_stampedBy hs hd

section Grants

variable {e f : Event} {x : UInt32} {m m' : Mac}

theorem Event.Grants.cases (h : e.Grants x m)
    (hstep : mainLoop e.before e.input = .ok (e.after, e.output)) :
    0 < checkIpaddr e.before.table e.now x m ∧
    ((e.packet.ciaddr = inaddrAny ∧ addLease e.before.table e.now x m = .ok e.after.table) ∨
      (e.packet.ciaddr ≠ inaddrAny ∧ ∃ r y,
        allocateIp e.before.table e.input.env e.input.env.stale m = .ok (r, y, e.after.table))) := by
  obtain ⟨sent, hout, hack⟩ := h.acked
  rw [hout] at hstep
  obtain ⟨hrequest, hx, rfl, -⟩ := h
  rcases (mainLoop_handled hstep).of_ack hrequest hack with
    ⟨hc, y, hy, hp, hadd, -⟩ | ⟨hc, hp, r, y, halloc, -⟩
  · rw [requestedAddress, if_pos (show e.packet.ciaddr = inaddrAny from hc)] at hx
    cases hx.symm.trans hy
    exact ⟨hp, .inl ⟨hc, hadd⟩⟩
  · rw [requestedAddress, if_neg (show e.packet.ciaddr ≠ inaddrAny from hc)] at hx
    cases hx
    exact ⟨hp, .inr ⟨hc, r, y, halloc⟩⟩

theorem Event.Grants.holding (h : e.Grants x m)
    (hstep : mainLoop e.before e.input = .ok (e.after, e.output)) (ht : e.before.table.Valid)
    (hsecure : Secures e.before.table e.packet e.now x) : Holding e.now x m e.after.table := by
  have hm := h.client
  rw [Secures, hm] at hsecure
  obtain ⟨-, ⟨hc, hadd⟩ | ⟨hc, r, y, halloc⟩⟩ := h.cases hstep
  · rw [if_pos hc] at hsecure
    obtain ⟨lease, hl, hx, hm', hn⟩ := (addLease_onRecord ht hadd).mpr hsecure
    exact ⟨lease, hl, hx, hm', hn.ge⟩
  · rw [if_neg hc] at hsecure
    obtain ⟨lease, hl, hm', hfirst | hnow⟩ := hsecure
    · obtain ⟨-, lease', hl', hx, hm'', hn⟩ :=
        (allocateIp_onRecord halloc).mpr ⟨lease, hfirst, (lookup_some hl).2⟩
      exact ⟨lease', hl', hx, hm'', hn.ge⟩
    · exact allocateIp_holding ⟨lease, (lookup_some hl).1, (lookup_some hl).2, hm', hnow.ge⟩ le_rfl
        halloc

end Grants

/-- Two clients are not granted one address within the time of a lease, unless it is released. -/
def Exclusive (trace : List Event) : Prop :=
  ∀ before e between f after, trace = before ++ e :: (between ++ f :: after) →
    ∀ x m m', Event.Grants e x m → Event.Grants f x m' → m' ≠ m →
      Event.now f < Event.now e + ipAddressLeaseTime → ∃ g ∈ between, Event.Releases g x m

theorem exclusive_of_secures {trace : List Event} {u : Server}
    (h : Execution mainLoop dhcpSetup trace u)
    (hclock : trace.Pairwise fun e f ↦ Event.now e ≤ Event.now f)
    (hsecure : ∀ e ∈ trace, ∀ x m, Event.Grants e x m →
      Secures e.before.table (Event.packet e) (Event.now e) x) : Exclusive trace := by
  rintro before e between f after rfl x m m' he hf hm hlt
  by_contra hno
  obtain ⟨hbefore, hstep, hrest⟩ := h.split_at
  obtain ⟨hbetween, hstep', -⟩ := hrest.split_at
  have ht : e.before.table.Valid := ServerReachable.valid ⟨before, hbefore⟩
  have hholding := he.holding hstep ht (hsecure e (by simp) x m he)
  have hnow := (List.pairwise_cons.mp (List.pairwise_append.mp hclock).2.1).1
  have hkept := hbetween.invariant
    (I := fun s ↦ s.table.Valid ∧ Holding (Event.now e) x m s.table)
    (A := fun g ↦ ¬Event.Releases g x m ∧ Event.now e ≤ Event.now g)
    (fun g hg ha hs ↦ ⟨mainLoop_valid hg hs.1, (mainLoop_handled hg).holding hs.2 ha.2
      (fun hr ↦ ha.1 ⟨hr.1, hr.2, hr.3, hr.4⟩)⟩)
    (fun g hg ↦ ⟨fun hr ↦ hno ⟨g, hg, hr⟩, hnow g (by simp [hg])⟩)
    ⟨mainLoop_valid hstep ht, hholding⟩
  obtain ⟨hvalid, hheld⟩ := hkept.1
  have hle := hheld.refuses hvalid hm (hf.cases hstep').1
  omega

section Insecure

variable {t t' : LeaseTable} {env : Env} {now : ℕ} {stale x y : UInt32} {m : Mac} {r : ℤ}

theorem exists_other (m : Mac) : ∃ m', m' ≠ m := by
  by_cases h : clientA = m
  · exact ⟨clientB, by rw [← h]; decide⟩
  · exact ⟨clientA, h⟩

/-- Taking over another client's expired lease renews it for that client. -/
theorem addLease_insecure {lease : LeaseT} (ht : t.Valid) (hp : 0 < checkIpaddr t now x m)
    (hl : t.lookup x = some lease) (ha : addLease t now x m = .ok t') :
    0 < checkIpaddr t' now x lease.chaddr := by
  refine checkIpaddr_pos.mpr ⟨(checkIpaddr_pos.mp hp).1, ?_⟩
  intro lease' hl' _
  obtain ⟨lease₀, hl₀, rfl⟩ | ⟨hnone, -⟩ := addLease_cases ha
  · rw [lookup_stampAddr ht hl₀, if_pos rfl] at hl'
    cases hl₀.symm.trans hl
    cases hl'
    rfl
  · rw [hl] at hnone
    cases hnone

theorem allocateIp_lookup (ht : t.Valid) (ha : allocateIp t env stale m = .ok (r, y, t'))
    (hne : ∀ lease, t.firstOf m = some lease → lease.addr ≠ x) : t'.lookup x = t.lookup x := by
  obtain ⟨lease, hl, -, -, rfl⟩ | ⟨-, -, -, rfl, -⟩ | ⟨-, -, -, -, rfl⟩ := allocateIp_cases ha
  · rw [lookup_stampMac ht hl, if_neg (hne lease hl)]
  · rfl
  · rfl

theorem allocateIp_insecure (ht : t.Valid) (hs : StampedBy env.now t)
    (hp : 0 < checkIpaddr t env.now x m)
    (hins : ¬∃ lease, t.lookup x = some lease ∧ lease.chaddr = m ∧
      (t.firstOf m = some lease ∨ lease.timeStamp = env.now))
    (ha : allocateIp t env stale m = .ok (r, y, t')) :
    ∃ m' now', m' ≠ m ∧ env.now ≤ now' ∧ now' < env.now + ipAddressLeaseTime ∧
      0 < checkIpaddr t' now' x m' := by
  obtain ⟨hpool, -⟩ := checkIpaddr_pos.mp hp
  have hlook : t'.lookup x = t.lookup x := by
    apply allocateIp_lookup ht ha
    rintro lease hl rfl
    exact hins ⟨lease, lookup_mem ht (firstOf_some hl).1, (firstOf_some hl).2, .inl hl⟩
  have hlt : ipAddressLeaseTime = 32 := rfl
  cases hx : t.lookup x with
  | none =>
    obtain ⟨m', hm'⟩ := exists_other m
    refine ⟨m', env.now, hm', le_rfl, by omega, checkIpaddr_pos.mpr ⟨hpool, ?_⟩⟩
    intro lease hl
    rw [hlook, hx] at hl
    cases hl
  | some lease =>
    by_cases hm : lease.chaddr = m
    · obtain ⟨m', hm'⟩ := exists_other m
      have hstamp : lease.timeStamp ≤ env.now := hs lease (lookup_some hx).1
      have hne : lease.timeStamp ≠ env.now := fun h ↦ hins ⟨lease, hx, hm, .inr h⟩
      refine ⟨m', max env.now (lease.timeStamp + 32), hm', by omega, by omega,
        checkIpaddr_pos.mpr ⟨hpool, ?_⟩⟩
      intro lease' hl hlive
      rw [hlook, hx] at hl
      cases hl
      unfold LeaseT.Live at hlive
      omega
    · refine ⟨lease.chaddr, env.now, hm, le_rfl, by omega, checkIpaddr_pos.mpr ⟨hpool, ?_⟩⟩
      intro lease' hl _
      rw [hlook, hx] at hl
      cases hl
      rfl

end Insecure

theorem exists_grant {s : Server} (ht : s.table.Valid) {now : ℕ} {x : UInt32} {mac : Mac}
    (hp : 0 < checkIpaddr s.table now x mac) :
    ∃ f : Event, f.before = s ∧ f.now = now ∧ mainLoop s f.input = .ok (f.after, f.output) ∧
      f.Grants x mac := by
  have hx : x ≠ inaddrAny := by
    rintro rfl
    exact absurd (checkIpaddr_pos.mp hp).1 (by decide)
  by_cases hn : s.table.numOfLease + 1 < 2 ^ 31
  · have hlen : s.table.leases.length + 1 < 2 ^ 31 := by
      have hc := ht.counted
      omega
    obtain ⟨t, hadd⟩ := addLease_returns ht (x := x) now mac (.inr hlen)
    obtain ⟨c, datagram, hyiaddr, hid, -, hread⟩ :=
      exists_request s ⟨now, [], 0⟩ mac inaddrAny x dhcprequest
    rw [← hyiaddr] at hp hadd
    obtain ⟨s', sent, hstep, -, hanswer⟩ := mainLoop_selecting hread hid hp hadd
    refine ⟨⟨s, _, some sent, s'⟩, rfl, rfl, hstep, hread.receivedType, ?_, hread.chaddr, sent, rfl,
      hanswer.messageType⟩
    have hrequested := hread.requestedOption rfl
    rw [hyiaddr] at hrequested
    exact (if_pos hread.ciaddr).trans hrequested
  · obtain ⟨r, y, t, halloc⟩ : ∃ r y t,
        allocateIp s.table ⟨now, [], 0⟩ 0 mac = .ok (r, y, t) := by
      rw [allocateIp]
      split
      · exact ⟨_, _, _, rfl⟩
      · rw [if_pos (by simp only [ipAddressPoolAmount]; omega)]
        exact ⟨_, _, _, rfl⟩
    obtain ⟨c, datagram, -, hid, -, hread⟩ := exists_request s ⟨now, [], 0⟩ mac x x dhcprequest
    obtain ⟨s', sent, hstep, -, hanswer⟩ := mainLoop_renewing hread hid hx hp halloc
    refine ⟨⟨s, _, some sent, s'⟩, rfl, rfl, hstep, hread.receivedType, ?_, hread.chaddr, sent, rfl,
      hanswer.messageType⟩
    have hne : (s.received ⟨⟨now, [], 0⟩, datagram⟩).ciaddr ≠ inaddrAny := by
      rw [hread.ciaddr]
      exact hx
    exact (if_neg hne).trans (congrArg some hread.ciaddr)

/-- A grant that does not secure the address can be followed by a grant to another client. -/
theorem insecure_followed {before : List Event} {e : Event} {u : Server} {x : UInt32} {m : Mac}
    (h : Execution mainLoop dhcpSetup (before ++ [e]) u)
    (hclock : (before ++ [e]).Pairwise fun e f ↦ Event.now e ≤ Event.now f) (he : e.Grants x m)
    (hins : ¬Secures e.before.table e.packet e.now x) :
    ∃ f : Event, mainLoop e.after f.input = .ok (f.after, f.output) ∧ f.before = e.after ∧
      e.now ≤ f.now ∧ f.now < e.now + ipAddressLeaseTime ∧ ∃ m', m' ≠ m ∧ f.Grants x m' := by
  obtain ⟨hbefore, hstep, -⟩ := h.split_at
  have ht : e.before.table.Valid := ServerReachable.valid ⟨before, hbefore⟩
  have hstamped : StampedBy e.now e.before.table := by
    refine (hbefore.invariant (I := fun s ↦ StampedBy e.now s.table)
      (A := fun g ↦ Event.now g ≤ e.now)
      (fun g hg hn hs ↦ (mainLoop_handled hg).stampedBy hs hn) ?_ ?_).1
    · intro g hg
      exact (List.pairwise_append.mp hclock).2.2 g hg e (List.mem_singleton_self e)
    · intro lease hl
      cases hl
  obtain ⟨m', now', hm, hle, hlt, hp⟩ : ∃ m' now', m' ≠ m ∧ e.now ≤ now' ∧
      now' < e.now + ipAddressLeaseTime ∧ 0 < checkIpaddr e.after.table now' x m' := by
    have hm := he.client
    rw [Secures, hm] at hins
    obtain ⟨hp, ⟨hc, hadd⟩ | ⟨hc, r, y, halloc⟩⟩ := he.cases hstep
    · rw [if_pos hc] at hins
      obtain ⟨lease, hins⟩ := not_forall.mp hins
      obtain ⟨hl, hne⟩ := Classical.not_imp.mp hins
      refine ⟨lease.chaddr, e.now, hne, le_rfl, ?_, addLease_insecure ht hp hl hadd⟩
      simp only [ipAddressLeaseTime]
      omega
    · rw [if_neg hc] at hins
      exact allocateIp_insecure ht hstamped hp hins halloc
  obtain ⟨f, hf, rfl, hstep', hgrants⟩ := exists_grant (mainLoop_valid hstep ht) hp
  exact ⟨f, hstep', hf, hle, hlt, m', hm, hgrants⟩

/-- A run in which every grant secures its address keeps the grants exclusive, and after a grant
that does not, one more request breaks it. -/
theorem exclusive_grants {trace : List Event} {u : Server}
    (h : Execution mainLoop dhcpSetup trace u)
    (hclock : trace.Pairwise fun e f ↦ Event.now e ≤ Event.now f) :
    ((∀ e ∈ trace, ∀ x m, Event.Grants e x m →
        Secures e.before.table (Event.packet e) (Event.now e) x) → Exclusive trace) ∧
    (∀ before e x m, trace = before ++ [e] → Event.Grants e x m →
      ¬Secures e.before.table (Event.packet e) (Event.now e) x →
      ∃ (f : Event) (v : Server), Execution mainLoop dhcpSetup (trace ++ [f]) v ∧
        Event.now e ≤ f.now ∧ ¬Exclusive (trace ++ [f])) := by
  refine ⟨exclusive_of_secures h hclock, ?_⟩
  rintro before e x m rfl he hins
  obtain ⟨f, hstep, hbefore, hle, hlt, m', hm, hf⟩ := insecure_followed h hclock he hins
  obtain ⟨-, -, hnil⟩ := h.split_at
  cases hnil
  refine ⟨f, f.after, h.append ?_, hle, ?_⟩
  · obtain ⟨s, i, o, t⟩ := f
    cases hbefore
    exact .one hstep
  · intro hexclusive
    obtain ⟨g, hg, -⟩ := hexclusive before e [] f [] (by simp) x m m' he hf hm hlt
    cases hg

theorem exclusive_grants_takeover : ∃ (trace : List Event) (f : Event) (v : Server),
    Execution mainLoop dhcpSetup (trace ++ [f]) v ∧ ¬Exclusive (trace ++ [f]) := by
  obtain ⟨trace, u, hrun, hu⟩ := exists_execution mainLoop dhcpSetup
    [⟨⟨0, [], 0⟩, selectingRequest clientA 0 0xC0A80002⟩,
      ⟨⟨40, [], 0⟩, selectingRequest clientB 0 0xC0A80002⟩]
    (fun trace _ ↦ match trace with
      | [e, f] => Event.now e ≤ Event.now f ∧ Event.Grants f 0xC0A80002 clientB ∧
          (Event.packet f).ciaddr = inaddrAny ∧
          f.before.table.lookup 0xC0A80002 = some ⟨0, 0xC0A80002, clientA⟩
      | _ => false) (by decide +kernel)
  match trace, hu with
  | [e, f], hu =>
    obtain ⟨hclock, hgrants, hc, hlook⟩ := of_decide_eq_true hu
    have hins : ¬Secures f.before.table (Event.packet f) (Event.now f) 0xC0A80002 := by
      rw [Secures, if_pos hc, Event.Grants.client hgrants]
      intro hall
      exact absurd (hall _ hlook) (by decide)
    obtain ⟨f', v, hrun', -, hexclusive⟩ :=
      (exclusive_grants hrun (by simpa using hclock)).2 [e] f _ _ rfl hgrants hins
    exact ⟨_, f', v, hrun', hexclusive⟩

/-- The address of an expired lease is granted to a second client, and a second later to the
first one again. -/
theorem grant_not_exclusive : ∃ (trace : List Event) (u : Server),
    Execution mainLoop dhcpSetup trace u ∧
      trace.Pairwise (fun e f ↦ Event.now e ≤ Event.now f) ∧ ¬Exclusive trace := by
  obtain ⟨trace, u, hrun, hu⟩ := exists_execution mainLoop dhcpSetup
    [⟨⟨0, [], 0⟩, selectingRequest clientA 0 0xC0A80002⟩,
      ⟨⟨40, [], 0⟩, selectingRequest clientB 0 0xC0A80002⟩,
      ⟨⟨41, [], 0⟩, selectingRequest clientA 0 0xC0A80002⟩]
    (fun trace _ ↦ match trace with
      | [d, e, f] => Event.now d = 0 ∧ Event.now e = 40 ∧ Event.now f = 41 ∧
          Event.Grants e 0xC0A80002 clientB ∧ Event.Grants f 0xC0A80002 clientA
      | _ => false) (by decide +kernel)
  match trace, hu with
  | [d, e, f], hu =>
    obtain ⟨hd, he, hf, hgrants, hgrants'⟩ := of_decide_eq_true hu
    refine ⟨_, u, hrun, by simp [hd, he, hf], ?_⟩
    intro hexclusive
    obtain ⟨g, hg, -⟩ := hexclusive [d] e [] f [] rfl _ _ _ hgrants hgrants' (by decide)
      (by rw [he, hf]; decide)
    cases hg

end InternetApplications.Dhcp
