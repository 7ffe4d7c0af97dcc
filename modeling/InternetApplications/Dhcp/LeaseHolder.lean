import InternetApplications.Dhcp.ClientCommit
import InternetApplications.Dhcp.LeaseTimers
import InternetApplications.Dhcp.Net
import InternetApplications.Dhcp.Retransmission
import InternetApplications.Dhcp.SoleClient

namespace InternetApplications.Dhcp

open ByteMemory TagScan KeyedList Executions LeaseTable Client

structure Holder where
  client : Client
  server : Server
  now : ℕ

/-- What becomes of the request that an alarm sends: it gets lost, or it reaches the server, and
then the reply gets lost, or reaches the client. -/
inductive Fate
  | lost
  | served (env : Env)
  | answered (env : Env) (host : Host)

/-- The server receives a datagram, or the client's alarm goes off. In the exchange that follows,
other deliveries come before the reply. -/
inductive Incident
  | datagram (i : Input)
  | alarm (host : Host) (others : List Delivery) (fate : Fate)

def Incident.answered : Incident → Option Bool
  | .datagram _ => none
  | .alarm _ _ (.answered _ _) => some true
  | .alarm _ _ _ => some false

/-- The alarm goes off when it is due. This leaves out that it is blocked while the handler of another
waits for a reply: after a rebinding without one, the last alarm comes a second late. What an alarm
sends does not depend on what comes in later. -/
def Holder.step (s : Holder) : Incident → Except Stuck (Holder × Option Sent)
  | .datagram i => do
    let (server, out) ← Stuck.lift (mainLoop s.server i)
    return (⟨s.client, server, i.env.now⟩, out)
  | .alarm host others fate =>
    if s.client.deadline = some host.now then do
      let waited ← Stuck.lift (s.client.alarmGone.leaseTimeOut host others)
      match waited.sent, fate with
      | [], _ | _, .lost => return ({ s with client := waited.client }, none)
      | m :: _, .served env =>
        let (server, _) ← Stuck.lift (mainLoop s.server ⟨env, m.payload⟩)
        return (⟨waited.client, server, env.now⟩, none)
      | m :: _, .answered env host' =>
        let (server, out) ← Stuck.lift (mainLoop s.server ⟨env, m.payload⟩)
        match out with
        | none => return (⟨waited.client, server, env.now⟩, none)
        | some reply =>
          let done ← Stuck.lift (s.client.alarmGone.leaseTimeOut host
            (others ++ [⟨host', reply.payload⟩]))
          return (⟨done.client, server, env.now⟩, out)
    else .error .disabled

structure Delays where
  request : ℕ
  reply : ℕ

/-- The clock goes on, the client's requests and the replies to them take no longer than the
delays, and other datagrams come from other clients. -/
def Incident.InTime (delays : Delays) (mac : Mac) (s : Holder) : Incident → Prop
  | .datagram i => (s.server.received i).chaddr ≠ mac ∧ s.now ≤ i.env.now ∧
    ∀ d ∈ s.client.deadline, i.env.now ≤ d + delays.request
  | .alarm host others fate => host.Succeeds ∧
    firstReply host.rand host.ackResidue others = none ∧
    match fate with
    | .lost => True
    | .served env =>
      s.now ≤ env.now ∧ host.now ≤ env.now ∧ env.now ≤ host.now + delays.request
    | .answered env host' =>
      s.now ≤ env.now ∧ host.now ≤ env.now ∧ env.now ≤ host.now + delays.request ∧
        env.now ≤ host'.now ∧ host'.now ≤ env.now + delays.reply

instance (delays : Delays) (mac : Mac) (s : Holder) : (a : Incident) → Decidable (a.InTime delays mac s)
  | .datagram _ => inferInstanceAs (Decidable (_ ∧ _ ∧ _))
  | .alarm _ _ .lost => inferInstanceAs (Decidable (_ ∧ _ ∧ True))
  | .alarm _ _ (.served _) => inferInstanceAs (Decidable (_ ∧ _ ∧ _ ∧ _ ∧ _))
  | .alarm _ _ (.answered _ _) => inferInstanceAs (Decidable (_ ∧ _ ∧ _ ∧ _ ∧ _ ∧ _ ∧ _))

def FirstLease (since : ℕ) (x : UInt32) (mac : Mac) (t : LeaseTable) : Prop :=
  ∃ lease, t.firstOf mac = some lease ∧ lease.addr = x ∧ since ≤ lease.timeStamp

section Tables

variable {t t' : LeaseTable} {env : Env} {now since : ℕ} {stale x y : UInt32} {mac m : Mac} {r : ℤ}

theorem FirstLease.touch {p : LeaseT → Bool} (h : FirstLease since x mac t) (hn : since ≤ now) :
    FirstLease since x mac { t with leases := touch p (LeaseT.stamped now) t.leases } := by
  obtain ⟨lease, hl, hx, hs⟩ := h
  rcases find?_touch_or (p := p) (f := LeaseT.stamped now) (fun _ ↦ rfl) hl with hl | hl
  · exact ⟨lease, hl, hx, hs⟩
  · exact ⟨_, hl, hx, hn⟩

theorem allocateIp_firstLease (h : FirstLease since x mac t) (hn : since ≤ env.now)
    (ha : allocateIp t env stale m = .ok (r, y, t')) : FirstLease since x mac t' := by
  obtain ⟨_, _, _, _, rfl⟩ | ⟨_, _, _, rfl, _⟩ | ⟨_, _, _, _, rfl⟩ := allocateIp_cases ha
  · exact h.touch hn
  · exact h
  · exact h

theorem addLease_firstLease (h : FirstLease since x mac t) (hn : since ≤ now)
    (ha : addLease t now y m = .ok t') : FirstLease since x mac t' := by
  obtain ⟨_, _, rfl⟩ | ⟨_, rfl, _⟩ := addLease_cases ha
  · exact h.touch hn
  · obtain ⟨lease, hl, h⟩ := h
    refine ⟨lease, ?_, h⟩
    exact List.find?_append.trans (congrArg (Option.or · _) hl)

theorem deleteLease_firstLease (h : FirstLease since x mac t) (hm : m ≠ mac)
    (ha : deleteLease t y m = .ok t') : FirstLease since x mac t' := by
  obtain ⟨_, _, rfl⟩ | ⟨_, rfl⟩ := deleteLease_cases ha
  · obtain ⟨lease, hl, h⟩ := h
    refine ⟨lease, find?_eraseP ?_ hl, h⟩
    intro other hown hboth
    simp only [decide_eq_true_eq] at hown hboth
    exact hm (hboth.2.symm.trans hown)
  · exact h

/-- The client may have the address as long as it has a lease of it. -/
theorem FirstLease.usable (h : FirstLease since x mac t) (ht : t.Valid) (hx : InPool x) (now : ℕ) :
    0 < checkIpaddr t now x mac := by
  obtain ⟨lease, hl, rfl, -⟩ := h
  obtain ⟨hmem, rfl⟩ := firstOf_some hl
  refine checkIpaddr_pos.mpr ⟨hx, ?_⟩
  intro lease' hl' _
  rw [lookup_mem ht hmem] at hl'
  rw [Option.some.inj hl']

end Tables

/-- Only a release of the client takes the lease away. -/
theorem Handled.firstLease {s : Server} {i : Input} {t : LeaseTable} {out : Option Sent} {since : ℕ}
    {x : UInt32} {mac : Mac} (h : Handled s i t out) (hs : FirstLease since x mac s.table)
    (hn : since ≤ i.env.now) (hm : receivedType (s.received i) = .ok (some dhcprelease) →
      (s.received i).chaddr ≠ mac) : FirstLease since x mac t := by
  cases h with
  | silent | offerRequested | nak => exact hs
  | offerAllocated _ ha | offerNone _ ha | ackRenewed _ _ _ ha | informKnown _ _ ha =>
    exact allocateIp_firstLease hs hn ha
  | ackSelected _ _ _ _ ha | informSelected _ _ _ ha => exact addLease_firstLease hs hn ha
  | released htype _ ha => exact deleteLease_firstLease hs (hm htype) ha

/-- The client's request for its address renews the lease, and is acknowledged. -/
theorem mainLoop_renews {s : Server} {i : Input} {c : Client} {since : ℕ} {x : UInt32} {mac : Mac}
    (ht : s.table.Valid) (hx : InPool x) (hs : FirstLease since x mac s.table)
    (h : ReadsRequest (s.received i) c x mac dhcprequest)
    (hid : c.dhcpServerIdentifier = dhcpServerIpAddress) :
    ∃ s' ack, mainLoop s i = .ok (s', some ack) ∧ s'.table.Valid ∧
      FirstLease i.env.now x mac s'.table ∧ IsReply (s.received i) ack dhcpack x true := by
  obtain ⟨lease, hl, haddr, -⟩ := hs
  have hp := FirstLease.usable ⟨lease, hl, haddr, Nat.le_refl _⟩ ht hx i.env.now
  have halloc : allocateIp s.table i.env i.env.stale mac =
      .ok (0, x, s.table.stampMac i.env.now mac) := by
    rw [← haddr]
    exact allocateIp_first hl
  obtain ⟨s', ack, hstep, htable, hanswer⟩ := mainLoop_renewing h hid hx.ne_any hp halloc
  refine ⟨s', ack, hstep, mainLoop_valid hstep ht, ?_, hanswer.isReply h.messageType.1 (by decide)⟩
  rw [htable]
  exact ⟨_, firstOf_stampMac hl, haddr, Nat.le_refl _⟩

end InternetApplications.Dhcp
