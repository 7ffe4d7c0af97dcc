import InternetApplications.Dhcp.DiscoverExchange
import InternetApplications.Dhcp.LeaseHolder

namespace InternetApplications.Dhcp

open ByteMemory TagScan Executions LeaseTable Client

namespace Client

variable {c : Client} {host : Host} {others : List Delivery} {buffer : DhcpT} {value : OptionValue}
  {clientAddr serverAddr : UInt32}

/-- Deliveries without a reply to the transaction only change the buffer. -/
theorem awaitAck_others (h : firstReply c.xid buffer others = none) (host : Host) :
    ∃ buffer' host', ∀ rest, c.awaitAck buffer value host (others ++ rest) =
      c.awaitAck buffer' value host' rest := by
  induction others generalizing buffer host with
  | nil => exact ⟨buffer, host, fun _ ↦ rfl⟩
  | cons d others ih =>
    have hcases : (if c.Takes (buffer.recvfrom d.datagram) then
        some (d, buffer.recvfrom d.datagram, others)
      else firstReply c.xid (buffer.recvfrom d.datagram) others) = none := h
    have hpassed : ¬c.Takes (buffer.recvfrom d.datagram) := by
      intro htakes
      rw [if_pos htakes] at hcases
      cases hcases
    rw [if_neg hpassed] at hcases
    obtain ⟨buffer', host', hrest⟩ := ih hcases d.host
    refine ⟨buffer', host', fun rest ↦ ?_⟩
    rw [List.cons_append, awaitAck]
    simp only [if_neg hpassed]
    exact hrest rest

def extend (c : Client) (host : Host) (clientAddr serverAddr : UInt32) (deliveries : List Delivery) :
    Except Fault Done :=
  (c.startExchange host clientAddr serverAddr dhcprequest >>= fun r ↦
    r.1.awaitAck host.ackResidue none host deliveries >>= fun ended ↦ .ok ([r.2], ended)) >>= fun r ↦
      extendLease r.1 r.2

/-- Without a reply, the lease stays as it is; an acknowledgement of the server starts it anew. -/
theorem extend_cases (hhost : host.Succeeds) (hothers : firstReply host.rand host.ackResidue others = none)
    (c : Client) (clientAddr serverAddr : UInt32) :
    ∃ c' m, c' = (c.drawXid host).changeSocketSetup clientAddr serverAddr ∧
      c'.IsRequest m c.interface.addr c.interface.hwaddr dhcprequest ∧
      c.extend host clientAddr serverAddr others = .ok ⟨c', [m], []⟩ ∧
      ∀ b ack x (host' : Host), IsReply b ack dhcpack x true → b.xid = c'.xid →
        ∃ accepted, c.extend host clientAddr serverAddr (others ++ [⟨host', ack.payload⟩]) =
          .ok ⟨((c'.setIdentifier dhcpServerIpAddress).setTimes (UInt32.ofNat ipAddressLeaseTime)
            (UInt32.ofNat t1RenewalTime) (UInt32.ofNat t2RebindTime)).alarm host'.now
              (UInt32.ofNat t1RenewalTime), [m], accepted⟩ := by
  obtain ⟨w, hw⟩ : ∃ w, ((c.drawXid host).changeSocketSetup clientAddr serverAddr).constructDhcpPacket
      host dhcprequest = .ok w := ⟨_, constructDhcpPacket_eq (if_pos hhost.getHwaddr) _⟩
  obtain ⟨c', hc'⟩ : ∃ c', c' = (c.drawXid host).changeSocketSetup clientAddr serverAddr := ⟨_, rfl⟩
  rw [← hc'] at hw
  have hstart : c.startExchange host clientAddr serverAddr dhcprequest = .ok (c', c'.sendto w) := by
    rw [startExchange, ← hc', hw, ok_bind]
    rfl
  have hrequest := (startExchange_ok hstart).2
  rw [getIpAddress, if_pos hhost.getAddr] at hrequest
  have hxid : firstReply c'.xid host.ackResidue others = none := by
    rw [startExchange_xid hstart]
    exact hothers
  obtain ⟨buffer, last, hwait⟩ : ∃ buffer last, ∀ rest,
      c'.awaitAck host.ackResidue none host (others ++ rest) = c'.awaitAck buffer none last rest :=
    awaitAck_others hxid host
  refine ⟨c', c'.sendto w, hc', hrequest, ?_, ?_⟩
  · have hnone := hwait []
    rw [List.append_nil] at hnone
    rw [extend, hstart, ok_bind, hnone, awaitAck, ok_bind, ok_bind]
    rfl
  · intro b ack x host' hack hx
    have hreads := hack.reads buffer
    have htake : c'.takeAck (buffer.recvfrom ack.payload) none =
        .ok (0, c'.setIdentifier dhcpServerIpAddress) := hreads.takeAck c' none
    refine ⟨[(host'.now, buffer.recvfrom ack.payload)], ?_⟩
    rw [extend, hstart, ok_bind, hwait, awaitAck_takes (hreads.takes.mpr hx) htake, ok_bind, ok_bind,
      extendLease]
    simp only [Int.lt_irrefl, if_false, gt_iff_lt, hreads.setAlarm (by decide), ok_bind]
    rfl

end Client

/-- The timers show how many requests have gone unanswered since the client took an
acknowledgement. -/
inductive Missed (c : Client) (acked : ℕ) : ℕ → Prop
  | none : c.t1Time = UInt32.ofNat t1RenewalTime → c.t2Time = UInt32.ofNat t2RebindTime →
      c.leaseTime = UInt32.ofNat ipAddressLeaseTime →
      c.deadline = some (acked + t1RenewalTime) → Missed c acked 0
  | renewal : c.t1Time = 0 → c.t2Time = UInt32.ofNat t2RebindTime →
      c.leaseTime = UInt32.ofNat ipAddressLeaseTime →
      c.deadline = some (acked + t2RebindTime) → Missed c acked 1
  | rebinding : c.t1Time = 0 → c.t2Time = 0 →
      c.deadline = some (acked + ipAddressLeaseTime) → Missed c acked 2

structure Keeping (delays : Delays) (mac : Mac) (x : UInt32) (missed : ℕ) (s : Holder) : Prop where
  valid : s.server.table.Valid
  inPool : InPool x
  hwaddr : s.client.interface.hwaddr = mac
  addr : s.client.interface.addr = x
  identifier : s.client.dhcpServerIdentifier = dhcpServerIpAddress
  leased : ∃ acked since, Missed s.client acked missed ∧ acked ≤ since + delays.reply ∧
    since ≤ s.now ∧ FirstLease since x mac s.server.table
  early : ∀ d ∈ s.client.deadline, s.now ≤ d + delays.request

structure GivenUp (s : Holder) : Prop where
  addr : s.client.interface.addr = 0
  t2Time : s.client.t2Time = 0
  deadline : s.client.deadline = none

section Timers

variable {c c' : Client} {acked k : ℕ} {host : Host}

theorem Missed.same (h : Missed c acked k) (hs : SameLease c c') : Missed c' acked k := by
  cases h with
  | none h₁ h₂ h₃ h₄ =>
    exact .none (hs.t1Time.trans h₁) (hs.t2Time.trans h₂) (hs.leaseTime.trans h₃)
      (hs.deadline.trans h₄)
  | renewal h₁ h₂ h₃ h₄ =>
    exact .renewal (hs.t1Time.trans h₁) (hs.t2Time.trans h₂) (hs.leaseTime.trans h₃)
      (hs.deadline.trans h₄)
  | rebinding h₁ h₂ h₃ =>
    exact .rebinding (hs.t1Time.trans h₁) (hs.t2Time.trans h₂) (hs.deadline.trans h₃)

theorem Missed.deadline_le (h : Missed c acked k) {d : ℕ} (hd : c.deadline = some d) :
    d ≤ acked + ipAddressLeaseTime ∧ (c.t2Time ≠ 0 → d ≤ acked + t2RebindTime) := by
  have ht2 : t2RebindTime = 28 := rfl
  have ht1 : t1RenewalTime = 16 := rfl
  have hlease : ipAddressLeaseTime = 32 := rfl
  cases h with
  | none _ _ _ h =>
    rw [h] at hd
    cases hd
    omega
  | renewal _ _ _ h =>
    rw [h] at hd
    cases hd
    omega
  | rebinding _ hzero h =>
    rw [h] at hd
    cases hd
    exact ⟨Nat.le_refl _, fun hne ↦ absurd hzero hne⟩

theorem leaseTimeOut_eq (c : Client) (host : Host) (deliveries : List Delivery) :
    c.alarmGone.leaseTimeOut host deliveries =
      if c.t1Time ≠ 0 then ((c.alarm host.now (c.t2Time - c.t1Time)).setTimes c.leaseTime 0
        c.t2Time).renew host deliveries
      else if c.t2Time ≠ 0 then ((c.alarm host.now (c.leaseTime - c.t2Time)).setTimes c.leaseTime
        c.t1Time 0).rebind host deliveries
      else .ok ⟨c.alarmGone.setupInterfaceRelease host, [], []⟩ := rfl

/-- An alarm sends a request, with the timers set for the next one. -/
theorem Missed.extends (h : Missed c acked k) (hk : k < 2) (hdue : c.deadline = some host.now) :
    ∃ c₀ clientAddr serverAddr, Missed c₀ acked (k + 1) ∧ c₀.interface = c.interface ∧
      c₀.dhcpServerIdentifier = c.dhcpServerIdentifier ∧
      ∀ deliveries, c.alarmGone.leaseTimeOut host deliveries =
        c₀.extend host clientAddr serverAddr deliveries := by
  cases h with
  | none h₁ h₂ h₃ h₄ =>
    have hnow : host.now = acked + t1RenewalTime := Option.some.inj (hdue.symm.trans h₄)
    refine ⟨(c.alarm host.now (c.t2Time - c.t1Time)).setTimes c.leaseTime 0 c.t2Time,
      c.getIpAddress host, c.dhcpServerIdentifier, .renewal rfl h₂ h₃ ?_, rfl, rfl, ?_⟩
    · rw [h₁, h₂, hnow]
      rfl
    · intro deliveries
      rw [leaseTimeOut_eq, if_pos (by rw [h₁]; decide)]
      rfl
  | renewal h₁ h₂ h₃ h₄ =>
    have hnow : host.now = acked + t2RebindTime := Option.some.inj (hdue.symm.trans h₄)
    refine ⟨(c.alarm host.now (c.leaseTime - c.t2Time)).setTimes c.leaseTime c.t1Time 0,
      c.getIpAddress host, inaddrBroadcast, .rebinding h₁ rfl ?_, rfl, rfl, ?_⟩
    · rw [h₂, h₃, hnow]
      rfl
    · intro deliveries
      rw [leaseTimeOut_eq, if_neg (not_not.mpr h₁), if_pos (by rw [h₂]; decide)]
      rfl
  | rebinding => omega

theorem Missed.deadline_lt (h : Missed c acked k) (h' : Missed c' acked (k + 1)) {d d' : ℕ}
    (hd : c.deadline = some d) (hd' : c'.deadline = some d') : d < d' := by
  have ht2 : t2RebindTime = 28 := rfl
  have ht1 : t1RenewalTime = 16 := rfl
  have hlease : ipAddressLeaseTime = 32 := rfl
  cases h with
  | none _ _ _ h =>
    cases h' with
    | renewal _ _ _ h' =>
      cases hd.symm.trans h
      cases hd'.symm.trans h'
      omega
  | renewal _ _ _ h =>
    cases h' with
    | rebinding _ _ h' =>
      cases hd.symm.trans h
      cases hd'.symm.trans h'
      omega
  | rebinding => cases h'

/-- What an alarm does that sends a request: without a reply, the timers are set for the next
request, and with an acknowledgement of the server, the lease starts anew. -/
structure Asks (c : Client) (host : Host) (others : List Delivery) (acked missed : ℕ) (c' : Client)
    (m : Sent) : Prop where
  missed : Missed c' acked missed
  interface : c'.interface = c.interface
  identifier : c'.dhcpServerIdentifier = c.dhcpServerIdentifier
  request : c'.IsRequest m c.interface.addr c.interface.hwaddr dhcprequest
  waits : c.alarmGone.leaseTimeOut host others = .ok ⟨c', [m], []⟩
  takes : ∀ b ack x (host' : Host), IsReply b ack dhcpack x true → b.xid = c'.xid →
    ∃ done, c.alarmGone.leaseTimeOut host (others ++ [⟨host', ack.payload⟩]) = .ok done ∧
      Missed done.client host'.now 0 ∧ done.client.interface = c.interface ∧
        done.client.dhcpServerIdentifier = dhcpServerIpAddress

theorem Missed.asks {others : List Delivery} (h : Missed c acked k) (hk : k < 2)
    (hdue : c.deadline = some host.now) (hhost : host.Succeeds)
    (hothers : firstReply host.rand host.ackResidue others = Option.none) :
    ∃ c' m, Asks c host others acked (k + 1) c' m := by
  obtain ⟨c₀, clientAddr, serverAddr, hmissed, hinterface, hid, hextend⟩ := h.extends hk hdue
  obtain ⟨c', m, rfl, hrequest, hwaits, htakes⟩ :=
    extend_cases hhost hothers c₀ clientAddr serverAddr
  rw [hinterface] at hrequest
  have hsame : SameLease c₀ ((c₀.drawXid host).changeSocketSetup clientAddr serverAddr) :=
    ⟨rfl, rfl, rfl, rfl, rfl⟩
  refine ⟨_, m, hmissed.same hsame, hinterface, hid, hrequest, (hextend others).trans hwaits, ?_⟩
  intro b ack x host' hack hxid
  obtain ⟨accepted, hdone⟩ := htakes b ack x host' hack hxid
  refine ⟨_, (hextend _).trans hdone, .none rfl rfl rfl ?_, hinterface, rfl⟩
  exact alarm_deadline (by decide) _ host'.now

end Timers

section Steps

variable {delays : Delays} {mac : Mac} {x : UInt32} {k : ℕ} {s s' : Holder} {out : Option Sent}

theorem Keeping.datagram {i : Input} (h : Keeping delays mac x k s)
    (ha : (Incident.datagram i).InTime delays mac s) (hstep : s.step (.datagram i) = .ok (s', out)) :
    Keeping delays mac x k s' := by
  obtain ⟨hm, hn, hearly⟩ := ha
  obtain ⟨⟨server, out'⟩, hserve, hstep⟩ := bind_eq_ok.mp hstep
  cases hstep
  have hloop := Stuck.lift_ok hserve
  obtain ⟨acked, since, hmissed, hacked, hsince, hfirst⟩ := h.leased
  have hsince' : since ≤ i.env.now := hsince.trans hn
  exact ⟨mainLoop_valid hloop h.valid, h.inPool, h.hwaddr, h.addr, h.identifier,
    ⟨acked, since, hmissed, hacked, hsince', (mainLoop_handled hloop).firstLease hfirst hsince' fun _ ↦ hm⟩,
    hearly⟩

theorem Keeping.third {host : Host} {others : List Delivery} {fate : Fate}
    (h : Keeping delays mac x 2 s) (hhost : host.Succeeds) (hdue : s.client.deadline = some host.now) :
    ∃ s', s.step (.alarm host others fate) = .ok (s', none) ∧ GivenUp s' := by
  obtain ⟨acked, since, hmissed, -⟩ := h.leased
  cases hmissed with
  | rebinding h₁ h₂ h₃ =>
    have htimeout : s.client.alarmGone.leaseTimeOut host others =
        .ok ⟨s.client.alarmGone.setupInterfaceRelease host, [], []⟩ := by
      rw [leaseTimeOut_eq, if_neg (not_not.mpr h₁), if_neg (not_not.mpr h₂)]
    refine ⟨{ s with client := s.client.alarmGone.setupInterfaceRelease host }, ?_, ?_⟩
    · simp only [Holder.step, if_pos hdue, htimeout]
      rfl
    · refine ⟨setupInterfaceRelease_addr hhost.setAddr _, ?_, ?_⟩
      · rw [setupInterfaceRelease]
        split
        · exact h₂
        · exact h₂
      · rw [setupInterfaceRelease]
        split
        · rfl
        · rfl

section Alarm

variable {host host' : Host} {others : List Delivery} {env : Env} {acked since now : ℕ} {c : Client}
  {m : Sent} {server : Server}

theorem Keeping.unanswered (h : Keeping delays mac x k s) (hk : Missed s.client acked k)
    (ha : Asks s.client host others acked (k + 1) c m) (hdue : s.client.deadline = some host.now)
    (hvalid : server.table.Valid) (hacked : acked ≤ since + delays.reply) (hsince : since ≤ now)
    (hfirst : FirstLease since x mac server.table) (hnow : now ≤ host.now + delays.request) :
    Keeping delays mac x (k + 1) ⟨c, server, now⟩ := by
  refine ⟨hvalid, h.inPool, ?_, ?_, ha.identifier.trans h.identifier,
    ⟨acked, since, ha.missed, hacked, hsince, hfirst⟩, ?_⟩
  · exact (congrArg _ ha.interface).trans h.hwaddr
  · exact (congrArg _ ha.interface).trans h.addr
  · intro d hd
    have hlt := hk.deadline_lt ha.missed hdue hd
    exact hnow.trans (Nat.add_le_add_right (Nat.le_of_lt hlt) _)

/-- The server acknowledges the request. -/
theorem Keeping.acknowledged (h : Keeping delays mac x k s)
    (ha : Asks s.client host others acked (k + 1) c m) (env : Env) :
    ∃ server ack b, mainLoop s.server ⟨env, m.payload⟩ = .ok (server, some ack) ∧
      server.table.Valid ∧ FirstLease env.now x mac server.table ∧
      IsReply b ack dhcpack x true ∧ b.xid = c.xid := by
  obtain ⟨_, since, -, -, -, hfirst⟩ := h.leased
  have hrequest := ha.request
  rw [h.addr, h.hwaddr] at hrequest
  have hreads := hrequest.reads s.server.dhcpRecv
  obtain ⟨server, ack, hstep, hvalid, hrenewed, hack⟩ :=
    mainLoop_renews (i := ⟨env, m.payload⟩) h.valid h.inPool hfirst hreads
      (ha.identifier.trans h.identifier)
  exact ⟨server, ack, _, hstep, hvalid, hrenewed, hack, hreads.xid⟩

theorem Keeping.lost (h : Keeping delays mac x k s) (hk : k < 2)
    (ha : (Incident.alarm host others .lost).InTime delays mac s)
    (hdue : s.client.deadline = some host.now) :
    ∃ s', s.step (.alarm host others .lost) = .ok (s', none) ∧ Keeping delays mac x (k + 1) s' := by
  obtain ⟨hhost, hothers, -⟩ := ha
  obtain ⟨acked, since, hmissed, hacked, hsince, hfirst⟩ := h.leased
  obtain ⟨c, m, hasks⟩ := hmissed.asks hk hdue hhost hothers
  refine ⟨⟨c, s.server, s.now⟩, ?_, h.unanswered hmissed hasks hdue h.valid hacked hsince hfirst
    (h.early _ hdue)⟩
  simp only [Holder.step, if_pos hdue, hasks.waits]
  rfl

theorem Keeping.served (h : Keeping delays mac x k s) (hk : k < 2)
    (ha : (Incident.alarm host others (.served env)).InTime delays mac s)
    (hdue : s.client.deadline = some host.now) :
    ∃ s', s.step (.alarm host others (.served env)) = .ok (s', none) ∧
      Keeping delays mac x (k + 1) s' := by
  obtain ⟨hhost, hothers, hn, -, hlate⟩ := ha
  obtain ⟨acked, since, hmissed, hacked, hsince, -⟩ := h.leased
  obtain ⟨c, m, hasks⟩ := hmissed.asks hk hdue hhost hothers
  obtain ⟨server, ack, b, hstep, hvalid, hrenewed, -⟩ := h.acknowledged hasks env
  refine ⟨⟨c, server, env.now⟩, ?_, h.unanswered hmissed hasks hdue hvalid ?_ (Nat.le_refl _)
    hrenewed hlate⟩
  · simp only [Holder.step, if_pos hdue, hasks.waits, Stuck.lift, ok_bind, hstep]
    rfl
  · omega

theorem Keeping.answered (h : Keeping delays mac x k s) (hk : k < 2)
    (ha : (Incident.alarm host others (.answered env host')).InTime delays mac s)
    (hdue : s.client.deadline = some host.now) :
    ∃ s' ack, s.step (.alarm host others (.answered env host')) = .ok (s', some ack) ∧
      ack.IsAck ∧ ack.packet.yiaddr = x ∧ Keeping delays mac x 0 s' := by
  obtain ⟨hhost, hothers, -, -, -, hnow', hlate⟩ := ha
  obtain ⟨acked, since, hmissed, -⟩ := h.leased
  obtain ⟨c, m, hasks⟩ := hmissed.asks hk hdue hhost hothers
  obtain ⟨server, ack, b, hstep, hvalid, hrenewed, hack, hxid⟩ := h.acknowledged hasks env
  obtain ⟨done, hdone, hstarted, hinterface, hid⟩ := hasks.takes b ack x host' hack hxid
  refine ⟨⟨done.client, server, env.now⟩, ack, ?_, hack.messageType,
    (hack.reads DhcpT.zero).yiaddr, ?_⟩
  · simp only [Holder.step, if_pos hdue, hasks.waits, Stuck.lift, ok_bind, hstep, hdone]
    rfl
  · refine ⟨hvalid, h.inPool, ?_, ?_, hid, ⟨host'.now, env.now, hstarted, hlate, Nat.le_refl _,
      hrenewed⟩, ?_⟩
    · exact (congrArg _ hinterface).trans h.hwaddr
    · exact (congrArg _ hinterface).trans h.addr
    · intro d hd
      cases hstarted with
      | none _ _ _ h₄ =>
        cases hd.symm.trans h₄
        exact (hnow'.trans (Nat.le_add_right _ _)).trans (Nat.le_add_right _ _)

end Alarm

theorem Keeping.missed_le (h : Keeping delays mac x k s) : k ≤ 2 := by
  obtain ⟨acked, since, hmissed, -⟩ := h.leased
  cases hmissed with
  | none | renewal | rebinding => decide

theorem Keeping.missed_lt (h : Keeping delays mac x k s) (ht2 : s.client.t2Time ≠ 0) : k < 2 := by
  obtain ⟨acked, since, hmissed, -⟩ := h.leased
  cases hmissed with
  | none | renewal => decide
  | rebinding _ hzero => exact absurd hzero ht2

theorem GivenUp.step {a : Incident} (h : GivenUp s) (hstep : s.step a = .ok (s', out)) :
    GivenUp s' := by
  cases a with
  | datagram i =>
    obtain ⟨⟨server, out'⟩, -, hstep⟩ := bind_eq_ok.mp hstep
    cases hstep
    exact ⟨h.addr, h.t2Time, h.deadline⟩
  | alarm host others fate =>
    have hidle : ¬s.client.deadline = some host.now := by
      rw [h.deadline]
      exact nofun
    rw [Holder.step, if_neg hidle] at hstep
    cases hstep

theorem alarm_due {host : Host} {others : List Delivery} {fate : Fate}
    (h : s.step (.alarm host others fate) = .ok (s', out)) : s.client.deadline = some host.now := by
  by_contra hidle
  rw [Holder.step, if_neg hidle] at h
  cases h

/-- What an incident does to a client that keeps its address. -/
theorem Keeping.step {a : Incident} (h : Keeping delays mac x k s) (ha : a.InTime delays mac s)
    (hstep : s.step a = .ok (s', out)) :
    (a.answered = none ∧ Keeping delays mac x k s') ∨
    (k < 2 ∧ a.answered = some true ∧ Keeping delays mac x 0 s') ∨
    (k < 2 ∧ a.answered = some false ∧ Keeping delays mac x (k + 1) s') ∨
    (k = 2 ∧ a.answered.isSome ∧ GivenUp s') := by
  cases a with
  | datagram i => exact .inl ⟨rfl, h.datagram ha hstep⟩
  | alarm host others fate =>
    have hdue := alarm_due hstep
    rcases Nat.lt_or_ge k 2 with hk | hk
    · cases fate with
      | lost =>
        obtain ⟨s'', hstep', hkept⟩ := h.lost hk ha hdue
        cases hstep.symm.trans hstep'
        exact .inr (.inr (.inl ⟨hk, rfl, hkept⟩))
      | served env =>
        obtain ⟨s'', hstep', hkept⟩ := h.served hk ha hdue
        cases hstep.symm.trans hstep'
        exact .inr (.inr (.inl ⟨hk, rfl, hkept⟩))
      | answered env host' =>
        obtain ⟨s'', ack, hstep', -, -, hkept⟩ := h.answered hk ha hdue
        cases hstep.symm.trans hstep'
        exact .inr (.inl ⟨hk, rfl, hkept⟩)
    · obtain rfl : k = 2 := Nat.le_antisymm h.missed_le hk
      obtain ⟨s'', hstep', hgiven⟩ :
          ∃ s', s.step (.alarm host others fate) = .ok (s', none) ∧ GivenUp s' := h.third ha.1 hdue
      cases hstep.symm.trans hstep'
      refine .inr (.inr (.inr ⟨rfl, ?_, hgiven⟩))
      cases fate <;> rfl

/-- As long as the client has not missed a rebinding, its lease on the server is live. -/
theorem Keeping.live (h : Keeping delays mac x k s) (ht2 : s.client.t2Time ≠ 0)
    (hdelays : t2RebindTime + delays.request + delays.reply < ipAddressLeaseTime) :
    ∃ lease, s.server.table.firstOf mac = some lease ∧ lease.addr = x ∧ lease.Live s.now := by
  obtain ⟨acked, since, hmissed, hacked, -, lease, hfirst, haddr, hsince⟩ := h.leased
  obtain ⟨d, hd⟩ : ∃ d, s.client.deadline = some d := by
    cases hmissed with
    | none _ _ _ hd | renewal _ _ _ hd | rebinding _ _ hd => exact ⟨_, hd⟩
  have hlate := (hmissed.deadline_le hd).2 ht2
  have hearly := h.early d hd
  refine ⟨lease, hfirst, haddr, ?_⟩
  unfold LeaseT.Live
  omega

end Steps

section Runs

variable {l : List Bool} {k : ℕ}

theorem infix_answered (hk : k < 2) : (∃ b, [false, false, b] <:+: List.replicate k false ++ true :: l) ↔
    ∃ b, [false, false, b] <:+: l := by
  have hcases : k = 0 ∨ k = 1 := by omega
  rcases hcases with rfl | rfl
  · simp [List.infix_cons_iff]
  · simp [List.infix_cons_iff]

variable {delays : Delays} {mac : Mac} {x : UInt32} {s₀ s : Holder}
  {trace : List (Transition Holder Incident (Option Sent))}

theorem keeps_iff (hrun : Execution Holder.step s₀ trace s) (h : Keeping delays mac x k s₀)
    (ha : ∀ e ∈ trace, e.input.InTime delays mac e.before) :
    (∀ e ∈ trace, e.after.client.interface.addr = x) ↔
      ¬∃ b, [false, false, b] <:+:
        List.replicate k false ++ trace.filterMap fun e ↦ e.input.answered := by
  induction hrun generalizing k with
  | nil =>
    refine iff_of_true (by simp) ?_
    rintro ⟨b, hinfix⟩
    have hle := hinfix.length_le
    have hk := h.missed_le
    simp only [List.filterMap_nil, List.append_nil, List.length_replicate, List.length_cons,
      List.length_nil] at hle
    omega
  | cons hstep _ ih =>
    rw [List.forall_mem_cons] at ha ⊢
    rcases h.step ha.1 hstep with ⟨hquiet, hkept⟩ | ⟨hk, htrue, hkept⟩ | ⟨hk, hfalse, hkept⟩ |
      ⟨rfl, hsome, hgiven⟩
    · simp only [List.filterMap_cons, hquiet]
      rw [← ih hkept ha.2]
      exact and_iff_right hkept.addr
    · simp only [List.filterMap_cons, htrue]
      rw [infix_answered hk]
      have hrest := ih hkept ha.2
      rw [List.replicate_zero, List.nil_append] at hrest
      rw [← hrest]
      exact and_iff_right hkept.addr
    · simp only [List.filterMap_cons, hfalse]
      have hrest := ih hkept ha.2
      rw [List.replicate_succ', List.append_assoc, List.singleton_append] at hrest
      rw [← hrest]
      exact and_iff_right hkept.addr
    · obtain ⟨b, hb⟩ := Option.isSome_iff_exists.mp hsome
      simp only [List.filterMap_cons, hb]
      refine iff_of_false ?_ (not_not.mpr ⟨b, [], _, rfl⟩)
      rintro ⟨haddr, -⟩
      exact h.inPool.ne_any (haddr.symm.trans hgiven.addr)

/-- A client whose requests reach the server and come back in time has its address as long as no
alarm follows two whose requests went unanswered. Until it has missed a rebinding, it has a live
lease, and the next request that is answered is acknowledged with its address. -/
theorem lease_kept_iff (hdelays : t2RebindTime + delays.request + delays.reply < ipAddressLeaseTime)
    (hrun : Execution Holder.step s₀ trace s) (hstart : Keeping delays mac x 0 s₀)
    (ha : ∀ e ∈ trace, e.input.InTime delays mac e.before) :
    ((∀ e ∈ trace, e.after.client.interface.addr = x) ↔
      ¬∃ b, [false, false, b] <:+: trace.filterMap fun e ↦ e.input.answered) ∧
    (s.client.t2Time ≠ 0 →
      (∃ lease, s.server.table.firstOf mac = some lease ∧ lease.addr = x ∧ lease.Live s.now) ∧
      ∀ host others env host', s.client.deadline = some host.now →
        (Incident.alarm host others (.answered env host')).InTime delays mac s →
          ∃ s' ack, s.step (.alarm host others (.answered env host')) = .ok (s', some ack) ∧
            ack.IsAck ∧ ack.packet.yiaddr = x ∧ s'.client.interface.addr = x) := by
  refine ⟨keeps_iff hrun hstart ha, ?_⟩
  have hend : (∃ k, Keeping delays mac x k s) ∨ GivenUp s := by
    refine (hrun.invariant (I := fun s ↦ (∃ k, Keeping delays mac x k s) ∨ GivenUp s)
      (A := fun e ↦ e.input.InTime delays mac e.before) ?_ ha (.inl ⟨0, hstart⟩)).1
    rintro e hstep ha (⟨k, hkept⟩ | hgiven)
    · rcases hkept.step ha hstep with ⟨-, hkept⟩ | ⟨-, -, hkept⟩ | ⟨-, -, hkept⟩ | ⟨-, -, hgiven⟩
      · exact .inl ⟨_, hkept⟩
      · exact .inl ⟨_, hkept⟩
      · exact .inl ⟨_, hkept⟩
      · exact .inr hgiven
    · exact .inr (hgiven.step hstep)
  intro ht2
  rcases hend with ⟨k, hkept⟩ | hgiven
  · refine ⟨hkept.live ht2 hdelays, ?_⟩
    intro host others env host' hdue hin
    obtain ⟨s', ack, hstep, hack, hyiaddr, hkept'⟩ :=
      hkept.answered (hkept.missed_lt ht2) hin hdue
    exact ⟨s', ack, hstep, hack, hyiaddr, hkept'.addr⟩
  · exact absurd hgiven.t2Time ht2

end Runs

/-- The exchange in which a client gets an address that is in no lease, having none, starts so. -/
theorem keeping_start {delays : Delays} {s : Server} {c : Client} {m : Sent} {env : Env}
    {host host₁ host₂ : Host} (hs : s.table.Valid) (hx : InPool c.yiaddr)
    (hnew : ∀ lease ∈ s.table.leases, lease.addr ≠ c.yiaddr ∧ lease.chaddr ≠ c.interface.hwaddr)
    (hcount : s.table.leases.length + 1 < 2 ^ 31)
    (hid : c.dhcpServerIdentifier = dhcpServerIpAddress)
    (hm : c.IsRequest m inaddrAny c.interface.hwaddr dhcprequest) (hhost₂ : host₂.Succeeds)
    (hlate : env.now ≤ host₂.now) (hreply : host₂.now ≤ env.now + delays.reply) (value : OptionValue) :
    ∃ server ack ended c₁ c₂, mainLoop s ⟨env, m.payload⟩ = .ok (server, some ack) ∧
      c.awaitAck host.ackResidue value host₁ [⟨host₂, ack.payload⟩] = .ok ended ∧
      ended.state = 0 ∧ ended.client.setupInterface ended.host ended.dhcpAck = .ok c₁ ∧
      c₁.setAlarm ended.host ended.dhcpAck = .ok c₂ ∧
      Keeping delays c.interface.hwaddr c.yiaddr 0 ⟨c₂, server, env.now⟩ := by
  have hread := hm.reads s.dhcpRecv
  have hunheld : s.table.lookup c.yiaddr = none := by
    by_contra hheld
    obtain ⟨lease, hl⟩ := Option.ne_none_iff_exists'.mp hheld
    obtain ⟨hmem, haddr⟩ := lookup_some hl
    exact (hnew lease hmem).1 haddr
  have hfirst : s.table.firstOf c.interface.hwaddr = none := by
    refine List.find?_eq_none.mpr fun lease hl ↦ ?_
    simpa using (hnew lease hl).2
  have hp : 0 < checkIpaddr s.table env.now c.yiaddr c.interface.hwaddr := by
    refine checkIpaddr_pos.mpr ⟨hx, ?_⟩
    rw [hunheld]
    exact nofun
  obtain ⟨t, hadd⟩ := addLease_returns hs env.now c.interface.hwaddr (x := c.yiaddr) (.inr hcount)
  have htable : t = s.table.append ⟨env.now, c.yiaddr, c.interface.hwaddr⟩ := by
    obtain ⟨lease, hl, -⟩ | ⟨-, rfl, -⟩ := addLease_cases hadd
    · cases hunheld.symm.trans hl
    · rfl
  obtain ⟨server, ack, hstep, hserver, hanswer⟩ :=
    mainLoop_selecting (i := ⟨env, m.payload⟩) hread hid hp hadd
  have hreads := (hanswer.isReply hread.messageType.1 (by decide)).reads host.ackResidue
  have htake : c.takeAck (host.ackResidue.recvfrom ack.payload) value =
      .ok (0, c.setIdentifier dhcpServerIpAddress) := hreads.takeAck c value
  refine ⟨server, ack, _, _, _, hstep, awaitAck_takes (hreads.takes.mpr hread.xid) htake, rfl,
    hreads.setupInterface (by decide) hhost₂.setAddr hhost₂.setNetmask hhost₂.addRoute _,
    hreads.setAlarm (by decide) _ _, ?_⟩
  refine ⟨mainLoop_valid hstep hs, hx, rfl, rfl, rfl, ⟨host₂.now, env.now, ?_, hreply,
    Nat.le_refl _, ⟨env.now, c.yiaddr, c.interface.hwaddr⟩, ?_, rfl, Nat.le_refl _⟩, ?_⟩
  · refine .none rfl rfl rfl ?_
    exact alarm_deadline (by decide) _ host₂.now
  · rw [hserver, htable]
    refine List.find?_append.trans ?_
    have hnone : s.table.leases.find? (fun lease ↦ lease.chaddr = c.interface.hwaddr) = none := hfirst
    rw [hnone]
    simp
  · intro d hd
    have harmed := alarm_deadline (x := UInt32.ofNat t1RenewalTime) (by decide)
      (((c.setIdentifier dhcpServerIpAddress).siocsifaddr c.yiaddr).setTimes
        (UInt32.ofNat ipAddressLeaseTime) (UInt32.ofNat t1RenewalTime)
          (UInt32.ofNat t2RebindTime)) host₂.now
    cases hd.symm.trans harmed
    exact hlate.trans ((Nat.le_add_right _ _).trans (Nat.le_add_right _ _))

section Samples

def leasedHolder : Holder where
  client := (((Client.dhcpSetup ⟨clientA, 0xC0A80002⟩).setIdentifier
    dhcpServerIpAddress).setTimes 32 16 28).alarm 0 16
  server := { dhcpSetup with table := ⟨[⟨0, 0xC0A80002, clientA⟩], 1⟩ }
  now := 0

theorem lease_kept_iff_rebound : ∃ trace s, Execution Holder.step leasedHolder trace s ∧
    trace.length = 3 ∧ s.now = 29 ∧ s.client.deadline = some 46 ∧
    (∀ e ∈ trace, e.after.client.interface.addr = 0xC0A80002) ∧
      ∃ lease, s.server.table.firstOf clientA = some lease ∧ lease.Live s.now := by
  obtain ⟨trace, s, hrun, hs⟩ := exists_execution Holder.step leasedHolder
    [.datagram ⟨⟨5, [], 0⟩, selectingRequest clientB 0 0xC0A80002⟩,
      .alarm (quietHost 16 77) [] .lost,
      .alarm (quietHost 28 78) [] (.answered ⟨29, [], 0⟩ (quietHost 30 0))]
    (fun trace s ↦ trace.length = 3 ∧ s.now = 29 ∧ s.client.deadline = some 46 ∧
      s.client.t2Time ≠ 0 ∧ (trace.filterMap fun e ↦ e.input.answered) = [false, true] ∧
      ∀ e ∈ trace, e.input.InTime ⟨1, 2⟩ clientA e.before) (by decide +kernel)
  obtain ⟨hlength, hnow, hdeadline, ht2, hanswered, hin⟩ := of_decide_eq_true hs
  have hvalid : leasedHolder.server.table.Valid := ⟨List.nodup_singleton _, rfl, by decide⟩
  have hstart : Keeping ⟨1, 2⟩ clientA 0xC0A80002 0 leasedHolder :=
    ⟨hvalid, by decide, rfl, rfl, rfl, ⟨0, 0, .none rfl rfl rfl rfl, by decide, by decide,
      ⟨0, 0xC0A80002, clientA⟩, rfl, rfl, by decide⟩, by decide⟩
  obtain ⟨hiff, hlive⟩ := lease_kept_iff (by decide) hrun hstart hin
  obtain ⟨⟨lease, hfirst, -, hl⟩, -⟩ := hlive ht2
  refine ⟨trace, s, hrun, hlength, hnow, hdeadline, hiff.mpr ?_, lease, hfirst, hl⟩
  rw [hanswered]
  rintro ⟨b, hinfix⟩
  exact absurd hinfix.length_le (by simp)

end Samples

end InternetApplications.Dhcp
