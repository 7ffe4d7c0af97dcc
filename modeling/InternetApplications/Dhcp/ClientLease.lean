import InternetApplications.Dhcp.ClientPacket
import InternetApplications.Dhcp.ClientStep

namespace InternetApplications.Dhcp

open ByteMemory TagScan Executions Client

def Host.Quiet (now : ℕ) (host : Host) : Prop := host.Succeeds ∧ host.now = now

/-- The interactive client, the clock, and the last acknowledgement that was to
set the timers, with its time. -/
structure Session where
  client : Client
  now : ℕ
  lastAck : Option (ℕ × DhcpT)

/-- What happens to an interactive client. The deliveries are those that one exchange, or the
exchanges of one command, take; they end with a time-out. -/
inductive Happening
  | wait (seconds : ℕ)
  | menu (command : Command) (host : Host) (deliveries : List Delivery)
  | alarm (host : Host) (deliveries : List Delivery)

def Host.atTime (now : ℕ) (host : Host) : Host := { host with now := now }

def Delivery.atTime (now : ℕ) (d : Delivery) : Delivery := { d with host := d.host.atTime now }

namespace Session

def after (s : Session) (r : Except Fault Done) : Except Stuck (Session × List (ℕ × DhcpT)) :=
  match r with
  | .error f => .error (.fault f)
  | .ok done =>
    .ok (⟨done.client, s.now, done.accepted.getLast?.or s.lastAck⟩, done.accepted)

/-- Commands and alarms take no time, and an alarm that is due goes off before time goes on. This
leaves out the seconds that `recvfrom` waits when nothing comes: an alarm that is due meanwhile comes
late when it is blocked in the handler of another, and else interrupts the command. -/
def step (s : Session) : Happening → Except Stuck (Session × List (ℕ × DhcpT))
  | .wait seconds =>
    if ∀ d ∈ s.client.deadline, s.now + seconds ≤ d then
      .ok ({ s with now := s.now + seconds }, [])
    else .error .disabled
  | .menu command host deliveries =>
    s.after (interact command s.client (host.atTime s.now) (deliveries.map (Delivery.atTime s.now)))
  | .alarm host deliveries =>
    if ∃ d ∈ s.client.deadline, d ≤ s.now then
      s.after (s.client.alarmGone.leaseTimeOut (host.atTime s.now)
        (deliveries.map (Delivery.atTime s.now)))
    else .error .disabled

end Session

def Happening.Succeeds : Happening → Prop
  | .wait _ => True
  | .menu _ host deliveries => host.Succeeds ∧ ∀ d ∈ deliveries, d.host.Succeeds
  | .alarm host deliveries => host.Succeeds ∧ ∀ d ∈ deliveries, d.host.Succeeds

instance : (happening : Happening) → Decidable happening.Succeeds
  | .wait _ => inferInstanceAs (Decidable True)
  | .menu _ _ _ => inferInstanceAs (Decidable (_ ∧ _))
  | .alarm _ _ => inferInstanceAs (Decidable (_ ∧ _))

def TimedAck (p : DhcpT) : Prop :=
  p.yiaddr ≠ 0 ∧ ∃ leaseTime t1 t2, optionWord p optionIpAddressLeaseTime = some leaseTime ∧
    optionWord p optionIpT1RenewalTime = some t1 ∧
    optionWord p optionIpT2RebindTime = some t2 ∧ 0 < t1 ∧ t1 < t2 ∧ t2 < leaseTime

structure SameLease (c c' : Client) : Prop where
  interface : c'.interface = c.interface
  leaseTime : c'.leaseTime = c.leaseTime
  t1Time : c'.t1Time = c.t1Time
  t2Time : c'.t2Time = c.t2Time
  deadline : c'.deadline = c.deadline

theorem SameLease.refl (c : Client) : SameLease c c := ⟨rfl, rfl, rfl, rfl, rfl⟩

theorem SameLease.trans {c c' c'' : Client} (h : SameLease c c') (h' : SameLease c' c'') :
    SameLease c c'' :=
  ⟨h'.interface.trans h.interface, h'.leaseTime.trans h.leaseTime, h'.t1Time.trans h.t1Time,
    h'.t2Time.trans h.t2Time, h'.deadline.trans h.deadline⟩

/-- The phases of a lease that was acknowledged at time `t`: the alarm is set for the renewal, for
the rebinding, or for the end of the lease. -/
inductive LeasePhase (c : Client) (t : ℕ) : ℕ → Prop
  | renewing : 0 < c.t1Time → c.t1Time < c.t2Time → c.t2Time < c.leaseTime →
      LeasePhase c t (t + c.t1Time.toNat)
  | rebinding : c.t1Time = 0 → 0 < c.t2Time → c.t2Time < c.leaseTime →
      LeasePhase c t (t + c.t2Time.toNat)
  | expiring : c.t1Time = 0 → c.t2Time = 0 → LeasePhase c t (t + c.leaseTime.toNat)

def Leased (c : Client) (now : ℕ) (ack : Option (ℕ × DhcpT)) : Prop :=
  ∃ t p d, ack = some (t, p) ∧ optionWord p optionIpAddressLeaseTime = some c.leaseTime ∧
    c.deadline = some d ∧ now ≤ d ∧ LeasePhase c t d

structure Started (c : Client) (now : ℕ) (p : DhcpT) : Prop where
  leaseTime : optionWord p optionIpAddressLeaseTime = some c.leaseTime
  pos : 0 < c.t1Time
  renew : c.t1Time < c.t2Time
  rebind : c.t2Time < c.leaseTime
  deadline : c.deadline = some (now + c.t1Time.toNat)

inductive Outcome (c : Client) (now : ℕ) (done : Done) : Prop
  | kept : done.accepted = [] → SameLease c done.client → Outcome c now done
  | cleared : done.accepted = [] → done.client.interface.addr = 0 → Outcome c now done
  | leased (p : DhcpT) : done.accepted = [(now, p)] → (TimedAck p → Started done.client now p) →
      Outcome c now done

section Phases

variable {c c' : Client} {now t d : ℕ} {p : DhcpT} {ack : Option (ℕ × DhcpT)} {done : Done}

theorem LeasePhase.le (h : LeasePhase c t d) : d ≤ t + c.leaseTime.toNat := by
  cases h with
  | renewing _ h₁ h₂ =>
    rw [UInt32.lt_iff_toNat_lt] at h₁ h₂
    omega
  | rebinding _ _ h₂ =>
    rw [UInt32.lt_iff_toNat_lt] at h₂
    omega
  | expiring => exact le_rfl

theorem Started.leased (h : Started c now p) : Leased c now (some (now, p)) :=
  ⟨now, p, _, rfl, h.leaseTime, h.deadline, Nat.le_add_right _ _,
    .renewing h.pos h.renew h.rebind⟩

theorem Leased.same (h : Leased c now ack) (hs : SameLease c c') : Leased c' now ack := by
  obtain ⟨t, p, d, hack, hlease, hd, hn, hphase⟩ := h
  refine ⟨t, p, d, hack, by rw [hs.leaseTime, hlease], by rw [hs.deadline, hd], hn, ?_⟩
  cases hphase with
  | renewing h₀ h₁ h₂ =>
    rw [← hs.t1Time] at h₀ h₁ ⊢
    rw [← hs.t2Time] at h₁ h₂
    rw [← hs.leaseTime] at h₂
    exact .renewing h₀ h₁ h₂
  | rebinding h₀ h₁ h₂ =>
    rw [← hs.t2Time] at h₁ h₂ ⊢
    rw [← hs.t1Time] at h₀
    rw [← hs.leaseTime] at h₂
    exact .rebinding h₀ h₁ h₂
  | expiring h₀ h₁ =>
    rw [← hs.t1Time] at h₀
    rw [← hs.t2Time] at h₁
    rw [← hs.leaseTime]
    exact .expiring h₀ h₁

/-- Whatever a command does, an interface with an address stays leased. -/
theorem Outcome.keeps (h : Outcome c now done) (hc : c.interface.addr ≠ 0 → Leased c now ack)
    (hacks : ∀ a ∈ done.accepted, TimedAck a.2) (haddr : done.client.interface.addr ≠ 0) :
    Leased done.client now (done.accepted.getLast?.or ack) := by
  cases h with
  | kept hnone hsame =>
    rw [hnone]
    rw [hsame.interface] at haddr
    exact (hc haddr).same hsame
  | cleared _ hzero => exact absurd hzero haddr
  | leased p hone hstart =>
    rw [hone] at hacks ⊢
    exact (hstart (hacks (now, p) (List.mem_singleton_self _))).leased

end Phases

section Words

theorem wordOption_of_optionWord {p : DhcpT} {tag : UInt8} {w : UInt32}
    (h : optionWord p tag = some w) : wordOption p tag = .ok (some w) := by
  obtain ⟨o, hg, hw⟩ := optionWord_iff.mp h
  have hl : lookupOption none p tag = .ok (4, some (p, o)) := lookupOption_of_ok hg none
  rw [wordOption, hl, ok_bind]
  simp only [ne_eq, not_true_eq_false, if_false]
  rw [readPointedWord_eq, pointedWord, hw]
  rfl

end Words

namespace Client

variable {c c' : Client} {host : Host} {deliveries : List Delivery} {buffer : DhcpT}
  {value : OptionValue} {ended : Ended} {sent : List Sent} {done : Done} {now : ℕ} {p : DhcpT}
  {clientAddr serverAddr : UInt32} {type : UInt8} {m : Sent} {P : Host → Prop}

theorem setIdentifier_same (c : Client) (x : UInt32) : SameLease c (c.setIdentifier x) :=
  ⟨rfl, rfl, rfl, rfl, rfl⟩

theorem setYiaddr_same (c : Client) (x : UInt32) : SameLease c (c.setYiaddr x) :=
  ⟨rfl, rfl, rfl, rfl, rfl⟩

theorem takeOffer_same {dhcp : DhcpT} (h : c.takeOffer dhcp = .ok (c', value)) : SameLease c c' := by
  obtain ⟨identifier, -, rfl⟩ := takeOffer_ok h
  exact (setIdentifier_same c identifier).trans (setYiaddr_same _ _)

theorem takeAck_same {dhcp : DhcpT} {state : ℤ} (h : c.takeAck dhcp value = .ok (state, c')) :
    SameLease c c' := by
  obtain ⟨-, hc⟩ | ⟨-, identifier, rfl⟩ := takeAck_ok h
  · rw [hc]
    exact .refl c
  · exact setIdentifier_same c identifier

theorem startExchange_same (h : c.startExchange host clientAddr serverAddr type = .ok (c', m)) :
    SameLease c c' := by
  rw [(startExchange_ok h).1]
  exact ⟨rfl, rfl, rfl, rfl, rfl⟩

/-- Waiting changes neither the lease nor what holds of every host. -/
theorem awaitAck_same (h : c.awaitAck buffer value host deliveries = .ok ended) (hp : P host)
    (hds : ∀ d ∈ deliveries, P d.host) :
    SameLease c ended.client ∧ P ended.host ∧ ∀ d ∈ ended.rest, P d.host := by
  induction deliveries generalizing buffer host with
  | nil =>
    cases h
    exact ⟨.refl c, hp, by simp⟩
  | cons d rest ih =>
    have hrest : ∀ d ∈ rest, P d.host := fun d hd ↦ hds d (List.mem_cons_of_mem _ hd)
    rw [awaitAck] at h
    simp only at h
    split at h
    · obtain ⟨⟨state, c'⟩, htake, h⟩ := bind_eq_ok.mp h
      cases h
      exact ⟨takeAck_same htake, hds d List.mem_cons_self, hrest⟩
    · exact ih h (hds d List.mem_cons_self) hrest

theorem awaitOffer_same {rest : List Delivery} {host' : Host}
    (h : c.awaitOffer buffer deliveries = .ok (some (c', value, host', rest)))
    (hds : ∀ d ∈ deliveries, P d.host) :
    SameLease c c' ∧ P host' ∧ ∀ d ∈ rest, P d.host := by
  induction deliveries generalizing buffer with
  | nil => cases h
  | cons d rest ih =>
    have hrest : ∀ d ∈ rest, P d.host := fun d hd ↦ hds d (List.mem_cons_of_mem _ hd)
    rw [awaitOffer] at h
    simp only at h
    split at h
    · obtain ⟨⟨c'', value'⟩, htake, h⟩ := bind_eq_ok.mp h
      cases h
      exact ⟨takeOffer_same htake, hds d List.mem_cons_self, hrest⟩
    · exact ih h hrest

theorem dhcpDiscover_same (h : c.dhcpDiscover host deliveries = .ok (sent, ended)) (hp : P host)
    (hds : ∀ d ∈ deliveries, P d.host) :
    SameLease c ended.client ∧ P ended.host ∧ ∀ d ∈ ended.rest, P d.host := by
  obtain ⟨⟨c₁, discover⟩, hsend, h⟩ := bind_eq_ok.mp h
  simp only at h
  obtain ⟨r, hawait, h⟩ := bind_eq_ok.mp h
  have hsame := startExchange_same hsend
  cases r with
  | none =>
    cases h
    exact ⟨hsame, hp, by simp⟩
  | some r =>
    obtain ⟨c₂, value, host', rest⟩ := r
    simp only at h
    obtain ⟨request, -, h⟩ := bind_eq_ok.mp h
    obtain ⟨e, hack, h⟩ := bind_eq_ok.mp h
    cases h
    obtain ⟨hsame₂, hp₂, hds₂⟩ := awaitOffer_same hawait hds
    obtain ⟨hsame₃, hp₃, hds₃⟩ := awaitAck_same hack hp₂ hds₂
    exact ⟨(hsame.trans hsame₂).trans hsame₃, hp₃, hds₃⟩

theorem exchange_same (h : (do
      let (c, m) ← c.startExchange host clientAddr serverAddr type
      let ended ← c.awaitAck host.ackResidue none host deliveries
      return ([m], ended)) = .ok (sent, ended)) (hp : P host)
    (hds : ∀ d ∈ deliveries, P d.host) :
    SameLease c ended.client ∧ P ended.host ∧ ∀ d ∈ ended.rest, P d.host := by
  obtain ⟨⟨c₁, m⟩, hsend, h⟩ := bind_eq_ok.mp h
  simp only at h
  obtain ⟨e, hack, h⟩ := bind_eq_ok.mp h
  cases h
  obtain ⟨hsame, hrest⟩ := awaitAck_same hack hp hds
  exact ⟨(startExchange_same hsend).trans hsame, hrest⟩

/-- With the times in the acknowledgement, `set_alarm` starts the lease. -/
theorem setAlarm_starts (h : c.setAlarm host p = .ok c') (hp : TimedAck p) :
    Started c' host.now p := by
  obtain ⟨-, leaseTime, t1, t2, hlease, ht1, ht2, hpos, hrenew, hrebind⟩ := hp
  rw [setAlarm, wordOption_of_optionWord hlease, ok_bind] at h
  simp only at h
  rw [wordOption_of_optionWord ht1, ok_bind, wordOption_of_optionWord ht2, ok_bind] at h
  cases h
  refine ⟨hlease, hpos, hrenew, hrebind, ?_⟩
  have hne : t1 ≠ 0 := fun hz ↦ by
    rw [hz] at hpos
    exact absurd hpos (by decide)
  simp [alarm, setTimes, hne]

theorem setupInterfaceRelease_addr (ha : host.setAddr) (c : Client) :
    (c.setupInterfaceRelease host).interface.addr = 0 := by
  rw [setupInterfaceRelease, ha]
  rfl

theorem Outcome.of_cleared (h : Outcome c' now done) (hz : c'.interface.addr = 0) :
    Outcome c now done := by
  cases h with
  | kept hnone hsame => exact .cleared hnone (by rw [hsame.interface, hz])
  | cleared hnone hzero => exact .cleared hnone hzero
  | leased p hone hstart => exact .leased p hone hstart

theorem discover_outcome (h : c.discover host deliveries = .ok done) (hp : host.Quiet now)
    (hds : ∀ d ∈ deliveries, d.host.Quiet now) : Outcome c now done := by
  rw [discover] at h
  split at h
  · cases h
    exact .kept rfl (.refl c)
  · obtain ⟨⟨sent, ended⟩, hd, h⟩ := bind_eq_ok.mp h
    obtain ⟨hsame, ⟨hquiet, hnow⟩, -⟩ := dhcpDiscover_same hd hp hds
    simp only at h
    split at h
    · cases h
      exact .kept rfl hsame
    · split at h
      · cases h
        exact .cleared rfl (setupInterfaceRelease_addr hquiet.setAddr _)
      · obtain ⟨c₁, -, h⟩ := bind_eq_ok.mp h
        obtain ⟨c₂, halarm, h⟩ := bind_eq_ok.mp h
        cases h
        rw [← hnow]
        exact .leased _ rfl (setAlarm_starts halarm)

theorem extendLease_outcome (h : extendLease sent ended = .ok done) (hsame : SameLease c ended.client)
    (hp : ended.host.Quiet now) (hds : ∀ d ∈ ended.rest, d.host.Quiet now) :
    Outcome c now done := by
  rw [extendLease] at h
  split at h
  · cases h
    exact .kept rfl hsame
  · split at h
    · obtain ⟨d, hd, h⟩ := bind_eq_ok.mp h
      cases h
      have hz := setupInterfaceRelease_addr hp.1.setAddr ended.client
      cases Outcome.of_cleared (c := c) (discover_outcome hd hp hds) hz with
      | kept hnone hk => exact .kept hnone hk
      | cleared hnone hzero => exact .cleared hnone hzero
      | leased p hone hstart => exact .leased p hone hstart
    · obtain ⟨c₁, halarm, h⟩ := bind_eq_ok.mp h
      cases h
      rw [← hp.2]
      exact .leased _ rfl (setAlarm_starts halarm)

theorem renew_outcome (h : c.renew host deliveries = .ok done) (hp : host.Quiet now)
    (hds : ∀ d ∈ deliveries, d.host.Quiet now) : Outcome c now done := by
  obtain ⟨⟨sent, ended⟩, hd, h⟩ := bind_eq_ok.mp h
  obtain ⟨hsame, hp', hds'⟩ := exchange_same hd hp hds
  exact extendLease_outcome h hsame hp' hds'

theorem rebind_outcome (h : c.rebind host deliveries = .ok done) (hp : host.Quiet now)
    (hds : ∀ d ∈ deliveries, d.host.Quiet now) : Outcome c now done := by
  obtain ⟨⟨sent, ended⟩, hd, h⟩ := bind_eq_ok.mp h
  obtain ⟨hsame, hp', hds'⟩ := exchange_same hd hp hds
  exact extendLease_outcome h hsame hp' hds'

theorem interact_outcome {command : Command} (h : interact command c host deliveries = .ok done)
    (hp : host.Quiet now) (hds : ∀ d ∈ deliveries, d.host.Quiet now) : Outcome c now done := by
  cases command with
  | discover => exact discover_outcome h hp hds
  | renew => exact renew_outcome h hp hds
  | rebind => exact rebind_outcome h hp hds
  | inform =>
    obtain ⟨⟨sent, ended⟩, hd, h⟩ := bind_eq_ok.mp h
    cases h
    exact .kept rfl (exchange_same hd hp hds).1
  | release =>
    obtain ⟨⟨c₁, sent⟩, -, h⟩ := bind_eq_ok.mp h
    cases h
    exact .cleared rfl (setupInterfaceRelease_addr hp.1.setAddr _)

theorem alarm_deadline {x : UInt32} (hx : x ≠ 0) (c : Client) (now : ℕ) :
    (c.alarm now x).deadline = some (now + x.toNat) := by
  rw [alarm, if_neg hx]

theorem sub_alarm {x y : UInt32} (h : x < y) : y - x ≠ 0 ∧ x.toNat + (y - x).toNat = y.toNat := by
  have hsub := UInt32.toNat_sub_of_le y x (UInt32.le_of_lt h)
  rw [UInt32.lt_iff_toNat_lt] at h
  constructor
  · intro hz
    rw [hz] at hsub
    simp at hsub
    omega
  · omega

theorem leased_rebinding {ack : Option (ℕ × DhcpT)} {d : ℕ} (h : Leased c now ack)
    (hd : c.deadline = some d) (hdue : d ≤ now) (ht1 : c.t1Time ≠ 0) :
    Leased ((c.alarm now (c.t2Time - c.t1Time)).setTimes c.leaseTime 0 c.t2Time) now ack := by
  obtain ⟨t, p, d', hack, hlease, hd', hn, hphase⟩ := h
  rw [hd] at hd'
  cases hd'
  cases hphase with
  | renewing hpos hlt hlt' =>
    obtain ⟨hne, hsum⟩ := sub_alarm hlt
    have hdeadline := alarm_deadline hne c now
    have hnow : now = t + c.t1Time.toNat := Nat.le_antisymm hn hdue
    rw [hnow, Nat.add_assoc, hsum] at hdeadline
    refine ⟨t, p, t + c.t2Time.toNat, hack, hlease, hnow ▸ hdeadline, ?_, ?_⟩
    · omega
    · exact .rebinding rfl (UInt32.lt_trans hpos hlt) hlt'
  | rebinding hzero => exact absurd hzero ht1
  | expiring hzero => exact absurd hzero ht1

theorem leased_expiring {ack : Option (ℕ × DhcpT)} {d : ℕ} (h : Leased c now ack)
    (hd : c.deadline = some d) (hdue : d ≤ now) (ht1 : c.t1Time = 0) (ht2 : c.t2Time ≠ 0) :
    Leased ((c.alarm now (c.leaseTime - c.t2Time)).setTimes c.leaseTime c.t1Time 0) now ack := by
  obtain ⟨t, p, d', hack, hlease, hd', hn, hphase⟩ := h
  rw [hd] at hd'
  cases hd'
  cases hphase with
  | renewing hpos =>
    rw [ht1] at hpos
    exact absurd hpos (by decide)
  | rebinding hzero hpos hlt =>
    obtain ⟨hne, hsum⟩ := sub_alarm hlt
    have hdeadline := alarm_deadline hne c now
    have hnow : now = t + c.t2Time.toNat := Nat.le_antisymm hn hdue
    rw [hnow, Nat.add_assoc, hsum] at hdeadline
    refine ⟨t, p, t + c.leaseTime.toNat, hack, hlease, hnow ▸ hdeadline, ?_, ?_⟩
    · omega
    · exact .expiring ht1 rfl
  | expiring _ hzero => exact absurd hzero ht2

/-- An alarm that goes off moves the lease to its next phase before anything is sent. -/
theorem leaseTimeOut_outcome {ack : Option (ℕ × DhcpT)} {d : ℕ}
    (h : c.alarmGone.leaseTimeOut host deliveries = .ok done)
    (hd : c.deadline = some d) (hdue : d ≤ now)
    (hc : c.interface.addr ≠ 0 → Leased c now ack) (hp : host.Quiet now)
    (hds : ∀ d ∈ deliveries, d.host.Quiet now) :
    ∃ c', (c'.interface.addr ≠ 0 → Leased c' now ack) ∧ Outcome c' now done := by
  have hstart : c.alarmGone.leaseTimeOut host deliveries =
      if c.t1Time ≠ 0 then ((c.alarm host.now (c.t2Time - c.t1Time)).setTimes c.leaseTime 0
        c.t2Time).renew host deliveries
      else if c.t2Time ≠ 0 then ((c.alarm host.now (c.leaseTime - c.t2Time)).setTimes c.leaseTime
        c.t1Time 0).rebind host deliveries
      else .ok ⟨c.alarmGone.setupInterfaceRelease host, [], []⟩ := rfl
  rw [hstart, hp.2] at h
  split at h
  · rename_i ht1
    refine ⟨_, ?_, renew_outcome h hp hds⟩
    intro haddr
    exact leased_rebinding (hc haddr) hd hdue ht1
  · rename_i ht1
    split at h
    · rename_i ht2
      refine ⟨_, ?_, rebind_outcome h hp hds⟩
      intro haddr
      exact leased_expiring (hc haddr) hd hdue (not_not.mp ht1) ht2
    · cases h
      exact ⟨c, hc, .cleared rfl (setupInterfaceRelease_addr hp.1.setAddr _)⟩

end Client

namespace Session

variable {s s' : Session} {happening : Happening} {acks : List (ℕ × DhcpT)}

def Held (s : Session) : Prop := s.client.interface.addr ≠ 0 → Leased s.client s.now s.lastAck

theorem after_ok {r : Except Fault Done} (h : s.after r = .ok (s', acks)) :
    ∃ done, r = .ok done ∧ acks = done.accepted ∧
      s' = ⟨done.client, s.now, done.accepted.getLast?.or s.lastAck⟩ := by
  cases r with
  | error f => cases h
  | ok done =>
    cases h
    exact ⟨done, rfl, rfl, rfl⟩

theorem step_held (h : s.step happening = .ok (s', acks)) (hsucc : happening.Succeeds)
    (hacks : ∀ a ∈ acks, TimedAck a.2) (hs : s.Held) : s'.Held := by
  have hquiet {deliveries : List Delivery} (hds : ∀ d ∈ deliveries, d.host.Succeeds) :
      ∀ d ∈ deliveries.map (Delivery.atTime s.now), d.host.Quiet s.now := by
    intro d hd
    obtain ⟨d', hd', rfl⟩ := List.mem_map.mp hd
    obtain ⟨h₁, h₂, h₃, h₄, h₅⟩ := hds d' hd'
    exact ⟨⟨h₁, h₂, h₃, h₄, h₅⟩, rfl⟩
  cases happening with
  | wait seconds =>
    rw [step] at h
    split at h
    · rename_i hdue
      cases h
      intro haddr
      obtain ⟨t, p, d, hack, hlease, hd, hn, hphase⟩ := hs haddr
      exact ⟨t, p, d, hack, hlease, hd, hdue d hd, hphase⟩
    · cases h
  | menu command host deliveries =>
    obtain ⟨⟨h₁, h₂, h₃, h₄, h₅⟩, hds⟩ := hsucc
    obtain ⟨done, hdone, rfl, rfl⟩ := after_ok h
    exact (interact_outcome hdone ⟨⟨h₁, h₂, h₃, h₄, h₅⟩, rfl⟩ (hquiet hds)).keeps hs hacks
  | alarm host deliveries =>
    obtain ⟨⟨h₁, h₂, h₃, h₄, h₅⟩, hds⟩ := hsucc
    rw [step] at h
    split at h
    · rename_i hdue
      obtain ⟨d, hd, hle⟩ := hdue
      obtain ⟨done, hdone, rfl, rfl⟩ := after_ok h
      obtain ⟨c', hc', houtcome⟩ :=
        leaseTimeOut_outcome hdone hd hle hs ⟨⟨h₁, h₂, h₃, h₄, h₅⟩, rfl⟩ (hquiet hds)
      exact houtcome.keeps hc' hacks
    · cases h

end Session

/-- Whenever the interface has an address, an alarm is pending and the lease of the last
acknowledgement has not run out. -/
theorem address_within_lease {trace : List (Transition Session Happening (List (ℕ × DhcpT)))}
    {s₀ s : Session} (h : Execution Session.step s₀ trace s) (haddr : s₀.client.interface.addr = 0)
    (hsucc : ∀ e ∈ trace, e.input.Succeeds) (hacks : ∀ e ∈ trace, ∀ a ∈ e.output, TimedAck a.2)
    (hheld : s.client.interface.addr ≠ 0) :
    (∃ d, s.client.deadline = some d) ∧
    ∃ t p leaseTime, s.lastAck = some (t, p) ∧
      optionWord p optionIpAddressLeaseTime = some leaseTime ∧ s.now ≤ t + leaseTime.toNat := by
  have hstart : s₀.Held := by
    intro hne
    exact absurd haddr hne
  have hkeeps (e : Transition Session Happening (List (ℕ × DhcpT)))
      (hstep : e.before.step e.input = .ok (e.after, e.output))
      (he : e.input.Succeeds ∧ ∀ a ∈ e.output, TimedAck a.2) (hs : e.before.Held) :
      e.after.Held := by
    obtain ⟨hsucc, hacks⟩ := he
    exact Session.step_held hstep hsucc hacks hs
  have hinv := h.invariant hkeeps (fun e he ↦ ⟨hsucc e he, hacks e he⟩) hstart
  obtain ⟨t, p, d, hack, hlease, hd, hn, hphase⟩ := hinv.1 hheld
  exact ⟨⟨d, hd⟩, t, p, _, hack, hlease, hn.trans hphase.le⟩

def bootpReply (xid yiaddr : UInt32) (state : UInt8) : List UInt8 :=
  [bootpMessageTypeReply, hardwareType, 6, dhcpHops] ++ wordBytes xid ++ List.replicate 8 0 ++
    wordBytes yiaddr ++ List.replicate 216 0 ++ wordBytes dhcpMagicCookie ++
    encode (replyFields state true)

theorem address_within_lease_unanswered : ∃ s : Session, s.now = 27 ∧
    s.client.interface.addr = 0xC0A80009 ∧ ∃ d, s.client.deadline = some d := by
  obtain ⟨trace, s, hrun, hs⟩ := exists_execution Session.step
    ⟨Client.dhcpSetup ⟨#v[2, 0, 0, 0, 0, 1], 0⟩, 0, none⟩
    [.menu .discover (quietHost 0 77) [⟨quietHost 0 0, bootpReply 77 0xC0A80009 dhcpoffer⟩,
        ⟨quietHost 0 0, bootpReply 77 0xC0A80009 dhcpack⟩],
      .wait 16, .alarm (quietHost 0 78) [], .wait 11]
    (fun trace s ↦ s.now = 27 ∧ s.client.interface.addr = 0xC0A80009 ∧
      (∀ e ∈ trace, e.input.Succeeds) ∧
      ∀ e ∈ trace, ∀ a ∈ e.output, a.2.yiaddr ≠ 0 ∧
        optionWord a.2 optionIpAddressLeaseTime = some 32 ∧
        optionWord a.2 optionIpT1RenewalTime = some 16 ∧
        optionWord a.2 optionIpT2RebindTime = some 28) (by decide +kernel)
  obtain ⟨hnow, haddr, hsucc, hacks⟩ := of_decide_eq_true hs
  refine ⟨s, hnow, haddr, (address_within_lease hrun rfl hsucc ?_ ?_).1⟩
  · intro e he a ha
    obtain ⟨hy, hl, ht1, ht2⟩ := hacks e he a ha
    exact ⟨hy, _, _, _, hl, ht1, ht2, by decide, by decide, by decide⟩
  · rw [haddr]
    decide

end InternetApplications.Dhcp
