import InternetApplications.Dhcp.ClientCommit
import InternetApplications.Dhcp.ClientLease
import InternetApplications.Dhcp.ProcessStep

namespace InternetApplications.Dhcp

open ByteMemory TagScan Executions Client

def GrantsLease (p : DhcpT) : Prop :=
  optionByte p optionDhcpMessageType = some dhcpack ∧
    ∃ leaseTime, optionWord p optionIpAddressLeaseTime = some leaseTime

instance (p : DhcpT) : Decidable (GrantsLease p) :=
  decidable_of_iff (optionByte p optionDhcpMessageType = some dhcpack ∧
      (optionWord p optionIpAddressLeaseTime).isSome)
    (and_congr_right' Option.isSome_iff_exists)

/-- The client has the address of every acknowledgement of a lease that it accepted. -/
def Installed (c : Client) (accepted : List (ℕ × DhcpT)) : Prop :=
  ∀ a ∈ accepted, GrantsLease a.2 → c.interface.addr = a.2.yiaddr

instance (c : Client) (accepted : List (ℕ × DhcpT)) : Decidable (Installed c accepted) :=
  inferInstanceAs (Decidable (∀ a ∈ accepted, GrantsLease a.2 → _))

def SameAddress (c : Client) (host : Host) (deliveries : List Delivery) : Prop :=
  ∀ d ack rest, firstReply host.rand host.ackResidue deliveries = some (d, ack, rest) →
    GrantsLease ack → c.interface.addr = ack.yiaddr

section Reads

variable {p : DhcpT} {value : OptionValue} {x : UInt8}

theorem typeRead_of_optionByte (h : optionByte p optionDhcpMessageType = some x) :
    typeRead value p = .ok x := by
  obtain ⟨o, hg, hx⟩ := optionByte_iff.mp h
  rw [typeRead, lookupOption_of_ok hg value, ok_bind]
  exact hx

end Reads

namespace Client

variable {c c' : Client} {host : Host} {deliveries : List Delivery} {ended : Ended}
  {sent : List Sent} {done : Done} {clientAddr serverAddr : UInt32} {type : UInt8}

theorem discover_installs (h : c.discover host deliveries = .ok done) (hp : host.Succeeds)
    (hds : ∀ d ∈ deliveries, d.host.Succeeds) : Installed done.client done.accepted := by
  rw [discover] at h
  split at h
  · cases h
    exact fun a ha ↦ by cases ha
  · obtain ⟨⟨sent, ended⟩, hd, h⟩ := bind_eq_ok.mp h
    obtain ⟨-, hquiet, -⟩ := dhcpDiscover_same hd hp hds
    simp only at h
    split at h
    · cases h
      exact fun a ha ↦ by cases ha
    · split at h
      · cases h
        exact fun a ha ↦ by cases ha
      · obtain ⟨c₁, hsetup, h⟩ := bind_eq_ok.mp h
        obtain ⟨c₂, halarm, h⟩ := bind_eq_ok.mp h
        cases h
        intro a ha _
        rw [List.mem_singleton.mp ha, (setAlarm_interface halarm).1]
        exact (setupInterface_configured hquiet.setAddr hsetup).addr

theorem extendLease_installed_iff (h : extendLease sent ended = .ok done) (hp : ended.host.Succeeds)
    (hds : ∀ d ∈ ended.rest, d.host.Succeeds) :
    Installed done.client done.accepted ↔
      (ended.state = 0 → GrantsLease ended.dhcpAck →
        ended.client.interface.addr = ended.dhcpAck.yiaddr) := by
  rw [extendLease] at h
  split at h
  · rename_i hneg
    cases h
    refine iff_of_true (fun a ha ↦ by cases ha) ?_
    intro hzero
    omega
  · split at h
    · rename_i hpos
      obtain ⟨d, hd, h⟩ := bind_eq_ok.mp h
      cases h
      have hinstalled : Installed d.client d.accepted := discover_installs hd hp hds
      refine iff_of_true hinstalled ?_
      intro hzero
      omega
    · rename_i hneg hpos
      obtain ⟨c₁, halarm, h⟩ := bind_eq_ok.mp h
      cases h
      have hzero : ended.state = 0 := by omega
      rw [Installed, List.forall_mem_singleton, (setAlarm_interface halarm).1]
      exact ⟨fun hall _ ↦ hall, fun himp ↦ himp hzero⟩

theorem exchange_installed_iff (h : (do
      let (c, m) ← c.startExchange host clientAddr serverAddr type
      let ended ← c.awaitAck host.ackResidue none host deliveries
      return ([m], ended)) = .ok (sent, ended))
    (hextend : extendLease sent ended = .ok done) (hp : host.Succeeds)
    (hds : ∀ d ∈ deliveries, d.host.Succeeds) :
    Installed done.client done.accepted ↔ SameAddress c host deliveries := by
  obtain ⟨hsame, hp', hds'⟩ := exchange_same h hp hds
  rw [extendLease_installed_iff hextend hp' hds', hsame.interface]
  obtain ⟨⟨c₁, m⟩, hsend, h⟩ := bind_eq_ok.mp h
  simp only at h
  obtain ⟨e, hawait, h⟩ := bind_eq_ok.mp h
  cases h
  have hxid : c₁.xid = host.rand := startExchange_xid hsend
  rcases awaitAck_ok hawait with ⟨hnone, hstate, -⟩ | ⟨d, hfirst, -, htake⟩
  · rw [hxid] at hnone
    refine iff_of_true ?_ ?_
    · intro hzero
      omega
    · intro d ack rest hsome
      rw [hnone] at hsome
      cases hsome
  · rw [hxid] at hfirst
    constructor
    · intro himp d' ack rest hack hgrants
      rw [hfirst] at hack
      cases hack
      refine himp ((takeAck_accepts htake).mpr ?_) hgrants
      rw [typeRead_of_optionByte hgrants.1]
      decide
    · intro hall _ hgrants
      exact hall _ _ _ hfirst hgrants

theorem renew_installed_iff (h : c.renew host deliveries = .ok done) (hp : host.Succeeds)
    (hds : ∀ d ∈ deliveries, d.host.Succeeds) :
    Installed done.client done.accepted ↔ SameAddress c host deliveries := by
  obtain ⟨⟨sent, ended⟩, hd, h⟩ := bind_eq_ok.mp h
  exact exchange_installed_iff hd h hp hds

theorem rebind_installed_iff (h : c.rebind host deliveries = .ok done) (hp : host.Succeeds)
    (hds : ∀ d ∈ deliveries, d.host.Succeeds) :
    Installed done.client done.accepted ↔ SameAddress c host deliveries := by
  obtain ⟨⟨sent, ended⟩, hd, h⟩ := bind_eq_ok.mp h
  exact exchange_installed_iff hd h hp hds

end Client

section Times

variable {c c' : Client} {host : Host} {deliveries : List Delivery} {xid : UInt32} {buffer : DhcpT}
  {now : ℕ}

theorem firstReply_atTime (xid : UInt32) (buffer : DhcpT) (deliveries : List Delivery) (now : ℕ) :
    firstReply xid buffer (deliveries.map (Delivery.atTime now)) =
      (firstReply xid buffer deliveries).map fun r ↦
        (r.1.atTime now, r.2.1, r.2.2.map (Delivery.atTime now)) := by
  induction deliveries generalizing buffer with
  | nil => rfl
  | cons d rest ih =>
    simp only [List.map_cons, firstReply, Delivery.atTime]
    split
    · rfl
    · exact ih _

theorem sameAddress_atTime : SameAddress c (host.atTime now) (deliveries.map (Delivery.atTime now)) ↔
    SameAddress c host deliveries := by
  have hfirst := firstReply_atTime host.rand host.ackResidue deliveries now
  constructor
  · intro hsame d ack rest hack hgrants
    rw [hack] at hfirst
    exact hsame _ ack _ hfirst hgrants
  · intro hsame d ack rest hack hgrants
    obtain ⟨⟨d', p, rest'⟩, hp, he⟩ := Option.map_eq_some_iff.mp (hfirst.symm.trans hack)
    cases he
    exact hsame _ _ _ hp hgrants

theorem SameAddress.congr (h : c'.interface = c.interface) :
    SameAddress c' host deliveries ↔ SameAddress c host deliveries := by
  rw [SameAddress, SameAddress, h]

end Times

namespace Session

variable {s s' : Session} {happening : Happening} {acks : List (ℕ × DhcpT)}

def extending (s : Session) : Happening → Option (Host × List Delivery)
  | .wait _ => none
  | .menu command host deliveries =>
    if command = .renew ∨ command = .rebind then some (host, deliveries) else none
  | .alarm host deliveries =>
    if s.client.t1Time ≠ 0 ∨ s.client.t2Time ≠ 0 then some (host, deliveries) else none

/-- An exchange that extends the lease is first answered for the address on the interface. -/
def ExtendsSame (s : Session) (happening : Happening) : Prop :=
  ∀ host deliveries, s.extending happening = some (host, deliveries) →
    SameAddress s.client host deliveries

theorem menu_installed_iff {command : Command} {host : Host} {deliveries : List Delivery} {done : Done}
    (h : interact command s.client host deliveries = .ok done) (hp : host.Succeeds)
    (hds : ∀ d ∈ deliveries, d.host.Succeeds) :
    Installed done.client done.accepted ↔
      (command = .renew ∨ command = .rebind → SameAddress s.client host deliveries) := by
  cases command with
  | discover =>
    refine iff_of_true (discover_installs h hp hds) ?_
    intro hkind
    simp at hkind
  | renew =>
    have hiff := renew_installed_iff h hp hds
    simpa using hiff
  | rebind =>
    have hiff := rebind_installed_iff h hp hds
    simpa using hiff
  | inform =>
    obtain ⟨⟨sent, ended⟩, -, h⟩ := bind_eq_ok.mp h
    cases h
    refine iff_of_true (fun a ha ↦ by cases ha) ?_
    intro hkind
    simp at hkind
  | release =>
    obtain ⟨⟨c₁, sent⟩, -, h⟩ := bind_eq_ok.mp h
    cases h
    refine iff_of_true (fun a ha ↦ by cases ha) ?_
    intro hkind
    simp at hkind

theorem alarm_installed_iff {host : Host} {deliveries : List Delivery} {done : Done}
    (h : s.client.alarmGone.leaseTimeOut host deliveries = .ok done) (hp : host.Succeeds)
    (hds : ∀ d ∈ deliveries, d.host.Succeeds) :
    Installed done.client done.accepted ↔
      (s.client.t1Time ≠ 0 ∨ s.client.t2Time ≠ 0 → SameAddress s.client host deliveries) := by
  have hstart : s.client.alarmGone.leaseTimeOut host deliveries =
      if s.client.t1Time ≠ 0 then ((s.client.alarm host.now (s.client.t2Time -
        s.client.t1Time)).setTimes s.client.leaseTime 0 s.client.t2Time).renew host deliveries
      else if s.client.t2Time ≠ 0 then ((s.client.alarm host.now (s.client.leaseTime -
        s.client.t2Time)).setTimes s.client.leaseTime s.client.t1Time 0).rebind host deliveries
      else .ok ⟨s.client.alarmGone.setupInterfaceRelease host, [], []⟩ := rfl
  rw [hstart] at h
  split at h
  · rename_i ht1
    rw [renew_installed_iff h hp hds, SameAddress.congr (c := s.client) rfl]
    exact ⟨fun hsame _ ↦ hsame, fun himp ↦ himp (.inl ht1)⟩
  · rename_i ht1
    split at h
    · rename_i ht2
      rw [rebind_installed_iff h hp hds, SameAddress.congr (c := s.client) rfl]
      exact ⟨fun hsame _ ↦ hsame, fun himp ↦ himp (.inr ht2)⟩
    · rename_i ht2
      cases h
      refine iff_of_true (fun a ha ↦ by cases ha) ?_
      rintro (hne | hne)
      · exact absurd hne ht1
      · exact absurd hne ht2

theorem succeeds_atTime {deliveries : List Delivery} (now : ℕ)
    (h : ∀ d ∈ deliveries, d.host.Succeeds) :
    ∀ d ∈ deliveries.map (Delivery.atTime now), d.host.Succeeds := by
  intro d hd
  obtain ⟨d', hd', rfl⟩ := List.mem_map.mp hd
  obtain ⟨h₁, h₂, h₃, h₄, h₅⟩ := h d' hd'
  exact ⟨h₁, h₂, h₃, h₄, h₅⟩

theorem step_installed_iff (h : s.step happening = .ok (s', acks)) (hsucc : happening.Succeeds) :
    Installed s'.client acks ↔ s.ExtendsSame happening := by
  cases happening with
  | wait seconds =>
    rw [step] at h
    split at h
    · cases h
      refine iff_of_true (fun a ha ↦ by cases ha) ?_
      intro host deliveries hnone
      cases hnone
    · cases h
  | menu command host deliveries =>
    obtain ⟨⟨h₁, h₂, h₃, h₄, h₅⟩, hds⟩ := hsucc
    obtain ⟨done, hdone, rfl, rfl⟩ := after_ok h
    rw [menu_installed_iff hdone ⟨h₁, h₂, h₃, h₄, h₅⟩ (succeeds_atTime s.now hds),
      sameAddress_atTime, ExtendsSame, extending]
    simp
  | alarm host deliveries =>
    obtain ⟨⟨h₁, h₂, h₃, h₄, h₅⟩, hds⟩ := hsucc
    rw [step] at h
    split at h
    · obtain ⟨done, hdone, rfl, rfl⟩ := after_ok h
      rw [alarm_installed_iff hdone ⟨h₁, h₂, h₃, h₄, h₅⟩ (succeeds_atTime s.now hds),
        sameAddress_atTime, ExtendsSame, extending]
      simp
    · cases h

end Session

/-- In a run every accepted acknowledgement of a lease is for the address on the interface exactly
when those that extend a lease are for the address that was there. -/
theorem ack_installed_iff {trace : List (Transition Session Happening (List (ℕ × DhcpT)))}
    {interface : Interface} {now : ℕ} {s : Session}
    (h : Execution Session.step ⟨Client.dhcpSetup interface, now, none⟩ trace s)
    (hsucc : ∀ e ∈ trace, e.input.Succeeds) :
    (∀ e ∈ trace, Installed e.after.client e.output) ↔
      ∀ e ∈ trace, e.before.ExtendsSame e.input := by
  constructor
  · intro hall e he
    exact (Session.step_installed_iff (h.step_eq he) (hsucc e he)).mp (hall e he)
  · intro hall e he
    exact (Session.step_installed_iff (h.step_eq he) (hsucc e he)).mpr (hall e he)

theorem ack_installed_iff_renewed :
    ∃ trace : List (Transition Session Happening (List (ℕ × DhcpT))), trace.length = 3 ∧
      ∀ e ∈ trace, e.before.ExtendsSame e.input := by
  obtain ⟨trace, s, hrun, hs⟩ := exists_execution Session.step
    ⟨Client.dhcpSetup ⟨clientA, 0⟩, 0, none⟩
    [.menu .discover (quietHost 0 77) [⟨quietHost 0 0, bootpReply 77 0xC0A80009 dhcpoffer⟩,
        ⟨quietHost 0 0, bootpReply 77 0xC0A80009 dhcpack⟩],
      .wait 16, .alarm (quietHost 0 78) [⟨quietHost 0 0, bootpReply 78 0xC0A80009 dhcpack⟩]]
    (fun trace _ ↦ trace.length = 3 ∧ (∀ e ∈ trace, e.input.Succeeds) ∧
      ∀ e ∈ trace, Installed e.after.client e.output) (by decide +kernel)
  obtain ⟨hlen, hsucc, hall⟩ := of_decide_eq_true hs
  exact ⟨trace, hlen, (ack_installed_iff hrun hsucc).mp hall⟩

/-- After a release, a renewal is acknowledged for the address that the client had before: the alarm
is set, and the interface has no address. -/
theorem renewal_not_installed :
    ∃ (trace : List (Transition Session Happening (List (ℕ × DhcpT)))) (s : Session),
      Execution Session.step ⟨Client.dhcpSetup ⟨clientA, 0⟩, 0, none⟩ trace s ∧
      (∀ e ∈ trace, e.input.Succeeds) ∧ s.client.deadline = some 16 ∧
      ¬∀ e ∈ trace, Installed e.after.client e.output := by
  obtain ⟨trace, s, hrun, hs⟩ := exists_execution Session.step
    ⟨Client.dhcpSetup ⟨clientA, 0⟩, 0, none⟩
    [.menu .discover (quietHost 0 77) [⟨quietHost 0 0, bootpReply 77 0xC0A80009 dhcpoffer⟩,
        ⟨quietHost 0 0, bootpReply 77 0xC0A80009 dhcpack⟩],
      .menu .release (quietHost 0 78) [],
      .menu .renew (quietHost 0 79) [⟨quietHost 0 0, bootpReply 79 0xC0A80009 dhcpack⟩]]
    (fun trace s ↦ (∀ e ∈ trace, e.input.Succeeds) ∧ s.client.deadline = some 16 ∧
      ¬∀ e ∈ trace, Installed e.after.client e.output) (by decide +kernel)
  obtain ⟨hsucc, hdeadline, hno⟩ := of_decide_eq_true hs
  exact ⟨trace, s, hrun, hsucc, hdeadline, hno⟩

end InternetApplications.Dhcp
