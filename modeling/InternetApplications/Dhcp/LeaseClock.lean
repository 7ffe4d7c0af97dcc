import InternetApplications.Dhcp.ClientLease
import InternetApplications.Dhcp.Traffic

namespace InternetApplications.Dhcp

open ByteMemory TagScan Executions Client

def maxDelay : ℕ := maxWaitTime - 1

/-- Which alarm is pending, with the latest times at which the handler that is running has last
received a datagram and at which the alarm is due, counted from when the acknowledgement that the
client has taken was sent. -/
inductive Client.Stage (c : Client) : ℕ → ℕ → Prop
  | acked : c.t1Time = UInt32.ofNat t1RenewalTime → c.t2Time = UInt32.ofNat t2RebindTime →
      c.leaseTime = UInt32.ofNat ipAddressLeaseTime → Stage c maxDelay (maxDelay + t1RenewalTime)
  | renewing : c.t1Time = 0 → c.t2Time = UInt32.ofNat t2RebindTime →
      c.leaseTime = UInt32.ofNat ipAddressLeaseTime →
      Stage c (maxDelay + t1RenewalTime) (maxDelay + t2RebindTime)
  | rebinding : c.t1Time = 0 → c.t2Time = 0 →
      Stage c (maxDelay + t2RebindTime) (maxDelay + ipAddressLeaseTime)

/-- The alarm is pending, and it comes late only if it finds the handler of another waiting. -/
structure Node.Armed (node : Node) (now handled last : ℕ) : Prop where
  deadline : ∃ d ∈ node.client.deadline, d ≤ last
  since : node.handling → node.since ≤ handled
  now : now ≤ max last (handled + maxWaitTime)

/-- The client counts its lease from an acknowledgement that was sent at `stamp`. -/
def Node.Within (node : Node) (now stamp : ℕ) : Prop :=
  ∃ handled last, node.client.Stage handled last ∧ node.Armed now (stamp + handled) (stamp + last)

structure Client.Restarted (c : Client) (now : ℕ) : Prop where
  leaseTime : c.leaseTime = UInt32.ofNat ipAddressLeaseTime
  t1Time : c.t1Time = UInt32.ofNat t1RenewalTime
  t2Time : c.t2Time = UInt32.ofNat t2RebindTime
  deadline : c.deadline = some (now + t1RenewalTime)

def Phase.setsTimers : Phase → Bool
  | .awaitOffer _ _ | .awaitAck .discover _ _ | .awaitAck .renew _ _ | .awaitAck .rebind _ _ => true
  | .menu | .rediscover | .awaitAck .release _ _ | .awaitAck .inform _ _ => false

section Timers

variable {c c' : Client} {host : Host} {p : Progress} {trigger : Trigger} {phase : Phase} {m : Sent}
  {mac : Mac} {x : UInt32} {type : UInt8} {handled last : ℕ}

namespace Client

theorem Stage.same (h : c.Stage handled last) (hs : SameLease c c') : c'.Stage handled last := by
  cases h with
  | acked h₁ h₂ h₃ =>
    exact .acked (hs.t1Time.trans h₁) (hs.t2Time.trans h₂) (hs.leaseTime.trans h₃)
  | renewing h₁ h₂ h₃ =>
    exact .renewing (hs.t1Time.trans h₁) (hs.t2Time.trans h₂) (hs.leaseTime.trans h₃)
  | rebinding h₁ h₂ => exact .rebinding (hs.t1Time.trans h₁) (hs.t2Time.trans h₂)

theorem Stage.bounds (h : c.Stage handled last) :
    maxDelay ≤ handled ∧ handled ≤ last ∧
      max last (handled + maxWaitTime) ≤ ipAddressLeaseTime + maxWaitTime := by
  cases h <;> decide

theorem beginCall_same {call : Command} (h : c.beginCall host call = .ok p)
    (hcall : call ≠ .release) : SameLease c p.client := by
  cases call with
  | release => exact absurd rfl hcall
  | discover =>
    have h' : c.beginDiscover host = .ok p := h
    rw [beginDiscover] at h'
    split at h'
    · cases h'
      exact .refl c
    · obtain ⟨⟨c₁, discover⟩, hsend, h'⟩ := bind_eq_ok.mp h'
      cases h'
      exact startExchange_same hsend
  | inform | renew | rebind =>
    obtain ⟨⟨c₁, m⟩, hsend, h⟩ := bind_eq_ok.mp h
    cases h
    exact startExchange_same hsend

theorem begin_same (h : c.begin host trigger = .ok p) (htrigger : ¬trigger.isAlarm)
    (hset : host.setAddr) (haddr : p.client.interface.addr ≠ inaddrAny) : SameLease c p.client := by
  cases trigger with
  | alarm => exact absurd rfl htrigger
  | rediscover =>
    have hcall : c.beginCall host .discover = .ok p := h
    exact beginCall_same hcall (by decide)
  | command call =>
    by_cases hcall : call = .release
    · rw [hcall] at h
      obtain ⟨⟨c₁, m⟩, -, h⟩ := bind_eq_ok.mp h
      cases h
      exact absurd (setupInterfaceRelease_addr hset c₁) haddr
    · exact beginCall_same h hcall

theorem begin_alarm (h : c.begin host .alarm = .ok p) (hs : c.Stage handled last)
    (hset : host.setAddr) (haddr : p.client.interface.addr ≠ inaddrAny) :
    ∃ seconds, p.client.deadline = some (host.now + seconds) ∧
      p.client.Stage last (last + seconds) ∧ handled + maxWaitTime ≤ last := by
  have h' : c.alarmGone.beginTimeOut host = .ok p := h
  rw [beginTimeOut] at h'
  cases hs with
  | acked h₁ h₂ h₃ =>
    have hne : c.alarmGone.t1Time ≠ 0 := fun hz ↦ absurd (h₁.symm.trans hz) (by decide)
    rw [if_pos hne] at h'
    have hsame := beginCall_same h' (by decide)
    have ht₁ : c.alarmGone.t1Time = UInt32.ofNat t1RenewalTime := h₁
    have ht₂ : c.alarmGone.t2Time = UInt32.ofNat t2RebindTime := h₂
    have hnext : ((c.alarm host.now (c.t2Time - c.t1Time)).setTimes c.leaseTime 0 c.t2Time).Stage
        (maxDelay + t1RenewalTime) (maxDelay + t2RebindTime) := .renewing rfl h₂ h₃
    refine ⟨t2RebindTime - t1RenewalTime, ?_, hnext.same hsame, by decide⟩
    rw [hsame.deadline, ht₁, ht₂]
    rfl
  | renewing h₁ h₂ h₃ =>
    have hzero : ¬c.alarmGone.t1Time ≠ 0 := not_not.mpr h₁
    have hne : c.alarmGone.t2Time ≠ 0 := fun hz ↦ absurd (h₂.symm.trans hz) (by decide)
    rw [if_neg hzero, if_pos hne] at h'
    have hsame := beginCall_same h' (by decide)
    have ht₂ : c.alarmGone.t2Time = UInt32.ofNat t2RebindTime := h₂
    have hlease : c.alarmGone.leaseTime = UInt32.ofNat ipAddressLeaseTime := h₃
    have hnext : ((c.alarm host.now (c.leaseTime - c.t2Time)).setTimes c.leaseTime c.t1Time 0).Stage
        (maxDelay + t2RebindTime) (maxDelay + ipAddressLeaseTime) := .rebinding h₁ rfl
    refine ⟨ipAddressLeaseTime - t2RebindTime, ?_, hnext.same hsame, by decide⟩
    rw [hsame.deadline, ht₂, hlease]
    rfl
  | rebinding h₁ h₂ =>
    have hzero : ¬c.alarmGone.t1Time ≠ 0 := not_not.mpr h₁
    have hzero' : ¬c.alarmGone.t2Time ≠ 0 := not_not.mpr h₂
    rw [if_neg hzero, if_neg hzero'] at h'
    cases h'
    exact absurd (setupInterfaceRelease_addr hset c.alarmGone) haddr

theorem setAlarm_restarts {state : UInt8} {b q : DhcpT} {y : UInt32} (h : ReadsReply q b state y true)
    (hs : state ≠ dhcpnak) (ha : c.setAlarm host q = .ok c') : c'.Restarted host.now := by
  rw [h.setAlarm hs host c] at ha
  cases ha
  exact ⟨rfl, rfl, rfl, rfl⟩

/-- A routine that has waited for its acknowledgement sets the timers, or the client is left without
an address. -/
theorem settle_cases {state : ℤ} {q : DhcpT} {call : Command}
    (h : c.settle host state q call = .ok p) (hset : host.setAddr) :
    p = c.atMenu ∨ p.client.interface.addr = inaddrAny ∨
      state ≤ 0 ∧ p.phase = .menu ∧ (call ≠ .release ∧ call ≠ .inform) ∧
        ∃ c₁ : Client, c₁.setAlarm host q = .ok p.client := by
  cases call with
  | release | inform =>
    cases h
    exact .inl rfl
  | discover =>
    rw [settle] at h
    split at h
    · cases h
      exact .inr (.inl (setupInterfaceRelease_addr hset c))
    · rename_i hstate
      obtain ⟨c₁, -, h⟩ := bind_eq_ok.mp h
      obtain ⟨c₂, ha, h⟩ := bind_eq_ok.mp h
      cases h
      exact .inr (.inr ⟨not_lt.mp hstate, rfl, by decide, c₁, ha⟩)
  | renew | rebind =>
    rw [settle] at h
    split at h
    · cases h
      exact .inr (.inl (setupInterfaceRelease_addr hset c))
    · rename_i hstate
      obtain ⟨c₁, ha, h⟩ := bind_eq_ok.mp h
      cases h
      exact .inr (.inr ⟨not_lt.mp hstate, rfl, by decide, c, ha⟩)

/-- What the client does not take for a refusal sets the timers anew. -/
theorem takeAck_restarts {buffer : DhcpT} {value : OptionValue} {state : ℤ} {c₁ c₂ : Client}
    (hf : Replies m mac x type) (hne : m.payload ≠ []) (htakes : c.Takes (buffer.recvfrom m.payload))
    (htake : c.takeAck (buffer.recvfrom m.payload) value = .ok (state, c₁)) (hstate : state ≤ 0)
    (ha : c₂.setAlarm host (buffer.recvfrom m.payload) = .ok c') : c'.Restarted host.now := by
  have hzero : state = 0 := by
    rcases takeAck_ok htake with ⟨rfl, -⟩ | ⟨rfl, -⟩
    · exact absurd hstate (by decide)
    · rfl
  rw [hzero] at htake
  have hnak := hf.takeAck (.inl hne) htakes htake
  rcases hf with hempty | ⟨b, state', y, hreply, -, -, -⟩
  · exact absurd hempty hne
  · rw [hreply.messageType] at hnak
    exact setAlarm_restarts (hreply.reads buffer) (fun hs ↦ hnak (congrArg some hs)) ha

/-- What becomes of the timers of a client that keeps its address when it has received a reply. -/
theorem resume_timers (h : c.resume ⟨host, m.payload⟩ phase = .ok p) (hf : Replies m mac x type)
    (hne : m.payload ≠ []) (hset : host.setAddr) (haddr : p.client.interface.addr ≠ inaddrAny) :
    SameLease c p.client ∧ p.configured = none ∨
      p.client.Restarted host.now ∧ p.phase = .menu ∧ c.Takes m.packet ∧ phase.setsTimers := by
  cases phase with
  | menu | rediscover =>
    cases h
    exact .inl ⟨.refl c, rfl⟩
  | awaitOffer dhcpOffer dhcpAck =>
    rw [resume] at h
    simp only at h
    split at h
    · obtain ⟨⟨c₁, value⟩, htake, h⟩ := bind_eq_ok.mp h
      obtain ⟨request, -, h⟩ := bind_eq_ok.mp h
      cases h
      exact .inl ⟨takeOffer_same htake, rfl⟩
    · cases h
      exact .inl ⟨.refl c, rfl⟩
  | awaitAck call dhcpAck value =>
    rw [resume] at h
    simp only at h
    split at h
    · rename_i htakes
      obtain ⟨⟨state, c₁⟩, htake, h⟩ := bind_eq_ok.mp h
      rcases settle_cases h hset with rfl | hzero | ⟨hstate, hmenu, hcall, c₂, ha⟩
      · exact .inl ⟨takeAck_same htake, rfl⟩
      · exact absurd hzero haddr
      · refine .inr ⟨takeAck_restarts hf hne htakes htake hstate ha, hmenu,
          (hf.takes_recvfrom (.inl hne)).mp htakes, ?_⟩
        cases call with
        | discover | renew | rebind => rfl
        | release => exact absurd rfl hcall.1
        | inform => exact absurd rfl hcall.2
    · cases h
      exact .inl ⟨.refl c, rfl⟩

/-- A client that is to discover anew has given up its address. -/
theorem resume_rediscovers {d : Delivery} (h : c.resume d phase = .ok p) (hset : d.host.setAddr)
    (hphase : phase.isWaiting) (hp : p.phase = .rediscover) :
    p.client.interface.addr = inaddrAny := by
  cases phase with
  | menu | rediscover => cases hphase
  | awaitOffer dhcpOffer dhcpAck =>
    rw [resume] at h
    simp only at h
    split at h
    · obtain ⟨⟨c₁, value⟩, -, h⟩ := bind_eq_ok.mp h
      obtain ⟨request, -, h⟩ := bind_eq_ok.mp h
      cases h
      cases hp
    · cases h
      cases hp
  | awaitAck call dhcpAck value =>
    rw [resume] at h
    simp only at h
    split at h
    · obtain ⟨⟨state, c₁⟩, -, h⟩ := bind_eq_ok.mp h
      rcases settle_cases h hset with rfl | hzero | ⟨-, hmenu, -⟩
      · cases hp
      · exact hzero
      · cases hmenu.symm.trans hp
    · cases h
      cases hp

end Client

end Timers

namespace Node

variable {node node' : Node} {now stamp stamp' seconds : ℕ} {host : Host} {p : Progress}

/-- A lease ends at most a wait later for the client than for the server. -/
theorem Within.le (h : node.Within now stamp) : now ≤ stamp + ipAddressLeaseTime + maxWaitTime := by
  obtain ⟨handled, last, hstage, harmed⟩ := h
  obtain ⟨-, -, hlate⟩ := hstage.bounds
  have hnow := harmed.now
  omega

theorem Within.mono (h : node.Within now stamp) (hle : stamp ≤ stamp') : node.Within now stamp' := by
  obtain ⟨handled, last, hstage, ⟨d, hd, hlast⟩, hsince, hnow⟩ := h
  refine ⟨handled, last, hstage, ⟨d, hd, by omega⟩, fun hh ↦ ?_, by omega⟩
  have := hsince hh
  omega

theorem Within.of_same (h : node.Within now stamp) (hc : node'.client = node.client)
    (hh : node'.handling = node.handling) (hs : node'.since = node.since) :
    node'.Within now stamp := by
  obtain ⟨handled, last, hstage, hdeadline, hsince, hnow⟩ := h
  refine ⟨handled, last, hc ▸ hstage, hc ▸ hdeadline, ?_, hnow⟩
  rw [hh, hs]
  exact hsince

/-- Time goes on until the alarm is due, or the client that handles one has waited long enough. -/
theorem Within.wait (h : node.Within now stamp) (hrests : node.RestsUntil (now + seconds))
    (hbusy : node.handling → ¬node.phase.isMenu) : node.Within (now + seconds) stamp := by
  obtain ⟨handled, last, hstage, ⟨d, hd, hlast⟩, hsince, -⟩ := h
  obtain ⟨hphase, hwaits, halarm⟩ := hrests
  refine ⟨handled, last, hstage, ⟨d, hd, hlast⟩, hsince, ?_⟩
  cases hcase : node.handling with
  | false =>
    have hdue := halarm (by rw [hcase]; rfl) d hd
    omega
  | true =>
    have hwaiting : node.phase.isWaiting := by
      have hmenu := hbusy hcase
      cases hp : node.phase with
      | menu =>
        rw [hp] at hmenu
        exact absurd rfl hmenu
      | rediscover =>
        rw [hp] at hphase
        cases hphase
      | awaitOffer | awaitAck => rfl
    have hover := hwaits hwaiting
    have hearly := hsince hcase
    omega

theorem Within.adopt {handling : Bool} (h : node.Within now stamp)
    (hs : SameLease node.client p.client)
    (hh : handling → node.handling ∧ (now = node.since ∨ now ≤ stamp + maxDelay)) :
    (node.adopt now handling p).Within now stamp := by
  obtain ⟨handled, last, hstage, hdeadline, hsince, hlate⟩ := h
  obtain ⟨hdelay, -, -⟩ := hstage.bounds
  refine ⟨handled, last, hstage.same hs, ?_, ?_, hlate⟩
  · obtain ⟨d, hd, hlast⟩ := hdeadline
    exact ⟨d, hs.deadline ▸ hd, hlast⟩
  · intro hhandling
    obtain ⟨hbefore, hnow⟩ := hh (Bool.and_eq_true_iff.mp hhandling).1
    change now ≤ stamp + handled
    rcases hnow with rfl | hle
    · exact hsince hbefore
    · omega

theorem Within.alarm (h : node.Within now stamp) (hp : node.client.begin host .alarm = .ok p)
    (hhost : host.now = now) (hset : host.setAddr)
    (haddr : p.client.interface.addr ≠ inaddrAny) :
    (node.adopt now true p).Within now stamp := by
  obtain ⟨handled, last, hstage, -, -, hlate⟩ := h
  obtain ⟨seconds, hdeadline, hnext, hearly⟩ := begin_alarm hp hstage hset haddr
  have hnow : now ≤ stamp + last := by omega
  refine ⟨last, last + seconds, hnext, ⟨now + seconds, ?_, by omega⟩, fun _ ↦ hnow, by omega⟩
  change now + seconds ∈ p.client.deadline
  rw [hdeadline, hhost]
  rfl

theorem Within.restart {handling : Bool} (h : p.client.Restarted now) (hmenu : p.phase = .menu)
    (hnow : now ≤ stamp + maxDelay) : (node.adopt now handling p).Within now stamp := by
  refine ⟨maxDelay, maxDelay + t1RenewalTime, .acked h.t1Time h.t2Time h.leaseTime,
    ⟨now + t1RenewalTime, h.deadline, by omega⟩, ?_, by omega⟩
  intro hhandling
  have hphase := (Bool.and_eq_true_iff.mp hhandling).2
  rw [hmenu] at hphase
  cases hphase

end Node

end InternetApplications.Dhcp
