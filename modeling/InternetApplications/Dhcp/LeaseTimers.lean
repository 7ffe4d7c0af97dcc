import InternetApplications.Dhcp.ClientLease

namespace InternetApplications.Dhcp

open ByteMemory TagScan Executions Client

/-- The timers go off one after the other: the first alarm is pending, and while no reply comes
each alarm that goes off sets the next, at the right distance. -/
structure TimersOrdered (c : Client) (now : ℕ) : Prop where
  pos : 0 < c.t1Time
  renew : c.t1Time < c.t2Time
  rebind : c.t2Time < c.leaseTime
  renewIn : (c.t2Time - c.t1Time).toNat = c.t2Time.toNat - c.t1Time.toNat
  rebindIn : (c.leaseTime - c.t2Time).toNat = c.leaseTime.toNat - c.t2Time.toNat
  armed : c.deadline = some (now + c.t1Time.toNat)
  renewing : ∀ host done, c.alarmGone.leaseTimeOut host [] = .ok done →
    done.client.deadline = some (host.now + (c.t2Time.toNat - c.t1Time.toNat))
  rebinding : ∀ host done host' done', c.alarmGone.leaseTimeOut host [] = .ok done →
    done.client.alarmGone.leaseTimeOut host' [] = .ok done' →
    done'.client.deadline = some (host'.now + (c.leaseTime.toNat - c.t2Time.toNat))

def Increasing (leaseTime : UInt32) : Option UInt32 → Option UInt32 → Prop
  | none, none => 8 ≤ leaseTime ∧ leaseTime ≠ 14 ∧ leaseTime ≠ 15
  | some t1, none => 0 < t1 ∧ t1 < leaseTime / 8 * 7
  | none, some t2 => 2 ≤ leaseTime ∧ leaseTime / 2 < t2 ∧ t2 < leaseTime
  | some t1, some t2 => 0 < t1 ∧ t1 < t2 ∧ t2 < leaseTime

variable {c c' : Client} {host host' : Host} {done done' : Done} {dhcpAck : DhcpT}
  {leaseTime : UInt32} {t1 t2 : Option UInt32}

theorem increasing_iff (h : 1 ≤ leaseTime) : Increasing leaseTime t1 t2 ↔
    0 < t1.getD (leaseTime / 2) ∧ t1.getD (leaseTime / 2) < t2.getD (leaseTime / 8 * 7) ∧
      t2.getD (leaseTime / 8 * 7) < leaseTime := by
  have hlt := leaseTime.toNat_lt
  simp only [UInt32.le_iff_toNat_le, UInt32.reduceToNat] at h
  have heighths : (leaseTime / 8 * 7).toNat = leaseTime.toNat / 8 * 7 := by
    rw [UInt32.toNat_mul, UInt32.toNat_div]
    exact Nat.mod_eq_of_lt (by simp only [UInt32.reduceToNat]; omega)
  cases t1 <;> cases t2 <;>
    simp only [Increasing, Option.getD_none, Option.getD_some, UInt32.lt_iff_toNat_lt,
      UInt32.le_iff_toNat_le, UInt32.toNat_div, heighths, ne_eq, ← UInt32.toNat_inj,
      UInt32.reduceToNat] <;> omega

theorem setAlarm_eq (hlease : wordOption dhcpAck optionIpAddressLeaseTime = .ok (some leaseTime))
    (ht1 : wordOption dhcpAck optionIpT1RenewalTime = .ok t1)
    (ht2 : wordOption dhcpAck optionIpT2RebindTime = .ok t2) (c : Client) (host : Host) :
    c.setAlarm host dhcpAck = .ok ((c.setTimes leaseTime (t1.getD (leaseTime / 2))
      (t2.getD (leaseTime / 8 * 7))).alarm host.now (t1.getD (leaseTime / 2))) := by
  rw [Client.setAlarm, hlease, ok_bind]
  simp only
  rw [ht1, ok_bind, ht2, ok_bind]
  rfl

theorem exchange_unanswered {clientAddr serverAddr : UInt32}
    (h : ((c.startExchange host clientAddr serverAddr dhcprequest >>= fun r ↦
      r.1.awaitAck host.ackResidue none host [] >>= fun ended ↦ .ok ([r.2], ended)) >>= fun r ↦
        Client.extendLease r.1 r.2) = .ok done) : SameLease c done.client := by
  obtain ⟨⟨sent, ended⟩, hd, h⟩ := bind_eq_ok.mp h
  obtain ⟨⟨c₁, m⟩, hsend, hd⟩ := bind_eq_ok.mp hd
  cases hd
  cases h
  exact startExchange_same hsend

theorem renew_unanswered (h : c.renew host [] = .ok done) : SameLease c done.client :=
  exchange_unanswered h

theorem rebind_unanswered (h : c.rebind host [] = .ok done) : SameLease c done.client :=
  exchange_unanswered h

theorem leaseTimeOut_renews (ht1 : c.t1Time ≠ 0) (h : c.alarmGone.leaseTimeOut host [] = .ok done) :
    SameLease ((c.alarm host.now (c.t2Time - c.t1Time)).setTimes c.leaseTime 0 c.t2Time)
      done.client := by
  have hstart : c.alarmGone.leaseTimeOut host [] =
      if c.t1Time ≠ 0 then ((c.alarm host.now (c.t2Time - c.t1Time)).setTimes c.leaseTime 0
        c.t2Time).renew host []
      else _ := rfl
  rw [hstart, if_pos ht1] at h
  exact renew_unanswered h

theorem leaseTimeOut_rebinds (ht1 : c.t1Time = 0) (ht2 : c.t2Time ≠ 0)
    (h : c.alarmGone.leaseTimeOut host [] = .ok done) :
    SameLease ((c.alarm host.now (c.leaseTime - c.t2Time)).setTimes c.leaseTime c.t1Time 0)
      done.client := by
  have hstart : c.alarmGone.leaseTimeOut host [] =
      if c.t1Time ≠ 0 then _
      else if c.t2Time ≠ 0 then ((c.alarm host.now (c.leaseTime - c.t2Time)).setTimes c.leaseTime
        c.t1Time 0).rebind host []
      else _ := rfl
  rw [hstart, if_neg (not_not.mpr ht1), if_pos ht2] at h
  exact rebind_unanswered h

theorem ne_zero_of_pos {x : UInt32} (h : 0 < x) : x ≠ 0 := by
  rintro rfl
  exact absurd h (by decide)

theorem timersOrdered_of_lt {now : ℕ} (hpos : 0 < c.t1Time) (hrenew : c.t1Time < c.t2Time)
    (hrebind : c.t2Time < c.leaseTime) (harmed : c.deadline = some (now + c.t1Time.toNat)) :
    TimersOrdered c now := by
  have hrenewIn := UInt32.toNat_sub_of_le c.t2Time c.t1Time (UInt32.le_of_lt hrenew)
  have hrebindIn := UInt32.toNat_sub_of_le c.leaseTime c.t2Time (UInt32.le_of_lt hrebind)
  refine ⟨hpos, hrenew, hrebind, hrenewIn, hrebindIn, harmed, ?_, ?_⟩
  · intro host done h
    have hsame := leaseTimeOut_renews (ne_zero_of_pos hpos) h
    rw [hsame.deadline, ← hrenewIn]
    exact alarm_deadline (sub_alarm hrenew).1 c host.now
  · intro host done host' done' h h'
    have hsame := leaseTimeOut_renews (ne_zero_of_pos hpos) h
    have ht1 : done.client.t1Time = 0 := hsame.t1Time
    have ht2 : done.client.t2Time = c.t2Time := hsame.t2Time
    have hlease : done.client.leaseTime = c.leaseTime := hsame.leaseTime
    have hne : done.client.t2Time ≠ 0 := by
      rw [ht2]
      exact ne_zero_of_pos (UInt32.lt_trans hpos hrenew)
    have hsame' := leaseTimeOut_rebinds ht1 hne h'
    rw [hlease, ht2] at hsame'
    rw [hsame'.deadline, ← hrebindIn]
    exact alarm_deadline (sub_alarm hrebind).1 done.client host'.now

/-- The timers that an acknowledgement sets are in order exactly when its times increase. -/
theorem timers_ordered_iff (c : Client) (host : Host)
    (hlease : wordOption dhcpAck optionIpAddressLeaseTime = .ok (some leaseTime))
    (hpos : 1 ≤ leaseTime) (ht1 : wordOption dhcpAck optionIpT1RenewalTime = .ok t1)
    (ht2 : wordOption dhcpAck optionIpT2RebindTime = .ok t2) :
    ∃ c', c.setAlarm host dhcpAck = .ok c' ∧
      (TimersOrdered c' host.now ↔ Increasing leaseTime t1 t2) := by
  refine ⟨_, setAlarm_eq hlease ht1 ht2 c host, ?_⟩
  rw [increasing_iff hpos]
  constructor
  · intro h
    exact ⟨h.pos, h.renew, h.rebind⟩
  · rintro ⟨hfirst, hrenew, hrebind⟩
    exact timersOrdered_of_lt hfirst hrenew hrebind
      (alarm_deadline (ne_zero_of_pos hfirst) (c.setTimes leaseTime _ _) host.now)

section Samples

def leaseOnly (leaseTime : UInt32) : DhcpT :=
  write DhcpT.zero dhcpFixedNonUdp (encode [⟨optionDhcpMessageType, [dhcpack]⟩,
    ⟨optionIpAddressLeaseTime, wordBytes leaseTime⟩, endField])

def bareClient : Client := Client.dhcpSetup ⟨Vector.replicate _ 2, 0⟩

theorem timers_ordered_hour : ∃ c', bareClient.setAlarm (quietHost 0 0) (leaseOnly 3600) = .ok c' ∧
    TimersOrdered c' 0 := by
  obtain ⟨c', hset, hiff⟩ := timers_ordered_iff bareClient (quietHost 0 0)
    (show wordOption (leaseOnly 3600) _ = .ok (some 3600) by decide +kernel) (by decide)
    (show wordOption (leaseOnly 3600) _ = .ok none by decide +kernel)
    (show wordOption (leaseOnly 3600) _ = .ok none by decide +kernel)
  exact ⟨c', hset, hiff.mpr ⟨by decide, by decide, by decide⟩⟩

/-- A lease of one second: the alarm is cancelled and none is pending. -/
theorem alarm_cancelled : ∃ c',
    wordOption (leaseOnly 1) optionIpAddressLeaseTime = .ok (some 1) ∧
      bareClient.setAlarm (quietHost 0 0) (leaseOnly 1) = .ok c' ∧
      c'.t1Time = 0 ∧ c'.deadline = none ∧ ¬TimersOrdered c' 0 := by
  have hlease : wordOption (leaseOnly 1) optionIpAddressLeaseTime = .ok (some 1) := by
    decide +kernel
  have hset := setAlarm_eq hlease (show wordOption (leaseOnly 1) _ = .ok none by decide +kernel)
    (show wordOption (leaseOnly 1) _ = .ok none by decide +kernel) bareClient (quietHost 0 0)
  refine ⟨_, hlease, hset, rfl, rfl, ?_⟩
  intro h
  exact absurd h.pos (by decide)

end Samples

end InternetApplications.Dhcp
