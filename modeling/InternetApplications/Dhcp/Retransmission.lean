import InternetApplications.Dhcp.Exclusion
import InternetApplications.Dhcp.Independence

namespace InternetApplications.Dhcp

open ByteMemory TagScan KeyedList Executions LeaseTable

def Alike (now : ℕ) (m : Mac) (t t' : LeaseTable) : Prop :=
  ∀ x, 0 < checkIpaddr t now x m ↔ 0 < checkIpaddr t' now x m

/-- The same input, with the same uninitialised `offer_ip`, always has the same output, and the table
stays. -/
def Repeats (s : Server) (i : Input) (out : Option Sent) : Prop :=
  ∀ n, ∃ trace u, Execution mainLoop s trace u ∧ trace.map Transition.input = List.replicate n i ∧
    ∀ e ∈ trace, e.output = out ∧ e.after.table = s.table

/-- A request to this server for an address whose lease to another client has run out. -/
def RequestsOver (t : LeaseTable) (now : ℕ) (b : DhcpT) : Prop :=
  receivedType b = .ok (some dhcprequest) ∧
    optionWord b optionDhcpServerIdentifier = some dhcpServerIpAddress ∧ TakesOver t now b

instance (t : LeaseTable) (now : ℕ) (b : DhcpT) : Decidable (RequestsOver t now b) :=
  inferInstanceAs (Decidable (_ ∧ _ ∧ _))

section Tables

variable {t t' : LeaseTable} {env : Env} {now : ℕ} {stale x y : UInt32} {m : Mac} {r : ℤ}
  {lease : LeaseT}

theorem Alike.refl (now : ℕ) (m : Mac) (t : LeaseTable) : Alike now m t t := fun _ ↦ Iff.rfl

theorem alike_stampMac (ht : t.Valid) (h : t.firstOf m = some lease) :
    Alike now m t (t.stampMac now m) := by
  intro x
  rw [checkIpaddr_pos, checkIpaddr_pos]
  apply and_congr_right
  intro _
  rw [lookup_stampMac ht h]
  obtain ⟨hmem, hm⟩ := firstOf_some h
  split
  · rename_i hx
    subst hx
    simp [lookup_mem ht hmem, LeaseT.stamped, hm]
  · exact Iff.rfl

theorem firstOf_stampMac (h : t.firstOf m = some lease) :
    (t.stampMac now m).firstOf m = some (lease.stamped now) :=
  find?_touch (fun _ hb ↦ hb) h

theorem allocateIp_first (h : t.firstOf m = some lease) :
    allocateIp t env stale m = .ok (0, lease.addr, t.stampMac env.now m) := by
  have h' : (t.leases.find? fun lease ↦ lease.chaddr = m) = some lease := h
  rw [allocateIp, h']
  rfl

/-- Asking again gets the same address, and changes nothing any more. -/
theorem allocateIp_again (ht : t.Valid) (h : allocateIp t env stale m = .ok (r, y, t')) :
    allocateIp t' env stale m = .ok (r, y, t') ∧ Alike env.now m t t' := by
  obtain ⟨lease, hl, rfl, rfl, rfl⟩ | ⟨-, -, -, rfl, -⟩ | ⟨-, -, -, -, rfl⟩ := allocateIp_cases h
  · refine ⟨?_, alike_stampMac ht hl⟩
    have hagain : (t.stampMac env.now m).firstOf m = some (lease.stamped env.now) :=
      firstOf_stampMac hl
    have hsame : (t.stampMac env.now m).stampMac env.now m = t.stampMac env.now m :=
      (stampMac_eq_self_iff hagain).mpr rfl
    rw [allocateIp_first hagain, hsame]
    rfl
  · exact ⟨h, .refl env.now m _⟩
  · exact ⟨h, .refl env.now m _⟩

/-- The lease on record, which stays with the client that had it. -/
theorem addLease_recorded (ht : t.Valid) (h : addLease t now x m = .ok t') :
    ∃ lease, t'.lookup x = some lease ∧ lease.timeStamp = now ∧
      (lease.chaddr = m ↔ ∀ old, t.lookup x = some old → old.chaddr = m) ∧
      ∀ y, x ≠ y → t'.lookup y = t.lookup y := by
  obtain ⟨old, hl, rfl⟩ | ⟨hl, rfl, -⟩ := addLease_cases h
  · refine ⟨old.stamped now, ?_, rfl, by simp [hl, LeaseT.stamped], fun y hy ↦ ?_⟩
    · rw [lookup_stampAddr ht hl, if_pos rfl]
    · rw [lookup_stampAddr ht hl, if_neg hy]
  · have hfree : t.lookup (LeaseT.mk now x m).addr = none := hl
    refine ⟨⟨now, x, m⟩, ?_, rfl, by simp [hl], fun y hy ↦ ?_⟩
    · rw [lookup_append hfree, if_pos rfl]
    · rw [lookup_append hfree, if_neg hy]

theorem addLease_again (ht : t.Valid) (h : addLease t now x m = .ok t') :
    addLease t' now x m = .ok t' := by
  obtain ⟨lease, hl, hstamp, -, -⟩ := addLease_recorded ht h
  have hsame : t'.stampAddr now x = t' := (stampAddr_eq_self_iff hl).mpr hstamp
  have hany : (t'.leases.any fun lease ↦ lease.addr = x) = true := by
    rw [any_addr, hl]
    rfl
  rw [addLease, if_pos hany]
  exact congrArg Except.ok hsame

theorem addLease_alike (ht : t.Valid) (h : addLease t now x m = .ok t')
    (hown : ∀ old, t.lookup x = some old → old.chaddr = m) : Alike now m t t' := by
  obtain ⟨lease, hl, -, hm, hother⟩ := addLease_recorded ht h
  intro y
  rw [checkIpaddr_pos, checkIpaddr_pos]
  apply and_congr_right
  intro _
  by_cases hy : x = y
  · subst hy
    refine iff_of_true (fun old hold _ ↦ hown old hold) fun lease' hl' _ ↦ ?_
    cases hl.symm.trans hl'
    exact hm.mpr hown
  · rw [hother y hy]

/-- A lease that has been taken over keeps its client, which is not the one that took it. -/
theorem addLease_refuses (ht : t.Valid) (h : addLease t now x m = .ok t')
    (hother : ∃ old ∈ t.lookup x, old.chaddr ≠ m) : ¬0 < checkIpaddr t' now x m := by
  obtain ⟨lease, hl, hstamp, hm, -⟩ := addLease_recorded ht h
  intro hp
  have hlive : lease.Live now := by
    rw [LeaseT.Live, hstamp, ipAddressLeaseTime]
    omega
  obtain ⟨old, hold, hne⟩ := hother
  exact hne (hm.mp ((checkIpaddr_pos.mp hp).2 lease hl hlive) old hold)

theorem deleteLease_again (ht : t.Valid) (h : deleteLease t x m = .ok t') :
    deleteLease t' x m = .ok t' := by
  obtain ⟨lease, hl, rfl⟩ | ⟨-, rfl⟩ := deleteLease_cases h
  · have hx : lease.addr = x ∧ lease.chaddr = m := by simpa using List.find?_some hl
    have hgone : (t.erase x m).lookup x = none := by
      rw [LeaseTable.lookup, LeaseTable.erase, view_eraseP ht.distinct hl, if_pos hx.1]
    have hnone : ¬((t.erase x m).leases.any fun lease ↦ lease.addr = x ∧ lease.chaddr = m) := by
      rw [List.any_eq_true]
      rintro ⟨other, hmem, hboth⟩
      exact view_eq_none.mp hgone other hmem (of_decide_eq_true hboth).1
    rw [deleteLease, if_neg hnone]
  · exact h

end Tables

section Packets

variable {b : DhcpT} {t t' : LeaseTable} {env : Env} {now o : ℕ} {out : Option Sent} {x : UInt32}

theorem Alike.requestedIp (h : Alike now b.chaddr t t') :
    requestedIp b t' now = requestedIp b t now := by
  rw [requestedIp_eq, requestedIp_eq]
  congr
  funext _ x
  exact if_congr (h x).symm rfl rfl

theorem Alike.replyDest (h : Alike now b.chaddr t t') : replyDest b t' now = replyDest b t now := by
  rw [Dhcp.replyDest, Dhcp.replyDest, h.requestedIp]

theorem Alike.verdict (h : Alike now b.chaddr t t') (x : UInt32) :
    verdict b t' now x = verdict b t now x :=
  if_congr (h x).symm rfl rfl

theorem offered_again {m : Mac} {r y : Option UInt32} (ht : t.Valid)
    (h : offered t env m r = .ok (y, t')) :
    offered t' env m r = .ok (y, t') ∧ Alike env.now m t t' := by
  cases r with
  | some w =>
    cases h
    exact ⟨rfl, .refl env.now m _⟩
  | none =>
    obtain ⟨⟨r, z, u⟩, halloc, h⟩ := bind_eq_ok.mp h
    cases h
    obtain ⟨hagain, halike⟩ := allocateIp_again ht halloc
    refine ⟨?_, halike⟩
    rw [offered, hagain, ok_bind]

theorem onDiscover_again (ht : t.Valid) (h : onDiscover b t env o = .ok (t', out)) :
    onDiscover b t' env o = .ok (t', out) := by
  obtain ⟨dest, hdest, h⟩ := bind_eq_ok.mp h
  obtain ⟨⟨y, u⟩, hy, h⟩ := bind_eq_ok.mp h
  cases h
  rw [yourIpAddress_offer_eq] at hy
  obtain ⟨r, hr, hy⟩ := bind_eq_ok.mp hy
  obtain ⟨hagain, halike⟩ := offered_again ht hy
  rw [onDiscover, halike.replyDest, hdest, ok_bind, answer, yourIpAddress_offer_eq,
    halike.requestedIp, hr, ok_bind, hagain, ok_bind]

theorem granted_again {ciaddr x : UInt32} {m : Mac} {y : Option UInt32} (ht : t.Valid)
    (h : granted t env ciaddr m x = .ok (y, t'))
    (hown : ciaddr = inaddrAny → 0 < checkIpaddr t env.now x m →
      ∀ old, t.lookup x = some old → old.chaddr = m) :
    granted t' env ciaddr m x = .ok (y, t') ∧ Alike env.now m t t' := by
  rw [granted] at h
  split at h
  · rename_i hp
    split at h
    · rename_i hc
      obtain ⟨u, hadd, h⟩ := bind_eq_ok.mp h
      cases h
      have halike := addLease_alike ht hadd (hown hc hp)
      refine ⟨?_, halike⟩
      rw [granted, if_pos ((halike x).mp hp), if_pos hc, addLease_again ht hadd, ok_bind]
    · rename_i hc
      obtain ⟨⟨r, z, u⟩, halloc, h⟩ := bind_eq_ok.mp h
      cases h
      obtain ⟨hagain, halike⟩ := allocateIp_again ht halloc
      refine ⟨?_, halike⟩
      rw [granted, if_pos ((halike x).mp hp), if_neg hc, hagain, ok_bind]
  · rename_i hp
    cases h
    exact ⟨if_neg hp, .refl env.now m _⟩

theorem onRequest_again (ht : t.Valid) (h : onRequest b t env o = .ok (t', out))
    (hno : optionWord b optionDhcpServerIdentifier = some dhcpServerIpAddress →
      ¬TakesOver t env.now b) : onRequest b t' env o = .ok (t', out) := by
  obtain ⟨selected, hsel, h⟩ := bind_eq_ok.mp h
  cases selected with
  | none =>
    cases h
    rw [onRequest, hsel, ok_bind]
  | some identifier =>
    obtain ⟨dest, hdest, h⟩ := bind_eq_ok.mp h
    obtain ⟨x, hx, h⟩ := bind_eq_ok.mp h
    obtain ⟨⟨y, u⟩, hy, h⟩ := bind_eq_ok.mp h
    cases h
    rw [yourIpAddress_judged t env hsel hx] at hy
    have hown (hc : b.ciaddr = inaddrAny) (hp : 0 < checkIpaddr t env.now x b.chaddr)
        (old : LeaseT) (hold : t.lookup x = some old) : old.chaddr = b.chaddr := by
      by_contra hne
      obtain ⟨hpool, hlive⟩ := checkIpaddr_pos.mp hp
      rcases judgedAddress_cases hsel hx with hx | ⟨-, rfl⟩
      · rw [requestedAddress, if_pos hc] at hx
        exact hno (selectedServer_ok hsel).1
          ⟨hc, x, hx, hpool, old, hold, hne, fun hl ↦ hne (hlive old hold hl)⟩
      · exact not_inPool_server hpool
    obtain ⟨hagain, halike⟩ := granted_again ht hy hown
    rw [onRequest, hsel, ok_bind]
    simp only
    rw [halike.replyDest, hdest, ok_bind, hx, ok_bind, answer, yourIpAddress_judged _ env hsel hx,
      hagain, ok_bind, halike.verdict]

theorem onRelease_again (ht : t.Valid) (h : onRelease b t = .ok (t', out)) :
    onRelease b t' = .ok (t', out) := by
  obtain ⟨selected, hsel, h⟩ := bind_eq_ok.mp h
  rw [onRelease, hsel, ok_bind]
  cases selected with
  | none =>
    cases h
    rfl
  | some identifier =>
    obtain ⟨u, hdelete, h⟩ := bind_eq_ok.mp h
    cases h
    simp only
    rw [deleteLease_again ht hdelete, ok_bind]

theorem onInform_again (ht : t.Valid) (h : onInform b t env o = .ok (t', out)) :
    onInform b t' env o = .ok (t', out) := by
  obtain ⟨⟨y, u⟩, hy, h⟩ := bind_eq_ok.mp h
  cases h
  rw [onInform, answer]
  by_cases hc : b.ciaddr = inaddrAny
  · rw [yourIpAddress_ack_eq hc] at hy ⊢
    obtain ⟨⟨len, value⟩, hg, hy⟩ := bind_eq_ok.mp hy
    obtain ⟨x, hx, hy⟩ := bind_eq_ok.mp hy
    obtain ⟨u, hadd, hy⟩ := bind_eq_ok.mp hy
    cases hy
    rw [hg, ok_bind, hx, ok_bind, addLease_again ht hadd, ok_bind, ok_bind]
  · rw [yourIpAddress_known_eq _ env hc] at hy ⊢
    obtain ⟨⟨r, z, u⟩, halloc, hy⟩ := bind_eq_ok.mp hy
    cases hy
    rw [(allocateIp_again ht halloc).1, ok_bind, ok_bind]

theorem reaction_again (ht : t.Valid) (h : reaction b t env = .ok (t', out))
    (hno : ¬RequestsOver t env.now b) : reaction b t' env = .ok (t', out) := by
  obtain ⟨type, htype, -⟩ := bind_eq_ok.mp h
  cases type with
  | none =>
    rw [reaction_of_none htype] at h ⊢
    cases h
    rfl
  | some type =>
    obtain ⟨o, ho, -⟩ := receivedType_ok htype
    rw [reaction_of_type htype ho] at h ⊢
    split at h
    · rename_i hdiscover
      rw [if_pos hdiscover]
      exact onDiscover_again ht h
    · rename_i hdiscover
      rw [if_neg hdiscover]
      split at h
      · rename_i hrequest
        rw [if_pos hrequest]
        exact onRequest_again ht h fun hself htakes ↦ hno ⟨hrequest ▸ htype, hself, htakes⟩
      · rename_i hrequest
        rw [if_neg hrequest]
        split at h
        · rename_i hrelease
          rw [if_pos hrelease]
          exact onRelease_again ht h
        · rename_i hrelease
          rw [if_neg hrelease]
          split at h
          · rename_i hinform
            rw [if_pos hinform]
            exact onInform_again ht h
          · rename_i hinform
            cases h
            rw [if_neg hinform]

theorem requestedIp_other {r : Option UInt32} (h : requestedIp b t now = .ok r) (t' : LeaseTable) :
    ∃ r', requestedIp b t' now = .ok r' := by
  obtain ⟨⟨len, value⟩, hg, h⟩ := bind_eq_ok.mp h
  simp only at h
  by_cases hlen : len = 4
  · rw [if_pos hlen] at h
    subst hlen
    obtain ⟨w, hw, -⟩ := bind_eq_ok.mp h
    cases value with
    | none => cases hw
    | some o =>
      rw [requestedIp_eq]
      exact ⟨_, checkedWord_of_word hg hw⟩
  · exact ⟨none, requestedIp_of_ne hg hlen t' now⟩

theorem replyDest_other {dest : UInt32} (h : replyDest b t now = .ok dest) (t' : LeaseTable) :
    ∃ dest', replyDest b t' now = .ok dest' := by
  by_cases hflags : b.flags = bootpFlagsUnicast
  · rw [replyDest, if_pos hflags] at h
    obtain ⟨r, hr, -⟩ := bind_eq_ok.mp h
    exact replyDest_fine (requestedIp_other hr t')
  · exact ⟨inaddrBroadcast, if_neg hflags⟩

theorem reaction_refuses (ht : t.Valid) (h : reaction b t env = .ok (t', out))
    (hover : RequestsOver t env.now b) : ∃ m m' x, out = some m ∧ Answers b m dhcpack x ∧
      reaction b t' env = .ok (t', some m') ∧ Answers b m' dhcpnak inaddrAny := by
  obtain ⟨htype, hself, hc, x, hx, hpool, old, hold, hne, hdead⟩ := hover
  obtain ⟨o, ho, -⟩ := receivedType_ok htype
  rw [reaction_request htype ho] at h
  obtain ⟨selected, hsel, h⟩ := bind_eq_ok.mp h
  cases selected with
  | none => exact absurd hself (selectedServer_none hsel)
  | some identifier =>
    obtain ⟨dest, hdest, h⟩ := bind_eq_ok.mp h
    obtain ⟨x', hx', h⟩ := bind_eq_ok.mp h
    obtain ⟨⟨y, u⟩, hy, h⟩ := bind_eq_ok.mp h
    cases h
    have hjudged : x' = x := by
      rcases judgedAddress_cases hsel hx' with h | ⟨h, -⟩
      · rw [requestedAddress, if_pos hc] at h
        exact Option.some.inj (h.symm.trans hx)
      · rw [requestedAddress, if_pos hc] at h
        cases h.symm.trans hx
    subst hjudged
    have hp : 0 < checkIpaddr t env.now x' b.chaddr := by
      refine checkIpaddr_pos.mpr ⟨hpool, fun lease hl hlive ↦ ?_⟩
      cases hl.symm.trans hold
      exact absurd hlive hdead
    have hack : verdict b t env.now x' = dhcpack := if_pos hp
    rw [yourIpAddress_judged t env hsel hx', granted, if_pos hp, if_pos hc] at hy
    obtain ⟨v, hadd, hy⟩ := bind_eq_ok.mp hy
    cases hy
    have hrefused := addLease_refuses ht hadd ⟨old, hold, hne⟩
    have hnak : verdict b u env.now x' = dhcpnak := if_neg hrefused
    rw [if_pos hc] at hdest
    obtain ⟨dest', hdest'⟩ := replyDest_other hdest u
    refine ⟨_, ⟨dest', replyBytes b dhcpnak o (some inaddrAny)⟩, x', rfl, ⟨o, ho, ?_⟩, ?_, o, ho, rfl⟩
    · rw [hack]
      rfl
    · rw [reaction_request htype ho, onRequest, hsel, ok_bind]
      simp only
      rw [if_pos hc, hdest', ok_bind, hx', ok_bind, answer, yourIpAddress_judged u env hsel hx',
        granted, if_neg hrefused, ok_bind, hnak]

end Packets

section Steps

variable {s s' : Server} {env : Env} {datagram : List UInt8} {out : Option Sent}

theorem Determined.effect (hd : Determined datagram) (hr : TypeReceived datagram)
    (hlen : dhcpFixedNonUdp ≤ datagram.length) (ht : s.table.Valid) :
    Dhcp.effect (mainLoop s ⟨env, datagram⟩) = Dhcp.reaction (clean datagram) s.table env := by
  rw [mainLoop_effect]
  exact (hd.reaction hr ht env (recvfrom_front hlen DhcpT.zero s.dhcpRecv)).1.symm

theorem effect_ok {r : Except Fault (Server × Option Sent)} {t : LeaseTable}
    (h : effect r = .ok (t, out)) : ∃ s', r = .ok (s', out) ∧ s'.table = t := by
  cases r with
  | error e => cases h
  | ok p =>
    obtain ⟨s', out'⟩ := p
    cases h
    exact ⟨s', rfl, rfl⟩

/-- Copies of a datagram that come in the same second, all that its handler reads being among its
bytes, are answered like the first and do nothing more exactly when the first is not a request that
takes over an address. -/
theorem copies_repeat_iff (h : ServerReachable s) (hlen : dhcpFixedNonUdp ≤ datagram.length)
    (hr : TypeReceived datagram) (hd : Determined datagram)
    (hstep : mainLoop s ⟨env, datagram⟩ = .ok (s', out)) :
    Repeats s' ⟨env, datagram⟩ out ↔ ¬RequestsOver s.table env.now (clean datagram) := by
  have hfirst : reaction (clean datagram) s.table env = .ok (s'.table, out) := by
    rw [← hd.effect hr hlen h.valid, hstep]
    rfl
  have ht' : s'.table.Valid := mainLoop_valid hstep h.valid
  constructor
  · intro hrepeats hover
    obtain ⟨m, m', x, rfl, hm, hagain, hm'⟩ := reaction_refuses h.valid hfirst hover
    obtain ⟨trace, u, hrun, hinputs, hall⟩ := hrepeats 1
    cases hrun with
    | nil => cases hinputs
    | @cons _ v _ i o rest hst _ =>
      obtain ⟨rfl, -⟩ := List.cons.inj hinputs
      have hout : o = some m := (hall _ List.mem_cons_self).1
      rw [← hd.effect hr hlen ht', hst] at hagain
      obtain ⟨v, hv, -⟩ := effect_ok hagain
      cases hv
      cases hout
      have hack := hm.messageType
      rw [hm'.messageType] at hack
      exact absurd hack (by decide)
  · intro hno n
    have hagain := reaction_again h.valid hfirst hno
    refine exists_repeats (I := fun u : Server ↦ u.table = s'.table) (fun u hu ↦ ?_) rfl n
    have hu' : u.table.Valid := hu ▸ ht'
    rw [← hu, ← hd.effect hr hlen hu'] at hagain
    obtain ⟨v, hv, hvt⟩ := effect_ok hagain
    exact ⟨v, hv, hvt.trans hu⟩

theorem determined_selecting : Determined (selectingRequest clientB 0 0xC0A80009) := by
  have htype : receivedType (clean (selectingRequest clientB 0 0xC0A80009)) =
      .ok (some dhcprequest) := by decide +kernel
  have hid : search (clean (selectingRequest clientB 0 0xC0A80009)).options
      (covered (selectingRequest clientB 0 0xC0A80009)) optionDhcpServerIdentifier 0 = .found 3 := by
    decide +kernel
  have hip : search (clean (selectingRequest clientB 0 0xC0A80009)).options
      (covered (selectingRequest clientB 0 0xC0A80009)) optionRequestedIp 0 = .found 9 := by
    decide +kernel
  constructor
  · intro h
    exact absurd (htype.symm.trans h) (by decide)
  · intro _
    refine ⟨by simp [hid], fun q hq ↦ ?_⟩
    cases hid.symm.trans hq
    exact ⟨by decide +kernel, fun _ ↦ .inl (by decide +kernel)⟩
  · intro _ _ _
    refine ⟨by simp [hip], fun q hq ↦ ?_⟩
    cases hip.symm.trans hq
    exact ⟨by decide +kernel, fun _ ↦ .inl (by decide +kernel)⟩
  · intro h
    exact absurd (htype.symm.trans h) (by decide)

/-- After two hours another client is given the address once, and then refused it. -/
theorem copies_repeat_not : ∃ (s s' : Server) (out : Option Sent), ServerReachable s ∧
    mainLoop s ⟨⟨7200, [], 0⟩, selectingRequest clientB 0 0xC0A80009⟩ = .ok (s', out) ∧
      ¬Repeats s' ⟨⟨7200, [], 0⟩, selectingRequest clientB 0 0xC0A80009⟩ out := by
  obtain ⟨trace, s, hrun, hs⟩ := exists_execution mainLoop dhcpSetup
    [⟨⟨0, [], 0⟩, selectingRequest clientA 0 0xC0A80009⟩]
    (fun _ s ↦ RequestsOver s.table 7200 (clean (selectingRequest clientB 0 0xC0A80009)) ∧
      (Except.toOption (mainLoop s ⟨⟨7200, [], 0⟩, selectingRequest clientB 0 0xC0A80009⟩)).isSome)
    (by decide +kernel)
  obtain ⟨hover, hsome⟩ := of_decide_eq_true hs
  obtain ⟨⟨s', out⟩, hstep⟩ := Option.isSome_iff_exists.mp hsome
  have hreach : ServerReachable s := ⟨trace, hrun⟩
  refine ⟨s, s', out, hreach, toOption_eq_some.mp hstep, fun hrepeats ↦ ?_⟩
  exact (copies_repeat_iff hreach (by decide +kernel) ⟨0, by decide +kernel, by decide +kernel⟩
    determined_selecting (toOption_eq_some.mp hstep)).mp hrepeats hover

end Steps

end InternetApplications.Dhcp
