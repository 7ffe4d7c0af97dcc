import InternetApplications.Dhcp.LeaseMap
import InternetApplications.Dhcp.Received

namespace InternetApplications.Dhcp

open ByteMemory TagScan Executions LeaseTable

section Tame

variable {α β : Type} {x : Except Fault α} {f : α → Except Fault β}

/-- The pass goes wrong at most where the draws or the counter run out. -/
def Tame (x : Except Fault α) : Prop := ∀ e, x = .error e → e = .noReturn ∨ e = .overflow

theorem tame_ok (a : α) : Tame (.ok a) := by
  intro e he
  cases he

theorem Tame.bind (hx : Tame x) (hf : ∀ a, Tame (f a)) : Tame (x >>= f) := by
  cases x with
  | error e =>
    intro e' he
    cases he
    exact hx e rfl
  | ok a => exact hf a

theorem allocateIp_tame (t : LeaseTable) (env : Env) (stale : UInt32) (m : Mac) :
    Tame (allocateIp t env stale m) := fun _ he ↦ .inl (allocateIp_error he).1

theorem addLease_tame {t : LeaseTable} (ht : t.Valid) (now : ℕ) (x : UInt32) (m : Mac) :
    Tame (addLease t now x m) := fun _ he ↦ .inr (addLease_error ht he).1

theorem deleteLease_tame {t : LeaseTable} (ht : t.Valid) (x : UInt32) (m : Mac) :
    Tame (deleteLease t x m) := by
  obtain ⟨t', hok, -⟩ := toMap_deleteLease ht x m
  rw [hok]
  exact tame_ok t'

end Tame

section Answers

variable {n o identifier : ℕ} {b b' : DhcpT} {t : LeaseTable} {env : Env} {state : UInt8} {x : UInt32}

theorem Front.replyBytes (h : Front n b b') (ho : o < n) (state : UInt8) (y : Option UInt32) :
    replyBytes b state o y = replyBytes b' state o y := by
  cases y with
  | none => rfl
  | some y =>
    have hheader {i : ℕ} (hi : b i = b' i) : replyHeader b y i = replyHeader b' y i :=
      write_congr (write_congr (write_congr hi))
    have hleased : leasedAt b state y o = leasedAt b' state y o := by
      have hbyte : (packed (replyHeader b y) (identityFields state ++ networkFields)).1.options o =
          (packed (replyHeader b' y) (identityFields state ++ networkFields)).1.options o :=
        write_congr (hheader (h.options ho))
      rw [leasedAt, leasedAt, hbyte]
    rw [Dhcp.replyBytes, Dhcp.replyBytes, hleased]
    refine List.map_congr_left fun i hi ↦ ?_
    rw [List.mem_range, replySize] at hi
    rw [Nat.zero_add, replyPacket, replyPacket]
    rcases Nat.lt_or_ge i dhcpFixedNonUdp with hlt | hge
    · exact write_congr (hheader (h.header hlt))
    · obtain ⟨j, rfl⟩ := Nat.exists_eq_add_of_le hge
      rw [write_at (by omega), write_at (by omega)]

theorem Front.answer (h : Front n b b') (ho : o < n)
    (hy : yourIpAddress b t env state = yourIpAddress b' t env state) (dest : UInt32) :
    answer b t env state dest o = answer b' t env state dest o := by
  simp only [Dhcp.answer, hy, h.replyBytes ho]

theorem answer_tame (hy : Tame (yourIpAddress b t env state)) (dest : UInt32) (o : ℕ) :
    Tame (answer b t env state dest o) := hy.bind fun _ ↦ tame_ok _

theorem Front.replyDest {now : ℕ} {r : Option UInt32} (h : Front n b b')
    (hr : requestedIp b t now = .ok r) (hr' : requestedIp b' t now = .ok r) :
    ∃ dest, replyDest b t now = .ok dest ∧ replyDest b' t now = .ok dest := by
  rw [Dhcp.replyDest, Dhcp.replyDest, ← h.flags, ← h.ciaddr, hr, hr']
  split
  · exact ⟨_, rfl, rfl⟩
  · exact ⟨_, rfl, rfl⟩

theorem offered_tame (t : LeaseTable) (env : Env) (m : Mac) (r : Option UInt32) :
    Tame (offered t env m r) := by
  cases r with
  | some y => exact tame_ok _
  | none => exact (allocateIp_tame t env env.stale m).bind fun _ ↦ tame_ok _

def granted (t : LeaseTable) (env : Env) (ciaddr : UInt32) (m : Mac) (x : UInt32) :
    Except Fault (Option UInt32 × LeaseTable) :=
  if 0 < checkIpaddr t env.now x m then
    if ciaddr = inaddrAny then addLease t env.now x m >>= fun t' ↦ .ok (some x, t')
    else allocateIp t env env.stale m >>= fun p ↦ .ok (some p.2.1, p.2.2)
  else .ok (some inaddrAny, t)

theorem yourIpAddress_judged (t : LeaseTable) (env : Env)
    (hsel : selectedServer b = .ok (some identifier))
    (hx : judgedAddress b identifier = .ok x) :
    yourIpAddress b t env (verdict b t env.now x) = granted t env b.ciaddr b.chaddr x := by
  rw [verdict, granted]
  by_cases hp : 0 < checkIpaddr t env.now x b.chaddr
  · rw [if_pos hp, if_pos hp]
    by_cases hc : b.ciaddr = inaddrAny
    · rw [if_pos hc]
      obtain ⟨y, hy, -⟩ := (judged_acceptable _ _ hsel hx).mp hp
      rcases judgedAddress_cases hsel hx with hx | ⟨hnone, -⟩
      · rw [requestedAddress, if_pos hc] at hx
        exact yourIpAddress_selected_eq t env hc hx
      · cases hnone.symm.trans hy
    · rw [if_neg hc]
      exact yourIpAddress_known_eq t env hc
  · rw [if_neg hp, if_neg hp]
    rfl

theorem granted_tame (ht : t.Valid) (ciaddr : UInt32) (m : Mac) (x : UInt32) :
    Tame (granted t env ciaddr m x) := by
  rw [granted]
  split
  · split
    · exact (addLease_tame ht env.now x m).bind fun _ ↦ tame_ok _
    · exact (allocateIp_tame t env env.stale m).bind fun _ ↦ tame_ok _
  · exact tame_ok _

end Answers

section Handlers

variable {n o : ℕ} {b b' : DhcpT} {t : LeaseTable} {env : Env}

theorem WordReceived.mono {P Q : UInt8 → Prop} {m : Memory} {tag : UInt8}
    (h : WordReceived P m n tag) (hPQ : ∀ len, Q len → P len) : WordReceived Q m n tag :=
  ⟨h.1, fun q hs ↦ ⟨(h.2 q hs).1, fun hQ ↦ (h.2 q hs).2 (hPQ _ hQ)⟩⟩

theorem Front.onDiscover (h : Front n b b') (hn : n ≤ dhcpMaxOptionLen) (ho : o < n)
    (hw : WordReceived (fun len ↦ len = 4) b.options n optionRequestedIp) :
    onDiscover b t env o = onDiscover b' t env o ∧ Tame (onDiscover b t env o) := by
  obtain ⟨r, hr, hr'⟩ := hw.requestedIp h hn t env.now
  obtain ⟨dest, hdest, hdest'⟩ := h.replyDest hr hr'
  rw [Dhcp.onDiscover, Dhcp.onDiscover, hdest, hdest', ok_bind, ok_bind]
  have hy : yourIpAddress b t env dhcpoffer = offered t env b.chaddr r := by
    rw [yourIpAddress_offer_eq, hr, ok_bind]
  have hy' : yourIpAddress b' t env dhcpoffer = offered t env b.chaddr r := by
    rw [yourIpAddress_offer_eq, hr', ok_bind, h.chaddr]
  refine ⟨h.answer ho (hy.trans hy'.symm) dest, answer_tame ?_ dest o⟩
  rw [hy]
  exact offered_tame t env b.chaddr r

/-- The address a request is judged by is the same over any leftovers, or no own address. -/
theorem Front.judgedAddress {identifier : ℕ} (h : Front n b b') (hn : n ≤ dhcpMaxOptionLen)
    (hsel : selectedServer b = .ok (some identifier)) (hsel' : selectedServer b' = .ok (some identifier))
    (hw : b.ciaddr = inaddrAny → WordReceived (fun _ ↦ True) b.options n optionRequestedIp) :
    ∃ x x', judgedAddress b identifier = .ok x ∧ judgedAddress b' identifier = .ok x' ∧
      (x = x' ∨ ¬OwnAddress x ∧ ¬OwnAddress x') := by
  rw [Dhcp.judgedAddress, Dhcp.judgedAddress, ← h.ciaddr]
  split
  · rename_i hc
    obtain ⟨len, value, hg, hg', hword⟩ := (hw hc).alike h hn
    rw [hg, hg', ok_bind, ok_bind]
    cases value with
    | none => exact ⟨_, _, (selectedServer_ok hsel).2, (selectedServer_ok hsel').2, .inl rfl⟩
    | some o => exact hword o rfl trivial
  · exact ⟨_, _, rfl, rfl, .inl rfl⟩

theorem Front.onRequest (h : Front n b b') (hn : n ≤ dhcpMaxOptionLen) (ho : o < n) (ht : t.Valid)
    (hid : WordReceived (fun len ↦ len = 4) b.options n optionDhcpServerIdentifier)
    (hip : optionWord b optionDhcpServerIdentifier = some dhcpServerIpAddress →
      b.ciaddr = inaddrAny → WordReceived (fun _ ↦ True) b.options n optionRequestedIp) :
    onRequest b t env o = onRequest b' t env o ∧ Tame (onRequest b t env o) := by
  obtain ⟨selected, hsel, hsel'⟩ := hid.selectedServer h hn
  rw [Dhcp.onRequest, Dhcp.onRequest, hsel, hsel', ok_bind, ok_bind]
  cases selected with
  | none => exact ⟨rfl, tame_ok _⟩
  | some identifier =>
    have hw := hip (selectedServer_ok hsel).1
    obtain ⟨x, x', hx, hx', halike⟩ := h.judgedAddress hn hsel hsel' hw
    have hdest : ∃ dest, (if b.ciaddr = inaddrAny then Dhcp.replyDest b t env.now else .ok b.ciaddr) =
          Except.ok dest ∧
        (if b'.ciaddr = inaddrAny then Dhcp.replyDest b' t env.now else .ok b'.ciaddr) =
          Except.ok dest := by
      rw [← h.ciaddr]
      split
      · rename_i hc
        obtain ⟨r, hr, hr'⟩ := ((hw hc).mono fun _ _ ↦ trivial).requestedIp h hn t env.now
        exact h.replyDest hr hr'
      · exact ⟨_, rfl, rfl⟩
    obtain ⟨dest, hdest, hdest'⟩ := hdest
    simp only
    rw [hdest, hdest', ok_bind, ok_bind, hx, hx', ok_bind, ok_bind]
    have hy := yourIpAddress_judged t env hsel hx
    have hy' := yourIpAddress_judged t env hsel' hx'
    have hboth : verdict b t env.now x = verdict b' t env.now x' ∧
        granted t env b.ciaddr b.chaddr x = granted t env b'.ciaddr b'.chaddr x' := by
      rw [verdict, verdict, ← h.chaddr, ← h.ciaddr]
      rcases halike with rfl | ⟨hno, hno'⟩
      · exact ⟨rfl, rfl⟩
      · have hbad {z : UInt32} (hz : ¬OwnAddress z) : ¬0 < checkIpaddr t env.now z b.chaddr :=
          fun hp ↦ hz (.inl (checkIpaddr_pos.mp hp).1)
        rw [granted, granted, if_neg (hbad hno), if_neg (hbad hno'), if_neg (hbad hno),
          if_neg (hbad hno')]
        exact ⟨rfl, rfl⟩
    obtain ⟨hverdict, hgranted⟩ := hboth
    rw [← hverdict] at hy' ⊢
    refine ⟨h.answer ho (hy.trans (hgranted.trans hy'.symm)) dest, answer_tame ?_ dest o⟩
    rw [hy]
    exact granted_tame ht b.ciaddr b.chaddr x

theorem Front.onRelease (h : Front n b b') (hn : n ≤ dhcpMaxOptionLen) (ht : t.Valid)
    (hid : WordReceived (fun len ↦ len = 4) b.options n optionDhcpServerIdentifier) :
    onRelease b t = onRelease b' t ∧ Tame (onRelease b t) := by
  obtain ⟨selected, hsel, hsel'⟩ := hid.selectedServer h hn
  rw [Dhcp.onRelease, Dhcp.onRelease, hsel, hsel', ok_bind, ok_bind, h.ciaddr, h.chaddr]
  refine ⟨rfl, ?_⟩
  cases selected with
  | none => exact tame_ok _
  | some identifier => exact (deleteLease_tame ht _ _).bind fun _ ↦ tame_ok _

theorem Front.onInform (h : Front n b b') (hn : n ≤ dhcpMaxOptionLen) (ho : o < n) (ht : t.Valid)
    (hw : b.ciaddr = inaddrAny →
      ∃ q, TagScan.search b.options n optionRequestedIp 0 = .found q ∧ q + 6 ≤ n) :
    onInform b t env o = onInform b' t env o ∧ Tame (onInform b t env o) := by
  have hy : yourIpAddress b t env dhcpack = yourIpAddress b' t env dhcpack ∧
      Tame (yourIpAddress b t env dhcpack) := by
    by_cases hc : b.ciaddr = inaddrAny
    · obtain ⟨q, hs, hq⟩ := hw hc
      have hword {c : DhcpT} (hs : TagScan.search c.options n optionRequestedIp 0 = .found q) :
          requestedOption c = some (ByteMemory.loadWord c.options (q + 2)) :=
        requestedOption_of_deref (getDhcpOption_of_found hn hs (by omega)) (if_pos (by omega))
      rw [yourIpAddress_selected_eq t env hc (hword hs),
        yourIpAddress_selected_eq t env (h.ciaddr ▸ hc) (hword (h.search.symm.trans hs)), h.chaddr,
        h.loadWord hq]
      exact ⟨rfl, (addLease_tame ht _ _ _).bind fun _ ↦ tame_ok _⟩
    · rw [yourIpAddress_known_eq t env hc, yourIpAddress_known_eq t env (h.ciaddr ▸ hc), h.chaddr]
      exact ⟨rfl, (allocateIp_tame t env _ _).bind fun _ ↦ tame_ok _⟩
  rw [Dhcp.onInform, Dhcp.onInform, ← h.ciaddr]
  exact ⟨h.answer ho hy.1 b.ciaddr, answer_tame hy.2 b.ciaddr o⟩

end Handlers

end InternetApplications.Dhcp
