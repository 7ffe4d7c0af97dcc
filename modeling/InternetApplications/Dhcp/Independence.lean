import InternetApplications.Dhcp.Residue

namespace InternetApplications.Dhcp

open ByteMemory TagScan Executions LeaseTable

def TypeReceived (datagram : List UInt8) : Prop :=
  ∃ q, search (clean datagram).options (covered datagram) optionDhcpMessageType 0 = .found q ∧
    q + 3 ≤ covered datagram

/-- Every option that the handler of the datagram consults lies among its bytes: a discover has
option 50, a request and a release have option 54, and an inform or a request to this server
without a client address has option 50, or the walk for it meets a zero byte. -/
structure Determined (datagram : List UInt8) : Prop where
  discover : receivedType (clean datagram) = .ok (some dhcpdiscover) →
    WordReceived (fun len ↦ len = 4) (clean datagram).options (covered datagram) optionRequestedIp
  selected : receivedType (clean datagram) = .ok (some dhcprequest) ∨
      receivedType (clean datagram) = .ok (some dhcprelease) →
    WordReceived (fun len ↦ len = 4) (clean datagram).options (covered datagram)
      optionDhcpServerIdentifier
  judged : receivedType (clean datagram) = .ok (some dhcprequest) →
    optionWord (clean datagram) optionDhcpServerIdentifier = some dhcpServerIpAddress →
    (clean datagram).ciaddr = inaddrAny →
    WordReceived (fun _ ↦ True) (clean datagram).options (covered datagram) optionRequestedIp
  recorded : receivedType (clean datagram) = .ok (some dhcpinform) →
    (clean datagram).ciaddr = inaddrAny →
    ∃ q, search (clean datagram).options (covered datagram) optionRequestedIp 0 = .found q ∧
      q + 6 ≤ covered datagram

/-- Whatever was received before, passes with the same table, clock, draws and uninitialised `offer_ip`
do and send the same, and none of them leaves the buffer. -/
def Independent (datagram : List UInt8) : Prop :=
  ∀ s₁ s₂ : Server, ServerReachable s₁ → ServerReachable s₂ → s₁.table = s₂.table → ∀ env : Env,
    effect (mainLoop s₁ ⟨env, datagram⟩) = effect (mainLoop s₂ ⟨env, datagram⟩) ∧
      Tame (effect (mainLoop s₁ ⟨env, datagram⟩))

section Reading

variable {datagram : List UInt8} {b : DhcpT} {t : LeaseTable} {env : Env} {o : ℕ} {type len : UInt8}

theorem TypeReceived.reads (h : TypeReceived datagram) : ∃ len o type, o < covered datagram ∧
    ∀ b, Front (covered datagram) (clean datagram) b →
      getDhcpOption b optionDhcpMessageType = .ok (len, some o) ∧ receivedType b = .ok type := by
  obtain ⟨q, hs, hq⟩ := h
  have hn := covered_le datagram
  refine ⟨(clean datagram).options (q + 1), q + 2,
    if (clean datagram).opcode = bootpMessageTypeRequest then
      if (clean datagram).options (q + 1) = 1 then some ((clean datagram).options (q + 2)) else none
    else none, by omega, ?_⟩
  intro b hfront
  have hg : getDhcpOption b optionDhcpMessageType =
      .ok ((clean datagram).options (q + 1), some (q + 2)) := by
    rw [hfront.options (by omega)]
    exact getDhcpOption_of_found hn (hfront.search.symm.trans hs) (by omega)
  refine ⟨hg, ?_⟩
  rw [receivedType, ← hfront.opcode, findOption_eq, hg, ok_bind]
  simp only
  split
  · split
    · rw [readByte_eq, derefByte, if_pos (by omega), ok_bind, ← hfront.options (by omega)]
      rfl
    · rfl
  · rfl

/-- When the consulted options have been received, the reaction to the packet does not depend on
the leftovers. -/
theorem Determined.reaction (hd : Determined datagram) (hr : TypeReceived datagram) (ht : t.Valid)
    (env : Env)
    (h : Front (covered datagram) (clean datagram) b) :
    reaction (clean datagram) t env = reaction b t env ∧
      Tame (reaction (clean datagram) t env) := by
  have hn := covered_le datagram
  obtain ⟨len, o, type, ho, hreads⟩ := hr.reads
  obtain ⟨hg, htype⟩ := hreads (clean datagram) fun _ _ ↦ rfl
  obtain ⟨hg', htype'⟩ := hreads b h
  cases type with
  | none =>
    rw [reaction_of_none htype, reaction_of_none htype']
    exact ⟨rfl, tame_ok _⟩
  | some type =>
    rw [reaction_of_type htype hg, reaction_of_type htype' hg']
    split
    · rename_i hdiscover
      rw [hdiscover] at htype
      exact h.onDiscover hn ho (hd.discover htype)
    · split
      · rename_i hrequest
        rw [hrequest] at htype
        exact h.onRequest hn ho ht (hd.selected (.inl htype)) (hd.judged htype)
      · split
        · rename_i hrelease
          rw [hrelease] at htype
          exact h.onRelease hn ht (hd.selected (.inr htype))
        · split
          · rename_i hinform
            rw [hinform] at htype
            exact h.onInform hn ho ht (hd.recorded htype)
          · exact ⟨rfl, tame_ok _⟩

theorem Determined.independent (hd : Determined datagram) (hr : TypeReceived datagram)
    (hlen : dhcpFixedNonUdp ≤ datagram.length) : Independent datagram := by
  intro s₁ s₂ h₁ h₂ htable env
  have hfront (s : Server) : Front (covered datagram) (clean datagram) (s.received ⟨env, datagram⟩) :=
    recvfrom_front hlen DhcpT.zero s.dhcpRecv
  obtain ⟨heq₁, htame⟩ := hd.reaction hr h₁.valid env (hfront s₁)
  obtain ⟨heq₂, -⟩ := hd.reaction hr h₂.valid env (hfront s₂)
  rw [mainLoop_effect, mainLoop_effect, ← heq₁, ← heq₂, htable]
  rw [htable] at htame
  exact ⟨rfl, htame⟩

end Reading

section Needed

variable {datagram : List UInt8} {s : Server}

theorem not_tame_outOfBounds {α : Type} : ¬Tame (.error .outOfBounds : Except Fault α) := by
  intro h
  rcases h .outOfBounds rfl with he | he
  · cases he
  · cases he

theorem checkIpaddr_setup {now : ℕ} {w : UInt32} {m : Mac} :
    0 < checkIpaddr dhcpSetup.table now w m ↔ InPool w := by
  rw [checkIpaddr_pos]
  refine and_iff_left ?_
  intro lease hl
  cases hl

theorem Independent.over (hi : Independent datagram) (hlen : dhcpFixedNonUdp ≤ datagram.length)
    (h : ServerReachable s) (m m' : Memory) (env : Env) :
    ∃ b b', Over datagram m b ∧ Over datagram m' b' ∧
      reaction b s.table env = reaction b' s.table env ∧ Tame (reaction b s.table env) := by
  obtain ⟨s₁, h₁, htable₁, hover₁⟩ := exists_over hlen h m
  obtain ⟨s₂, h₂, htable₂, hover₂⟩ := exists_over hlen h m'
  obtain ⟨heq, htame⟩ := hi s₁ s₂ h₁ h₂ (htable₁.trans htable₂.symm) env
  rw [mainLoop_effect, mainLoop_effect, htable₁, htable₂] at heq
  rw [mainLoop_effect, htable₁] at htame
  exact ⟨_, _, hover₁ env, hover₂ env, heq, htame⟩

theorem TypeReceived.typed {type : UInt8} (hr : TypeReceived datagram)
    (htype : receivedType (clean datagram) = .ok (some type)) : ∃ len o, ∀ {m b},
      Over datagram m b → receivedType b = .ok (some type) ∧
        getDhcpOption b optionDhcpMessageType = .ok (len, some o) := by
  obtain ⟨len, o, type', -, hreads⟩ := hr.reads
  obtain ⟨-, hclean⟩ := hreads (clean datagram) fun _ _ ↦ rfl
  cases htype.symm.trans hclean
  exact ⟨len, o, fun hover ↦ (hreads _ hover.front).symm⟩

theorem Independent.discover (hi : Independent datagram) (hlen : dhcpFixedNonUdp ≤ datagram.length)
    (hr : TypeReceived datagram) (htype : receivedType (clean datagram) = .ok (some dhcpdiscover)) :
    WordReceived (fun len ↦ len = 4) (clean datagram).options (covered datagram)
      optionRequestedIp := by
  obtain ⟨len, o, htyped⟩ := hr.typed htype
  by_contra hno
  rcases overruns_or_finds hno (by decide) rfl with ⟨m, hm⟩ | hm
  · obtain ⟨b, -, hb, -, -, htame⟩ := hi.over hlen .refl m m ⟨0, [], 0⟩
    rw [reaction_discover (htyped hb).1 (htyped hb).2, (hm b hb).onDiscover] at htame
    exact not_tame_outOfBounds htame
  · -- one completion is offered, the other is not in the pool, and no draw is left
    obtain ⟨m, hm₁⟩ := hm 50
    obtain ⟨m', hm₂⟩ := hm 255
    obtain ⟨b, b', hb, hb', heq, -⟩ := hi.over hlen .refl m m' ⟨0, [], 0⟩
    obtain ⟨dest, hoffer⟩ := (hm₁ b hb).onDiscover dhcpSetup.table ⟨0, [], 0⟩ o
    obtain ⟨dest', hoffer'⟩ :=
      (hm₂ b' hb').onDiscover dhcpSetup.table ⟨0, [], 0⟩ o
    rw [if_pos (checkIpaddr_setup.mpr (by decide))] at hoffer
    rw [if_neg fun hp ↦ absurd (checkIpaddr_setup.mp hp) (by decide)] at hoffer'
    rw [reaction_discover (htyped hb).1 (htyped hb).2, hoffer,
      reaction_discover (htyped hb').1 (htyped hb').2, hoffer'] at heq
    cases heq

theorem Independent.selected (hi : Independent datagram) (hlen : dhcpFixedNonUdp ≤ datagram.length)
    (hr : TypeReceived datagram)
    (htype : receivedType (clean datagram) = .ok (some dhcprequest)) :
    WordReceived (fun len ↦ len = 4) (clean datagram).options (covered datagram)
      optionDhcpServerIdentifier := by
  obtain ⟨len, o, htyped⟩ := hr.typed htype
  by_contra hno
  rcases overruns_or_finds hno (by decide) rfl with ⟨m, hm⟩ | hm
  · obtain ⟨b, -, hb, -, -, htame⟩ := hi.over hlen .refl m m ⟨0, [], 0⟩
    rw [reaction_request (htyped hb).1 (htyped hb).2, onRequest, (hm b hb).selectedServer,
      error_bind] at htame
    exact not_tame_outOfBounds htame
  · obtain ⟨m, hm₁⟩ := hm 1
    obtain ⟨m', hm₂⟩ := hm 255
    obtain ⟨b, b', hb, hb', heq, -⟩ := hi.over hlen .refl m m' ⟨0, [], 0⟩
    obtain ⟨identifier, hsel⟩ := (hm₁ b hb).selectedServer
    obtain ⟨identifier', hsel'⟩ := (hm₂ b' hb').selectedServer
    rw [if_pos (by decide)] at hsel
    rw [if_neg (by decide)] at hsel'
    have hsilent : onRequest b' dhcpSetup.table ⟨0, [], 0⟩ o = .ok (dhcpSetup.table, none) := by
      rw [onRequest, hsel', ok_bind]
    rw [reaction_request (htyped hb).1 (htyped hb).2, reaction_request (htyped hb').1 (htyped hb').2,
      hsilent] at heq
    exact onRequest_answers hsel heq

theorem exists_lease (x : UInt32) (mac : Mac) :
    ∃ s, ServerReachable s ∧ s.table = ⟨[⟨0, x, mac⟩], 1⟩ := by
  obtain ⟨c, datagram, hyiaddr, -, -, hread⟩ :=
    exists_request dhcpSetup ⟨0, [], 0⟩ mac inaddrAny x dhcpinform
  obtain ⟨ho, -⟩ := hread.messageType
  have hadd : addLease dhcpSetup.table 0 x mac = .ok ⟨[⟨0, x, mac⟩], 1⟩ := rfl
  have hy : yourIpAddress (dhcpSetup.received ⟨⟨0, [], 0⟩, datagram⟩) dhcpSetup.table ⟨0, [], 0⟩
      dhcpack = .ok (some x, ⟨[⟨0, x, mac⟩], 1⟩) := by
    rw [yourIpAddress_selected_eq _ _ hread.ciaddr (hread.requestedOption rfl), hread.chaddr, hyiaddr]
    simp only
    rw [hadd, ok_bind]
  have hreaction : reaction (dhcpSetup.received ⟨⟨0, [], 0⟩, datagram⟩) dhcpSetup.table ⟨0, [], 0⟩ =
      .ok (⟨[⟨0, x, mac⟩], 1⟩, some ⟨(dhcpSetup.received ⟨⟨0, [], 0⟩, datagram⟩).ciaddr,
        replyBytes (dhcpSetup.received ⟨⟨0, [], 0⟩, datagram⟩) dhcpack 2 (some x)⟩) := by
    rw [reaction_inform hread.receivedType ho, onInform, answer, hy, ok_bind]
  obtain ⟨s, hstep, htable⟩ := mainLoop_of_reaction hreaction
  exact ⟨s, Reachable.refl.next hstep, htable⟩

theorem Independent.released (hi : Independent datagram) (hlen : dhcpFixedNonUdp ≤ datagram.length)
    (hr : TypeReceived datagram)
    (htype : receivedType (clean datagram) = .ok (some dhcprelease)) :
    WordReceived (fun len ↦ len = 4) (clean datagram).options (covered datagram)
      optionDhcpServerIdentifier := by
  obtain ⟨len, o, htyped⟩ := hr.typed htype
  by_contra hno
  rcases overruns_or_finds hno (by decide) rfl with ⟨m, hm⟩ | hm
  · obtain ⟨b, -, hb, -, -, htame⟩ := hi.over hlen .refl m m ⟨0, [], 0⟩
    rw [reaction_release (htyped hb).1 (htyped hb).2, onRelease, (hm b hb).selectedServer,
      error_bind] at htame
    exact not_tame_outOfBounds htame
  · -- the client holds what it may release
    obtain ⟨s, hs, htable⟩ := exists_lease (clean datagram).ciaddr (clean datagram).chaddr
    obtain ⟨m, hm₁⟩ := hm 1
    obtain ⟨m', hm₂⟩ := hm 255
    obtain ⟨b, b', hb, hb', heq, -⟩ := hi.over hlen hs m m' ⟨0, [], 0⟩
    obtain ⟨identifier, hsel⟩ := (hm₁ b hb).selectedServer
    obtain ⟨identifier', hsel'⟩ := (hm₂ b' hb').selectedServer
    rw [if_pos (by decide)] at hsel
    rw [if_neg (by decide)] at hsel'
    have hdelete (x : UInt32) (mac : Mac) :
        deleteLease ⟨[⟨0, x, mac⟩], 1⟩ x mac = .ok ⟨[], 0⟩ := by
      simp [deleteLease, intValue]
    rw [reaction_release (htyped hb).1 (htyped hb).2, reaction_release (htyped hb').1 (htyped hb').2,
      onRelease, onRelease, hsel, hsel', htable, ← hb.front.ciaddr, ← hb.front.chaddr, ok_bind,
      ok_bind] at heq
    simp only at heq
    rw [hdelete, ok_bind] at heq
    cases heq

theorem Independent.judged (hi : Independent datagram) (hlen : dhcpFixedNonUdp ≤ datagram.length)
    (hr : TypeReceived datagram) (htype : receivedType (clean datagram) = .ok (some dhcprequest))
    (hself : optionWord (clean datagram) optionDhcpServerIdentifier = some dhcpServerIpAddress)
    (hc : (clean datagram).ciaddr = inaddrAny) :
    WordReceived (fun _ ↦ True) (clean datagram).options (covered datagram) optionRequestedIp := by
  obtain ⟨len, o, htyped⟩ := hr.typed htype
  have hsel {m : Memory} {b : DhcpT} (hb : Over datagram m b) :
      ∃ identifier, selectedServer b = .ok (some identifier) := by
    obtain ⟨selected, hclean, hover⟩ :=
      (hi.selected hlen hr htype).selectedServer hb.front (covered_le datagram)
    cases selected with
    | none => exact absurd hself (selectedServer_none hclean)
    | some identifier => exact ⟨identifier, hover⟩
  by_contra hno
  rcases overruns_or_finds hno (by decide) trivial with ⟨m, hm⟩ | hm
  · obtain ⟨b, -, hb, -, -, htame⟩ := hi.over hlen .refl m m ⟨0, [], 0⟩
    obtain ⟨identifier, hsel⟩ := hsel hb
    rw [reaction_request (htyped hb).1 (htyped hb).2,
      (hm b hb).onRequest hsel (hb.front.ciaddr ▸ hc)] at htame
    exact not_tame_outOfBounds htame
  · -- one completion is granted and recorded, the other is refused
    obtain ⟨m, hm₁⟩ := hm 50
    obtain ⟨m', hm₂⟩ := hm 255
    obtain ⟨b, b', hb, hb', heq, -⟩ := hi.over hlen .refl m m' ⟨0, [], 0⟩
    obtain ⟨identifier, hselb⟩ := hsel hb
    obtain ⟨identifier', hselb'⟩ := hsel hb'
    have hcb : b.ciaddr = inaddrAny := hb.front.ciaddr ▸ hc
    have hcb' : b'.ciaddr = inaddrAny := hb'.front.ciaddr ▸ hc
    obtain ⟨dest, hack⟩ :=
      (hm₁ b hb).onRequest dhcpSetup.table ⟨0, [], 0⟩ o hselb hcb
    obtain ⟨dest', hnak⟩ :=
      (hm₂ b' hb').onRequest dhcpSetup.table ⟨0, [], 0⟩ o hselb' hcb'
    rw [granted, if_pos (checkIpaddr_setup.mpr (by decide)), if_pos hcb] at hack
    rw [granted, if_neg fun hp ↦ absurd (checkIpaddr_setup.mp hp) (by decide)] at hnak
    rw [reaction_request (htyped hb).1 (htyped hb).2, reaction_request (htyped hb').1 (htyped hb').2,
      hack, hnak] at heq
    cases heq

theorem Over.last {q : ℕ} {y : UInt8} {b : DhcpT}
    (h : Over datagram (write DhcpT.zero (q + 5) [y]) b) (hfit : q + 6 ≤ dhcpMaxOptionLen)
    (hout : covered datagram < q + 6) : b.options (q + 5) = y := by
  have hwritten : write DhcpT.zero (q + 5) [y] (q + 5 + 0) = y := write_at (by simp)
  rw [h.rest (q + 5) (by omega) (by omega)]
  exact hwritten

theorem Independent.recorded (hi : Independent datagram) (hlen : dhcpFixedNonUdp ≤ datagram.length)
    (hr : TypeReceived datagram) (htype : receivedType (clean datagram) = .ok (some dhcpinform))
    (hc : (clean datagram).ciaddr = inaddrAny) :
    ∃ q, search (clean datagram).options (covered datagram) optionRequestedIp 0 = .found q ∧
      q + 6 ≤ covered datagram := by
  obtain ⟨len, o, htyped⟩ := hr.typed htype
  have hn := covered_le datagram
  have hinform {m : Memory} {b : DhcpT} (hb : Over datagram m b) (t : LeaseTable) (env : Env) :
      reaction b t env = (getDhcpOption b optionRequestedIp >>= fun p ↦ derefWord b p.2 >>= fun ip ↦
        addLease t env.now ip b.chaddr >>= fun t' ↦ .ok (some ip, t')) >>= fun p ↦
          .ok (p.2, some ⟨b.ciaddr, replyBytes b dhcpack o p.1⟩) := by
    rw [reaction_inform (htyped hb).1 (htyped hb).2, onInform, answer,
      yourIpAddress_ack_eq (hb.front.ciaddr ▸ hc)]
  cases hs : search (clean datagram).options (covered datagram) optionRequestedIp 0 with
  | escaped =>
    obtain ⟨b, -, hb, -, -, htame⟩ := hi.over hlen .refl (fun _ ↦ 255) (fun _ ↦ 255) ⟨0, [], 0⟩
    have hescaped := search_filler (hb.front.search.symm.trans hs) hb.rest (by decide)
    rw [hinform hb, getDhcpOption, hescaped] at htame
    exact (not_tame_outOfBounds htame).elim
  | absent =>
    obtain ⟨b, -, hb, -, -, htame⟩ := hi.over hlen .refl (fun _ ↦ 0) (fun _ ↦ 0) ⟨0, [], 0⟩
    rw [hinform hb, getDhcpOption_of_absent hn (hb.front.search.symm.trans hs), ok_bind] at htame
    rcases htame .unsetPointer rfl with he | he
    · cases he
    · cases he
  | found q =>
    refine ⟨q, rfl, ?_⟩
    by_contra hout
    rw [Nat.not_le] at hout
    obtain ⟨b, b', hb, hb', heq, htame⟩ := hi.over hlen .refl (write DhcpT.zero (q + 5) [0])
      (write DhcpT.zero (q + 5) [1]) ⟨0, [], 0⟩
    rcases Nat.lt_or_ge dhcpMaxOptionLen (q + 6) with hlong | hfit
    · rw [hinform hb] at htame
      rcases Nat.lt_or_ge (q + 1) dhcpMaxOptionLen with hlt | hge
      · rw [getDhcpOption_of_found hn (hb.front.search.symm.trans hs) hlt, ok_bind, derefWord,
          if_neg (by omega)] at htame
        exact not_tame_outOfBounds htame
      · have hfound : search b.options dhcpMaxOptionLen optionRequestedIp 0 = .found q := by
          rw [search_extend hn (by rw [hb.front.search.symm.trans hs]; simp),
            hb.front.search.symm.trans hs]
        rw [getDhcpOption, hfound] at htame
        simp only at htame
        rw [if_neg (by omega)] at htame
        exact not_tame_outOfBounds htame
    · have hrecord {m : Memory} {b : DhcpT} (hb : Over datagram m b) : ∃ out,
          reaction b dhcpSetup.table ⟨0, [], 0⟩ =
            .ok (⟨[⟨0, loadWord b.options (q + 2), b.chaddr⟩], 1⟩, out) := by
        refine ⟨some ⟨b.ciaddr, replyBytes b dhcpack o (some (loadWord b.options (q + 2)))⟩, ?_⟩
        rw [hinform hb, getDhcpOption_of_found hn (hb.front.search.symm.trans hs) (by omega), ok_bind,
          derefWord, if_pos (by omega), ok_bind]
        rfl
      obtain ⟨out, hrec⟩ := hrecord hb
      obtain ⟨out', hrec'⟩ := hrecord hb'
      rw [hrec, hrec'] at heq
      have hwords : loadWord b.options (q + 2) = loadWord b'.options (q + 2) := by
        have hleases := congrArg (fun p : LeaseTable × Option Sent ↦ p.1.leases.map LeaseT.addr)
          (Except.ok.inj heq)
        exact (List.cons.inj hleases).1
      have hbytes := congrArg wordBytes hwords
      rw [loadWord, loadWord, wordBytes_wordOf, wordBytes_wordOf] at hbytes
      have hlast : b.options (q + 5) = b'.options (q + 5) := by
        simp only [List.cons.injEq, and_true] at hbytes
        exact hbytes.2.2.2
      rw [hb.last hfit hout, hb'.last hfit hout] at hlast
      exact absurd hlast (by decide)

/-- The reaction to a datagram with a whole header and a message type is the same over any history
exactly when every option its handler consults is among its bytes. -/
theorem reply_independent_iff (hlen : dhcpFixedNonUdp ≤ datagram.length)
    (hr : TypeReceived datagram) : Independent datagram ↔ Determined datagram := by
  constructor
  · intro hi
    refine ⟨hi.discover hlen hr, ?_, hi.judged hlen hr, hi.recorded hlen hr⟩
    rintro (htype | htype)
    · exact hi.selected hlen hr htype
    · exact hi.released hlen hr htype
  · intro hd
    exact hd.independent hr hlen

end Needed

structure Closes (datagram : List UInt8) (fields : List Field) : Prop where
  header : dhcpFixedNonUdp ≤ datagram.length
  options : (datagram.take sizeofDhcpT).drop dhcpFixedNonUdp = encode fields ++ [optionEnd]
  wellFormed : ∀ f ∈ fields, f.WellFormed ∧ f.tag ≠ optionEnd
  type : ∃ x, fields.find? (fun f ↦ f.tag = optionDhcpMessageType) = some ⟨optionDhcpMessageType, [x]⟩

namespace Closes

variable {datagram : List UInt8} {fields : List Field} {tag : UInt8}

theorem covered_eq (h : Closes datagram fields) : covered datagram = (encode fields).length + 1 := by
  rw [covered, ← List.length_drop, h.options, List.length_append, List.length_singleton]

theorem holds (h : Closes datagram fields) :
    Holds (clean datagram).options 0 (encode fields ++ [optionEnd]) := by
  rw [← h.options]
  intro i hi
  rw [List.length_drop] at hi
  rw [List.getElem_drop, Nat.zero_add]
  exact DhcpT.recvfrom_at (by omega)

theorem found (h : Closes datagram fields) {f : Field}
    (hf : fields.find? (fun f ↦ f.tag = tag) = some f) :
    ∃ q, search (clean datagram).options (covered datagram) tag 0 = .found q ∧
      (clean datagram).options (q + 1) = UInt8.ofNat f.value.length ∧
      q + 2 + f.value.length < covered datagram := by
  have hcovered := h.covered_eq
  obtain ⟨q, hs, hholds, hq⟩ :
      ∃ q, search (clean datagram).options (covered datagram) tag 0 = .found q ∧ _ :=
    search_first (fun g hg ↦ (h.wellFormed g hg).1) (holds_append.mp h.holds).1 (by omega) hf
  rw [Field.length_bytes] at hq
  exact ⟨q, hs, (Field.holds hholds).2.1, by omega⟩

theorem typeReceived (h : Closes datagram fields) : TypeReceived datagram := by
  obtain ⟨x, hf⟩ := h.type
  obtain ⟨q, hs, -, hq⟩ := h.found hf
  rw [List.length_singleton] at hq
  exact ⟨q, hs, by omega⟩

/-- In such a datagram the option is received exactly when it is one of the fields. -/
theorem wordReceived_iff (h : Closes datagram fields) (htag : tag ≠ optionEnd) :
    WordReceived (fun len ↦ len = 4) (clean datagram).options (covered datagram) tag ↔
      ∃ f ∈ fields, f.tag = tag := by
  constructor
  · intro hw
    by_contra hno
    have hcovered := h.covered_eq
    obtain ⟨hfields, hend⟩ := holds_append.mp h.holds
    have hbyte : (clean datagram).options (0 + (encode fields).length) = optionEnd :=
      (holds_cons.mp hend).1
    apply hw.1
    rw [search_fields (fun g hg ↦ (h.wellFormed g hg).1) hfields (by omega)
      (fun g hg hg' ↦ hno ⟨g, hg, hg'⟩), search_eq, if_neg (by omega), hbyte,
      if_neg (not_or.mpr ⟨htag.symm, by decide⟩), if_pos (by omega)]
  · rintro ⟨f, hf, ht⟩
    obtain ⟨g, hg⟩ := Option.isSome_iff_exists.mp
      (List.find?_isSome.mpr ⟨f, hf, by simpa using ht⟩ :
        (fields.find? fun f ↦ f.tag = tag).isSome)
    obtain ⟨q, hs, hlen, hq⟩ := h.found hg
    refine ⟨by simp [hs], fun q' hq' ↦ ?_⟩
    cases hs.symm.trans hq'
    refine ⟨by omega, fun hfour ↦ .inl ?_⟩
    have hvalue : g.value.length = 4 := by
      have hlt := (h.wellFormed g (List.mem_of_find?_eq_some hg)).1.2
      rw [hlen, ← UInt8.toNat_inj, UInt8.toNat_ofNat', Nat.mod_eq_of_lt hlt] at hfour
      exact hfour
    omega

end Closes

theorem reply_independent_iff_discover : Independent (discovering clientA 0xC0A80032) := by
  have hs : search (clean (discovering clientA 0xC0A80032)).options
      (covered (discovering clientA 0xC0A80032)) optionRequestedIp 0 = .found 3 := by decide +kernel
  have htype : receivedType (clean (discovering clientA 0xC0A80032)) = .ok (some dhcpdiscover) := by
    decide +kernel
  have hother {type : UInt8} (h : receivedType (clean (discovering clientA 0xC0A80032)) =
      .ok (some type)) : type = dhcpdiscover := by
    cases htype.symm.trans h
    rfl
  refine (reply_independent_iff (by decide +kernel) ⟨0, by decide +kernel, by decide +kernel⟩).mpr ?_
  constructor
  · intro _
    refine ⟨by simp [hs], fun q hq ↦ ?_⟩
    cases hs.symm.trans hq
    exact ⟨by decide +kernel, fun _ ↦ .inl (by decide +kernel)⟩
  · rintro (h | h)
    · exact absurd (hother h) (by decide)
    · exact absurd (hother h) (by decide)
  · intro h
    exact absurd (hother h) (by decide)
  · intro h
    exact absurd (hother h) (by decide)

def wishless : List UInt8 :=
  bootpRequest clientB inaddrAny [⟨optionDhcpMessageType, [dhcpdiscover]⟩] ++ [optionEnd]

/-- The address that another client gave back is offered, where the first discover of all gets a
random one. -/
theorem leftovers_choose_offer : ∃ (s₁ s₂ s₁' s₂' : Server) (env : Env) (m₁ m₂ : Sent),
    ServerReachable s₁ ∧ ServerReachable s₂ ∧ s₁.table = s₂.table ∧
    Closes wishless [⟨optionDhcpMessageType, [dhcpdiscover]⟩] ∧
    mainLoop s₁ ⟨env, wishless⟩ = .ok (s₁', some m₁) ∧
    mainLoop s₂ ⟨env, wishless⟩ = .ok (s₂', some m₂) ∧
    m₁.packet.yiaddr = 0xC0A80009 ∧ m₂.packet.yiaddr = 0xC0A80032 := by
  obtain ⟨trace, s₂, hrun, hs⟩ := exists_execution mainLoop dhcpSetup
    [⟨⟨0, [], 0⟩, bootpRequest clientA inaddrAny [⟨optionDhcpMessageType, [dhcprelease]⟩,
      ⟨optionDhcpServerIdentifier, wordBytes dhcpServerIpAddress⟩,
      ⟨optionRequestedIp, wordBytes 0xC0A80032⟩, endField]⟩]
    (fun _ s ↦ s.table = dhcpSetup.table ∧ (Except.toOption (mainLoop s ⟨⟨0, [7], 0⟩, wishless⟩)).any
      fun r ↦ r.2.any fun m ↦ m.packet.yiaddr = 0xC0A80032) (by decide +kernel)
  obtain ⟨htable, hany⟩ := of_decide_eq_true hs
  obtain ⟨⟨s₂', out₂⟩, hstep₂, hout₂⟩ := exists_ok _ _ hany
  obtain ⟨⟨s₁', out₁⟩, hstep₁, hout₁⟩ := exists_ok (mainLoop dhcpSetup ⟨⟨0, [7], 0⟩, wishless⟩)
    (fun r ↦ r.2.any fun m ↦ m.packet.yiaddr = 0xC0A80009) (by decide +kernel)
  obtain ⟨m₁, rfl, hm₁⟩ := (Option.any_eq_true _ _).mp hout₁
  obtain ⟨m₂, rfl, hm₂⟩ := (Option.any_eq_true _ _).mp hout₂
  refine ⟨dhcpSetup, s₂, s₁', s₂', ⟨0, [7], 0⟩, m₁, m₂, .refl, ⟨trace, hrun⟩, htable.symm, ?_, hstep₁,
    hstep₂, of_decide_eq_true hm₁, of_decide_eq_true hm₂⟩
  exact ⟨by decide +kernel, by decide +kernel, by decide +kernel, dhcpdiscover, by decide +kernel⟩

end InternetApplications.Dhcp
