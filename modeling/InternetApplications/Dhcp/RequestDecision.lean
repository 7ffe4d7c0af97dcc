import InternetApplications.Dhcp.LeaseSafety
import InternetApplications.Dhcp.OptionScan
import InternetApplications.Dhcp.ServerAnswer

namespace InternetApplications.Dhcp

open ByteMemory TagScan Executions LeaseTable

section Judging

variable {s s' u : Server} {env : Env} {out : Option Sent} {identifier o : ℕ} {x : UInt32}

/-- A request is judged by the address it asks for, or, when it names none, by that of the server. -/
theorem judgedAddress_cases {b : DhcpT} (hsel : selectedServer b = .ok (some identifier))
    (h : judgedAddress b identifier = .ok x) :
    requestedAddress b = some x ∨ (requestedAddress b = none ∧ x = dhcpServerIpAddress) := by
  rw [judgedAddress] at h
  rw [requestedAddress]
  split at h
  · rename_i hc
    obtain ⟨⟨len, value⟩, hg, h⟩ := bind_eq_ok.mp h
    rw [if_pos hc]
    cases value with
    | none =>
      right
      refine ⟨?_, ?_⟩
      · rw [requestedOption, hg]
      · exact (Except.ok.inj ((selectedServer_ok hsel).2.symm.trans h)).symm
    | some o => exact .inl (requestedOption_of_deref hg h)
  · rename_i hc
    cases h
    rw [if_neg hc]
    exact .inl rfl

def Acceptable (t : LeaseTable) (now : ℕ) (b : DhcpT) : Prop :=
  ∃ x, requestedAddress b = some x ∧ 0 < checkIpaddr t now x b.chaddr

theorem judged_acceptable {b : DhcpT} (t : LeaseTable) (now : ℕ)
    (hsel : selectedServer b = .ok (some identifier)) (h : judgedAddress b identifier = .ok x) :
    0 < checkIpaddr t now x b.chaddr ↔ Acceptable t now b := by
  rcases judgedAddress_cases hsel h with hx | ⟨hnone, rfl⟩
  · constructor
    · intro hp
      exact ⟨x, hx, hp⟩
    · rintro ⟨y, hy, hp⟩
      cases hx.symm.trans hy
      exact hp
  · constructor
    · intro hp
      exact absurd (checkIpaddr_pos.mp hp).1 not_inPool_server
    · rintro ⟨y, hy, -⟩
      cases hnone.symm.trans hy

end Judging

section Decided

variable {s s' : Server} {i : Input} {out : Option Sent}

inductive Requested (s : Server) (i : Input) : LeaseTable → Option Sent → Prop
  | elsewhere :
      optionWord (s.received i) optionDhcpServerIdentifier ≠ some dhcpServerIpAddress →
      Requested s i s.table none
  | refused {m : Sent} :
      optionWord (s.received i) optionDhcpServerIdentifier = some dhcpServerIpAddress →
      ¬Acceptable s.table i.env.now (s.received i) →
      Answers (s.received i) m dhcpnak inaddrAny → Requested s i s.table (some m)
  | selected {m : Sent} {x : UInt32} {t : LeaseTable} :
      optionWord (s.received i) optionDhcpServerIdentifier = some dhcpServerIpAddress →
      Acceptable s.table i.env.now (s.received i) →
      (s.received i).ciaddr = inaddrAny → requestedOption (s.received i) = some x →
      addLease s.table i.env.now x (s.received i).chaddr = .ok t →
      Answers (s.received i) m dhcpack x → Requested s i t (some m)
  | renewed {m : Sent} {y : UInt32} {r : ℤ} {t : LeaseTable} :
      optionWord (s.received i) optionDhcpServerIdentifier = some dhcpServerIpAddress →
      Acceptable s.table i.env.now (s.received i) →
      (s.received i).ciaddr ≠ inaddrAny →
      allocateIp s.table i.env i.env.stale (s.received i).chaddr = .ok (r, y, t) →
      Answers (s.received i) m dhcpack y → Requested s i t (some m)

theorem mainLoop_requested (htype : receivedType (s.received i) = .ok (some dhcprequest))
    (h : mainLoop s i = .ok (s', out)) : Requested s i s'.table out := by
  obtain ⟨o, ho, -⟩ := receivedType_ok htype
  rw [mainLoop_request htype] at h
  have hselected : ∃ selected, selectedServer (s.received i) = .ok selected := by
    obtain ⟨selected, hsel, -⟩ := bind_eq_ok.mp h
    exact ⟨selected, hsel⟩
  obtain ⟨selected, hsel⟩ := hselected
  cases selected with
  | none =>
    obtain ⟨selected, hsel', h⟩ := bind_eq_ok.mp h
    cases hsel.symm.trans hsel'
    cases h
    exact .elsewhere (selectedServer_none hsel)
  | some identifier =>
    have hself := (selectedServer_ok hsel).1
    obtain ⟨u, x, hrecv, htable, hx, h⟩ := dhcpHandleRequest_ok (s := s.ready i) hsel h
    have hru : u.dhcpRecv = s.received i := hrecv
    have htu : u.table = s.table := htable
    obtain ⟨m, rfl, hm⟩ := answerRequest_ok (by rw [hru]; exact ho) h
    rw [hru, htu, judged_acceptable _ _ hsel hx] at hm
    rcases hm with ⟨hp, ht, ha⟩ | ⟨hp, ⟨hc, y, hreq, hadd, ha⟩ | ⟨hc, r, y, halloc, ha⟩⟩
    · rw [ht]
      exact .refused hself hp ha
    · exact .selected hself hp hc hreq hadd ha
    · exact .renewed hself hp hc halloc ha

end Decided

section Total

variable {s s' u : Server} {i : Input} {env : Env} {t : LeaseTable} {b : DhcpT} {tag : UInt8}
  {state : UInt8} {identifier o : ℕ} {x : UInt32} {e : Fault}

theorem ReportsInside.word {value : Option ℕ} (h : ReportsInside b tag)
    (hg : getDhcpOption b tag = .ok (4, value)) : ∃ o w, value = some o ∧ derefWord b value = .ok w := by
  obtain ⟨len, value', hg', hinside⟩ := h
  cases hg.symm.trans hg'
  cases value with
  | none => exact absurd (getDhcpOption_absent hg) (by decide)
  | some o =>
    have hle : o + 4 ≤ dhcpMaxOptionLen := hinside o rfl
    refine ⟨o, loadWord b.options o, rfl, ?_⟩
    rw [derefWord, if_pos hle]

theorem ReportsInside.checkedWord {α : Type} (h : ReportsInside b tag)
    (f : Option ℕ → UInt32 → Option α) : ∃ r, checkedWord b tag f = .ok r := by
  obtain ⟨len, value, hg, -⟩ := id h
  by_cases hlen : len = 4
  · subst hlen
    obtain ⟨o, w, rfl, hw⟩ := h.word hg
    exact ⟨_, checkedWord_of_word hg hw⟩
  · exact ⟨none, checkedWord_of_ne hg hlen⟩

theorem ReportsInside.selectedServer (h : ReportsInside b optionDhcpServerIdentifier) :
    ∃ selected, selectedServer b = .ok selected := by
  rw [selectedServer_eq]
  exact h.checkedWord _

theorem ReportsInside.requestedIp (h : ReportsInside b optionRequestedIp) (t : LeaseTable)
    (now : ℕ) : ∃ requested, requestedIp b t now = .ok requested := by
  rw [requestedIp_eq]
  exact h.checkedWord _

theorem ReportsInside.answering (h : ReportsInside s.dhcpRecv optionRequestedIp) (env : Env) :
    ∃ u, s.answering env = .ok u := by
  rw [Server.answering]
  split
  · rw [Server.unicastSetup]
    split
    · obtain ⟨requested, hr⟩ := h.requestedIp s.table env.now
      rw [Server.changeSocketSetup_dhcpRecv, Server.changeSocketSetup_table, hr, ok_bind]
      cases requested with
      | none => exact ⟨_, rfl⟩
      | some x => exact ⟨_, rfl⟩
    · exact ⟨_, rfl⟩
  · exact ⟨_, rfl⟩

theorem ReportsInside.judgedAddress (h : ReportsInside b optionRequestedIp)
    (hlen : ∀ len value, getDhcpOption b optionRequestedIp = .ok (len, value) →
      value = none ∨ len = 4) (hsel : Dhcp.selectedServer b = .ok (some identifier)) :
    ∃ x, judgedAddress b identifier = .ok x := by
  rw [Dhcp.judgedAddress]
  split
  · obtain ⟨len, value, hg, -⟩ := id h
    rw [hg, ok_bind]
    rcases hlen len value hg with rfl | rfl
    · exact ⟨_, (selectedServer_ok hsel).2⟩
    · obtain ⟨o, w, rfl, hw⟩ := h.word hg
      exact ⟨w, hw⟩
  · exact ⟨_, rfl⟩

theorem addLease_error {now : ℕ} {m : Mac} (ht : t.Valid) (h : addLease t now x m = .error e) :
    e = .overflow ∧ t.numOfLease + 1 = 2 ^ 31 := by
  rw [addLease] at h
  split at h
  · cases h
  · rw [intValue] at h
    have hc := ht.counted
    have hs := ht.small
    split at h
    · cases h
    · rename_i hrange
      cases h
      exact ⟨rfl, by omega⟩

theorem probe_error {leases : List LeaseT} {draws : List ℕ} (h : probe leases draws = .error e) :
    e = .noReturn := by
  induction draws with
  | nil =>
    cases h
    rfl
  | cons d draws ih =>
    simp only [probe] at h
    split at h
    · exact ih h
    · cases h

theorem allocateIp_error {stale : UInt32} {m : Mac} (h : allocateIp t env stale m = .error e) :
    e = .noReturn ∧ probe t.leases env.draws = .error .noReturn := by
  rw [allocateIp] at h
  split at h
  · cases h
  · split at h
    · cases h
    · cases hp : probe t.leases env.draws with
      | error e' =>
        rw [hp, error_bind] at h
        cases h
        cases probe_error hp
        exact ⟨rfl, rfl⟩
      | ok x =>
        rw [hp] at h
        cases h

/-- Only the choice of `yiaddr` can keep the answer to a request from being built. -/
theorem answerRequest_error (ho : getDhcpOption s.dhcpRecv optionDhcpMessageType = .ok (1, some o))
    (hlt : o < dhcpMaxOptionLen) (ht : s.table.Valid) (h : s.answerRequest env x = .error e)
    (hx : 0 < checkIpaddr s.table env.now x s.dhcpRecv.chaddr →
      s.dhcpRecv.ciaddr = inaddrAny → requestedOption s.dhcpRecv = some x) :
    0 < checkIpaddr s.table env.now x s.dhcpRecv.chaddr ∧
    ((e = .noReturn ∧ probe s.table.leases env.draws = .error .noReturn) ∨
      (e = .overflow ∧ s.table.numOfLease + 1 = 2 ^ 31)) := by
  have hreturns {state : UInt8} {y : UInt32} {t : LeaseTable}
      (hstate : (if 0 < checkIpaddr s.table env.now x s.dhcpRecv.chaddr then dhcpack else dhcpnak) =
        state) (hy : yourIpAddress s.dhcpRecv s.table env state = .ok (some y, t)) : False := by
    obtain ⟨s', size, hc, -⟩ := constructDhcpPacket_returns ho hlt hy
    rw [Server.answerRequest, hstate, hc] at h
    cases h
  by_cases hp : 0 < checkIpaddr s.table env.now x s.dhcpRecv.chaddr
  · refine ⟨hp, ?_⟩
    have hconstruct {e' : Fault} (hy : yourIpAddress s.dhcpRecv s.table env dhcpack = .error e') :
        e = e' := by
      rw [Server.answerRequest, if_pos hp, constructDhcpPacket_error hy] at h
      cases h
      rfl
    by_cases hcia : s.dhcpRecv.ciaddr = inaddrAny
    · have hy := yourIpAddress_selected_eq s.table env hcia (hx hp hcia)
      cases hadd : addLease s.table env.now x s.dhcpRecv.chaddr with
      | error e' =>
        rw [hadd, error_bind] at hy
        cases hconstruct hy
        exact .inr (addLease_error ht hadd)
      | ok t =>
        rw [hadd, ok_bind] at hy
        exact (hreturns (if_pos hp) hy).elim
    · have hy := yourIpAddress_known_eq s.table env hcia
      cases halloc : allocateIp s.table env env.stale s.dhcpRecv.chaddr with
      | error e' =>
        rw [halloc, error_bind] at hy
        cases hconstruct hy
        exact .inl (allocateIp_error halloc)
      | ok p =>
        rw [halloc, ok_bind] at hy
        exact (hreturns (if_pos hp) hy).elim
  · exact (hreturns (if_neg hp) rfl).elim

theorem receivedType_inside {type : UInt8} (h : receivedType b = .ok (some type))
    (ho : getDhcpOption b optionDhcpMessageType = .ok (1, some o)) : o < dhcpMaxOptionLen := by
  rw [receivedType] at h
  split at h
  · rw [findOption_eq, ho, ok_bind] at h
    simp only [if_true] at h
    obtain ⟨x, hx, -⟩ := bind_eq_ok.mp h
    rw [readByte_eq, derefByte] at hx
    split at hx
    · assumption
    · cases hx
  · cases h

end Total

section Decision

variable {b : DhcpT} {t : LeaseTable} {now : ℕ} {x : UInt32} {m : Mac}

def askedAddress (b : DhcpT) : Option UInt32 :=
  if b.ciaddr = inaddrAny then optionWord b optionRequestedIp else some b.ciaddr

/-- An address from the pool is asked for, and no lease at all gives it to another client. -/
def Grantable (t : LeaseTable) (now : ℕ) (b : DhcpT) : Prop :=
  ∃ x, askedAddress b = some x ∧ InPool x ∧
    ¬∃ lease ∈ t.leases, lease.addr = x ∧ lease.chaddr ≠ b.chaddr ∧ lease.Live now

theorem askedAddress_eq (hlen : ∀ len value, getDhcpOption b optionRequestedIp = .ok (len, value) →
    value = none ∨ len = 4) : askedAddress b = requestedAddress b := by
  rw [askedAddress, requestedAddress]
  split
  · rw [optionWord, requestedOption]
    cases hg : getDhcpOption b optionRequestedIp with
    | error e => rfl
    | ok p =>
      obtain ⟨len, value⟩ := p
      cases value with
      | none =>
        have hzero : len ≠ 4 := by
          rw [getDhcpOption_absent hg]
          decide
        exact if_neg hzero
      | some o =>
        have hfour : len = 4 := (hlen len _ hg).resolve_left (by simp)
        exact if_pos hfour
  · rfl

/-- The walk to the first lease of the address says what all leases of it say. -/
theorem checkIpaddr_unheld (ht : t.Valid) : 0 < checkIpaddr t now x m ↔
    InPool x ∧ ¬∃ lease ∈ t.leases, lease.addr = x ∧ lease.chaddr ≠ m ∧ lease.Live now := by
  rw [checkIpaddr_pos]
  apply and_congr_right
  intro _
  constructor
  · rintro hall ⟨lease, hl, rfl, hm, hlive⟩
    exact hm (hall lease (lookup_mem ht hl) hlive)
  · intro hno lease hl hlive
    by_contra hm
    obtain ⟨hmem, hx⟩ := lookup_some hl
    exact hno ⟨lease, hmem, hx, hm, hlive⟩

theorem acceptable_iff (ht : t.Valid) (now : ℕ)
    (hlen : ∀ len value, getDhcpOption b optionRequestedIp = .ok (len, value) →
      value = none ∨ len = 4) : Acceptable t now b ↔ Grantable t now b := by
  rw [Acceptable, Grantable, askedAddress_eq hlen]
  simp only [checkIpaddr_unheld ht]

/-- What a request does to the table and how it is answered, as a table of decisions. -/
structure Decided (s : Server) (i : Input) (t : LeaseTable) (out : Option Sent) : Prop where
  answered : out.isSome ↔
    optionWord (s.received i) optionDhcpServerIdentifier = some dhcpServerIpAddress
  granted : ∀ m, out = some m → (m.IsAck ↔ Grantable s.table i.env.now (s.received i))
  refused : ∀ m, out = some m → ¬Grantable s.table i.env.now (s.received i) →
    m.messageType = some dhcpnak ∧ m.packet.yiaddr = inaddrAny
  unchanged : (out = none ∨ ∃ m, out = some m ∧ m.messageType = some dhcpnak) → t = s.table

theorem Requested.decided {s : Server} {i : Input} {t : LeaseTable} {out : Option Sent}
    (ht : s.table.Valid)
    (hlen : ∀ len value, getDhcpOption (s.received i) optionRequestedIp = .ok (len, value) →
      value = none ∨ len = 4) (h : Requested s i t out) : Decided s i t out := by
  have hiff := acceptable_iff ht i.env.now hlen
  have hgranted {m : Sent} {y : UInt32} {u : LeaseTable}
      (hself : optionWord (s.received i) optionDhcpServerIdentifier = some dhcpServerIpAddress)
      (hp : Acceptable s.table i.env.now (s.received i))
      (ha : Answers (s.received i) m dhcpack y) : Decided s i u (some m) := by
    constructor
    · simp [hself]
    · rintro m ⟨⟩
      exact ⟨fun _ ↦ hiff.mp hp, fun _ ↦ ha.messageType⟩
    · rintro m ⟨⟩ hno
      exact absurd (hiff.mp hp) hno
    · rintro (hnone | ⟨m, ⟨⟩, hnak⟩)
      · cases hnone
      · rw [ha.messageType] at hnak
        exact absurd hnak (by decide)
  cases h with
  | elsewhere hother =>
    constructor
    · simp [hother]
    · intro m hm
      cases hm
    · intro m hm
      cases hm
    · intro _
      rfl
  | refused hself hp ha =>
    constructor
    · simp [hself]
    · rintro m ⟨⟩
      constructor
      · intro hack
        rw [Sent.IsAck, ha.messageType] at hack
        exact absurd hack (by decide)
      · intro hgrant
        exact absurd (hiff.mpr hgrant) hp
    · rintro m ⟨⟩ _
      exact ⟨ha.messageType, ha.yiaddr⟩
    · intro _
      rfl
  | selected hself hp _ _ _ ha => exact hgranted hself hp ha
  | renewed hself hp _ _ ha => exact hgranted hself hp ha

/-- A request is decided exactly: where the pass has no defined result, a grantable request
finds the counter at its end, or the random draws all hit taken addresses. -/
theorem request_decided {s : Server} {i : Input} (h : ServerReachable s)
    (htype : receivedType (s.received i) = .ok (some dhcprequest))
    (hid : ScansInside (s.received i) optionDhcpServerIdentifier)
    (hip : ScansInside (s.received i) optionRequestedIp)
    (hlen : ∀ len value, getDhcpOption (s.received i) optionRequestedIp = .ok (len, value) →
      value = none ∨ len = 4) :
    match mainLoop s i with
    | .ok (s', out) => Decided s i s'.table out
    | .error e =>
      optionWord (s.received i) optionDhcpServerIdentifier = some dhcpServerIpAddress ∧
      Grantable s.table i.env.now (s.received i) ∧
      ((e = .noReturn ∧ probe s.table.leases i.env.draws = .error .noReturn) ∨
        (e = .overflow ∧ s.table.numOfLease + 1 = 2 ^ 31)) := by
  split
  · rename_i s' out hstep
    exact (mainLoop_requested htype hstep).decided h.valid hlen
  · rename_i e herror
    obtain ⟨o, ho, -⟩ := receivedType_ok htype
    have hlt := receivedType_inside htype ho
    obtain ⟨selected, hsel⟩ := hid.reports.selectedServer
    rw [mainLoop_request htype] at herror
    cases selected with
    | none =>
      rw [dhcpHandleRequest_unselected (s := s.ready i) hsel] at herror
      cases herror
    | some identifier =>
      obtain ⟨u, hu⟩ := ReportsInside.answering (s := s.ready i) hip.reports i.env
      obtain ⟨x, hx⟩ := hip.reports.judgedAddress hlen hsel
      obtain ⟨hrecv, htable⟩ := answering_ok hu
      have hru : u.dhcpRecv = s.received i := hrecv
      have htu : u.table = s.table := htable
      rw [dhcpHandleRequest_eq (s := s.ready i) hsel, hu, ok_bind,
        show judgedAddress (s.ready i).dhcpRecv identifier = .ok x from hx, ok_bind] at herror
      have hacc := judged_acceptable s.table i.env.now hsel hx
      rw [← hru] at ho
      obtain ⟨hp, hcause⟩ := answerRequest_error ho hlt (by rw [htu]; exact h.valid) herror (by
        rw [hru, htu]
        intro hp hc
        obtain ⟨y, hy, -⟩ := hacc.mp hp
        rcases judgedAddress_cases hsel hx with hx' | ⟨hnone, -⟩
        · rwa [requestedAddress, if_pos hc] at hx'
        · cases hnone.symm.trans hy)
      rw [hru, htu, hacc, acceptable_iff h.valid _ hlen] at hp
      rw [htu] at hcause
      exact ⟨(selectedServer_ok hsel).1, hp, hcause⟩

theorem request_decided_first : ∃ (s' : Server) (out : Option Sent),
    mainLoop dhcpSetup ⟨⟨7, [], 0⟩, selectingRequest clientA 0 0xC0A80009⟩ = .ok (s', out) ∧
      Decided dhcpSetup ⟨⟨7, [], 0⟩, selectingRequest clientA 0 0xC0A80009⟩ s'.table out := by
  obtain ⟨⟨s', out⟩, hstep, -⟩ := exists_ok
    (mainLoop dhcpSetup ⟨⟨7, [], 0⟩, selectingRequest clientA 0 0xC0A80009⟩) (fun _ ↦ true)
    (by decide +kernel)
  have hid : getDhcpOption (dhcpSetup.received ⟨⟨7, [], 0⟩, selectingRequest clientA 0 0xC0A80009⟩)
      optionDhcpServerIdentifier = .ok (4, some 5) := by decide +kernel
  have hip : getDhcpOption (dhcpSetup.received ⟨⟨7, [], 0⟩, selectingRequest clientA 0 0xC0A80009⟩)
      optionRequestedIp = .ok (4, some 11) := by decide +kernel
  have h := request_decided .refl (by decide +kernel)
    (ReportsInside.scans ⟨4, some 5, hid, by rintro o ⟨⟩; decide⟩)
    (ReportsInside.scans ⟨4, some 11, hip, by rintro o ⟨⟩; decide⟩)
    (fun len value hg ↦ by cases hip.symm.trans hg; exact .inr rfl)
  rw [hstep] at h
  exact ⟨s', out, hstep, h⟩

end Decision

end InternetApplications.Dhcp
