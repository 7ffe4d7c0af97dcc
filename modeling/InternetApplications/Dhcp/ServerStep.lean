import InternetApplications.Dhcp.LeaseTable
import InternetApplications.Dhcp.Reply

namespace InternetApplications.Dhcp

open ByteMemory TagScan Executions LeaseTable

def requestedOption (b : DhcpT) : Option UInt32 :=
  match getDhcpOption b optionRequestedIp with
  | .ok (_, some o) => (derefWord b (some o)).toOption
  | _ => none

/-- Whether a reply carries lease times: the server looks at the place where
the request's message type stood, once part of the reply is written. -/
def leasedAt (b : DhcpT) (state : UInt8) (yiaddr : UInt32) (o : ℕ) : Bool :=
  (packed (replyHeader b yiaddr) (identityFields state ++ networkFields)).1.options o ≠ dhcpinform

def Answers (b : DhcpT) (m : Sent) (state : UInt8) (yiaddr : UInt32) : Prop :=
  ∃ o, getDhcpOption b optionDhcpMessageType = .ok (1, some o) ∧
    IsReply b m state yiaddr (leasedAt b state yiaddr o)

def Server.received (s : Server) (i : Input) : DhcpT := s.dhcpRecv.recvfrom i.datagram

def Server.ready (s : Server) (i : Input) : Server :=
  { s.changeSocketSetup inaddrAny inaddrBroadcast with dhcpRecv := s.received i }

/-- The type calls for no answer and no change: the server does not serve it,
or it is meant for another server. -/
def Ignored (b : DhcpT) (type : UInt8) : Prop :=
  type ≠ dhcpdiscover ∧ type ≠ dhcpinform ∧ (type = dhcprequest ∨ type = dhcprelease →
    optionWord b optionDhcpServerIdentifier ≠ some dhcpServerIpAddress)

/-- Everything one pass of the main loop can do to the lease table, and answer. -/
inductive Handled (s : Server) (i : Input) : LeaseTable → Option Sent → Prop
  | silent :
      (∀ type, receivedType (s.received i) = .ok (some type) → Ignored (s.received i) type) →
      Handled s i s.table none
  | offerRequested {y : UInt32} {m : Sent} :
      receivedType (s.received i) = .ok (some dhcpdiscover) →
      0 < checkIpaddr s.table i.env.now y (s.received i).chaddr →
      Answers (s.received i) m dhcpoffer y → Handled s i s.table (some m)
  | offerAllocated {y : UInt32} {m : Sent} {r : ℤ} {t : LeaseTable} :
      receivedType (s.received i) = .ok (some dhcpdiscover) →
      allocateIp s.table i.env i.env.stale (s.received i).chaddr = .ok (r, y, t) → ¬r < 0 →
      Answers (s.received i) m dhcpoffer y → Handled s i t (some m)
  | offerNone {y : UInt32} {m : Sent} {r : ℤ} {t : LeaseTable} :
      receivedType (s.received i) = .ok (some dhcpdiscover) →
      allocateIp s.table i.env i.env.stale (s.received i).chaddr = .ok (r, y, t) → r < 0 →
      m.payload = [] → Handled s i t (some m)
  | ackSelected {x : UInt32} {m : Sent} {t : LeaseTable} :
      receivedType (s.received i) = .ok (some dhcprequest) →
      (s.received i).ciaddr = inaddrAny → requestedOption (s.received i) = some x →
      0 < checkIpaddr s.table i.env.now x (s.received i).chaddr →
      addLease s.table i.env.now x (s.received i).chaddr = .ok t →
      Answers (s.received i) m dhcpack x → Handled s i t (some m)
  | ackRenewed {y : UInt32} {m : Sent} {r : ℤ} {t : LeaseTable} :
      receivedType (s.received i) = .ok (some dhcprequest) →
      (s.received i).ciaddr ≠ inaddrAny →
      0 < checkIpaddr s.table i.env.now (s.received i).ciaddr (s.received i).chaddr →
      allocateIp s.table i.env i.env.stale (s.received i).chaddr = .ok (r, y, t) →
      Answers (s.received i) m dhcpack y → Handled s i t (some m)
  | nak {x : UInt32} {m : Sent} :
      receivedType (s.received i) = .ok (some dhcprequest) →
      ¬0 < checkIpaddr s.table i.env.now x (s.received i).chaddr →
      Answers (s.received i) m dhcpnak inaddrAny → Handled s i s.table (some m)
  | released {t : LeaseTable} :
      receivedType (s.received i) = .ok (some dhcprelease) →
      optionWord (s.received i) optionDhcpServerIdentifier = some dhcpServerIpAddress →
      deleteLease s.table (s.received i).ciaddr (s.received i).chaddr = .ok t →
      Handled s i t none
  | informSelected {x : UInt32} {m : Sent} {t : LeaseTable} :
      receivedType (s.received i) = .ok (some dhcpinform) →
      (s.received i).ciaddr = inaddrAny → requestedOption (s.received i) = some x →
      addLease s.table i.env.now x (s.received i).chaddr = .ok t →
      Answers (s.received i) m dhcpack x → Handled s i t (some m)
  | informKnown {y : UInt32} {m : Sent} {r : ℤ} {t : LeaseTable} :
      receivedType (s.received i) = .ok (some dhcpinform) →
      (s.received i).ciaddr ≠ inaddrAny →
      allocateIp s.table i.env i.env.stale (s.received i).chaddr = .ok (r, y, t) →
      Answers (s.received i) m dhcpack y → Handled s i t (some m)

def checkedWord {α : Type} (b : DhcpT) (tag : UInt8) (f : Option ℕ → UInt32 → Option α) :
    Except Fault (Option α) :=
  getDhcpOption b tag >>= fun p ↦
    if p.1 = 4 then derefWord b p.2 >>= fun w ↦ .ok (f p.2 w) else .ok none

section Checked

variable {α : Type} {b : DhcpT} {tag len : UInt8} {f : Option ℕ → UInt32 → Option α} {o : ℕ}
  {value : Option ℕ} {w : UInt32} {a : α}

theorem checkedWord_of_word (hg : getDhcpOption b tag = .ok (4, some o))
    (hw : derefWord b (some o) = .ok w) : checkedWord b tag f = .ok (f (some o) w) := by
  rw [checkedWord, hg, ok_bind, if_pos rfl, hw, ok_bind]

theorem checkedWord_of_ne (hg : getDhcpOption b tag = .ok (len, value)) (hlen : len ≠ 4) :
    checkedWord b tag f = .ok none := by
  rw [checkedWord, hg, ok_bind, if_neg hlen]

theorem checkedWord_some (h : checkedWord b tag f = .ok (some a)) :
    ∃ o w, getDhcpOption b tag = .ok (4, some o) ∧ derefWord b (some o) = .ok w ∧
      f (some o) w = some a := by
  obtain ⟨⟨len, value⟩, hg, h⟩ := bind_eq_ok.mp h
  simp only at h
  split at h
  · rename_i hlen
    subst hlen
    obtain ⟨w, hw, h⟩ := bind_eq_ok.mp h
    cases value with
    | none => cases hw
    | some o => exact ⟨o, w, hg, hw, Except.ok.inj h⟩
  · cases h

theorem requestedIp_eq (b : DhcpT) (t : LeaseTable) (now : ℕ) : requestedIp b t now =
    checkedWord b optionRequestedIp fun _ ip ↦
      if 0 < checkIpaddr t now ip b.chaddr then some ip else none := rfl

theorem selectedServer_eq (b : DhcpT) : selectedServer b =
    checkedWord b optionDhcpServerIdentifier fun value selected ↦
      if selected = dhcpServerIpAddress then value else none := rfl

end Checked

section Reading

variable {b : DhcpT} {o : ℕ} {x : UInt32} {type : UInt8}

theorem receivedType_ok (h : receivedType b = .ok (some type)) :
    ∃ o, getDhcpOption b optionDhcpMessageType = .ok (1, some o) ∧ b.options o = type := by
  rw [receivedType] at h
  split at h
  · obtain ⟨⟨len, value⟩, hg, h⟩ := bind_eq_ok.mp h
    simp only at h
    split at h
    · rename_i hlen
      subst hlen
      obtain ⟨x, hx, h⟩ := bind_eq_ok.mp h
      cases h
      cases value with
      | none => exact absurd (getDhcpOption_absent hg) (by decide)
      | some o =>
        refine ⟨o, hg, ?_⟩
        rw [readByte_eq, derefByte] at hx
        split at hx
        · exact Except.ok.inj hx
        · cases hx
    · cases h
  · cases h

theorem selectedServer_ok (h : selectedServer b = .ok (some o)) :
    optionWord b optionDhcpServerIdentifier = some dhcpServerIpAddress ∧
      derefWord b (some o) = .ok dhcpServerIpAddress := by
  rw [selectedServer_eq] at h
  obtain ⟨o', w, hg, hw, hself⟩ := checkedWord_some h
  split at hself
  · rename_i hw'
    cases hself
    subst hw'
    exact ⟨optionWord_iff.mpr ⟨o, hg, hw⟩, hw⟩
  · cases hself

theorem selectedServer_self
    (h : optionWord b optionDhcpServerIdentifier = some dhcpServerIpAddress) :
    ∃ o, selectedServer b = .ok (some o) := by
  obtain ⟨o, hg, hw⟩ := optionWord_iff.mp h
  refine ⟨o, ?_⟩
  rw [selectedServer_eq, checkedWord_of_word hg hw, if_pos rfl]

theorem selectedServer_none (h : selectedServer b = .ok none) :
    optionWord b optionDhcpServerIdentifier ≠ some dhcpServerIpAddress := by
  intro hself
  obtain ⟨o, ho⟩ := selectedServer_self hself
  cases h.symm.trans ho

theorem requestedIp_of_ne {len : UInt8} {value : Option ℕ}
    (hg : getDhcpOption b optionRequestedIp = .ok (len, value)) (hlen : len ≠ 4) (t : LeaseTable)
    (now : ℕ) : requestedIp b t now = .ok none := by
  rw [requestedIp_eq, checkedWord_of_ne hg hlen]

theorem requestedIp_some {t : LeaseTable} {now : ℕ}
    (h : requestedIp b t now = .ok (some x)) : 0 < checkIpaddr t now x b.chaddr := by
  rw [requestedIp_eq] at h
  obtain ⟨o, ip, -, -, hip⟩ := checkedWord_some h
  split at hip
  · rename_i hp
    cases hip
    exact hp
  · cases hip

theorem requestedOption_of_deref {len : UInt8} {value : Option ℕ}
    (hg : getDhcpOption b optionRequestedIp = .ok (len, value))
    (hx : derefWord b value = .ok x) : requestedOption b = some x := by
  cases value with
  | none => cases hx
  | some o =>
    simp only [requestedOption, hg, hx]
    rfl

theorem requestedOption_some (h : requestedOption b = some x) :
    ∃ len o, getDhcpOption b optionRequestedIp = .ok (len, some o) ∧
      derefWord b (some o) = .ok x := by
  rw [requestedOption] at h
  split at h
  · rename_i len o hg
    cases hx : derefWord b (some o) with
    | error e =>
      rw [hx] at h
      cases h
    | ok y =>
      rw [hx] at h
      cases h
      exact ⟨len, o, hg, hx⟩
  · cases h

end Reading

section Construct

variable {s s' : Server} {env : Env} {state : UInt8} {size o : ℕ}

/-- The reply is written over the request, around the choice of `yiaddr`. -/
theorem constructDhcpPacket_ok
    (ho : getDhcpOption s.dhcpRecv optionDhcpMessageType = .ok (1, some o))
    (h : constructDhcpPacket s env state = .ok (s', size)) :
    s'.dhcpClientAddr = s.dhcpClientAddr ∧
    ∃ yiaddr, yourIpAddress s.dhcpRecv s.table env state = .ok (yiaddr, s'.table) ∧
      match yiaddr with
      | none => size = 0
      | some y => IsReply s.dhcpRecv (s'.sendto size) state y (leasedAt s.dhcpRecv state y o) := by
  obtain ⟨⟨yiaddr, t⟩, hy, h⟩ := bind_eq_ok.mp h
  rw [yourIpAddress_opcode] at hy
  cases yiaddr with
  | none =>
    cases h
    exact ⟨rfl, none, hy, rfl⟩
  | some y =>
    obtain ⟨⟨len, msgType⟩, hg, h⟩ := bind_eq_ok.mp h
    have hg' := (replyHeader_lookup s.dhcpRecv y optionDhcpMessageType).symm.trans hg
    rw [ho] at hg'
    cases hg'
    obtain ⟨⟨dhcp, len⟩, hf, h⟩ := bind_eq_ok.mp h
    cases h
    refine ⟨rfl, some y, hy, ?_⟩
    have hp : (dhcp, len) =
        packed (replyHeader s.dhcpRecv y) (replyFields state (leasedAt s.dhcpRecv state y o)) := by
      by_cases hs : state = dhcpnak
      · subst hs
        exact Except.ok.inj (hf.symm.trans (fillOptions_nak _ _ _))
      · obtain ⟨type, htype, hf⟩ := bind_eq_ok.mp ((fillOptions_eq hs _).symm.trans hf)
        rw [derefByte] at htype
        split at htype
        · rw [← Except.ok.inj hf, ← Except.ok.inj htype]
          rfl
        · cases htype
    cases hp
    rfl

end Construct

section Choice

variable {b : DhcpT} {t t' : LeaseTable} {env : Env} {yiaddr : Option UInt32}

theorem yourIpAddress_nak (h : yourIpAddress b t env dhcpnak = .ok (yiaddr, t')) :
    yiaddr = some inaddrAny ∧ t' = t := by
  cases h
  exact ⟨rfl, rfl⟩

def offered (t : LeaseTable) (env : Env) (m : Mac) :
    Option UInt32 → Except Fault (Option UInt32 × LeaseTable)
  | some y => .ok (some y, t)
  | none => allocateIp t env env.stale m >>= fun p ↦
      .ok (if p.1 < 0 then none else some p.2.1, p.2.2)

theorem yourIpAddress_offer_eq :
    yourIpAddress b t env dhcpoffer = requestedIp b t env.now >>= offered t env b.chaddr := by
  rw [yourIpAddress, if_neg (by decide), if_pos rfl]
  refine congrArg (Bind.bind _) (funext fun r ↦ ?_)
  cases r with
  | some y => rfl
  | none =>
    refine congrArg (Bind.bind _) (funext fun p ↦ ?_)
    simp only
    split <;> rfl

theorem yourIpAddress_ack_eq (hc : b.ciaddr = inaddrAny) :
    yourIpAddress b t env dhcpack = getDhcpOption b optionRequestedIp >>= fun p ↦
      derefWord b p.2 >>= fun ip ↦ addLease t env.now ip b.chaddr >>= fun t' ↦ .ok (some ip, t') := by
  rw [yourIpAddress, if_neg (by decide), if_neg (by decide), if_pos ⟨rfl, hc⟩]
  rfl

theorem yourIpAddress_selected_eq {x : UInt32} (t : LeaseTable) (env : Env)
    (hc : b.ciaddr = inaddrAny) (hx : requestedOption b = some x) :
    yourIpAddress b t env dhcpack =
      addLease t env.now x b.chaddr >>= fun t' ↦ .ok (some x, t') := by
  obtain ⟨len, o, hg, hw⟩ := requestedOption_some hx
  rw [yourIpAddress_ack_eq hc, hg, ok_bind, hw, ok_bind]

theorem yourIpAddress_known_eq (t : LeaseTable) (env : Env) (hc : b.ciaddr ≠ inaddrAny) :
    yourIpAddress b t env dhcpack =
      allocateIp t env env.stale b.chaddr >>= fun p ↦ .ok (some p.2.1, p.2.2) := by
  rw [yourIpAddress, if_neg (by decide), if_neg (by decide), if_neg (fun h ↦ hc h.2)]
  rfl

theorem yourIpAddress_offer (h : yourIpAddress b t env dhcpoffer = .ok (yiaddr, t')) :
    (∃ y, yiaddr = some y ∧ t' = t ∧ requestedIp b t env.now = .ok (some y)) ∨
    requestedIp b t env.now = .ok none ∧
      ∃ r y, allocateIp t env env.stale b.chaddr = .ok (r, y, t') ∧
        (r < 0 ∧ yiaddr = none ∨ ¬r < 0 ∧ yiaddr = some y) := by
  rw [yourIpAddress_offer_eq] at h
  obtain ⟨requested, hr, h⟩ := bind_eq_ok.mp h
  cases requested with
  | some y =>
    cases h
    exact .inl ⟨y, rfl, rfl, hr⟩
  | none =>
    obtain ⟨⟨r, y, u⟩, ha, h⟩ := bind_eq_ok.mp h
    cases h
    by_cases hlt : r < 0
    · exact .inr ⟨hr, r, y, ha, .inl ⟨hlt, if_pos hlt⟩⟩
    · exact .inr ⟨hr, r, y, ha, .inr ⟨hlt, if_neg hlt⟩⟩

theorem yourIpAddress_selected (hc : b.ciaddr = inaddrAny)
    (h : yourIpAddress b t env dhcpack = .ok (yiaddr, t')) :
    ∃ x, yiaddr = some x ∧ requestedOption b = some x ∧
      addLease t env.now x b.chaddr = .ok t' := by
  rw [yourIpAddress_ack_eq hc] at h
  obtain ⟨⟨len, value⟩, hg, h⟩ := bind_eq_ok.mp h
  obtain ⟨x, hx, h⟩ := bind_eq_ok.mp h
  obtain ⟨u, ha, h⟩ := bind_eq_ok.mp h
  cases h
  exact ⟨x, rfl, requestedOption_of_deref hg hx, ha⟩

theorem yourIpAddress_known (hc : b.ciaddr ≠ inaddrAny)
    (h : yourIpAddress b t env dhcpack = .ok (yiaddr, t')) :
    ∃ r y, yiaddr = some y ∧ allocateIp t env env.stale b.chaddr = .ok (r, y, t') := by
  rw [yourIpAddress_known_eq t env hc] at h
  obtain ⟨⟨r, y, u⟩, ha, h⟩ := bind_eq_ok.mp h
  cases h
  exact ⟨r, y, rfl, ha⟩

end Choice

section Handlers

variable {s s' : Server} {env : Env} {out : Option Sent} {o : ℕ} {x : UInt32}

theorem unicastSetup_ok (h : s.unicastSetup env = .ok s') :
    s'.dhcpRecv = s.dhcpRecv ∧ s'.table = s.table := by
  rw [Server.unicastSetup] at h
  split at h
  · obtain ⟨requested, -, h⟩ := bind_eq_ok.mp h
    cases requested <;> cases h <;> exact ⟨rfl, rfl⟩
  · cases h
    exact ⟨rfl, rfl⟩

theorem dhcpHandleDiscover_ok
    (ho : getDhcpOption s.dhcpRecv optionDhcpMessageType = .ok (1, some o))
    (h : s.dhcpHandleDiscover env = .ok (s', out)) :
    ∃ m, out = some m ∧
      ((∃ y, requestedIp s.dhcpRecv s.table env.now = .ok (some y) ∧ s'.table = s.table ∧
        Answers s.dhcpRecv m dhcpoffer y) ∨
      requestedIp s.dhcpRecv s.table env.now = .ok none ∧
        ∃ r y, allocateIp s.table env env.stale s.dhcpRecv.chaddr = .ok (r, y, s'.table) ∧
          (r < 0 ∧ m.payload = [] ∨ ¬r < 0 ∧ Answers s.dhcpRecv m dhcpoffer y)) := by
  obtain ⟨u, hu, h⟩ := bind_eq_ok.mp h
  obtain ⟨hrecv, htable⟩ := unicastSetup_ok hu
  obtain ⟨⟨v, size⟩, hc, h⟩ := bind_eq_ok.mp h
  cases h
  have hru : u.dhcpRecv = s.dhcpRecv := hrecv
  have htu : u.table = s.table := htable
  rw [← hru] at ho ⊢
  rw [← htu]
  obtain ⟨-, yiaddr, hy, hreply⟩ := constructDhcpPacket_ok ho hc
  refine ⟨_, rfl, ?_⟩
  rcases yourIpAddress_offer hy with
    ⟨y, rfl, ht, hreq⟩ | ⟨hreq, r, y, ha, ⟨hr, rfl⟩ | ⟨hr, rfl⟩⟩
  · exact .inl ⟨y, hreq, ht, o, ho, hreply⟩
  · refine .inr ⟨hreq, r, y, ha, .inl ⟨hr, ?_⟩⟩
    rw [show size = 0 from hreply]
    rfl
  · exact .inr ⟨hreq, r, y, ha, .inr ⟨hr, o, ho, hreply⟩⟩

theorem answerRequest_ok
    (ho : getDhcpOption s.dhcpRecv optionDhcpMessageType = .ok (1, some o))
    (h : s.answerRequest env x = .ok (s', out)) :
    ∃ m, out = some m ∧
      ((¬0 < checkIpaddr s.table env.now x s.dhcpRecv.chaddr ∧ s'.table = s.table ∧
        Answers s.dhcpRecv m dhcpnak inaddrAny) ∨
      0 < checkIpaddr s.table env.now x s.dhcpRecv.chaddr ∧
      ((s.dhcpRecv.ciaddr = inaddrAny ∧ ∃ y, requestedOption s.dhcpRecv = some y ∧
        addLease s.table env.now y s.dhcpRecv.chaddr = .ok s'.table ∧
        Answers s.dhcpRecv m dhcpack y) ∨
      (s.dhcpRecv.ciaddr ≠ inaddrAny ∧ ∃ r y,
        allocateIp s.table env env.stale s.dhcpRecv.chaddr = .ok (r, y, s'.table) ∧
        Answers s.dhcpRecv m dhcpack y))) := by
  obtain ⟨⟨v, size⟩, hc, h⟩ := bind_eq_ok.mp h
  cases h
  obtain ⟨-, yiaddr, hy, hreply⟩ := constructDhcpPacket_ok ho hc
  refine ⟨_, rfl, ?_⟩
  by_cases hp : 0 < checkIpaddr s.table env.now x s.dhcpRecv.chaddr
  · simp only [if_pos hp] at hy hreply
    refine .inr ⟨hp, ?_⟩
    by_cases hcia : s.dhcpRecv.ciaddr = inaddrAny
    · obtain ⟨y, rfl, hreq, hadd⟩ := yourIpAddress_selected hcia hy
      exact .inl ⟨hcia, y, hreq, hadd, o, ho, hreply⟩
    · obtain ⟨r, y, rfl, ha⟩ := yourIpAddress_known hcia hy
      exact .inr ⟨hcia, r, y, ha, o, ho, hreply⟩
  · simp only [if_neg hp] at hy hreply
    obtain ⟨rfl, ht⟩ := yourIpAddress_nak hy
    exact .inl ⟨hp, ht, o, ho, hreply⟩

end Handlers

section Judging

variable {s s' u : Server} {env : Env} {out : Option Sent} {identifier : ℕ}

def judgedAddress (b : DhcpT) (identifier : ℕ) : Except Fault UInt32 :=
  if b.ciaddr = inaddrAny then
    getDhcpOption b optionRequestedIp >>= fun p ↦ derefWord b (some (p.2.getD identifier))
  else .ok b.ciaddr

def Server.answering (s : Server) (env : Env) : Except Fault Server :=
  if s.dhcpRecv.ciaddr = inaddrAny then
    (s.changeSocketSetup inaddrAny inaddrBroadcast).unicastSetup env
  else .ok (s.changeSocketSetup dhcpServerIpAddress s.dhcpRecv.ciaddr)

theorem answering_ok (h : s.answering env = .ok u) :
    u.dhcpRecv = s.dhcpRecv ∧ u.table = s.table := by
  rw [Server.answering] at h
  split at h
  · obtain ⟨hrecv, htable⟩ := unicastSetup_ok h
    exact ⟨hrecv, htable⟩
  · cases h
    exact ⟨rfl, rfl⟩

theorem dhcpHandleRequest_unselected (hsel : selectedServer s.dhcpRecv = .ok none) :
    s.dhcpHandleRequest env = .ok (s, none) := by
  rw [Server.dhcpHandleRequest, hsel, ok_bind]
  rfl

/-- A request meant for this server is judged by one address and answered. -/
theorem dhcpHandleRequest_eq (hsel : selectedServer s.dhcpRecv = .ok (some identifier)) :
    s.dhcpHandleRequest env = s.answering env >>= fun u ↦
      judgedAddress s.dhcpRecv identifier >>= fun x ↦ u.answerRequest env x := by
  rw [Server.dhcpHandleRequest, hsel, ok_bind, Server.answering, judgedAddress]
  simp only
  by_cases hc : s.dhcpRecv.ciaddr = inaddrAny
  · rw [if_pos hc, if_pos hc, if_pos hc]
    cases hu : (s.changeSocketSetup inaddrAny inaddrBroadcast).unicastSetup env with
    | error e => rw [error_bind, error_bind]
    | ok u =>
      have hrecv : u.dhcpRecv = s.dhcpRecv := (unicastSetup_ok hu).1
      rw [ok_bind, ok_bind, hrecv, findOption_eq]
      cases getDhcpOption s.dhcpRecv optionRequestedIp with
      | error e => rw [error_bind, error_bind, error_bind]
      | ok p => rw [ok_bind, ok_bind, readWord_eq]
  · rw [if_neg hc, if_neg hc, if_neg hc]
    rw [ok_bind, ok_bind, Server.changeSocketSetup_dhcpRecv]

theorem dhcpHandleRequest_ok (hsel : selectedServer s.dhcpRecv = .ok (some identifier))
    (h : s.dhcpHandleRequest env = .ok (s', out)) :
    ∃ (u : Server) (x : UInt32), u.dhcpRecv = s.dhcpRecv ∧ u.table = s.table ∧
      judgedAddress s.dhcpRecv identifier = .ok x ∧ u.answerRequest env x = .ok (s', out) := by
  rw [dhcpHandleRequest_eq hsel] at h
  obtain ⟨u, hu, h⟩ := bind_eq_ok.mp h
  obtain ⟨x, hx, h⟩ := bind_eq_ok.mp h
  obtain ⟨hrecv, htable⟩ := answering_ok hu
  exact ⟨u, x, hrecv, htable, hx, h⟩

end Judging

theorem not_inPool_server : ¬InPool dhcpServerIpAddress := by decide

section Served

variable {s s' : Server} {i : Input} {out : Option Sent}

theorem handled_discover (hreceived : receivedType (s.received i) = .ok (some dhcpdiscover))
    (h : (s.ready i).dhcpHandleDiscover i.env = .ok (s', out)) : Handled s i s'.table out := by
  obtain ⟨o, ho, -⟩ := receivedType_ok hreceived
  obtain ⟨m, rfl, ⟨y, hreq, ht, ha⟩ | ⟨-, r, y, halloc, ⟨hr, he⟩ | ⟨hr, ha⟩⟩⟩ :=
    dhcpHandleDiscover_ok (s := s.ready i) ho h
  · rw [ht]
    exact .offerRequested hreceived (requestedIp_some hreq) ha
  · exact .offerNone hreceived halloc hr he
  · exact .offerAllocated hreceived halloc hr ha

theorem handled_unselected {type : UInt8}
    (hreceived : receivedType (s.received i) = .ok (some type))
    (hd : type ≠ dhcpdiscover) (hi : type ≠ dhcpinform)
    (hsel : selectedServer (s.received i) = .ok none) : Handled s i s.table none := by
  refine .silent fun type' hsome ↦ ?_
  cases hreceived.symm.trans hsome
  exact ⟨hd, hi, fun _ ↦ selectedServer_none hsel⟩

/-- A selecting request that is granted is judged by its option 50: without one the identifier
of the server would be judged, and that is not in the pool. -/
theorem judged_requested {identifier : ℕ} {x y : UInt32} {now : ℕ} {mac : Mac}
    (hsel : selectedServer (s.received i) = .ok (some identifier))
    (hx : judgedAddress (s.received i) identifier = .ok x)
    (hcia : (s.received i).ciaddr = inaddrAny) (hp : 0 < checkIpaddr s.table now x mac)
    (hreq : requestedOption (s.received i) = some y) : x = y := by
  rw [judgedAddress, if_pos hcia] at hx
  obtain ⟨⟨len, value⟩, hg, hx⟩ := bind_eq_ok.mp hx
  cases value with
  | none =>
    have hself := (selectedServer_ok hsel).2
    cases hx.symm.trans hself
    exact absurd (checkIpaddr_pos.mp hp).1 not_inPool_server
  | some value =>
    have hxy := requestedOption_of_deref hg hx
    exact Option.some.inj (hxy.symm.trans hreq)

theorem handled_request (hreceived : receivedType (s.received i) = .ok (some dhcprequest))
    (h : (s.ready i).dhcpHandleRequest i.env = .ok (s', out)) : Handled s i s'.table out := by
  obtain ⟨o, ho, -⟩ := receivedType_ok hreceived
  obtain ⟨selected, hsel, -⟩ := bind_eq_ok.mp h
  cases selected with
  | none =>
    cases (dhcpHandleRequest_unselected hsel).symm.trans h
    exact handled_unselected hreceived (by decide) (by decide) hsel
  | some identifier =>
    obtain ⟨u, x, hrecv, htable, hx, h⟩ := dhcpHandleRequest_ok hsel h
    have hru : u.dhcpRecv = s.received i := hrecv
    have htu : u.table = s.table := htable
    obtain ⟨m, rfl, hm⟩ := answerRequest_ok (by rw [hru]; exact ho) h
    rw [hru, htu] at hm
    rcases hm with ⟨hp, ht, ha⟩ | ⟨hp, ⟨hcia, y, hreq, hadd, ha⟩ | ⟨hcia, r, y, halloc, ha⟩⟩
    · rw [ht]
      exact .nak hreceived hp ha
    · cases judged_requested hsel hx hcia hp hreq
      exact .ackSelected hreceived hcia hreq hp hadd ha
    · have hciaddr : judgedAddress (s.received i) identifier = .ok (s.received i).ciaddr :=
        if_neg hcia
      cases hciaddr.symm.trans hx
      exact .ackRenewed hreceived hcia hp halloc ha

theorem handled_release (hreceived : receivedType (s.received i) = .ok (some dhcprelease))
    (h : (s.ready i).dhcpHandleRelease = .ok (s', out)) : Handled s i s'.table out := by
  obtain ⟨selected, hsel, h⟩ := bind_eq_ok.mp h
  cases selected with
  | none =>
    cases h
    exact handled_unselected hreceived (by decide) (by decide) hsel
  | some identifier =>
    obtain ⟨t, ht, h⟩ := bind_eq_ok.mp h
    cases h
    exact .released hreceived (selectedServer_ok hsel).1 ht

theorem handled_inform (hreceived : receivedType (s.received i) = .ok (some dhcpinform))
    (h : (s.ready i).dhcpHandleInform i.env = .ok (s', out)) : Handled s i s'.table out := by
  obtain ⟨o, ho, -⟩ := receivedType_ok hreceived
  obtain ⟨⟨v, size⟩, hc, h⟩ := bind_eq_ok.mp h
  cases h
  obtain ⟨-, yiaddr, hy, hreply⟩ := constructDhcpPacket_ok (o := o) ho hc
  by_cases hcia : (s.received i).ciaddr = inaddrAny
  · obtain ⟨x, rfl, hreq, hadd⟩ := yourIpAddress_selected hcia hy
    exact .informSelected hreceived hcia hreq hadd ⟨o, ho, hreply⟩
  · obtain ⟨r, y, rfl, halloc⟩ := yourIpAddress_known hcia hy
    exact .informKnown hreceived hcia halloc ⟨o, ho, hreply⟩

theorem mainLoop_handled (h : mainLoop s i = .ok (s', out)) : Handled s i s'.table out := by
  obtain ⟨type, htype, h⟩ := bind_eq_ok.mp h
  have hreceived : receivedType (s.received i) = .ok type := htype
  cases type with
  | none =>
    cases h
    exact .silent fun type hsome ↦ by cases hreceived.symm.trans hsome
  | some type =>
    simp only at h
    by_cases hdiscover : type = dhcpdiscover
    · subst hdiscover
      exact handled_discover hreceived h
    by_cases hrequest : type = dhcprequest
    · subst hrequest
      exact handled_request hreceived h
    by_cases hrelease : type = dhcprelease
    · subst hrelease
      exact handled_release hreceived h
    by_cases hinform : type = dhcpinform
    · subst hinform
      exact handled_inform hreceived h
    rw [if_neg hdiscover, if_neg hrequest, if_neg hrelease, if_neg hinform] at h
    cases h
    refine .silent fun type' hsome ↦ ?_
    cases hreceived.symm.trans hsome
    exact ⟨hdiscover, hinform, fun hr ↦ (hr.elim hrequest hrelease).elim⟩

end Served

end InternetApplications.Dhcp
