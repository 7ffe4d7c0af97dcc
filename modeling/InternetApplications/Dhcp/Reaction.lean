import InternetApplications.Dhcp.Commitment
import InternetApplications.Dhcp.RequestDecision

namespace InternetApplications.Dhcp

open ByteMemory TagScan Executions

def effect (r : Except Fault (Server × Option Sent)) : Except Fault (LeaseTable × Option Sent) :=
  r.map fun p ↦ (p.1.table, p.2)

def replyBytes (b : DhcpT) (state : UInt8) (o : ℕ) : Option UInt32 → List UInt8
  | none => []
  | some y => read (replyPacket b state y (leasedAt b state y o)) 0
      (replySize state (leasedAt b state y o))

def replyDest (b : DhcpT) (t : LeaseTable) (now : ℕ) : Except Fault UInt32 :=
  if b.flags = bootpFlagsUnicast then
    requestedIp b t now >>= fun r ↦ .ok (if r.isSome then b.ciaddr else inaddrBroadcast)
  else .ok inaddrBroadcast

def answer (b : DhcpT) (t : LeaseTable) (env : Env) (state : UInt8) (dest : UInt32) (o : ℕ) :
    Except Fault (LeaseTable × Option Sent) :=
  yourIpAddress b t env state >>= fun p ↦ .ok (p.2, some ⟨dest, replyBytes b state o p.1⟩)

def verdict (b : DhcpT) (t : LeaseTable) (now : ℕ) (x : UInt32) : UInt8 :=
  if 0 < checkIpaddr t now x b.chaddr then dhcpack else dhcpnak

def onDiscover (b : DhcpT) (t : LeaseTable) (env : Env) (o : ℕ) :
    Except Fault (LeaseTable × Option Sent) :=
  replyDest b t env.now >>= fun dest ↦ answer b t env dhcpoffer dest o

def onRequest (b : DhcpT) (t : LeaseTable) (env : Env) (o : ℕ) :
    Except Fault (LeaseTable × Option Sent) :=
  selectedServer b >>= fun selected ↦
    match selected with
    | none => .ok (t, none)
    | some identifier =>
      (if b.ciaddr = inaddrAny then replyDest b t env.now else .ok b.ciaddr) >>= fun dest ↦
        judgedAddress b identifier >>= fun x ↦
          answer b t env (verdict b t env.now x) dest o

def onRelease (b : DhcpT) (t : LeaseTable) : Except Fault (LeaseTable × Option Sent) :=
  selectedServer b >>= fun selected ↦
    match selected with
    | none => .ok (t, none)
    | some _ => deleteLease t b.ciaddr b.chaddr >>= fun t' ↦ .ok (t', none)

def onInform (b : DhcpT) (t : LeaseTable) (env : Env) (o : ℕ) :
    Except Fault (LeaseTable × Option Sent) :=
  answer b t env dhcpack b.ciaddr o

def reaction (b : DhcpT) (t : LeaseTable) (env : Env) : Except Fault (LeaseTable × Option Sent) :=
  receivedType b >>= fun type ↦
    match type with
    | none => .ok (t, none)
    | some type =>
      getDhcpOption b optionDhcpMessageType >>= fun p ↦
        if type = dhcpdiscover then onDiscover b t env (p.2.getD 0)
        else if type = dhcprequest then onRequest b t env (p.2.getD 0)
        else if type = dhcprelease then onRelease b t
        else if type = dhcpinform then onInform b t env (p.2.getD 0)
        else .ok (t, none)

section Build

variable {s : Server} {env : Env} {state : UInt8} {o : ℕ}

theorem constructDhcpPacket_effect (env : Env) (state : UInt8)
    (ho : getDhcpOption s.dhcpRecv optionDhcpMessageType = .ok (1, some o))
    (hlt : o < dhcpMaxOptionLen) :
    effect (constructDhcpPacket s env state >>= fun p ↦ .ok (p.1, some (p.1.sendto p.2))) =
      answer s.dhcpRecv s.table env state s.dhcpClientAddr o := by
  cases hc : constructDhcpPacket s env state with
  | ok p =>
    obtain ⟨s', size⟩ := p
    obtain ⟨hdest, yiaddr, hy, hreply⟩ := constructDhcpPacket_ok ho hc
    rw [answer, hy, ok_bind, ok_bind]
    have hpayload : (s'.sendto size).payload = replyBytes s.dhcpRecv state o yiaddr := by
      cases yiaddr with
      | none =>
        rw [show size = 0 from hreply]
        rfl
      | some y => exact hreply
    have hsent : s'.sendto size = ⟨s.dhcpClientAddr, replyBytes s.dhcpRecv state o yiaddr⟩ := by
      rw [← hpayload, ← hdest]
      rfl
    rw [effect, hsent]
    rfl
  | error e =>
    cases hy : yourIpAddress s.dhcpRecv s.table env state with
    | error e' =>
      cases hc.symm.trans (constructDhcpPacket_error hy)
      rw [answer, hy]
      rfl
    | ok p =>
      obtain ⟨yiaddr, t⟩ := p
      cases yiaddr with
      | none =>
        obtain ⟨s', hok, -⟩ := constructDhcpPacket_none hy
        cases hc.symm.trans hok
      | some y =>
        obtain ⟨s', size, hok, -⟩ := constructDhcpPacket_returns ho hlt hy
        cases hc.symm.trans hok

theorem unicastSetup_dest (h : s.dhcpClientAddr = inaddrBroadcast) :
    (s.unicastSetup env).map Server.dhcpClientAddr = replyDest s.dhcpRecv s.table env.now := by
  rw [Server.unicastSetup, replyDest]
  split
  · cases requestedIp s.dhcpRecv s.table env.now with
    | error e => rfl
    | ok r =>
      cases r with
      | none => exact congrArg Except.ok h
      | some x => rfl
  · exact congrArg Except.ok h

theorem replyDest_eq {u : Server} (h : s.dhcpClientAddr = inaddrBroadcast)
    (hu : s.unicastSetup env = .ok u) :
    replyDest s.dhcpRecv s.table env.now = .ok u.dhcpClientAddr := by
  rw [← unicastSetup_dest h, hu]
  rfl

theorem replyDest_error {e : Fault} (h : s.dhcpClientAddr = inaddrBroadcast)
    (hu : s.unicastSetup env = .error e) :
    replyDest s.dhcpRecv s.table env.now = .error e := by
  rw [← unicastSetup_dest h, hu]
  rfl

end Build

section Handlers

variable {s : Server} {env : Env} {o : ℕ}

theorem dhcpHandleDiscover_effect
    (ho : getDhcpOption s.dhcpRecv optionDhcpMessageType = .ok (1, some o))
    (hlt : o < dhcpMaxOptionLen) :
    effect (s.dhcpHandleDiscover env) = onDiscover s.dhcpRecv s.table env o := by
  rw [Server.dhcpHandleDiscover, onDiscover]
  simp only
  have hbroadcast : (s.changeSocketSetup inaddrAny inaddrBroadcast).dhcpClientAddr =
    inaddrBroadcast := rfl
  cases hu : (s.changeSocketSetup inaddrAny inaddrBroadcast).unicastSetup env with
  | error e =>
    have hdest : replyDest s.dhcpRecv s.table env.now = .error e :=
      replyDest_error (s := s.changeSocketSetup inaddrAny inaddrBroadcast) hbroadcast hu
    rw [error_bind, hdest, error_bind]
    rfl
  | ok u =>
    have hdest : replyDest s.dhcpRecv s.table env.now = .ok u.dhcpClientAddr :=
      replyDest_eq (s := s.changeSocketSetup inaddrAny inaddrBroadcast) hbroadcast hu
    obtain ⟨hrecv, htable⟩ := unicastSetup_ok hu
    have hru : u.dhcpRecv = s.dhcpRecv := hrecv
    have htu : u.table = s.table := htable
    rw [ok_bind, hdest, ok_bind]
    rw [← hru] at ho
    have heffect := constructDhcpPacket_effect env dhcpoffer ho hlt
    rw [hru, htu] at heffect
    exact heffect

theorem answerRequest_effect {u : Server} (env : Env) (x : UInt32)
    (ho : getDhcpOption u.dhcpRecv optionDhcpMessageType = .ok (1, some o))
    (hlt : o < dhcpMaxOptionLen) :
    effect (u.answerRequest env x) =
      answer u.dhcpRecv u.table env (verdict u.dhcpRecv u.table env.now x) u.dhcpClientAddr o :=
  constructDhcpPacket_effect env _ ho hlt

theorem dhcpHandleRequest_effect
    (ho : getDhcpOption s.dhcpRecv optionDhcpMessageType = .ok (1, some o))
    (hlt : o < dhcpMaxOptionLen) :
    effect (s.dhcpHandleRequest env) = onRequest s.dhcpRecv s.table env o := by
  rw [onRequest]
  cases hsel : selectedServer s.dhcpRecv with
  | error e =>
    rw [Server.dhcpHandleRequest, hsel, error_bind, error_bind]
    rfl
  | ok selected =>
    rw [ok_bind]
    cases selected with
    | none =>
      rw [dhcpHandleRequest_unselected hsel]
      rfl
    | some identifier =>
      rw [dhcpHandleRequest_eq hsel]
      simp only
      have hdest : (s.answering env).map Server.dhcpClientAddr =
          if s.dhcpRecv.ciaddr = inaddrAny then replyDest s.dhcpRecv s.table env.now
          else .ok s.dhcpRecv.ciaddr := by
        rw [Server.answering]
        split
        · exact unicastSetup_dest (s := s.changeSocketSetup inaddrAny inaddrBroadcast) rfl
        · rfl
      rw [← hdest]
      cases hu : s.answering env with
      | error e => rfl
      | ok u =>
        obtain ⟨hru, htu⟩ := answering_ok hu
        cases judgedAddress s.dhcpRecv identifier with
        | error e => rfl
        | ok x =>
          rw [← hru] at ho
          have heffect := answerRequest_effect env x ho hlt
          rw [hru, htu] at heffect
          exact heffect

theorem dhcpHandleRelease_effect :
    effect s.dhcpHandleRelease = onRelease s.dhcpRecv s.table := by
  rw [Server.dhcpHandleRelease, onRelease]
  cases selectedServer s.dhcpRecv with
  | error e => rfl
  | ok selected =>
    cases selected with
    | none => rfl
    | some identifier =>
      rw [ok_bind, ok_bind]
      simp only
      cases deleteLease s.table s.dhcpRecv.ciaddr s.dhcpRecv.chaddr with
      | error e => rfl
      | ok t => rfl

theorem dhcpHandleInform_effect
    (ho : getDhcpOption s.dhcpRecv optionDhcpMessageType = .ok (1, some o))
    (hlt : o < dhcpMaxOptionLen) :
    effect (s.dhcpHandleInform env) = onInform s.dhcpRecv s.table env o :=
  constructDhcpPacket_effect (s := s.changeSocketSetup dhcpServerIpAddress s.dhcpRecv.ciaddr)
    env dhcpack ho hlt

/-- The effect of a pass depends only on the packet that has been received, the table, and what the
server takes from outside. -/
theorem mainLoop_effect (s : Server) (i : Input) :
    effect (mainLoop s i) = reaction (s.received i) s.table i.env := by
  rw [reaction]
  cases htype : receivedType (s.received i) with
  | error e =>
    have h : receivedType ((s.changeSocketSetup inaddrAny inaddrBroadcast).dhcpRecv.recvfrom
        i.datagram) = .error e := htype
    simp only [mainLoop, h]
    rfl
  | ok type =>
    have h : receivedType ((s.changeSocketSetup inaddrAny inaddrBroadcast).dhcpRecv.recvfrom
        i.datagram) = .ok type := htype
    rw [ok_bind]
    simp only [mainLoop, h, ok_bind]
    cases type with
    | none => rfl
    | some type =>
      obtain ⟨o, ho, -⟩ := receivedType_ok htype
      have hlt := receivedType_inside htype ho
      have ho' : getDhcpOption (s.ready i).dhcpRecv optionDhcpMessageType = .ok (1, some o) := ho
      simp only [ho, ok_bind, Option.getD_some]
      split
      · exact dhcpHandleDiscover_effect ho' hlt
      · split
        · exact dhcpHandleRequest_effect ho' hlt
        · split
          · exact dhcpHandleRelease_effect (s := s.ready i)
          · split
            · exact dhcpHandleInform_effect ho' hlt
            · rfl

end Handlers

section Types

variable {s : Server} {i : Input} {b : DhcpT} {t : LeaseTable} {env : Env} {o : ℕ} {type len : UInt8}

theorem mainLoop_of_reaction {t : LeaseTable} {out : Option Sent}
    (h : reaction (s.received i) s.table i.env = .ok (t, out)) :
    ∃ s', mainLoop s i = .ok (s', out) ∧ s'.table = t := by
  rw [← mainLoop_effect] at h
  cases hstep : mainLoop s i with
  | error e =>
    rw [hstep] at h
    cases h
  | ok p =>
    obtain ⟨s', out'⟩ := p
    rw [hstep] at h
    cases h
    exact ⟨s', rfl, rfl⟩

theorem reaction_of_none (htype : receivedType b = .ok none) : reaction b t env = .ok (t, none) := by
  rw [reaction, htype, ok_bind]

theorem reaction_of_type (htype : receivedType b = .ok (some type))
    (ho : getDhcpOption b optionDhcpMessageType = .ok (len, some o)) :
    reaction b t env = if type = dhcpdiscover then onDiscover b t env o
      else if type = dhcprequest then onRequest b t env o
      else if type = dhcprelease then onRelease b t
      else if type = dhcpinform then onInform b t env o
      else .ok (t, none) := by
  rw [reaction, htype, ok_bind]
  simp only
  rw [ho, ok_bind]
  rfl

theorem reaction_discover (htype : receivedType b = .ok (some dhcpdiscover))
    (ho : getDhcpOption b optionDhcpMessageType = .ok (len, some o)) :
    reaction b t env = onDiscover b t env o := by
  rw [reaction_of_type htype ho, if_pos rfl]

theorem reaction_request (htype : receivedType b = .ok (some dhcprequest))
    (ho : getDhcpOption b optionDhcpMessageType = .ok (len, some o)) :
    reaction b t env = onRequest b t env o := by
  rw [reaction_of_type htype ho, if_neg (by decide), if_pos rfl]

theorem reaction_release (htype : receivedType b = .ok (some dhcprelease))
    (ho : getDhcpOption b optionDhcpMessageType = .ok (len, some o)) :
    reaction b t env = onRelease b t := by
  rw [reaction_of_type htype ho, if_neg (by decide), if_neg (by decide), if_pos rfl]

theorem reaction_inform (htype : receivedType b = .ok (some dhcpinform))
    (ho : getDhcpOption b optionDhcpMessageType = .ok (len, some o)) :
    reaction b t env = onInform b t env o := by
  rw [reaction_of_type htype ho, if_neg (by decide), if_neg (by decide), if_neg (by decide),
    if_pos rfl]

end Types

end InternetApplications.Dhcp
