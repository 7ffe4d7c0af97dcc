import InternetApplications.Dhcp.ClientStep

namespace InternetApplications.Dhcp

open ByteMemory TagScan Executions Tracing

/-- Where the client stands between two steps: at the menu, in one of its two receive loops, or
about to call `discover` because a NAK has ended `renew` or `rebind`. -/
inductive Phase
  | menu
  | awaitOffer (dhcpOffer dhcpAck : DhcpT)
  | awaitAck (call : Command) (dhcpAck : DhcpT) (value : OptionValue)
  | rediscover

namespace Phase

def isMenu : Phase → Bool
  | .menu => true
  | _ => false

def isRediscover : Phase → Bool
  | .rediscover => true
  | _ => false

def isWaiting : Phase → Bool
  | .awaitOffer _ _ | .awaitAck _ _ _ => true
  | .menu | .rediscover => false

end Phase

/-- What the client does until it waits again. The address is that of `setup_interface`. -/
structure Progress where
  client : Client
  phase : Phase
  sent : List Sent
  configured : Option UInt32
  accepted : List (ℕ × DhcpT)

inductive Trigger
  | command (command : Command)
  | alarm
  | rediscover

namespace Client

def atMenu (c : Client) : Progress := ⟨c, .menu, [], none, []⟩

def beginDiscover (c : Client) (host : Host) : Except Fault Progress :=
  if c.getIpAddress host ≠ 0 then return c.atMenu
  else do
    let (c, discover) ← c.sendDiscover host
    return ⟨c, .awaitOffer host.offerResidue host.ackResidue, [discover], none, []⟩

def beginCall (c : Client) (host : Host) : Command → Except Fault Progress
  | .discover => c.beginDiscover host
  | .release => do
    let (c, sent) ← (c.alarm host.now 0).dhcpRelease host
    return ⟨c.setupInterfaceRelease host, .menu, [sent], none, []⟩
  | .inform => do
    let (c, inform) ← c.sendInform host
    return ⟨c, .awaitAck .inform host.ackResidue none, [inform], none, []⟩
  | .renew => do
    let (c, renew) ← c.sendRenew host
    return ⟨c, .awaitAck .renew host.ackResidue none, [renew], none, []⟩
  | .rebind => do
    let (c, rebind) ← c.sendRebind host
    return ⟨c, .awaitAck .rebind host.ackResidue none, [rebind], none, []⟩

def beginTimeOut (c : Client) (host : Host) : Except Fault Progress :=
  if c.t1Time ≠ 0 then
    let c := c.alarm host.now (c.t2Time - c.t1Time)
    (c.setTimes c.leaseTime 0 c.t2Time).beginCall host .renew
  else if c.t2Time ≠ 0 then
    let c := c.alarm host.now (c.leaseTime - c.t2Time)
    (c.setTimes c.leaseTime c.t1Time 0).beginCall host .rebind
  else return (c.setupInterfaceRelease host).atMenu

def begin (c : Client) (host : Host) : Trigger → Except Fault Progress
  | .command command => c.beginCall host command
  | .alarm => c.alarmGone.beginTimeOut host
  | .rediscover => c.beginDiscover host

section Deliveries

variable {m : Type → Type} [Monad m] [MonadLiftT (Except Fault) m]
  [Noting (OptionUse (DhcpT × ℕ)) Fault m]

def settle (c : Client) (host : Host) (state : ℤ) (dhcpAck : DhcpT) :
    Command → m Progress
  | .discover =>
    if state > 0 then return (c.setupInterfaceRelease host).atMenu
    else do
      let c ← c.setupInterface host dhcpAck
      let c ← c.setAlarm host dhcpAck
      return ⟨c, .menu, [], if host.setAddr then some dhcpAck.yiaddr else none,
        [(host.now, dhcpAck)]⟩
  | .renew | .rebind =>
    if state > 0 then return ⟨c.setupInterfaceRelease host, .rediscover, [], none, []⟩
    else do
      let c ← c.setAlarm host dhcpAck
      return ⟨c, .menu, [], none, [(host.now, dhcpAck)]⟩
  | .release | .inform => return c.atMenu

def resume (c : Client) (d : Delivery) : Phase → m Progress
  | .awaitOffer dhcpOffer dhcpAck =>
    let dhcpOffer := dhcpOffer.recvfrom d.datagram
    if c.Takes dhcpOffer then do
      let (c, value) ← c.takeOffer dhcpOffer
      let request ← c.sendRequest d.host
      return ⟨c, .awaitAck .discover dhcpAck value, [request], none, []⟩
    else return ⟨c, .awaitOffer dhcpOffer dhcpAck, [], none, []⟩
  | .awaitAck call dhcpAck value =>
    let dhcpAck := dhcpAck.recvfrom d.datagram
    if c.Takes dhcpAck then do
      let (state, c) ← c.takeAck dhcpAck value
      c.settle d.host state dhcpAck call
    else return ⟨c, .awaitAck call dhcpAck value, [], none, []⟩
  | .menu => return c.atMenu
  | .rediscover => return ⟨c, .rediscover, [], none, []⟩

end Deliveries

end Client

section Whole

/-- The call of `discover` that follows a NAK, when it comes to that. -/
def Progress.goOn (p : Progress) (host : Host) : Except Fault Progress :=
  match p.phase with
  | .rediscover => do
    let q ← p.client.beginDiscover host
    return { q with sent := p.sent ++ q.sent }
  | _ => return p

def Client.takeAll (c : Client) : Phase → List Delivery → Except Fault Done
  | .menu, _ | _, [] => return ⟨c, [], []⟩
  | phase, d :: rest => do
    let p ← (← c.resume d phase).goOn d.host
    let done ← p.client.takeAll p.phase rest
    return ⟨done.client, p.sent ++ done.sent, p.accepted ++ done.accepted⟩

def Progress.takeAll (p : Progress) (deliveries : List Delivery) : Except Fault Done := do
  let done ← p.client.takeAll p.phase deliveries
  return ⟨done.client, p.sent ++ done.sent, p.accepted ++ done.accepted⟩

def Progress.complete (p : Progress) (host : Host) (rest : List Delivery) : Except Fault Done := do
  let p ← p.goOn host
  p.takeAll rest

def Ended.done (ended : Ended) : Command → Except Fault Done
  | .discover =>
    if ended.state < 0 then return ⟨ended.client, [], []⟩
    else if ended.state > 0 then
      return ⟨ended.client.setupInterfaceRelease ended.host, [], []⟩
    else do
      let c ← ended.client.setupInterface ended.host ended.dhcpAck
      let c ← c.setAlarm ended.host ended.dhcpAck
      return ⟨c, [], [(ended.host.now, ended.dhcpAck)]⟩
  | .release | .inform => return ⟨ended.client, [], []⟩
  | .renew | .rebind => Client.extendLease [] ended

namespace Client

variable {c : Client} {host : Host} {dhcpOffer dhcpAck : DhcpT} {value : OptionValue}

theorem takeAll_menu (deliveries : List Delivery) :
    c.takeAll .menu deliveries = .ok ⟨c, [], []⟩ := by
  cases deliveries <;> rfl

def Rediscovers (host : Host) (deliveries : List Delivery) : Prop :=
  ∀ c : Client, c.discover host deliveries = c.beginDiscover host >>= fun p ↦ p.takeAll deliveries

theorem complete_menu (c : Client) (configured : Option UInt32) (accepted : List (ℕ × DhcpT))
    (host : Host) (rest : List Delivery) :
    (⟨c, .menu, [], configured, accepted⟩ : Progress).complete host rest =
      .ok ⟨c, [], accepted⟩ := by
  simp only [Progress.complete, Progress.goOn, Progress.takeAll, pure_bind, takeAll_menu, ok_bind,
    List.append_nil]
  rfl

theorem settle_done {state : ℤ} {rest : List Delivery} {call : Command}
    (hstate : state = 1 ∨ state = 0) (h : call ≠ .discover → Rediscovers host rest) :
    (c.settle host state dhcpAck call >>= fun p ↦ p.complete host rest) =
      (⟨state, c, dhcpAck, host, rest⟩ : Ended).done call := by
  have hextend (hd : Rediscovers host rest) :
      (c.settle host state dhcpAck .renew >>= fun p ↦ p.complete host rest) =
        extendLease [] ⟨state, c, dhcpAck, host, rest⟩ := by
    rcases hstate with rfl | rfl
    · have hreleased := hd (c.setupInterfaceRelease host)
      simp only [settle, extendLease, hreleased]
      simp [Progress.complete, Progress.goOn, Progress.takeAll]
    · simp only [settle, extendLease, gt_iff_lt, Int.lt_irrefl, if_false, bind_assoc]
      refine bind_congr (m := Except Fault) fun c₁ ↦ ?_
      exact complete_menu c₁ none _ host rest
  cases call with
  | release => exact complete_menu c none [] host rest
  | inform => exact complete_menu c none [] host rest
  | discover =>
    rcases hstate with rfl | rfl
    · exact complete_menu _ none [] host rest
    · simp only [settle, Ended.done, gt_iff_lt, Int.lt_irrefl, if_false, bind_assoc]
      refine bind_congr (m := Except Fault) fun c₁ ↦ bind_congr (m := Except Fault) fun c₂ ↦ ?_
      exact complete_menu c₂ _ _ host rest
  | renew => exact hextend (h (by decide))
  | rebind => exact hextend (h (by decide))

theorem complete_waiting {p : Progress} {d : Delivery} (h : p.phase ≠ .rediscover)
    (hsent : p.sent = []) (haccepted : p.accepted = []) (rest : List Delivery) :
    p.complete d.host rest = p.client.takeAll p.phase rest := by
  obtain ⟨c, phase, sent, configured, accepted⟩ := p
  cases hsent
  cases haccepted
  have hgo : (⟨c, phase, [], configured, []⟩ : Progress).goOn d.host =
      .ok ⟨c, phase, [], configured, []⟩ := by
    cases phase with
    | rediscover => exact absurd rfl h
    | menu | awaitOffer | awaitAck => rfl
  rw [Progress.complete, hgo, ok_bind]
  exact bind_pure _

theorem takeAll_awaitAck {call : Command} {deliveries : List Delivery}
    (h : call ≠ .discover → ∀ host deliveries, Rediscovers host deliveries) :
    c.takeAll (.awaitAck call dhcpAck value) deliveries =
      c.awaitAck dhcpAck value host deliveries >>= fun ended ↦ ended.done call := by
  induction deliveries generalizing dhcpAck host with
  | nil => cases call <;> rfl
  | cons d rest ih =>
    have hstep : c.takeAll (.awaitAck call dhcpAck value) (d :: rest) =
        c.resume d (.awaitAck call dhcpAck value) >>= fun p ↦ p.complete d.host rest := by
      simp only [takeAll, Progress.complete, Progress.takeAll]
    rw [hstep, resume, awaitAck]
    simp only
    split
    · cases htake : c.takeAck (dhcpAck.recvfrom d.datagram) value with
      | error e => rfl
      | ok r =>
        obtain ⟨state, c'⟩ := r
        have hstate : state = 1 ∨ state = 0 :=
          (takeAck_ok htake).imp (fun h ↦ h.1) (fun h ↦ h.1)
        simp only [ok_bind, pure_bind]
        exact settle_done hstate fun hcall ↦ h hcall d.host rest
    · rw [pure_bind, complete_waiting (by simp) rfl rfl]
      exact ih

def afterOffer (c : Client) (dhcpAck : DhcpT) :
    Option (Client × OptionValue × Host × List Delivery) → Except Fault Done
  | none => return ⟨c, [], []⟩
  | some (c, value, host, rest) => do
    let request ← c.sendRequest host
    let done ← c.takeAll (.awaitAck .discover dhcpAck value) rest
    return ⟨done.client, request :: done.sent, done.accepted⟩

theorem takeAll_awaitOffer {deliveries : List Delivery} :
    c.takeAll (.awaitOffer dhcpOffer dhcpAck) deliveries =
      c.awaitOffer dhcpOffer deliveries >>= c.afterOffer dhcpAck := by
  induction deliveries generalizing dhcpOffer with
  | nil => rfl
  | cons d rest ih =>
    have hstep : c.takeAll (.awaitOffer dhcpOffer dhcpAck) (d :: rest) =
        c.resume d (.awaitOffer dhcpOffer dhcpAck) >>= fun p ↦ p.complete d.host rest := by
      simp only [takeAll, Progress.complete, Progress.takeAll]
    rw [hstep, resume, awaitOffer]
    simp only
    split
    · simp only [bind_assoc, pure_bind]
      refine bind_congr (m := Except Fault) fun r ↦ bind_congr (m := Except Fault) fun request ↦ ?_
      simp only [Progress.complete, Progress.goOn, Progress.takeAll, pure_bind,
        List.singleton_append, List.nil_append]
    · rw [pure_bind, complete_waiting (by simp) rfl rfl]
      exact ih

theorem discover_steps (c : Client) (host : Host) (deliveries : List Delivery) :
    c.discover host deliveries = c.beginDiscover host >>= fun p ↦ p.takeAll deliveries := by
  rw [discover, beginDiscover]
  split
  · simp only [pure_bind, Progress.takeAll, atMenu, takeAll_menu, ok_bind, List.append_nil]
  · simp only [dhcpDiscover, bind_assoc, pure_bind, Progress.takeAll, takeAll_awaitOffer]
    refine bind_congr (m := Except Fault) fun r ↦ bind_congr (m := Except Fault) fun o ↦ ?_
    cases o with
    | none =>
      simp only [afterOffer, pure_bind, List.append_nil]
      rfl
    | some r' =>
      obtain ⟨c', value, host', rest⟩ := r'
      have hack : c'.takeAll (.awaitAck .discover host.ackResidue value) rest =
          c'.awaitAck host.ackResidue value host' rest >>= fun ended ↦ ended.done .discover :=
        takeAll_awaitAck fun h ↦ absurd rfl h
      simp only [afterOffer, hack, bind_assoc, pure_bind]
      refine bind_congr (m := Except Fault) fun request ↦ bind_congr (m := Except Fault) fun e ↦ ?_
      simp only [Ended.done]
      split
      · simp
      · split <;> simp

theorem extendLease_append (sent : List Sent) (ended : Ended) :
    extendLease sent ended = extendLease [] ended >>= fun done ↦
      return ⟨done.client, sent ++ done.sent, done.accepted⟩ := by
  simp only [extendLease]
  split
  · simp
  · split <;> simp

/-- A command of the menu, with the deliveries that one call takes, is the run of its steps. -/
theorem interact_steps (command : Command) (c : Client) (host : Host) (deliveries : List Delivery) :
    interact command c host deliveries =
      c.beginCall host command >>= fun p ↦ p.takeAll deliveries := by
  have hack {c : Client} {call : Command} : c.takeAll (.awaitAck call host.ackResidue none) deliveries =
      c.awaitAck host.ackResidue none host deliveries >>= fun ended ↦ ended.done call :=
    takeAll_awaitAck fun _ host deliveries c ↦ discover_steps c host deliveries
  cases command with
  | discover => exact discover_steps c host deliveries
  | release =>
    simp only [interact, release, beginCall, bind_assoc, pure_bind, Progress.takeAll, takeAll_menu,
      ok_bind, List.append_nil]
  | inform =>
    simp only [interact, inform, dhcpInform, beginCall, bind_assoc, pure_bind, Progress.takeAll,
      hack, Ended.done, List.append_nil]
  | renew =>
    simp only [interact, renew, dhcpRenew, beginCall, bind_assoc, pure_bind, Progress.takeAll,
      hack, Ended.done, List.nil_append]
    refine bind_congr (m := Except Fault) fun r ↦ bind_congr (m := Except Fault) fun ended ↦ ?_
    exact extendLease_append _ _
  | rebind =>
    simp only [interact, rebind, dhcpRebind, beginCall, bind_assoc, pure_bind, Progress.takeAll,
      hack, Ended.done, List.nil_append]
    refine bind_congr (m := Except Fault) fun r ↦ bind_congr (m := Except Fault) fun ended ↦ ?_
    exact extendLease_append _ _

theorem leaseTimeOut_steps (c : Client) (host : Host) (deliveries : List Delivery) :
    c.leaseTimeOut host deliveries = c.beginTimeOut host >>= fun p ↦ p.takeAll deliveries := by
  rw [leaseTimeOut, beginTimeOut]
  split
  · exact interact_steps .renew _ host deliveries
  · split
    · exact interact_steps .rebind _ host deliveries
    · simp only [pure_bind, Progress.takeAll, atMenu, takeAll_menu, ok_bind, List.append_nil]

end Client

end Whole

end InternetApplications.Dhcp
