import InternetApplications.Library.Failure
import InternetApplications.Dhcp.FreshAddress
import InternetApplications.Dhcp.Traffic
import InternetApplications.Dhcp.WireAgreement

namespace InternetApplications.Dhcp

open ByteMemory TagScan Executions LeaseTable

def Host.Exits (host : Host) (e : Fault) : Prop := !host.getHwaddr ∧ e = .noReturn

def LeaseTable.Fails (t : LeaseTable) (env : Env) (e : Fault) : Prop :=
  e = .noReturn ∧ probe t.leases env.draws = .error .noReturn ∨
    e = .overflow ∧ t.numOfLease + 1 = 2 ^ 31

def Sent.Readable (m : Sent) : Prop :=
  m.payload = [] ∨ ∃ (b : DhcpT) (state : UInt8) (y : UInt32), IsReply b m state y true

def Phase.array : Phase → Option DhcpT
  | .awaitOffer dhcpOffer _ => some dhcpOffer
  | .awaitAck _ dhcpAck _ => some dhcpAck
  | .menu | .rediscover => none

theorem Phase.exists_array {phase : Phase} (h : phase.isWaiting) : ∃ b, phase.array = some b := by
  cases phase with
  | menu | rediscover => cases h
  | awaitOffer | awaitAck => exact ⟨_, rfl⟩

section Clients

variable {c : Client} {host : Host} {type : UInt8} {p : DhcpT} {m : Sent} {phase : Phase}

namespace Client

theorem constructDhcpPacket_fails (c : Client) (host : Host) (type : UInt8) :
    FailsOnly host.Exits (c.constructDhcpPacket host type) := by
  rw [constructDhcpPacket, getMacAddress]
  cases hmac : host.getHwaddr with
  | true => exact .ok _
  | false => exact .of_error ⟨by rw [hmac]; rfl, rfl⟩

theorem startExchange_fails (c : Client) (host : Host) (clientAddr serverAddr : UInt32)
    (type : UInt8) : FailsOnly host.Exits (c.startExchange host clientAddr serverAddr type) :=
  (constructDhcpPacket_fails _ host type).bind fun _ _ ↦ .ok _

theorem sendRequest_fails (c : Client) (host : Host) : FailsOnly host.Exits (c.sendRequest host) :=
  (constructDhcpPacket_fails c host _).bind fun _ _ ↦ .ok _

theorem beginDiscover_fails (c : Client) (host : Host) :
    FailsOnly host.Exits (c.beginDiscover host) := by
  rw [beginDiscover]
  split
  · exact .ok _
  · exact (startExchange_fails c host _ _ _).bind fun _ _ ↦ .ok _

theorem beginCall_fails (c : Client) (host : Host) (command : Command) :
    FailsOnly host.Exits (c.beginCall host command) := by
  cases command with
  | discover => exact beginDiscover_fails c host
  | release | inform | renew | rebind =>
    exact (startExchange_fails _ host _ _ _).bind fun _ _ ↦ .ok _

theorem begin_fails (c : Client) (host : Host) (trigger : Trigger) :
    FailsOnly host.Exits (c.begin host trigger) := by
  cases trigger with
  | command command => exact beginCall_fails c host command
  | rediscover => exact beginDiscover_fails c host
  | alarm =>
    rw [begin, beginTimeOut]
    split
    · exact beginCall_fails _ host _
    · split
      · exact beginCall_fails _ host _
      · exact .ok _

end Client

variable {q b : DhcpT} {state : UInt8} {y : UInt32} {leased : Bool} {value : OptionValue}

namespace ReadsReply

theorem setupInterface_returns (h : ReadsReply q b state y true) (hs : state ≠ dhcpnak) (host : Host)
    (c : Client) : ∃ c', c.setupInterface host q = .ok c' := by
  have hmask : wordOption q optionSubnetMask = .ok (some subnetMask) :=
    (h.carries_leased hs).wordOption rfl rfl
  have hrouter : wordOption q optionRouter = .ok (some routerIpAddress) :=
    (h.carries_leased hs).wordOption rfl rfl
  obtain ⟨requests, hrequests⟩ : ∃ requests, setupRequests host q = .ok requests := by
    rw [setupRequests, hmask, hrouter]
    split
    · exact ⟨_, rfl⟩
    · simp only [ok_bind]
      split
      · exact ⟨_, rfl⟩
      · split
        · exact ⟨_, rfl⟩
        · exact ⟨_, rfl⟩
  rw [Client.setupInterface, hrequests]
  exact ⟨_, rfl⟩

theorem setAlarm_returns (h : ReadsReply q b state y true) (hs : state ≠ dhcpnak) (host : Host)
    (c : Client) : ∃ c', c.setAlarm host q = .ok c' := ⟨_, h.setAlarm hs host c⟩

theorem settle_returns (h : ReadsReply q b state y true) (hs : state ≠ dhcpnak) (host : Host)
    (c : Client) (call : Command) : ∃ p, c.settle host 0 q call = .ok p := by
  have hextends : ∃ p, c.settle host 0 q .renew = .ok p := by
    obtain ⟨c', halarm⟩ := h.setAlarm_returns hs host c
    rw [Client.settle, if_neg (by decide), halarm]
    exact ⟨_, rfl⟩
  cases call with
  | release | inform => exact ⟨_, rfl⟩
  | renew | rebind => exact hextends
  | discover =>
    obtain ⟨c₁, hsetup⟩ := h.setupInterface_returns hs host c
    obtain ⟨c₂, halarm⟩ := h.setAlarm_returns hs host c₁
    rw [Client.settle, if_neg (by decide), hsetup, ok_bind, halarm]
    exact ⟨_, rfl⟩

end ReadsReply

theorem Client.settle_refused (c : Client) (host : Host) (q : DhcpT) (call : Command) :
    ∃ p, c.settle host 1 q call = .ok p := by
  cases call with
  | discover | renew | rebind | release | inform => exact ⟨_, rfl⟩

/-- The client gets on with a reply, whatever its array held before. -/
theorem IsReply.resume_fails (h : IsReply b m state y true) (c : Client) (host : Host)
    (phase : Phase) : FailsOnly host.Exits (c.resume ⟨host, m.payload⟩ phase) := by
  cases phase with
  | menu | rediscover => exact .ok _
  | awaitOffer dhcpOffer dhcpAck =>
    rw [Client.resume]
    simp only
    split
    · obtain ⟨o, htake⟩ := (h.reads dhcpOffer).takeOffer c
      rw [htake, ok_bind]
      exact (Client.sendRequest_fails _ host).bind fun _ _ ↦ .ok _
    · exact .ok _
  | awaitAck call dhcpAck value =>
    rw [Client.resume]
    simp only
    split
    · rw [(h.reads dhcpAck).takeAck, ok_bind]
      apply FailsOnly.of_ok
      split
      · exact Client.settle_refused c host _ call
      · rename_i hs
        exact (h.reads dhcpAck).settle_returns hs host _ call
    · exact .ok _

/-- An empty datagram is passed over when the array does not look like a reply. -/
theorem Client.resume_empty {b : DhcpT} (hempty : m.payload = []) (harray : phase.array = some b)
    (htakes : ¬c.Takes b) (host : Host) : ∃ p, c.resume ⟨host, m.payload⟩ phase = .ok p := by
  have hsame (p : DhcpT) : p.recvfrom m.payload = p := by
    rw [hempty]
    rfl
  cases phase with
  | menu | rediscover => cases harray
  | awaitOffer dhcpOffer dhcpAck | awaitAck call dhcpAck value =>
    cases harray
    rw [Client.resume]
    simp only [hsame, if_neg htakes]
    exact ⟨_, rfl⟩

end Clients

section Servers

variable {t : LeaseTable} {env : Env} {s : Server} {i : Input}

def Blames (t : LeaseTable) (env : Env) (e : Fault) : Prop :=
  e = .outOfBounds ∨ e = .unsetPointer ∨ t.Fails env e

theorem getDhcpOption_blames (t : LeaseTable) (env : Env) (b : DhcpT) (tag : UInt8) :
    FailsOnly (Blames t env) (getDhcpOption b tag) := by
  rw [getDhcpOption]
  split
  · exact .of_error (.inl rfl)
  · exact .ok _
  · split
    · exact .ok _
    · exact .of_error (.inl rfl)

theorem derefByte_blames (t : LeaseTable) (env : Env) (b : DhcpT) (value : Option ℕ) :
    FailsOnly (Blames t env) (derefByte b value) := by
  cases value with
  | none => exact .of_error (.inr (.inl rfl))
  | some o =>
    rw [derefByte]
    split
    · exact .ok _
    · exact .of_error (.inl rfl)

theorem derefWord_blames (t : LeaseTable) (env : Env) (b : DhcpT) (value : Option ℕ) :
    FailsOnly (Blames t env) (derefWord b value) := by
  cases value with
  | none => exact .of_error (.inr (.inl rfl))
  | some o =>
    rw [derefWord]
    split
    · exact .ok _
    · exact .of_error (.inl rfl)

theorem allocateIp_blames (t : LeaseTable) (env : Env) (stale : UInt32) (m : Mac) :
    FailsOnly (Blames t env) (allocateIp t env stale m) :=
  fun _ he ↦ .inr (.inr (.inl (allocateIp_error he)))

theorem addLease_blames (ht : t.Valid) (env : Env) (x : UInt32) (m : Mac) :
    FailsOnly (Blames t env) (addLease t env.now x m) :=
  fun _ he ↦ .inr (.inr (.inr (addLease_error ht he)))

theorem requestedIp_blames (t : LeaseTable) (env : Env) (b : DhcpT) :
    FailsOnly (Blames t env) (requestedIp b t env.now) := by
  refine (getDhcpOption_blames t env b _).bind fun r _ ↦ ?_
  obtain ⟨len, value⟩ := r
  simp only
  split
  · exact (derefWord_blames t env b value).bind fun _ _ ↦ .ok _
  · exact .ok _

theorem selectedServer_blames (t : LeaseTable) (env : Env) (b : DhcpT) :
    FailsOnly (Blames t env) (selectedServer b) := by
  refine (getDhcpOption_blames t env b _).bind fun r _ ↦ ?_
  obtain ⟨len, value⟩ := r
  simp only
  split
  · exact (derefWord_blames t env b value).bind fun _ _ ↦ .ok _
  · exact .ok _

theorem receivedType_blames (t : LeaseTable) (env : Env) (b : DhcpT) :
    FailsOnly (Blames t env) (receivedType b) := by
  rw [receivedType]
  split
  · refine (getDhcpOption_blames t env b _).bind fun r _ ↦ ?_
    obtain ⟨len, value⟩ := r
    simp only
    split
    · exact (derefByte_blames t env b value).bind fun _ _ ↦ .ok _
    · exact .ok _
  · exact .ok _

theorem yourIpAddress_blames (ht : t.Valid) (env : Env) (b : DhcpT) (state : UInt8) :
    FailsOnly (Blames t env) (yourIpAddress b t env state) := by
  rw [yourIpAddress]
  split
  · exact .ok _
  · split
    · refine (requestedIp_blames t env b).bind fun r _ ↦ ?_
      cases r with
      | some ip => exact .ok _
      | none =>
        refine (allocateIp_blames t env _ _).bind fun r _ ↦ ?_
        simp only
        split
        · exact .ok _
        · exact .ok _
    · split
      · refine (getDhcpOption_blames t env b _).bind fun r _ ↦ ?_
        refine (derefWord_blames t env b r.2).bind fun ip _ ↦ ?_
        exact (addLease_blames ht env ip _).bind fun _ _ ↦ .ok _
      · exact (allocateIp_blames t env _ _).bind fun _ _ ↦ .ok _

theorem answer_blames (ht : t.Valid) (env : Env) (b : DhcpT) (state : UInt8) (dest : UInt32) (o : ℕ) :
    FailsOnly (Blames t env) (answer b t env state dest o) :=
  (yourIpAddress_blames ht env b state).bind fun _ _ ↦ .ok _

theorem replyDest_blames (t : LeaseTable) (env : Env) (b : DhcpT) :
    FailsOnly (Blames t env) (replyDest b t env.now) := by
  rw [replyDest]
  split
  · exact (requestedIp_blames t env b).bind fun _ _ ↦ .ok _
  · exact .ok _

theorem reaction_blames (ht : t.Valid) (env : Env) (b : DhcpT) :
    FailsOnly (Blames t env) (reaction b t env) := by
  refine (receivedType_blames t env b).bind fun type _ ↦ ?_
  cases type with
  | none => exact .ok _
  | some type =>
    refine (getDhcpOption_blames t env b _).bind fun r _ ↦ ?_
    split
    · exact (replyDest_blames t env b).bind fun _ _ ↦ answer_blames ht env b _ _ _
    · split
      · refine (selectedServer_blames t env b).bind fun selected _ ↦ ?_
        cases selected with
        | none => exact .ok _
        | some identifier =>
          refine FailsOnly.bind ?_ fun dest _ ↦ FailsOnly.bind ?_ fun x _ ↦ answer_blames ht env b _ _ _
          · split
            · exact replyDest_blames t env b
            · exact .ok _
          · rw [judgedAddress]
            split
            · exact (getDhcpOption_blames t env b _).bind fun _ _ ↦ derefWord_blames t env b _
            · exact .ok _
      · split
        · refine (selectedServer_blames t env b).bind fun selected _ ↦ ?_
          cases selected with
          | none => exact .ok _
          | some identifier =>
            obtain ⟨t', hdelete, -⟩ := toMap_deleteLease ht b.ciaddr b.chaddr
            rw [hdelete]
            exact .ok _
        · split
          · exact answer_blames ht env b _ _ _
          · exact .ok _

/-- A packet of the client is read inside its bytes. -/
theorem Client.IsRequest.mainLoop_fails {c : Client} {m : Sent} {addr : UInt32} {mac : Mac}
    {type : UInt8} (h : c.IsRequest m addr mac type)
    (hdiscover : type = dhcpdiscover → addr = inaddrAny) (hs : ServerReachable s) (env : Env) :
    FailsOnly (s.table.Fails env) (mainLoop s ⟨env, m.payload⟩) := by
  intro e he
  have heffect : effect (mainLoop s ⟨env, m.payload⟩) = .error e := by
    rw [he]
    rfl
  have htame := (h.independent hdiscover s s hs hs rfl env).2 e heffect
  rw [mainLoop_effect] at heffect
  rcases reaction_blames hs.valid env _ e heffect with hbounds | hunset | hfails
  · rw [hbounds] at htame
    rcases htame with hcase | hcase
    · cases hcase
    · cases hcase
  · rw [hunset] at htame
    rcases htame with hcase | hcase
    · cases hcase
    · cases hcase
  · exact hfails

theorem mainLoop_counts {s' : Server} {out : Option Sent} (h : mainLoop s i = .ok (s', out)) :
    s'.table.numOfLease ≤ s.table.numOfLease + 1 := by
  have hallocates {stale y : UInt32} {m : Mac} {r : ℤ} {t' : LeaseTable}
      (ha : allocateIp s.table i.env stale m = .ok (r, y, t')) :
      t'.numOfLease ≤ s.table.numOfLease + 1 := by
    obtain ⟨_, -, -, -, rfl⟩ | ⟨-, -, -, rfl, -⟩ | ⟨-, -, -, -, rfl⟩ := allocateIp_cases ha
    · exact Int.le_of_lt (Int.lt_succ _)
    · exact Int.le_of_lt (Int.lt_succ _)
    · exact Int.le_of_lt (Int.lt_succ _)
  have hadds {x : UInt32} {m : Mac} {t' : LeaseTable}
      (ha : addLease s.table i.env.now x m = .ok t') :
      t'.numOfLease ≤ s.table.numOfLease + 1 := by
    obtain ⟨_, -, rfl⟩ | ⟨-, rfl, -⟩ := addLease_cases ha
    · exact Int.le_of_lt (Int.lt_succ _)
    · exact le_rfl
  have hhandled := mainLoop_handled h
  generalize s'.table = t at hhandled
  cases hhandled with
  | silent | offerRequested | nak => exact Int.le_of_lt (Int.lt_succ _)
  | offerAllocated _ ha | offerNone _ ha | ackRenewed _ _ _ ha | informKnown _ _ ha =>
    exact hallocates ha
  | ackSelected _ _ _ _ ha | informSelected _ _ _ ha => exact hadds ha
  | released _ _ hd =>
    obtain ⟨_, -, rfl⟩ | ⟨-, rfl⟩ := deleteLease_cases hd
    · simp only [LeaseTable.erase]
      omega
    · exact Int.le_of_lt (Int.lt_succ _)

/-- What the server sends to a client's packet the client can read. -/
theorem Client.IsRequest.readable {c : Client} {m out : Sent} {addr : UInt32} {mac : Mac}
    {type : UInt8} {s' : Server} (h : c.IsRequest m addr mac type)
    (hm : mainLoop s ⟨env, m.payload⟩ = .ok (s', some out)) : out.Readable := by
  have ho : getDhcpOption (s.received ⟨env, m.payload⟩) optionDhcpMessageType = .ok (1, some 2) :=
    (h.reads s.dhcpRecv).messageType.1
  have hanswers {state : UInt8} {y : UInt32} (hs : state ≠ dhcpinform)
      (ha : Answers (s.received ⟨env, m.payload⟩) out state y) : out.Readable :=
    .inr ⟨_, _, _, ha.isReply ho hs⟩
  have hhandled := mainLoop_handled hm
  generalize s'.table = t at hhandled
  cases hhandled with
  | offerNone _ _ _ hempty => exact .inl hempty
  | offerRequested _ _ ha | offerAllocated _ _ _ ha | ackSelected _ _ _ _ _ ha
  | ackRenewed _ _ _ _ ha | nak _ _ ha | informSelected _ _ _ _ ha | informKnown _ _ _ ha =>
    exact hanswers (by decide) ha

end Servers

/-- The server's state is one that datagrams lead to, what is on its way to it the clients have
built, and they can read what is on its way back. -/
structure Net.Sound {ι : Type} (net : Net ι) : Prop where
  reachable : ServerReachable net.server
  asked : ∀ f ∈ net.outbound, ∃ (c : Client) (addr : UInt32) (mac : Mac) (type : UInt8),
    c.IsRequest f.sent addr mac type ∧ (type = dhcpdiscover → addr = inaddrAny)
  answered : ∀ i, ∀ f ∈ (net.node i).pending, f.sent.Readable

/-- What is left that can go wrong on the link: a client does not get at its hardware address, all of
the server's draws lead to addresses on lease, or an array that already looks like a reply is taken
for one when an empty datagram comes. -/
inductive Net.Excuses {ι : Type} (rand : ℕ → ℕ → ℕ) (net : Net ι) : Action ι → Fault → Prop
  | begins {i : ι} {trigger : Trigger} {host : Host} {e : Fault} : host.Exits e →
      Excuses rand net (.begin i trigger host) e
  | resumes {i : ι} {host : Host} {e : Fault} : host.Exits e → Excuses rand net (.receive i host) e
  | takes {i : ι} {host : Host} {e : Fault} {f : Flight} {rest : List Flight} {b : DhcpT} :
      (net.node i).queue = f :: rest → f.sent.payload = [] → (net.node i).phase.array = some b →
      (net.node i).client.Takes b → Excuses rand net (.receive i host) e
  | serves {k draws : ℕ} {stale : UInt32} :
      (∀ j < draws, ∃ lease ∈ net.server.table.leases, lease.addr =
        ipAddressPoolStart + UInt32.ofNat (rand net.now j % ipAddressPoolAmount)) →
      Excuses rand net (.serve k draws stale) .noReturn

theorem seeded_exits {host : Host} {rand : ℕ → ℕ → ℕ} {now : ℕ} {e : Fault} :
    (host.seeded rand now).Exits e ↔ host.Exits e := Iff.rfl

section Links

variable {ι : Type} {rand : ℕ → ℕ → ℕ} {net net' : Net ι} {action : Action ι} {e : Fault}

theorem Begun.requests {c : Client} {host : Host} {p : Progress} (h : Begun c host p) :
    ∀ m ∈ p.sent, ∃ (c' : Client) (addr : UInt32) (mac : Mac) (type : UInt8),
      c'.IsRequest m addr mac type ∧ (type = dhcpdiscover → addr = inaddrAny) := by
  cases h with
  | idle => exact fun m hm ↦ by cases hm
  | discovers _ _ _ hr =>
    intro m hm
    obtain ⟨c', -, -, hrequest⟩ := hr
    rw [List.mem_singleton.mp hm]
    exact ⟨c', _, _, _, hrequest, fun _ ↦ rfl⟩
  | releases _ _ hr =>
    intro m hm
    obtain ⟨c', -, -, hrequest⟩ := hr
    rw [List.mem_singleton.mp hm]
    exact ⟨c', _, _, _, hrequest, fun htype ↦ absurd htype (by decide)⟩
  | asks _ htype _ _ hr =>
    intro m hm
    obtain ⟨c', -, -, hrequest⟩ := hr
    rw [List.mem_singleton.mp hm]
    refine ⟨c', _, _, _, hrequest, fun hdiscover ↦ ?_⟩
    rw [hdiscover] at htype
    exact absurd htype (by decide)

namespace Net

theorem sound_start (interface : ι → Interface) (now : ℕ) : (start interface now).Sound := by
  refine ⟨.refl, fun f hf ↦ ?_, fun i f hf ↦ ?_⟩
  · cases hf
  · cases hf

theorem Sound.wanes (h : net.Sound) (hw : net.Wanes net') : net'.Sound := by
  constructor
  · rw [hw.server]
    exact h.reachable
  · exact fun f hf ↦ h.asked f (hw.outbound.subset hf)
  · exact fun i f hf ↦ h.answered i f ((hw.node i).pending.subset hf)

theorem begin_excuses {i : ι} {trigger : Trigger} {host : Host}
    (h : (net.node i).begin (host.seeded rand net.now) trigger = .error (.fault e)) :
    net.Excuses rand (.begin i trigger host) e := by
  rw [Node.begin] at h
  split at h
  · cases hp : Stuck.lift ((net.node i).client.begin (host.seeded rand net.now) trigger) with
    | ok p =>
      rw [hp] at h
      cases h
    | error e' =>
      rw [hp] at h
      cases h
      have hfails := Client.begin_fails (net.node i).client (host.seeded rand net.now) trigger
      exact .begins (seeded_exits.mp (hfails e (Stuck.lift_error hp)))
  · cases h

theorem Sound.receive_excuses {i : ι} {host : Host} (hs : net.Sound)
    (h : (net.node i).receive (host.seeded rand net.now) = .error (.fault e)) :
    net.Excuses rand (.receive i host) e := by
  rw [Node.receive] at h
  split at h
  · cases h
  · rename_i f rest hqueue
    split at h
    · rename_i hwaiting
      cases hp : Stuck.lift ((net.node i).client.resume ⟨host.seeded rand net.now, f.sent.payload⟩
          (net.node i).phase) with
      | ok p =>
        rw [hp] at h
        cases h
      | error e' =>
        rw [hp] at h
        cases h
        have hresume := Stuck.lift_error hp
        have hmem : f ∈ (net.node i).pending :=
          List.mem_append_right _ (hqueue ▸ List.mem_cons_self)
        rcases hs.answered i f hmem with hempty | ⟨b, state, y, hreply⟩
        · obtain ⟨b, harray⟩ := Phase.exists_array hwaiting
          refine .takes hqueue hempty harray ?_
          by_contra htakes
          obtain ⟨p, hok⟩ := Client.resume_empty hempty harray htakes (host.seeded rand net.now)
          cases hresume.symm.trans hok
        · have hfails := hreply.resume_fails (net.node i).client (host.seeded rand net.now)
            (net.node i).phase
          exact .resumes (seeded_exits.mp (hfails e hresume))
    · cases h

theorem Sound.serve_excuses {k draws : ℕ} {stale : UInt32} (hs : net.Sound)
    (hcount : net.server.table.numOfLease + 1 < 2 ^ 31)
    (h : net.serve rand k draws stale = .error (.fault e)) :
    net.Excuses rand (.serve k draws stale) e := by
  rw [serve] at h
  split at h
  · cases h
  · rename_i f hf
    split at h
    · cases hp : Stuck.lift (mainLoop net.server
          ⟨⟨net.now, (List.range draws).map (rand net.now), stale⟩, f.sent.payload⟩) with
      | ok p =>
        simp only [hp] at h
        cases h
      | error e' =>
        simp only [hp] at h
        cases h
        obtain ⟨c, addr, mac, type, hrequest, hdiscover⟩ := hs.asked f (List.mem_of_getElem? hf)
        rcases hrequest.mainLoop_fails hdiscover hs.reachable _ e (Stuck.lift_error hp) with
          ⟨rfl, hprobe⟩ | ⟨-, hlimit⟩
        · refine .serves fun j hj ↦ ?_
          by_contra hfree
          obtain ⟨x, hx⟩ := probe_returns ⟨rand net.now j,
            List.mem_map_of_mem (List.mem_range.mpr hj),
            fun lease hl haddr ↦ hfree ⟨lease, hl, haddr⟩⟩
          cases hprobe.symm.trans hx
        · omega
    · cases h

variable [DecidableEq ι]

theorem Sound.acts (h : net.Sound) {i : ι} {node : Node} {sent : List Sent}
    (hpending : node.pending.Subperm (net.node i).pending)
    (hsent : ∀ m ∈ sent, ∃ (c : Client) (addr : UInt32) (mac : Mac) (type : UInt8),
      c.IsRequest m addr mac type ∧ (type = dhcpdiscover → addr = inaddrAny)) :
    ((net.put i node).send sent).Sound := by
  refine ⟨h.reachable, fun f hf ↦ ?_, fun j f hf ↦ ?_⟩
  · rcases List.mem_append.mp hf with hf | hf
    · exact h.asked f hf
    · obtain ⟨m, hm, rfl⟩ := List.mem_map.mp hf
      exact hsent m hm
  · rw [send_node] at hf
    by_cases hj : j = i
    · rw [hj, put_self] at hf
      exact h.answered i f (hpending.subset hf)
    · rw [put_of_ne hj] at hf
      exact h.answered j f hf

theorem Sound.moved (h : net.Sound) (hm : Moved rand net action net') : net'.Sound := by
  cases hm with
  | wanes hw => exact h.wanes hw
  | begins hp => exact h.acts (.refl _) (Client.begin_ok hp).requests
  | receives hqueue hresumed =>
    apply h.acts ((List.sublist_cons_self _ _).subperm.trans (took_pending hqueue).subperm)
    intro m hm
    obtain ⟨c, -, -, hrequest⟩ := hresumed.requesting m hm
    exact ⟨c, _, _, _, hrequest, fun htype ↦ absurd htype (by decide)⟩
  | @serves k draws stale f server out hf hserved =>
    obtain ⟨c, addr, mac, type, hrequest, -⟩ := h.asked f (List.mem_of_getElem? hf)
    refine ⟨h.reachable.next hserved, fun g hg ↦ ?_, fun j g hg ↦ ?_⟩
    · exact h.asked g (List.mem_of_mem_eraseIdx hg)
    · rcases List.mem_append.mp ((Node.expect_pending _ _).subset hg) with hg | hg
      · exact h.answered j g hg
      · obtain ⟨m, hm, rfl⟩ := List.mem_map.mp hg
        rw [Option.mem_toList] at hm
        cases hm
        exact hrequest.readable hserved

theorem moved_counts (hm : Moved rand net action net') :
    net'.server.table.numOfLease ≤ net.server.table.numOfLease + 1 := by
  cases hm with
  | wanes hw =>
    rw [hw.server]
    omega
  | begins | receives => exact Int.le_of_lt (Int.lt_succ _)
  | serves _ hserved => exact mainLoop_counts hserved

variable [Fintype ι]

theorem Sound.excuses (hs : net.Sound) (hcount : net.server.table.numOfLease + 1 < 2 ^ 31)
    (h : net.step rand action = .error (.fault e)) : net.Excuses rand action e := by
  cases action with
  | wait seconds =>
    rw [step] at h
    split at h
    · cases h
    · cases h
  | begin i trigger host =>
    cases hb : (net.node i).begin (host.seeded rand net.now) trigger with
    | ok p =>
      rw [step, hb] at h
      cases h
    | error e' =>
      rw [step, hb] at h
      cases h
      exact begin_excuses hb
  | receive i host =>
    cases hr : (net.node i).receive (host.seeded rand net.now) with
    | ok p =>
      rw [step, hr] at h
      cases h
    | error e' =>
      rw [step, hr] at h
      cases h
      exact hs.receive_excuses hr
  | serve k draws stale =>
    cases hserve : net.serve rand k draws stale with
    | ok p =>
      rw [step, hserve] at h
      cases h
    | error e' =>
      rw [step, hserve] at h
      cases h
      exact hs.serve_excuses hcount hserve
  | timeOut i =>
    rw [step, Node.timeOut] at h
    split at h
    · cases h
    · cases h
  | arrive i k =>
    rw [step, Node.arrive] at h
    split at h
    · cases h
    · split at h
      · cases h
      · cases h
  | lose i k => cases h
  | drop k => cases h

theorem Sound.run {trace : List (Transition (Net ι) (Action ι) Unit)} (h : net.Sound)
    (hrun : Execution (Net.step rand) net trace net') : net'.Sound ∧
      net'.server.table.numOfLease ≤ net.server.table.numOfLease + trace.length := by
  induction hrun with
  | nil => exact ⟨h, Int.le_add_of_nonneg_right (Int.natCast_nonneg _)⟩
  | cons hstep _ ih =>
    have hmoved := step_moved hstep
    obtain ⟨hsound, hcount⟩ := ih (h.moved hmoved)
    refine ⟨hsound, ?_⟩
    have hnext := moved_counts hmoved
    rw [List.length_cons]
    omega

end Net

end Links

/-- On a link with any number of clients and the server, whatever they are told to do, whatever is
lost, delayed or overtaken, and whatever their arrays happen to hold, no step of any of them leaves
a packet, follows a pointer that is not set, or overflows, but for an array that already looks like a
reply when an empty datagram comes. Else a program stops only where a client does not get at its hardware
address, and the server stays in its probe only as long as its draws lead to addresses on lease. -/
theorem link_safe {ι : Type} [DecidableEq ι] [Fintype ι] {rand : ℕ → ℕ → ℕ}
    {interface : ι → Interface} {now : ℕ} {trace : List (Transition (Net ι) (Action ι) Unit)}
    {net : Net ι} {action : Action ι} {e : Fault}
    (hrun : Execution (Net.step rand) (Net.start interface now) trace net)
    (hlen : trace.length < 2 ^ 31 - 1) (he : net.step rand action = .error (.fault e)) :
    net.Excuses rand action e := by
  obtain ⟨hsound, hcount⟩ := (Net.sound_start interface now).run hrun
  refine hsound.excuses ?_ he
  have hzero : (Net.start interface now).server.table.numOfLease = 0 := rfl
  omega

theorem link_safe_undrawn : ∃ (trace : List (Transition (Net Unit) (Action Unit) Unit)) (net : Net Unit),
    Execution (Net.step fun _ _ ↦ 0) (Net.start (fun _ ↦ ⟨clientA, 0⟩) 0) trace net ∧
      net.step (fun _ _ ↦ 0) (.serve 0 0 0) = .error (.fault .noReturn) ∧
      net.Excuses (fun _ _ ↦ 0) (.serve 0 0 0) .noReturn := by
  obtain ⟨trace, net, hrun, h⟩ := exists_execution (Net.step fun _ _ ↦ 0)
    (Net.start (fun _ : Unit ↦ ⟨clientA, 0⟩) 0)
    [.begin () (.command .discover) (quietHost 0 0)]
    (fun trace net ↦ trace.length = 1 ∧
      (match net.step (fun _ _ ↦ 0) (.serve 0 0 0) with
        | .error (.fault .noReturn) => true
        | _ => false) = true) (by decide +kernel)
  obtain ⟨hlength, hstep⟩ := of_decide_eq_true h
  have hfault : net.step (fun _ _ ↦ 0) (.serve 0 0 0) = .error (.fault .noReturn) := by
    split at hstep
    · assumption
    · cases hstep
  exact ⟨trace, net, hrun, hfault, link_safe hrun (by omega) hfault⟩

end InternetApplications.Dhcp
