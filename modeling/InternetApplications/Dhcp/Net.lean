import Mathlib.Data.Fintype.Basic
import InternetApplications.Dhcp.ClientProcess
import InternetApplications.Dhcp.Server

namespace InternetApplications.Dhcp

open ByteMemory TagScan Executions

structure Flight where
  sentAt : ℕ
  sent : Sent

/-- A client, its socket, and the datagrams under way to it. `since` is when the current call of
`recvfrom` began; `handling` tells that the handler of `SIGALRM` is running. The last two fields
record the address that `setup_interface` has put on the interface, and when the last `DHCPACK`
that set the timers was sent. -/
structure Node where
  client : Client
  phase : Phase
  since : ℕ
  handling : Bool
  inbound : List Flight
  queue : List Flight
  configured : Option UInt32
  lastAck : Option ℕ

/-- Clients and one server on a link. `replies` is all that the server has ever sent. -/
structure Net (ι : Type) where
  now : ℕ
  server : Server
  outbound : List Flight
  node : ι → Node
  replies : List Sent

/-- What can happen. Datagrams and requests to `ioctl` are at the mercy of the environment. -/
inductive Action (ι : Type)
  | wait (seconds : ℕ)
  | begin (i : ι) (trigger : Trigger) (host : Host)
  | receive (i : ι) (host : Host)
  | timeOut (i : ι)
  | arrive (i : ι) (k : ℕ)
  | lose (i : ι) (k : ℕ)
  | serve (k draws : ℕ) (stale : UInt32)
  | drop (k : ℕ)

def Stuck.lift {α : Type} : Except Fault α → Except Stuck α
  | .error f => .error (.fault f)
  | .ok a => .ok a

theorem Stuck.lift_ok {α : Type} {r : Except Fault α} {a : α} (h : Stuck.lift r = .ok a) :
    r = .ok a := by
  cases r with
  | error f => cases h
  | ok b => exact congrArg _ (Except.ok.inj h)

theorem Stuck.lift_error {α : Type} {r : Except Fault α} {e : Fault}
    (h : Stuck.lift r = .error (.fault e)) : r = .error e := by
  cases r with
  | ok a => cases h
  | error f =>
    cases h
    rfl

def Trigger.isAlarm : Trigger → Bool
  | .alarm => true
  | _ => false

def Host.seeded (rand : ℕ → ℕ → ℕ) (now : ℕ) (host : Host) : Host :=
  { host with now := now, rand := UInt32.ofNat (rand now 0) }

def Addressed (dest addr : UInt32) : Prop :=
  dest = inaddrBroadcast ∨ (dest = addr ∧ addr ≠ inaddrAny)

instance (dest addr : UInt32) : Decidable (Addressed dest addr) :=
  inferInstanceAs (Decidable (_ ∨ _))

namespace Node

def start (interface : Interface) (now : ℕ) : Node :=
  ⟨Client.dhcpSetup interface, .menu, now, false, [], [], none, none⟩

def pending (node : Node) : List Flight := node.inbound ++ node.queue

def RestsUntil (node : Node) (time : ℕ) : Prop :=
  !node.phase.isRediscover ∧
    (node.phase.isWaiting → time ≤ node.since + maxWaitTime) ∧
    (!node.handling → ∀ d ∈ node.client.deadline, time ≤ d)

instance (node : Node) (time : ℕ) : Decidable (node.RestsUntil time) :=
  inferInstanceAs (Decidable (_ ∧ _ ∧ _))

def adopt (node : Node) (now : ℕ) (handling : Bool) (p : Progress) : Node :=
  { node with
    client := p.client
    phase := p.phase
    since := now
    handling := handling && !p.phase.isMenu
    configured := p.configured.or node.configured }

/-- The alarm does not wait for the end of a `recvfrom` that is under way; that call then fails,
and the user's command ends. -/
def Ready (node : Node) (now : ℕ) : Trigger → Prop
  | .command _ => node.phase.isMenu
  | .alarm => !node.phase.isRediscover ∧ !node.handling ∧ ∃ d ∈ node.client.deadline, d ≤ now
  | .rediscover => node.phase.isRediscover

instance (node : Node) (now : ℕ) : (trigger : Trigger) → Decidable (node.Ready now trigger)
  | .command _ => inferInstanceAs (Decidable (_ = _))
  | .alarm => inferInstanceAs (Decidable (_ ∧ _ ∧ _))
  | .rediscover => inferInstanceAs (Decidable (_ = _))

def begin (node : Node) (host : Host) (trigger : Trigger) : Except Stuck (Node × List Sent) := do
  if node.Ready host.now trigger then
    let p ← Stuck.lift (node.client.begin host trigger)
    return (node.adopt host.now (trigger.isAlarm || node.handling) p, p.sent)
  else .error .disabled

def receive (node : Node) (host : Host) : Except Stuck (Node × List Sent) :=
  match node.queue with
  | [] => .error .disabled
  | f :: rest => do
    if node.phase.isWaiting then
      let p ← Stuck.lift (node.client.resume ⟨host, f.sent.payload⟩ node.phase)
      let lastAck := if !p.accepted.isEmpty ∧ f.sent.messageType = some dhcpack then some f.sentAt
        else node.lastAck
      return ({ node.adopt host.now node.handling p with queue := rest, lastAck := lastAck }, p.sent)
    else .error .disabled

def timeOut (node : Node) (now : ℕ) : Except Stuck Node :=
  if node.phase.isWaiting ∧ node.queue.isEmpty ∧ node.since + maxWaitTime ≤ now then
    .ok (node.adopt now false node.client.atMenu)
  else .error .disabled

def lose (node : Node) (k : ℕ) : Node := { node with inbound := node.inbound.eraseIdx k }

/-- A datagram for another address goes no further. -/
def arrive (node : Node) (k : ℕ) : Except Stuck Node :=
  match node.inbound[k]? with
  | none => .error .disabled
  | some f =>
    if Addressed f.sent.dest node.client.interface.addr then
      .ok { node.lose k with queue := node.queue ++ [f] }
    else .ok (node.lose k)

def expect (node : Node) (flights : List Flight) : Node :=
  { node with inbound := node.inbound ++ flights }

end Node

namespace Net

variable {ι : Type}

def start (interface : ι → Interface) (now : ℕ) : Net ι where
  now := now
  server := dhcpSetup
  outbound := []
  node := fun i ↦ Node.start (interface i) now
  replies := []

def put [DecidableEq ι] (net : Net ι) (i : ι) (node : Node) : Net ι :=
  { net with node := Function.update net.node i node }

def send (net : Net ι) (sent : List Sent) : Net ι :=
  { net with outbound := net.outbound ++ sent.map (Flight.mk net.now) }

def drop (net : Net ι) (k : ℕ) : Net ι := { net with outbound := net.outbound.eraseIdx k }

def reply (net : Net ι) (server : Server) (out : List Sent) : Net ι :=
  { net with
    server := server
    node := fun i ↦ (net.node i).expect (out.map (Flight.mk net.now))
    replies := net.replies ++ out }

def serve (rand : ℕ → ℕ → ℕ) (net : Net ι) (k draws : ℕ) (stale : UInt32) :
    Except Stuck (Net ι) :=
  match net.outbound[k]? with
  | none => .error .disabled
  | some f => do
    if Addressed f.sent.dest dhcpServerIpAddress then
      let env : Env := ⟨net.now, (List.range draws).map (rand net.now), stale⟩
      let (server, out) ← Stuck.lift (mainLoop net.server ⟨env, f.sent.payload⟩)
      return (net.drop k).reply server out.toList
    else .error .disabled

def step [DecidableEq ι] [Fintype ι] (rand : ℕ → ℕ → ℕ) (net : Net ι) :
    Action ι → Except Stuck (Net ι × Unit)
  | .wait seconds =>
    if ∀ i, (net.node i).RestsUntil (net.now + seconds) then
      .ok ({ net with now := net.now + seconds }, ())
    else .error .disabled
  | .begin i trigger host => do
    let (node, sent) ← (net.node i).begin (host.seeded rand net.now) trigger
    return ((net.put i node).send sent, ())
  | .receive i host => do
    let (node, sent) ← (net.node i).receive (host.seeded rand net.now)
    return ((net.put i node).send sent, ())
  | .timeOut i => do
    let node ← (net.node i).timeOut net.now
    return (net.put i node, ())
  | .arrive i k => do
    let node ← (net.node i).arrive k
    return (net.put i node, ())
  | .lose i k => return (net.put i ((net.node i).lose k), ())
  | .serve k draws stale => do
    let net ← net.serve rand k draws stale
    return (net, ())
  | .drop k => return (net.drop k, ())

end Net

end InternetApplications.Dhcp
