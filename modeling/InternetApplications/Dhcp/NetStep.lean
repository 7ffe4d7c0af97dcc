import Mathlib.Data.List.Perm.Basic
import Mathlib.Data.List.Perm.Subperm
import InternetApplications.Dhcp.Net
import InternetApplications.Dhcp.ProcessStep

namespace InternetApplications.Dhcp

open ByteMemory TagScan Executions

/-- Datagrams have been lost or have come closer, or a wait has ended; no program has done anything. -/
structure Node.Wanes (node node' : Node) : Prop where
  client : node'.client = node.client
  phase : node'.phase = node.phase ∨ node'.phase = .menu
  pending : node'.pending.Subperm node.pending
  configured : node'.configured = node.configured
  lastAck : node'.lastAck = node.lastAck

structure Net.Wanes {ι : Type} (net net' : Net ι) : Prop where
  now : net.now ≤ net'.now
  server : net'.server = net.server
  replies : net'.replies = net.replies
  outbound : net'.outbound.Sublist net.outbound
  node : ∀ i, (net.node i).Wanes (net'.node i)

namespace Node

variable {node node' : Node} {k now : ℕ}

theorem Wanes.refl (node : Node) : node.Wanes node := ⟨rfl, .inl rfl, .refl _, rfl, rfl⟩

theorem lose_wanes (node : Node) (k : ℕ) : node.Wanes (node.lose k) := by
  refine ⟨rfl, .inl rfl, ?_, rfl, rfl⟩
  exact ((List.eraseIdx_sublist node.inbound k).append_right node.queue).subperm

theorem arrive_wanes (h : node.arrive k = .ok node') : node.Wanes node' := by
  rw [arrive] at h
  split at h
  · cases h
  · rename_i f hf
    obtain ⟨hk, hget⟩ := List.getElem?_eq_some_iff.mp hf
    split at h
    · cases h
      refine ⟨rfl, .inl rfl, ?_, rfl, rfl⟩
      have hperm := List.getElem_cons_eraseIdx_perm hk
      rw [hget] at hperm
      have hmoved : (node.inbound.eraseIdx k ++ (node.queue ++ [f])).Perm
          (f :: node.inbound.eraseIdx k ++ node.queue) := by
        rw [← List.append_assoc]
        exact List.perm_append_singleton f _
      exact (hmoved.trans (hperm.append_right node.queue)).subperm
    · cases h
      exact lose_wanes node k

theorem timeOut_wanes (h : node.timeOut now = .ok node') : node.Wanes node' := by
  rw [timeOut] at h
  split at h
  · cases h
    exact ⟨rfl, .inr rfl, .refl _, Option.none_or, rfl⟩
  · cases h

theorem begin_ok {host : Host} {trigger : Trigger} {sent : List Sent}
    (h : node.begin host trigger = .ok (node', sent)) : node.Ready host.now trigger ∧
      ∃ p, node.client.begin host trigger = .ok p ∧
        node' = node.adopt host.now (trigger.isAlarm || node.handling) p ∧ sent = p.sent := by
  rw [begin] at h
  split at h
  · rename_i hready
    obtain ⟨p, hp, h⟩ := bind_eq_ok.mp h
    cases h
    exact ⟨hready, p, Stuck.lift_ok hp, rfl, rfl⟩
  · cases h

def took (node : Node) (now : ℕ) (f : Flight) (rest : List Flight) (p : Progress) : Node :=
  { node.adopt now node.handling p with
    queue := rest
    lastAck := if !p.accepted.isEmpty ∧ f.sent.messageType = some dhcpack then some f.sentAt
      else node.lastAck }

theorem receive_ok {host : Host} {sent : List Sent} (h : node.receive host = .ok (node', sent)) :
    ∃ f rest p, node.queue = f :: rest ∧ node.phase.isWaiting ∧
      node.client.resume ⟨host, f.sent.payload⟩ node.phase = .ok p ∧
      node' = node.took host.now f rest p ∧ sent = p.sent := by
  rw [receive] at h
  split at h
  · cases h
  · rename_i f rest hqueue
    split at h
    · rename_i hwaiting
      obtain ⟨p, hp, h⟩ := bind_eq_ok.mp h
      cases h
      exact ⟨f, rest, p, hqueue, hwaiting, Stuck.lift_ok hp, rfl, rfl⟩
    · cases h

end Node

namespace Net

variable {ι : Type} {rand : ℕ → ℕ → ℕ} {net net' : Net ι}

theorem serve_ok {k draws : ℕ} {stale : UInt32} (h : net.serve rand k draws stale = .ok net') :
    ∃ f server out, net.outbound[k]? = some f ∧
      mainLoop net.server
        ⟨⟨net.now, (List.range draws).map (rand net.now), stale⟩, f.sent.payload⟩ =
          .ok (server, out) ∧
      net' = (net.drop k).reply server out.toList := by
  rw [serve] at h
  split at h
  · cases h
  · rename_i f hf
    split at h
    · obtain ⟨⟨server, out⟩, hp, h⟩ := bind_eq_ok.mp h
      cases h
      exact ⟨f, server, out, hf, Stuck.lift_ok hp, rfl⟩
    · cases h

variable [DecidableEq ι]

@[simp] theorem put_self (net : Net ι) (i : ι) (node : Node) : (net.put i node).node i = node := by
  simp only [put, Function.update_self]

@[simp] theorem put_of_ne {i j : ι} (h : j ≠ i) (net : Net ι) (node : Node) :
    (net.put i node).node j = net.node j := by
  simp only [put, Function.update_of_ne h]

inductive Moved (rand : ℕ → ℕ → ℕ) (net : Net ι) : Action ι → Net ι → Prop
  | wanes {action : Action ι} {net' : Net ι} : net.Wanes net' → Moved rand net action net'
  | begins {i : ι} {trigger : Trigger} {host : Host} {handling : Bool} {p : Progress} :
      (net.node i).client.begin (host.seeded rand net.now) trigger = .ok p →
      Moved rand net (.begin i trigger host)
        ((net.put i ((net.node i).adopt net.now handling p)).send p.sent)
  | receives {i : ι} {host : Host} {f : Flight} {rest : List Flight} {p : Progress} :
      (net.node i).queue = f :: rest →
      Resumed (net.node i).client ⟨host.seeded rand net.now, f.sent.payload⟩ (net.node i).phase p →
      Moved rand net (.receive i host)
        ((net.put i ((net.node i).took net.now f rest p)).send p.sent)
  | serves {k draws : ℕ} {stale : UInt32} {f : Flight} {server : Server} {out : Option Sent} :
      net.outbound[k]? = some f →
      mainLoop net.server ⟨⟨net.now, (List.range draws).map (rand net.now), stale⟩, f.sent.payload⟩ =
        .ok (server, out) →
      Moved rand net (.serve k draws stale) ((net.drop k).reply server out.toList)

theorem put_wanes {i : ι} {node : Node} (h : (net.node i).Wanes node) :
    net.Wanes (net.put i node) := by
  refine ⟨le_rfl, rfl, rfl, .refl _, ?_⟩
  intro j
  by_cases hj : j = i
  · rw [hj, put_self]
    exact h
  · rw [put_of_ne hj]
    exact .refl _

theorem step_moved [Fintype ι] {action : Action ι} {u : Unit} (h : net.step rand action = .ok (net', u)) :
    Moved rand net action net' := by
  cases action with
  | wait seconds =>
    rw [step] at h
    split at h
    · cases h
      exact .wanes ⟨Nat.le_add_right _ _, rfl, rfl, .refl _, fun i ↦ .refl _⟩
    · cases h
  | begin i trigger host =>
    obtain ⟨⟨node, sent⟩, hbegin, h⟩ := bind_eq_ok.mp h
    cases h
    obtain ⟨-, p, hp, rfl, rfl⟩ := Node.begin_ok hbegin
    exact .begins hp
  | receive i host =>
    obtain ⟨⟨node, sent⟩, hreceive, h⟩ := bind_eq_ok.mp h
    cases h
    obtain ⟨f, rest, p, hqueue, hwaiting, hp, rfl, rfl⟩ := Node.receive_ok hreceive
    exact .receives hqueue (Client.resume_ok hwaiting hp)
  | timeOut i =>
    obtain ⟨node, htime, h⟩ := bind_eq_ok.mp h
    cases h
    exact .wanes (put_wanes (Node.timeOut_wanes htime))
  | arrive i k =>
    obtain ⟨node, harrive, h⟩ := bind_eq_ok.mp h
    cases h
    exact .wanes (put_wanes (Node.arrive_wanes harrive))
  | lose i k =>
    cases h
    exact .wanes (put_wanes (Node.lose_wanes _ k))
  | serve k draws stale =>
    obtain ⟨net₁, hserve, h⟩ := bind_eq_ok.mp h
    cases h
    obtain ⟨f, server, out, hf, hserved, rfl⟩ := serve_ok hserve
    exact .serves hf hserved
  | drop k =>
    cases h
    exact .wanes ⟨le_rfl, rfl, rfl, List.eraseIdx_sublist _ _, fun i ↦ .refl _⟩

end Net

end InternetApplications.Dhcp
