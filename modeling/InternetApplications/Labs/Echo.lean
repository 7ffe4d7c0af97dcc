import Mathlib.Logic.Function.Basic
import InternetApplications.FileTransfer.Programs
import InternetApplications.Library.ByteOrder

namespace InternetApplications.Labs

open ByteMemory Executions
open FileTransfer (Fault)

def echoMax : ℕ := 255

def udpMax : ℕ := 65507

structure Word where
  bytes : List UInt8
  noZero : 0 ∉ bytes

structure Datagram where
  addr : UInt32
  port : UInt16
  payload : List UInt8

inductive Line
  | echoWordTooLong
  | sentDifferentNumber
  | sendingData
  | received (addr : UInt32) (port : ℕ) (text : List UInt8)

structure EchoClient where
  addr : UInt32
  port : UInt16
  words : List Word

/-- One pass of the client's loop: whether `sendto` takes the word or not, it is the next one's
turn. -/
def EchoClient.say (c : EchoClient) (w : Word) (taken : Bool) : List Datagram × List Line :=
  let warning := if echoMax < w.bytes.length then [Line.echoWordTooLong] else []
  if taken then ([⟨c.addr, c.port, w.bytes⟩], warning ++ [.sendingData])
  else ([], warning ++ [.sentDifferentNumber, .sendingData])

/-- One pass of the server's loop; `none` is a `recvfrom` that returns -1. The port is printed as
it stands in memory. -/
def echoPass (o : ByteOrder) (echoBuffer : Memory) : Option Datagram → Except Fault (Memory × Line)
  | none => .error .outOfBounds
  | some d =>
    let received := d.payload.take echoMax
    if received.length < echoMax then
      let echoBuffer := write (write echoBuffer 0 received) received.length [0]
      match stringEnd echoBuffer echoMax with
      | some n => .ok (echoBuffer, .received d.addr (o.turn d.port.toNat) (read echoBuffer 0 n))
      | none => .error .outOfBounds
    else .error .outOfBounds

structure EchoNet (ι : Type) where
  client : ι → EchoClient
  flying : List Datagram
  echoBuffer : Memory

/-- Datagrams may be lost, overtake each other and arrive more than once. -/
inductive EchoAction (ι : Type)
  | send (i : ι) (taken : Bool)
  | serve (k : ℕ)
  | lose (k : ℕ)
  | fail

inductive Stop
  | disabled
  | fault (f : Fault)

namespace EchoNet

variable {ι : Type} [DecidableEq ι]

def start (clients : ι → EchoClient) (echoBuffer : Memory) : EchoNet ι := ⟨clients, [], echoBuffer⟩

def receive (o : ByteOrder) (s : EchoNet ι) (d : Option Datagram) :
    Except Stop (EchoNet ι × List Line) :=
  match echoPass o s.echoBuffer d with
  | .error f => .error (.fault f)
  | .ok (echoBuffer, line) => .ok ({ s with echoBuffer := echoBuffer }, [line])

def step (o : ByteOrder) (s : EchoNet ι) : EchoAction ι → Except Stop (EchoNet ι × List Line)
  | .send i taken =>
    match (s.client i).words with
    | [] => .error .disabled
    | w :: words =>
      if taken → w.bytes.length ≤ udpMax then
        let (datagrams, lines) := (s.client i).say w taken
        .ok ({ s with
          client := Function.update s.client i { s.client i with words := words }
          flying := s.flying ++ datagrams }, lines)
      else .error .disabled
  | .serve k =>
    match s.flying[k]? with
    | none => .error .disabled
    | some d => s.receive o (some d)
  | .lose k => .ok ({ s with flying := s.flying.eraseIdx k }, [])
  | .fail => s.receive o none

end EchoNet

section Pass

variable {o : ByteOrder} {echoBuffer : Memory} {addr : UInt32} {port : UInt16}

/-- A word that leaves room for the zero byte is printed as it was sent. -/
theorem echoPass_of_lt {w : Word} (h : w.bytes.length < echoMax) :
    ∃ echoBuffer', echoPass o echoBuffer (some ⟨addr, port, w.bytes⟩) =
      .ok (echoBuffer', .received addr (o.turn port.toNat) w.bytes) := by
  obtain ⟨buffer, hbuffer⟩ : ∃ buffer, buffer = write (write echoBuffer 0 w.bytes) w.bytes.length [0] :=
    ⟨_, rfl⟩
  have hword : Holds buffer 0 w.bytes := by
    rw [hbuffer]
    exact holds_write.write (.inl (by omega))
  have hzero : buffer w.bytes.length = 0 := by
    have hwritten : write (write echoBuffer 0 w.bytes) w.bytes.length [0] (w.bytes.length + 0) = 0 :=
      write_at (by simp)
    rw [hbuffer]
    exact hwritten
  have hend := hword.stringEnd hzero w.noZero h
  refine ⟨buffer, ?_⟩
  rw [echoPass, List.take_of_length_le (Nat.le_of_lt h)]
  simp only [if_pos h, ← hbuffer, hend, hword.read]

/-- A longer one makes the server write behind its array. -/
theorem echoPass_of_ge {payload : List UInt8} (h : echoMax ≤ payload.length) :
    echoPass o echoBuffer (some ⟨addr, port, payload⟩) = .error .outOfBounds := by
  rw [echoPass]
  simp only [List.length_take, Nat.min_eq_left h, Nat.lt_irrefl, if_false]

end Pass

section Runs

variable {ι : Type} {o : ByteOrder} {clients : ι → EchoClient} {s s' : EchoNet ι}
  {lines : List Line}

def Says (clients : ι → EchoClient) (d : Datagram) : Prop :=
  ∃ i, ∃ w ∈ (clients i).words, w.bytes.length ≤ udpMax ∧
    d = ⟨(clients i).addr, (clients i).port, w.bytes⟩

def Line.Tells (o : ByteOrder) (clients : ι → EchoClient) : Line → Prop
  | .received addr port text => ∃ i, ∃ w ∈ (clients i).words,
    addr = (clients i).addr ∧ port = o.turn (clients i).port.toNat ∧ text = w.bytes
  | _ => True

structure Honest (clients : ι → EchoClient) (s : EchoNet ι) : Prop where
  addr : ∀ i, (s.client i).addr = (clients i).addr
  port : ∀ i, (s.client i).port = (clients i).port
  words : ∀ i, (s.client i).words ⊆ (clients i).words
  flying : ∀ d ∈ s.flying, Says clients d

theorem honest_start (clients : ι → EchoClient) (echoBuffer : Memory) :
    Honest clients (EchoNet.start clients echoBuffer) :=
  ⟨fun _ ↦ rfl, fun _ ↦ rfl, fun _ ↦ List.Subset.refl _, fun d hd ↦ by cases hd⟩

theorem receive_says {d : Datagram} (h : Says clients d) :
    (d.payload.length < echoMax ∧ ∃ echoBuffer line, Line.Tells o clients line ∧
      s.receive o (some d) = .ok ({ s with echoBuffer := echoBuffer }, [line])) ∨
    (echoMax ≤ d.payload.length ∧ s.receive o (some d) = .error (.fault .outOfBounds)) := by
  obtain ⟨i, w, hw, -, rfl⟩ := h
  rcases Nat.lt_or_ge w.bytes.length echoMax with hlt | hge
  · obtain ⟨echoBuffer, hpass⟩ : ∃ echoBuffer, echoPass o s.echoBuffer
        (some ⟨(clients i).addr, (clients i).port, w.bytes⟩) = .ok (echoBuffer, _) :=
      echoPass_of_lt hlt
    refine .inl ⟨hlt, echoBuffer, .received (clients i).addr (o.turn (clients i).port.toNat) w.bytes,
      ⟨i, w, hw, rfl, rfl, rfl⟩, ?_⟩
    rw [EchoNet.receive, hpass]
  · refine .inr ⟨hge, ?_⟩
    rw [EchoNet.receive, echoPass_of_ge hge]

theorem say_tells {c : EchoClient} {w : Word} {taken : Bool} :
    ∀ line ∈ (c.say w taken).2, Line.Tells o clients line := by
  intro line hl
  cases line with
  | received addr port text =>
    rw [EchoClient.say] at hl
    split at hl <;> split at hl <;> simp at hl
  | _ => trivial

variable [DecidableEq ι]

theorem send_ok {i : ι} {taken : Bool} (h : s.step o (.send i taken) = .ok (s', lines)) :
    ∃ w words, (s.client i).words = w :: words ∧ (taken → w.bytes.length ≤ udpMax) ∧
      s' = { s with
        client := Function.update s.client i { s.client i with words := words }
        flying := s.flying ++ ((s.client i).say w taken).1 } ∧
      lines = ((s.client i).say w taken).2 := by
  rw [EchoNet.step] at h
  split at h
  · cases h
  · rename_i w words hwords
    split at h
    · rename_i hfits
      cases h
      exact ⟨w, words, hwords, hfits, rfl, rfl⟩
    · cases h

theorem Honest.send (h : Honest clients s) {i : ι} {taken : Bool}
    (hstep : s.step o (.send i taken) = .ok (s', lines)) : Honest clients s' := by
  obtain ⟨w, words, hwords, hfits, rfl, -⟩ := send_ok hstep
  have hmem : (s.client i).words ⊆ (clients i).words := h.words i
  rw [hwords] at hmem
  refine ⟨fun j ↦ ?_, fun j ↦ ?_, fun j ↦ ?_, ?_⟩
  · rcases eq_or_ne j i with rfl | hne
    · simpa using h.addr j
    · simpa [hne] using h.addr j
  · rcases eq_or_ne j i with rfl | hne
    · simpa using h.port j
    · simpa [hne] using h.port j
  · rcases eq_or_ne j i with rfl | hne
    · simpa using List.subset_of_cons_subset hmem
    · simpa [hne] using h.words j
  · intro d hd
    rcases List.mem_append.mp hd with hd | hd
    · exact h.flying d hd
    · cases taken with
      | false => cases hd
      | true =>
        obtain rfl : d = ⟨(s.client i).addr, (s.client i).port, w.bytes⟩ := List.mem_singleton.mp hd
        rw [h.addr, h.port]
        exact ⟨i, w, hmem List.mem_cons_self, hfits rfl, rfl⟩

/-- No step of the programs makes them dishonest, and what the server prints is true. -/
theorem Honest.step (h : Honest clients s) {action : EchoAction ι}
    (hstep : s.step o action = .ok (s', lines)) :
    Honest clients s' ∧ ∀ line ∈ lines, Line.Tells o clients line := by
  cases action with
  | send i taken =>
    obtain ⟨w, words, -, -, -, rfl⟩ := send_ok hstep
    exact ⟨h.send hstep, say_tells⟩
  | serve k =>
    rw [EchoNet.step] at hstep
    split at hstep
    · cases hstep
    · rename_i d hd
      obtain ⟨-, echoBuffer, line, htells, hreceive⟩ | ⟨-, hreceive⟩ :=
        receive_says (o := o) (s := s) (h.flying d (List.mem_of_getElem? hd))
      · cases hstep.symm.trans hreceive
        exact ⟨⟨h.addr, h.port, h.words, h.flying⟩, by simpa using htells⟩
      · cases hstep.symm.trans hreceive
  | lose k =>
    cases hstep
    exact ⟨⟨h.addr, h.port, h.words, fun d hd ↦ h.flying d (List.mem_of_mem_eraseIdx hd)⟩, by simp⟩
  | fail => cases hstep

theorem exists_sent {i : ι} {before after : List Word} {w : Word}
    (hwords : (s.client i).words = before ++ w :: after) (hfits : w.bytes.length ≤ udpMax) :
    ∃ trace s', Execution (EchoNet.step o) s trace s' ∧
      ∃ d ∈ s'.flying, d.payload = w.bytes := by
  induction before generalizing s with
  | nil =>
    obtain ⟨t, hstep, hsent⟩ : ∃ t, s.step o (.send i true) = .ok (t, ((s.client i).say w true).2) ∧
        ⟨(s.client i).addr, (s.client i).port, w.bytes⟩ ∈ t.flying := by
      refine ⟨{ s with
        client := Function.update s.client i { s.client i with words := after }
        flying := s.flying ++ [⟨(s.client i).addr, (s.client i).port, w.bytes⟩] }, ?_, by simp⟩
      simp only [EchoNet.step, hwords, List.nil_append, hfits, implies_true, if_true]
      rfl
    exact ⟨_, t, .one hstep, _, hsent, rfl⟩
  | cons other before ih =>
    obtain ⟨t, hstep, hrest⟩ : ∃ t, s.step o (.send i false) = .ok (t, ((s.client i).say other false).2) ∧
        (t.client i).words = before ++ w :: after := by
      refine ⟨{ s with
        client := Function.update s.client i { s.client i with words := before ++ w :: after }
        flying := s.flying ++ [] }, ?_, by simp⟩
      simp only [EchoNet.step, hwords, List.cons_append]
      rfl
    obtain ⟨trace, s', hrun, hsent⟩ := ih hrest
    exact ⟨_, s', .cons hstep hrun, hsent⟩

/-- However datagrams get lost, overtake each other and repeat, no pass of the server is without a
defined result exactly when no word that `sendto` takes has 255 bytes or more; a word of 255 bytes
draws no warning. The server only prints what its clients have sent, and the port as it stands in
memory. -/
theorem echo_safe_iff (o : ByteOrder) (clients : ι → EchoClient) (echoBuffer : Memory) :
    ((∀ trace s, Execution (EchoNet.step o) (EchoNet.start clients echoBuffer) trace s →
      ∀ k f, s.step o (.serve k) ≠ .error (.fault f)) ↔
        ∀ i, ∀ w ∈ (clients i).words, w.bytes.length < echoMax ∨ udpMax < w.bytes.length) ∧
    ∀ trace s, Execution (EchoNet.step o) (EchoNet.start clients echoBuffer) trace s →
      ∀ e ∈ trace, ∀ line ∈ e.output, Line.Tells o clients line := by
  have hhonest {trace : List (Transition (EchoNet ι) (EchoAction ι) (List Line))} {s : EchoNet ι}
      (hrun : Execution (EchoNet.step o) (EchoNet.start clients echoBuffer) trace s) :
      Honest clients s ∧ ∀ e ∈ trace, Honest clients e.before ∧ Honest clients e.after :=
    hrun.invariant (A := fun _ ↦ True) (fun e hstep _ h ↦ (h.step hstep).1) (fun _ _ ↦ trivial)
      (honest_start clients echoBuffer)
  refine ⟨⟨?_, ?_⟩, ?_⟩
  · intro hsafe i w hw
    by_contra hlong
    rw [not_or, Nat.not_lt, Nat.not_lt] at hlong
    obtain ⟨before, after, hwords⟩ := List.append_of_mem hw
    obtain ⟨trace, s, hrun, d, hd, hpayload⟩ :=
      exists_sent (o := o) (s := EchoNet.start clients echoBuffer) hwords hlong.2
    obtain ⟨k, hk⟩ := List.getElem?_of_mem hd
    refine hsafe trace s hrun k .outOfBounds ?_
    simp only [EchoNet.step, hk]
    obtain ⟨hlt, -⟩ | ⟨-, hreceive⟩ := receive_says (o := o) (s := s) ((hhonest hrun).1.flying d hd)
    · rw [hpayload] at hlt
      omega
    · exact hreceive
  · intro hwords trace s hrun k f hfault
    rw [EchoNet.step] at hfault
    split at hfault
    · cases hfault
    · rename_i d hd
      have hsays := (hhonest hrun).1.flying d (List.mem_of_getElem? hd)
      obtain ⟨-, echoBuffer', line, -, hreceive⟩ | ⟨hge, -⟩ :=
        receive_says (o := o) (s := s) hsays
      · cases hfault.symm.trans hreceive
      · obtain ⟨i, w, hw, hfits, rfl⟩ := hsays
        rcases hwords i w hw with hlt | hlong
        · exact absurd hge (Nat.not_le.mpr hlt)
        · exact absurd hfits (Nat.not_le.mpr hlong)
  · intro trace s hrun e he
    exact (((hhonest hrun).2 e he).1.step (hrun.step_eq he)).2

end Runs

end InternetApplications.Labs
