import InternetApplications.Dhcp.ClientLease
import InternetApplications.Dhcp.LinkSafety
import InternetApplications.Library.HeldInput

namespace InternetApplications.Dhcp

open ByteMemory Executions HeldInput

def sizeofInput : ℕ := 1024

inductive Choice
  | command (command : Command)
  | exit
  | wrong
deriving DecidableEq

def choice (input : UInt8) : Choice :=
  if input = 49 then .command .discover
  else if input = 50 then .command .release
  else if input = 51 then .command .inform
  else if input = 52 then .command .renew
  else if input = 53 then .command .rebind
  else if input = 48 then .exit
  else .wrong

structure Menu where
  session : Session
  input : Memory
  stdin : List (List UInt8)
  returned : Bool

/-- At the end of the input, `gets` leaves the array as it is. It does not know how long the array
is. -/
def gets (input : Memory) : List (List UInt8) → Except Fault (Memory × List (List UInt8))
  | [] => .ok (input, [])
  | line :: stdin =>
    if line.length < sizeofInput then
      .ok (write (write input 0 line) line.length [0], stdin)
    else .error .outOfBounds

/-- A line is read and its command is carried out, or time goes by, or the alarm interrupts the
wait. -/
inductive MenuEvent
  | line (host : Host) (deliveries : List Delivery)
  | wait (seconds : ℕ)
  | alarm (host : Host) (deliveries : List Delivery)

namespace Menu

def pass (s : Menu) (happening : Happening) : Except Stuck Menu := do
  let (session, _) ← s.session.step happening
  return { s with session := session }

def step (s : Menu) (event : MenuEvent) : Except Stuck (Menu × Option Choice) :=
  if s.returned then .error .disabled
  else
    match event with
    | .wait seconds => do
      let s ← s.pass (.wait seconds)
      return (s, none)
    | .alarm host deliveries => do
      let s ← s.pass (.alarm host deliveries)
      return (s, none)
    | .line host deliveries => do
      let (input, stdin) ← Stuck.lift (gets s.input s.stdin)
      let s := { s with input := input, stdin := stdin }
      match choice (input 0) with
      | .command command =>
        let s ← s.pass (.menu command host deliveries)
        return (s, some (.command command))
      | .exit => return ({ s with returned := true }, some .exit)
      | .wrong => return (s, some .wrong)

def opened (session : Session) (input : Memory) (stdin : List (List UInt8)) : Menu :=
  ⟨session, input, stdin, false⟩

end Menu

def first (line : List UInt8) : UInt8 := line.headD 0

def Choice.commands : Choice → List Command
  | .command chosen => [chosen]
  | .exit | .wrong => []

def Happening.commands : Happening → List Command
  | .menu command _ _ => [command]
  | .wait _ | .alarm _ _ => []

def choices (trace : List (Transition Menu MenuEvent (Option Choice))) : List Choice :=
  trace.flatMap fun e ↦ e.output.toList

def told {α : Type} (trace : List (Transition Session Happening α)) : List Command :=
  trace.flatMap fun e ↦ e.input.commands

def Passed (lines : List (List UInt8)) : Prop :=
  ∀ line ∈ lines, line.length < sizeofInput ∧ choice (first line) ≠ .exit

namespace Menu

def held (s : Menu) : Held UInt8 := ⟨s.input 0, s.stdin.map first⟩

/-- The input has a line for the end, or it has no line at all and the array starts like one. -/
def Returns (s : Menu) : Prop :=
  s.stdin = [] ∧ choice (s.input 0) = .exit ∨
    ∃ pre line post, s.stdin = pre ++ line :: post ∧ Passed pre ∧ line.length < sizeofInput ∧
      choice (first line) = .exit

def Overruns (s : Menu) : Prop :=
  ∃ pre line post, s.stdin = pre ++ line :: post ∧ Passed pre ∧ sizeofInput ≤ line.length

inductive Stepped (s s' : Menu) : Option Choice → Prop
  | idles {happening : Happening} {acks : List (ℕ × DhcpT)} :
      s.session.step happening = .ok (s'.session, acks) → happening.commands = [] →
      s'.input = s.input → s'.stdin = s.stdin → s'.returned = false → Stepped s s' none
  | reads {ch : Choice} {trace : List (Transition Session Happening (List (ℕ × DhcpT)))} :
      gets s.input s.stdin = .ok (s'.input, s'.stdin) → choice (s'.input 0) = ch →
      Execution Session.step s.session trace s'.session → told trace = ch.commands →
      s'.returned = decide (ch = .exit) → Stepped s s' (some ch)

end Menu

section Steps

variable {s s' : Menu} {event : MenuEvent} {out : Option Choice} {input input' : Memory}
  {stdin stdin' : List (List UInt8)} {trace : List (Transition Menu MenuEvent (Option Choice))}

/-- What stands first in the array is what stands first in the line, or the byte after it. -/
theorem line_first (input : Memory) (line : List UInt8) :
    write (write input 0 line) line.length [0] 0 = first line := by
  cases line with
  | nil => rfl
  | cons b line =>
    have hkept : write (write input 0 (b :: line)) (b :: line).length [0] 0 =
      write input 0 (b :: line) 0 := write_before (by simp)
    exact hkept

theorem gets_cases (h : gets input stdin = .ok (input', stdin')) :
    stdin = [] ∧ input' = input ∧ stdin' = [] ∨
      ∃ line, stdin = line :: stdin' ∧ line.length < sizeofInput ∧ input' 0 = first line := by
  cases stdin with
  | nil =>
    cases h
    exact .inl ⟨rfl, rfl, rfl⟩
  | cons line stdin =>
    rw [gets] at h
    split at h
    · rename_i hline
      cases h
      exact .inr ⟨line, rfl, hline, line_first input line⟩
    · cases h

namespace Menu

theorem pass_ok {happening : Happening} (h : s.pass happening = .ok s') :
    ∃ session acks, s.session.step happening = .ok (session, acks) ∧
      s' = { s with session := session } := by
  obtain ⟨⟨session, acks⟩, hstep, hs⟩ := bind_eq_ok.mp h
  cases hs
  exact ⟨session, acks, hstep, rfl⟩

theorem step_stepped (h : s.step event = .ok (s', out)) :
    s.returned = false ∧ Stepped s s' out := by
  unfold step at h
  split at h
  · cases h
  · rename_i hreturned
    have hgoing : s.returned = false := by simpa using hreturned
    refine ⟨hgoing, ?_⟩
    cases event with
    | wait seconds =>
      obtain ⟨t, hpass, ht⟩ := bind_eq_ok.mp h
      cases ht
      obtain ⟨session, acks, hstep, rfl⟩ := pass_ok hpass
      exact .idles hstep rfl rfl rfl hgoing
    | alarm host deliveries =>
      obtain ⟨t, hpass, ht⟩ := bind_eq_ok.mp h
      cases ht
      obtain ⟨session, acks, hstep, rfl⟩ := pass_ok hpass
      exact .idles hstep rfl rfl rfl hgoing
    | line host deliveries =>
      obtain ⟨⟨input, stdin⟩, hlift, hchosen⟩ := bind_eq_ok.mp h
      have hgets : gets s.input s.stdin = .ok (input, stdin) := Stuck.lift_ok hlift
      simp only at hchosen
      split at hchosen
      · rename_i command hch
        obtain ⟨t, hpass, ht⟩ := bind_eq_ok.mp hchosen
        cases ht
        obtain ⟨session, acks, hstep, rfl⟩ := pass_ok hpass
        exact .reads hgets hch (.one hstep) rfl hgoing
      · rename_i hch
        cases hchosen
        exact .reads hgets hch (.nil _) rfl rfl
      · rename_i hch
        cases hchosen
        exact .reads hgets hch (.nil _) rfl hgoing

theorem Stepped.held (h : Stepped s s' out) :
    out = none ∧ s'.held = s.held ∨
      out = some (choice s.held.next.item) ∧ s'.held = s.held.next := by
  cases h with
  | idles _ _ hinput hstdin _ => exact .inl ⟨rfl, by rw [Menu.held, hinput, hstdin, Menu.held]⟩
  | reads hgets hch _ _ _ =>
    have hheld : s'.held = s.held.next := by
      rcases gets_cases hgets with ⟨hstdin, hinput, hrest⟩ | ⟨line, hstdin, -, hfirst⟩
      · simp [Menu.held, Held.next, hstdin, hinput, hrest]
      · simp [Menu.held, Held.next, hstdin, hfirst]
    have hitem : s'.input 0 = s.held.next.item := congrArg Held.item hheld
    exact .inr ⟨by rw [← hch, hitem], hheld⟩

/-- The choices are those by what the reads find. -/
theorem run_chooses (hrun : Execution step s trace s') :
    choices trace = (s.held.items (choices trace).length).map choice := by
  induction hrun with
  | nil => rfl
  | @cons s t u event out trace hstep _ ih =>
    have hcons : choices (⟨s, event, out, t⟩ :: trace) = out.toList ++ choices trace := rfl
    rcases (step_stepped hstep).2.held with ⟨rfl, hheld⟩ | ⟨rfl, hheld⟩
    · rw [hheld] at ih
      exact ih
    · rw [hheld] at ih
      rw [hcons, Option.toList_some, List.singleton_append, List.length_cons, Held.items,
        List.map_cons, ← ih]

/-- The interactive client does what the menu chooses. -/
theorem Stepped.follows (h : Stepped s s' out) :
    ∃ trace, Execution Session.step s.session trace s'.session ∧
      told trace = out.toList.flatMap Choice.commands := by
  cases h with
  | idles hstep hnone _ _ _ => exact ⟨_, .one hstep, by simpa [told] using hnone⟩
  | reads _ _ hrun htold _ => exact ⟨_, hrun, by simpa using htold⟩

theorem run_session (hrun : Execution step s trace s') :
    ∃ trace', Execution Session.step s.session trace' s'.session ∧
      told trace' = (choices trace).flatMap Choice.commands := by
  rw [choices, List.flatMap_assoc]
  exact hrun.simulates fun e hstep ↦ (step_stepped hstep).2.follows

theorem Stepped.returned (h : Stepped s s' out) : s'.returned = true ↔ out = some .exit := by
  cases h with
  | idles _ _ _ _ hgoing => simp [hgoing]
  | reads _ _ _ _ hreturned => simp [hreturned]

theorem run_returned (hrun : Execution step s trace s') (hgoing : s.returned = false) :
    s'.returned = true ↔ .exit ∈ choices trace := by
  induction hrun with
  | nil s => simp [hgoing, choices]
  | @cons s t u event out trace hstep hrest ih =>
    have hcons : choices (⟨s, event, out, t⟩ :: trace) = out.toList ++ choices trace := rfl
    have hreturned := (step_stepped hstep).2.returned
    rw [hcons, List.mem_append, Option.mem_toList, ← hreturned]
    cases ht : t.returned with
    | false =>
      rw [ih ht]
      simp
    | true =>
      cases hrest with
      | nil => simp [ht]
      | cons hnext _ => simp [(step_stepped hnext).1] at ht

/-- Only a line for the end makes the menu return. -/
theorem Stepped.returns (h : Stepped s s' out) (ht : s'.returned = true ∨ s'.Returns) : s.Returns := by
  cases h with
  | idles _ _ hinput hstdin hgoing =>
    rw [hgoing, Returns, hinput, hstdin] at ht
    exact ht.resolve_left Bool.false_ne_true
  | @reads ch _ hgets hch _ _ hreturned =>
    rcases gets_cases hgets with ⟨hstdin, hinput, hrest⟩ | ⟨line, hstdin, hlength, hfirst⟩
    · rw [hinput] at hch
      refine .inl ⟨hstdin, hch.trans ?_⟩
      rcases ht with ht | ⟨-, hexit⟩ | ⟨pre, line, post, hlines, -⟩
      · exact of_decide_eq_true (hreturned.symm.trans ht)
      · rw [hinput] at hexit
        exact hch.symm.trans hexit
      · rw [hrest] at hlines
        simp at hlines
    · rw [hfirst] at hch
      by_cases hexit : ch = .exit
      · exact .inr ⟨[], line, s'.stdin, hstdin, by simp [Passed], hlength, hch.trans hexit⟩
      · have hgo : choice (first line) ≠ .exit := fun h ↦ hexit (hch.symm.trans h)
        rcases ht with ht | ⟨-, hlast⟩ | ⟨pre, last, post, hlines, hpassed, hlast⟩
        · exact absurd (of_decide_eq_true (hreturned.symm.trans ht)) hexit
        · rw [hfirst] at hlast
          exact absurd hlast hgo
        · refine .inr ⟨line :: pre, last, post, ?_, ?_, hlast⟩
          · rw [hstdin, hlines, List.cons_append]
          · exact List.forall_mem_cons.mpr ⟨⟨hlength, hgo⟩, hpassed⟩

theorem Stepped.overruns (h : Stepped s s' out) (hgoing : s'.returned = false)
    (ht : s'.Overruns) : s.Overruns := by
  obtain ⟨pre, last, post, hlines, hpassed, hlast⟩ := ht
  cases h with
  | idles _ _ _ hstdin _ => exact ⟨pre, last, post, hstdin.symm.trans hlines, hpassed, hlast⟩
  | @reads ch _ hgets hch _ _ hreturned =>
    rcases gets_cases hgets with ⟨-, -, hrest⟩ | ⟨line, hstdin, hlength, hfirst⟩
    · rw [hrest] at hlines
      simp at hlines
    · have hgo : choice (first line) ≠ .exit := by
        rw [← hfirst, hch]
        exact of_decide_eq_false (hreturned.symm.trans hgoing)
      refine ⟨line :: pre, last, post, ?_, ?_, hlast⟩
      · rw [hstdin, hlines, List.cons_append]
      · exact List.forall_mem_cons.mpr ⟨⟨hlength, hgo⟩, hpassed⟩

theorem exists_called (session : Session) (command : Command) :
    ∃ r, session.step (.menu command (quietHost 0 0) []) = .ok r := by
  have hdone : ∃ done, interact command session.client ((quietHost 0 0).atTime session.now) [] =
      .ok done := by
    rw [Client.interact_steps]
    cases hp : session.client.beginCall ((quietHost 0 0).atTime session.now) command with
    | error e =>
      have hexits := Client.beginCall_fails session.client _ command e hp
      cases hexits.1
    | ok p =>
      rw [ok_bind, Progress.takeAll]
      cases p.phase with
      | menu | awaitOffer | awaitAck | rediscover => exact ⟨_, rfl⟩
  obtain ⟨done, hdone⟩ := hdone
  rw [Session.step, List.map_nil, hdone]
  exact ⟨_, rfl⟩

theorem exists_pass (hgoing : s.returned = false)
    (hgets : gets s.input s.stdin = .ok (input, stdin)) : ∃ event out s',
      s.step event = .ok (s', out) ∧ s'.input = input ∧ s'.stdin = stdin ∧
        s'.returned = decide (choice (input 0) = .exit) := by
  refine ⟨.line (quietHost 0 0) [], some (choice (input 0)), ?_⟩
  unfold step
  rw [hgoing, hgets]
  simp only [Stuck.lift, ok_bind, Bool.false_eq_true, if_false]
  cases hch : choice (input 0) with
  | exit => exact ⟨_, rfl, rfl, rfl, rfl⟩
  | wrong => exact ⟨_, rfl, rfl, rfl, rfl⟩
  | command command =>
    obtain ⟨r, hr⟩ := exists_called s.session command
    simp only [pass, hr, ok_bind]
    exact ⟨_, rfl, rfl, rfl, rfl⟩

/-- The menu comes to the line after such lines. -/
theorem exists_reached {pre rest : List (List UInt8)} (hgoing : s.returned = false)
    (hstdin : s.stdin = pre ++ rest) (hpassed : Passed pre) :
    ∃ trace s', Execution step s trace s' ∧ s'.returned = false ∧ s'.stdin = rest := by
  induction pre generalizing s with
  | nil => exact ⟨[], s, .nil s, hgoing, hstdin⟩
  | cons line pre ih =>
    obtain ⟨⟨hlength, hgo⟩, hrest⟩ := List.forall_mem_cons.mp hpassed
    have hgets : gets s.input s.stdin =
        .ok (write (write s.input 0 line) line.length [0], pre ++ rest) := by
      rw [hstdin, List.cons_append, gets, if_pos hlength]
    obtain ⟨event, out, t, hstep, -, hlines, hreturned⟩ := exists_pass hgoing hgets
    rw [line_first, decide_eq_false hgo] at hreturned
    obtain ⟨trace, s', hrun, hend⟩ := ih hreturned hlines hrest
    exact ⟨_, s', .cons hstep hrun, hend⟩

theorem returns_iff (hgoing : s.returned = false) :
    (∃ trace s', Execution step s trace s' ∧ s'.returned = true) ↔ s.Returns := by
  constructor
  · rintro ⟨trace, s', hrun, hreturned⟩
    by_contra hnever
    have hkept := Reachable.invariant (I := fun s ↦ ¬(s.returned = true ∨ s.Returns)) ⟨trace, hrun⟩
      (fun s event out t hstep hs ht ↦ hs (.inr ((step_stepped hstep).2.returns ht)))
      (fun h ↦ h.elim (fun hr ↦ Bool.false_ne_true (hgoing.symm.trans hr)) hnever)
    exact hkept (.inl hreturned)
  · rintro (⟨hstdin, hexit⟩ | ⟨pre, line, post, hstdin, hpassed, hlength, hexit⟩)
    · have hgets : gets s.input s.stdin = .ok (s.input, []) := by
        rw [hstdin]
        rfl
      obtain ⟨event, out, t, hstep, -, -, hreturned⟩ := exists_pass hgoing hgets
      exact ⟨_, t, .one hstep, hreturned.trans (decide_eq_true hexit)⟩
    · obtain ⟨trace, t, hrun, hwaits, hlines⟩ := exists_reached hgoing hstdin hpassed
      have hgets : gets t.input t.stdin =
          .ok (write (write t.input 0 line) line.length [0], post) := by
        rw [hlines, gets, if_pos hlength]
      obtain ⟨event, out, u, hstep, -, -, hreturned⟩ := exists_pass hwaits hgets
      rw [line_first, decide_eq_true hexit] at hreturned
      exact ⟨_, u, hrun.append (.one hstep), hreturned⟩

theorem gets_error_iff : gets input stdin = .error .outOfBounds ↔
    ∃ line post, stdin = line :: post ∧ sizeofInput ≤ line.length := by
  cases stdin with
  | nil => simp [gets]
  | cons line post =>
    rw [gets]
    split
    · rename_i hlength
      simp [hlength]
    · rename_i hlength
      simpa using Nat.le_of_not_lt hlength

theorem overruns_iff (hgoing : s.returned = false) :
    (∃ trace s', Execution step s trace s' ∧ s'.returned = false ∧
      gets s'.input s'.stdin = .error .outOfBounds) ↔ s.Overruns := by
  constructor
  · rintro ⟨trace, s', hrun, hwaits, hgets⟩
    by_contra hnever
    have hkept := Reachable.invariant (I := fun s ↦ s.returned = false → ¬s.Overruns) ⟨trace, hrun⟩
      (fun s event out t hstep hs hwaits ht ↦
        hs (step_stepped hstep).1 ((step_stepped hstep).2.overruns hwaits ht))
      (fun _ ↦ hnever)
    obtain ⟨line, post, hstdin, hlength⟩ := gets_error_iff.mp hgets
    exact hkept hwaits ⟨[], line, post, hstdin, by simp [Passed], hlength⟩
  · rintro ⟨pre, line, post, hstdin, hpassed, hlength⟩
    obtain ⟨trace, t, hrun, hwaits, hlines⟩ := exists_reached hgoing hstdin hpassed
    exact ⟨trace, t, hrun, hwaits, gets_error_iff.mpr ⟨line, post, hlines, hlength⟩⟩

end Menu

end Steps

/-- The menu takes the lines in their order, each for the choice that its first character is, and
when there are no more, it takes the last one again and again: the interactive client is told just
these commands, whatever it makes of them and whatever alarms come in between. Every run that gets to
a line for the end leaves the loop there, and no other run leaves it. A line that does not fit into
the array is written beyond it. -/
theorem menu_takes_lines (session : Session) (input : Memory) (stdin : List (List UInt8)) :
    ((∃ trace s, Execution Menu.step (.opened session input stdin) trace s ∧ s.returned = true) ↔
      (Menu.opened session input stdin).Returns) ∧
    ((∃ trace s, Execution Menu.step (.opened session input stdin) trace s ∧ s.returned = false ∧
      gets s.input s.stdin = .error .outOfBounds) ↔ (Menu.opened session input stdin).Overruns) ∧
    ∀ trace s, Execution Menu.step (.opened session input stdin) trace s →
      (∃ trace', Execution Session.step session trace' s.session ∧
        told trace' = (choices trace).flatMap Choice.commands) ∧
      (s.returned = true ↔ .exit ∈ choices trace) ∧
      (choices trace <+: stdin.map (fun line ↦ choice (first line)) ∨
        ∃ k, choices trace = stdin.map (fun line ↦ choice (first line)) ++
          List.replicate k (choice ((stdin.map first).getLastD (input 0)))) := by
  refine ⟨Menu.returns_iff rfl, Menu.overruns_iff rfl, fun trace s hrun ↦
    ⟨Menu.run_session hrun, Menu.run_returned hrun rfl, ?_⟩⟩
  have hlines : stdin.map (fun line ↦ choice (first line)) = (stdin.map first).map choice := by simp
  rw [Menu.run_chooses hrun, hlines]
  rcases Held.items_repeat (Menu.opened session input stdin).held (choices trace).length with
    hbefore | ⟨k, hk⟩
  · exact .inl (hbefore.map choice)
  · refine .inr ⟨k, ?_⟩
    rw [hk, List.map_append, List.map_replicate]
    rfl

end InternetApplications.Dhcp
