import InternetApplications.Labs.Echo
import InternetApplications.Library.HeldInput
import InternetApplications.Library.OpenFile

namespace InternetApplications.Labs

open Executions HeldInput OpenFiles

def quit : UInt8 := 46

structure Typewriter (κ : Type) where
  buf : UInt8
  stdin : List UInt8
  fd : Option (Description κ)
  store : Store κ

variable {κ : Type}

/-- `out.out` is not truncated. When it cannot be opened, the program goes on, and the array starts
with any byte. -/
def Typewriter.opened (stale : UInt8) (stdin : List UInt8) (out : κ) (store : Store κ)
    (isOpen : Bool) : Typewriter κ :=
  ⟨stale, stdin, if isOpen then some ⟨out, 0, false⟩ else none, store⟩

def Typewriter.held (s : Typewriter κ) : Held UInt8 := ⟨s.buf, s.stdin⟩

def typedOver [DecidableEq κ] (out : κ) (store : Store κ) (isOpen : Bool) (typed : List UInt8) :
    Store κ :=
  if isOpen then Function.update store out (typed ++ (store out).drop typed.length) else store

def typed (trace : List (Transition (Typewriter κ) Unit UInt8)) : List UInt8 :=
  trace.map fun e ↦ e.output

variable [DecidableEq κ]

/-- One pass of the loop. At the end of the input, `read` leaves the array as it is. -/
def Typewriter.step (s : Typewriter κ) (_ : Unit) : Except Stop (Typewriter κ × UInt8) :=
  if s.buf = quit then .error .disabled
  else
    let buf := s.stdin.headD s.buf
    match s.fd with
    | none => .ok (⟨buf, s.stdin.tail, none, s.store⟩, buf)
    | some fd =>
      let (store, fd) := fd.write s.store [buf]
      .ok (⟨buf, s.stdin.tail, some fd, store⟩, buf)

variable {s s' : Typewriter κ} {trace : List (Transition (Typewriter κ) Unit UInt8)} {byte : UInt8}

theorem step_next (h : s.step () = .ok (s', byte)) :
    s.buf ≠ quit ∧ byte = s.held.next.item ∧ s'.held = s.held.next := by
  rw [Typewriter.step] at h
  split at h
  · cases h
  · rename_i hbuf
    split at h
    · cases h
      exact ⟨hbuf, rfl, rfl⟩
    · cases h
      exact ⟨hbuf, rfl, rfl⟩

theorem exists_step (h : s.buf ≠ quit) :
    ∃ s', s.step () = .ok (s', s.held.next.item) ∧ s'.held = s.held.next := by
  rw [Typewriter.step, if_neg h]
  split
  · exact ⟨_, rfl, rfl⟩
  · exact ⟨_, rfl, rfl⟩

/-- What appears is what the reads find, and the loop goes on as long as it is no `.`. -/
theorem run_reads (hrun : Execution Typewriter.step s trace s') :
    s'.held = s.held.after trace.length ∧ typed trace = s.held.items trace.length ∧
      ∀ k < trace.length, (s.held.after k).item ≠ quit := by
  induction hrun with
  | nil => exact ⟨rfl, rfl, fun k hk ↦ absurd hk (Nat.not_lt_zero k)⟩
  | @cons s t u _ byte trace hstep _ ih =>
    obtain ⟨hbuf, hbyte, hnext⟩ := step_next hstep
    rw [hnext] at ih
    obtain ⟨hlast, htyped, hgo⟩ := ih
    refine ⟨hlast, ?_, fun k hk ↦ ?_⟩
    · rw [List.length_cons, Held.items, ← htyped, ← hbyte]
      rfl
    · cases k with
      | zero => exact hbuf
      | succ k => exact hgo k (Nat.lt_of_succ_lt_succ hk)

theorem exists_run {n : ℕ} (hgo : ∀ k < n, (s.held.after k).item ≠ quit) :
    ∃ trace s', Execution Typewriter.step s trace s' ∧ s'.held = s.held.after n := by
  induction n generalizing s with
  | zero => exact ⟨[], s, .nil s, rfl⟩
  | succ n ih =>
    obtain ⟨t, hstep, hnext⟩ := exists_step (hgo 0 (Nat.succ_pos n))
    have hrest (k : ℕ) (hk : k < n) : (t.held.after k).item ≠ quit := by
      rw [hnext]
      exact hgo (k + 1) (Nat.succ_lt_succ hk)
    obtain ⟨trace, s', hrun, hlast⟩ := ih hrest
    rw [hnext] at hlast
    exact ⟨_, s', .cons hstep hrun, hlast⟩

theorem step_store {fd : Description κ} (hfd : s.fd = some fd) (happend : fd.appending = false)
    (h : s.step () = .ok (s', byte)) : s'.fd = some (fd.seek (fd.position + 1)) ∧
      s'.store = Function.update s.store fd.file (overwrite (s.store fd.file) fd.position [byte]) := by
  rw [Typewriter.step, hfd] at h
  split at h
  · cases h
  · cases h
    simp [Description.seek, happend]

theorem run_keeps (hrun : Execution Typewriter.step s trace s') (hfd : s.fd = none) :
    s'.store = s.store := by
  induction hrun with
  | nil => rfl
  | @cons s t u _ byte trace hstep _ ih =>
    rw [Typewriter.step, hfd] at hstep
    split at hstep
    · cases hstep
    · cases hstep
      exact ih rfl

/-- The file is written over from its start, and keeps its end. -/
theorem run_overwrites {out : κ} {pre old : List UInt8} {position : ℕ}
    (hrun : Execution Typewriter.step s trace s') (hfd : s.fd = some ⟨out, position, false⟩)
    (hposition : position = pre.length) (hstore : s.store out = pre ++ old.drop pre.length) :
    s'.store = Function.update s.store out
      (pre ++ typed trace ++ old.drop (pre.length + (typed trace).length)) := by
  induction hrun generalizing pre position with
  | nil =>
    rw [typed, List.map_nil, List.append_nil, List.length_nil, Nat.add_zero, ← hstore,
      Function.update_eq_self]
  | @cons s t u _ byte trace hstep _ ih =>
    obtain ⟨hfd', hstore'⟩ := step_store hfd rfl hstep
    have hposition' : position + 1 = (pre ++ [byte]).length := by simp [hposition]
    have hnext : t.store out = pre ++ [byte] ++ old.drop (pre ++ [byte]).length := by
      rw [hstore', Function.update_self, hstore, hposition, overwrite_next, List.length_append]
    have htyped : typed (⟨s, (), byte, t⟩ :: trace) = byte :: typed trace := rfl
    rw [ih hfd' hposition' hnext, hstore', Function.update_idem, htyped,
      List.append_cons pre byte (typed trace), List.length_cons, List.length_append,
      List.length_singleton, Nat.add_assoc, Nat.add_comm 1]

/-- The loop ends exactly when it does not begin, since the array happened to start with `.`, or
when `.` is typed. What appears on the screen is what was typed, up to the first `.`, or else all of
it and then its last byte again and again, and the file has it over its start. -/
theorem typewriter_ends_iff (stale : UInt8) (stdin : List UInt8) (out : κ) (store : Store κ)
    (isOpen : Bool) :
    ((∃ trace s, Execution Typewriter.step (.opened stale stdin out store isOpen) trace s ∧
      s.buf = quit) ↔ stale = quit ∨ quit ∈ stdin) ∧
    ∀ trace s, Execution Typewriter.step (.opened stale stdin out store isOpen) trace s →
      s.store = typedOver out store isOpen (typed trace) ∧
      (typed trace <+: stdin ∨
        ∃ k, typed trace = stdin ++ List.replicate k (stdin.getLastD stale)) ∧
      (s.buf = quit → stale = quit ∧ typed trace = [] ∨
        stale ≠ quit ∧ typed trace = stdin.takeWhile (· ≠ quit) ++ [quit]) := by
  have hends : (stale = quit ∨ ∃ byte ∈ stdin, byte = quit) ↔
      ∃ n, ((⟨stale, stdin⟩ : Held UInt8).after n).item = quit :=
    (Held.exists_item_iff (h := ⟨stale, stdin⟩) (P := fun byte ↦ byte = quit)).symm
  rw [← exists_eq_right (p := fun byte ↦ byte ∈ stdin)]
  refine ⟨⟨?_, fun h ↦ ?_⟩, fun trace s hrun ↦ ?_⟩
  · rintro ⟨trace, s, hrun, hend⟩
    obtain ⟨hlast, -, -⟩ := run_reads hrun
    exact hends.mpr ⟨trace.length, (congrArg Held.item hlast).symm.trans hend⟩
  · obtain ⟨n, hquit, hgo⟩ := Held.exists_first (h := ⟨stale, stdin⟩)
      (P := fun byte ↦ byte = quit) h
    obtain ⟨trace, s, hrun, hlast⟩ := exists_run
      (s := Typewriter.opened stale stdin out store isOpen) hgo
    exact ⟨trace, s, hrun, (congrArg Held.item hlast).trans hquit⟩
  · obtain ⟨hlast, htyped, hgo⟩ := run_reads hrun
    refine ⟨?_, ?_, fun hend ↦ ?_⟩
    · cases isOpen with
      | true =>
        have hstart : store out = [] ++ (store out).drop ([] : List UInt8).length := rfl
        rw [run_overwrites hrun rfl rfl hstart]
        simp [typedOver, Typewriter.opened]
      | false => exact run_keeps hrun rfl
    · rw [htyped]
      exact Held.items_repeat _ _
    · cases trace with
      | nil => exact .inl ⟨(congrArg Held.item hlast).symm.trans hend, rfl⟩
      | cons e trace =>
        refine .inr ⟨hgo 0 (Nat.succ_pos _), ?_⟩
        have hquit : ((⟨stale, stdin⟩ : Held UInt8).after (trace.length + 1)).item = quit :=
          (congrArg Held.item hlast).symm.trans hend
        have hitems := Held.items_until (P := fun byte ↦ byte = quit) hquit
          fun k hk ↦ hgo k (Nat.lt_succ_of_le hk)
        rw [hquit] at hitems
        exact htyped.trans hitems

end InternetApplications.Labs
