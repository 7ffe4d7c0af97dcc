import Mathlib.Tactic.Common

namespace InternetApplications.Executions

variable {σ ι ο ε : Type*}

section Bind

universe v

variable {α β : Type v} {x : Except ε α} {f : α → Except ε β} {b : β}

theorem ok_bind (a : α) (f : α → Except ε β) : (Except.ok a >>= f) = f a := rfl

theorem error_bind (e : ε) (f : α → Except ε β) : ((.error e : Except ε α) >>= f) = .error e := rfl

theorem bind_eq_ok : x >>= f = .ok b ↔ ∃ a, x = .ok a ∧ f a = .ok b := by
  cases x with
  | error e =>
    refine ⟨fun h ↦ ?_, fun ⟨_, h, _⟩ ↦ ?_⟩
    · cases h
    · cases h
  | ok a =>
    refine ⟨fun h ↦ ⟨a, rfl, h⟩, ?_⟩
    rintro ⟨_, h, hf⟩
    cases h
    exact hf

theorem toOption_eq_some {a : α} : x.toOption = some a ↔ x = .ok a := by
  cases x with
  | error e => exact iff_of_false (fun h ↦ nomatch h) fun h ↦ nomatch h
  | ok b => exact ⟨fun h ↦ congrArg _ (Option.some.inj h), fun h ↦ congrArg _ (Except.ok.inj h)⟩

theorem exists_ok {α : Type*} (x : Except ε α) (P : α → Bool) (h : x.toOption.any P = true) :
    ∃ a, x = .ok a ∧ P a = true := by
  cases x with
  | error e => cases h
  | ok a => exact ⟨a, rfl, h⟩

end Bind

structure Transition (σ ι ο : Type*) where
  before : σ
  input : ι
  output : ο
  after : σ

/-- The runs of a step function that may have no defined result. -/
inductive Execution (step : σ → ι → Except ε (σ × ο)) : σ → List (Transition σ ι ο) → σ → Prop
  | nil (s : σ) : Execution step s [] s
  | cons {s t u : σ} {i : ι} {o : ο} {trace : List (Transition σ ι ο)} :
      step s i = .ok (t, o) → Execution step t trace u → Execution step s (⟨s, i, o, t⟩ :: trace) u

variable {step : σ → ι → Except ε (σ × ο)} {s t u : σ} {trace trace' : List (Transition σ ι ο)}

theorem Execution.one {i : ι} {o : ο} (h : step s i = .ok (t, o)) :
    Execution step s [⟨s, i, o, t⟩] t := .cons h (.nil t)

theorem Execution.append (h : Execution step s trace t) (h' : Execution step t trace' u) :
    Execution step s (trace ++ trace') u := by
  induction h with
  | nil => exact h'
  | cons hs _ ih => exact .cons hs (ih h')

theorem Execution.split (h : Execution step s (trace ++ trace') u) :
    ∃ t, Execution step s trace t ∧ Execution step t trace' u := by
  induction trace generalizing s with
  | nil => exact ⟨s, .nil s, h⟩
  | cons e trace ih =>
    cases h with
    | cons hs hrest =>
      obtain ⟨t, ht, hu⟩ := ih hrest
      exact ⟨t, .cons hs ht, hu⟩

theorem Execution.step_eq (h : Execution step s trace u) {e : Transition σ ι ο} (he : e ∈ trace) :
    step e.before e.input = .ok (e.after, e.output) := by
  induction h with
  | nil => cases he
  | cons hs _ ih =>
    rcases List.mem_cons.mp he with rfl | he
    · exact hs
    · exact ih he

/-- A transition inside a run starts where the steps before it end. -/
theorem Execution.split_at {e : Transition σ ι ο} (h : Execution step s (trace ++ e :: trace') u) :
    Execution step s trace e.before ∧ step e.before e.input = .ok (e.after, e.output) ∧
      Execution step e.after trace' u := by
  obtain ⟨t, ht, hrest⟩ := h.split
  cases hrest with
  | cons hs hu => exact ⟨ht, hs, hu⟩

/-- What holds at the start and is kept by every allowed step holds throughout
a run of allowed steps. -/
theorem Execution.invariant {I : σ → Prop} {A : Transition σ ι ο → Prop}
    (hstep : ∀ e : Transition σ ι ο, step e.before e.input = .ok (e.after, e.output) →
      A e → I e.before → I e.after)
    (h : Execution step s trace u) (ha : ∀ e ∈ trace, A e) (hs : I s) :
    I u ∧ ∀ e ∈ trace, I e.before ∧ I e.after := by
  induction h with
  | nil => exact ⟨hs, fun e he ↦ by cases he⟩
  | @cons s t u i o trace hst _ ih =>
    have ht := hstep ⟨s, i, o, t⟩ hst (ha _ List.mem_cons_self) hs
    obtain ⟨hu, hall⟩ := ih (fun e he ↦ ha e (List.mem_cons_of_mem _ he)) ht
    refine ⟨hu, fun e he ↦ ?_⟩
    rcases List.mem_cons.mp he with rfl | he
    · exact ⟨hs, ht⟩
    · exact hall e he

/-- What every step adds and takes away adds up over a run. -/
theorem Execution.balance {n : σ → ℕ} {gains losses : Transition σ ι ο → Prop}
    [DecidablePred gains] [DecidablePred losses]
    (hstep : ∀ e : Transition σ ι ο, step e.before e.input = .ok (e.after, e.output) →
      n e.after + (if losses e then 1 else 0) = n e.before + if gains e then 1 else 0)
    (h : Execution step s trace u) : n u + trace.countP losses = n s + trace.countP gains := by
  induction h with
  | nil => rfl
  | @cons s t u i o trace hst _ ih =>
    have hn := hstep ⟨s, i, o, t⟩ hst
    rw [List.countP_cons, List.countP_cons]
    simp only [decide_eq_true_eq] at hn ⊢
    omega

/-- When another system can follow every step, in steps that show the same, it can follow every
run. -/
theorem Execution.simulates {τ κ π ζ α : Type*} {step' : τ → κ → Except ζ (τ × π)} {f : σ → τ}
    {shows : Transition σ ι ο → List α} {shows' : Transition τ κ π → List α}
    (hstep : ∀ e : Transition σ ι ο, step e.before e.input = .ok (e.after, e.output) →
      ∃ trace', Execution step' (f e.before) trace' (f e.after) ∧ trace'.flatMap shows' = shows e)
    (h : Execution step s trace u) :
    ∃ trace', Execution step' (f s) trace' (f u) ∧ trace'.flatMap shows' = trace.flatMap shows := by
  induction h with
  | nil s => exact ⟨[], .nil (f s), rfl⟩
  | @cons s t u i o trace hst _ ih =>
    obtain ⟨first, hfirst, hshows⟩ := hstep ⟨s, i, o, t⟩ hst
    obtain ⟨rest, hrest, hall⟩ := ih
    refine ⟨first ++ rest, hfirst.append hrest, ?_⟩
    rw [List.flatMap_append, hshows, hall, List.flatMap_cons]

/-- An input that always has the same output can be repeated. -/
theorem exists_repeats {I : σ → Prop} {i : ι} {o : ο}
    (hstep : ∀ s, I s → ∃ t, step s i = .ok (t, o) ∧ I t) (hs : I s) (n : ℕ) :
    ∃ trace u, Execution step s trace u ∧ trace.map Transition.input = List.replicate n i ∧
      ∀ e ∈ trace, e.output = o ∧ I e.after := by
  induction n generalizing s with
  | zero => exact ⟨[], s, .nil s, rfl, by simp⟩
  | succ n ih =>
    obtain ⟨t, hst, ht⟩ := hstep s hs
    obtain ⟨trace, u, hrun, hinputs, hall⟩ := ih ht
    refine ⟨_, u, .cons hst hrun, ?_, ?_⟩
    · rw [List.map_cons, hinputs, List.replicate_succ]
    · rw [List.forall_mem_cons]
      exact ⟨⟨rfl, ht⟩, hall⟩

/-- When a step keeps the invariant exactly under a condition, a run keeps it throughout exactly
when all its steps meet the condition. -/
theorem Execution.invariant_iff {I : σ → Prop} {A : Transition σ ι ο → Prop}
    (hstep : ∀ e : Transition σ ι ο, step e.before e.input = .ok (e.after, e.output) →
      I e.before → (I e.after ↔ A e))
    (h : Execution step s trace u) (hs : I s) : (∀ e ∈ trace, I e.after) ↔ ∀ e ∈ trace, A e := by
  induction h with
  | nil => simp
  | @cons s t u i o trace hst _ ih =>
    have hiff := hstep ⟨s, i, o, t⟩ hst hs
    rw [List.forall_mem_cons, List.forall_mem_cons]
    constructor
    · rintro ⟨ht, hrest⟩
      exact ⟨hiff.mp ht, (ih ht).mp hrest⟩
    · rintro ⟨ha, hrest⟩
      exact ⟨hiff.mpr ha, (ih (hiff.mpr ha)).mpr hrest⟩

def execute (step : σ → ι → Except ε (σ × ο)) : σ → List ι → Except ε (List (Transition σ ι ο) × σ)
  | s, [] => .ok ([], s)
  | s, i :: inputs =>
    match step s i with
    | .error e => .error e
    | .ok (t, o) =>
      match execute step t inputs with
      | .error e => .error e
      | .ok (trace, u) => .ok (⟨s, i, o, t⟩ :: trace, u)

theorem execute_execution {inputs : List ι} (h : execute step s inputs = .ok (trace, u)) :
    Execution step s trace u := by
  induction inputs generalizing s trace with
  | nil =>
    cases h
    exact .nil _
  | cons i inputs ih =>
    simp only [execute] at h
    split at h
    · cases h
    · rename_i t o ht
      split at h
      · cases h
      · rename_i rest v hrest
        cases h
        exact .cons ht (ih hrest)

def Reachable (step : σ → ι → Except ε (σ × ο)) (init s : σ) : Prop :=
  ∃ trace, Execution step init trace s

theorem Reachable.refl : Reachable step s s := ⟨[], .nil s⟩

theorem Reachable.next {i : ι} {o : ο} (h : Reachable step s t) (hs : step t i = .ok (u, o)) :
    Reachable step s u := by
  obtain ⟨trace, htrace⟩ := h
  exact ⟨_, htrace.append (.one hs)⟩

theorem exists_execution (step : σ → ι → Except ε (σ × ο)) (s : σ) (inputs : List ι)
    (P : List (Transition σ ι ο) → σ → Bool)
    (h : (execute step s inputs).toOption.any (fun r ↦ P r.1 r.2) = true) :
    ∃ trace u, Execution step s trace u ∧ P trace u = true := by
  obtain ⟨r, hr, hP⟩ := exists_ok (execute step s inputs) (fun r ↦ P r.1 r.2) h
  exact ⟨r.1, r.2, execute_execution hr, hP⟩

theorem Reachable.invariant {I : σ → Prop} (h : Reachable step s u)
    (hstep : ∀ s i o t, step s i = .ok (t, o) → I s → I t) (hs : I s) : I u := by
  obtain ⟨trace, htrace⟩ := h
  exact (htrace.invariant (A := fun _ ↦ True)
    (fun e he _ ↦ hstep e.before e.input e.output e.after he) (fun _ _ ↦ trivial) hs).1

end InternetApplications.Executions
