import Mathlib.Control.Monad.Writer

namespace InternetApplications.Tracing

/-- A computation that keeps a record, also when it fails. -/
abbrev Traced (ω ε : Type) : Type → Type := ExceptT ε (Writer (List ω))

namespace Traced

variable {ω ε α β : Type}

def mk (r : Except ε α) (log : List ω) : Traced ω ε α := ExceptT.mk (WriterT.mk (r, log))

def result (x : Traced ω ε α) : Except ε α := x.run.run.1

def log (x : Traced ω ε α) : List ω := x.run.run.2

end Traced

/-- A monad for computations that may fail, in which remarks can be made on them. -/
class Noting (ω ε : Type) (m : Type → Type) where
  note {α : Type} : ω → Except ε α → m α

export Noting (note)

/-- Without a record the remarks are lost. -/
@[default_instance] instance (ω ε : Type) : Noting ω ε (Except ε) := ⟨fun _ r ↦ r⟩

instance (ω ε : Type) : Noting ω ε (Traced ω ε) := ⟨fun o r ↦ Traced.mk r [o]⟩

theorem lift_except {ε α : Type} (r : Except ε α) : (liftM r : Except ε α) = r := rfl

namespace Traced

variable {ω ε α β : Type}

section Result

theorem result_pure (a : α) : (pure a : Traced ω ε α).result = .ok a := rfl

theorem result_lift (r : Except ε α) : (liftM r : Traced ω ε α).result = r := rfl

theorem result_bind (x : Traced ω ε α) (f : α → Traced ω ε β) :
    (x >>= f).result = x.result >>= fun a ↦ (f a).result := by
  obtain ⟨r, l⟩ := x
  cases r with
  | error e => rfl
  | ok a => rfl

theorem result_ite (P : Prop) [Decidable P] (x y : Traced ω ε α) :
    (if P then x else y).result = if P then x.result else y.result := apply_ite result P x y

end Result

def All (P : ω → Prop) (x : Traced ω ε α) : Prop := ∀ o ∈ x.log, P o

section All

variable {P : ω → Prop}

theorem all_pure (a : α) : (pure a : Traced ω ε α).All P := List.forall_mem_nil P

theorem all_lift (r : Except ε α) : (liftM r : Traced ω ε α).All P := List.forall_mem_nil P

theorem all_note {o : ω} {r : Except ε α} : (note o r : Traced ω ε α).All P ↔ P o := List.forall_mem_singleton

theorem all_bind {x : Traced ω ε α} {f : α → Traced ω ε β} :
    (x >>= f).All P ↔ x.All P ∧ ∀ a, x.result = .ok a → (f a).All P := by
  obtain ⟨r, l⟩ := x
  cases r with
  | error e =>
    have hlog : (((mk (.error e) l : Traced ω ε α) >>= f).log) = l ++ [] := rfl
    refine Iff.trans ?_ (and_iff_left fun a h ↦ nomatch h).symm
    exact (congrArg (fun log ↦ ∀ o ∈ log, P o) (hlog.trans (List.append_nil l))).to_iff
  | ok a =>
    have happend : (∀ o ∈ l ++ (f a).log, P o) ↔ (∀ o ∈ l, P o) ∧ ∀ o ∈ (f a).log, P o :=
      List.forall_mem_append
    refine happend.trans (and_congr_right fun _ ↦ ?_)
    refine ⟨fun h b hb ↦ ?_, fun h ↦ h a rfl⟩
    cases hb
    exact h

theorem all_bind_of_ok {x : Traced ω ε α} {f : α → Traced ω ε β} {a : α} (h : x.result = .ok a) :
    (x >>= f).All P ↔ x.All P ∧ (f a).All P := by
  refine all_bind.trans (and_congr_right fun _ ↦ ⟨fun hf ↦ hf a h, fun hf b hb ↦ ?_⟩)
  cases h.symm.trans hb
  exact hf

theorem all_lift_bind {r : Except ε α} {f : α → Traced ω ε β} :
    ((liftM r : Traced ω ε α) >>= f).All P ↔ ∀ a, r = .ok a → (f a).All P :=
  all_bind.trans (and_iff_right (all_lift r))

theorem all_note_bind {o : ω} {r : Except ε α} {f : α → Traced ω ε β} :
    ((note o r : Traced ω ε α) >>= f).All P ↔ P o ∧ ∀ a, r = .ok a → (f a).All P :=
  all_bind.trans (and_congr_left' all_note)

end All

end Traced

end InternetApplications.Tracing
