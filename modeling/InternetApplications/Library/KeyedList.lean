import Mathlib.Data.List.Nodup
import Mathlib.Data.List.Perm.Subperm
import Mathlib.Tactic.Common

namespace InternetApplications.KeyedList

variable {ε κ : Type*}

def touch (p : ε → Bool) (f : ε → ε) : List ε → List ε
  | [] => []
  | a :: l => if p a then f a :: l else a :: touch p f l

variable {p : ε → Bool} {f : ε → ε} {key : ε → κ} {l : List ε} {a : ε}

@[simp] theorem length_touch : (touch p f l).length = l.length := by
  induction l with
  | nil => rfl
  | cons b l ih =>
    simp only [touch]
    split
    · rfl
    · rw [List.length_cons, List.length_cons, ih]

theorem map_touch {δ : Type*} {g : ε → δ} (hg : ∀ b, g (f b) = g b) :
    (touch p f l).map g = l.map g := by
  induction l with
  | nil => rfl
  | cons b l ih =>
    simp only [touch]
    split
    · rw [List.map_cons, List.map_cons, hg]
    · rw [List.map_cons, List.map_cons, ih]

theorem mem_touch {b : ε} (h : b ∈ touch p f l) :
    b ∈ l ∨ ∃ c, l.find? p = some c ∧ b = f c := by
  induction l with
  | nil => cases h
  | cons c l ih =>
    simp only [touch] at h
    split at h
    · rename_i hc
      rcases List.mem_cons.mp h with rfl | h
      · exact .inr ⟨c, by simp [hc], rfl⟩
      · exact .inl (List.mem_cons_of_mem c h)
    · rename_i hc
      rcases List.mem_cons.mp h with rfl | h
      · exact .inl List.mem_cons_self
      · rcases ih h with h | ⟨d, hd, rfl⟩
        · exact .inl (List.mem_cons_of_mem c h)
        · exact .inr ⟨d, by simp [hc, hd], rfl⟩

theorem mem_touch_of_not (h : a ∈ l) (hp : ¬p a) : a ∈ touch p f l := by
  induction l with
  | nil => cases h
  | cons c l ih =>
    simp only [touch]
    split
    · rename_i hc
      rcases List.mem_cons.mp h with rfl | h
      · exact absurd hc hp
      · exact List.mem_cons_of_mem _ h
    · rcases List.mem_cons.mp h with rfl | h
      · exact List.mem_cons_self
      · exact List.mem_cons_of_mem _ (ih h)

theorem mem_touch_or (h : a ∈ l) : a ∈ touch p f l ∨ f a ∈ touch p f l := by
  induction l with
  | nil => cases h
  | cons c l ih =>
    simp only [touch]
    split
    · rcases List.mem_cons.mp h with rfl | h
      · exact .inr List.mem_cons_self
      · exact .inl (List.mem_cons_of_mem _ h)
    · rcases List.mem_cons.mp h with rfl | h
      · exact .inl List.mem_cons_self
      · exact (ih h).imp (List.mem_cons_of_mem _) (List.mem_cons_of_mem _)

theorem mem_touch_found (h : l.find? p = some a) : f a ∈ touch p f l := by
  induction l with
  | nil => cases h
  | cons c l ih =>
    rw [List.find?_cons] at h
    simp only [touch]
    split at h
    · rename_i hc
      rw [if_pos hc, ← Option.some.inj h]
      exact List.mem_cons_self
    · rename_i hc
      rw [if_neg (by simp [hc])]
      exact List.mem_cons_of_mem _ (ih h)

theorem touch_eq_self_iff (h : l.find? p = some a) : touch p f l = l ↔ f a = a := by
  induction l with
  | nil => cases h
  | cons c l ih =>
    rw [List.find?_cons] at h
    simp only [touch]
    split at h
    · rename_i hc
      obtain rfl := Option.some.inj h
      rw [if_pos hc, List.cons.injEq]
      exact and_iff_left rfl
    · rename_i hc
      rw [if_neg (by simp [hc]), List.cons.injEq, ih h]
      exact and_iff_right rfl

theorem find?_touch (hf : ∀ b, p b → p (f b)) (h : l.find? p = some a) :
    (touch p f l).find? p = some (f a) := by
  induction l with
  | nil => cases h
  | cons c l ih =>
    rw [List.find?_cons] at h
    simp only [touch]
    split at h
    · rename_i hc
      obtain rfl := Option.some.inj h
      rw [if_pos hc, List.find?_cons_of_pos (hf c hc)]
    · rename_i hc
      rw [if_neg (by simp [hc]), List.find?_cons_of_neg (by simp [hc]), ih h]

theorem find?_touch_or {q : ε → Bool} (hf : ∀ b, q (f b) = q b) (h : l.find? q = some a) :
    (touch p f l).find? q = some a ∨ (touch p f l).find? q = some (f a) := by
  induction l with
  | nil => cases h
  | cons c l ih =>
    rw [List.find?_cons] at h
    simp only [touch]
    split at h
    · rename_i hc
      obtain rfl := Option.some.inj h
      split
      · exact .inr (List.find?_cons_of_pos (by rw [hf, hc]))
      · exact .inl (List.find?_cons_of_pos hc)
    · rename_i hc
      split
      · rw [List.find?_cons_of_neg (by simp [hf, hc])]
        exact .inl h
      · rw [List.find?_cons_of_neg (by simp [hc])]
        exact ih h

theorem find?_eraseP {q : ε → Bool} (hq : ∀ b, q b → ¬p b) (h : l.find? q = some a) :
    (l.eraseP p).find? q = some a := by
  induction l with
  | nil => cases h
  | cons c l ih =>
    rw [List.find?_cons] at h
    split at h
    · rename_i hc
      obtain rfl := Option.some.inj h
      rw [List.eraseP_cons_of_neg (hq c hc), List.find?_cons_of_pos hc]
    · rename_i hc
      by_cases hp : p c
      · rw [List.eraseP_cons_of_pos hp]
        exact h
      · rw [List.eraseP_cons_of_neg hp, List.find?_cons_of_neg (by simp [hc])]
        exact ih h

/-- Distinct elements of a list that are as many as the list are all of it. -/
theorem subset_of_length {l' : List ε} (hd : l.Nodup) (hsub : l ⊆ l') (hlen : l'.length ≤ l.length) :
    l' ⊆ l :=
  ((hd.subperm hsub).perm_of_length_le hlen).symm.subset

def Distinct (key : ε → κ) (l : List ε) : Prop := (l.map key).Nodup

theorem Distinct.touch (hf : ∀ b, key (f b) = key b) (hd : Distinct key l) :
    Distinct key (touch p f l) := by
  rw [Distinct, map_touch hf]
  exact hd

theorem Distinct.eraseP (hd : Distinct key l) : Distinct key (l.eraseP p) :=
  hd.sublist (List.eraseP_sublist.map key)

variable [DecidableEq κ]

/-- The list read as a map from keys, the first element with a key counting. -/
def view (key : ε → κ) (l : List ε) (k : κ) : Option ε := l.find? fun e ↦ key e = k

variable {k : κ}

theorem view_eq_none : view key l k = none ↔ ∀ e ∈ l, key e ≠ k := by
  simp [view]

theorem view_some (h : view key l k = some a) : a ∈ l ∧ key a = k := by
  refine ⟨List.mem_of_find?_eq_some h, ?_⟩
  simpa using List.find?_some h

theorem view_cons {b : ε} :
    view key (b :: l) k = if key b = k then some b else view key l k := by
  by_cases h : key b = k <;> simp [view, h]

theorem distinct_cons {b : ε} :
    Distinct key (b :: l) ↔ view key l (key b) = none ∧ Distinct key l := by
  rw [view_eq_none, Distinct, List.map_cons, List.nodup_cons]
  simp [Distinct]

theorem view_mem (hd : Distinct key l) (h : a ∈ l) : view key l (key a) = some a := by
  induction l with
  | nil => cases h
  | cons b l ih =>
    obtain ⟨hb, hl⟩ := distinct_cons.mp hd
    rw [view_cons]
    rcases List.mem_cons.mp h with rfl | h
    · exact if_pos rfl
    · rw [if_neg (fun he ↦ view_eq_none.mp hb a h he.symm), ih hl h]

theorem view_eq_some (hd : Distinct key l) : view key l k = some a ↔ a ∈ l ∧ key a = k := by
  refine ⟨view_some, ?_⟩
  rintro ⟨h, rfl⟩
  exact view_mem hd h

theorem Distinct.eq_of_key {b : ε} (hd : Distinct key l) (ha : a ∈ l) (hb : b ∈ l)
    (h : key a = key b) : a = b := by
  have ha' := view_mem hd ha
  rw [h, view_mem hd hb] at ha'
  exact (Option.some.inj ha').symm

theorem Distinct.append (hd : Distinct key l) (h : view key l (key a) = none) :
    Distinct key (l ++ [a]) := by
  rw [view_eq_none] at h
  rw [Distinct, List.map_append, List.nodup_append]
  refine ⟨hd, by simp, ?_⟩
  simpa using h

theorem view_touch (hf : ∀ b, key (f b) = key b) (hd : Distinct key l) (h : l.find? p = some a) :
    view key (touch p f l) k = if key a = k then some (f a) else view key l k := by
  split
  · rename_i hk
    rw [view_eq_some (hd.touch hf), hf]
    exact ⟨mem_touch_found h, hk⟩
  · rename_i hk
    induction l with
    | nil => cases h
    | cons b l ih =>
      rw [List.find?_cons] at h
      simp only [touch]
      split at h
      · rename_i hb
        obtain rfl := Option.some.inj h
        rw [if_pos hb, view_cons, view_cons, hf]
        simp only [if_neg hk]
      · rename_i hb
        rw [if_neg (by simp [hb]), view_cons, view_cons, ih (distinct_cons.mp hd).2 h]

theorem touch_map [DecidableEq ε] {g : ε → ε} (hg : ∀ b, key (g b) = key b) (hd : Distinct key l)
    (ha : a ∈ l) : touch (fun b ↦ key b = key a) f (l.map g) =
      l.map fun b ↦ if b = a then f (g a) else g b := by
  induction l with
  | nil => cases ha
  | cons b l ih =>
    obtain ⟨hb, hl⟩ := distinct_cons.mp hd
    by_cases hba : b = a
    · subst hba
      have hrest : ∀ c ∈ l, (if c = b then f (g b) else g c) = g c := by
        intro c hc
        rw [if_neg]
        rintro rfl
        exact view_eq_none.mp hb c hc rfl
      simp [touch, hg, List.map_congr_left hrest]
    · have hmem := (List.mem_cons.mp ha).resolve_left (Ne.symm hba)
      have hkey : key b ≠ key a := fun h ↦ view_eq_none.mp hb a hmem h.symm
      simp [touch, hg, hkey, hba, ih hl hmem]

theorem view_append (h : view key l (key a) = none) :
    view key (l ++ [a]) k = if key a = k then some a else view key l k := by
  rw [view, List.find?_append]
  by_cases hk : key a = k
  · subst hk
    rw [view] at h
    simp [h]
  · simp [hk, view]

theorem view_eraseP (hd : Distinct key l) (h : l.find? p = some a) :
    view key (l.eraseP p) k = if key a = k then none else view key l k := by
  induction l with
  | nil => cases h
  | cons b l ih =>
    obtain ⟨hb, hl⟩ := distinct_cons.mp hd
    rw [List.find?_cons] at h
    split at h
    · rename_i hp
      obtain rfl := Option.some.inj h
      rw [List.eraseP_cons_of_pos hp, view_cons]
      split
      · rename_i hk
        rw [← hk, hb]
      · rfl
    · rename_i hp
      rw [List.eraseP_cons_of_neg (by simp [hp]), view_cons, view_cons, ih hl h]
      have hne : key a ≠ key b := view_eq_none.mp hb a (List.mem_of_find?_eq_some h)
      by_cases hk : key b = k
      · simp [hk, show key a ≠ k from hk ▸ hne]
      · simp [hk]

theorem length_eraseP (h : l.find? p = some a) : (l.eraseP p).length + 1 = l.length := by
  have hm := List.mem_of_find?_eq_some h
  have hl := List.length_eraseP_of_mem hm (List.find?_some h)
  have hpos := List.length_pos_of_mem hm
  omega

end InternetApplications.KeyedList
