import InternetApplications.Library.Memory

namespace InternetApplications.TagScan

open ByteMemory

inductive Outcome
  | found (pos : ℕ)
  | absent
  | escaped
deriving DecidableEq, Repr

/-- Jump from field to field until the tag or a zero tag. The walk escapes when
the next tag or length byte lies at the limit or beyond. -/
def scan (m : Memory) (limit : ℕ) (tag : UInt8) : ℕ → ℕ → Outcome
  | 0, _ => .escaped
  | fuel + 1, pos =>
    if limit ≤ pos then .escaped
    else if m pos = tag ∨ m pos = 0 then if m pos = 0 then .absent else .found pos
    else if limit ≤ pos + 1 then .escaped
    else scan m limit tag fuel (pos + 2 + (m (pos + 1)).toNat)

def search (m : Memory) (limit : ℕ) (tag : UInt8) (pos : ℕ) : Outcome :=
  scan m limit tag (limit + 1) pos

variable {m m' : Memory} {limit pos q : ℕ} {tag : UInt8}

theorem scan_fuel {fuel fuel' : ℕ} (h : limit < fuel + pos) (h' : limit < fuel' + pos) :
    scan m limit tag fuel pos = scan m limit tag fuel' pos := by
  induction fuel generalizing fuel' pos with
  | zero =>
    cases fuel' with
    | zero => rfl
    | succ fuel' => rw [scan, scan, if_pos (by omega)]
  | succ fuel ih =>
    cases fuel' with
    | zero => rw [scan, scan, if_pos (by omega)]
    | succ fuel' =>
      simp only [scan]
      rw [@ih _ fuel' (by omega) (by omega)]

/-- The walk makes progress, so the fuel never ends it. -/
theorem search_eq : search m limit tag pos =
    if limit ≤ pos then .escaped
    else if m pos = tag ∨ m pos = 0 then if m pos = 0 then .absent else .found pos
    else if limit ≤ pos + 1 then .escaped
    else search m limit tag (pos + 2 + (m (pos + 1)).toNat) := by
  have hfuel : scan m limit tag limit (pos + 2 + (m (pos + 1)).toNat) =
      scan m limit tag (limit + 1) (pos + 2 + (m (pos + 1)).toNat) :=
    scan_fuel (by omega) (by omega)
  conv_lhs => rw [search, scan, hfuel]
  rfl

theorem scan_congr {fuel : ℕ} (h : ∀ i < limit, m i = m' i) :
    scan m limit tag fuel pos = scan m' limit tag fuel pos := by
  induction fuel generalizing pos with
  | zero => rfl
  | succ fuel ih =>
    simp only [scan]
    split
    · rfl
    · rename_i hpos
      rw [h pos (by omega)]
      split
      · rfl
      · split
        · rfl
        · rw [h (pos + 1) (by omega), ih]

theorem search_congr (h : ∀ i < limit, m i = m' i) :
    search m limit tag pos = search m' limit tag pos := scan_congr h

structure Field where
  tag : UInt8
  value : List UInt8
deriving DecidableEq, Repr

def Field.bytes (f : Field) : List UInt8 := f.tag :: UInt8.ofNat f.value.length :: f.value

/-- The field can be told from padding and its length fits its length byte. -/
def Field.WellFormed (f : Field) : Prop := f.tag ≠ 0 ∧ f.value.length < 256

instance (f : Field) : Decidable f.WellFormed := inferInstanceAs (Decidable (_ ∧ _))

def encode (fields : List Field) : List UInt8 := fields.flatMap Field.bytes

@[simp] theorem Field.length_bytes (f : Field) : f.bytes.length = f.value.length + 2 := rfl

@[simp] theorem encode_nil : encode [] = [] := rfl

@[simp] theorem encode_cons (f : Field) (fields : List Field) :
    encode (f :: fields) = f.bytes ++ encode fields := rfl

@[simp] theorem encode_append (fields more : List Field) :
    encode (fields ++ more) = encode fields ++ encode more := List.flatMap_append

theorem Field.holds {f : Field} (h : Holds m pos f.bytes) :
    m pos = f.tag ∧ m (pos + 1) = UInt8.ofNat f.value.length ∧ Holds m (pos + 2) f.value := by
  obtain ⟨ht, hrest⟩ := holds_cons.mp h
  obtain ⟨hl, hv⟩ := holds_cons.mp hrest
  exact ⟨ht, hl, hv⟩

theorem search_skip {f : Field} (hf : f.WellFormed) (h : Holds m pos f.bytes)
    (hl : pos + f.bytes.length ≤ limit) (hne : f.tag ≠ tag) :
    search m limit tag pos = search m limit tag (pos + f.bytes.length) := by
  obtain ⟨ht, hn, -⟩ := Field.holds h
  have hlen : (UInt8.ofNat f.value.length).toNat = f.value.length := by
    rw [UInt8.toNat_ofNat']
    exact Nat.mod_eq_of_lt hf.2
  rw [Field.length_bytes] at hl ⊢
  rw [search_eq, if_neg (by omega), ht, if_neg (not_or.mpr ⟨hne, hf.1⟩), if_neg (by omega), hn, hlen]
  congr 1
  omega

theorem search_hit {f : Field} (hf : f.WellFormed) (h : Holds m pos f.bytes)
    (hl : pos + f.bytes.length ≤ limit) : search m limit f.tag pos = .found pos := by
  obtain ⟨ht, -, -⟩ := Field.holds h
  rw [Field.length_bytes] at hl
  rw [search_eq, if_neg (by omega), ht, if_pos (Or.inl rfl), if_neg hf.1]

theorem search_fields {fields : List Field} (hf : ∀ f ∈ fields, f.WellFormed)
    (h : Holds m pos (encode fields)) (hl : pos + (encode fields).length ≤ limit)
    (hne : ∀ f ∈ fields, f.tag ≠ tag) :
    search m limit tag pos = search m limit tag (pos + (encode fields).length) := by
  induction fields generalizing pos with
  | nil => rfl
  | cons f fields ih =>
    rw [encode_cons, List.length_append] at hl ⊢
    obtain ⟨hhead, htail⟩ := holds_append.mp h
    rw [search_skip (hf f List.mem_cons_self) hhead (by omega) (hne f List.mem_cons_self),
      ih (fun g hg ↦ hf g (List.mem_cons_of_mem f hg)) htail (by omega)
        (fun g hg ↦ hne g (List.mem_cons_of_mem f hg)), Nat.add_assoc]

/-- The first field with the tag is found at the place where it was written. -/
theorem search_encode {before after : List Field} {f : Field}
    (hf : ∀ g ∈ before ++ f :: after, g.WellFormed)
    (h : Holds m pos (encode (before ++ f :: after)))
    (hl : pos + (encode (before ++ f :: after)).length ≤ limit)
    (hne : ∀ g ∈ before, g.tag ≠ f.tag) :
    search m limit f.tag pos = .found (pos + (encode before).length) ∧
      Holds m (pos + (encode before).length) f.bytes := by
  rw [encode_append, encode_cons] at h
  rw [encode_append, encode_cons, List.length_append, List.length_append] at hl
  obtain ⟨hbefore, hrest⟩ := holds_append.mp h
  have hhead := (holds_append.mp hrest).1
  refine ⟨?_, hhead⟩
  rw [search_fields (fun g hg ↦ hf g (List.mem_append_left _ hg)) hbefore (by omega) hne]
  exact search_hit (hf f (by simp)) hhead (by omega)

theorem search_first {fields : List Field} {f : Field} (hf : ∀ g ∈ fields, g.WellFormed)
    (h : Holds m pos (encode fields)) (hl : pos + (encode fields).length ≤ limit)
    (hfind : fields.find? (fun g ↦ g.tag = tag) = some f) :
    ∃ q, search m limit tag pos = .found q ∧ Holds m q f.bytes ∧
      q + f.bytes.length ≤ pos + (encode fields).length := by
  obtain ⟨htag, before, after, rfl, hne⟩ := List.find?_eq_some_iff_append.mp hfind
  obtain rfl : f.tag = tag := by simpa using htag
  obtain ⟨hs, hholds⟩ := search_encode hf h hl fun g hg ↦ by simpa using hne g hg
  refine ⟨_, hs, hholds, ?_⟩
  rw [encode_append, encode_cons, List.length_append, List.length_append]
  omega

/-- A walk that ends before the limit does not see a later one. -/
theorem search_extend {limit' : ℕ} (hle : limit ≤ limit') (h : search m limit tag pos ≠ .escaped) :
    search m limit' tag pos = search m limit tag pos := by
  induction hn : limit - pos using Nat.strong_induction_on generalizing pos with
  | _ n ih =>
    rw [search_eq] at h
    split at h
    · exact absurd rfl h
    · rename_i hlt
      conv_lhs => rw [search_eq, if_neg (by omega)]
      conv_rhs => rw [search_eq, if_neg hlt]
      split
      · rfl
      · rename_i hgo
        rw [if_neg hgo] at h
        split at h
        · exact absurd rfl h
        · rename_i hlt'
          rw [if_neg (by omega), if_neg hlt']
          exact ih (limit - (pos + 2 + (m (pos + 1)).toNat)) (by omega) h rfl

/-- A walk that escapes does not come to an end among bytes 255. -/
theorem search_filler {limit' : ℕ} (h : search m limit tag pos = .escaped)
    (hm : ∀ i, limit ≤ i → i < limit' → m i = 255) (htag : tag ≠ 255) :
    search m limit' tag pos = .escaped := by
  induction hn : limit' - pos using Nat.strong_induction_on generalizing pos with
  | _ n ih =>
    rw [search_eq]
    split
    · rfl
    · rename_i hlt
      have hgo : ¬(m pos = tag ∨ m pos = 0) := by
        rcases Nat.lt_or_ge pos limit with hpos | hpos
        · intro hend
          rw [search_eq, if_neg (by omega), if_pos hend] at h
          split at h <;> cases h
        · rw [hm pos hpos (by omega)]
          exact not_or.mpr ⟨htag.symm, by decide⟩
      rw [if_neg hgo]
      split
      · rfl
      · refine ih (limit' - (pos + 2 + (m (pos + 1)).toNat)) (by omega) ?_ rfl
        rcases Nat.lt_or_ge (pos + 1) limit with hpos | hpos
        · rwa [search_eq, if_neg (by omega), if_neg hgo, if_neg (by omega)] at h
        · rw [search_eq, if_pos (by omega)]

section Walks

/-- The places where an unguarded walk looks for a tag. -/
inductive Visits (m : Memory) (tag : UInt8) : ℕ → ℕ → Prop
  | here (pos : ℕ) : Visits m tag pos pos
  | jump {pos q : ℕ} : m pos ≠ tag → m pos ≠ 0 →
      Visits m tag (pos + 2 + (m (pos + 1)).toNat) q → Visits m tag pos q

structure Stays (m : Memory) (limit : ℕ) (tag : UInt8) (pos : ℕ) : Prop where
  tags : ∀ q, Visits m tag pos q → q < limit
  lengths : ∀ q, Visits m tag pos q → m q ≠ 0 → q + 1 < limit
  values : ∀ q, Visits m tag pos q → m q = tag → m q ≠ 0 → q + 2 + (m (q + 1)).toNat ≤ limit

def Closed (m : Memory) (limit : ℕ) (tag : UInt8) (pos : ℕ) : Prop :=
  ∃ fields : List Field, (∀ f ∈ fields, f.WellFormed ∧ f.tag ≠ tag) ∧ Holds m pos (encode fields) ∧
    (pos + (encode fields).length < limit ∧ m (pos + (encode fields).length) = 0 ∨
      ∃ f : Field, f.WellFormed ∧ f.tag = tag ∧ Holds m (pos + (encode fields).length) f.bytes ∧
        pos + (encode fields).length + f.bytes.length ≤ limit)

def fieldAt (m : Memory) (pos : ℕ) : Field := ⟨m pos, read m (pos + 2) (m (pos + 1)).toNat⟩

theorem length_fieldAt : (fieldAt m pos).bytes.length = 2 + (m (pos + 1)).toNat := by
  rw [Field.length_bytes, fieldAt, length_read, Nat.add_comm]

theorem fieldAt_wellFormed (h : m pos ≠ 0) : (fieldAt m pos).WellFormed := by
  refine ⟨h, ?_⟩
  rw [fieldAt, length_read]
  exact (m (pos + 1)).toNat_lt

theorem holds_fieldAt : Holds m pos (fieldAt m pos).bytes := by
  rw [Field.bytes, fieldAt, holds_cons, holds_cons, length_read]
  exact ⟨rfl, by simp, holds_read⟩

theorem visits_field {f : Field} (hf : f.WellFormed) (h : Holds m pos f.bytes) (hne : f.tag ≠ tag) :
    Visits m tag pos q ↔ q = pos ∨ Visits m tag (pos + f.bytes.length) q := by
  obtain ⟨ht, hn, -⟩ := Field.holds h
  have hlen : (m (pos + 1)).toNat = f.value.length := by
    rw [hn, UInt8.toNat_ofNat']
    exact Nat.mod_eq_of_lt hf.2
  have hnext : pos + 2 + (m (pos + 1)).toNat = pos + f.bytes.length := by
    rw [hlen, Field.length_bytes]
    omega
  constructor
  · intro hv
    cases hv with
    | here => exact .inl rfl
    | jump _ _ hrest => exact .inr (hnext ▸ hrest)
  · rintro (rfl | hv)
    · exact .here q
    · exact .jump (ht ▸ hne) (ht ▸ hf.1) (hnext ▸ hv)

theorem visits_end (h : m pos = tag ∨ m pos = 0) : Visits m tag pos q ↔ q = pos := by
  constructor
  · intro hv
    cases hv with
    | here => rfl
    | jump hne hz => exact absurd h (not_or.mpr ⟨hne, hz⟩)
  · rintro rfl
    exact .here q

theorem Stays.of_field {f : Field} (hf : f.WellFormed) (h : Holds m pos f.bytes) (hne : f.tag ≠ tag)
    (hrest : Stays m limit tag (pos + f.bytes.length)) : Stays m limit tag pos := by
  have hnext := hrest.tags _ (.here _)
  have hlen : 2 ≤ f.bytes.length := by
    rw [Field.length_bytes]
    omega
  obtain ⟨ht, -, -⟩ := Field.holds h
  constructor
  · intro q hq
    rcases (visits_field hf h hne).mp hq with rfl | hq
    · omega
    · exact hrest.tags q hq
  · intro q hq hz
    rcases (visits_field hf h hne).mp hq with rfl | hq
    · omega
    · exact hrest.lengths q hq hz
  · intro q hq htag hz
    rcases (visits_field hf h hne).mp hq with rfl | hq
    · exact absurd (ht.symm.trans htag) hne
    · exact hrest.values q hq htag hz

theorem stays_of_zero (hlt : pos < limit) (hz : m pos = 0) : Stays m limit tag pos := by
  have hvisits {q : ℕ} : Visits m tag pos q → q = pos := (visits_end (.inr hz)).mp
  constructor
  · intro q hq
    rw [hvisits hq]
    exact hlt
  · intro q hq hne
    rw [hvisits hq] at hne
    exact absurd hz hne
  · intro q hq _ hne
    rw [hvisits hq] at hne
    exact absurd hz hne

theorem stays_of_tag (htag : m pos = tag) (hvalue : pos + 2 + (m (pos + 1)).toNat ≤ limit) :
    Stays m limit tag pos := by
  have hvisits {q : ℕ} : Visits m tag pos q → q = pos := (visits_end (.inl htag)).mp
  constructor
  · intro q hq
    rw [hvisits hq]
    omega
  · intro q hq _
    rw [hvisits hq]
    omega
  · intro q hq _ _
    rw [hvisits hq]
    exact hvalue

theorem Stays.jump (h : Stays m limit tag pos) (htag : m pos ≠ tag) (hz : m pos ≠ 0) :
    Stays m limit tag (pos + 2 + (m (pos + 1)).toNat) :=
  ⟨fun q hq ↦ h.tags q (.jump htag hz hq), fun q hq ↦ h.lengths q (.jump htag hz hq),
    fun q hq ↦ h.values q (.jump htag hz hq)⟩

theorem Closed.stays (h : Closed m limit tag pos) : Stays m limit tag pos := by
  obtain ⟨fields, hfields, hholds, hend⟩ := h
  induction fields generalizing pos with
  | nil =>
    rw [encode_nil, List.length_nil, Nat.add_zero] at hend
    rcases hend with ⟨hlt, hz⟩ | ⟨f, hf, htag, hf', hle⟩
    · exact stays_of_zero hlt hz
    · obtain ⟨ht, hn, -⟩ := Field.holds hf'
      have hlen : (m (pos + 1)).toNat = f.value.length := by
        rw [hn, UInt8.toNat_ofNat']
        exact Nat.mod_eq_of_lt hf.2
      rw [Field.length_bytes] at hle
      exact stays_of_tag (ht.trans htag) (by omega)
  | cons f fields ih =>
    obtain ⟨hf, hne⟩ := hfields f List.mem_cons_self
    rw [encode_cons, holds_append] at hholds
    rw [encode_cons, List.length_append, ← Nat.add_assoc] at hend
    have hrest : Stays m limit tag (pos + f.bytes.length) :=
      ih (fun g hg ↦ hfields g (List.mem_cons_of_mem f hg)) hholds.2 hend
    exact hrest.of_field hf hholds.1 hne

theorem Stays.closed (h : Stays m limit tag pos) : Closed m limit tag pos := by
  -- the walk goes up, so the distance to the limit goes down
  induction hn : limit - pos using Nat.strong_induction_on generalizing pos with
  | _ n ih =>
    have hlt := h.tags pos (.here pos)
    have hnil : Holds m pos (encode []) := fun i hi ↦ absurd hi (Nat.not_lt_zero i)
    by_cases hz : m pos = 0
    · exact ⟨[], by simp, hnil, .inl ⟨hlt, hz⟩⟩
    have hlength := h.lengths pos (.here pos) hz
    by_cases htag : m pos = tag
    · have hvalue := h.values pos (.here pos) htag hz
      refine ⟨[], by simp, hnil, .inr ⟨fieldAt m pos, fieldAt_wellFormed hz, htag, holds_fieldAt, ?_⟩⟩
      rw [length_fieldAt, encode_nil, List.length_nil]
      omega
    · have hrest : Stays m limit tag (pos + (fieldAt m pos).bytes.length) := by
        rw [length_fieldAt, ← Nat.add_assoc]
        exact h.jump htag hz
      have hdown : limit - (pos + (fieldAt m pos).bytes.length) < n := by
        rw [length_fieldAt]
        omega
      obtain ⟨fields, hfields, hholds, hend⟩ := ih _ hdown hrest rfl
      refine ⟨fieldAt m pos :: fields, ?_, ?_, ?_⟩
      · intro f hf
        rcases List.mem_cons.mp hf with rfl | hf
        · exact ⟨fieldAt_wellFormed hz, htag⟩
        · exact hfields f hf
      · rw [encode_cons, holds_append]
        exact ⟨holds_fieldAt, hholds⟩
      · rw [encode_cons, List.length_append, ← Nat.add_assoc]
        exact hend

theorem Stays.ends (h : Stays m limit tag pos) : ∃ q, Visits m tag pos q ∧ (m q = tag ∨ m q = 0) := by
  induction hn : limit - pos using Nat.strong_induction_on generalizing pos with
  | _ n ih =>
    have hlt := h.tags pos (.here pos)
    by_cases hend : m pos = tag ∨ m pos = 0
    · exact ⟨pos, .here pos, hend⟩
    · obtain ⟨htag, hz⟩ := not_or.mp hend
      obtain ⟨q, hq, hstop⟩ := ih (limit - (pos + 2 + (m (pos + 1)).toNat)) (by omega)
        (h.jump htag hz) rfl
      exact ⟨q, .jump htag hz hq, hstop⟩

theorem search_jump (hlt : pos + 1 < limit) (htag : m pos ≠ tag) (hz : m pos ≠ 0) :
    search m limit tag pos = search m limit tag (pos + 2 + (m (pos + 1)).toNat) := by
  conv_lhs => rw [search_eq, if_neg (by omega), if_neg (not_or.mpr ⟨htag, hz⟩), if_neg (by omega)]

/-- What the guarded walk finds when the unguarded one stays inside. -/
theorem Stays.search (h : Stays m limit tag pos) :
    (∃ q, search m limit tag pos = .found q ∧ Visits m tag pos q ∧ m q = tag ∧ m q ≠ 0) ∨
      search m limit tag pos = .absent := by
  induction hn : limit - pos using Nat.strong_induction_on generalizing pos with
  | _ n ih =>
    have hlt := h.tags pos (.here pos)
    by_cases hz : m pos = 0
    · right
      rw [search_eq, if_neg (by omega), if_pos (.inr hz), if_pos hz]
    by_cases htag : m pos = tag
    · left
      refine ⟨pos, ?_, .here pos, htag, hz⟩
      rw [search_eq, if_neg (by omega), if_pos (.inl htag), if_neg hz]
    · rw [search_jump (h.lengths pos (.here pos) hz) htag hz]
      rcases ih (limit - (pos + 2 + (m (pos + 1)).toNat)) (by omega) (h.jump htag hz) rfl with
        ⟨q, hs, hq, hrest⟩ | hs
      · exact .inl ⟨q, hs, .jump htag hz hq, hrest⟩
      · exact .inr hs

/-- The unguarded walk stays inside when the guarded one does not escape, nor the value found. -/
theorem stays_of_search (hs : search m limit tag pos ≠ .escaped)
    (hvalue : ∀ q, search m limit tag pos = .found q → q + 2 + (m (q + 1)).toNat ≤ limit) :
    Stays m limit tag pos := by
  induction hn : limit - pos using Nat.strong_induction_on generalizing pos with
  | _ n ih =>
    have hlt : pos < limit := by
      by_contra hge
      rw [search_eq, if_pos (by omega)] at hs
      exact hs rfl
    by_cases hz : m pos = 0
    · exact stays_of_zero hlt hz
    by_cases htag : m pos = tag
    · refine stays_of_tag htag (hvalue pos ?_)
      rw [search_eq, if_neg (by omega), if_pos (.inl htag), if_neg hz]
    · have hlength : pos + 1 < limit := by
        by_contra hge
        rw [search_eq, if_neg (by omega), if_neg (not_or.mpr ⟨htag, hz⟩), if_pos (by omega)] at hs
        exact hs rfl
      rw [search_jump hlength htag hz] at hs hvalue
      have hrest := ih (limit - (pos + 2 + (m (pos + 1)).toNat)) (by omega) hs hvalue rfl
      rw [Nat.add_assoc, Nat.add_comm 2, ← Nat.add_assoc] at hrest
      refine Stays.of_field (f := fieldAt m pos) (fieldAt_wellFormed hz) holds_fieldAt htag ?_
      rw [length_fieldAt, Nat.add_comm 2, ← Nat.add_assoc]
      exact hrest

end Walks

end InternetApplications.TagScan
