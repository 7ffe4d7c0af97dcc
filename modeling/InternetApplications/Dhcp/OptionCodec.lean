import InternetApplications.Dhcp.Options

namespace InternetApplications.Dhcp

open ByteMemory TagScan

/-- The options one after another, each at the sum of the sizes before it, and `OPTION_END`
with one zero byte. -/
def writeOptions (p : DhcpT) (fields : List Field) : DhcpT × ℕ :=
  appendOption (fields.foldl (fun w f ↦ appendOption w f.tag f.value) (p, 0)) optionEnd [0]

/-- What `get_dhcp_option` owes for a tag: the first option that has it, or none. -/
def Recovers (p : DhcpT) (fields : List Field) (tag : UInt8) : Prop :=
  (∀ before f after, fields = before ++ f :: after → (∀ g ∈ before, g.tag ≠ tag) → f.tag = tag →
    ∃ len o, getDhcpOption p tag = .ok (len, some o) ∧ len.toNat = f.value.length ∧
      o = (encode before).length + 2 ∧ Holds p.options o f.value ∧
      o + f.value.length ≤ dhcpMaxOptionLen) ∧
  ((∀ f ∈ fields, f.tag ≠ tag) → getDhcpOption p tag = .ok (0, none))

variable {p : DhcpT} {fields : List Field} {tag : UInt8}

theorem foldl_appendOption (p : DhcpT) (fields : List Field) :
    fields.foldl (fun w f ↦ appendOption w f.tag f.value) (p, 0) = packed p fields := by
  induction fields using List.reverseRecOn with
  | nil => exact (packed_nil p).symm
  | append_singleton fields f ih =>
    rw [List.foldl_append, ih]
    exact appendOption_packed p fields f.tag f.value

theorem writeOptions_eq (p : DhcpT) (fields : List Field) :
    writeOptions p fields = packed p (fields ++ [endField]) := by
  rw [writeOptions, foldl_appendOption, appendOption_packed]
  rfl

theorem packed_behind {o : ℕ} (h : (encode fields).length ≤ o) :
    DhcpT.options (packed p fields).1 o = p.options o := by
  simp only [DhcpT.options, packed]
  exact write_after (by omega)

theorem packed_carries (hf : ∀ f ∈ fields, f.WellFormed)
    (hfits : (packed p fields).2 ≤ dhcpMaxOptionLen) : Carries (packed p fields).1 fields := by
  refine ⟨hf, hfits, ?_⟩
  intro i hi
  rw [DhcpT.options, packed, Nat.zero_add]
  exact write_at hi

theorem Carries.escapes (h : Carries p fields) (hfull : (encode fields).length = dhcpMaxOptionLen)
    (hne : ∀ f ∈ fields, f.tag ≠ tag) : Dhcp.getDhcpOption p tag = .error .outOfBounds := by
  have hfits := h.fits
  have hs : search p.options dhcpMaxOptionLen tag 0 = _ :=
    search_fields h.wellFormed h.holds (by omega) hne
  have hend : search p.options dhcpMaxOptionLen tag (encode fields).length = .escaped := by
    rw [search_eq, if_pos (by omega)]
  rw [Nat.zero_add] at hs
  rw [Dhcp.getDhcpOption, hs, hend]

theorem writeOptions_carries (hf : ∀ f ∈ fields, f.tag ≠ 0 ∧ f.value.length ≤ 255)
    (hfits : (writeOptions p fields).2 ≤ dhcpMaxOptionLen) :
    Carries (writeOptions p fields).1 (fields ++ [endField]) := by
  rw [writeOptions_eq] at hfits ⊢
  apply packed_carries _ hfits
  intro f hmem
  rcases List.mem_append.mp hmem with hmem | hmem
  · obtain ⟨htag, hlen⟩ := hf f hmem
    exact ⟨htag, by omega⟩
  · obtain rfl := List.mem_singleton.mp hmem
    decide

theorem Carries.recovers_first {before after : List Field} {f : Field}
    (h : Carries p (before ++ f :: after ++ [endField])) (hne : ∀ g ∈ before, g.tag ≠ f.tag) :
    ∃ len o, Dhcp.getDhcpOption p f.tag = .ok (len, some o) ∧ len.toNat = f.value.length ∧
      o = (encode before).length + 2 ∧ Holds p.options o f.value ∧
      o + f.value.length ≤ dhcpMaxOptionLen := by
  have hsplit : before ++ f :: after ++ [endField] = before ++ f :: (after ++ [endField]) := by
    rw [List.append_assoc, List.cons_append]
  rw [hsplit] at h
  obtain ⟨hg, hholds, hlen⟩ := h.getDhcpOption hne
  refine ⟨_, _, hg, ?_, rfl, hholds, hlen⟩
  rw [UInt8.toNat_ofNat']
  exact Nat.mod_eq_of_lt (h.wellFormed f (by simp)).2

/-- The written options are all recovered, except that the walk for a missing one leaves the area
when the options fill it to its last byte. -/
theorem written_options_recovered_iff (p : DhcpT) (fields : List Field) (tag : UInt8)
    (hzero : ∀ i < dhcpMaxOptionLen, p.options i = 0)
    (hfields : ∀ f ∈ fields, 1 ≤ f.tag ∧ f.tag ≤ 254 ∧ f.value.length ≤ 255)
    (hfits : (writeOptions p fields).2 ≤ dhcpMaxOptionLen) (htag : 1 ≤ tag ∧ tag ≤ 254) :
    Recovers (writeOptions p fields).1 fields tag ↔
      (∃ f ∈ fields, f.tag = tag) ∨ (writeOptions p fields).2 < dhcpMaxOptionLen := by
  have hcarries : Carries (writeOptions p fields).1 (fields ++ [endField]) := by
    apply writeOptions_carries _ hfits
    intro f hf
    obtain ⟨hlow, -, hlen⟩ := hfields f hf
    refine ⟨?_, hlen⟩
    intro h0
    rw [h0] at hlow
    exact absurd hlow (by decide)
  have hend : endField.tag ≠ tag := by
    intro h255
    rw [← h255] at htag
    exact absurd htag.2 (by decide)
  have hsize : (writeOptions p fields).2 = (encode (fields ++ [endField])).length := by
    rw [writeOptions_eq]
    rfl
  have habsent (hne : ∀ f ∈ fields, f.tag ≠ tag) : ∀ f ∈ fields ++ [endField], f.tag ≠ tag := by
    intro f hf
    rcases List.mem_append.mp hf with hf | hf
    · exact hne f hf
    · rwa [List.mem_singleton.mp hf]
  constructor
  · intro h
    by_contra hcon
    obtain ⟨hnone, hfull⟩ := not_or.mp hcon
    have hne : ∀ f ∈ fields, f.tag ≠ tag := fun f hf he ↦ hnone ⟨f, hf, he⟩
    have hescape := hcarries.escapes (by omega) (habsent hne)
    rw [h.2 hne] at hescape
    cases hescape
  · intro h
    constructor
    · rintro before f after rfl hne rfl
      exact hcarries.recovers_first hne
    · intro hne
      have hlt : (writeOptions p fields).2 < dhcpMaxOptionLen := by
        apply h.resolve_left
        rintro ⟨f, hf, he⟩
        exact hne f hf he
      rw [hsize] at hlt
      apply hcarries.absent hlt _ (habsent hne)
      rw [writeOptions_eq, packed_behind le_rfl]
      exact hzero _ hlt

theorem written_options_recovered_three :
    Recovers (writeOptions DhcpT.zero [⟨50, [53, 0, 54]⟩, ⟨53, []⟩, ⟨50, [1]⟩]).1
      [⟨50, [53, 0, 54]⟩, ⟨53, []⟩, ⟨50, [1]⟩] 54 :=
  (written_options_recovered_iff DhcpT.zero [⟨50, [53, 0, 54]⟩, ⟨53, []⟩, ⟨50, [1]⟩] 54
    (fun _ _ ↦ rfl) (by decide) (by decide) (by decide)).mpr (.inr (by decide))

/-- Five options that fill the area, none of them option 53. -/
theorem written_options_escape :
    ¬ ∀ (p : DhcpT) (fields : List Field) (tag : UInt8),
      (∀ i < dhcpMaxOptionLen, p.options i = 0) →
      (∀ f ∈ fields, 1 ≤ f.tag ∧ f.tag ≤ 254 ∧ f.value.length ≤ 255) →
      (writeOptions p fields).2 ≤ dhcpMaxOptionLen → 1 ≤ tag ∧ tag ≤ 254 →
        Recovers (writeOptions p fields).1 fields tag := by
  intro h
  have hfull := (h DhcpT.zero (List.replicate 4 ⟨12, List.replicate 255 1⟩ ++
    [⟨12, List.replicate 199 1⟩]) 53 (fun _ _ ↦ rfl) (by decide +kernel) (by decide +kernel)
    (by decide)).2 (by decide +kernel)
  have hescape : getDhcpOption (writeOptions DhcpT.zero (List.replicate 4 ⟨12, List.replicate 255 1⟩ ++
    [⟨12, List.replicate 199 1⟩])).1 53 = .error .outOfBounds := by decide +kernel
  rw [hescape] at hfull
  cases hfull

end InternetApplications.Dhcp
