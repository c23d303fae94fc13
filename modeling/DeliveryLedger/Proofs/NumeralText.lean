import DeliveryLedger.Proofs.NumberText
import DeliveryLedger.Decimal.Numeral
/-!
Decimal numerals within the limits read back from their text.

A numeral is written in one of four layouts.  Each is a row of digits, perhaps with a point
among them and an exponent behind them (`Spells`), and every such row is read.
-/

namespace DeliveryLedger.Decimal.Numeral

open DeliveryLedger.Json

/-- The digits lie within the powers of ten that a numeral may have. -/
def InLimits (n : Numeral) : Prop :=
  n.exponent + digitCount n.coefficient - 1 ≤ exponentLimit ∧ 1 - 2 * exponentLimit ≤ n.exponent

instance (n : Numeral) : Decidable n.InLimits := inferInstanceAs (Decidable (_ ∧ _))

variable {negative : Bool} {whole behind : List Char}

theorem exponent?_append {ds : List Char} {exponent : Int} (hds : AreDigits ds) (hne : ds ≠ [])
    (hvalue : ofDigits ds = exponent.natAbs) :
    exponent? (signOf exponent :: ds) = some exponent := by
  have hall : ds ≠ [] ∧ ds.all isDigit = true := ⟨hne, List.all_eq_true.mpr hds⟩
  by_cases hsign : exponent < 0
  · have hnegative : -(exponent.natAbs : Int) = exponent := by omega
    rw [signOf, if_pos hsign]
    simp only [exponent?, if_pos hall, hvalue, if_true, hnegative]
  · have hpositive : (exponent.natAbs : Int) = exponent := by omega
    rw [signOf, if_neg hsign]
    simp only [exponent?, if_pos hall, hvalue, Bool.false_eq_true, if_false, hpositive]

theorem mem_pointed {c : Char} (h : c ∈ pointed behind) : c = '.' ∨ c ∈ behind := by
  cases behind with
  | nil => cases h
  | cons d ds => exact List.mem_cons.mp h

theorem not_mark_of_mem {c : Char} (hwhole : AreDigits whole) (hbehind : AreDigits behind)
    (hc : c ∈ whole ++ pointed behind) : (!(c == 'e' || c == 'E')) = true := by
  have hdigit : isDigit c = true ∨ c = '.' := by
    rcases List.mem_append.mp hc with hc | hc
    · exact .inl (hwhole c hc)
    · rcases mem_pointed hc with rfl | hc
      · exact .inr rfl
      · exact .inl (hbehind c hc)
  rcases hdigit with hdigit | rfl
  · cases hmark : c == 'e' || c == 'E' with
    | false => rfl
    | true =>
        rw [Bool.or_eq_true, beq_iff_eq, beq_iff_eq] at hmark
        rcases hmark with rfl | rfl <;> exact absurd hdigit (by decide)
  · rfl

/-- What may stand behind the mantissa: nothing, or the text of an exponent. -/
def IsExponent (exponent : Int) (tail : List Char) : Prop :=
  (tail = [] ∧ exponent = 0) ∨
    tail = 'E' :: signOf exponent :: toDigits exponent.natAbs

theorem mantissa_eq {tail : List Char} {exponent : Int} (hwhole : AreDigits whole)
    (hbehind : AreDigits behind) (htail : IsExponent exponent tail) :
    (whole ++ pointed behind ++ tail).takeWhile (fun c => !(c == 'e' || c == 'E')) =
        whole ++ pointed behind ∧
      (whole ++ pointed behind ++ tail).dropWhile (fun c => !(c == 'e' || c == 'E')) = tail := by
  rw [List.takeWhile_append_of_pos fun c hc => not_mark_of_mem hwhole hbehind hc,
    List.dropWhile_append_of_pos fun c hc => not_mark_of_mem hwhole hbehind hc]
  rcases htail with ⟨rfl, -⟩ | rfl <;> simp

theorem unsigned?_eq {tail : List Char} {exponent : Int} (hwhole : AreDigits whole)
    (hne : whole ≠ []) (hbehind : AreDigits behind) (htail : IsExponent exponent tail)
    (hlimits : InLimits ⟨negative, ofDigits (whole ++ behind), exponent - behind.length⟩) :
    unsigned? negative (whole ++ pointed behind ++ tail) =
      some ⟨negative, ofDigits (whole ++ behind), exponent - behind.length⟩ := by
  obtain ⟨hmantissa, hrest⟩ := mantissa_eq hwhole hbehind htail
  have hpoint : NoDigit (pointed behind ++ []) := noDigit_pointed (by simp [NoDigit])
  have hrun := digitRun_append hwhole (List.append_nil (pointed behind) ▸ hpoint)
  have htake : (whole ++ pointed behind).takeWhile isDigit = whole := congrArg Prod.fst hrun
  have hdrop : (whole ++ pointed behind).dropWhile isDigit = pointed behind :=
    congrArg Prod.snd hrun
  have hbounds : ¬(exponentLimit < exponent - behind.length +
      digitCount (ofDigits (whole ++ behind)) - 1 ∨
        exponent - behind.length < 1 - 2 * exponentLimit) := by
    rw [not_or, Int.not_lt, Int.not_lt]
    exact hlimits
  have hpart : ∀ d ds, behind = d :: ds → (d :: ds).all isDigit = true := by
    rintro d ds rfl
    exact List.all_eq_true.mpr hbehind
  unfold unsigned?
  simp only [hmantissa, hrest, htake, hdrop]
  rcases htail with ⟨rfl, rfl⟩ | rfl
  · cases behind with
    | nil =>
        simp only [pointed, Option.bind_eq_bind, Option.bind_some, hne, false_and, if_false,
          if_neg hbounds]
    | cons d ds =>
        simp only [pointed, hpart d ds rfl, if_true, Option.bind_eq_bind, Option.bind_some,
          hne, false_and, if_false, if_neg hbounds]
  · have hread := exponent?_append (areDigits_toDigits exponent.natAbs) (toDigits_ne_nil _)
      (ofDigits_toDigits exponent.natAbs)
    cases behind with
    | nil =>
        simp only [pointed, hread, Option.bind_eq_bind, Option.bind_some, hne, false_and,
          if_false, if_neg hbounds]
    | cons d ds =>
        simp only [pointed, hpart d ds rfl, hread, if_true, Option.bind_eq_bind, Option.bind_some,
          hne, false_and, if_false, if_neg hbounds]

/-- The texts of a numeral without its sign: digits, perhaps with a point among them, and
perhaps an exponent behind them. -/
inductive Spells (coefficient : Nat) (last : Int) : List Char → Prop
  | parts {whole behind tail : List Char} {exponent : Int} (hwhole : AreDigits whole)
      (hne : whole ≠ []) (hbehind : AreDigits behind) (htail : IsExponent exponent tail)
      (hvalue : ofDigits (whole ++ behind) = coefficient)
      (hlast : exponent - behind.length = last) :
      Spells coefficient last (whole ++ pointed behind ++ tail)

section layouts

variable {ds : List Char} {coefficient : Nat} {last : Int}

theorem spells_whole (hds : AreDigits ds) (hne : ds ≠ []) (hvalue : ofDigits ds = coefficient) :
    Spells coefficient 0 ds := by
  have htext : ds = ds ++ pointed [] ++ [] := by simp [pointed]
  rw [htext]
  refine .parts hds hne (by simp [AreDigits]) (.inl ⟨rfl, rfl⟩) ?_ (by simp)
  rw [List.append_nil]
  exact hvalue

theorem spells_small {zeros : Nat} (hds : AreDigits ds) (hne : ds ≠ [])
    (hvalue : ofDigits ds = coefficient) (hlast : last + ds.length + zeros = 0) :
    Spells coefficient last ('0' :: '.' :: (List.replicate zeros '0' ++ ds)) := by
  have hzeros : List.replicate zeros '0' ++ ds ≠ [] :=
    List.append_ne_nil_of_right_ne_nil _ hne
  have htext : '0' :: '.' :: (List.replicate zeros '0' ++ ds) =
      ['0'] ++ pointed (List.replicate zeros '0' ++ ds) ++ [] := by
    rw [pointed_of_ne_nil hzeros, List.append_nil]
    rfl
  rw [htext]
  refine .parts (areDigits_zeros 1) (by simp) ((areDigits_zeros _).append hds)
    (.inl ⟨rfl, rfl⟩) ?_ ?_
  · rw [← hvalue]
    exact (ofDigits_zeros_append 1 _).trans (ofDigits_zeros_append _ ds)
  · rw [List.length_append, List.length_replicate]
    omega

theorem spells_split {before : Nat} (hds : AreDigits ds) (hne : ds ≠ [])
    (hvalue : ofDigits ds = coefficient) (hpos : 0 < before) (hlt : before < ds.length)
    (hlast : last + ds.length = before) :
    Spells coefficient last (ds.take before ++ '.' :: ds.drop before) := by
  have hsplit := List.take_append_drop before ds
  obtain ⟨htake, hdrop⟩ := AreDigits.of_append (hsplit.symm ▸ hds)
  have hbehind : ds.drop before ≠ [] := by
    rw [ne_eq, List.drop_eq_nil_iff]
    omega
  have hfront : ds.take before ≠ [] := by
    rw [ne_eq, List.take_eq_nil_iff]
    rintro (hzero | hnil)
    · omega
    · exact hne hnil
  have htext : ds.take before ++ '.' :: ds.drop before =
      ds.take before ++ pointed (ds.drop before) ++ [] := by
    rw [pointed_of_ne_nil hbehind, List.append_nil]
  rw [htext]
  refine .parts htake hfront hdrop (.inl ⟨rfl, rfl⟩) ?_ ?_
  · rw [hsplit, hvalue]
  · rw [List.length_drop]
    omega

theorem spells_scientific {exponent : Int} (hds : AreDigits ds) (hne : ds ≠ [])
    (hvalue : ofDigits ds = coefficient) (hlast : last + ds.length - 1 = exponent) :
    Spells coefficient last (ds.take 1 ++ pointed (ds.drop 1) ++
      'E' :: signOf exponent :: toDigits exponent.natAbs) := by
  obtain ⟨d, ds, rfl⟩ := List.exists_cons_of_ne_nil hne
  obtain ⟨hd, hbehind⟩ := areDigits_cons hds
  refine .parts hd (by simp) hbehind (.inr rfl) hvalue ?_
  rw [List.length_cons] at hlast
  simp only [List.drop_succ_cons, List.drop_zero]
  omega

end layouts

theorem chars_eq (n : Numeral) : ∃ body, Spells n.coefficient n.exponent body ∧
    n.chars = if n.negative then '-' :: body else body := by
  have hdigits := areDigits_toDigits n.coefficient
  have hne := toDigits_ne_nil n.coefficient
  have hvalue := ofDigits_toDigits n.coefficient
  have hlen : 0 < (toDigits n.coefficient).length := List.length_pos_iff.mpr hne
  unfold chars
  extract_lets ds point later body
  refine ⟨body, ?_, rfl⟩
  have hlater : (if later = [] then [] else '.' :: later) = pointed (ds.drop 1) := by
    show (if ds.drop 1 = [] then [] else '.' :: ds.drop 1) = _
    cases ds.drop 1 <;> rfl
  have hsign : (if 0 ≤ point - 1 then '+' else '-') = signOf (point - 1) := by
    unfold signOf
    split_ifs <;> first | rfl | omega
  have hpoint : n.exponent + (ds.length : Int) = point := rfl
  have hds : toDigits n.coefficient = ds := rfl
  rw [hds] at hdigits hne hvalue hlen
  simp only [body, hlater, hsign]
  clear_value body later point ds
  split_ifs with hplace hbelow hzero hwhole
  · omega
  · exact spells_small hdigits hne hvalue (by omega)
  · have hlast : n.exponent = 0 := by omega
    rw [hlast]
    exact spells_whole hdigits hne hvalue
  · exact spells_split hdigits hne hvalue (by omega) (by omega) (by omega)
  · exact spells_scientific hdigits hne hvalue (by omega)

/-- The characters that numerals are written with. -/
def IsPlain (c : Char) : Prop := isDigit c = true ∨ c = '.' ∨ c = 'E' ∨ c = '+' ∨ c = '-'

theorem Spells.isPlain {coefficient : Nat} {last : Int} {body : List Char}
    (h : Spells coefficient last body) : ∀ c ∈ body, IsPlain c := by
  cases h with
  | parts hwhole _ hbehind htail _ _ =>
      intro c hc
      rcases List.mem_append.mp hc with hc | hc
      · rcases List.mem_append.mp hc with hc | hc
        · exact .inl (hwhole c hc)
        · rcases mem_pointed hc with rfl | hc
          · exact .inr (.inl rfl)
          · exact .inl (hbehind c hc)
      · rcases htail with ⟨rfl, -⟩ | rfl
        · cases hc
        rcases List.mem_cons.mp hc with hc | hc
        · exact .inr (.inr (.inl hc))
        rcases List.mem_cons.mp hc with hc | hc
        · unfold signOf at hc
          split at hc
          · exact .inr (.inr (.inr (.inr hc)))
          · exact .inr (.inr (.inr (.inl hc)))
        · exact .inl (areDigits_toDigits _ c hc)

theorem isPlain_of_mem_chars (n : Numeral) : ∀ c ∈ n.chars, IsPlain c := by
  obtain ⟨body, hbody, hchars⟩ := n.chars_eq
  intro c hc
  rw [hchars] at hc
  split at hc
  · rcases List.mem_cons.mp hc with hc | hc
    · exact .inr (.inr (.inr (.inr hc)))
    · exact hbody.isPlain c hc
  · exact hbody.isPlain c hc

theorem IsPlain.left_alone {c : Char} (h : IsPlain c) :
    c.toNat < 128 ∧ Text.isBlank c = false ∧ c ≠ '_' := by
  rcases h with hdigit | rfl | rfl | rfl | rfl
  · have hrange : 48 ≤ c.toNat ∧ c.toNat ≤ 57 := by simpa [isDigit] using hdigit
    refine ⟨by omega, ?_, ?_⟩
    · simp [Text.isBlank, Text.blankRanges]
      omega
    · rintro rfl
      exact absurd hdigit (by decide)
  all_goals exact ⟨by decide, by decide, by decide⟩

theorem dropWhile_isBlank {cs : List Char} (h : ∀ c ∈ cs, Text.isBlank c = false) :
    cs.dropWhile Text.isBlank = cs := by
  cases cs with
  | nil => rfl
  | cons c cs => exact List.dropWhile_cons_of_neg (by simp [h c])

theorem trim_of_not_blank {cs : List Char} (h : ∀ c ∈ cs, Text.isBlank c = false) :
    Text.trim cs = cs := by
  unfold Text.trim Text.trimStart Text.trimEnd
  rw [dropWhile_isBlank h, dropWhile_isBlank fun c hc => h c (List.mem_reverse.mp hc),
    List.reverse_reverse]

theorem Spells.unsigned? {coefficient : Nat} {last : Int} {body : List Char}
    (h : Spells coefficient last body) (hlimits : InLimits ⟨negative, coefficient, last⟩) :
    unsigned? negative body = some ⟨negative, coefficient, last⟩ := by
  cases h with
  | parts hwhole hne hbehind htail hvalue hlast =>
      subst hvalue hlast
      exact unsigned?_eq hwhole hne hbehind htail hlimits

theorem Spells.head {coefficient : Nat} {last : Int} {body : List Char}
    (h : Spells coefficient last body) : ∃ d ds, body = d :: ds ∧ isDigit d = true := by
  cases h with
  | parts hwhole hne _ _ _ _ =>
      obtain ⟨d, ds, rfl⟩ := List.exists_cons_of_ne_nil hne
      exact ⟨d, _, rfl, hwhole d List.mem_cons_self⟩

/-- The text of a numeral reads back as the numeral. -/
theorem parse?_text {n : Numeral} (h : n.InLimits) : parse? n.text = some n := by
  have hplain := n.isPlain_of_mem_chars
  have htrim := trim_of_not_blank fun c hc => (hplain c hc).left_alone.2.1
  have hascii := Text.plainDigits_of_ascii fun c hc => (hplain c hc).left_alone.1
  have hmarks : n.chars.filter (fun c => decide (c ≠ '_')) = n.chars :=
    List.filter_eq_self.mpr fun c hc => decide_eq_true (hplain c hc).left_alone.2.2
  obtain ⟨body, hbody, hchars⟩ := n.chars_eq
  have hread : unsigned? n.negative body = some n := hbody.unsigned? h
  unfold parse?
  rw [text, String.toList_ofList, htrim, hascii, hmarks, hchars]
  cases hsign : n.negative with
  | true =>
      rw [hsign] at hread
      exact hread
  | false =>
      rw [hsign] at hread
      obtain ⟨d, ds, rfl, hd⟩ := hbody.head
      rw [if_neg Bool.false_ne_true]
      split
      · rename_i heq
        obtain ⟨rfl, -⟩ := List.cons.inj heq
        exact absurd hd (by decide)
      · rename_i heq
        obtain ⟨rfl, -⟩ := List.cons.inj heq
        exact absurd hd (by decide)
      · exact hread

theorem inLimits_of_unsigned? {cs : List Char} {n : Numeral}
    (h : unsigned? negative cs = some n) : n.InLimits := by
  have hguard : ∀ (coefficient : Nat) (last : Int), (if exponentLimit <
        last + digitCount coefficient - 1 ∨ last < 1 - 2 * exponentLimit then none
      else some ⟨negative, coefficient, last⟩) = some n → n.InLimits := by
    intro coefficient last h
    split at h
    · cases h
    · rename_i hbounds
      cases h
      rw [not_or, Int.not_lt, Int.not_lt] at hbounds
      exact hbounds
  unfold unsigned? at h
  extract_lets isMark mantissa whole withExponent at h
  have hexponent : ∀ exponent, withExponent exponent = some n → n.InLimits := by
    intro exponent h
    simp only [withExponent, Option.bind_eq_bind, Option.bind_some, Option.bind_none] at h
    split at h
    · split at h
      · cases h
      · exact hguard _ _ h
    · split at h
      · split at h
        · cases h
        · exact hguard _ _ h
      · cases h
    · cases h
  split at h
  · exact hexponent 0 h
  · obtain ⟨exponent, -, h⟩ := Option.bind_eq_some_iff.mp h
    exact hexponent exponent h

theorem inLimits_of_parse? {s : String} {n : Numeral} (h : parse? s = some n) : n.InLimits := by
  unfold parse? at h
  split at h
  · exact inLimits_of_unsigned? h
  · exact inLimits_of_unsigned? h
  · exact inLimits_of_unsigned? h

end DeliveryLedger.Decimal.Numeral
