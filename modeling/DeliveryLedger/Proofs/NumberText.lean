import DeliveryLedger.Proofs.Rounding
import DeliveryLedger.Json.Canonical
import DeliveryLedger.Json.Parser
/-!
Texts of numbers read back as the numbers.

Integers and floating-point numbers are read by the reader of JSON, which stops at the first
character that cannot belong to a number (`Json.Stops`).
-/

namespace DeliveryLedger.Decimal

/-! ### Rows of digits -/

/-- Nothing but decimal digits. -/
def AreDigits (cs : List Char) : Prop := ∀ c ∈ cs, isDigit c = true

theorem areDigits_toDigits (n : Nat) : AreDigits (toDigits n) :=
  fun _ hc => isDigit_of_mem_toDigits hc

theorem areDigits_zeros (k : Nat) : AreDigits (List.replicate k '0') := by
  intro c hc
  rw [List.eq_of_mem_replicate hc]
  rfl

theorem AreDigits.append {xs ys : List Char} (hx : AreDigits xs) (hy : AreDigits ys) :
    AreDigits (xs ++ ys) := by
  intro c hc
  rcases List.mem_append.mp hc with hc | hc
  · exact hx c hc
  · exact hy c hc

theorem AreDigits.of_append {xs ys : List Char} (h : AreDigits (xs ++ ys)) :
    AreDigits xs ∧ AreDigits ys := by
  constructor
  · intro c hc
    exact h c (List.mem_append_left _ hc)
  · intro c hc
    exact h c (List.mem_append_right _ hc)

theorem areDigits_cons {d : Char} {ds : List Char} (h : AreDigits (d :: ds)) :
    AreDigits [d] ∧ AreDigits ds :=
  AreDigits.of_append h

theorem ofDigitsFrom_eq (start : Nat) (ds : List Char) :
    ofDigitsFrom start ds = start * 10 ^ ds.length + ofDigits ds := by
  induction ds generalizing start with
  | nil => simp [ofDigitsFrom, ofDigits]
  | cons d ds ih =>
      have hstart := ih (10 * start + digitValue d)
      have hzero := ih (10 * 0 + digitValue d)
      calc ofDigitsFrom start (d :: ds) = ofDigitsFrom (10 * start + digitValue d) ds := rfl
        _ = start * 10 ^ (d :: ds).length + ofDigitsFrom (10 * 0 + digitValue d) ds := by
          rw [hstart, hzero, List.length_cons, pow_succ]
          ring
        _ = start * 10 ^ (d :: ds).length + ofDigits (d :: ds) := rfl

theorem ofDigits_append (xs ys : List Char) :
    ofDigits (xs ++ ys) = ofDigits xs * 10 ^ ys.length + ofDigits ys := by
  rw [ofDigits, ofDigitsFrom_append, ofDigitsFrom_eq]
  rfl

theorem ofDigits_zeros (k : Nat) : ofDigits (List.replicate k '0') = 0 := by
  induction k with
  | zero => rfl
  | succ k ih =>
      rw [List.replicate_succ', ofDigits_append, ih, Nat.zero_mul]
      rfl

theorem ofDigits_zeros_append (k : Nat) (ds : List Char) :
    ofDigits (List.replicate k '0' ++ ds) = ofDigits ds := by
  rw [ofDigits_append, ofDigits_zeros, Nat.zero_mul, Nat.zero_add]

theorem ofDigits_append_zeros (ds : List Char) (k : Nat) :
    ofDigits (ds ++ List.replicate k '0') = ofDigits ds * 10 ^ k := by
  rw [ofDigits_append, ofDigits_zeros, List.length_replicate, Nat.add_zero]

/-- A row of digits that stands for a number: not empty, and no zero before another digit. -/
structure IsNumber (ds : List Char) : Prop where
  digits : AreDigits ds
  nonempty : ds ≠ []
  plain : ∀ rest, ds = '0' :: rest → rest = []

theorem isNumber_toDigits (n : Nat) : IsNumber (toDigits n) := by
  refine ⟨areDigits_toDigits n, toDigits_ne_nil n, ?_⟩
  fun_induction toDigits n with
  | case1 n hn =>
      intro rest h
      exact (List.cons.inj h).2.symm
  | case2 n hn ih =>
      intro rest h
      cases hds : toDigits (n / 10) with
      | nil => exact absurd hds (toDigits_ne_nil _)
      | cons d ds =>
          -- a leading zero would be the only digit of `n / 10`
          rw [hds, List.cons_append] at h
          obtain ⟨rfl, -⟩ := List.cons.inj h
          obtain rfl := ih ds hds
          have hzero := congrArg ofDigits hds
          rw [ofDigits_toDigits] at hzero
          have : ofDigits ['0'] = 0 := rfl
          omega

theorem isNumber_singleton {d : Char} (h : isDigit d = true) : IsNumber [d] := by
  refine ⟨?_, by simp, ?_⟩
  · intro c hc
    rw [List.mem_singleton.mp hc]
    exact h
  · intro rest h
    exact (List.cons.inj h).2.symm

end DeliveryLedger.Decimal

namespace DeliveryLedger.Json

open DeliveryLedger.Decimal

/-- No digit stands in front. -/
def NoDigit (rest : List Char) : Prop := ∀ c ∈ rest.head?, isDigit c = false

/-- No character in front that would go on with a number. -/
def Stops (rest : List Char) : Prop :=
  ∀ c ∈ rest.head?, isDigit c = false ∧ c ≠ '.' ∧ c ≠ 'e' ∧ c ≠ 'E'

theorem Stops.noDigit {rest : List Char} (h : Stops rest) : NoDigit rest :=
  fun c hc => (h c hc).1

theorem stops_nil : Stops [] := by
  intro c hc
  simp at hc

theorem noDigit_cons {c : Char} {rest : List Char} (h : isDigit c = false) :
    NoDigit (c :: rest) := by
  intro d hd
  obtain rfl : c = d := by simpa using hd
  exact h

theorem digitRun_append {ds rest : List Char} (hds : AreDigits ds) (hrest : NoDigit rest) :
    digitRun (ds ++ rest) = (ds, rest) := by
  unfold digitRun
  rw [List.takeWhile_append_of_pos hds, List.dropWhile_append_of_pos hds]
  cases rest with
  | nil => simp
  | cons c rest =>
      have hc := hrest c rfl
      rw [List.takeWhile_cons_of_neg (by simp [hc]), List.dropWhile_cons_of_neg (by simp [hc]),
        List.append_nil]

theorem wholePart_append {ds rest : List Char} (hds : IsNumber ds) (hrest : NoDigit rest) :
    wholePart (ds ++ rest) = some (ds, rest) := by
  unfold wholePart
  rw [digitRun_append hds.digits hrest]
  split
  · rename_i h
    exact absurd (Prod.mk.inj h).1 hds.nonempty
  · rename_i d ds' rest' h
    have hnil := hds.plain _ (Prod.mk.inj h).1
    simp at hnil
  · rename_i h
    obtain ⟨rfl, rfl⟩ := Prod.mk.inj h
    rfl

/-- Digits behind a point; without digits there is no point. -/
def pointed : List Char → List Char
  | [] => []
  | d :: ds => '.' :: d :: ds

theorem fractionPart_pointed {ds rest : List Char} (hds : AreDigits ds) (hrest : NoDigit rest)
    (hpoint : '.' ∉ rest.head?) :
    ∃ fraction, fractionPart (pointed ds ++ rest) = some (fraction, rest) ∧
      fraction.getD [] = ds ∧ (fraction = none → ds = []) := by
  cases ds with
  | nil =>
      refine ⟨none, ?_, rfl, fun _ => rfl⟩
      show fractionPart rest = _
      unfold fractionPart
      split
      · simp at hpoint
      · rfl
  | cons d ds =>
      refine ⟨some (d :: ds), ?_, rfl, by simp⟩
      show fractionPart ('.' :: (d :: ds ++ rest)) = _
      simp only [fractionPart]
      rw [digitRun_append hds hrest]

/-- The sign of an exponent. -/
def signOf (exponent : Int) : Char := if exponent < 0 then '-' else '+'

theorem exponentDigits_append {ds rest : List Char} (hds : AreDigits ds) (hne : ds ≠ [])
    (hrest : NoDigit rest) (negative : Bool) :
    exponentDigits negative (ds ++ rest) =
      some (some (if negative then -(ofDigits ds : Int) else ofDigits ds), rest) := by
  unfold exponentDigits
  rw [digitRun_append hds hrest]
  cases ds with
  | nil => exact absurd rfl hne
  | cons d ds => rfl

theorem exponentPart_append {ds rest : List Char} {exponent : Int} (hds : AreDigits ds)
    (hne : ds ≠ []) (hvalue : ofDigits ds = exponent.natAbs) (hrest : NoDigit rest) :
    exponentPart ('e' :: signOf exponent :: (ds ++ rest)) = some (some exponent, rest) := by
  by_cases hsign : exponent < 0
  · have hnegative : -(exponent.natAbs : Int) = exponent := by omega
    rw [signOf, if_pos hsign]
    simp only [exponentPart, true_or, if_true, exponentDigits_append hds hne hrest, hvalue,
      hnegative]
  · have hpositive : (exponent.natAbs : Int) = exponent := by omega
    rw [signOf, if_neg hsign]
    simp only [exponentPart, true_or, if_true, exponentDigits_append hds hne hrest, hvalue,
      Bool.false_eq_true, if_false, hpositive]

theorem exponentPart_of_stops {rest : List Char} (h : Stops rest) :
    exponentPart rest = some (none, rest) := by
  unfold exponentPart
  cases rest with
  | nil => rfl
  | cons c rest =>
      obtain ⟨-, -, hlower, hupper⟩ := h c rfl
      exact if_neg (by simp [hlower, hupper])

/-! ### Numbers in front of other text -/

variable {whole behind rest : List Char} {negative : Bool}

theorem noDigit_pointed (h : NoDigit rest) : NoDigit (pointed behind ++ rest) := by
  cases behind with
  | nil => exact h
  | cons d ds => exact noDigit_cons rfl

theorem Stops.not_point (h : Stops rest) : '.' ∉ rest.head? := by
  intro hpoint
  exact (h '.' hpoint).2.1 rfl

theorem unsignedNumber_int (hwhole : IsNumber whole) (hrest : Stops rest) :
    unsignedNumber negative (whole ++ rest) =
      some (.int (if negative then -(ofDigits whole : Int) else ofDigits whole), rest) := by
  have hfraction : fractionPart rest = some (none, rest) := by
    unfold fractionPart
    split
    · exact absurd rfl hrest.not_point
    · rfl
  unfold unsignedNumber
  simp only [wholePart_append hwhole hrest.noDigit, hfraction, exponentPart_of_stops hrest]

theorem unsignedNumber_pointed (hwhole : IsNumber whole) (hbehind : AreDigits behind)
    (hne : behind ≠ []) (hrest : Stops rest) :
    unsignedNumber negative (whole ++ (pointed behind ++ rest)) =
      some (.float (Binary64.ofDecimal negative (ofDigits (whole ++ behind)) (-behind.length)),
        rest) := by
  obtain ⟨fraction, hfraction, rfl, hnone⟩ :=
    fractionPart_pointed hbehind hrest.noDigit hrest.not_point
  unfold unsignedNumber
  simp only [wholePart_append hwhole (noDigit_pointed hrest.noDigit), hfraction,
    exponentPart_of_stops hrest]
  cases fraction with
  | none => exact absurd (hnone rfl) hne
  | some ds => simp only [Option.getD_none, Option.getD_some, Int.zero_sub]

theorem unsignedNumber_exponent {ds : List Char} {exponent : Int} (hwhole : IsNumber whole)
    (hbehind : AreDigits behind) (hds : AreDigits ds) (hne : ds ≠ [])
    (hvalue : ofDigits ds = exponent.natAbs) (hrest : Stops rest) :
    unsignedNumber negative
        (whole ++ (pointed behind ++ 'e' :: signOf exponent :: (ds ++ rest))) =
      some (.float (Binary64.ofDecimal negative (ofDigits (whole ++ behind))
        (exponent - behind.length)), rest) := by
  have hmark : NoDigit ('e' :: signOf exponent :: (ds ++ rest)) := noDigit_cons rfl
  obtain ⟨fraction, hfraction, rfl, -⟩ := fractionPart_pointed hbehind hmark (by simp)
  unfold unsignedNumber
  simp only [wholePart_append hwhole (noDigit_pointed hmark), hfraction,
    exponentPart_append hds hne hvalue hrest.noDigit]
  cases fraction <;> rfl

/-! ### Floating-point numbers -/

theorem pointed_of_ne_nil {ds : List Char} (h : ds ≠ []) : pointed ds = '.' :: ds := by
  cases ds with
  | nil => exact absurd rfl h
  | cons d ds => rfl

theorem dropTrailingZeros_append (ds : List Char) :
    ∃ k, ds = dropTrailingZeros ds ++ List.replicate k '0' := by
  refine ⟨(ds.reverse.takeWhile (· == '0')).length, ?_⟩
  have hzeros : ds.reverse.takeWhile (· == '0') =
      List.replicate (ds.reverse.takeWhile (· == '0')).length '0' := by
    apply List.eq_replicate_of_mem
    intro c hc
    exact eq_of_beq (List.all_eq_true.mp List.all_takeWhile c hc)
  have hsplit := List.takeWhile_append_dropWhile (p := (· == '0')) (l := ds.reverse)
  calc ds = ds.reverse.reverse := (List.reverse_reverse ds).symm
    _ = dropTrailingZeros ds ++ (ds.reverse.takeWhile (· == '0')).reverse := by
      rw [dropTrailingZeros, ← List.reverse_append, hsplit]
    _ = _ := by rw [hzeros, List.reverse_replicate, List.length_replicate]

/-- Digits of which the first one is not zero. -/
structure Leads (ds : List Char) : Prop where
  digits : AreDigits ds
  nonempty : ds ≠ []
  plain : ∀ rest, ds ≠ '0' :: rest

theorem significant_digits {n : Nat} (hn : 0 < n) :
    ∃ ds k, dropTrailingZeros (toDigits n) = ds ∧ (toDigits n).length = ds.length + k ∧
      n = ofDigits ds * 10 ^ k ∧ Leads ds := by
  obtain ⟨k, hk⟩ := dropTrailingZeros_append (toDigits n)
  refine ⟨_, k, rfl, ?_, ?_, ⟨?_, ?_, ?_⟩⟩
  all_goals
    generalize dropTrailingZeros (toDigits n) = ds at hk ⊢
  · rw [hk, List.length_append, List.length_replicate]
  · rw [← ofDigits_append_zeros, ← hk, ofDigits_toDigits]
  · exact (AreDigits.of_append (hk ▸ areDigits_toDigits n)).1
  · rintro rfl
    have hzero := congrArg ofDigits hk
    rw [ofDigits_toDigits, List.nil_append, ofDigits_zeros] at hzero
    omega
  · rintro rest rfl
    have hnil := (isNumber_toDigits n).plain _ hk
    have hone : toDigits n = ['0'] := hk.trans (congrArg ('0' :: ·) hnil)
    have hzero := congrArg ofDigits hone
    rw [ofDigits_toDigits] at hzero
    have : ofDigits ['0'] = 0 := rfl
    omega

theorem areDigits_padLeft {ds : List Char} (h : AreDigits ds) (width : Nat) :
    AreDigits (padLeft width ds) :=
  (areDigits_zeros _).append h

theorem ofDigits_padLeft (width : Nat) (ds : List Char) :
    ofDigits (padLeft width ds) = ofDigits ds :=
  ofDigits_zeros_append _ _

theorem write_eq (layout : Layout) {v : Scaled} {ds : List Char} {leading : Int}
    (hpos : 0 < v.coefficient) (hds : dropTrailingZeros (toDigits v.coefficient) = ds)
    (hne : ds ≠ []) (hleading : v.exponent + (toDigits v.coefficient).length - 1 = leading) :
    layout.write v =
      if leading < layout.lowest ∨ layout.highest < leading then
        ds.take 1 ++ (pointed (ds.drop 1) ++ layout.mark :: signOf leading ::
          padLeft layout.exponentWidth (toDigits leading.natAbs))
      else if leading < 0 then
        '0' :: '.' :: (List.replicate (leading.natAbs - 1) '0' ++ ds)
      else if ds.length ≤ leading.toNat + 1 then
        ds ++ List.replicate (leading.toNat + 1 - ds.length) '0' ++ layout.wholeEnd
      else ds.take (leading.toNat + 1) ++ '.' :: ds.drop (leading.toNat + 1) := by
  unfold Layout.write signOf
  obtain ⟨d, rest, rfl⟩ := List.exists_cons_of_ne_nil hne
  simp only [hds, hleading, if_neg hpos.ne', Bool.or_eq_true, decide_eq_true_eq]
  cases rest <;> rfl

section layouts

variable {ds : List Char} {leading scale : Int}

theorem unsignedNumber_scientific (hds : Leads ds) (hleading : scale + ds.length - 1 = leading)
    (hrest : Stops rest) :
    unsignedNumber negative (ds.take 1 ++ (pointed (ds.drop 1) ++ 'e' :: signOf leading ::
        padLeft 2 (toDigits leading.natAbs)) ++ rest) =
      some (.float (Binary64.ofDecimal negative (ofDigits ds) scale), rest) := by
  obtain ⟨d, tail, rfl⟩ := List.exists_cons_of_ne_nil hds.nonempty
  have hd : IsNumber [d] := isNumber_singleton (hds.digits d (by simp))
  have htail : AreDigits tail := fun c hc => hds.digits c (by simp [hc])
  have hexponent := (ofDigits_padLeft 2 _).trans (ofDigits_toDigits leading.natAbs)
  have hpadded : padLeft 2 (toDigits leading.natAbs) ≠ [] :=
    List.append_ne_nil_of_right_ne_nil _ (toDigits_ne_nil _)
  have htext : [d] ++ (pointed tail ++ 'e' :: signOf leading ::
      padLeft 2 (toDigits leading.natAbs)) ++ rest =
      [d] ++ (pointed tail ++ 'e' :: signOf leading ::
        (padLeft 2 (toDigits leading.natAbs) ++ rest)) := by
    rw [List.append_assoc, List.append_assoc]
    rfl
  have hscale : leading - tail.length = scale := by
    rw [List.length_cons] at hleading
    omega
  apply (congrArg (unsignedNumber negative) htext).trans
  rw [unsignedNumber_exponent hd htail (areDigits_padLeft (areDigits_toDigits _) 2) hpadded
    hexponent hrest, hscale]
  rfl

theorem unsignedNumber_small {zeros : Nat} (hds : Leads ds)
    (hscale : -((zeros + ds.length : Nat) : Int) = scale) (hrest : Stops rest) :
    unsignedNumber negative ('0' :: '.' :: (List.replicate zeros '0' ++ ds) ++ rest) =
      some (.float (Binary64.ofDecimal negative (ofDigits ds) scale), rest) := by
  have hdigit : IsNumber ['0'] := isNumber_singleton rfl
  have hbehind : List.replicate zeros '0' ++ ds ≠ [] :=
    List.append_ne_nil_of_right_ne_nil _ hds.nonempty
  have htext : '0' :: '.' :: (List.replicate zeros '0' ++ ds) ++ rest =
      ['0'] ++ (pointed (List.replicate zeros '0' ++ ds) ++ rest) := by
    rw [pointed_of_ne_nil hbehind]
    rfl
  have hcoefficient : ofDigits (['0'] ++ (List.replicate zeros '0' ++ ds)) = ofDigits ds :=
    (ofDigits_zeros_append 1 _).trans (ofDigits_zeros_append zeros ds)
  rw [htext, unsignedNumber_pointed hdigit ((areDigits_zeros _).append hds.digits) hbehind hrest,
    hcoefficient, List.length_append, List.length_replicate, hscale]

theorem unsignedNumber_whole {zeros : Nat} (hds : Leads ds) (hscale : (zeros : Int) = scale)
    (hrest : Stops rest) :
    unsignedNumber negative (ds ++ List.replicate zeros '0' ++ ['.', '0'] ++ rest) =
      some (.float (Binary64.ofDecimal negative (ofDigits ds) scale), rest) := by
  have hnumber : IsNumber (ds ++ List.replicate zeros '0') := by
    refine ⟨hds.digits.append (areDigits_zeros _), by simp [hds.nonempty], ?_⟩
    intro tail htail
    obtain ⟨d, ds, rfl⟩ := List.exists_cons_of_ne_nil hds.nonempty
    obtain ⟨rfl, -⟩ := List.cons.inj htail
    exact absurd rfl (hds.plain ds)
  have hpoint : AreDigits ['0'] := areDigits_zeros 1
  have hcoefficient : ofDigits (ds ++ List.replicate zeros '0' ++ ['0']) =
      ofDigits ds * 10 ^ (zeros + 1) := by
    rw [← ofDigits_append_zeros, List.replicate_succ', List.append_assoc]
  have hexponent : -(['0'].length : Int) + ((zeros + 1 : Nat) : Int) = scale := by
    rw [List.length_singleton]
    omega
  show unsignedNumber negative (ds ++ List.replicate zeros '0' ++ pointed ['0'] ++ rest) = _
  rw [List.append_assoc, unsignedNumber_pointed hnumber hpoint (by simp) hrest, hcoefficient,
    ofDecimal_mul_pow, hexponent]

theorem unsignedNumber_split {before : Nat} (hds : Leads ds) (hpos : 0 < before)
    (hbefore : before < ds.length) (hscale : -((ds.length - before : Nat) : Int) = scale)
    (hrest : Stops rest) :
    unsignedNumber negative (ds.take before ++ '.' :: ds.drop before ++ rest) =
      some (.float (Binary64.ofDecimal negative (ofDigits ds) scale), rest) := by
  have hsplit := List.take_append_drop before ds
  obtain ⟨htake, hdrop⟩ := AreDigits.of_append (hsplit.symm ▸ hds.digits)
  have hbehind : ds.drop before ≠ [] := by
    rw [ne_eq, List.drop_eq_nil_iff]
    omega
  have hnumber : IsNumber (ds.take before) := by
    refine ⟨htake, ?_, ?_⟩
    · intro hnil
      rcases List.take_eq_nil_iff.mp hnil with hzero | hnil
      · omega
      · exact hds.nonempty hnil
    · intro tail htail
      rw [htail] at hsplit
      exact absurd hsplit.symm (hds.plain _)
  rw [← pointed_of_ne_nil hbehind, List.append_assoc,
    unsignedNumber_pointed hnumber hdrop hbehind hrest, hsplit, List.length_drop, hscale]

end layouts

theorem unsignedNumber_write (v : Scaled) (hrest : Stops rest) :
    unsignedNumber negative (payloadLayout.write v ++ rest) =
      some (.float (Binary64.ofDecimal negative v.coefficient v.exponent), rest) := by
  rcases Nat.eq_zero_or_pos v.coefficient with hzero | hpos
  · have htext : payloadLayout.write v = ['0'] ++ pointed ['0'] := by
      unfold Layout.write
      rw [hzero, toDigits]
      rfl
    have hdigits : AreDigits ['0'] := areDigits_zeros 1
    have hnumber : IsNumber ['0'] := isNumber_singleton rfl
    have hcoefficient : ofDigits (['0'] ++ ['0']) = 0 := rfl
    rw [htext, List.append_assoc, unsignedNumber_pointed hnumber hdigits (by simp) hrest, hzero,
      hcoefficient, Binary64.ofDecimal_zero, Binary64.ofDecimal_zero]
  · obtain ⟨ds, k, hds, hlength, hvalue, hleads⟩ := significant_digits hpos
    have htarget : Binary64.ofDecimal negative v.coefficient v.exponent =
        Binary64.ofDecimal negative (ofDigits ds) (v.exponent + k) := by
      rw [hvalue, ofDecimal_mul_pow]
    rw [htarget, write_eq payloadLayout hpos hds hleads.nonempty rfl, hlength]
    generalize hleading : v.exponent + ((ds.length + k : Nat) : Int) - 1 = leading
    have hlen : 0 < ds.length := List.length_pos_iff.mpr hleads.nonempty
    split_ifs with hfar hsmall hwhole
    · exact unsignedNumber_scientific hleads (by omega) hrest
    · exact unsignedNumber_small hleads (by omega) hrest
    · exact unsignedNumber_whole hleads (by omega) hrest
    · exact unsignedNumber_split hleads (by omega) (by omega) (by omega) hrest

theorem head_of_unsignedNumber {cs : List Char} {r : Json × List Char}
    (h : unsignedNumber negative cs = some r) : ∃ c tail, cs = c :: tail ∧ isDigit c = true := by
  cases cs with
  | nil => cases h
  | cons c tail =>
      refine ⟨c, tail, rfl, ?_⟩
      by_contra hc
      have hrun : digitRun (c :: tail) = ([], c :: tail) := by
        unfold digitRun
        rw [List.takeWhile_cons_of_neg hc, List.dropWhile_cons_of_neg hc]
      simp [unsignedNumber, wholePart, hrun] at h

theorem number_of_unsignedNumber {cs : List Char} {r : Json × List Char}
    (h : unsignedNumber false cs = some r) : number cs = some r := by
  obtain ⟨c, tail, rfl, hc⟩ := head_of_unsignedNumber h
  unfold number
  split
  · rename_i heq
    obtain ⟨rfl, -⟩ := List.cons.inj heq
    exact absurd hc (by decide)
  · exact h

theorem head_of_number {cs : List Char} {r : Json × List Char} (h : number cs = some r) :
    ∃ c tail, cs = c :: tail ∧ (isDigit c = true ∨ c = '-') := by
  unfold number at h
  split at h
  · rename_i tail
    exact ⟨'-', tail, rfl, .inr rfl⟩
  · obtain ⟨c, tail, hcs, hc⟩ := head_of_unsignedNumber h
    exact ⟨c, tail, hcs, .inl hc⟩

theorem number_intChars (i : Int) (hrest : Stops rest) :
    number (intChars i ++ rest) = some (.int i, rest) := by
  have hdigits := isNumber_toDigits i.natAbs
  unfold intChars
  split
  · rename_i hsign
    have hvalue : -(i.natAbs : Int) = i := by omega
    show unsignedNumber true (toDigits i.natAbs ++ rest) = _
    rw [unsignedNumber_int hdigits hrest, ofDigits_toDigits, if_pos rfl, hvalue]
  · rename_i hsign
    have hvalue : (i.natAbs : Int) = i := by omega
    apply number_of_unsignedNumber
    rw [unsignedNumber_int hdigits hrest, ofDigits_toDigits, if_neg (by decide), hvalue]

theorem number_floatChars {x : Binary64} (hfinite : x.isFinite) (hrest : Stops rest) :
    number (floatChars x ++ rest) = some (.float x, rest) := by
  have hnumber : x.isNaN = false := by
    simp only [Binary64.isFinite, Binary64.isNaN, decide_eq_true_eq,
      decide_eq_false_iff_not] at hfinite ⊢
    omega
  have hread : unsignedNumber x.negative (payloadLayout.write (shortest x) ++ rest) =
      some (.float x, rest) := by
    rw [unsignedNumber_write (shortest x) hrest, ofDecimal_shortest hfinite]
  unfold floatChars
  rw [hnumber, hfinite]
  cases hsign : x.negative with
  | true =>
      rw [hsign] at hread
      exact hread
  | false =>
      rw [hsign] at hread
      exact number_of_unsignedNumber hread

end DeliveryLedger.Json
