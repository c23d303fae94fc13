import DeliveryLedger.Proofs.JsonTree
import DeliveryLedger.Proofs.NumberText
/-!
The text of a JSON value reads back as the value.

`Reads j` says that the reader finds `j` at the front of any text that goes on with nothing a
number could take in.  It holds of every value with finite numbers, by induction over the value
(`reads`), so that the canonical text of a value is the text of exactly one value, the one with
its keys in order (`read?_canonical`).
-/

namespace DeliveryLedger.Json

open DeliveryLedger.Decimal

/-! ### Strings -/

theorem hexValue?_hexDigit {n : Nat} (h : n < 16) : hexValue? (hexDigit n) = some n := by
  revert n
  decide

theorem hexUnit?_hexDigit {n : Nat} (h : n < 32) :
    hexUnit? '0' '0' (hexDigit (n / 16)) (hexDigit (n % 16)) = some n := by
  have hzero : hexValue? '0' = some 0 := rfl
  have hhigh : hexValue? (hexDigit (n / 16)) = some (n / 16) := hexValue?_hexDigit (by omega)
  have hlow : hexValue? (hexDigit (n % 16)) = some (n % 16) := hexValue?_hexDigit (by omega)
  unfold hexUnit?
  rw [hzero, hhigh, hlow]
  show some (((0 * 16 + 0) * 16 + n / 16) * 16 + n % 16) = some n
  congr 1
  omega

theorem stringBody_quote (rest : List Char) : stringBody ('"' :: rest) = some ([], rest) := by
  rw [stringBody.eq_def]
  exact if_pos rfl

theorem stringBody_short {e c : Char} (rest : List Char) (h : shortEscape? e = some c) :
    stringBody ('\\' :: e :: rest) = pushFront c (stringBody rest) := by
  have hunit : e ≠ 'u' := by
    rintro rfl
    simp [shortEscape?] at h
  rw [stringBody.eq_def]
  simp only [Char.reduceEq, if_false, if_true, if_neg hunit, h]

theorem stringBody_unit {a b c d : Char} {n : Nat} (rest : List Char) (hn : n < 32)
    (h : hexUnit? a b c d = some n) :
    stringBody ('\\' :: 'u' :: a :: b :: c :: d :: rest) =
      pushFront (Char.ofNat n) (stringBody rest) := by
  have hhigh : ¬(0xD800 ≤ n ∧ n < 0xDC00) := by omega
  have hlow : ¬(0xDC00 ≤ n ∧ n < 0xE000) := by omega
  rw [stringBody.eq_def]
  simp only [Char.reduceEq, if_false, if_true, h, if_neg hhigh, if_neg hlow]

theorem stringBody_plain {c : Char} (rest : List Char) (hquote : c ≠ '"') (hslash : c ≠ '\\')
    (hcontrol : ¬c.toNat < 32) : stringBody (c :: rest) = pushFront c (stringBody rest) := by
  rw [stringBody.eq_def]
  simp only [if_neg hquote, if_neg hslash, if_neg hcontrol]

theorem stringBody_escapeChar (c : Char) (rest : List Char) :
    stringBody (escapeChar c ++ rest) = pushFront c (stringBody rest) := by
  unfold escapeChar
  split_ifs with hquote hslash hback hfeed hline hreturn htab hcontrol
  · subst hquote
    exact stringBody_short rest rfl
  · subst hslash
    exact stringBody_short rest rfl
  · subst hback
    exact stringBody_short rest rfl
  · subst hfeed
    exact stringBody_short rest rfl
  · subst hline
    exact stringBody_short rest rfl
  · subst hreturn
    exact stringBody_short rest rfl
  · subst htab
    exact stringBody_short rest rfl
  · have hread := stringBody_unit rest hcontrol (hexUnit?_hexDigit hcontrol)
    rw [Char.ofNat_toNat] at hread
    exact hread
  · exact stringBody_plain rest hquote hslash hcontrol

theorem stringBody_flatMap (cs rest : List Char) :
    stringBody (cs.flatMap escapeChar ++ '"' :: rest) = some (cs, rest) := by
  induction cs with
  | nil => exact stringBody_quote rest
  | cons c cs ih =>
      rw [List.flatMap_cons, List.append_assoc, stringBody_escapeChar, ih]
      rfl

theorem quote_append (s : String) (rest : List Char) :
    quote s ++ rest = '"' :: (s.toList.flatMap escapeChar ++ '"' :: rest) := by
  unfold quote
  rw [List.cons_append, List.append_assoc]
  rfl

theorem length_quote_pos (s : String) : 0 < (quote s).length := by
  unfold quote
  exact Nat.succ_pos _

/-! ### Values -/

theorem skipBlanks_cons {c : Char} (rest : List Char) (h : isBlank c = false) :
    skipBlanks (c :: rest) = c :: rest :=
  List.dropWhile_cons_of_neg (by simp [h])

theorem stops_cons {c : Char} (rest : List Char) (hdigit : isDigit c = false) (hpoint : c ≠ '.')
    (hlower : c ≠ 'e') (hupper : c ≠ 'E') : Stops (c :: rest) := by
  intro d hd
  obtain rfl : c = d := by simpa using hd
  exact ⟨hdigit, hpoint, hlower, hupper⟩

theorem stops_comma (rest : List Char) : Stops (',' :: rest) :=
  stops_cons rest rfl (by decide) (by decide) (by decide)

theorem stops_bracket (rest : List Char) : Stops (']' :: rest) :=
  stops_cons rest rfl (by decide) (by decide) (by decide)

theorem stops_brace (rest : List Char) : Stops ('}' :: rest) :=
  stops_cons rest rfl (by decide) (by decide) (by decide)

theorem ne_of_isDigit {c d : Char} (hc : isDigit c = true) (hd : isDigit d = false) : c ≠ d := by
  rintro rfl
  rw [hc] at hd
  cases hd

theorem not_special {c : Char} (h : isDigit c = true ∨ c = '-') :
    isBlank c = false ∧ c ≠ ']' ∧ c ≠ '"' ∧ c ≠ '[' ∧ c ≠ '{' := by
  rcases h with h | rfl
  · refine ⟨?_, ne_of_isDigit h rfl, ne_of_isDigit h rfl, ne_of_isDigit h rfl,
      ne_of_isDigit h rfl⟩
    cases hblank : isBlank c with
    | false => rfl
    | true =>
        simp only [isBlank, Bool.or_eq_true, beq_iff_eq] at hblank
        rcases hblank with ((rfl | rfl) | rfl) | rfl <;> exact absurd h (by decide)
  · exact ⟨rfl, by decide, by decide, by decide, by decide⟩

theorem word?_of_number {cs : List Char} {r : Json × List Char} (h : number cs = some r) :
    word? cs = none := by
  obtain ⟨c, tail, rfl, hc⟩ := head_of_number h
  unfold word?
  split
  case h_6 heq =>
    -- A minus sign begins a word as well, but no number goes on with a letter.
    rw [heq] at h
    cases h
  case h_7 => rfl
  all_goals
    rename_i heq
    obtain ⟨rfl, -⟩ := List.cons.inj heq
    exact absurd hc (by decide)

theorem value_of_number {cs : List Char} {r : Json × List Char} (h : number cs = some r)
    (fuel : Nat) : value (fuel + 1) cs = some r := by
  have hword := word?_of_number h
  obtain ⟨c, tail, rfl, hc⟩ := head_of_number h
  obtain ⟨hblank, -, hquote, hbracket, hbrace⟩ := not_special hc
  rw [value, skipBlanks_cons tail hblank]
  simp only [if_neg hquote, if_neg hbracket, if_neg hbrace, hword]
  exact h

/-- The reader finds the value at the front of a text. -/
def Reads (j : Json) : Prop :=
  ∀ fuel rest, Stops rest → 2 * (render j).length ≤ fuel →
    value fuel (render j ++ rest) = some (j, rest)

theorem elements_render {xs : List Json} (hxs : ∀ y ∈ xs, Reads y) {x : Json} (hx : Reads x)
    {fuel : Nat} {rest : List Char}
    (hfuel : 2 * ((render x).length + (renderItems xs).length) ≤ fuel) :
    elements fuel (render x ++ (renderItems xs ++ rest)) = some (x :: xs, rest) := by
  induction xs generalizing x fuel with
  | nil =>
      simp only [renderItems, List.length_singleton] at hfuel
      obtain ⟨fuel, rfl⟩ : ∃ n, fuel = n + 1 := ⟨fuel - 1, by omega⟩
      have hvalue := hx fuel (']' :: rest) (stops_bracket rest) (by omega)
      show elements (fuel + 1) (render x ++ ']' :: rest) = _
      rw [elements, hvalue]
      simp only [skipBlanks_cons rest (rfl : isBlank ']' = false)]
  | cons y ys ih =>
      simp only [renderItems, List.length_cons, List.length_append] at hfuel
      obtain ⟨fuel, rfl⟩ : ∃ n, fuel = n + 1 := ⟨fuel - 1, by omega⟩
      have hvalue := hx fuel (',' :: (render y ++ (renderItems ys ++ rest))) (stops_comma _)
        (by omega)
      have hitems : elements fuel (render y ++ (renderItems ys ++ rest)) = some (y :: ys, rest) :=
        ih (fun z hz => hxs z (by simp [hz])) (hxs y (by simp)) (by omega)
      have htext : renderItems (y :: ys) ++ rest =
          ',' :: (render y ++ (renderItems ys ++ rest)) := by
        rw [renderItems, List.cons_append, List.append_assoc]
      rw [htext, elements, hvalue]
      simp only [skipBlanks_cons _ (rfl : isBlank ',' = false), hitems]

theorem members_render {ms : List (String × Json)} (hms : ∀ m ∈ ms, Reads m.2) {k : String}
    {v : Json} (hv : Reads v) {fuel : Nat} {rest : List Char}
    (hfuel : 2 * ((quote k).length + (render v).length + (renderMembers ms).length) ≤ fuel) :
    members fuel (quote k ++ ':' :: (render v ++ (renderMembers ms ++ rest))) =
      some ((k, v) :: ms, rest) := by
  have hquote := length_quote_pos k
  induction ms generalizing k v fuel with
  | nil =>
      simp only [renderMembers, List.length_singleton] at hfuel
      obtain ⟨fuel, rfl⟩ : ∃ n, fuel = n + 1 := ⟨fuel - 1, by omega⟩
      have hvalue := hv fuel ('}' :: rest) (stops_brace rest) (by omega)
      rw [quote_append, members, skipBlanks_cons _ (rfl : isBlank '"' = false)]
      simp only [stringBody_flatMap, skipBlanks_cons _ (rfl : isBlank ':' = false)]
      rw [renderMembers, List.singleton_append, hvalue]
      simp only [skipBlanks_cons _ (rfl : isBlank '}' = false), String.ofList_toList]
  | cons m ms ih =>
      obtain ⟨k', v'⟩ := m
      simp only [renderMembers, List.length_cons, List.length_append] at hfuel
      obtain ⟨fuel, rfl⟩ : ∃ n, fuel = n + 1 := ⟨fuel - 1, by omega⟩
      have hvalue := hv fuel (',' :: (quote k' ++ ':' :: (render v' ++ (renderMembers ms ++ rest))))
        (stops_comma _) (by omega)
      have hv' : Reads v' := hms (k', v') (by simp)
      have hmembers : members fuel
          (quote k' ++ ':' :: (render v' ++ (renderMembers ms ++ rest))) =
            some ((k', v') :: ms, rest) :=
        ih (fun n hn => hms n (by simp [hn])) hv' (by omega) (length_quote_pos k')
      have htext : renderMembers ((k', v') :: ms) ++ rest =
          ',' :: (quote k' ++ ':' :: (render v' ++ (renderMembers ms ++ rest))) := by
        rw [renderMembers, List.cons_append, List.append_assoc, List.cons_append,
          List.append_assoc]
      rw [htext, quote_append, members, skipBlanks_cons _ (rfl : isBlank '"' = false)]
      simp only [stringBody_flatMap, skipBlanks_cons _ (rfl : isBlank ':' = false), hvalue,
        skipBlanks_cons _ (rfl : isBlank ',' = false), hmembers, String.ofList_toList]

theorem head_of_render {j : Json} (h : j.isFinite = true) :
    ∃ c tail, render j = c :: tail ∧ isBlank c = false ∧ c ≠ ']' := by
  have hnumber : ∀ {cs : List Char} {r : Json × List Char}, number (cs ++ []) = some r →
      ∃ c tail, cs = c :: tail ∧ isBlank c = false ∧ c ≠ ']' := by
    intro cs r hread
    rw [List.append_nil] at hread
    obtain ⟨c, tail, rfl, hc⟩ := head_of_number hread
    obtain ⟨hblank, hclose, -⟩ := not_special hc
    exact ⟨c, tail, rfl, hblank, hclose⟩
  cases j with
  | null => exact ⟨_, _, rfl, rfl, by decide⟩
  | bool b => cases b <;> exact ⟨_, _, rfl, rfl, by decide⟩
  | int i => exact hnumber (number_intChars i stops_nil)
  | float x => exact hnumber (number_floatChars h stops_nil)
  | str s => exact ⟨_, _, rfl, rfl, by decide⟩
  | arr items => cases items <;> exact ⟨_, _, rfl, rfl, by decide⟩
  | obj members =>
      cases members with
      | nil => exact ⟨_, _, rfl, rfl, by decide⟩
      | cons m ms => exact ⟨_, _, rfl, rfl, by decide⟩

theorem reads_of_succ {j : Json} (hfinite : j.isFinite = true)
    (h : ∀ fuel rest, Stops rest → 2 * (render j).length ≤ fuel + 1 →
      value (fuel + 1) (render j ++ rest) = some (j, rest)) : Reads j := by
  intro fuel rest hrest hfuel
  obtain ⟨c, tail, hrender, -, -⟩ := head_of_render hfinite
  cases fuel with
  | zero =>
      rw [hrender, List.length_cons] at hfuel
      omega
  | succ fuel => exact h fuel rest hrest hfuel

theorem value_arr {items : List Json} (hitems : ∀ x ∈ items, Reads x)
    (hfinite : ∀ x ∈ items, x.isFinite = true) {fuel : Nat} {rest : List Char}
    (hfuel : 2 * (render (.arr items)).length ≤ fuel + 1) :
    value (fuel + 1) (render (.arr items) ++ rest) = some (.arr items, rest) := by
  cases items with
  | nil => rfl
  | cons x xs =>
      simp only [render, List.length_cons, List.length_append] at hfuel
      obtain ⟨c, tail, hrender, hblank, hclose⟩ := head_of_render (hfinite x (by simp))
      have htext : render (.arr (x :: xs)) ++ rest =
          '[' :: (render x ++ (renderItems xs ++ rest)) := by
        rw [render, List.cons_append, List.append_assoc]
      have hskip : skipBlanks (render x ++ (renderItems xs ++ rest)) =
          render x ++ (renderItems xs ++ rest) := by
        rw [hrender]
        exact skipBlanks_cons _ hblank
      have helements : elements fuel (render x ++ (renderItems xs ++ rest)) =
          some (x :: xs, rest) :=
        elements_render (fun y hy => hitems y (by simp [hy])) (hitems x (by simp)) (by omega)
      rw [htext, value, skipBlanks_cons _ (rfl : isBlank '[' = false)]
      simp only [Char.reduceEq, if_false, if_true, hskip]
      split
      · rename_i heq
        rw [hrender] at heq
        exact absurd (List.cons.inj heq).1 hclose
      · rw [helements]

theorem value_obj {ms : List (String × Json)} (hms : ∀ m ∈ ms, Reads m.2) {fuel : Nat}
    {rest : List Char}
    (hfuel : 2 * (render (.obj ms)).length ≤ fuel + 1) :
    value (fuel + 1) (render (.obj ms) ++ rest) = some (.obj ms, rest) := by
  cases ms with
  | nil => rfl
  | cons m ms =>
      obtain ⟨k, v⟩ := m
      simp only [render, List.length_cons, List.length_append] at hfuel
      have hv : Reads v := hms (k, v) (by simp)
      have htext : render (.obj ((k, v) :: ms)) ++ rest =
          '{' :: (quote k ++ ':' :: (render v ++ (renderMembers ms ++ rest))) := by
        rw [render, List.cons_append, List.append_assoc, List.cons_append, List.append_assoc]
      have hskip : skipBlanks (quote k ++ ':' :: (render v ++ (renderMembers ms ++ rest))) =
          quote k ++ ':' :: (render v ++ (renderMembers ms ++ rest)) := by
        rw [quote_append]
        exact skipBlanks_cons _ rfl
      have hmembers : members fuel (quote k ++ ':' :: (render v ++ (renderMembers ms ++ rest))) =
          some ((k, v) :: ms, rest) :=
        members_render (fun n hn => hms n (by simp [hn])) hv (by omega)
      rw [htext, value, skipBlanks_cons _ (rfl : isBlank '{' = false)]
      simp only [Char.reduceEq, if_false, if_true, hskip]
      rw [quote_append] at hmembers ⊢
      split
      · rename_i heq
        exact absurd (List.cons.inj heq).1 (by decide)
      · simp only [hmembers]

/-- Every value with finite numbers reads back. -/
theorem reads {j : Json} (hfinite : j.isFinite = true) : Reads j := by
  apply reads_of_succ hfinite
  induction j using Json.induction with
  | null =>
      intro fuel rest _ _
      rfl
  | bool b =>
      intro fuel rest _ _
      cases b <;> rfl
  | int i =>
      intro fuel rest hrest _
      exact value_of_number (number_intChars i hrest) fuel
  | float x =>
      intro fuel rest hrest _
      exact value_of_number (number_floatChars hfinite hrest) fuel
  | str s =>
      intro fuel rest _ _
      rw [render, quote_append, value, skipBlanks_cons _ (rfl : isBlank '"' = false)]
      simp only [if_true, stringBody_flatMap, String.ofList_toList]
  | arr items ih =>
      rw [isFinite_arr] at hfinite
      intro fuel rest _ hfuel
      have hitems : ∀ x ∈ items, Reads x := fun x hx =>
        reads_of_succ (hfinite x hx) (ih x hx (hfinite x hx))
      exact value_arr hitems hfinite hfuel
  | obj ms ih =>
      rw [isFinite_obj] at hfinite
      intro fuel rest _ hfuel
      have hms : ∀ m ∈ ms, Reads m.2 := fun m hm =>
        reads_of_succ (hfinite m hm) (ih m hm (hfinite m hm))
      exact value_obj hms hfuel

theorem read?_canonical {j : Json} (hfinite : j.isFinite = true) :
    read? j.canonical = some j.sortKeys := by
  have hvalue := reads (isFinite_sortKeys hfinite) (2 * (render j.sortKeys).length + 1) []
    stops_nil (Nat.le_succ _)
  rw [List.append_nil] at hvalue
  unfold read? canonical
  rw [String.toList_ofList]
  dsimp only
  rw [hvalue]
  rfl

theorem parse?_canonical {j : Json} (hkeys : j.hasDistinctKeys = true)
    (hfinite : j.isFinite = true) : parse? j.canonical = some j.sortKeys := by
  unfold parse?
  rw [read?_canonical hfinite, Option.map_some, collect_eq_self (hasDistinctKeys_sortKeys hkeys)]

end DeliveryLedger.Json
