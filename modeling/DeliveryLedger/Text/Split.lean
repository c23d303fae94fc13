/-!
Text in parts: splitting at a character, and joining again (`joinWith_splitAt`,
`splitAt_joinWith`).
-/

namespace DeliveryLedger.Text

/-- The parts between the occurrences of a character; always at least one. -/
def splitAt (sep : Char) : List Char → List (List Char)
  | [] => [[]]
  | c :: cs =>
    if c = sep then [] :: splitAt sep cs
    else
      match splitAt sep cs with
      | [] => [[c]]
      | part :: parts => (c :: part) :: parts

/-- Parts with a character between them. -/
def joinWith (sep : Char) : List (List Char) → List Char
  | [] => []
  | [part] => part
  | part :: parts => part ++ sep :: joinWith sep parts

theorem splitAt_ne_nil (sep : Char) (cs : List Char) : splitAt sep cs ≠ [] := by
  induction cs with
  | nil => simp [splitAt]
  | cons c cs ih =>
    rw [splitAt]
    split
    · simp
    · split <;> simp

theorem joinWith_splitAt (sep : Char) (cs : List Char) :
    joinWith sep (splitAt sep cs) = cs := by
  induction cs with
  | nil => rfl
  | cons c cs ih =>
    have hne := splitAt_ne_nil sep cs
    rw [splitAt]
    split
    · rename_i h
      subst h
      match hs : splitAt c cs with
      | [] => exact absurd hs hne
      | part :: parts => rw [hs] at ih; simp [joinWith, ih]
    · match hs : splitAt sep cs with
      | [] => exact absurd hs hne
      | [part] => rw [hs] at ih; simpa [joinWith] using ih
      | part :: next :: parts => rw [hs] at ih; simpa [joinWith] using ih

theorem not_mem_of_mem_splitAt {sep : Char} {cs part : List Char} (h : part ∈ splitAt sep cs) :
    sep ∉ part := by
  induction cs generalizing part with
  | nil =>
    rw [List.mem_singleton.mp h]
    exact List.not_mem_nil
  | cons c cs ih =>
    rw [splitAt] at h
    split at h
    · rcases List.mem_cons.mp h with rfl | h
      · exact List.not_mem_nil
      · exact ih h
    · rename_i hc
      have hhead : ∀ first, sep ∉ first → sep ∉ c :: first := by
        rintro first hfirst hmem
        rcases List.mem_cons.mp hmem with rfl | hmem
        · exact hc rfl
        · exact hfirst hmem
      split at h
      · rw [List.mem_singleton.mp h]
        exact hhead [] List.not_mem_nil
      · rename_i first parts hparts
        rcases List.mem_cons.mp h with rfl | h
        · exact hhead first (ih (by simp [hparts]))
        · exact ih (by simp [hparts, h])

theorem splitAt_of_not_mem {sep : Char} {part : List Char} (h : sep ∉ part) :
    splitAt sep part = [part] := by
  induction part with
  | nil => rfl
  | cons c part ih =>
    obtain ⟨hc, hpart⟩ : sep ≠ c ∧ sep ∉ part := by simpa using h
    rw [splitAt, if_neg (Ne.symm hc), ih hpart]

theorem splitAt_append (sep : Char) (cs ds : List Char) :
    splitAt sep (cs ++ sep :: ds) = splitAt sep cs ++ splitAt sep ds := by
  induction cs with
  | nil => simp [splitAt]
  | cons c cs ih =>
    rw [List.cons_append, splitAt, splitAt, ih]
    split
    · rfl
    · obtain ⟨part, parts, hparts⟩ := List.exists_cons_of_ne_nil (splitAt_ne_nil sep cs)
      rw [hparts]
      rfl

theorem length_splitAt (sep : Char) (cs : List Char) :
    (splitAt sep cs).length = cs.count sep + 1 := by
  induction cs with
  | nil => rfl
  | cons c cs ih =>
    obtain ⟨part, parts, hparts⟩ := List.exists_cons_of_ne_nil (splitAt_ne_nil sep cs)
    rw [splitAt, List.count_cons]
    split
    · rename_i hc
      rw [List.length_cons, ih, if_pos (by simpa using hc)]
    · rename_i hc
      rw [if_neg (by simpa using hc), Nat.add_zero, ← ih, hparts]
      rfl

theorem splitAt_joinWith {sep : Char} {parts : List (List Char)} (hne : parts ≠ [])
    (h : ∀ part ∈ parts, sep ∉ part) : splitAt sep (joinWith sep parts) = parts := by
  induction parts with
  | nil => exact absurd rfl hne
  | cons part rest ih =>
    have hpart := h part (by simp)
    cases rest with
    | nil => exact splitAt_of_not_mem hpart
    | cons next rest =>
      rw [joinWith, splitAt_append, splitAt_of_not_mem hpart,
        ih (List.cons_ne_nil next rest) fun p hp => h p (by simp [hp])]
      · rfl
      · exact List.cons_ne_nil next rest

/-- The parts of a dotted name. -/
def splitDots (name : String) : List String := (splitAt '.' name.toList).map String.ofList

/-- Parts as a dotted name. -/
def joinDots (parts : List String) : String :=
  String.ofList (joinWith '.' (parts.map String.toList))

theorem joinDots_splitDots (name : String) : joinDots (splitDots name) = name := by
  simp [joinDots, splitDots, Function.comp_def, joinWith_splitAt]

theorem splitDots_ne_nil (name : String) : splitDots name ≠ [] := by
  simp [splitDots, splitAt_ne_nil]

theorem splitDots_joinDots {parts : List String} (hne : parts ≠ [])
    (h : ∀ part ∈ parts, '.' ∉ part.toList) : splitDots (joinDots parts) = parts := by
  have hparts : splitAt '.' (joinWith '.' (parts.map String.toList)) =
      parts.map String.toList := by
    apply splitAt_joinWith (by simpa using hne)
    intro cs hcs
    obtain ⟨part, hpart, rfl⟩ := List.mem_map.mp hcs
    exact h part hpart
  simp [splitDots, joinDots, hparts, Function.comp_def]

theorem not_mem_of_mem_splitDots {name part : String} (h : part ∈ splitDots name) :
    '.' ∉ part.toList := by
  obtain ⟨cs, hcs, rfl⟩ := List.mem_map.mp h
  simpa using not_mem_of_mem_splitAt hcs

theorem splitDots_joinDots_take (name : String) (n : Nat) :
    splitDots (joinDots ((splitDots name).take (n + 1))) = (splitDots name).take (n + 1) := by
  apply splitDots_joinDots
  · simp [splitDots_ne_nil]
  · exact fun part hpart => not_mem_of_mem_splitDots (List.mem_of_mem_take hpart)

theorem length_splitDots (name : String) :
    (splitDots name).length = name.toList.count '.' + 1 := by
  simp [splitDots, length_splitAt]

theorem splitDots_append (outer inner : String) :
    splitDots (outer ++ "." ++ inner) = splitDots outer ++ splitDots inner := by
  simp [splitDots, splitAt_append]

theorem joinDots_singleton (part : String) : joinDots [part] = part := by
  simp [joinDots, joinWith]

theorem joinDots_cons (part : String) {parts : List String} (hne : parts ≠ []) :
    joinDots (part :: parts) = part ++ "." ++ joinDots parts := by
  obtain ⟨next, rest, rfl⟩ := List.exists_cons_of_ne_nil hne
  apply String.toList_inj.mp
  simp [joinDots, joinWith]

theorem joinDots_splitDots_append (outer : String) {parts : List String} (hne : parts ≠ [])
    (hparts : ∀ part ∈ parts, '.' ∉ part.toList) :
    joinDots (splitDots outer ++ parts) = outer ++ "." ++ joinDots parts := by
  have hsplit : splitDots (outer ++ "." ++ joinDots parts) = splitDots outer ++ parts := by
    rw [splitDots_append, splitDots_joinDots hne hparts]
  rw [← hsplit, joinDots_splitDots]

/-- The lines of a text; a final line break ends the last line. -/
def lines (text : String) : List String :=
  let parts := splitAt '\n' text.toList
  let parts := if parts.getLast? = some [] then parts.dropLast else parts
  parts.map String.ofList

end DeliveryLedger.Text
