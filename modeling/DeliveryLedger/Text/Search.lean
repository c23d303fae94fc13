/-!
Words inside a text: the first occurrence of a word, and a text without a word.
-/

namespace DeliveryLedger.Text

/-- What stands before and after the first occurrence of a word. -/
def breakOn? (word : List Char) : List Char → Option (List Char × List Char)
  | [] => if word = [] then some ([], []) else none
  | c :: cs =>
    if word.isPrefixOf (c :: cs) then some ([], (c :: cs).drop word.length)
    else (breakOn? word cs).map fun parts => (c :: parts.1, parts.2)

/-- The word occurs in the text. -/
def hasWord (word cs : List Char) : Bool := (breakOn? word cs).isSome

/-- The text without any occurrence of a word, found from left to right. -/
def dropWord (word cs : List Char) : List Char :=
  behind 0 cs
where
  /-- The same for what is left behind some further characters of a word that was found. -/
  behind : Nat → List Char → List Char
    | _, [] => []
    | more + 1, _ :: cs => behind more cs
    | 0, c :: cs =>
      if word.isPrefixOf (c :: cs) then behind (word.length - 1) cs else c :: behind 0 cs

theorem not_isPrefixOf_of_ne {c d : Char} (h : c ≠ d) (word cs : List Char) :
    (c :: word).isPrefixOf (d :: cs) = false := by
  simp [List.isPrefixOf, h]

theorem hasWord_cons (word : List Char) (c : Char) (cs : List Char) :
    hasWord word (c :: cs) = (word.isPrefixOf (c :: cs) || hasWord word cs) := by
  rw [hasWord, hasWord, breakOn?]
  split
  · rename_i h
    rw [h]
    rfl
  · rename_i h
    rw [Bool.eq_false_iff.mpr h, Bool.false_or, Option.isSome_map]

theorem breakOn?_append {c : Char} {head : List Char} (h : c ∉ head) (word tail : List Char) :
    breakOn? (c :: word) (head ++ (c :: word) ++ tail) = some (head, tail) := by
  induction head with
  | nil =>
    have hword : (c :: word).isPrefixOf ((c :: word) ++ tail) :=
      List.isPrefixOf_iff_prefix.mpr (List.prefix_append _ _)
    rw [List.nil_append]
    rw [List.cons_append] at hword ⊢
    rw [breakOn?, if_pos hword]
    simp
  | cons d head ih =>
    obtain ⟨hd, hhead⟩ := List.ne_and_not_mem_of_not_mem_cons h
    rw [List.cons_append, List.cons_append, breakOn?, not_isPrefixOf_of_ne hd, ih hhead]
    rfl

theorem behind_eq (word : List Char) (more : Nat) (cs : List Char) :
    dropWord.behind word more cs = dropWord word (cs.drop more) := by
  induction cs generalizing more with
  | nil => simp [dropWord, dropWord.behind]
  | cons c cs ih =>
    cases more with
    | zero => rfl
    | succ more => exact ih more

theorem dropWord_cons (first : Char) (word : List Char) (c : Char) (cs : List Char) :
    dropWord (first :: word) (c :: cs) =
      if (first :: word).isPrefixOf (c :: cs) then dropWord (first :: word) (cs.drop word.length)
      else c :: dropWord (first :: word) cs := by
  rw [dropWord, dropWord.behind, behind_eq, behind_eq]
  rfl

theorem dropWord_append {c : Char} {head : List Char} (h : c ∉ head) (word tail : List Char) :
    dropWord (c :: word) (head ++ tail) = head ++ dropWord (c :: word) tail := by
  induction head with
  | nil => rfl
  | cons d head ih =>
    obtain ⟨hd, hhead⟩ := List.ne_and_not_mem_of_not_mem_cons h
    rw [List.cons_append, dropWord_cons, not_isPrefixOf_of_ne hd, ih hhead]
    rfl

theorem dropWord_of_not_hasWord {c : Char} {word cs : List Char}
    (h : hasWord (c :: word) cs = false) : dropWord (c :: word) cs = cs := by
  induction cs with
  | nil => rfl
  | cons d cs ih =>
    obtain ⟨hword, hcs⟩ := Bool.or_eq_false_iff.mp ((hasWord_cons _ _ _).symm.trans h)
    rw [dropWord_cons, hword, ih hcs]
    rfl

theorem dropWord_word_append (c : Char) (word tail : List Char) :
    dropWord (c :: word) ((c :: word) ++ tail) = dropWord (c :: word) tail := by
  have hword : (c :: word).isPrefixOf ((c :: word) ++ tail) :=
    List.isPrefixOf_iff_prefix.mpr (List.prefix_append _ _)
  rw [List.cons_append] at hword ⊢
  rw [dropWord_cons, if_pos hword, List.drop_left]

end DeliveryLedger.Text
