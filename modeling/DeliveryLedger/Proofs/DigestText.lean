import DeliveryLedger.Proofs.JsonTree
import DeliveryLedger.Proofs.NumberText
import DeliveryLedger.Payload
/-!
The text under a fingerprint: type name and payload text, with a line break between them.

A canonical text holds no control character, and so no line break.  The last line break of the
whole text is therefore the one in between, and the text determines both parts
(`digestText_injective`).
-/

namespace DeliveryLedger

/-- No control character. -/
def Printable (cs : List Char) : Prop := ∀ c ∈ cs, 32 ≤ c.toNat

instance (cs : List Char) : Decidable (Printable cs) :=
  decidable_of_iff (cs.all (32 ≤ ·.toNat) = true) (by simp [Printable])

namespace Printable

theorem append {xs ys : List Char} (hx : Printable xs) (hy : Printable ys) :
    Printable (xs ++ ys) := by
  intro c hc
  rcases List.mem_append.mp hc with hc | hc
  · exact hx c hc
  · exact hy c hc

theorem cons {c : Char} {cs : List Char} (hc : 32 ≤ c.toNat) (hcs : Printable cs) :
    Printable (c :: cs) :=
  List.forall_mem_cons.mpr ⟨hc, hcs⟩

theorem of_subset {xs ys : List Char} (h : Printable ys) (hsub : xs ⊆ ys) : Printable xs :=
  fun c hc => h c (hsub hc)

theorem of_areDigits {cs : List Char} (h : Decimal.AreDigits cs) : Printable cs := by
  intro c hc
  have hdigit := h c hc
  rw [Decimal.isDigit, Bool.and_eq_true, decide_eq_true_eq] at hdigit
  omega

theorem noLineBreak {cs : List Char} (h : Printable cs) : '\n' ∉ cs := by
  intro hbreak
  exact absurd (h '\n' hbreak) (by decide)

end Printable

/-! ### Numbers -/

namespace Decimal

theorem mem_of_mem_dropTrailingZeros {digits : List Char} {c : Char}
    (h : c ∈ dropTrailingZeros digits) : c ∈ digits := by
  unfold dropTrailingZeros at h
  rw [List.mem_reverse] at h
  exact List.mem_reverse.mp (List.dropWhile_subset _ h)

theorem printable_intChars (i : Int) : Printable (intChars i) := by
  have hdigits := Printable.of_areDigits (areDigits_toDigits i.natAbs)
  unfold intChars
  split
  · exact hdigits.cons (by decide)
  · exact hdigits

theorem printable_write (v : Scaled) : Printable (payloadLayout.write v) := by
  have hall := areDigits_toDigits v.coefficient
  unfold Layout.write
  extract_lets all leading digits leading' sign tail before
  have hdigits : AreDigits digits := by
    intro c hc
    dsimp only [digits] at hc
    split at hc
    · obtain rfl := List.mem_singleton.mp hc
      rfl
    · exact hall c (mem_of_mem_dropTrailingZeros hc)
  have hprintable := Printable.of_areDigits hdigits
  have hzeros : ∀ k, Printable (List.replicate k '0') :=
    fun k => Printable.of_areDigits (areDigits_zeros k)
  split
  · have htail : Printable tail := by
      dsimp only [tail]
      split
      · exact fun c hc => absurd hc List.not_mem_nil
      · exact (hprintable.of_subset (List.drop_subset 1 digits)).cons (by decide)
    have hsign : 32 ≤ sign.toNat := by
      dsimp only [sign]
      split <;> decide
    have hexponent : Printable (padLeft 2 (toDigits leading'.natAbs)) :=
      (hzeros _).append (Printable.of_areDigits (areDigits_toDigits _))
    exact ((hprintable.of_subset (List.take_subset 1 digits)).append htail).append
      ((hexponent.cons hsign).cons (by decide))
  split
  · exact (((hzeros _).append hprintable).cons (by decide)).cons (by decide)
  split
  · exact (hprintable.append (hzeros _)).append (by decide)
  · exact (hprintable.of_subset (List.take_subset _ digits)).append
      ((hprintable.of_subset (List.drop_subset _ digits)).cons (by decide))

theorem printable_floatChars (x : Binary64) : Printable (floatChars x) := by
  unfold floatChars
  extract_lets body
  have hbody : Printable body := by
    dsimp only [body]
    split
    · exact printable_write _
    · decide
  split
  · decide
  split
  · exact hbody.cons (by decide)
  · exact hbody

end Decimal

/-! ### Values -/

namespace Json

theorem printable_escapeChar (c : Char) : Printable (escapeChar c) := by
  unfold escapeChar
  split_ifs with hquote hslash hback hfeed hline hreturn htab hcontrol
  all_goals try decide
  · have hdigit : ∀ n < 16, 32 ≤ (hexDigit n).toNat := by decide
    have hhigh := hdigit (c.toNat / 16) (by omega)
    have hlow := hdigit (c.toNat % 16) (Nat.mod_lt _ (by decide))
    have hunit : Printable [hexDigit (c.toNat / 16), hexDigit (c.toNat % 16)] :=
      Printable.cons hhigh (Printable.cons hlow (by decide))
    exact Printable.append (by decide : Printable ['\\', 'u', '0', '0']) hunit
  · exact Printable.cons (Nat.not_lt.mp hcontrol) (by decide)

theorem printable_quote (s : String) : Printable (quote s) := by
  have hbody : Printable (s.toList.flatMap escapeChar) := by
    intro c hc
    obtain ⟨d, -, hd⟩ := List.mem_flatMap.mp hc
    exact printable_escapeChar d c hd
  exact (hbody.append (by decide)).cons (by decide)

theorem printable_renderItems {items : List Json} (h : ∀ x ∈ items, Printable x.render) :
    Printable (renderItems items) := by
  induction items with
  | nil => decide
  | cons x items ih =>
      rw [renderItems]
      exact ((h x (by simp)).append (ih fun y hy => h y (by simp [hy]))).cons (by decide)

theorem printable_renderMembers {members : List (String × Json)}
    (h : ∀ m ∈ members, Printable m.2.render) : Printable (renderMembers members) := by
  induction members with
  | nil => decide
  | cons m members ih =>
      rw [renderMembers]
      have hrest := ih fun n hn => h n (by simp [hn])
      have hvalue := ((h m (by simp)).append hrest).cons (by decide : 32 ≤ ':'.toNat)
      exact ((printable_quote m.1).append hvalue).cons (by decide)

theorem printable_render (j : Json) : Printable j.render := by
  induction j using Json.induction with
  | null => decide
  | bool b => cases b <;> decide
  | int i =>
      rw [render]
      exact Decimal.printable_intChars i
  | float x =>
      rw [render]
      exact Decimal.printable_floatChars x
  | str s =>
      rw [render]
      exact printable_quote s
  | arr items ih =>
      cases items with
      | nil => decide
      | cons x items =>
          rw [render]
          have hrest := printable_renderItems fun y hy => ih y (List.mem_cons_of_mem x hy)
          exact ((ih x (by simp)).append hrest).cons (by decide)
  | obj members ih =>
      cases members with
      | nil => decide
      | cons m members =>
          rw [render]
          have hrest := printable_renderMembers fun n hn => ih n (List.mem_cons_of_mem m hn)
          have hvalue := ((ih m (by simp)).append hrest).cons (by decide : 32 ≤ ':'.toNat)
          exact ((printable_quote m.1).append hvalue).cons (by decide)

end Json

/-! ### Payloads -/

theorem eq_of_append_cons_eq {α : Type} {separator : α} {xs ys xs' ys' : List α}
    (hys : separator ∉ ys) (hys' : separator ∉ ys')
    (h : xs ++ separator :: ys = xs' ++ separator :: ys') : xs = xs' ∧ ys = ys' := by
  rcases List.append_eq_append_iff.mp h with ⟨between, rfl, hrest⟩ | ⟨between, rfl, hrest⟩
  · cases between with
    | nil => simpa using hrest
    | cons c between =>
        obtain ⟨-, rfl⟩ := List.cons.inj hrest
        simp at hys
  · cases between with
    | nil => simpa using hrest.symm
    | cons c between =>
        obtain ⟨-, rfl⟩ := List.cons.inj hrest
        simp at hys'

namespace Payload

theorem printable_text (cat : Catalogue) (o : Occurrence) :
    Printable (ofOccurrence cat o).text.toList := by
  unfold ofOccurrence Json.canonical
  rw [String.toList_ofList]
  exact Json.printable_render _

/-- The text under a fingerprint determines type name and text, if the text is printable. -/
theorem eq_of_digestText_eq {p q : Payload} (hp : Printable p.text.toList)
    (hq : Printable q.text.toList) (h : p.digestText = q.digestText) : p = q := by
  have hlist := congrArg String.toList h
  simp only [digestText, String.toList_append] at hlist
  obtain ⟨htype, htext⟩ := eq_of_append_cons_eq hp.noLineBreak hq.noLineBreak
    (by simpa using hlist)
  exact Payload.mk.injEq .. |>.mpr ⟨String.toList_injective htype, String.toList_injective htext⟩

theorem digestText_injective {cat cat' : Catalogue} {o o' : Occurrence}
    (h : (ofOccurrence cat o).digestText = (ofOccurrence cat' o').digestText) :
    ofOccurrence cat o = ofOccurrence cat' o' :=
  eq_of_digestText_eq (printable_text cat o) (printable_text cat' o') h

/-- No two of the texts under the fingerprints have one digest. -/
def NoCollision (payloads : List Payload) : Prop :=
  ∀ a ∈ payloads, ∀ b ∈ payloads, a.fingerprint = b.fingerprint → a.digestText = b.digestText

end Payload

end DeliveryLedger
