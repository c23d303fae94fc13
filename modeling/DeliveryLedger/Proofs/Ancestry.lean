import DeliveryLedger.Proofs.Declarations
import Mathlib.Data.List.Nodup
import Mathlib.Logic.Relation
/-!
Ancestors of occurrence classes, and the order in which a lineage lists them.

The bases with which classes were declared make one relation (`Inherits`); a lineage lists a
class and everything above it in that relation (`mem_lineage_iff`), each class once, and each
before all that is above it (`sublist_lineage_of_above`).  Both rest on what a merged order has
to do with the orders that went into it (`Lineage.interleaves_of_merge`).
-/

namespace DeliveryLedger

namespace Lineage

variable {α : Type} {orders : List (List α)} {merged : List α}

/-- The members of the orders, each once, and in an order that agrees with all of them. -/
structure Interleaves (orders : List (List α)) (merged : List α) : Prop where
  nodup : merged.Nodup
  keeps : ∀ order ∈ orders, order.Sublist merged
  origin : ∀ a ∈ merged, ∃ order ∈ orders, a ∈ order

theorem Interleaves.mem_iff (h : Interleaves orders merged) {a : α} :
    a ∈ merged ↔ ∃ order ∈ orders, a ∈ order :=
  ⟨h.origin a, fun ⟨order, horder, ha⟩ => (h.keeps order horder).subset ha⟩

theorem interleaves_nil (h : orders.all List.isEmpty) : Interleaves orders [] where
  nodup := List.nodup_nil
  keeps := by
    intro order horder
    rw [List.isEmpty_iff.mp (List.all_eq_true.mp h order horder)]
  origin := by simp

variable [DecidableEq α] {a : α}

theorem of_nextHead? (h : nextHead? orders = some a) :
    (∃ order ∈ orders, order.head? = some a) ∧ ∀ order ∈ orders, a ∉ order.tail := by
  constructor
  · obtain ⟨order, horder, hhead⟩ := List.mem_filterMap.mp (List.mem_of_find?_eq_some h)
    exact ⟨order, horder, hhead⟩
  · have hbehind := List.find?_some h
    simpa [isBehind] using hbehind

theorem notMem_of_mem_dropHead (hfront : ∀ order ∈ orders, a ∉ order.tail) {rest : List α}
    (h : rest ∈ dropHead a orders) : a ∉ rest := by
  obtain ⟨order, horder, rfl⟩ := List.mem_map.mp h
  have htail := hfront order horder
  split
  · exact htail
  · rename_i hhead
    cases order with
    | nil => exact List.not_mem_nil
    | cons b tail =>
        intro hmem
        rcases List.mem_cons.mp hmem with rfl | hmem
        · exact hhead rfl
        · exact htail hmem

theorem Interleaves.cons (hnext : nextHead? orders = some a)
    (h : Interleaves (dropHead a orders) merged) : Interleaves orders (a :: merged) := by
  obtain ⟨⟨first, hfirst, hhead⟩, hfront⟩ := of_nextHead? hnext
  constructor
  · refine List.nodup_cons.mpr ⟨fun hmem => ?_, h.nodup⟩
    obtain ⟨rest, hrest, ha⟩ := h.origin a hmem
    exact notMem_of_mem_dropHead hfront hrest ha
  · intro order horder
    have hrest := h.keeps _ (List.mem_map_of_mem horder)
    split at hrest
    · rename_i hstarts
      rw [← List.cons_head?_tail hstarts]
      exact hrest.cons_cons a
    · exact hrest.cons a
  · intro b hb
    rcases List.mem_cons.mp hb with rfl | hb
    · exact ⟨first, hfirst, List.mem_of_head? hhead⟩
    · obtain ⟨rest, hrest, hmem⟩ := h.origin b hb
      obtain ⟨order, horder, rfl⟩ := List.mem_map.mp hrest
      refine ⟨order, horder, ?_⟩
      split at hmem
      · exact List.mem_of_mem_tail hmem
      · exact hmem

theorem interleaves_of_mergeWithin {fuel : Nat} (h : mergeWithin fuel orders = .ok merged) :
    Interleaves orders merged := by
  induction fuel generalizing orders merged with
  | zero =>
      rw [mergeWithin] at h
      split at h
      · obtain rfl := Except.ok.inj h
        exact interleaves_nil ‹_›
      · simp at h
  | succ fuel ih =>
      rw [mergeWithin] at h
      split at h
      · obtain rfl := Except.ok.inj h
        exact interleaves_nil ‹_›
      split at h
      · simp at h
      · rename_i hnext
        obtain ⟨rest, hrest, rfl⟩ := map_eq_ok_iff.mp h
        exact (ih hrest).cons hnext

theorem interleaves_of_merge (h : merge orders = .ok merged) : Interleaves orders merged :=
  interleaves_of_mergeWithin h

end Lineage

/-! ### The relation of classes and bases -/

namespace Catalogue

open Relation (ReflTransGen TransGen)

/-- Declarations led to the catalogue, and `bases` has the bases of each class, in the order of
declaration. -/
inductive HasBases : Catalogue → List (List ClassId) → Prop
  | initial : HasBases Catalogue.initial [[]]
  | declare {cat cat' : Catalogue} {bases : List (List ClassId)} {homeModule : String}
      {d : ClassDeclaration} {id : ClassId} {named : List ClassId} (h : HasBases cat bases)
      (hnamed : cat.bases? d.bases = .ok named) (hd : cat.declare homeModule d = .ok (id, cat')) :
      HasBases cat' (bases ++ [named])
  | forget {cat : Catalogue} {bases : List (List ClassId)} (name : String)
      (h : HasBases cat bases) : HasBases (cat.forget name) bases

theorem Reachable.exists_hasBases {cat : Catalogue} (h : cat.Reachable) :
    ∃ bases, cat.HasBases bases := by
  induction h with
  | initial => exact ⟨_, .initial⟩
  | declare _ hd ih =>
      obtain ⟨bases, hbases⟩ := ih
      obtain ⟨named, hnamed, -⟩ := bind_eq_ok_iff.mp hd
      exact ⟨_, hbases.declare hnamed hd⟩
  | forget name _ ih =>
      obtain ⟨bases, hbases⟩ := ih
      exact ⟨bases, hbases.forget name⟩

/-- The class `c` was declared with the base `b`. -/
def Inherits (bases : List (List ClassId)) (c b : ClassId) : Prop :=
  ∃ named, bases[c]? = some named ∧ b ∈ named

variable {cat cat' : Catalogue} {bases : List (List ClassId)} {a b c : ClassId}

theorem lt_of_byKey? {key : String} (h : cat.byKey? key = some c) : c < cat.classes.length := by
  have hmem := List.mem_of_getLast? h
  exact List.mem_range.mp (List.mem_filter.mp hmem).1

theorem exists_of_mapM_eq_ok {ε α β : Type} {f : α → Except ε β} {as : List α} {bs : List β}
    (h : as.mapM f = .ok bs) {b : β} (hb : b ∈ bs) : ∃ a ∈ as, f a = .ok b := by
  induction as generalizing bs with
  | nil =>
      obtain rfl := Except.ok.inj h
      simp at hb
  | cons a as ih =>
      rw [List.mapM_cons] at h
      obtain ⟨first, hfirst, h⟩ := bind_eq_ok_iff.mp h
      obtain ⟨rest, hrest, h⟩ := bind_eq_ok_iff.mp h
      obtain rfl := Except.ok.inj h
      rcases List.mem_cons.mp hb with rfl | hb
      · exact ⟨a, by simp, hfirst⟩
      · obtain ⟨x, hx, hfx⟩ := ih hrest hb
        exact ⟨x, by simp [hx], hfx⟩

theorem lt_of_bases? {names : List String} {named : List ClassId} (hfirst : cat.classes ≠ [])
    (h : cat.bases? names = .ok named) (hb : b ∈ named) : b < cat.classes.length := by
  unfold bases? at h
  split at h
  · obtain rfl := Except.ok.inj h
    obtain rfl := List.mem_singleton.mp hb
    exact List.length_pos_iff.mpr hfirst
  · obtain ⟨name, -, hname⟩ := exists_of_mapM_eq_ok h hb
    split at hname
    · obtain rfl := Except.ok.inj hname
      exact lt_of_byKey? ‹_›
    · simp at hname

theorem lineage_of_declare {homeModule : String} {d : ClassDeclaration} {id : ClassId}
    {named : List ClassId} (hnamed : cat.bases? d.bases = .ok named)
    (hd : cat.declare homeModule d = .ok (id, cat')) :
    ∃ last rest, cat'.classes = cat.classes ++ [last] ∧
      last.lineage = cat.classes.length :: rest ∧
      Lineage.Interleaves (named.map cat.lineage ++ [named]) rest := by
  obtain ⟨named', hnamed', hd⟩ := bind_eq_ok_iff.mp hd
  obtain rfl := Except.ok.inj (hnamed.symm.trans hnamed')
  dsimp only at hd
  split at hd
  · simp at hd
  · rename_i lineage hextend
    obtain ⟨rest, hmerge, rfl⟩ := map_eq_ok_iff.mp hextend
    obtain ⟨-, rfl⟩ := Prod.mk.inj (Except.ok.inj hd)
    exact ⟨_, rest, rfl, rfl, Lineage.interleaves_of_merge hmerge⟩

/-- The lineage of each class is merged from those of its bases, which were declared before. -/
structure Linear (cat : Catalogue) (bases : List (List ClassId)) : Prop where
  nonempty : cat.classes ≠ []
  length_eq : bases.length = cat.classes.length
  earlier : ∀ {c b : ClassId}, Inherits bases c b → b < c
  lineage : ∀ {c : ClassId} {named : List ClassId}, bases[c]? = some named →
    ∃ rest, cat.lineage c = c :: rest ∧
      Lineage.Interleaves (named.map cat.lineage ++ [named]) rest

theorem lineage_of_append {last : OccurrenceClass}
    (hclasses : cat'.classes = cat.classes ++ [last]) :
    cat'.lineage cat.classes.length = last.lineage ∧
      ∀ c < cat.classes.length, cat'.lineage c = cat.lineage c := by
  unfold Catalogue.lineage
  rw [hclasses]
  constructor
  · simp
  · intro c hc
    rw [List.getElem?_append_left hc]

theorem Linear.declare {homeModule : String} {d : ClassDeclaration} {id : ClassId}
    {named : List ClassId} (h : Linear cat bases) (hnamed : cat.bases? d.bases = .ok named)
    (hd : cat.declare homeModule d = .ok (id, cat')) : Linear cat' (bases ++ [named]) := by
  obtain ⟨last, rest, hclasses, hlast, hrest⟩ := lineage_of_declare hnamed hd
  obtain ⟨hnew, hold⟩ := lineage_of_append hclasses
  -- An entry of the longer row of bases is an old one, or that of the new class.
  have hentry : ∀ {c : ClassId} {bs : List ClassId}, (bases ++ [named])[c]? = some bs →
      bases[c]? = some bs ∨ c = cat.classes.length ∧ bs = named := by
    intro c bs hc
    rw [List.getElem?_append, List.getElem?_singleton] at hc
    split at hc
    · exact .inl hc
    split at hc
    · rename_i hge hzero
      have hlast : c = bases.length :=
        Nat.le_antisymm (Nat.sub_eq_zero_iff_le.mp hzero) (Nat.not_lt.mp hge)
      exact .inr ⟨hlast.trans h.length_eq, (Option.some.inj hc).symm⟩
    · simp at hc
  have hbelow : ∀ b ∈ named, b < cat.classes.length :=
    fun b hb => lt_of_bases? h.nonempty hnamed hb
  have hkept : ∀ bs : List ClassId, (∀ b ∈ bs, b < cat.classes.length) →
      bs.map cat'.lineage = bs.map cat.lineage :=
    fun bs hbs => List.map_congr_left fun b hb => hold b (hbs b hb)
  constructor
  · simp [hclasses]
  · simp [hclasses, h.length_eq]
  · rintro c b ⟨bs, hc, hb⟩
    rcases hentry hc with hc | ⟨rfl, rfl⟩
    · exact h.earlier ⟨bs, hc, hb⟩
    · exact hbelow b hb
  · intro c bs hc
    rcases hentry hc with hc | ⟨rfl, rfl⟩
    · have hlt : c < cat.classes.length := h.length_eq ▸ (List.getElem?_eq_some_iff.mp hc).1
      rw [hold c hlt, hkept bs fun b hb => Nat.lt_trans (h.earlier ⟨bs, hc, hb⟩) hlt]
      exact h.lineage hc
    · rw [hnew, hkept bs hbelow]
      exact ⟨rest, hlast, hrest⟩

theorem HasBases.linear (h : cat.HasBases bases) : Linear cat bases := by
  induction h with
  | initial =>
      constructor
      · simp [Catalogue.initial]
      · rfl
      · rintro c b ⟨named, hc, hb⟩
        obtain rfl : named = [] := by
          simpa using List.mem_of_getElem? hc
        simp at hb
      · intro c named hc
        rw [List.getElem?_singleton] at hc
        split at hc
        · rename_i hzero
          obtain rfl := Option.some.inj hc
          subst hzero
          exact ⟨[], rfl, Lineage.interleaves_nil rfl⟩
        · simp at hc
  | declare _ hnamed hd ih => exact ih.declare hnamed hd
  | forget name _ ih => exact ⟨ih.nonempty, ih.length_eq, ih.earlier, ih.lineage⟩

/-! ### Lineages and ancestors -/

namespace Linear

/-- What is a class or stands above it was not declared after it. -/
theorem le_of_reaches (h : Linear cat bases) (hab : ReflTransGen (Inherits bases) a b) : b ≤ a := by
  induction hab with
  | refl => exact Nat.le_refl a
  | tail _ hb ih => exact Nat.le_trans (Nat.le_of_lt (h.earlier hb)) ih

theorem lt_of_above (h : Linear cat bases) (hab : TransGen (Inherits bases) a b) : b < a := by
  obtain ⟨x, hax, hxb⟩ := TransGen.head'_iff.mp hab
  exact Nat.lt_of_le_of_lt (h.le_of_reaches hxb) (h.earlier hax)

theorem exists_bases (h : Linear cat bases) (hc : c < cat.classes.length) :
    ∃ named, bases[c]? = some named :=
  ⟨_, List.getElem?_eq_getElem (h.length_eq ▸ hc)⟩

theorem mem_lineage_iff (h : Linear cat bases) (hc : c < cat.classes.length) :
    a ∈ cat.lineage c ↔ ReflTransGen (Inherits bases) c a := by
  induction c using Nat.strongRecOn generalizing a with
  | ind c ih =>
      obtain ⟨named, hnamed⟩ := h.exists_bases hc
      obtain ⟨rest, hlineage, hrest⟩ := h.lineage hnamed
      rw [hlineage, List.mem_cons, hrest.mem_iff]
      constructor
      · rintro (rfl | ⟨order, horder, ha⟩)
        · exact .refl
        rcases List.mem_append.mp horder with horder | horder
        · obtain ⟨b, hb, rfl⟩ := List.mem_map.mp horder
          have hcb : Inherits bases c b := ⟨named, hnamed, hb⟩
          have hlt := h.earlier hcb
          exact .head hcb ((ih b hlt (Nat.lt_trans hlt hc)).mp ha)
        · obtain rfl := List.mem_singleton.mp horder
          exact .single ⟨order, hnamed, ha⟩
      · intro hca
        rcases hca.cases_head with rfl | ⟨b, hcb, hba⟩
        · exact .inl rfl
        · obtain ⟨named', hnamed', hb⟩ := hcb
          obtain rfl := Option.some.inj (hnamed.symm.trans hnamed')
          have hlt := h.earlier ⟨named, hnamed, hb⟩
          have ha := (ih b hlt (Nat.lt_trans hlt hc)).mpr hba
          exact .inr ⟨cat.lineage b, by simpa using .inl ⟨b, hb, rfl⟩, ha⟩

theorem nodup_lineage (h : Linear cat bases) (hc : c < cat.classes.length) :
    (cat.lineage c).Nodup := by
  obtain ⟨named, hnamed⟩ := h.exists_bases hc
  obtain ⟨rest, hlineage, hrest⟩ := h.lineage hnamed
  rw [hlineage]
  refine List.nodup_cons.mpr ⟨fun hmem => ?_, hrest.nodup⟩
  obtain ⟨order, horder, hmem⟩ := hrest.origin c hmem
  rcases List.mem_append.mp horder with horder | horder
  · obtain ⟨b, hb, rfl⟩ := List.mem_map.mp horder
    have hlt := h.earlier ⟨named, hnamed, hb⟩
    have hle := h.le_of_reaches ((h.mem_lineage_iff (Nat.lt_trans hlt hc)).mp hmem)
    exact Nat.lt_irrefl _ (Nat.lt_of_lt_of_le hlt hle)
  · obtain rfl := List.mem_singleton.mp horder
    exact Nat.lt_irrefl _ (h.earlier ⟨order, hnamed, hmem⟩)

theorem sublist_lineage (h : Linear cat bases) (hc : c < cat.classes.length)
    (hca : ReflTransGen (Inherits bases) c a) : (cat.lineage a).Sublist (cat.lineage c) := by
  induction hca using ReflTransGen.head_induction_on with
  | refl => exact .refl _
  | @head c b hcb _ ih =>
      have hlt := h.earlier hcb
      obtain ⟨named, hnamed, hb⟩ := hcb
      obtain ⟨rest, hlineage, hrest⟩ := h.lineage hnamed
      have hbase : (cat.lineage b).Sublist rest :=
        hrest.keeps _ (List.mem_append_left _ (List.mem_map_of_mem hb))
      rw [hlineage]
      exact ((ih (Nat.lt_trans hlt hc)).trans hbase).cons c

theorem sublist_lineage_of_above (h : Linear cat bases) (hc : c < cat.classes.length)
    (hca : ReflTransGen (Inherits bases) c a) (hab : TransGen (Inherits bases) a b) :
    [a, b].Sublist (cat.lineage c) := by
  have ha : a < cat.classes.length := Nat.lt_of_le_of_lt (h.le_of_reaches hca) hc
  obtain ⟨named, hnamed⟩ := h.exists_bases ha
  obtain ⟨rest, hlineage, -⟩ := h.lineage hnamed
  have hb : b ∈ cat.lineage a := (h.mem_lineage_iff ha).mpr hab.to_reflTransGen
  rw [hlineage] at hb
  have hrest : b ∈ rest :=
    (List.mem_cons.mp hb).resolve_left (Nat.ne_of_lt (h.lt_of_above hab))
  refine List.Sublist.trans ?_ (h.sublist_lineage hc hca)
  rw [hlineage]
  exact (List.singleton_sublist.mpr hrest).cons_cons a

end Linear

end Catalogue

end DeliveryLedger
