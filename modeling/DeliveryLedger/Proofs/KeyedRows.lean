import DeliveryLedger.Json.Canonical
import Mathlib.Data.List.Nodup
import Mathlib.Data.List.Perm.Subperm
/-!
Sorting, and rows of keyed values.

A row that collects its members has each key once, so that a key finds its value wherever it
stands: sorting a row by its keys changes no lookup.
-/

namespace DeliveryLedger

/-! ### Sorting -/

section sorting

variable {α β : Type}

theorem insertBy_map (le : β → β → Bool) (f : α → β) (x : α) (ys : List α) :
    insertBy le (f x) (ys.map f) = (insertBy (fun a b => le (f a) (f b)) x ys).map f := by
  induction ys with
  | nil => rfl
  | cons y ys ih =>
      rw [List.map_cons, insertBy, insertBy]
      split
      · rfl
      · rw [ih, List.map_cons]

theorem sortBy_cons (le : α → α → Bool) (x : α) (xs : List α) :
    sortBy le (x :: xs) = insertBy le x (sortBy le xs) := rfl

theorem sortBy_map (le : β → β → Bool) (f : α → β) (xs : List α) :
    sortBy le (xs.map f) = (sortBy (fun a b => le (f a) (f b)) xs).map f := by
  induction xs with
  | nil => rfl
  | cons x xs ih =>
      rw [List.map_cons, sortBy_cons, ih, insertBy_map]
      rfl

theorem insertBy_of_forall {le : α → α → Bool} {x : α} {ys : List α}
    (h : ∀ y ∈ ys, le x y = true) : insertBy le x ys = x :: ys := by
  cases ys with
  | nil => rfl
  | cons y ys => exact if_pos (h y List.mem_cons_self)

theorem sortBy_eq_self {le : α → α → Bool} {xs : List α} (h : xs.Pairwise (le · ·)) :
    sortBy le xs = xs := by
  induction xs with
  | nil => rfl
  | cons x xs ih =>
      obtain ⟨hx, hxs⟩ := List.pairwise_cons.mp h
      rw [sortBy_cons, ih hxs, insertBy_of_forall hx]

theorem filter_insertBy_of_neg {le : α → α → Bool} {pass : α → Bool} {x : α}
    (hx : pass x = false) (ys : List α) :
    (insertBy le x ys).filter pass = ys.filter pass := by
  induction ys with
  | nil => simp [insertBy, hx]
  | cons y ys ih =>
      rw [insertBy]
      split
      · simp [List.filter_cons, hx]
      · rw [List.filter_cons, List.filter_cons, ih]

theorem filter_insertBy {le : α → α → Bool} (trans : ∀ a b c, le a b → le b c → le a c)
    {pass : α → Bool} {x : α} (hx : pass x = true) {ys : List α} (h : ys.Pairwise (le · ·)) :
    (insertBy le x ys).filter pass = insertBy le x (ys.filter pass) := by
  induction ys with
  | nil => simp [insertBy, hx]
  | cons y ys ih =>
      obtain ⟨hy, hys⟩ := List.pairwise_cons.mp h
      rw [insertBy]
      split
      · rename_i hxy
        -- `x` precedes all of the row, so also what is left of it after `y` is gone.
        have hall : ∀ z ∈ (y :: ys).filter pass, le x z = true := by
          intro z hz
          rcases List.mem_cons.mp (List.mem_filter.mp hz).1 with rfl | hz
          · exact hxy
          · exact trans x y z hxy (hy z hz)
        rw [insertBy_of_forall hall, List.filter_cons, if_pos hx]
      · rename_i hxy
        rw [List.filter_cons, List.filter_cons, ih hys]
        split
        · rw [insertBy, if_neg hxy]
        · rfl

theorem sortBy_filter {le : α → α → Bool} (trans : ∀ a b c, le a b → le b c → le a c)
    (total : ∀ a b, le a b || le b a) (pass : α → Bool) (xs : List α) :
    sortBy le (xs.filter pass) = (sortBy le xs).filter pass := by
  induction xs with
  | nil => rfl
  | cons x xs ih =>
      rw [sortBy_cons, List.filter_cons]
      cases hx : pass x with
      | true =>
          rw [filter_insertBy trans hx (pairwise_sortBy trans total xs), ← ih]
          rfl
      | false =>
          rw [filter_insertBy_of_neg hx, ← ih]
          rfl

theorem sortBy_key_filter (key : α → Int) (pass : α → Bool) (xs : List α) :
    sortBy (fun a b => decide (key a ≤ key b)) (xs.filter pass) =
      (sortBy (fun a b => decide (key a ≤ key b)) xs).filter pass := by
  refine sortBy_filter (fun a b c hab hbc => ?_) (fun a b => ?_) pass xs
  · exact decide_eq_true (Int.le_trans (of_decide_eq_true hab) (of_decide_eq_true hbc))
  · simpa using Int.le_total (key a) (key b)

end sorting

/-! ### Keys -/

section keyed

variable {α β γ : Type}

def keys (members : List (String × α)) : List String := members.map (·.1)

/-- Another value for each key. -/
def mapValues (f : α → β) (members : List (String × α)) : List (String × β) :=
  members.map fun m => (m.1, f m.2)

theorem keys_mapValues (f : α → β) (members : List (String × α)) :
    keys (mapValues f members) = keys members := by
  unfold keys mapValues
  rw [List.map_map]
  rfl

theorem map_snd_mapValues (f : α → β) (members : List (String × α)) :
    (mapValues f members).map (·.2) = (members.map (·.2)).map f := by
  unfold mapValues
  rw [List.map_map, List.map_map]
  rfl

theorem mapValues_id (members : List (String × α)) : mapValues id members = members :=
  List.map_id members

theorem mapValues_mapValues (g : β → γ) (f : α → β) (members : List (String × α)) :
    mapValues g (mapValues f members) = mapValues (fun a => g (f a)) members := by
  unfold mapValues
  rw [List.map_map]
  rfl

theorem mapValues_congr {f g : α → β} {members : List (String × α)}
    (h : ∀ m ∈ members, f m.2 = g m.2) : mapValues f members = mapValues g members := by
  apply List.map_congr_left
  intro m hm
  rw [h m hm]

theorem mem_keys_of_mem {m : String × α} {members : List (String × α)} (h : m ∈ members) :
    m.1 ∈ keys members :=
  List.mem_map_of_mem h

theorem mem_mapValues_of_mem {f : α → β} {m : String × α} {members : List (String × α)}
    (h : m ∈ members) : (m.1, f m.2) ∈ mapValues f members :=
  List.mem_map_of_mem (f := fun m : String × α => (m.1, f m.2)) h

theorem eq_of_mem_of_key_eq {members : List (String × α)} (hnodup : (keys members).Nodup)
    {m n : String × α} (hm : m ∈ members) (hn : n ∈ members) (h : m.1 = n.1) : m = n :=
  List.inj_on_of_nodup_map hnodup hm hn h

/-! ### Lookup -/

theorem member?_eq_none_iff {key : String} {members : List (String × α)} :
    member? key members = none ↔ key ∉ keys members := by
  induction members with
  | nil => simp [member?, keys]
  | cons m members ih =>
      obtain ⟨k, v⟩ := m
      rw [member?]
      split
      · rename_i hk
        simp [keys, hk]
      · rename_i hk
        rw [ih]
        simp [keys, Ne.symm hk]

theorem mem_of_member? {key : String} {value : α} {members : List (String × α)}
    (h : member? key members = some value) : (key, value) ∈ members := by
  induction members with
  | nil => cases h
  | cons m members ih =>
      obtain ⟨k, v⟩ := m
      rw [member?] at h
      split at h
      · rename_i hk
        cases h
        rw [hk]
        exact List.mem_cons_self
      · exact List.mem_cons_of_mem _ (ih h)

theorem member?_eq_some_iff {key : String} {value : α} {members : List (String × α)}
    (hnodup : (keys members).Nodup) :
    member? key members = some value ↔ (key, value) ∈ members := by
  constructor
  · exact mem_of_member?
  · intro hmem
    cases hfound : member? key members with
    | none => exact absurd (mem_keys_of_mem hmem) (member?_eq_none_iff.mp hfound)
    | some found =>
        have hsame := eq_of_mem_of_key_eq hnodup (mem_of_member? hfound) hmem rfl
        rw [(Prod.mk.inj hsame).2]

theorem member?_perm {xs ys : List (String × α)} (h : xs.Perm ys) (hnodup : (keys xs).Nodup)
    (key : String) : member? key xs = member? key ys := by
  have hnodup' : (keys ys).Nodup := (h.map _).nodup_iff.mp hnodup
  cases hfound : member? key ys with
  | none =>
      rw [member?_eq_none_iff] at hfound ⊢
      exact mt (h.map (·.1)).mem_iff.mp hfound
  | some value =>
      rw [member?_eq_some_iff hnodup'] at hfound
      rw [member?_eq_some_iff hnodup]
      exact h.mem_iff.mpr hfound

theorem member?_mapValues (f : α → β) (key : String) (members : List (String × α)) :
    member? key (mapValues f members) = (member? key members).map f := by
  induction members with
  | nil => rfl
  | cons m members ih =>
      obtain ⟨k, v⟩ := m
      have hcons : mapValues f ((k, v) :: members) = (k, f v) :: mapValues f members := rfl
      rw [hcons, member?, member?]
      split
      · rfl
      · exact ih

theorem perm_of_member? {xs ys : List (String × α)} (hnodup : (keys xs).Nodup)
    (hlength : xs.length = ys.length) (h : ∀ m ∈ xs, member? m.1 ys = some m.2) : xs.Perm ys := by
  have hsubset : xs ⊆ ys := fun m hm => mem_of_member? (h m hm)
  exact (List.subperm_of_subset hnodup.of_map hsubset).perm_of_length_le
    (Nat.le_of_eq hlength.symm)

theorem eq_of_perm_of_keys_eq {xs ys : List (String × α)} (h : xs.Perm ys)
    (hkeys : keys xs = keys ys) (hnodup : (keys xs).Nodup) : xs = ys := by
  induction xs generalizing ys with
  | nil => exact h.nil_eq
  | cons m xs ih =>
      cases ys with
      | nil => exact absurd hkeys (List.cons_ne_nil _ _)
      | cons n ys =>
          obtain ⟨hkey, hrest⟩ := List.cons.inj hkeys
          have hfirst : m = n := eq_of_mem_of_key_eq ((h.map _).nodup_iff.mp hnodup)
            (h.mem_iff.mp List.mem_cons_self) List.mem_cons_self hkey
          subst hfirst
          rw [ih ((List.perm_cons m).mp h) hrest (List.nodup_cons.mp hnodup).2]

/-! ### Rows that collect their members -/

theorem nodup_insertMember (key : String) (value : α) {members : List (String × α)}
    (h : (keys members).Nodup) : (keys (insertMember key value members)).Nodup := by
  unfold keys
  rw [map_fst_insertMember]
  split
  · exact h
  · rename_i hnew
    exact List.nodup_append.mpr ⟨h, List.nodup_singleton key, by
      rintro a ha b hb rfl
      exact hnew (List.mem_singleton.mp hb ▸ ha)⟩

theorem mem_insertMember {key : String} {value : α} {members : List (String × α)}
    {m : String × α} (h : m ∈ insertMember key value members) :
    m = (key, value) ∨ m ∈ members := by
  induction members with
  | nil => exact .inl (List.mem_singleton.mp h)
  | cons n members ih =>
      obtain ⟨k, v⟩ := n
      rw [insertMember] at h
      split at h
      · rcases List.mem_cons.mp h with h | h
        · exact .inl h
        · exact .inr (List.mem_cons_of_mem _ h)
      · rcases List.mem_cons.mp h with h | h
        · exact .inr (h ▸ List.mem_cons_self)
        · rcases ih h with h | h
          · exact .inl h
          · exact .inr (List.mem_cons_of_mem _ h)

theorem insertMember_of_new {key : String} (value : α) {members : List (String × α)}
    (h : key ∉ keys members) : insertMember key value members = members ++ [(key, value)] := by
  induction members with
  | nil => rfl
  | cons m members ih =>
      obtain ⟨k, v⟩ := m
      obtain ⟨hk, hrest⟩ : key ≠ k ∧ key ∉ keys members := by
        simpa [keys] using h
      rw [insertMember, if_neg (Ne.symm hk), ih hrest]
      rfl

theorem collectMembers_induction {motive : List (String × α) → Prop}
    {members : List (String × α)} (nil : motive [])
    (insert : ∀ m ∈ members, ∀ known, motive known → motive (insertMember m.1 m.2 known)) :
    motive (collectMembers members) := by
  have hfold : ∀ (rest known : List (String × α)), (∀ m ∈ rest, m ∈ members) → motive known →
      motive (rest.foldl (fun known m => insertMember m.1 m.2 known) known) := by
    intro rest
    induction rest with
    | nil =>
        intro known _ hknown
        exact hknown
    | cons m rest ih =>
        intro known hrest hknown
        exact ih _ (fun n hn => hrest n (by simp [hn])) (insert m (hrest m (by simp)) known hknown)
  exact hfold members [] (fun _ hm => hm) nil

theorem nodup_collectMembers (members : List (String × α)) :
    (keys (collectMembers members)).Nodup := by
  refine collectMembers_induction (motive := fun known => (keys known).Nodup) List.nodup_nil ?_
  intro m _ known hknown
  exact nodup_insertMember m.1 m.2 hknown

theorem mem_of_mem_collectMembers {members : List (String × α)} {m : String × α}
    (h : m ∈ collectMembers members) : m ∈ members := by
  have hall : ∀ n ∈ collectMembers members, n ∈ members := by
    refine collectMembers_induction (motive := fun known => ∀ n ∈ known, n ∈ members)
      (by simp) ?_
    intro m hm known hknown n hn
    rcases mem_insertMember hn with rfl | hn
    · exact hm
    · exact hknown n hn
  exact hall m h

theorem collectMembers_eq_self {members : List (String × α)} (h : (keys members).Nodup) :
    collectMembers members = members := by
  have hfold : ∀ (rest known : List (String × α)), (keys (known ++ rest)).Nodup →
      rest.foldl (fun known m => insertMember m.1 m.2 known) known = known ++ rest := by
    intro rest
    induction rest with
    | nil =>
        intro known _
        rw [List.append_nil]
        rfl
    | cons m rest ih =>
        intro known hnodup
        have hnew : m.1 ∉ keys known := by
          unfold keys at hnodup ⊢
          rw [List.map_append, List.map_cons, List.nodup_append] at hnodup
          exact fun hmem => hnodup.2.2 _ hmem _ List.mem_cons_self rfl
        rw [List.append_cons] at hnodup
        rw [List.foldl_cons, insertMember_of_new m.2 hnew]
        exact (ih _ hnodup).trans (List.append_cons known m rest).symm
  exact hfold members [] h

end keyed

/-! ### Members in the order of their keys -/

namespace Json

variable {α β : Type}

theorem perm_sortMembers (members : List (String × α)) : (sortMembers members).Perm members :=
  perm_sortBy _ _

theorem nodup_sortMembers {members : List (String × α)} (h : (keys members).Nodup) :
    (keys (sortMembers members)).Nodup :=
  ((perm_sortMembers members).map _).nodup_iff.mpr h

theorem sortMembers_mapValues (f : α → β) (members : List (String × α)) :
    sortMembers (mapValues f members) = mapValues f (sortMembers members) :=
  sortBy_map _ _ _

theorem pairwise_sortMembers (members : List (String × α)) :
    (sortMembers members).Pairwise fun m n => decide (m.1 ≤ n.1) = true := by
  refine pairwise_sortBy ?_ ?_ members
  · intro a b c hab hbc
    rw [decide_eq_true_eq] at hab hbc ⊢
    exact String.le_trans hab hbc
  · intro a b
    rw [Bool.or_eq_true, decide_eq_true_eq, decide_eq_true_eq]
    exact String.le_total a.1 b.1

theorem sortMembers_sortMembers (members : List (String × α)) :
    sortMembers (sortMembers members) = sortMembers members :=
  sortBy_eq_self (pairwise_sortMembers members)

/-- A row in the order of its keys does not depend on the order before. -/
theorem sortMembers_eq_of_perm {xs ys : List (String × α)} (h : xs.Perm ys)
    (hnodup : (keys xs).Nodup) : sortMembers xs = sortMembers ys := by
  refine List.Perm.eq_of_pairwise ?_ (pairwise_sortMembers xs) (pairwise_sortMembers ys)
    ((perm_sortMembers xs).trans (h.trans (perm_sortMembers ys).symm))
  intro m n hm hn hmn hnm
  rw [decide_eq_true_eq] at hmn hnm
  exact eq_of_mem_of_key_eq hnodup ((perm_sortMembers xs).mem_iff.mp hm)
    (h.mem_iff.mpr ((perm_sortMembers ys).mem_iff.mp hn)) (String.le_antisymm hmn hnm)

end Json

end DeliveryLedger
