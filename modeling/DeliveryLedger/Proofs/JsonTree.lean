import DeliveryLedger.Proofs.KeyedRows
/-!
JSON values as trees: induction over them, properties of all their parts, and the order of
their keys.
-/

namespace DeliveryLedger.Json

/-- What holds of a list or an object as soon as it holds of its parts, holds of every value. -/
@[elab_as_elim]
theorem induction {motive : Json → Prop} (null : motive .null) (bool : ∀ b, motive (.bool b))
    (int : ∀ i, motive (.int i)) (float : ∀ x, motive (.float x)) (str : ∀ s, motive (.str s))
    (arr : ∀ items, (∀ x ∈ items, motive x) → motive (.arr items))
    (obj : ∀ members, (∀ m ∈ members, motive m.2) → motive (.obj members)) (j : Json) :
    motive j := by
  refine @Json.rec motive (fun items => ∀ x ∈ items, motive x)
    (fun members => ∀ m ∈ members, motive m.2) (fun m => motive m.2)
    null bool int float str arr obj (by simp) ?_ (by simp) ?_ (fun _ _ h => h) j
  · intro x items hx hitems
    exact List.forall_mem_cons.mpr ⟨hx, hitems⟩
  · intro m members hm hmembers
    exact List.forall_mem_cons.mpr ⟨hm, hmembers⟩

/-! ### Properties of all parts -/

mutual

/-- The test holds of a value and of all values inside it. -/
def everywhere (test : Json → Bool) : Json → Bool
  | .arr items => test (.arr items) && everywhereItems test items
  | .obj members => test (.obj members) && everywhereMembers test members
  | .null => test .null
  | .bool b => test (.bool b)
  | .int i => test (.int i)
  | .float x => test (.float x)
  | .str s => test (.str s)

def everywhereItems (test : Json → Bool) : List Json → Bool
  | [] => true
  | x :: xs => everywhere test x && everywhereItems test xs

def everywhereMembers (test : Json → Bool) : List (String × Json) → Bool
  | [] => true
  | (_, v) :: ms => everywhere test v && everywhereMembers test ms

end

/-- No floating-point number is infinite or no number at all. -/
def isFinite (j : Json) : Bool :=
  j.everywhere fun
    | .float x => x.isFinite
    | _ => true

/-- No object has a key twice. -/
def hasDistinctKeys (j : Json) : Bool :=
  j.everywhere fun
    | .obj members => decide (keys members).Nodup
    | _ => true

variable {test : Json → Bool}

theorem everywhereItems_iff {items : List Json} :
    everywhereItems test items = true ↔ ∀ x ∈ items, everywhere test x = true := by
  induction items with
  | nil => simp [everywhereItems]
  | cons x items ih => rw [everywhereItems, Bool.and_eq_true, ih, List.forall_mem_cons]

theorem everywhereMembers_iff {members : List (String × Json)} :
    everywhereMembers test members = true ↔ ∀ m ∈ members, everywhere test m.2 = true := by
  induction members with
  | nil => simp [everywhereMembers]
  | cons m members ih =>
      obtain ⟨k, v⟩ := m
      rw [everywhereMembers, Bool.and_eq_true, ih, List.forall_mem_cons]

theorem isFinite_arr {items : List Json} :
    (Json.arr items).isFinite = true ↔ ∀ x ∈ items, x.isFinite = true := by
  unfold isFinite
  rw [everywhere, Bool.true_and, everywhereItems_iff]

theorem isFinite_obj {members : List (String × Json)} :
    (Json.obj members).isFinite = true ↔ ∀ m ∈ members, m.2.isFinite = true := by
  unfold isFinite
  rw [everywhere, Bool.true_and, everywhereMembers_iff]

theorem hasDistinctKeys_arr {items : List Json} :
    (Json.arr items).hasDistinctKeys = true ↔ ∀ x ∈ items, x.hasDistinctKeys = true := by
  unfold hasDistinctKeys
  rw [everywhere, Bool.true_and, everywhereItems_iff]

theorem hasDistinctKeys_obj {members : List (String × Json)} :
    (Json.obj members).hasDistinctKeys = true ↔
      (keys members).Nodup ∧ ∀ m ∈ members, m.2.hasDistinctKeys = true := by
  unfold hasDistinctKeys
  rw [everywhere, Bool.and_eq_true, everywhereMembers_iff, decide_eq_true_eq]

/-! ### Each key once -/

theorem collect_arr (items : List Json) : (Json.arr items).collect = .arr (items.map collect) := by
  have hitems : ∀ xs : List Json, collectItems xs = xs.map collect := by
    intro xs
    induction xs with
    | nil => rfl
    | cons x xs ih => rw [collectItems, ih, List.map_cons]
  rw [collect, hitems]

theorem collect_obj (members : List (String × Json)) :
    (Json.obj members).collect = .obj (collectMembers (mapValues collect members)) := by
  have hmembers : ∀ ms : List (String × Json), collectValues ms = mapValues collect ms := by
    intro ms
    induction ms with
    | nil => rfl
    | cons m ms ih =>
        obtain ⟨k, v⟩ := m
        rw [collectValues, ih]
        rfl
  rw [collect, hmembers]

theorem collect_eq_self {j : Json} (h : j.hasDistinctKeys = true) : j.collect = j := by
  induction j using Json.induction with
  | null => rfl
  | bool b => rfl
  | int i => rfl
  | float x => rfl
  | str s => rfl
  | arr items ih =>
      rw [hasDistinctKeys_arr] at h
      rw [collect_arr]
      have hitems : items.map collect = items.map id :=
        List.map_congr_left fun x hx => ih x hx (h x hx)
      rw [hitems, List.map_id]
  | obj members ih =>
      rw [hasDistinctKeys_obj] at h
      have hvalues : mapValues collect members = mapValues id members :=
        mapValues_congr fun m hm => ih m hm (h.2 m hm)
      rw [collect_obj, hvalues, mapValues_id, collectMembers_eq_self h.1]

/-! ### Depth -/

theorem sortKeys_arr (items : List Json) :
    (Json.arr items).sortKeys = .arr (items.map sortKeys) := by
  have hitems : ∀ xs : List Json, sortKeysItems xs = xs.map sortKeys := by
    intro xs
    induction xs with
    | nil => rfl
    | cons x xs ih => rw [sortKeysItems, ih, List.map_cons]
  rw [sortKeys, hitems]

theorem sortKeys_obj (members : List (String × Json)) :
    (Json.obj members).sortKeys = .obj (sortMembers (mapValues sortKeys members)) := by
  have hmembers : ∀ ms : List (String × Json), sortKeysMembers ms = mapValues sortKeys ms := by
    intro ms
    induction ms with
    | nil => rfl
    | cons m ms ih =>
        obtain ⟨k, v⟩ := m
        rw [sortKeysMembers, ih]
        rfl
  rw [sortKeys, hmembers]

theorem mem_sortMembers_mapValues {f : Json → Json} {members : List (String × Json)}
    {m : String × Json} :
    m ∈ sortMembers (mapValues f members) ↔ ∃ n ∈ members, (n.1, f n.2) = m := by
  rw [(perm_sortMembers _).mem_iff]
  exact List.mem_map

theorem sortKeys_sortKeys (j : Json) : j.sortKeys.sortKeys = j.sortKeys := by
  induction j using Json.induction with
  | null => rfl
  | bool b => rfl
  | int i => rfl
  | float x => rfl
  | str s => rfl
  | arr items ih =>
      rw [sortKeys_arr, sortKeys_arr, List.map_map]
      congr 1
      exact List.map_congr_left ih
  | obj members ih =>
      rw [sortKeys_obj, sortKeys_obj, ← sortMembers_mapValues, mapValues_mapValues,
        sortMembers_sortMembers, mapValues_congr ih]

theorem isFinite_sortKeys {j : Json} (h : j.isFinite = true) : j.sortKeys.isFinite = true := by
  induction j using Json.induction with
  | null => rfl
  | bool b => rfl
  | int i => rfl
  | float x => exact h
  | str s => rfl
  | arr items ih =>
      rw [isFinite_arr] at h
      rw [sortKeys_arr, isFinite_arr]
      intro x hx
      obtain ⟨y, hy, rfl⟩ := List.mem_map.mp hx
      exact ih y hy (h y hy)
  | obj members ih =>
      rw [isFinite_obj] at h
      rw [sortKeys_obj, isFinite_obj]
      intro m hm
      obtain ⟨n, hn, rfl⟩ := mem_sortMembers_mapValues.mp hm
      exact ih n hn (h n hn)

theorem hasDistinctKeys_sortKeys {j : Json} (h : j.hasDistinctKeys = true) :
    j.sortKeys.hasDistinctKeys = true := by
  induction j using Json.induction with
  | null => rfl
  | bool b => rfl
  | int i => rfl
  | float x => rfl
  | str s => rfl
  | arr items ih =>
      rw [hasDistinctKeys_arr] at h
      rw [sortKeys_arr, hasDistinctKeys_arr]
      intro x hx
      obtain ⟨y, hy, rfl⟩ := List.mem_map.mp hx
      exact ih y hy (h y hy)
  | obj members ih =>
      rw [hasDistinctKeys_obj] at h
      rw [sortKeys_obj, hasDistinctKeys_obj]
      constructor
      · apply nodup_sortMembers
        rw [keys_mapValues]
        exact h.1
      · intro m hm
        obtain ⟨n, hn, rfl⟩ := mem_sortMembers_mapValues.mp hm
        exact ih n hn (h.2 n hn)

end DeliveryLedger.Json
