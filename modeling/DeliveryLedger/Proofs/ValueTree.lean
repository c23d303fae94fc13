import DeliveryLedger.Proofs.JsonTree
import DeliveryLedger.Occurrence.Value
/-!
Values of fields as trees: induction over them, the order of the keys inside them, and which
values are the same but for that order.
-/

namespace DeliveryLedger.Value

/-- What holds of a list or a record as soon as it holds of its parts, holds of every value. -/
@[elab_as_elim]
theorem induction {motive : Value → Prop} (null : motive .null) (bool : ∀ b, motive (.bool b))
    (int : ∀ i, motive (.int i)) (float : ∀ x, motive (.float x))
    (decimal : ∀ n, motive (.decimal n)) (text : ∀ s, motive (.text s))
    (list : ∀ items, (∀ v ∈ items, motive v) → motive (.list items))
    (record : ∀ members, (∀ m ∈ members, motive m.2) → motive (.record members)) (v : Value) :
    motive v := by
  refine @Value.rec motive (fun items => ∀ v ∈ items, motive v)
    (fun members => ∀ m ∈ members, motive m.2) (fun m => motive m.2)
    null bool int float decimal text list record (by simp) ?_ (by simp) ?_ (fun _ _ h => h) v
  · intro v items hv hitems
    exact List.forall_mem_cons.mpr ⟨hv, hitems⟩
  · intro m members hm hmembers
    exact List.forall_mem_cons.mpr ⟨hm, hmembers⟩

theorem toJson_list (items : List Value) : (Value.list items).toJson = .arr (items.map toJson) := by
  have hitems : ∀ vs : List Value, itemsToJson vs = vs.map toJson := by
    intro vs
    induction vs with
    | nil => rfl
    | cons v vs ih => rw [itemsToJson, ih, List.map_cons]
  rw [toJson, hitems]

theorem toJson_record (members : List (String × Value)) :
    (Value.record members).toJson = .obj (mapValues toJson members) := by
  have hmembers : ∀ ms : List (String × Value), membersToJson ms = mapValues toJson ms := by
    intro ms
    induction ms with
    | nil => rfl
    | cons m ms ih =>
        obtain ⟨k, v⟩ := m
        rw [membersToJson, ih]
        rfl
  rw [toJson, hmembers]

theorem ofJson_arr (items : List Json) : ofJson (.arr items) = .list (items.map ofJson) := by
  have hitems : ∀ js : List Json, itemsOfJson js = js.map ofJson := by
    intro js
    induction js with
    | nil => rfl
    | cons j js ih => rw [itemsOfJson, ih, List.map_cons]
  rw [ofJson, hitems]

theorem ofJson_obj (members : List (String × Json)) :
    ofJson (.obj members) = .record (mapValues ofJson members) := by
  have hmembers : ∀ ms : List (String × Json), membersOfJson ms = mapValues ofJson ms := by
    intro ms
    induction ms with
    | nil => rfl
    | cons m ms ih =>
        obtain ⟨k, j⟩ := m
        rw [membersOfJson, ih]
        rfl
  rw [ofJson, hmembers]

/-! ### The order of the keys -/

mutual

/-- The value with the members of every record in the order of their keys. -/
def sorted : Value → Value
  | .list items => .list (sortedItems items)
  | .record members => .record (Json.sortMembers (sortedMembers members))
  | .null => .null
  | .bool b => .bool b
  | .int i => .int i
  | .float x => .float x
  | .decimal n => .decimal n
  | .text s => .text s

def sortedItems : List Value → List Value
  | [] => []
  | v :: vs => sorted v :: sortedItems vs

def sortedMembers : List (String × Value) → List (String × Value)
  | [] => []
  | (k, v) :: ms => (k, sorted v) :: sortedMembers ms

end

theorem sorted_list (items : List Value) : sorted (.list items) = .list (items.map sorted) := by
  have hitems : ∀ vs : List Value, sortedItems vs = vs.map sorted := by
    intro vs
    induction vs with
    | nil => rfl
    | cons v vs ih => rw [sortedItems, ih, List.map_cons]
  rw [sorted, hitems]

theorem sorted_record (members : List (String × Value)) :
    sorted (.record members) = .record (Json.sortMembers (mapValues sorted members)) := by
  have hmembers : ∀ ms : List (String × Value), sortedMembers ms = mapValues sorted ms := by
    intro ms
    induction ms with
    | nil => rfl
    | cons m ms ih =>
        obtain ⟨k, v⟩ := m
        rw [sortedMembers, ih]
        rfl
  rw [sorted, hmembers]

theorem toJson_sorted (v : Value) : v.sorted.toJson = v.toJson.sortKeys := by
  induction v using Value.induction with
  | null => rfl
  | bool b => rfl
  | int i => rfl
  | float x => rfl
  | decimal n => rfl
  | text s => rfl
  | list items ih =>
      rw [sorted_list, toJson_list, toJson_list, Json.sortKeys_arr, List.map_map, List.map_map]
      congr 1
      exact List.map_congr_left ih
  | record members ih =>
      have hmembers : mapValues (fun v => v.sorted.toJson) members =
          mapValues (fun v => v.toJson.sortKeys) members := mapValues_congr ih
      rw [sorted_record, toJson_record, toJson_record, Json.sortKeys_obj, mapValues_mapValues,
        ← Json.sortMembers_mapValues, mapValues_mapValues, hmembers]

theorem ofJson_sortKeys (j : Json) : ofJson j.sortKeys = (ofJson j).sorted := by
  induction j using Json.induction with
  | null => rfl
  | bool b => rfl
  | int i => rfl
  | float x => rfl
  | str s => rfl
  | arr items ih =>
      rw [Json.sortKeys_arr, ofJson_arr, ofJson_arr, sorted_list, List.map_map, List.map_map]
      congr 1
      exact List.map_congr_left ih
  | obj members ih =>
      have hmembers : mapValues (fun j => ofJson j.sortKeys) members =
          mapValues (fun j => (ofJson j).sorted) members := mapValues_congr ih
      rw [Json.sortKeys_obj, ofJson_obj, ofJson_obj, sorted_record, mapValues_mapValues,
        ← Json.sortMembers_mapValues, mapValues_mapValues, hmembers]

mutual

/-- The same value, but for the order of the members of records. -/
inductive Same : Value → Value → Prop
  | refl (v : Value) : Same v v
  | list {vs ws : List Value} (h : SameItems vs ws) : Same (.list vs) (.list ws)
  | record {ms ns ls : List (String × Value)} (hperm : ms.Perm ns) (h : SameMembers ns ls) :
      Same (.record ms) (.record ls)

inductive SameItems : List Value → List Value → Prop
  | nil : SameItems [] []
  | cons {v w : Value} {vs ws : List Value} (h : Same v w) (hs : SameItems vs ws) :
      SameItems (v :: vs) (w :: ws)

/-- The same keys in the same places, each with the same value. -/
inductive SameMembers : List (String × Value) → List (String × Value) → Prop
  | nil : SameMembers [] []
  | cons (k : String) {v w : Value} {ms ns : List (String × Value)} (h : Same v w)
      (hs : SameMembers ms ns) : SameMembers ((k, v) :: ms) ((k, w) :: ns)

end

theorem sameMembers_mapValues {f : Value → Value} {members : List (String × Value)}
    (h : ∀ m ∈ members, Same m.2 (f m.2)) : SameMembers members (mapValues f members) := by
  induction members with
  | nil => exact .nil
  | cons m members ih =>
      exact .cons m.1 (h m (by simp)) (ih fun n hn => h n (by simp [hn]))

theorem same_sorted (v : Value) : Same v v.sorted := by
  induction v using Value.induction with
  | null => exact .refl _
  | bool b => exact .refl _
  | int i => exact .refl _
  | float x => exact .refl _
  | decimal n => exact .refl _
  | text s => exact .refl _
  | list items ih =>
      rw [sorted_list]
      refine .list ?_
      induction items with
      | nil => exact .nil
      | cons v vs ihvs => exact .cons (ih v (by simp)) (ihvs fun w hw => ih w (by simp [hw]))
  | record members ih =>
      rw [sorted_record, Json.sortMembers_mapValues]
      refine .record (Json.perm_sortMembers members).symm (sameMembers_mapValues ?_)
      intro m hm
      exact ih m ((Json.perm_sortMembers members).mem_iff.mp hm)

/-! ### Equality -/

theorem equalMembers_iff {ms ns : List (String × Value)} :
    equalMembers ms ns = true ↔
      ∀ m ∈ ms, ∃ w, member? m.1 ns = some w ∧ equal m.2 w = true := by
  induction ms with
  | nil => simp [equalMembers]
  | cons m ms ih =>
      obtain ⟨k, v⟩ := m
      rw [equalMembers, Bool.and_eq_true, ih, List.forall_mem_cons]
      cases member? k ns <;> simp

end DeliveryLedger.Value
