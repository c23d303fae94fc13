import DeliveryLedger.Proofs.Checking
import DeliveryLedger.Proofs.ImportSteps
import DeliveryLedger.Payload
import Mathlib
/-!
Stored occurrences resolve to the occurrences that were stored.

An occurrence that fits its class is written to a text that resolves to the same occurrence,
but for the order of the keys inside its fields, exactly if it is no deeper than a text may be.
What any text resolves to fits its class, so that writing it again and resolving gives it back,
with a text that no longer changes.
-/

namespace DeliveryLedger

/-- Values of the right kind are read as they stand, and the checks of the class do not look at
the order of keys. -/
structure ClassRules.Lawful (rules : ClassRules) : Prop where
  conversions : rules.conversions.Lawful
  verdict {xs ys : List (String × Value)} (h : Value.SameMembers xs ys) :
    rules.verdict xs = rules.verdict ys

namespace Occurrence

variable {cat : Catalogue}

/-- The occurrence has a value of the right type for each field of its class. -/
def Fits (cat : Catalogue) (o : Occurrence) : Prop :=
  List.Forall₂ (fun (f : Field) (m : String × Value) => m.1 = f.name ∧ f.type.Admits m.2)
    (cat.fields o.type) o.fields

/-- The checks of the class and its hook let the occurrence be. -/
structure Passes (cat : Catalogue) (o : Occurrence) : Prop where
  checks : (cat.rules o.type).verdict o.fields = .ok ()
  hook : finish cat o.type o.fields = .ok o

/-- The same class and the same value of each field, but for the order of keys. -/
structure Same (a b : Occurrence) : Prop where
  type : a.type = b.type
  fields : Value.SameMembers a.fields b.fields

/-- The occurrence with the keys inside its fields in order. -/
def sorted (o : Occurrence) : Occurrence := ⟨o.type, mapValues Value.sorted o.fields⟩

theorem same_sorted (o : Occurrence) : o.Same o.sorted :=
  ⟨rfl, Value.sameMembers_mapValues fun m _ => Value.same_sorted m.2⟩

theorem toJson_eq (o : Occurrence) : o.toJson = .obj (mapValues Value.toJson o.fields) := rfl

theorem sortKeys_toJson (o : Occurrence) :
    o.toJson.sortKeys =
      .obj (mapValues (fun v => v.toJson.sortKeys) (Json.sortMembers o.fields)) := by
  rw [toJson_eq, Json.sortKeys_obj, mapValues_mapValues, Json.sortMembers_mapValues]

theorem sortKeys_toJson_sorted (o : Occurrence) :
    o.sorted.toJson.sortKeys = o.toJson.sortKeys := by
  have hfields : mapValues (fun v : Value => v.sorted.toJson.sortKeys) o.fields =
      mapValues (fun v => v.toJson.sortKeys) o.fields := by
    apply mapValues_congr
    intro m _
    rw [Value.toJson_sorted, Json.sortKeys_sortKeys]
  rw [toJson_eq, toJson_eq, sorted, Json.sortKeys_obj, Json.sortKeys_obj, mapValues_mapValues,
    mapValues_mapValues, mapValues_mapValues, hfields]

theorem Fits.keys_eq {o : Occurrence} (h : o.Fits cat) :
    keys o.fields = (cat.fields o.type).map (·.name) := by
  unfold Fits at h
  unfold keys
  generalize cat.fields o.type = fs at h ⊢
  generalize o.fields = ms at h ⊢
  induction h with
  | nil => rfl
  | cons hm _ ih => rw [List.map_cons, List.map_cons, ih, hm.1]

theorem exists_field_of_forall₂ {motive : Field → Value → Prop} {fs : List Field}
    {ms : List (String × Value)}
    (h : List.Forall₂ (fun (f : Field) (m : String × Value) => m.1 = f.name ∧ motive f m.2) fs ms) :
    ∀ m ∈ ms, ∃ f ∈ fs, m.1 = f.name ∧ motive f m.2 := by
  induction h with
  | nil => simp
  | cons hm _ ih =>
      refine List.forall_mem_cons.mpr ⟨⟨_, List.mem_cons_self, hm⟩, ?_⟩
      intro m hlater
      obtain ⟨f, hf, hfield⟩ := ih m hlater
      exact ⟨f, List.mem_cons_of_mem _ hf, hfield⟩

theorem Fits.exists_field {o : Occurrence} (h : o.Fits cat) :
    ∀ m ∈ o.fields, ∃ f ∈ cat.fields o.type, m.1 = f.name ∧ f.type.Admits m.2 :=
  exists_field_of_forall₂ h

theorem Fits.hasDistinctKeys_toJson {o : Occurrence} (h : o.Fits cat)
    (hnames : ((cat.fields o.type).map (·.name)).Nodup) : o.toJson.hasDistinctKeys = true := by
  rw [toJson_eq, Json.hasDistinctKeys_obj, keys_mapValues, h.keys_eq]
  refine ⟨hnames, ?_⟩
  intro m hm
  obtain ⟨n, hn, rfl⟩ := List.mem_map.mp hm
  obtain ⟨f, -, -, hadmits⟩ := h.exists_field n hn
  exact FieldType.hasDistinctKeys_toJson hadmits

theorem Passes.sorted {o : Occurrence} (h : o.Passes cat) (hrules : (cat.rules o.type).Lawful) :
    o.sorted.Passes cat where
  checks := (hrules.verdict o.same_sorted.fields).symm.trans h.checks
  hook := by
    have hhook := h.hook
    unfold finish at hhook ⊢
    rw [Occurrence.sorted, member?_mapValues]
    dsimp only
    cases hhidden : cat.hidesHook o.type with
    | false => rfl
    | true =>
        cases hfound : member? hookName o.fields with
        | none => rfl
        | some v =>
            rw [hhidden, hfound] at hhook
            cases hhook

/-! ### Reading -/

theorem results_mapValues_ok (fields : List (String × Value)) :
    Checked.results (mapValues .ok fields) = fields := by
  unfold Checked.results mapValues
  rw [List.filterMap_map]
  exact List.filterMap_some

theorem judge_eq_ok_iff {α : Type} {verdict : Except Rejection Unit} {checked : Checked α}
    {values : α} :
    judge verdict checked = .ok values ↔ verdict = .ok () ∧ checked = .ok values := by
  obtain (paths | fault) | ⟨⟩ := verdict <;> cases checked <;> simp [judge]

theorem type_fields_of_finish {type : ClassId} {fields : List (String × Value)} {o : Occurrence}
    (h : finish cat type fields = .ok o) : o = ⟨type, fields⟩ := by
  unfold finish at h
  split at h
  · cases h
  · cases h
    rfl

/-- A class reads exactly the objects in which each of its fields is read and which its checks
and its hook let be. -/
theorem check_eq_ok_iff {type : ClassId} {data : Json} {o : Occurrence} :
    check cat type data = .ok o ↔ o.type = type ∧ o.Passes cat ∧
      ∃ members, data = .obj members ∧
        ((cat.fields type).map fun f =>
          (f.name, checkField (cat.rules type).conversions members f)) =
            mapValues .ok o.fields := by
  constructor
  · intro h
    cases data with
    | obj members =>
        rw [check] at h
        obtain ⟨fields, hjudged, hfinished⟩ := bind_eq_ok_iff.mp h
        obtain ⟨hverdict, hgathered⟩ := judge_eq_ok_iff.mp hjudged
        obtain rfl := type_fields_of_finish hfinished
        have hfields := Checked.gather_eq_ok_iff.mp hgathered
        rw [hfields, results_mapValues_ok] at hverdict
        exact ⟨rfl, ⟨hverdict, hfinished⟩, members, rfl, hfields⟩
    | _ => cases h
  · rintro ⟨rfl, hpasses, members, rfl, hfields⟩
    have hjudged : judge ((cat.rules o.type).verdict o.fields)
        (Checked.gather (mapValues .ok o.fields)) = .ok o.fields :=
      judge_eq_ok_iff.mpr ⟨hpasses.checks, Checked.gather_eq_ok_iff.mpr rfl⟩
    rw [check, hfields, results_mapValues_ok, hjudged]
    exact hpasses.hook

theorem map_checkField_of_found {how : Conversions} (hhow : how.Lawful)
    {members : List (String × Json)} {fs : List Field} {ms : List (String × Value)}
    (h : List.Forall₂ (fun (f : Field) (m : String × Value) => m.1 = f.name ∧ f.type.Admits m.2)
      fs ms)
    (hfound : ∀ m ∈ ms, member? m.1 members.reverse = some m.2.toJson.sortKeys) :
    (fs.map fun f => (f.name, checkField how members f)) =
      mapValues .ok (mapValues Value.sorted ms) := by
  induction h with
  | nil => rfl
  | @cons f m fs ms hm _ ih =>
      obtain ⟨hfirst, hrest⟩ := List.forall_mem_cons.mp hfound
      have hfield : checkField how members f = .ok m.2.sorted := by
        rw [hm.1] at hfirst
        unfold checkField
        rw [hfirst]
        exact FieldType.check_toJson hhow hm.2
      rw [List.map_cons, ih hrest, hfield, ← hm.1]
      rfl

theorem Fits.map_checkField {how : Conversions} {o : Occurrence} (h : o.Fits cat)
    (hhow : how.Lawful) (hnames : ((cat.fields o.type).map (·.name)).Nodup) :
    ((cat.fields o.type).map fun f => (f.name, checkField how
      (mapValues (fun v => v.toJson.sortKeys) (Json.sortMembers o.fields)) f)) =
        mapValues .ok o.sorted.fields := by
  have hnodup : (keys o.fields).Nodup := h.keys_eq ▸ hnames
  have hsorted := Json.nodup_sortMembers hnodup
  refine map_checkField_of_found hhow h ?_
  intro m hm
  have hkeys : (keys (mapValues (fun v : Value => v.toJson.sortKeys)
      (Json.sortMembers o.fields))).Nodup := by
    rw [keys_mapValues]
    exact hsorted
  rw [← member?_perm (List.reverse_perm _).symm hkeys, member?_mapValues,
    member?_perm (Json.perm_sortMembers o.fields) hsorted, (member?_eq_some_iff hnodup).mpr hm]
  rfl

theorem Fits.check_toJson {o : Occurrence} (h : o.Fits cat) (hpasses : o.Passes cat)
    (hrules : (cat.rules o.type).Lawful) (hnames : ((cat.fields o.type).map (·.name)).Nodup) :
    check cat o.type o.toJson.sortKeys = .ok o.sorted := by
  rw [sortKeys_toJson, check_eq_ok_iff]
  exact ⟨rfl, hpasses.sorted hrules, _, rfl, h.map_checkField hrules.conversions hnames⟩

end Occurrence

namespace Payload

variable {space : ModuleSpace}

theorem ofOccurrence_sorted (cat : Catalogue) (o : Occurrence) :
    ofOccurrence cat o.sorted = ofOccurrence cat o := by
  unfold ofOccurrence Json.canonical
  rw [Occurrence.sortKeys_toJson_sorted]
  rfl

end Payload

/-- A class, and one that derives from it with a name pinned to it and takes numbers and truth
values for each other. -/
def shippingDeclarations : ClassDeclaration × ClassDeclaration :=
  ({ key := "Sent", fields := [⟨"id", .text, none⟩], moduleName := none, localName := none,
     pinned := none, bases := [] },
   { key := "Parcel"
     fields := [⟨"tags", .keyed (.list .any), some (.record [])⟩,
       ⟨"price", .optional .decimal, some .null⟩, ⟨"weight", .optional .float, some .null⟩]
     moduleName := none, localName := none, pinned := some "parcel", bases := ["Sent"]
     rules := { conversions := .lax } })

/-- The modules of a node that knows both classes. -/
def shippingSpace : ModuleSpace :=
  let base := shippingDeclarations.1
  let derived := shippingDeclarations.2
  let sent : OccurrenceClass :=
    { key := "Sent", moduleName := "app", localName := "Sent", pinned := none,
      fields := base.fields, lineage := [1, 0] }
  let parcel : OccurrenceClass :=
    { key := "Parcel", moduleName := "app", localName := "Parcel", pinned := some "parcel",
      fields := base.fields ++ derived.fields, lineage := [2, 1, 0], rules := derived.rules }
  { ModuleSpace.initial [] with
    catalogue := ⟨[Catalogue.baseClass, sent, parcel], [("app.Sent", 1), ("parcel", 2)]⟩ }

theorem reachable_shippingSpace : shippingSpace.catalogue.Reachable := by
  have hbase : Catalogue.initial.declare "app" shippingDeclarations.1 = .ok (1, _) := rfl
  have hsent := Catalogue.Reachable.declare .initial hbase
  exact @Catalogue.Reachable.declare _ _ "app" shippingDeclarations.2 2 hsent rfl

/-- A parcel with each field set. -/
def parcel : Occurrence :=
  ⟨2, [("id", .text "\"7\""),
    ("tags", .record [("b", .list [.int 1, .float .zero]), ("a", .list [])]),
    ("price", .decimal ⟨false, 950, -2⟩), ("weight", .float ⟨true, Nat.pow 2 62⟩)]⟩

theorem fits_of_parts {id : String} {tags : Value} {price : Decimal.Numeral} {weight : Binary64}
    (htags : (FieldType.keyed (.list .any)).Admits tags) (hprice : price.InLimits) :
    Occurrence.Fits shippingSpace.catalogue ⟨2, [("id", .text id), ("tags", tags),
      ("price", .decimal price), ("weight", .float weight)]⟩ :=
  .cons ⟨rfl, trivial⟩ (.cons ⟨rfl, htags⟩ (.cons ⟨rfl, .inr hprice⟩
    (.cons ⟨rfl, .inr trivial⟩ .nil)))

theorem fits_parcel : parcel.Fits shippingSpace.catalogue := by
  refine fits_of_parts ?_ (by decide +kernel)
  simp [FieldType.Admits, keys, Value.ofJson, Value.toJson, Json.hasDistinctKeys,
    Json.everywhere]

end DeliveryLedger
