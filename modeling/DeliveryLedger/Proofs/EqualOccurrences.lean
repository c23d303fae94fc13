import DeliveryLedger.Proofs.Matching
import DeliveryLedger.Proofs.Restoration
/-!
Equal occurrences and their fingerprints.

Equality compares numbers by value, but the stored text keeps the spelling of a number and its
kind.  Equal occurrences have one stored form, and so one fingerprint, if they are the same but
for the order of keys.  That is so for all of them exactly if no field of the class has room for
two spellings of a number (`FieldType.IsExact`).
-/

namespace DeliveryLedger

open Act

/-! ### Equal values of exact types -/

namespace Value

theorem equalNumbers_null (v : Value) :
    equalNumbers .null v = false ∧ equalNumbers v .null = false := by
  unfold equalNumbers
  cases hv : v.ratio? <;> cases v <;> simp_all [ratio?]

theorem eq_null_iff_of_equal {v w : Value} (h : v.equal w = true) : v = .null ↔ w = .null := by
  constructor
  · rintro rfl
    cases w <;> simp_all [equal, equalNumbers_null]
  · rintro rfl
    cases v <;> simp_all [equal, equalNumbers_null]

theorem map_sorted_of_equalItems {vs ws : List Value} (h : equalItems vs ws = true)
    (hsorted : ∀ v ∈ vs, ∀ w ∈ ws, v.equal w = true → v.sorted = w.sorted) :
    vs.map sorted = ws.map sorted := by
  induction vs generalizing ws with
  | nil =>
      cases ws with
      | nil => rfl
      | cons w ws => cases h
  | cons v vs ih =>
      cases ws with
      | nil => cases h
      | cons w ws =>
          rw [equalItems, Bool.and_eq_true] at h
          have hfirst : v.sorted = w.sorted := hsorted v (by simp) w (by simp) h.1
          have hrest : vs.map sorted = ws.map sorted :=
            ih h.2 fun v hv w hw => hsorted v (by simp [hv]) w (by simp [hw])
          rw [List.map_cons, List.map_cons, hfirst, hrest]

theorem perm_sorted_of_equal {ms ns : List (String × Value)}
    (h : (Value.record ms).equal (.record ns) = true) (hnodup : (keys ms).Nodup)
    (hsorted : ∀ m ∈ ms, ∀ n ∈ ns, m.1 = n.1 → m.2.equal n.2 = true → m.2.sorted = n.2.sorted) :
    (mapValues sorted ms).Perm (mapValues sorted ns) := by
  rw [equal, Bool.and_eq_true, beq_iff_eq, equalMembers_iff] at h
  obtain ⟨hlength, hmembers⟩ := h
  refine perm_of_member? (by rwa [keys_mapValues]) (by simpa [mapValues] using hlength) ?_
  intro m' hm'
  obtain ⟨m, hm, rfl⟩ := List.mem_map.mp hm'
  obtain ⟨w, hfound, hw⟩ := hmembers m hm
  rw [member?_mapValues, hfound, Option.map_some,
    hsorted m hm (m.1, w) (mem_of_member? hfound) rfl hw]

end Value

namespace FieldType

/-- Each number of the type has a single spelling. -/
def IsExact : FieldType → Prop
  | .text | .integer | .boolean => True
  | .float | .any | .decimal => False
  | .list item | .keyed item | .optional item => item.IsExact

theorem sorted_eq_of_equal {t : FieldType} (ht : t.IsExact) {v w : Value} (hv : t.Admits v)
    (hw : t.Admits w) (h : v.equal w = true) : v.sorted = w.sorted := by
  induction t generalizing v w with
  | text =>
      cases v <;> first | exact hv.elim | skip
      cases w <;> first | exact hw.elim | skip
      rw [Value.equal, beq_iff_eq] at h
      rw [h]
  | integer =>
      cases v <;> first | exact hv.elim | skip
      cases w <;> first | exact hw.elim | skip
      simp [Value.equal, Value.equalNumbers, Value.ratio?] at h
      rw [h]
  | boolean =>
      cases v <;> first | exact hv.elim | skip
      cases w <;> first | exact hw.elim | skip
      simp [Value.equal, Value.equalNumbers, Value.ratio?] at h
      grind
  | float => exact ht.elim
  | any => exact ht.elim
  | decimal => exact ht.elim
  | list item ih =>
      cases v <;> first | exact hv.elim | skip
      cases w <;> first | exact hw.elim | skip
      rw [Admits] at hv hw
      rw [Value.equal] at h
      rw [Value.sorted_list, Value.sorted_list, Value.map_sorted_of_equalItems h]
      exact fun v hvs w hws heq => ih ht (hv v hvs) (hw w hws) heq
  | keyed item ih =>
      cases v <;> first | exact hv.elim | skip
      cases w <;> first | exact hw.elim | skip
      rw [Admits] at hv hw
      have hperm := Value.perm_sorted_of_equal h hv.1
        fun m hm n hn _ heq => ih ht (hv.2 m hm) (hw.2 n hn) heq
      rw [Value.sorted_record, Value.sorted_record,
        Json.sortMembers_eq_of_perm hperm (by rw [keys_mapValues]; exact hv.1)]
  | optional inner ih =>
      rw [Admits] at hv hw
      rcases hv with rfl | hv
      · rw [(Value.eq_null_iff_of_equal h).mp rfl]
      rcases hw with rfl | hw
      · rw [(Value.eq_null_iff_of_equal h).mpr rfl]
      exact ih ht hv hw h

/-- Two equal values of the type, spelled in different ways if the type has room for it. -/
def spellings : FieldType → Value × Value
  | .text => (.text "", .text "")
  | .integer => (.int 0, .int 0)
  | .boolean => (.bool true, .bool true)
  | .float => (.float .zero, .float ⟨true, 0⟩)
  | .any => (.int 1, .bool true)
  | .decimal => (.decimal ⟨false, 2, 0⟩, .decimal ⟨false, 20, -1⟩)
  | .list item => (.list [item.spellings.1], .list [item.spellings.2])
  | .keyed item => (.record [("", item.spellings.1)], .record [("", item.spellings.2)])
  | .optional inner => inner.spellings

theorem admits_spellings (t : FieldType) :
    t.Admits t.spellings.1 ∧ t.Admits t.spellings.2 := by
  induction t with
  | text => exact ⟨trivial, trivial⟩
  | integer => exact ⟨trivial, trivial⟩
  | boolean => exact ⟨trivial, trivial⟩
  | float => exact ⟨trivial, trivial⟩
  | any => exact ⟨⟨rfl, rfl⟩, ⟨rfl, rfl⟩⟩
  | decimal =>
      have hwhole : Decimal.Numeral.InLimits ⟨false, 2, 0⟩ := by decide +kernel
      have hpoint : Decimal.Numeral.InLimits ⟨false, 20, -1⟩ := by decide +kernel
      exact ⟨hwhole, hpoint⟩
  | list item ih => simpa [Admits, spellings] using ih
  | keyed item ih => simpa [Admits, spellings, keys] using ih
  | optional inner ih => exact ⟨.inr ih.1, .inr ih.2⟩

theorem equal_spellings (t : FieldType) : t.spellings.1.equal t.spellings.2 = true := by
  induction t with
  | list item ih =>
      rw [spellings, Value.equal, Value.equalItems, ih]
      rfl
  | keyed item ih =>
      rw [spellings, Value.equal, Value.equalMembers, member?, if_pos rfl]
      simpa [Value.equalMembers] using ih
  | optional inner ih => exact ih
  | _ => decide +kernel

theorem isFinite_spellings (t : FieldType) :
    t.spellings.1.toJson.isFinite = true ∧ t.spellings.2.toJson.isFinite = true := by
  induction t with
  | list item ih => simpa [spellings, Value.toJson_list, Json.isFinite_arr] using ih
  | keyed item ih => simpa [spellings, Value.toJson_record, mapValues, Json.isFinite_obj] using ih
  | optional inner ih => exact ih
  | _ => decide +kernel

theorem isExact_of_sorted_spellings {t : FieldType}
    (h : t.spellings.1.sorted = t.spellings.2.sorted) : t.IsExact := by
  induction t with
  | text => trivial
  | integer => trivial
  | boolean => trivial
  | float => cases h
  | any => cases h
  | decimal => cases h
  | list item ih =>
      rw [spellings, Value.sorted_list, Value.sorted_list] at h
      exact ih (by simpa using h)
  | keyed item ih =>
      rw [spellings, Value.sorted_record, Value.sorted_record] at h
      exact ih (by simpa [mapValues, Json.sortMembers, sortBy, insertBy] using h)
  | optional inner ih => exact ih h

end FieldType

/-! ### Equal occurrences -/

namespace Occurrence

variable {cat : Catalogue} {a b : Occurrence}

theorem sorted_eq_of_equal (hnames : ((cat.fields a.type).map (·.name)).Nodup) (ha : a.Fits cat)
    (hb : b.Fits cat) (hexact : ∀ f ∈ cat.fields a.type, f.type.IsExact)
    (h : a.equal b = true) : a.sorted = b.sorted := by
  rw [equal, Bool.and_eq_true, beq_iff_eq] at h
  obtain ⟨htype, hequal⟩ := h
  have hkeys : keys a.fields = keys b.fields := by
    rw [ha.keys_eq, hb.keys_eq, htype]
  have hnodup : (keys a.fields).Nodup := ha.keys_eq ▸ hnames
  have hfields : ∀ m ∈ a.fields, ∀ n ∈ b.fields, m.1 = n.1 → m.2.equal n.2 = true →
      m.2.sorted = n.2.sorted := by
    intro m hm n hn hname heq
    obtain ⟨f, hf, hmf, hadmits⟩ := ha.exists_field m hm
    obtain ⟨g, hg, hng, hadmits'⟩ := hb.exists_field n hn
    rw [← htype] at hg
    obtain rfl : f = g :=
      List.inj_on_of_nodup_map hnames hf hg (hmf.symm.trans (hname.trans hng))
    exact FieldType.sorted_eq_of_equal (hexact f hf) hadmits hadmits' heq
  -- Both rows have the keys of the class in its order: members that agree stand in one place.
  have hperm := Value.perm_sorted_of_equal hequal hnodup hfields
  have hsame : mapValues Value.sorted a.fields = mapValues Value.sorted b.fields :=
    eq_of_perm_of_keys_eq hperm (by rw [keys_mapValues, keys_mapValues, hkeys])
      (by rwa [keys_mapValues])
  rw [sorted, sorted, htype, hsame]

/-- An occurrence with one of two spellings in each field. -/
def spelled (cat : Catalogue) (type : ClassId) (side : Value × Value → Value) : Occurrence :=
  ⟨type, (cat.fields type).map fun f => (f.name, side f.type.spellings)⟩

theorem fits_spelled (cat : Catalogue) (type : ClassId) :
    (spelled cat type Prod.fst).Fits cat ∧ (spelled cat type Prod.snd).Fits cat := by
  unfold Fits spelled
  rw [List.forall₂_map_right_iff, List.forall₂_map_right_iff, List.forall₂_same,
    List.forall₂_same]
  exact ⟨fun f _ => ⟨rfl, f.type.admits_spellings.1⟩, fun f _ => ⟨rfl, f.type.admits_spellings.2⟩⟩

theorem equal_spelled {type : ClassId} (hnames : ((cat.fields type).map (·.name)).Nodup) :
    (spelled cat type Prod.fst).equal (spelled cat type Prod.snd) = true := by
  rw [equal, Bool.and_eq_true, beq_iff_eq, Value.equal, Bool.and_eq_true, beq_iff_eq,
    Value.equalMembers_iff]
  refine ⟨rfl, by simp [spelled], ?_⟩
  intro m hm
  obtain ⟨f, hf, rfl⟩ := List.mem_map.mp hm
  have hnodup : (keys (spelled cat type Prod.snd).fields).Nodup := by
    rw [(fits_spelled cat type).2.keys_eq]
    exact hnames
  exact ⟨_, (member?_eq_some_iff hnodup).mpr (List.mem_map_of_mem hf), f.type.equal_spellings⟩

theorem isFinite_spelled (cat : Catalogue) (type : ClassId) :
    (spelled cat type Prod.fst).toJson.isFinite = true ∧
      (spelled cat type Prod.snd).toJson.isFinite = true := by
  rw [toJson, toJson, Json.isFinite_obj, Json.isFinite_obj]
  simp only [spelled, List.map_map, List.forall_mem_map]
  exact ⟨fun f _ => f.type.isFinite_spellings.1, fun f _ => f.type.isFinite_spellings.2⟩

theorem isExact_of_sorted_spelled {type : ClassId}
    (h : (spelled cat type Prod.fst).sorted = (spelled cat type Prod.snd).sorted) :
    ∀ f ∈ cat.fields type, f.type.IsExact := by
  have hfields := congrArg Occurrence.fields h
  simp only [sorted, spelled, mapValues, List.map_map] at hfields
  intro f hf
  have hfield := List.map_inj_left.mp hfields f hf
  exact FieldType.isExact_of_sorted_spellings (Prod.mk.inj hfield).2

theorem sorted_eq_of_ofOccurrence_eq (hcat : cat.Reachable) (ha : a.Fits cat) (hb : b.Fits cat)
    (htype : a.type = b.type) (hfinite : a.toJson.isFinite = true)
    (hfinite' : b.toJson.isFinite = true)
    (h : Payload.ofOccurrence cat a = Payload.ofOccurrence cat b) : a.sorted = b.sorted := by
  have hnames := hcat.nodup_fields a.type
  have hnames' := hcat.nodup_fields b.type
  have htext : a.toJson.canonical = b.toJson.canonical := congrArg Payload.text h
  have hread : some a.toJson.sortKeys = some b.toJson.sortKeys := by
    rw [← Json.parse?_canonical (ha.hasDistinctKeys_toJson hnames) hfinite, htext,
      Json.parse?_canonical (hb.hasDistinctKeys_toJson hnames') hfinite']
  have hmembers := Option.some.inj hread
  rw [sortKeys_toJson, sortKeys_toJson] at hmembers
  have hfields : mapValues (.ok : Value → Checked Value) a.sorted.fields =
      mapValues .ok b.sorted.fields := by
    rw [← ha.map_checkField Conversions.lawful_strict hnames,
      ← hb.map_checkField Conversions.lawful_strict hnames', Json.obj.inj hmembers, htype]
  have hsame := congrArg Checked.results hfields
  rw [results_mapValues_ok, results_mapValues_ok] at hsame
  exact Occurrence.mk.injEq .. ▸ ⟨htype, hsame⟩

theorem ofOccurrence_eq_of_sorted_eq (h : a.sorted = b.sorted) :
    Payload.ofOccurrence cat a = Payload.ofOccurrence cat b := by
  rw [← Payload.ofOccurrence_sorted cat a, h, Payload.ofOccurrence_sorted cat b]

/-- All equal occurrences of a class have one stored form exactly if all its fields are exact. -/
theorem exact_iff_ofOccurrence_eq (hcat : cat.Reachable) (type : ClassId) :
    (∀ f ∈ cat.fields type, f.type.IsExact) ↔
      ∀ a b : Occurrence, a.type = type → a.Fits cat → b.Fits cat → a.equal b = true →
        Payload.ofOccurrence cat a = Payload.ofOccurrence cat b := by
  have hnames := hcat.nodup_fields type
  constructor
  · rintro hexact a b rfl ha hb hequal
    exact ofOccurrence_eq_of_sorted_eq (sorted_eq_of_equal hnames ha hb hexact hequal)
  · intro hshare
    -- Two spellings in every field make two equal occurrences, whose texts say which types differ.
    obtain ⟨hfirst, hsecond⟩ := fits_spelled cat type
    obtain ⟨hfinite, hfinite'⟩ := isFinite_spelled cat type
    have hsame := hshare _ _ rfl hfirst hsecond (equal_spelled hnames)
    exact isExact_of_sorted_spelled
      (sorted_eq_of_ofOccurrence_eq hcat hfirst hsecond rfl hfinite hfinite' hsame)

end Occurrence

/-- Equal occurrences of a class all have one fingerprint exactly if no field of the class has room
for two spellings of a number.  In any class, two of them have one if they are the same but for
the order of keys, and only then, unless their texts collide. -/
theorem equal_share_fingerprint {cat : Catalogue} (hcat : cat.Reachable) :
    (∀ type, (∀ f ∈ cat.fields type, f.type.IsExact) ↔
      ∀ a b : Occurrence, a.type = type → a.Fits cat → b.Fits cat → a.equal b = true →
        Payload.ofOccurrence cat a = Payload.ofOccurrence cat b) ∧
    ∀ a b : Occurrence, a.Fits cat → b.Fits cat → a.equal b = true →
      let first := Payload.ofOccurrence cat a
      let second := Payload.ofOccurrence cat b
      (a.sorted = b.sorted → first.fingerprint = second.fingerprint) ∧
      (a.toJson.isFinite = true → b.toJson.isFinite = true →
        Payload.NoCollision [first, second] → first.fingerprint = second.fingerprint →
        a.sorted = b.sorted) ∧
      (first.fingerprint = second.fingerprint →
        ∀ (p q : Node) (x : PublicationRecord) (r : Except Fault Bool), p.space.catalogue = cat →
          p.store.FromFanOuts → x ∈ p.store.records → x.isPending → x.payload = first →
          outcome (Ledger.completeMatching b x.handlerId) p = (r, q) →
          let found := p.store.withFingerprint x.handlerId second.fingerprint
          (¬ p.Calm ∧ ∃ fault, r = .error fault) ∨
          (found = [x] ∧ r = .ok true ∧ q.store.records =
            Store.markAll [x.id] (fun _ => p.store.keepInstant p.clock.now) p.store.records) ∨
          (2 ≤ found.length ∧
            r = .error (.ambiguous x.handlerId second.fingerprint found.length))) := by
  refine ⟨Occurrence.exact_iff_ofOccurrence_eq hcat, ?_⟩
  intro a b ha hb hequal first second
  have htype : a.type = b.type := by
    rw [Occurrence.equal, Bool.and_eq_true, beq_iff_eq] at hequal
    exact hequal.1
  refine ⟨?_, ?_, ?_⟩
  · intro hsorted
    exact congrArg Payload.fingerprint (Occurrence.ofOccurrence_eq_of_sorted_eq hsorted)
  · intro hfinite hfinite' hdigests hsame
    have htext := hdigests first (by simp) second (by simp) hsame
    exact Occurrence.sorted_eq_of_ofOccurrence_eq hcat ha hb htype hfinite hfinite'
      (Payload.digestText_injective htext)
  · rintro hsame p q x r rfl hstore hx hpending hpayload h found
    have hmem : x ∈ found := by
      refine List.mem_filter.mpr ⟨hx, ?_⟩
      simp [hpending, hpayload, hsame, second]
    rcases Ledger.completeMatching_outcomes hstore h with
      ⟨hstruck, hfault, -⟩ | ⟨hnone, -⟩ | ⟨y, hone, rfl, -, hrecords⟩ | ⟨hseveral, rfl, -⟩
    · exact .inl ⟨hstruck, hfault⟩
    · exact absurd hmem (List.eq_nil_iff_forall_not_mem.mp hnone x)
    · obtain rfl : x = y := List.mem_singleton.mp ((hone : found = [y]) ▸ hmem)
      exact .inr (.inl ⟨hone, rfl, hrecords⟩)
    · exact .inr (.inr ⟨hseveral, rfl⟩)

/-- The parcel with its tags in the other order. -/
def turnedParcel : Occurrence :=
  ⟨2, [("id", .text "\"7\""),
    ("tags", .record [("a", .list []), ("b", .list [.int 1, .float .zero])]),
    ("price", .decimal ⟨false, 950, -2⟩), ("weight", .float ⟨true, Nat.pow 2 62⟩)]⟩

theorem fits_turnedParcel : turnedParcel.Fits shippingSpace.catalogue := by
  refine fits_of_parts ?_ (by decide +kernel)
  simp [FieldType.Admits, keys, Value.ofJson, Value.toJson, Json.hasDistinctKeys,
    Json.everywhere]

/-- A node with an empty table. -/
def shippingNode : Node := Node.start shippingSpace ⟨Clock.epoch⟩ (.table .empty)

/-- The node with one occurrence pending for one handler. -/
def nodeWith (o : Occurrence) : Node := (outcome (Ledger.record o ["mail"]) shippingNode).2

theorem fromFanOuts_nodeWith (o : Occurrence) : (nodeWith o).store.FromFanOuts := by
  have hempty : shippingNode.Worked := .start rfl rfl
  exact (hempty.record_after o ["mail"]).fromFanOuts.1

theorem exists_records_nodeWith (o : Occurrence) :
    ∃ x, (nodeWith o).store.records = [x] ∧ x.isPending ∧ x.handlerId = "mail" ∧
      x.payload = Payload.ofOccurrence shippingSpace.catalogue o :=
  ⟨_, rfl, rfl, rfl, rfl⟩

/-- The turned parcel has the fingerprint of the parcel and completes it. -/
theorem equal_share_fingerprint_turned :
    let cat := shippingSpace.catalogue
    cat.Reachable ∧ parcel.Fits cat ∧ turnedParcel.Fits cat ∧ parcel.equal turnedParcel = true ∧
      (Payload.ofOccurrence cat parcel).fingerprint =
        (Payload.ofOccurrence cat turnedParcel).fingerprint ∧
      ∃ q, outcome (Ledger.completeMatching turnedParcel "mail") (nodeWith parcel) =
        (.ok true, q) := by
  intro cat
  have hequal : parcel.equal turnedParcel = true := by decide +kernel
  obtain ⟨hshare, -, hfinds⟩ := (equal_share_fingerprint reachable_shippingSpace).2
    parcel turnedParcel fits_parcel fits_turnedParcel hequal
  have hsame := hshare rfl
  refine ⟨reachable_shippingSpace, fits_parcel, fits_turnedParcel, hequal, hsame, ?_⟩
  obtain ⟨x, hx, hpending, hhandler, hpayload⟩ := exists_records_nodeWith parcel
  rw [← hhandler]
  rcases h : outcome (Ledger.completeMatching turnedParcel x.handlerId) (nodeWith parcel)
    with ⟨r, q⟩
  rcases hfinds hsame _ q x r rfl (fromFanOuts_nodeWith parcel) (by simp [hx]) hpending hpayload h
    with ⟨hstruck, -⟩ | ⟨-, rfl, -⟩ | ⟨hseveral, -⟩
  · exact absurd ⟨rfl, rfl⟩ hstruck
  · exact ⟨q, rfl⟩
  · have hfew := hseveral.trans (List.length_filter_le _ _)
    simp [hx] at hfew

/-- A parcel at a price. -/
def pricedParcel (price : Decimal.Numeral) : Occurrence :=
  ⟨2, [("id", .text "7"), ("tags", .record []), ("price", .decimal price),
    ("weight", .float ⟨false, Nat.pow 2 62⟩)]⟩

/-- A parcel at 9.50 equals a parcel at 9.5, but they have two fingerprints, and completion by
the second does not find the first. -/
theorem spelling_parts_parcels :
    let cat := shippingSpace.catalogue
    let long := pricedParcel ⟨false, 950, -2⟩
    let short := pricedParcel ⟨false, 95, -1⟩
    long.Fits cat ∧ short.Fits cat ∧ long.equal short = true ∧
      (Payload.ofOccurrence cat long).fingerprint ≠
        (Payload.ofOccurrence cat short).fingerprint ∧
      ∃ x q, (nodeWith long).store.records = [x] ∧ x.isPending ∧ x.handlerId = "mail" ∧
        x.payload = Payload.ofOccurrence cat long ∧
        outcome (Ledger.completeMatching short "mail") (nodeWith long) = (.ok false, q) := by
  intro cat long short
  have htags : (FieldType.keyed (.list .any)).Admits (.record []) := ⟨List.nodup_nil, by simp⟩
  have hparted : (Payload.ofOccurrence cat long).fingerprint ≠
      (Payload.ofOccurrence cat short).fingerprint := by decide +kernel
  obtain ⟨x, hx, hpending, hhandler, hpayload⟩ := exists_records_nodeWith long
  have hnone : (nodeWith long).store.withFingerprint "mail"
      (Payload.ofOccurrence cat short).fingerprint = [] := by
    simp [Store.withFingerprint, hx, hpayload, cat, hparted]
  refine ⟨fits_of_parts htags (by decide +kernel), fits_of_parts htags (by decide +kernel),
    by decide +kernel, hparted, x, ?_⟩
  rcases h : outcome (Ledger.completeMatching short "mail") (nodeWith long) with ⟨r, q⟩
  rcases Ledger.completeMatching_outcomes (fromFanOuts_nodeWith long) h with
    ⟨hstruck, -⟩ | ⟨-, rfl, -⟩ | ⟨y, hone, -⟩ | ⟨hseveral, -⟩
  · exact absurd ⟨rfl, rfl⟩ hstruck
  · exact ⟨q, hx, hpending, hhandler, hpayload, rfl⟩
  · exact absurd (hnone.symm.trans hone) (List.cons_ne_nil y []).symm
  · exact absurd (hnone ▸ hseveral) (by simp)

end DeliveryLedger
