import DeliveryLedger.Proofs.Interchange
import DeliveryLedger.Proofs.Lifecycle
/-!
Recording a fan-out is all or nothing.

Whatever source the identifiers come from, if those that a call draws are new, the call stores
one pending record per handler as a whole, or it leaves the store as it was.
-/

namespace DeliveryLedger

namespace Ledger

open Act

/-! ### The records of a fan-out -/

/-- The next identifiers of a source that has been drawn from before. -/
def drawnIds (source : Nat → RecordId) (drawn count : Nat) : List RecordId :=
  (List.range' (drawn + 1) count).map source

theorem mem_drawnIds {source : Nat → RecordId} {drawn count : Nat} {id : RecordId} :
    id ∈ drawnIds source drawn count ↔ ∃ n, drawn < n ∧ n ≤ drawn + count ∧ id = source n := by
  unfold drawnIds
  rw [List.mem_map]
  constructor
  · rintro ⟨n, hn, rfl⟩
    rw [List.mem_range'_1] at hn
    exact ⟨n, by omega, by omega, rfl⟩
  · rintro ⟨n, hlow, hhigh, rfl⟩
    exact ⟨n, List.mem_range'_1.mpr (by omega), rfl⟩

theorem ids_newRecordsFrom (source : Nat → RecordId) (drawn : Nat) (payload : Payload)
    (now : Instant) (handlerIds : List String) :
    (newRecordsFrom source drawn payload now handlerIds).map (·.id) =
      drawnIds source drawn handlerIds.length := by
  induction handlerIds generalizing drawn with
  | nil => rfl
  | cons handlerId handlerIds ih =>
      rw [newRecordsFrom, List.map_cons, ih]
      rfl

theorem handlerIds_newRecordsFrom (source : Nat → RecordId) (drawn : Nat) (payload : Payload)
    (now : Instant) (handlerIds : List String) :
    (newRecordsFrom source drawn payload now handlerIds).map (·.handlerId) = handlerIds := by
  induction handlerIds generalizing drawn with
  | nil => rfl
  | cons handlerId handlerIds ih => rw [newRecordsFrom, List.map_cons, ih]

theorem mem_newRecordsFrom {source : Nat → RecordId} {drawn : Nat} {payload : Payload}
    {now : Instant} {handlerIds : List String} {r : PublicationRecord}
    (hr : r ∈ newRecordsFrom source drawn payload now handlerIds) :
    r.isPending ∧ r.publishedAt = now ∧ r.payload = payload ∧
      r.id ∈ drawnIds source drawn handlerIds.length := by
  have hid : r.id ∈ drawnIds source drawn handlerIds.length := by
    rw [← ids_newRecordsFrom source drawn payload now]
    exact List.mem_map_of_mem hr
  suffices hfields : r.isPending ∧ r.publishedAt = now ∧ r.payload = payload from
    ⟨hfields.1, hfields.2.1, hfields.2.2, hid⟩
  clear hid
  induction handlerIds generalizing drawn with
  | nil => simp [newRecordsFrom] at hr
  | cons handlerId handlerIds ih =>
      rcases List.mem_cons.mp hr with rfl | hr
      · exact ⟨rfl, rfl, rfl⟩
      · exact ih hr

end Ledger

/-! ### The faults of a table -/

namespace Table

variable {t : Table} {batch : List PublicationRecord} {again : Sight} {fault : Fault}

theorem category_of_afterRefusal {message : String}
    (h : t.afterRefusal batch again message = .error fault) :
    fault.category? = some .duplicateRecord ∨ fault.category? = some .storeUnavailable := by
  unfold afterRefusal at h
  split at h
  · obtain rfl := Except.error.inj h
    exact .inr rfl
  · obtain rfl := Except.error.inj h
    exact .inl rfl
  · split at h
    · simp at h
    · rename_i hretry
      obtain rfl := Except.error.inj h
      exact .inl (Memory.Matches.category_of_checkRetry hretry)

theorem category_of_insertSeeing {first : Sight}
    (h : t.insertSeeing first again batch = .error fault) :
    fault.category? = some .duplicateRecord ∨ fault.category? = some .storeUnavailable := by
  unfold insertSeeing at h
  split at h
  · simp at h
  split at h
  · obtain rfl := Except.error.inj h
    exact .inr rfl
  · split at h
    · simp at h
    · exact category_of_afterRefusal h
  · split at h
    · simp at h
    · rename_i hretry
      obtain rfl := Except.error.inj h
      exact .inl (Memory.Matches.category_of_checkRetry hretry)

end Table

/-! ### The store behind a batch -/

namespace Store

variable {s s' : Store}

/-- The store with a batch behind what it holds. -/
def adding (s : Store) (batch : List PublicationRecord) : Store :=
  match s with
  | .memory m => .memory ⟨m.records ++ batch⟩
  | .table t => .table { t with rows := t.rows ++ batch.map Row.ofRecord }

@[simp] theorem adding_nil (s : Store) : s.adding [] = s := by
  cases s <;> simp [adding]

theorem records_adding (s : Store) (batch : List PublicationRecord) :
    (s.adding batch).records = s.records ++ batch.map s.keep := by
  cases s with
  | memory m => simp [adding, records, keep_memory]
  | table t => simp [adding, records, Table.records, toRecord_ofRecord t]

theorem keep_of_isPending {r : PublicationRecord} (hpending : r.isPending)
    (hpublished : s.keepInstant r.publishedAt = r.publishedAt) : s.keep r = r := by
  rw [PublicationRecord.isPending_iff] at hpending
  rcases r with ⟨id, handlerId, payload, publishedAt, completedAt⟩
  simp_all [keep]

/-- The database refuses every row of a handler. -/
def refuses (s : Store) (handlerId : String) : Bool :=
  match s with
  | .memory _ => false
  | .table t => (member? handlerId t.refused).isSome

theorem refuses_table {t : Table} {handlerId : String} :
    ¬ (Store.table t).refuses handlerId ↔ member? handlerId t.refused = none := by
  simp [refuses]

theorem insertSeeing_of_new {batch : List PublicationRecord} {first again : Sight}
    {how : Insertion} (hbatch : batch ≠ []) (hnew : ∀ r ∈ batch, r.id ∉ s.ids)
    (h : s.insertSeeing first again batch = .ok (how, s')) :
    s' = s.adding batch ∧ ∀ r ∈ batch, ¬ s.refuses r.handlerId := by
  obtain ⟨r, rest, rfl⟩ := List.exists_cons_of_ne_nil hbatch
  have hnotStored : ¬ ∀ x ∈ r :: rest, ∃ y ∈ s.records, y.id = x.id := by
    intro hstored
    obtain ⟨y, hy, hid⟩ := hstored r (by simp)
    exact hnew r (by simp) (hid ▸ mem_ids_of_mem hy)
  cases s with
  | memory m =>
      obtain ⟨⟨_, m'⟩, hm, hs'⟩ := map_eq_ok_iff.mp h
      obtain ⟨-, rfl⟩ := Prod.mk.inj hs'
      rcases memory_insert_ok hm with ⟨-, hstored⟩ | ⟨rfl, -, -⟩
      · exact absurd hstored hnotStored
      · exact ⟨rfl, fun _ _ => by simp [refuses]⟩
  | table t =>
      obtain ⟨⟨_, t'⟩, ht, hs'⟩ := map_eq_ok_iff.mp h
      obtain ⟨-, rfl⟩ := Prod.mk.inj hs'
      rcases table_insertSeeing_ok ht with ⟨-, hstored⟩ | happend
      · exact absurd hstored hnotStored
      · obtain ⟨rfl, -, -, haccepted⟩ := append_batch_iff.mp happend
        exact ⟨rfl, fun x hx => refuses_table.mpr (haccepted x hx)⟩

theorem insertSeeing_eq_ok {batch : List PublicationRecord} (hbatch : batch ≠ [])
    (hnodup : (batch.map (·.id)).Nodup) (hnew : ∀ r ∈ batch, r.id ∉ s.ids)
    (haccepted : ∀ r ∈ batch, ¬ s.refuses r.handlerId) :
    s.insertSeeing .clear .clear batch = .ok (.stored, s.adding batch) := by
  cases s with
  | memory m =>
      have hfresh : (batch.filter fun r => (m.get? r.id).isSome) = [] := by
        rw [List.filter_eq_nil_iff]
        intro r hr hfound
        obtain ⟨x, hx⟩ := Option.isSome_iff_exists.mp hfound
        obtain ⟨hmem, hid⟩ := mem_of_get? (s := .memory m) hx
        exact hnew r hr (hid ▸ mem_ids_of_mem hmem)
      simp [insertSeeing, Memory.insert, hfresh, hnodup, Except.map, adding]
  | table t =>
      have hrows : ∀ r ∈ batch, r.id ∉ t.rows.map (·.id) := by
        intro r hr
        have hnew := hnew r hr
        simpa [ids, records, Table.records, Row.toRecord] using hnew
      have hfresh : t.stored batch = [] :=
        Memory.Matches.stored_eq_nil_iff.mpr fun r hr => get?_table_eq_none_iff.mpr (hrows r hr)
      have happend : t.append (batch.map Row.ofRecord) =
          .ok { t with rows := t.rows ++ batch.map Row.ofRecord } :=
        append_batch_iff.mpr ⟨rfl, hnodup, hrows, fun r hr => refuses_table.mp (haccepted r hr)⟩
      have hinsert := Memory.Matches.table_insert_of_fresh hbatch hfresh
      rw [happend] at hinsert
      unfold Table.insert at hinsert
      simp only [insertSeeing, hinsert, Except.map]
      rfl

theorem category_of_insertSeeing {batch : List PublicationRecord} {first again : Sight}
    {fault : Fault} (h : s.insertSeeing first again batch = .error fault) :
    fault.category? = some .duplicateRecord ∨ fault.category? = some .storeUnavailable := by
  cases s with
  | memory m =>
      left
      simp only [insertSeeing, Memory.insert] at h
      split at h
      · split at h
        · simp [Except.map] at h
        · obtain rfl := Except.error.inj h
          rfl
      · split at h
        · simp [Except.map] at h
        · obtain rfl := Except.error.inj h
          rfl
  | table t =>
      cases ht : t.insertSeeing first again batch with
      | ok answer => simp [insertSeeing, ht, Except.map] at h
      | error fault' =>
          obtain rfl : fault' = fault := by simpa [insertSeeing, ht, Except.map] using h
          exact Table.category_of_insertSeeing ht

end Store

/-! ### Recording -/

theorem mem_distinct {α : Type} [BEq α] [LawfulBEq α] {xs : List α} {x : α} :
    x ∈ distinct xs ↔ x ∈ xs := by
  have hfold : ∀ (rest seen : List α),
      x ∈ rest.foldl (fun seen x => if seen.contains x then seen else seen ++ [x]) seen ↔
        x ∈ seen ∨ x ∈ rest := by
    intro rest
    induction rest with
    | nil => simp
    | cons y rest ih =>
        intro seen
        rw [List.foldl_cons, ih]
        split
        · rename_i hy
          have hmem : y ∈ seen := by simpa using hy
          grind
        · simp [or_assoc]
  unfold distinct
  simpa using hfold xs []

namespace Ledger

open Act

variable {p q : Node} {source : Nat → RecordId} {o : Occurrence} {handlerIds : List String}
  {meanwhile : Act Unit} {r : Except Fault (List PublicationRecord)}

theorem duplicates_eq_nil_iff : duplicates handlerIds = [] ↔ handlerIds.Nodup := by
  unfold duplicates
  rw [List.filter_eq_nil_iff, List.nodup_iff_count_le_one]
  simp only [mem_distinct, decide_eq_true_eq, Nat.not_lt]
  constructor
  · intro h id
    by_cases hid : id ∈ handlerIds
    · exact h id hid
    · rw [List.count_eq_zero_of_not_mem hid]
      exact Nat.zero_le 1
  · exact fun h id _ => h id

theorem outcome_recordFrom_of_repeated (h : ¬ handlerIds.Nodup) :
    outcome (recordFrom source meanwhile o handlerIds) p =
      (.error (repeatedHandlers handlerIds), p) := by
  unfold recordFrom
  rw [if_pos (mt duplicates_eq_nil_iff.mp h)]
  rfl

theorem outcome_recordFrom_nil :
    outcome (recordFrom source meanwhile o []) p = (.ok [], p) := rfl

theorem recordFrom_inserts (hnodup : handlerIds.Nodup) (hsome : handlerIds ≠ [])
    (h : outcome (recordFrom source (pure ()) o handlerIds) p = (r, q)) :
    let records := newRecordsFrom source p.drawn (Payload.ofOccurrence p.space.catalogue o)
      p.clock.now handlerIds
    ∃ answer m, outcome (insert records) { p with drawn := p.drawn + handlerIds.length } =
        (answer, m) ∧ m.Becomes m.store q ∧ r = answer.map fun _ => records := by
  intro records
  unfold recordFrom at h
  rw [if_neg (not_not.mpr (duplicates_eq_nil_iff.mpr hnodup)), if_neg hsome,
    outcome_bind_of_ok (outcome_get p), outcome_bind_of_ok (outcome_set _ _),
    outcome_bind_of_ok (outcome_pure _ _)] at h
  rcases cases_of_outcome_bind h with ⟨fault, hinsert, rfl⟩ | ⟨⟨⟩, m, hinsert, h⟩
  · exact ⟨_, q, hinsert, .refl q, rfl⟩
  · obtain ⟨rfl, rfl⟩ := Prod.mk.inj h
    exact ⟨_, m, hinsert, m.becomes_logged _, rfl⟩

theorem recordFrom_cases (hnodup : handlerIds.Nodup) (hsome : handlerIds ≠ [])
    (hnew : ∀ id ∈ drawnIds source p.drawn handlerIds.length, id ∉ p.store.ids)
    (h : outcome (recordFrom source (pure ()) o handlerIds) p = (r, q)) :
    let records := newRecordsFrom source p.drawn (Payload.ofOccurrence p.space.catalogue o)
      p.clock.now handlerIds
    ∃ s, ({ p with drawn := p.drawn + handlerIds.length } : Node).Becomes s q ∧
      ((∃ fault, ((∃ x ∈ p.outages, x.method = .insert ∧ x.fault = fault) ∨
            ∃ first again, p.store.insertSeeing first again records = .error fault) ∧
          r = .error fault ∧ s = p.store) ∨
        r = .ok records ∧ s = p.store.adding records ∧
          ∀ id ∈ handlerIds, ¬ p.store.refuses id) := by
  intro records
  have hrecords : records ≠ [] := by
    intro hnil
    apply hsome
    rw [← handlerIds_newRecordsFrom source p.drawn (Payload.ofOccurrence p.space.catalogue o)
      p.clock.now handlerIds]
    exact congrArg _ hnil
  have hunstored : ∀ x ∈ records, x.id ∉ p.store.ids :=
    fun x hx => hnew x.id (mem_newRecordsFrom hx).2.2.2
  obtain ⟨answer, m, hinsert, hlogged, rfl⟩ := recordFrom_inserts hnodup hsome h
  have hwhole : ∀ {s}, ({ p with drawn := p.drawn + handlerIds.length } : Node).Becomes s m →
      ({ p with drawn := p.drawn + handlerIds.length } : Node).Becomes s q :=
    fun hbecomes => hbecomes.trans (hbecomes.store ▸ hlogged)
  rcases insertSeeing_outcomes hinsert with ⟨x, hx, hmethod, rfl, hbecomes⟩ |
    ⟨first, again, ⟨fault, hanswer, rfl, hbecomes⟩ | ⟨how, s, hanswer, rfl, hbecomes⟩⟩
  · exact ⟨p.store, hwhole hbecomes, .inl ⟨x.fault, .inl ⟨x, hx, hmethod, rfl⟩, rfl, rfl⟩⟩
  · exact ⟨p.store, hwhole hbecomes, .inl ⟨fault, .inr ⟨first, again, hanswer⟩, rfl, rfl⟩⟩
  · obtain ⟨hadding, haccepted⟩ := Store.insertSeeing_of_new hrecords hunstored hanswer
    refine ⟨s, hwhole hbecomes, .inr ⟨rfl, hadding, ?_⟩⟩
    intro id hid
    rw [← handlerIds_newRecordsFrom source p.drawn (Payload.ofOccurrence p.space.catalogue o)
      p.clock.now handlerIds] at hid
    obtain ⟨x, hx, rfl⟩ := List.mem_map.mp hid
    exact haccepted x hx

/-- One pending record per handler in the order given, under different identifiers, all with one
payload and published at one instant. -/
structure IsFanOut (payload : Payload) (now : Instant) (handlerIds : List String)
    (records : List PublicationRecord) : Prop where
  handlers : records.map (·.handlerId) = handlerIds
  pending : ∀ x ∈ records, x.isPending
  content : ∀ x ∈ records, x.payload = payload
  published : ∀ x ∈ records, x.publishedAt = now
  different : (records.map (·.id)).Nodup

theorem isFanOut_newRecordsFrom {drawn : Nat}
    (hdistinct : (drawnIds source drawn handlerIds.length).Nodup) (payload : Payload)
    (now : Instant) :
    IsFanOut payload now handlerIds (newRecordsFrom source drawn payload now handlerIds) where
  handlers := handlerIds_newRecordsFrom source drawn payload now handlerIds
  pending := fun _ hx => (mem_newRecordsFrom hx).1
  content := fun _ hx => (mem_newRecordsFrom hx).2.2.1
  published := fun _ hx => (mem_newRecordsFrom hx).2.1
  different := by rwa [ids_newRecordsFrom]

theorem exists_recordFrom_of_calm (hcalm : p.Calm) (hnodup : handlerIds.Nodup)
    (hdistinct : (drawnIds source p.drawn handlerIds.length).Nodup)
    (hnew : ∀ id ∈ drawnIds source p.drawn handlerIds.length, id ∉ p.store.ids)
    (haccepted : ∀ id ∈ handlerIds, ¬ p.store.refuses id) :
    ∃ records q, outcome (recordFrom source (pure ()) o handlerIds) p = (.ok records, q) := by
  by_cases hsome : handlerIds = []
  · subst hsome
    exact ⟨_, _, outcome_recordFrom_nil⟩
  let records := newRecordsFrom source p.drawn (Payload.ofOccurrence p.space.catalogue o)
    p.clock.now handlerIds
  have hfan : IsFanOut _ _ _ records := isFanOut_newRecordsFrom hdistinct _ _
  have hrecords : records ≠ [] := by
    intro hnil
    apply hsome
    rw [← hfan.handlers, hnil]
    rfl
  have hanswer := Store.insertSeeing_eq_ok hrecords hfan.different
    (fun x hx => hnew x.id (mem_newRecordsFrom hx).2.2.2)
    fun x hx => haccepted x.handlerId (hfan.handlers ▸ List.mem_map_of_mem hx)
  obtain ⟨log, hinsert⟩ := outcome_insert_of_calm
    (p := { p with drawn := p.drawn + handlerIds.length }) ⟨hcalm.outages, hcalm.databaseOutage⟩
    records
  simp only [hanswer, Except.map] at hinsert
  unfold recordFrom
  rw [if_neg (not_not.mpr (duplicates_eq_nil_iff.mpr hnodup)), if_neg hsome,
    outcome_bind_of_ok (outcome_get p), outcome_bind_of_ok (outcome_set _ _),
    outcome_bind_of_ok (outcome_pure _ _), outcome_bind_of_ok hinsert]
  exact ⟨_, _, rfl⟩

/-- A call is refused for its repeated handlers, it fails in the store, or the store has the
whole batch. -/
theorem recordFrom_outcomes
    (hnew : ∀ id ∈ drawnIds source p.drawn handlerIds.length, id ∉ p.store.ids)
    (h : outcome (recordFrom source (pure ()) o handlerIds) p = (r, q)) :
    let records := newRecordsFrom source p.drawn (Payload.ofOccurrence p.space.catalogue o)
      p.clock.now handlerIds
    (¬ handlerIds.Nodup ∧ r = .error (repeatedHandlers handlerIds) ∧ q = p) ∨
      (handlerIds.Nodup ∧ handlerIds ≠ [] ∧ q.store = p.store ∧ ∃ fault, r = .error fault ∧
        ((∃ x ∈ p.outages, x.method = .insert ∧ x.fault = fault) ∨
          fault.category? = some .duplicateRecord ∨
          fault.category? = some .storeUnavailable)) ∨
      (handlerIds.Nodup ∧ r = .ok records ∧ q.store = p.store.adding records ∧
        ∀ id ∈ handlerIds, ¬ p.store.refuses id) := by
  intro records
  by_cases hnodup : handlerIds.Nodup
  swap
  · obtain ⟨rfl, rfl⟩ := Prod.mk.inj ((outcome_recordFrom_of_repeated hnodup).symm.trans h)
    exact .inl ⟨hnodup, rfl, rfl⟩
  by_cases hsome : handlerIds = []
  · subst hsome
    obtain ⟨rfl, rfl⟩ := Prod.mk.inj (outcome_recordFrom_nil.symm.trans h)
    exact .inr (.inr ⟨hnodup, rfl, (Store.adding_nil _).symm, by simp⟩)
  obtain ⟨s, hbecomes, hanswer⟩ := recordFrom_cases hnodup hsome hnew h
  rw [hbecomes.store]
  rcases hanswer with ⟨fault, horigin, rfl, rfl⟩ | ⟨rfl, rfl, haccepted⟩
  · refine .inr (.inl ⟨hnodup, hsome, rfl, fault, rfl, ?_⟩)
    exact horigin.imp_right fun ⟨_, _, hrefused⟩ => Store.category_of_insertSeeing hrefused
  · exact .inr (.inr ⟨hnodup, rfl, rfl, haccepted⟩)

/-- Recording a fan-out from a source of new identifiers adds one pending record per handler, or
fails and leaves the store as it was.  Repeated handlers are refused before an identifier is
drawn; on a calm node only a row that the database refuses stands in the way otherwise. -/
theorem record_all_or_nothing
    (hdistinct : (drawnIds source p.drawn handlerIds.length).Nodup)
    (hnew : ∀ id ∈ drawnIds source p.drawn handlerIds.length, id ∉ p.store.ids)
    (h : outcome (recordFrom source (pure ()) o handlerIds) p = (r, q)) :
    (¬ handlerIds.Nodup → r = .error (repeatedHandlers handlerIds) ∧ q = p) ∧
      ((∀ x ∈ p.outages, x.method = .insert → x.fault.category? ≠ some .validation) →
        ((∃ fault, r = .error fault ∧ fault.category? = some .validation) ↔
          ¬ handlerIds.Nodup)) ∧
      (handlerIds = [] → r = .ok [] ∧ q = p) ∧
      ((∃ records, r = .ok records ∧
          IsFanOut (Payload.ofOccurrence p.space.catalogue o) p.clock.now handlerIds records ∧
          q.store = p.store.adding records ∧
          ((p.store.isTable → p.clock.now.isUtc) →
            q.store.records = p.store.records ++ records)) ∨
        ((∃ fault, r = .error fault) ∧ q.store = p.store)) ∧
      ((∃ id ∈ handlerIds, p.store.refuses id) →
        (∃ fault, r = .error fault) ∧
          ∀ id ∈ drawnIds source p.drawn handlerIds.length, id ∉ q.store.ids) ∧
      (p.Calm → handlerIds.Nodup → (∀ id ∈ handlerIds, ¬ p.store.refuses id) →
        ∃ records, r = .ok records) := by
  have hcases := recordFrom_outcomes hnew h
  refine ⟨?_, ?_, ?_, ?_, ?_, ?_⟩
  · intro hrepeated
    rw [outcome_recordFrom_of_repeated hrepeated] at h
    obtain ⟨rfl, rfl⟩ := Prod.mk.inj h
    exact ⟨rfl, rfl⟩
  · intro houtages
    constructor
    · rintro ⟨fault, rfl, hcategory⟩
      rcases hcases with ⟨hrepeated, -, -⟩ | ⟨-, -, -, other, heq, horigin⟩ | ⟨-, heq, -, -⟩
      · exact hrepeated
      · obtain rfl := Except.error.inj heq
        rcases horigin with ⟨x, hx, hmethod, rfl⟩ | hduplicate | hunavailable
        · exact absurd hcategory (houtages x hx hmethod)
        · simp [hduplicate] at hcategory
        · simp [hunavailable] at hcategory
      · simp at heq
    · intro hrepeated
      rw [outcome_recordFrom_of_repeated hrepeated] at h
      exact ⟨_, (Prod.mk.inj h).1.symm, rfl⟩
  · rintro rfl
    rw [outcome_recordFrom_nil] at h
    obtain ⟨rfl, rfl⟩ := Prod.mk.inj h
    exact ⟨rfl, rfl⟩
  · rcases hcases with ⟨-, rfl, rfl⟩ | ⟨-, -, hstore, fault, rfl, -⟩ | ⟨-, rfl, hstore, -⟩
    · exact .inr ⟨⟨_, rfl⟩, rfl⟩
    · exact .inr ⟨⟨fault, rfl⟩, hstore⟩
    · refine .inl ⟨_, rfl, isFanOut_newRecordsFrom hdistinct _ _, hstore, fun hutc => ?_⟩
      have hkeep : ∀ x ∈ newRecordsFrom source p.drawn (Payload.ofOccurrence p.space.catalogue o)
          p.clock.now handlerIds, p.store.keep x = x := by
        intro x hx
        obtain ⟨hpending, hpublished, -⟩ := mem_newRecordsFrom hx
        exact Store.keep_of_isPending hpending (hpublished ▸ Store.keepInstant_of_isUtc hutc)
      rw [hstore, Store.records_adding, List.map_congr_left hkeep, List.map_id']
  · rintro ⟨id, hid, hrefused⟩
    rcases hcases with ⟨-, rfl, rfl⟩ | ⟨-, -, hstore, fault, rfl, -⟩ | ⟨-, -, -, haccepted⟩
    · exact ⟨⟨_, rfl⟩, hnew⟩
    · exact ⟨⟨fault, rfl⟩, by rwa [hstore]⟩
    · exact absurd hrefused (haccepted id hid)
  · intro hcalm hnodup haccepted
    obtain ⟨records, m, hok⟩ := exists_recordFrom_of_calm (o := o) hcalm hnodup hdistinct hnew
      haccepted
    exact ⟨records, (Prod.mk.inj (h.symm.trans hok)).1⟩

/-- A node with an empty table that refuses the rows of one handler. -/
def refusingNode : Node :=
  Node.start (ModuleSpace.initial []) ⟨Clock.epoch⟩ (.table ⟨[], [("sms", "row refused")]⟩)

/-- A row refused in the middle of a batch of three takes the other two with it; without it they
are recorded. -/
theorem record_all_or_nothing_refused :
    let o : Occurrence := ⟨0, []⟩
    let new := drawnIds RecordId.drawn refusingNode.drawn
    ((new 3).Nodup ∧ (∀ id ∈ new 3, id ∉ refusingNode.store.ids) ∧
        ∃ fault q, outcome (record o ["mail", "sms", "push"]) refusingNode = (.error fault, q) ∧
          ∀ id ∈ new 3, id ∉ q.store.ids) ∧
      (new 2).Nodup ∧ (∀ id ∈ new 2, id ∉ refusingNode.store.ids) ∧
        ∃ records q, outcome (record o ["mail", "push"]) refusingNode = (.ok records, q) := by
  intro o new
  have hnew : ∀ n, ∀ id ∈ new n, id ∉ refusingNode.store.ids := fun _ _ _ => List.not_mem_nil
  have hthree : (new 3).Nodup := by decide
  have htwo : (new 2).Nodup := by decide
  refine ⟨⟨hthree, hnew 3, ?_⟩, htwo, hnew 2, ?_⟩
  · obtain ⟨r, q, h⟩ : ∃ r q, outcome (recordFrom RecordId.drawn (pure ()) o
        ["mail", "sms", "push"]) refusingNode = (r, q) := ⟨_, _, rfl⟩
    obtain ⟨-, -, -, -, hrefused, -⟩ := record_all_or_nothing hthree (hnew 3) h
    obtain ⟨⟨fault, rfl⟩, hunseen⟩ := hrefused ⟨"sms", by decide, by decide⟩
    exact ⟨fault, q, h, hunseen⟩
  · obtain ⟨r, q, h⟩ : ∃ r q, outcome (recordFrom RecordId.drawn (pure ()) o
        ["mail", "push"]) refusingNode = (r, q) := ⟨_, _, rfl⟩
    obtain ⟨-, -, -, -, -, hcalm⟩ := record_all_or_nothing htwo (hnew 2) h
    obtain ⟨records, rfl⟩ := hcalm ⟨rfl, rfl⟩ (by decide) (by decide)
    exact ⟨records, q, h⟩

end Ledger

end DeliveryLedger
