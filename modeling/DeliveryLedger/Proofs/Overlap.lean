import DeliveryLedger.Proofs.WallClocks
/-!
How an insertion decides about a batch that overlaps with the store or with itself.

A batch of new records is stored, a batch that is stored already is accepted again, and every
other batch is refused as a duplicate; only the first changes the store
(`insert_decides_overlap`).  The store in memory and the table come to this in different ways,
one by counting, the other by comparing the batch with its rows or by a refused row.
-/

namespace DeliveryLedger

theorem Instant.sameMoment_iff_of_isUtc {s t : Instant} (hs : s.isUtc) (ht : t.isUtc) :
    s.sameMoment t ↔ s = t := by
  rw [← eq_of_isUtc hs, ← eq_of_isUtc ht]
  simp [sameMoment, comparable, isAware, key]

theorem PublicationRecord.sameContent_iff_of_isUtc {x r : PublicationRecord}
    (hx : x.publishedAt.isUtc) (hr : r.publishedAt.isUtc) :
    x.sameContent r ↔
      x.handlerId = r.handlerId ∧ x.payload = r.payload ∧ x.publishedAt = r.publishedAt := by
  unfold sameContent
  rw [Bool.and_eq_true, Bool.and_eq_true, beq_iff_eq, beq_iff_eq,
    Instant.sameMoment_iff_of_isUtc hx hr, and_assoc]

namespace Store

variable {s : Store} {batch : List PublicationRecord}

/-- The identifiers of the batch are different, and none of them is stored. -/
structure IsNew (s : Store) (batch : List PublicationRecord) : Prop where
  different : (batch.map (·.id)).Nodup
  unstored : ∀ r ∈ batch, r.id ∉ s.ids

/-- Under the identifier of each record of the batch, one with the same handler, occurrence and
publication is stored, completed or not. -/
def HoldsAll (s : Store) (batch : List PublicationRecord) : Prop :=
  ∀ r ∈ batch, ∃ x, s.get? r.id = some x ∧
    x.handlerId = r.handlerId ∧ x.payload = r.payload ∧ x.publishedAt = r.publishedAt

/-- Every stored record was published in universal time. -/
def IsUtc (s : Store) : Prop := ∀ x ∈ s.records, x.publishedAt.isUtc

theorem isUtc_table (t : Table) : (Store.table t).IsUtc := by
  intro x hx
  obtain ⟨row, -, rfl⟩ := List.mem_map.mp hx
  rfl

theorem get?_eq_none_iff {id : RecordId} : s.get? id = none ↔ id ∉ s.ids := by
  constructor
  · intro hnone hmem
    obtain ⟨x, hx, rfl⟩ := List.mem_map.mp hmem
    cases s with
    | memory m => simpa using List.find?_eq_none.mp hnone x hx
    | table t =>
        obtain ⟨row, hrow, rfl⟩ := List.mem_map.mp hx
        exact get?_table_eq_none_iff.mp hnone (List.mem_map.mpr ⟨row, hrow, rfl⟩)
  · intro hnew
    cases hfound : s.get? id with
    | none => rfl
    | some x =>
        obtain ⟨hmem, rfl⟩ := mem_of_get? hfound
        exact absurd (mem_ids_of_mem hmem) hnew

theorem mem_ids_of_holdsAll (h : s.HoldsAll batch) : ∀ r ∈ batch, r.id ∈ s.ids := by
  intro r hr
  obtain ⟨x, hx, -⟩ := h r hr
  by_contra hnew
  rw [get?_eq_none_iff.mpr hnew] at hx
  cases hx

theorem holdsAll_iff (hs : s.IsUtc) (hbatch : ∀ r ∈ batch, r.publishedAt.isUtc) :
    s.HoldsAll batch ↔ ∀ r ∈ batch, ∃ x, s.get? r.id = some x ∧ x.sameContent r := by
  apply forall₂_congr
  intro r hr
  apply exists_congr
  intro x
  apply and_congr_right
  intro hx
  exact (PublicationRecord.sameContent_iff_of_isUtc (hs x (mem_of_get? hx).1) (hbatch r hr)).symm

/-! ### A batch of which some identifier is stored -/

/-- What becomes of a batch of which some identifier is stored: it is accepted exactly if it is
stored as a whole. -/
def DecidesStored (s : Store) (batch : List PublicationRecord) : Prop :=
  (s.HoldsAll batch → s.insertSeeing .clear .clear batch = .ok (.alreadyStored, s)) ∧
    (¬ s.HoldsAll batch → ∃ fault, s.insertSeeing .clear .clear batch = .error fault ∧
      fault.category? = some .duplicateRecord)

theorem memory_decidesStored {m : Memory} (hm : (Store.memory m).IsUtc)
    (hbatch : ∀ r ∈ batch, r.publishedAt.isUtc) (h : ∃ r ∈ batch, r.id ∈ (Store.memory m).ids) :
    (Store.memory m).DecidesStored batch := by
  have hexisting : (batch.filter fun r => (m.get? r.id).isSome) ≠ [] := by
    obtain ⟨r, hr, hid⟩ := h
    intro hnil
    have hnone : m.get? r.id = none := by simpa using List.filter_eq_nil_iff.mp hnil r hr
    exact absurd hid (get?_eq_none_iff.mp hnone)
  have hholds : batch.all m.holds = true ↔ (Store.memory m).HoldsAll batch := by
    rw [holdsAll_iff hm hbatch, List.all_eq_true]
    apply forall₂_congr
    intro r _
    show m.holds r = true ↔ ∃ x, m.get? r.id = some x ∧ x.sameContent r
    unfold Memory.holds
    cases m.get? r.id <;> simp
  unfold DecidesStored insertSeeing Memory.insert
  dsimp only
  rw [if_pos hexisting]
  constructor
  · intro hall
    have hself : (batch.filter fun r => (m.get? r.id).isSome) = batch := by
      apply List.filter_eq_self.mpr
      intro r hr
      obtain ⟨x, hx, -⟩ := hall r hr
      exact Option.isSome_iff_exists.mpr ⟨x, hx⟩
    rw [if_pos ⟨by rw [hself], hholds.mpr hall⟩]
    rfl
  · intro hnot
    rw [if_neg fun hboth => hnot (hholds.mp hboth.2)]
    exact ⟨_, rfl, rfl⟩

theorem table_decidesStored {t : Table} (hbatch : ∀ r ∈ batch, r.publishedAt.isUtc)
    (h : ∃ r ∈ batch, r.id ∈ (Store.table t).ids) : (Store.table t).DecidesStored batch := by
  have hstored : t.stored batch ≠ [] := by
    obtain ⟨r, hr, hid⟩ := h
    intro hnil
    exact absurd hid (get?_eq_none_iff.mp (Memory.Matches.stored_eq_nil_iff.mp hnil r hr))
  have hretry : Table.checkRetry (t.stored batch) batch = .ok () ↔
      (Store.table t).HoldsAll batch := by
    rw [holdsAll_iff (isUtc_table t) hbatch, checkRetry_eq_ok_iff]
    apply forall₂_congr
    intro r hr
    rw [Memory.Matches.find?_stored hr, Instant.assumeUtc_of_isUtc (hbatch r hr)]
    rfl
  have hinsert := Memory.Matches.tableInsert_of_stored hstored
  unfold Table.insert at hinsert
  unfold DecidesStored insertSeeing
  dsimp only
  rw [hinsert]
  constructor
  · intro hall
    rw [hretry.mpr hall]
    rfl
  · intro hnot
    cases hcheck : Table.checkRetry (t.stored batch) batch with
    | ok => exact absurd (hretry.mp hcheck) hnot
    | error fault => exact ⟨fault, rfl, Memory.Matches.category_of_checkRetry hcheck⟩

theorem decidesStored (hs : s.IsUtc) (hbatch : ∀ r ∈ batch, r.publishedAt.isUtc)
    (h : ∃ r ∈ batch, r.id ∈ s.ids) : s.DecidesStored batch := by
  cases s with
  | memory m => exact memory_decidesStored hs hbatch h
  | table t => exact table_decidesStored hbatch h

/-! ### A batch that is neither stored nor acceptable -/

/-- The batch is new, and the database refuses none of its rows. -/
structure Accepts (s : Store) (batch : List PublicationRecord) : Prop where
  new : s.IsNew batch
  unrefused : ∀ r ∈ batch, ¬ s.refuses r.handlerId

theorem insertSeeing_of_unstored (hnew : ∀ r ∈ batch, r.id ∉ s.ids) (hnot : ¬ s.Accepts batch) :
    ∃ fault, s.insertSeeing .clear .clear batch = .error fault ∧
      fault.category? = some .duplicateRecord := by
  have hbatch : batch ≠ [] := by
    rintro rfl
    exact hnot ⟨⟨List.nodup_nil, hnew⟩, List.forall_mem_nil _⟩
  cases s with
  | memory m =>
      have hfresh : (batch.filter fun r => (m.get? r.id).isSome) = [] := by
        apply List.filter_eq_nil_iff.mpr
        intro r hr
        have hnone : m.get? r.id = none := get?_eq_none_iff.mpr (hnew r hr)
        simp [hnone]
      have hrepeated : ¬ (batch.map (·.id)).Nodup := fun hnodup =>
        hnot ⟨⟨hnodup, hnew⟩, fun _ _ => Bool.false_ne_true⟩
      simp only [insertSeeing, Memory.insert, hfresh, ne_eq, not_true_eq_false, if_false,
        hrepeated]
      exact ⟨_, rfl, rfl⟩
  | table t =>
      have hfresh : t.stored batch = [] :=
        Memory.Matches.stored_eq_nil_iff.mpr fun r hr => get?_eq_none_iff.mpr (hnew r hr)
      have hinsert := Memory.Matches.table_insert_of_fresh hbatch hfresh
      unfold Table.insert at hinsert
      cases happend : t.append (batch.map Row.ofRecord) with
      | ok t' =>
          obtain ⟨-, hnodup, -, haccepted⟩ := append_batch_iff.mp happend
          exact absurd ⟨⟨hnodup, hnew⟩, fun r hr => refuses_table.mpr (haccepted r hr)⟩ hnot
      | error message =>
          rw [happend] at hinsert
          rw [insertSeeing, hinsert]
          exact ⟨_, rfl, rfl⟩

theorem insertSeeing_of_not_accepts (hs : s.IsUtc) (hbatch : ∀ r ∈ batch, r.publishedAt.isUtc)
    (hnot : ¬ s.Accepts batch) (hholds : ¬ s.HoldsAll batch) :
    ∃ fault, s.insertSeeing .clear .clear batch = .error fault ∧
      fault.category? = some .duplicateRecord := by
  by_cases hstored : ∃ r ∈ batch, r.id ∈ s.ids
  · exact (decidesStored hs hbatch hstored).2 hholds
  · exact insertSeeing_of_unstored (fun r hr hid => hstored ⟨r, hr, hid⟩) hnot

theorem insertSeeing_of_neither (hs : s.IsUtc) (hbatch : ∀ r ∈ batch, r.publishedAt.isUtc)
    (hnew : ¬ s.IsNew batch) (hholds : ¬ s.HoldsAll batch) :
    ∃ fault, s.insertSeeing .clear .clear batch = .error fault ∧
      fault.category? = some .duplicateRecord :=
  insertSeeing_of_not_accepts hs hbatch (fun haccepts => hnew haccepts.new) hholds

theorem insertSeeing_of_holdsAll (hs : s.IsUtc) (hbatch : ∀ r ∈ batch, r.publishedAt.isUtc)
    (h : s.HoldsAll batch) : ∃ how, s.insertSeeing .clear .clear batch = .ok (how, s) := by
  cases batch with
  | nil =>
      refine ⟨.stored, ?_⟩
      cases s with
      | memory m => simp [insertSeeing, Memory.insert, Except.map]
      | table t => rfl
  | cons r rest =>
      have hstored : ∃ x ∈ r :: rest, x.id ∈ s.ids :=
        ⟨r, by simp, mem_ids_of_holdsAll h r (by simp)⟩
      exact ⟨.alreadyStored, (decidesStored hs hbatch hstored).1 h⟩

theorem insertSeeing_of_isNew (hs : s.IsUtc) (h : s.IsNew batch)
    (haccepted : ∀ r ∈ batch, ¬ s.refuses r.handlerId) :
    ∃ how, s.insertSeeing .clear .clear batch = .ok (how, s.adding batch) := by
  by_cases hempty : batch = []
  · subst hempty
    rw [adding_nil]
    exact insertSeeing_of_holdsAll hs (by simp) (by simp [HoldsAll])
  · exact ⟨.stored, insertSeeing_eq_ok hempty h.different h.unstored haccepted⟩

theorem keep_of_isUtc {r : PublicationRecord} (h : r.IsUtc) : s.keep r = r := by
  cases s with
  | memory m => rw [keep_memory, id]
  | table t =>
      rw [← toRecord_ofRecord t]
      exact Row.toRecord_ofRecord_of_isUtc h.1 h.2

theorem records_adding_of_isUtc (hbatch : ∀ r ∈ batch, r.IsUtc) :
    (s.adding batch).records = s.records ++ batch := by
  rw [records_adding, List.map_congr_left fun r hr => keep_of_isUtc (hbatch r hr), List.map_id']

end Store

/-! ### The operation -/

open Act

/-- On a calm node with either store, a batch of new records in universal time is stored, one that
is stored already is accepted and changes nothing, and any other is refused as a duplicate. -/
theorem insert_decides_overlap {p : Node} {batch : List PublicationRecord} (hcalm : p.Calm)
    (hs : p.store.IsUtc) (hbatch : ∀ r ∈ batch, r.IsUtc) :
    ∃ answer q, outcome (Ledger.insert batch) p = (answer, q) ∧
      (p.store.IsNew batch → (∀ r ∈ batch, ¬ p.store.refuses r.handlerId) →
        answer = .ok () ∧ q.store = p.store.adding batch ∧
          q.store.records = p.store.records ++ batch) ∧
      (p.store.HoldsAll batch → answer = .ok () ∧ q.store = p.store) ∧
      (¬ p.store.IsNew batch → ¬ p.store.HoldsAll batch →
        q.store = p.store ∧
          ∃ fault, answer = .error fault ∧ fault.category? = some .duplicateRecord) := by
  have hpublished : ∀ r ∈ batch, r.publishedAt.isUtc := fun r hr => (hbatch r hr).1
  obtain ⟨log, hinsert⟩ := Ledger.outcome_insert_of_calm hcalm batch
  refine ⟨_, _, hinsert, ?_, ?_, ?_⟩
  · intro hnew haccepted
    obtain ⟨how, hok⟩ := Store.insertSeeing_of_isNew hs hnew haccepted
    rw [hok]
    exact ⟨rfl, rfl, Store.records_adding_of_isUtc hbatch⟩
  · intro hholds
    obtain ⟨how, hok⟩ := Store.insertSeeing_of_holdsAll hs hpublished hholds
    rw [hok]
    exact ⟨rfl, rfl⟩
  · intro hnew hholds
    obtain ⟨fault, hfault, hcategory⟩ :=
      Store.insertSeeing_of_neither hs hpublished hnew hholds
    rw [hfault]
    exact ⟨rfl, fault, rfl, hcategory⟩

/-- The record that `pendingRecord` becomes. -/
def completedRecord : PublicationRecord :=
  { pendingRecord with completedAt := some Clock.epoch }

def completedNode : Node :=
  Node.start (ModuleSpace.initial []) ⟨Clock.epoch⟩ (.table ⟨[Row.ofRecord completedRecord], []⟩)

/-- Inserted again as pending, even twice in one batch, the completed record stays as it is;
together with a new record it is refused, and the new record alone is stored. -/
theorem insert_decides_overlap_completed :
    let other := { pendingRecord with id := RecordId.drawn 2 }
    completedNode.Calm ∧ completedNode.store.IsUtc ∧ pendingRecord.IsUtc ∧ other.IsUtc ∧
      (completedNode.store.HoldsAll [pendingRecord, pendingRecord] ∧
        ∃ q, outcome (Ledger.insert [pendingRecord, pendingRecord]) completedNode = (.ok (), q) ∧
          q.store = completedNode.store) ∧
      (¬ completedNode.store.IsNew [pendingRecord, other] ∧
        ¬ completedNode.store.HoldsAll [pendingRecord, other] ∧
        ∃ fault q, outcome (Ledger.insert [pendingRecord, other]) completedNode =
            (.error fault, q) ∧
          fault.category? = some .duplicateRecord ∧ q.store = completedNode.store) ∧
      completedNode.store.IsNew [other] ∧
        ∃ q, outcome (Ledger.insert [other]) completedNode = (.ok (), q) ∧
          q.store.records = [completedRecord, other] := by
  intro other
  have hcalm : completedNode.Calm := ⟨rfl, rfl⟩
  have hstore : completedNode.store.IsUtc := Store.isUtc_table _
  have hpending : pendingRecord.IsUtc := ⟨rfl, by simp [pendingRecord]⟩
  have hother : other.IsUtc := ⟨rfl, by simp [other, pendingRecord]⟩
  have htwice : completedNode.store.HoldsAll [pendingRecord, pendingRecord] := by
    intro r hr
    obtain rfl : r = pendingRecord := by simpa using hr
    exact ⟨completedRecord, rfl, rfl, rfl, rfl⟩
  have hpartly : ¬ completedNode.store.HoldsAll [pendingRecord, other] := by
    intro hholds
    obtain ⟨x, hx, -⟩ := hholds other (by simp)
    simp [show completedNode.store.get? other.id = none from rfl] at hx
  have hold : ¬ completedNode.store.IsNew [pendingRecord, other] :=
    fun hnew => hnew.unstored pendingRecord (by simp) (by decide)
  have hnew : completedNode.store.IsNew [other] := ⟨List.nodup_singleton _, by decide⟩
  refine ⟨hcalm, hstore, hpending, hother, ⟨htwice, ?_⟩, ⟨hold, hpartly, ?_⟩, hnew, ?_⟩
  · have hutc : ∀ r ∈ [pendingRecord, pendingRecord], r.IsUtc := by simpa using hpending
    obtain ⟨answer, q, hinsert, -, hsame, -⟩ := insert_decides_overlap hcalm hstore hutc
    obtain ⟨rfl, hq⟩ := hsame htwice
    exact ⟨q, hinsert, hq⟩
  · have hutc : ∀ r ∈ [pendingRecord, other], r.IsUtc := by simpa using ⟨hpending, hother⟩
    obtain ⟨answer, q, hinsert, -, -, hrefused⟩ := insert_decides_overlap hcalm hstore hutc
    obtain ⟨hq, fault, rfl, hcategory⟩ := hrefused hold hpartly
    exact ⟨fault, q, hinsert, hcategory, hq⟩
  · have hutc : ∀ r ∈ [other], r.IsUtc := by simpa using hother
    obtain ⟨answer, q, hinsert, hadded, -, -⟩ := insert_decides_overlap hcalm hstore hutc
    obtain ⟨rfl, -, hq⟩ := hadded hnew (by decide)
    exact ⟨q, hinsert, hq⟩

end DeliveryLedger
