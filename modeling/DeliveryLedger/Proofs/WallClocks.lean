import DeliveryLedger.Proofs.Recording
/-!
What a table keeps of an instant: its wall clock, but not its offset.

A record comes back at the same moments, and is recognised when it is inserted again, exactly if
its instants are universal time; a cutoff is compared with wall clocks.
-/

namespace DeliveryLedger

namespace Instant

theorem sameMoment_wallAsUtc_iff {t : Instant} (haware : t.isAware) :
    t.wallAsUtc.sameMoment t ↔ t.isUtc := by
  rcases t with ⟨wall, _ | offset⟩
  · simp [isAware] at haware
  have hmicros : Duration.microsPerSecond ≠ 0 := by decide
  simp only [sameMoment, comparable, isAware, wallAsUtc, isUtc, key, Option.isSome_some,
    beq_self_eq_true, Bool.true_and, beq_iff_eq, Option.some.injEq]
  constructor
  · intro hkey
    have hzero : offset * Duration.microsPerSecond = 0 := by omega
    exact (Int.mul_eq_zero.mp hzero).resolve_right hmicros
  · rintro rfl
    simp

theorem wall_le_iff {a b : Instant} (h : a.offset = b.offset) :
    a.wall ≤ b.wall ↔ a.key ≤ b.key := by
  rcases a with ⟨wall, offset⟩
  rcases b with ⟨wall', offset'⟩
  obtain rfl : offset = offset' := h
  cases offset with
  | none => simp [key]
  | some seconds => simp [key]

end Instant

namespace PublicationRecord

/-- Every instant of the record is aware. -/
def IsAware (r : PublicationRecord) : Prop :=
  r.publishedAt.isAware ∧ ∀ t, r.completedAt = some t → t.isAware

/-- Every instant of the record is universal time. -/
def IsUtc (r : PublicationRecord) : Prop :=
  r.publishedAt.isUtc ∧ ∀ t, r.completedAt = some t → t.isUtc

/-- The two records are equal as values, where instants are compared by their moments. -/
def equals (a b : PublicationRecord) : Bool :=
  a.id == b.id && a.sameContent b &&
    match a.completedAt, b.completedAt with
    | none, none => true
    | some s, some t => s.sameMoment t
    | _, _ => false

theorem sameContent_keep_iff {t : Table} {r : PublicationRecord} (haware : r.publishedAt.isAware) :
    ((Store.table t).keep r).sameContent r ↔ r.publishedAt.isUtc := by
  have hmoment := Instant.sameMoment_wallAsUtc_iff haware
  simpa [sameContent, Store.keep, Store.keepInstant, Store.isTable] using hmoment

theorem equals_keep_iff {t : Table} {r : PublicationRecord} (haware : r.IsAware) :
    ((Store.table t).keep r).equals r ↔ r.IsUtc := by
  have hcontent := sameContent_keep_iff (t := t) haware.1
  unfold equals
  rw [Bool.and_eq_true, Bool.and_eq_true, hcontent]
  rcases r with ⟨id, handlerId, payload, publishedAt, _ | completedAt⟩
  · simp [IsUtc, Store.keep]
  · have hmoment := Instant.sameMoment_wallAsUtc_iff (haware.2 completedAt rfl)
    simpa [IsUtc, Store.keep, Store.keepInstant, Store.isTable] using fun _ => hmoment

end PublicationRecord

/-! ### A table with a new record -/

namespace Store

variable {t : Table} {r : PublicationRecord}

theorem id_ne_of_new (hnew : r.id ∉ (Store.table t).ids) {row : Row} (hrow : row ∈ t.rows) :
    row.id ≠ r.id := by
  intro hid
  have hmem : row.toRecord.id ∈ (Store.table t).ids := mem_ids_of_mem (List.mem_map_of_mem hrow)
  exact hnew (hid ▸ hmem)

theorem eq_ofRecord_of_id_eq (hnew : r.id ∉ (Store.table t).ids) {row : Row}
    (hrow : row ∈ t.rows ++ [Row.ofRecord r]) (hid : row.id = r.id) : row = Row.ofRecord r := by
  rcases List.mem_append.mp hrow with hold | hlast
  · exact absurd hid (id_ne_of_new hnew hold)
  · exact List.mem_singleton.mp hlast

theorem get?_adding (hnew : r.id ∉ (Store.table t).ids) :
    ((Store.table t).adding [r]).get? r.id = some ((Store.table t).keep r) := by
  have hnone : t.rows.find? (·.id = r.id) = none := by
    rw [List.find?_eq_none]
    intro row hrow
    simpa using id_ne_of_new hnew hrow
  simp only [adding, get?, Table.get?, List.find?_append, hnone, List.map_cons, List.map_nil,
    Option.none_or, ← toRecord_ofRecord t]
  simp [Row.ofRecord]

/-- Inserted again, the record is recognised exactly if it was published in universal time. -/
theorem insertSeeing_adding (haware : r.publishedAt.isAware) (hnew : r.id ∉ (Store.table t).ids) :
    (r.publishedAt.isUtc → ((Store.table t).adding [r]).insertSeeing .clear .clear [r] =
      .ok (.alreadyStored, (Store.table t).adding [r])) ∧
    (¬ r.publishedAt.isUtc → ∃ fault, fault.category? = some .duplicateRecord ∧
      ((Store.table t).adding [r]).insertSeeing .clear .clear [r] = .error fault) := by
  let after : Table := { t with rows := t.rows ++ [Row.ofRecord r] }
  have hget : after.get? r.id = some ((Store.table t).keep r) := get?_adding hnew
  have hstored : after.stored [r] ≠ [] := by
    intro hnil
    rw [Memory.Matches.stored_eq_nil_iff] at hnil
    simp [hget] at hnil
  have hassume : r.publishedAt.assumeUtc = r.publishedAt := by
    rcases hoffset : r.publishedAt with ⟨wall, _ | seconds⟩
    · simp [hoffset, Instant.isAware] at haware
    · rfl
  have hretry : Table.checkRetry (after.stored [r]) [r] = .ok () ↔ r.publishedAt.isUtc := by
    rw [checkRetry_eq_ok_iff, ← PublicationRecord.sameContent_keep_iff (t := t) haware]
    simp [Memory.Matches.find?_stored, hget, hassume]
  have hinsert := Memory.Matches.tableInsert_of_stored hstored
  unfold Table.insert at hinsert
  show (_ → (after.insertSeeing .clear .clear [r]).map _ = _) ∧
    (_ → ∃ fault, _ ∧ (after.insertSeeing .clear .clear [r]).map _ = _)
  rw [hinsert]
  constructor
  · intro hutc
    rw [hretry.mpr hutc]
    rfl
  · intro hutc
    cases hcheck : Table.checkRetry (after.stored [r]) [r] with
    | ok => exact absurd (hretry.mp hcheck) hutc
    | error fault => exact ⟨fault, Memory.Matches.category_of_checkRetry hcheck, rfl⟩

theorem exists_findIncompleteUpTo_adding (cutoff : Instant) (hnew : r.id ∉ (Store.table t).ids) :
    ∃ found, ((Store.table t).adding [r]).findIncompleteUpTo cutoff = .ok found ∧
      ((∃ x ∈ found, x.id = r.id) ↔ r.isPending ∧ r.publishedAt.wall ≤ cutoff.wall) := by
  have hpending : (Row.ofRecord r).isPending = r.isPending := by
    rw [← Memory.Matches.isPending_toRecord, toRecord_ofRecord t, isPending_keep]
  have htest : ((Row.ofRecord r).isPending &&
      decide ((Row.ofRecord r).published ≤ cutoff.wall)) = true ↔
      r.isPending ∧ r.publishedAt.wall ≤ cutoff.wall := by
    rw [hpending, Bool.and_eq_true, decide_eq_true_eq]
    rfl
  refine ⟨_, rfl, ?_⟩
  rw [← htest]
  constructor
  · rintro ⟨x, hx, hid⟩
    obtain ⟨row, hrow, rfl⟩ := List.mem_map.mp hx
    rw [(perm_sortBy _ _).mem_iff, List.mem_filter] at hrow
    obtain rfl := eq_ofRecord_of_id_eq hnew hrow.1 hid
    exact hrow.2
  · intro hselected
    refine ⟨(Row.ofRecord r).toRecord, List.mem_map_of_mem ?_, rfl⟩
    rw [(perm_sortBy _ _).mem_iff, List.mem_filter]
    exact ⟨by simp, hselected⟩

theorem exists_deleteCompletedUpTo_adding (cutoff : Instant)
    (hnew : r.id ∉ (Store.table t).ids) :
    ∃ count s, ((Store.table t).adding [r]).deleteCompletedUpTo cutoff = .ok (count, s) ∧
      (r.id ∉ s.ids ↔ ∃ c, r.completedAt = some c ∧ c.wall ≤ cutoff.wall) := by
  have houtdated : Table.isOutdated cutoff (Row.ofRecord r) ↔
      ∃ c, r.completedAt = some c ∧ c.wall ≤ cutoff.wall := by
    rcases r with ⟨id, handlerId, payload, publishedAt, _ | c⟩ <;>
      simp [Table.isOutdated, Row.ofRecord]
  refine ⟨_, _, rfl, ?_⟩
  rw [← houtdated]
  constructor
  · intro hgone
    by_contra hkept
    apply hgone
    refine List.mem_map.mpr ⟨(Row.ofRecord r).toRecord, List.mem_map_of_mem ?_, rfl⟩
    exact List.mem_filter.mpr ⟨by simp, by simpa using hkept⟩
  · intro hout hmem
    obtain ⟨x, hx, hid⟩ := List.mem_map.mp hmem
    obtain ⟨row, hrow, rfl⟩ := List.mem_map.mp hx
    obtain ⟨hrow, hkept⟩ := List.mem_filter.mp hrow
    obtain rfl := eq_ofRecord_of_id_eq hnew hrow hid
    simp [hout] at hkept

end Store

/-! ### The operations on a calm node -/

open Act

/-- A table keeps the wall clocks of instants as universal time: a record comes back as it was just
if its instants are universal time, it is accepted again just if its publication is, and the
operations by age compare wall clocks. -/
theorem table_keeps_wall_clocks {p : Node} {t : Table} {r : PublicationRecord} (hcalm : p.Calm)
    (htable : p.store = .table t) (haccepted : ¬ p.store.refuses r.handlerId)
    (hnew : r.id ∉ p.store.ids) (haware : r.IsAware) :
    ∃ q, outcome (Ledger.insert [r]) p = (.ok (), q) ∧ q.store = p.store.adding [r] ∧
      (∃ x, outcome (Ledger.get? r.id) q = (.ok (some x), q) ∧ x = p.store.keep r ∧
        (x.equals r ↔ r.IsUtc)) ∧
      (∃ a z, outcome (Ledger.insert [r]) q = (a, z) ∧ z.store = q.store ∧
        (a = .ok () ↔ r.publishedAt.isUtc) ∧
        ∀ fault, a = .error fault → fault.category? = some .duplicateRecord) ∧
      ∀ now age cutoff, Clock.cutoff ⟨now⟩ age = .ok cutoff →
        (∃ found z, outcome (Ledger.findIncompleteOlderThan age) { q with clock := ⟨now⟩ } =
            (.ok found, z) ∧
          ((∃ x ∈ found, x.id = r.id) ↔ r.isPending ∧ r.publishedAt.wall ≤ cutoff.wall)) ∧
        (∃ count z, outcome (Ledger.deleteCompletedOlderThan age) { q with clock := ⟨now⟩ } =
            (.ok count, z) ∧
          (r.id ∉ z.store.ids ↔ ∃ c, r.completedAt = some c ∧ c.wall ≤ cutoff.wall)) ∧
        ∀ c : Instant, c.offset = now.offset → (c.wall ≤ cutoff.wall ↔ c.key ≤ cutoff.key) := by
  have hinserted := Store.insertSeeing_eq_ok (s := p.store) (List.cons_ne_nil r [])
    (List.nodup_singleton r.id) (by simpa using hnew) (by simpa using haccepted)
  obtain ⟨log, hinsert⟩ := Ledger.outcome_insert_of_calm hcalm [r]
  simp only [hinserted, Except.map, Store.next] at hinsert
  let q : Node := { p with store := p.store.adding [r], log := log }
  have hq : q.Calm := ⟨hcalm.outages, hcalm.databaseOutage⟩
  have hstore : q.store = (Store.table t).adding [r] := by rw [← htable]
  refine ⟨q, hinsert, rfl, ?_, ?_, ?_⟩
  · refine ⟨p.store.keep r, ?_, rfl, ?_⟩
    · rw [Ledger.outcome_get?_of_calm hq, hstore, Store.get?_adding (htable ▸ hnew), htable]
    · rw [htable]
      exact PublicationRecord.equals_keep_iff haware
  · obtain ⟨log', hagain⟩ := Ledger.outcome_insert_of_calm hq [r]
    refine ⟨_, _, hagain, ?_⟩
    rw [hstore]
    obtain ⟨hrecognised, hrefused⟩ := Store.insertSeeing_adding haware.1 (htable ▸ hnew)
    by_cases hutc : r.publishedAt.isUtc
    · rw [hrecognised hutc]
      exact ⟨rfl, by simp [Except.map, hutc], by simp [Except.map]⟩
    · obtain ⟨fault, hcategory, hfault⟩ := hrefused hutc
      rw [hfault]
      refine ⟨rfl, by simp [Except.map, hutc], ?_⟩
      intro other hother
      obtain rfl : fault = other := by simpa [Except.map] using hother
      exact hcategory
  · intro now age cutoff hcutoff
    have hnow : Node.Calm { q with clock := ⟨now⟩ } := ⟨hcalm.outages, hcalm.databaseOutage⟩
    refine ⟨?_, ?_, fun c hoffset => ?_⟩
    · obtain ⟨found, hfound, hselected⟩ :=
        Store.exists_findIncompleteUpTo_adding cutoff (htable ▸ hnew)
      refine ⟨found, { q with clock := ⟨now⟩ }, ?_, hselected⟩
      rw [Ledger.outcome_findIncompleteOlderThan_of_calm hnow, hcutoff, hstore]
      exact Prod.ext hfound rfl
    · obtain ⟨count, s, hdelete, hgone⟩ :=
        Store.exists_deleteCompletedUpTo_adding cutoff (htable ▸ hnew)
      refine ⟨count, { q with clock := ⟨now⟩, store := s }, ?_, hgone⟩
      rw [Ledger.outcome_deleteCompletedOlderThan_of_calm hnow]
      simp only [hcutoff, hstore, bind, Except.bind, hdelete, Except.map, Store.next]
    · exact Instant.wall_le_iff (hoffset.trans (Instant.offset_of_cutoff hcutoff).symm)

/-- A record published at noon, two hours ahead of universal time. -/
def noonRecord : PublicationRecord :=
  { pendingRecord with publishedAt := { Instant.utc 2024 1 1 12 0 0 0 with offset := some 7200 } }

/-- Published at ten in universal time, the record is not found at eleven, but at twelve. -/
theorem table_keeps_wall_clocks_noon :
    let found (hour : Nat) (p q : Node) (rs : List PublicationRecord) : Prop :=
      outcome (Ledger.findIncompleteOlderThan ⟨0⟩)
        { p with clock := ⟨Instant.utc 2024 1 1 hour 0 0 0⟩ } = (.ok rs, q)
    emptyTableNode.Calm ∧ ¬ emptyTableNode.store.refuses noonRecord.handlerId ∧
      noonRecord.id ∉ emptyTableNode.store.ids ∧ noonRecord.IsAware ∧
      ∃ q, outcome (Ledger.insert [noonRecord]) emptyTableNode = (.ok (), q) ∧
        (∃ rs z, found 11 q z rs ∧ ¬ ∃ x ∈ rs, x.id = noonRecord.id) ∧
        ∃ rs z, found 12 q z rs ∧ ∃ x ∈ rs, x.id = noonRecord.id := by
  intro found
  have hcalm : emptyTableNode.Calm := ⟨rfl, rfl⟩
  have hnew : noonRecord.id ∉ emptyTableNode.store.ids := List.not_mem_nil
  have haware : noonRecord.IsAware := ⟨rfl, by simp [noonRecord, pendingRecord]⟩
  obtain ⟨q, hinsert, -, -, -, hage⟩ :=
    table_keeps_wall_clocks hcalm rfl (by decide) hnew haware
  refine ⟨hcalm, by decide, hnew, haware, q, hinsert, ?_, ?_⟩
  · obtain ⟨⟨rs, z, hfound, hselected⟩, -⟩ := hage (Instant.utc 2024 1 1 11 0 0 0) ⟨0⟩ _ rfl
    exact ⟨rs, z, hfound, mt hselected.mp (by decide)⟩
  · obtain ⟨⟨rs, z, hfound, hselected⟩, -⟩ := hage (Instant.utc 2024 1 1 12 0 0 0) ⟨0⟩ _ rfl
    exact ⟨rs, z, hfound, hselected.mpr (by decide)⟩

/-- The moment of the record is lost: it comes back as another record, it is not accepted again,
and an hour after its publication it is not yet found. -/
theorem noon_is_lost :
    ∃ q, outcome (Ledger.insert [noonRecord]) emptyTableNode = (.ok (), q) ∧
      (∃ x, outcome (Ledger.get? noonRecord.id) q = (.ok (some x), q) ∧ ¬ x.equals noonRecord) ∧
      (∃ fault z, outcome (Ledger.insert [noonRecord]) q = (.error fault, z)) ∧
      noonRecord.publishedAt.key ≤ (Instant.utc 2024 1 1 11 0 0 0).key ∧
      ∃ z, outcome (Ledger.findIncompleteOlderThan ⟨0⟩)
        { q with clock := ⟨Instant.utc 2024 1 1 11 0 0 0⟩ } = (.ok [], z) := by
  refine ⟨_, rfl, ⟨_, rfl, by decide⟩, ⟨_, _, rfl⟩, by decide, _, rfl⟩

end DeliveryLedger
