import DeliveryLedger.Proofs.CalmCalls
import DeliveryLedger.Proofs.KeyedRows
/-!
The store in memory and the table answer alike.

Under the same calls and the same readings of the clock, two nodes without outages that began
with an empty store of either kind give the same answers and hold the same records.
`Memory.Matches` relates the two stores; `Matches.answer` is one call, and
`converse_of_matches` is a row of them.
-/

namespace DeliveryLedger

/-- The two faults are of one class. -/
def Fault.SameClass (f g : Fault) : Prop :=
  f.category? = g.category? ∧ (f.category? = none → f = g)

/-- The store in memory and the table hold the same records, and the table refuses no handler. -/
structure Memory.Matches (m : Memory) (t : Table) : Prop where
  records : m.records = t.records
  fingerprint : ∀ row ∈ t.rows, row.fingerprint = row.payload.fingerprint
  refused : t.refused = []
  nodup : (t.rows.map (·.id)).Nodup

/-- The two stores gave the same answer and match, or they failed with faults of one class. -/
inductive AnsweredAlike :
    Except Fault (StoreAnswer × Store) → Except Fault (StoreAnswer × Store) → Prop where
  | ok (a : StoreAnswer) {m : Memory} {t : Table} (h : m.Matches t) :
      AnsweredAlike (.ok (a, .memory m)) (.ok (a, .table t))
  | error {f g : Fault} (h : f.SameClass g) : AnsweredAlike (.error f) (.error g)

/-- Every instant of the batch is universal time. -/
def StoreCall.IsUtc : StoreCall → Prop
  | .insert batch => ∀ r ∈ batch, r.publishedAt.isUtc ∧ ∀ t, r.completedAt = some t → t.isUtc
  | _ => True

theorem Instant.eq_of_isUtc {t : Instant} (h : t.isUtc) : (⟨t.wall, some 0⟩ : Instant) = t :=
  Instant.wallAsUtc_of_isUtc h

theorem Instant.assumeUtc_of_isUtc {t : Instant} (h : t.isUtc) : t.assumeUtc = t := by
  rcases t with ⟨wall, _ | offset⟩
  · simp [isUtc] at h
  · rfl

theorem Row.toRecord_ofRecord_of_isUtc {r : PublicationRecord} (h : r.publishedAt.isUtc)
    (h' : ∀ t, r.completedAt = some t → t.isUtc) : (Row.ofRecord r).toRecord = r := by
  rcases r with ⟨id, handlerId, payload, publishedAt, _ | completedAt⟩
  · simp [Row.ofRecord, Row.toRecord, Instant.eq_of_isUtc h]
  · simp [Row.ofRecord, Row.toRecord, Instant.eq_of_isUtc h, Instant.eq_of_isUtc (h' _ rfl)]

theorem keepIf_eq_ok {α : Type} {test : α → Except Fault Bool} {pass : α → Bool} {as : List α}
    (h : ∀ a ∈ as, test a = .ok (pass a)) : Memory.keepIf test as = .ok (as.filter pass) := by
  induction as with
  | nil => rfl
  | cons a as ih =>
      rw [Memory.keepIf, h a (by simp), ih fun b hb => h b (by simp [hb]), List.filter_cons]
      rfl

namespace Memory.Matches

variable {m : Memory} {t : Table}

theorem oldestFirst_eq (pass : PublicationRecord → Bool) (t : Table) :
    Memory.oldestFirst (t.records.filter pass) =
      .ok (t.select fun row => pass row.toRecord) := by
  have hcomparable : Instant.allComparable ((t.records.filter pass).map (·.publishedAt)) := by
    apply Instant.allComparable_of_isAware
    intro x hx
    obtain ⟨r, hr, rfl⟩ := List.mem_map.mp hx
    obtain ⟨row, -, rfl⟩ := List.mem_map.mp (List.mem_filter.mp hr).1
    rfl
  unfold oldestFirst Instant.sortOldestFirst
  rw [if_pos hcomparable, Table.records, List.filter_map, sortBy_map]
  simp only [Row.toRecord, Instant.key_utc]
  rfl

theorem select_congr {f g : Row → Bool} (h : ∀ row ∈ t.rows, f row = g row) :
    t.select f = t.select g := by
  unfold Table.select
  rw [List.filter_congr h]

theorem get?_eq (h : m.Matches t) (id : RecordId) : m.get? id = t.get? id := by
  unfold Memory.get? Table.get?
  rw [h.records, Table.records, List.find?_map]
  rfl

/-! ### Queries -/

theorem isPending_toRecord (row : Row) : row.toRecord.isPending = row.isPending := by
  cases hrow : row.completed <;>
    simp [PublicationRecord.isPending, PublicationRecord.isCompleted, Row.toRecord,
      Row.isPending, hrow]

theorem findIncomplete_eq (h : m.Matches t) : m.findIncomplete = .ok t.findIncomplete := by
  unfold Memory.findIncomplete Memory.pending
  rw [h.records]
  refine (oldestFirst_eq _ t).trans (congrArg Except.ok (select_congr fun row _ => ?_))
  exact isPending_toRecord row

theorem notAfter_toRecord {cutoff : Instant} (hutc : cutoff.isUtc) (row : Row) :
    row.toRecord.publishedAt.notAfter cutoff = .ok (decide (row.published ≤ cutoff.wall)) := by
  rcases cutoff with ⟨wall, offset⟩
  obtain rfl : offset = some 0 := by simpa [Instant.isUtc] using hutc
  simp [Instant.notAfter, Instant.comparable, Instant.isAware, Row.toRecord, Instant.key_utc]

theorem findIncompleteUpTo_eq (h : m.Matches t) {cutoff : Instant} (hutc : cutoff.isUtc) :
    m.findIncompleteUpTo cutoff = .ok (t.findIncompleteUpTo cutoff) := by
  have hkeep : Memory.keepIf (fun r => r.publishedAt.notAfter cutoff) m.pending =
      .ok (t.records.filter fun r =>
        decide (r.publishedAt.key ≤ cutoff.wall) && r.isPending) := by
    rw [← List.filter_filter, Memory.pending, h.records]
    apply keepIf_eq_ok
    intro r hr
    obtain ⟨row, -, rfl⟩ := List.mem_map.mp (List.mem_filter.mp hr).1
    rw [notAfter_toRecord hutc, Row.toRecord, Instant.key_utc]
  unfold Memory.findIncompleteUpTo
  rw [hkeep]
  refine (oldestFirst_eq _ t).trans (congrArg Except.ok (select_congr fun row _ => ?_))
  rw [isPending_toRecord, Row.toRecord, Instant.key_utc, Bool.and_comm]

theorem findIncompleteByFingerprint_eq (h : m.Matches t) (fingerprint handlerId : String) :
    m.findIncompleteByFingerprint fingerprint handlerId =
      .ok (t.findIncompleteByFingerprint fingerprint handlerId) := by
  unfold Memory.findIncompleteByFingerprint Memory.pending
  rw [h.records, List.filter_filter]
  refine (oldestFirst_eq _ t).trans (congrArg Except.ok (select_congr fun row hrow => ?_))
  rw [isPending_toRecord, h.fingerprint row hrow]
  simp only [Row.toRecord]
  cases row.isPending <;> cases row.handlerId == handlerId <;>
    cases row.payload.fingerprint == fingerprint <;> rfl

/-! ### Completion and deletion -/

theorem complete_eq (h : m.Matches t) (id : RecordId) {now : Instant} (hutc : now.isUtc) :
    (m.complete id now).1 = (t.complete id now).1 ∧
      (m.complete id now).2.Matches (t.complete id now).2 := by
  unfold Memory.complete Table.complete
  rw [h.get?_eq, Table.get?]
  cases hfind : t.rows.find? (·.id = id) with
  | none => exact ⟨rfl, h⟩
  | some row =>
      simp only [Option.map_some]
      have hrow := List.mem_of_find?_eq_some hfind
      have hid : row.id = id := by simpa using List.find?_some hfind
      cases hpending : row.isPending with
      | false =>
          have hcompleted : row.toRecord.isCompleted = true := by
            have hrecord := isPending_toRecord row
            rw [hpending, PublicationRecord.isPending] at hrecord
            simpa using hrecord
          rw [if_pos hcompleted]
          exact ⟨rfl, h⟩
      | true =>
          have hopen : row.toRecord.isCompleted = false := by
            have hrecord := isPending_toRecord row
            rw [hpending, PublicationRecord.isPending] at hrecord
            simpa using hrecord
          rw [hopen]
          refine ⟨rfl, ?_, ?_, h.refused, ?_⟩
          · show List.map _ m.records = List.map _ (List.map _ t.rows)
            rw [h.records, Table.records, List.map_map, List.map_map]
            apply List.map_congr_left
            intro x hx
            by_cases hxid : x.id = id
            · obtain rfl : x = row := List.inj_on_of_nodup_map h.nodup hx hrow (hxid.trans hid.symm)
              have hnone : x.completed = none := by simpa [Row.isPending] using hpending
              simp [Row.toRecord, hxid, PublicationRecord.markCompleted, hnone,
                Instant.eq_of_isUtc hutc]
            · simp [Row.toRecord, hxid]
          · intro x hx
            obtain ⟨y, hy, rfl⟩ := List.mem_map.mp hx
            split <;> exact h.fingerprint y hy
          · show (List.map _ (List.map _ t.rows)).Nodup
            rw [List.map_map]
            convert h.nodup using 2
            funext x
            by_cases hxid : x.id = id <;> simp [hxid]

theorem isOutdated_toRecord {cutoff : Instant} (hutc : cutoff.isUtc) (row : Row) :
    Memory.isOutdated cutoff row.toRecord = .ok (row.toRecord.completedUpTo cutoff) := by
  rcases cutoff with ⟨wall, offset⟩
  obtain rfl : offset = some 0 := by simpa [Instant.isUtc] using hutc
  cases hrow : row.completed <;>
    simp [Memory.isOutdated, PublicationRecord.completedUpTo, Row.toRecord, hrow,
      Instant.notAfter, Instant.comparable, Instant.isAware, Instant.key_utc]

theorem deleteCompletedUpTo_eq (h : m.Matches t) {cutoff : Instant} (hutc : cutoff.isUtc) :
    ∃ m', m.deleteCompletedUpTo cutoff = .ok ((t.deleteCompletedUpTo cutoff).1, m') ∧
      m'.Matches (t.deleteCompletedUpTo cutoff).2 := by
  have htest : ∀ r ∈ t.records, Memory.isOutdated cutoff r = .ok (r.completedUpTo cutoff) := by
    intro r hr
    obtain ⟨row, -, rfl⟩ := List.mem_map.mp hr
    exact isOutdated_toRecord hutc row
  have hkeep : ∀ r ∈ t.records,
      (Memory.isOutdated cutoff r).map (!·) = .ok (!r.completedUpTo cutoff) := by
    intro r hr
    rw [htest r hr]
    rfl
  have hrow : Table.isOutdated cutoff = fun row => row.toRecord.completedUpTo cutoff := by
    funext row
    rw [Table.isOutdated_eq, Instant.wallAsUtc_of_isUtc hutc]
  refine ⟨⟨t.records.filter fun r => !r.completedUpTo cutoff⟩, ?_, ?_, ?_, h.refused, ?_⟩
  · unfold Memory.deleteCompletedUpTo
    rw [h.records, keepIf_eq_ok htest, keepIf_eq_ok hkeep]
    simp [Table.deleteCompletedUpTo, Table.records, List.filter_map, Function.comp_def, hrow,
      bind, Except.bind, pure, Except.pure]
  · simp [Table.deleteCompletedUpTo, Table.records, List.filter_map, Function.comp_def, hrow]
  · exact fun row hrow => h.fingerprint row (List.mem_filter.mp hrow).1
  · exact h.nodup.sublist ((List.filter_sublist).map _)

/-! ### Insertion -/

theorem find?_stored {t : Table} {batch : List PublicationRecord} {r : PublicationRecord}
    (hr : r ∈ batch) : (t.stored batch).find? (·.id = r.id) = t.get? r.id := by
  unfold Table.stored Table.get?
  rw [List.find?_map, List.find?_filter]
  refine congrArg _ (congrArg (List.find? · t.rows) ?_)
  funext row
  by_cases hid : row.id = r.id
  · have hany : ∃ x ∈ batch, x.id = r.id := ⟨r, hr, rfl⟩
    simpa [Row.toRecord, hid] using hany
  · simp [Row.toRecord, hid]

theorem stored_eq_nil_iff {t : Table} {batch : List PublicationRecord} :
    t.stored batch = [] ↔ ∀ r ∈ batch, t.get? r.id = none := by
  constructor
  · intro hnil r hr
    rw [← find?_stored hr, hnil]
    rfl
  · intro hnone
    apply List.eq_nil_iff_forall_not_mem.mpr
    intro x hx
    obtain ⟨row, hrow, rfl⟩ := List.mem_map.mp hx
    obtain ⟨hmem, hany⟩ := List.mem_filter.mp hrow
    obtain ⟨r, hr, hid⟩ := List.any_eq_true.mp hany
    have hid : row.id = r.id := by simpa using (of_decide_eq_true hid).symm
    have hfind := Option.map_eq_none_iff.mp (hnone r hr)
    exact List.find?_eq_none.mp hfind row hmem (by simpa using hid)

theorem ne_nil_of_stored {batch : List PublicationRecord} (hstored : t.stored batch ≠ []) :
    batch ≠ [] := by
  rintro rfl
  exact hstored (stored_eq_nil_iff.mpr (by simp))

theorem filter_stored_eq_nil_iff (h : m.Matches t) {batch : List PublicationRecord} :
    (batch.filter fun r => (m.get? r.id).isSome) = [] ↔ t.stored batch = [] := by
  rw [stored_eq_nil_iff, List.filter_eq_nil_iff]
  simp [h.get?_eq]

theorem checkRetry_eq_ok_iff (h : m.Matches t) {batch : List PublicationRecord}
    (hutc : ∀ r ∈ batch, r.publishedAt.isUtc) :
    Table.checkRetry (t.stored batch) batch = .ok () ↔ batch.all m.holds = true := by
  rw [Store.checkRetry_eq_ok_iff, List.all_eq_true]
  apply forall₂_congr
  intro r hr
  rw [find?_stored hr, Instant.assumeUtc_of_isUtc (hutc r hr), Memory.holds, h.get?_eq]
  cases t.get? r.id <;> simp

theorem category_of_checkRetry {existing batch : List PublicationRecord} {fault : Fault}
    (h : Table.checkRetry existing batch = .error fault) :
    fault.category? = some .duplicateRecord := by
  simp only [Table.checkRetry] at h
  split at h
  · simp at h
  · obtain rfl := Except.error.inj h
    rfl

theorem sameClass_of_category {f g : Fault} {category : Category}
    (hf : f.category? = some category) (hg : g.category? = some category) : f.SameClass g :=
  ⟨hf.trans hg.symm, fun hnone => by simp [hf] at hnone⟩

theorem memory_insert_of_fresh (h : m.Matches t) {batch : List PublicationRecord}
    (hfresh : t.stored batch = []) :
    m.insert batch = if (batch.map (·.id)).Nodup then .ok (.stored, ⟨m.records ++ batch⟩)
      else .error (.duplicateRecords "Publication batch contains the same id twice"
        (sortTexts ((Memory.repeated batch).map (·.text)))) := by
  unfold Memory.insert
  rw [if_neg]
  simpa using h.filter_stored_eq_nil_iff.mpr hfresh

theorem table_insert_of_fresh {batch : List PublicationRecord} (hbatch : batch ≠ [])
    (hfresh : t.stored batch = []) :
    t.insert batch = match t.append (batch.map Row.ofRecord) with
      | .ok t => .ok (.stored, t)
      | .error message =>
        .error (.duplicateRecords ("Publication batch collides with stored records: " ++ message)
          (batch.map (·.id.text))) := by
  have hlook : t.look batch .clear = .ok [] := by rw [Table.look, hfresh]
  cases happend : t.append (batch.map Row.ofRecord) <;>
    simp only [Table.insert, Table.insertSeeing, Table.afterRefusal, hbatch, if_false, hlook,
      happend]

theorem append (h : m.Matches t) {batch : List PublicationRecord}
    (hutc : (StoreCall.insert batch).IsUtc) (hnodup : (batch.map (·.id)).Nodup)
    (hfresh : t.stored batch = []) :
    ∃ t', t.append (batch.map Row.ofRecord) = .ok t' ∧
      Matches ⟨m.records ++ batch⟩ t' := by
  have hnew : ∀ r ∈ batch, r.id ∉ t.rows.map (·.id) := fun r hr =>
    Store.get?_table_eq_none_iff.mp (stored_eq_nil_iff.mp hfresh r hr)
  have happend : t.append (batch.map Row.ofRecord) = .ok _ :=
    Store.append_batch_iff.mpr ⟨rfl, hnodup, hnew, by simp [h.refused, member?]⟩
  obtain ⟨-, hrows, hapart, -⟩ := Store.append_ok happend
  refine ⟨_, happend, ?_, ?_, h.refused, ?_⟩
  · show m.records ++ batch = List.map _ (t.rows ++ _)
    rw [List.map_append, List.map_map, h.records, Table.records]
    apply congrArg _
    conv_lhs => rw [← List.map_id batch]
    exact List.map_congr_left fun r hr =>
      (Row.toRecord_ofRecord_of_isUtc (hutc r hr).1 (hutc r hr).2).symm
  · intro row hrow
    rcases List.mem_append.mp hrow with hold | hnew
    · exact h.fingerprint row hold
    · obtain ⟨r, -, rfl⟩ := List.mem_map.mp hnew
      rfl
  · show (List.map _ (t.rows ++ _)).Nodup
    rw [List.map_append, List.nodup_append]
    refine ⟨h.nodup, hrows, ?_⟩
    rintro _ hold _ hadded rfl
    obtain ⟨row, hrow, hid⟩ := List.mem_map.mp hadded
    exact hapart row hrow (hid ▸ hold)

theorem insert_of_fresh (h : m.Matches t) {batch : List PublicationRecord}
    (hutc : (StoreCall.insert batch).IsUtc) (hfresh : t.stored batch = []) :
    (∃ m' t', m.insert batch = .ok (.stored, m') ∧ t.insert batch = .ok (.stored, t') ∧
        m'.Matches t') ∨
      ∃ f g, m.insert batch = .error f ∧ t.insert batch = .error g ∧ f.SameClass g := by
  rw [h.memory_insert_of_fresh hfresh]
  by_cases hbatch : batch = []
  · subst hbatch
    exact .inl ⟨_, t, rfl, rfl, by simpa using h⟩
  rw [table_insert_of_fresh hbatch hfresh]
  by_cases hnodup : (batch.map (·.id)).Nodup
  · obtain ⟨t', happend, hmatches⟩ := h.append hutc hnodup hfresh
    rw [if_pos hnodup, happend]
    exact .inl ⟨_, _, rfl, rfl, hmatches⟩
  · rw [if_neg hnodup]
    cases happend : t.append (batch.map Row.ofRecord) with
    | ok t' =>
        exact absurd (Store.append_batch_iff.mp happend).2.1 hnodup
    | error message => exact .inr ⟨_, _, rfl, rfl, sameClass_of_category rfl rfl⟩

theorem tableInsert_of_stored {batch : List PublicationRecord}
    (hstored : t.stored batch ≠ []) :
    t.insert batch =
      (Table.checkRetry (t.stored batch) batch).map fun _ => (.alreadyStored, t) := by
  unfold Table.insert Table.insertSeeing
  rw [if_neg (ne_nil_of_stored hstored), Table.look]
  cases hlist : t.stored batch with
  | nil => exact absurd hlist hstored
  | cons r rs =>
      dsimp only
      cases Table.checkRetry (r :: rs) batch <;> rfl

theorem insert_of_stored (h : m.Matches t) {batch : List PublicationRecord}
    (hutc : (StoreCall.insert batch).IsUtc) (hstored : t.stored batch ≠ []) :
    (m.insert batch = .ok (.alreadyStored, m) ∧ t.insert batch = .ok (.alreadyStored, t)) ∨
      ∃ f g, m.insert batch = .error f ∧ t.insert batch = .error g ∧ f.SameClass g := by
  -- The table compares the batch with its rows, the memory asks whether it holds each record.
  have hretry := h.checkRetry_eq_ok_iff fun r hr => (hutc r hr).1
  unfold Memory.insert
  rw [if_pos (mt h.filter_stored_eq_nil_iff.mp hstored), tableInsert_of_stored hstored]
  cases hcheck : Table.checkRetry (t.stored batch) batch with
  | ok =>
      have hholds := hretry.mp hcheck
      have hall : (batch.filter fun r => (m.get? r.id).isSome) = batch := by
        apply List.filter_eq_self.mpr
        intro r hr
        have hr := List.all_eq_true.mp hholds r hr
        unfold Memory.holds at hr
        cases hget : m.get? r.id <;> simp_all
      rw [if_pos ⟨by rw [hall], hholds⟩]
      exact .inl ⟨rfl, rfl⟩
  | error fault =>
      have hnot : ¬ batch.all m.holds = true := by
        intro hholds
        rw [hretry.mpr hholds] at hcheck
        simp at hcheck
      rw [if_neg fun hboth => hnot hboth.2]
      exact .inr ⟨_, _, rfl, rfl, sameClass_of_category rfl (category_of_checkRetry hcheck)⟩

/-! ### Every call -/

theorem insert_alike (h : m.Matches t) {batch : List PublicationRecord}
    (hutc : (StoreCall.insert batch).IsUtc) (clock : Clock) :
    AnsweredAlike ((Store.memory m).answer clock (.insert batch))
      ((Store.table t).answer clock (.insert batch)) := by
  show AnsweredAlike (((m.insert batch).map _).map _) (((t.insert batch).map _).map _)
  by_cases hfresh : t.stored batch = []
  · rcases h.insert_of_fresh hutc hfresh with
      ⟨m', t', hm, ht, hmatches⟩ | ⟨f, g, hm, ht, hclass⟩
    · rw [hm, ht]
      exact .ok .stored hmatches
    · rw [hm, ht]
      exact .error hclass
  · rcases h.insert_of_stored hutc hfresh with ⟨hm, ht⟩ | ⟨f, g, hm, ht, hclass⟩
    · rw [hm, ht]
      exact .ok .stored h
    · rw [hm, ht]
      exact .error hclass

theorem found_alike (h : m.Matches t) {a : Except Fault (List PublicationRecord)}
    {rs : List PublicationRecord} (ha : a = .ok rs) :
    AnsweredAlike (a.map fun rs => (.found rs, .memory m))
      ((Except.ok rs).map fun rs => (.found rs, .table t)) := by
  subst ha
  exact .ok (.found rs) h

/-- Stores that match answer every call alike, and match again after it. -/
theorem answer (h : m.Matches t) (clock : Clock) (hclock : clock.now.isUtc) {c : StoreCall}
    (hc : c.IsUtc) :
    AnsweredAlike ((Store.memory m).answer clock c) ((Store.table t).answer clock c) := by
  cases c with
  | insert batch => exact h.insert_alike hc clock
  | get id =>
      show AnsweredAlike (.ok (.record? (m.get? id), .memory m)) _
      rw [h.get?_eq]
      exact .ok _ h
  | complete id =>
      obtain ⟨hhow, hmatches⟩ := h.complete_eq id hclock
      show AnsweredAlike (.ok (.won (m.complete id clock.now).1.won, .memory _)) _
      rw [hhow]
      exact .ok _ hmatches
  | findIncomplete => exact h.found_alike h.findIncomplete_eq
  | findIncompleteOlderThan age =>
      simp only [Store.answer]
      cases hcutoff : clock.cutoff age with
      | error fault => exact .error ⟨rfl, fun _ => rfl⟩
      | ok cutoff =>
          have hutc := Instant.isUtc_of_cutoff hcutoff hclock
          exact h.found_alike (h.findIncompleteUpTo_eq hutc)
  | findIncompleteByFingerprint fingerprint handlerId =>
      exact h.found_alike (h.findIncompleteByFingerprint_eq fingerprint handlerId)
  | deleteCompletedOlderThan age =>
      simp only [Store.answer]
      cases hcutoff : clock.cutoff age with
      | error fault => exact .error ⟨rfl, fun _ => rfl⟩
      | ok cutoff =>
          have hutc := Instant.isUtc_of_cutoff hcutoff hclock
          obtain ⟨m', hm, hmatches⟩ := h.deleteCompletedUpTo_eq hutc
          show AnsweredAlike (((m.deleteCompletedUpTo cutoff).map _).map _) _
          rw [hm]
          exact .ok _ hmatches

end Memory.Matches

/-- The calls made one after the other, each at a reading of the clock: their answers, and the
records that are stored after each of them. -/
def Node.converse (p : Node) :
    List (Instant × StoreCall) → List (Except Fault StoreAnswer × List PublicationRecord)
  | [] => []
  | (now, c) :: rest =>
    let (r, q) := c.act.outcome { p with clock := ⟨now⟩ }
    (r, q.store.records) :: q.converse rest

/-- The same value, or faults of one class. -/
def SameAnswer : Except Fault StoreAnswer → Except Fault StoreAnswer → Prop
  | .ok a, .ok b => a = b
  | .error f, .error g => f.SameClass g
  | _, _ => False

theorem converse_of_matches {p q : Node} {m : Memory} {t : Table}
    {calls : List (Instant × StoreCall)} (hp : p.Calm) (hq : q.Calm)
    (hmemory : p.store = .memory m) (htable : q.store = .table t) (h : m.Matches t)
    (hutc : ∀ x ∈ calls, x.1.isUtc ∧ x.2.IsUtc) :
    List.Forall₂ (fun a b => SameAnswer a.1 b.1 ∧ a.2 = b.2) (p.converse calls)
      (q.converse calls) := by
  induction calls generalizing p q m t with
  | nil => exact .nil
  | cons x calls ih =>
      obtain ⟨now, c⟩ := x
      obtain ⟨hnow, hc⟩ := hutc (now, c) (by simp)
      have hcalls : ∀ x ∈ calls, x.1.isUtc ∧ x.2.IsUtc := fun x hx => hutc x (by simp [hx])
      obtain ⟨log, hlog⟩ := c.outcome_of_calm (p := { p with clock := ⟨now⟩ }) ⟨hp.1, hp.2⟩
      obtain ⟨log', hlog'⟩ := c.outcome_of_calm (p := { q with clock := ⟨now⟩ }) ⟨hq.1, hq.2⟩
      have halike := h.answer ⟨now⟩ hnow hc
      unfold Node.converse
      rw [hlog, hlog']
      simp only [hmemory, htable]
      generalize (Store.memory m).answer ⟨now⟩ c = a at halike ⊢
      generalize (Store.table t).answer ⟨now⟩ c = b at halike ⊢
      cases halike with
      | ok answer hnext =>
          refine .cons ⟨rfl, hnext.records⟩ ?_
          exact ih ⟨hp.1, hp.2⟩ ⟨hq.1, hq.2⟩ rfl rfl hnext hcalls
      | error hclass =>
          refine .cons ⟨hclass, h.records⟩ ?_
          exact ih ⟨hp.1, hp.2⟩ ⟨hq.1, hq.2⟩ rfl rfl h hcalls

/-- From an empty store on, the two kinds of store answer every row of calls alike and hold the
same records after each call, if all instants are universal time. -/
theorem stores_interchangeable {p q : Node} (hp : p.Calm) (hq : q.Calm)
    (hmemory : p.store = .memory .empty) (htable : q.store = .table .empty)
    {calls : List (Instant × StoreCall)} (hutc : ∀ x ∈ calls, x.1.isUtc ∧ x.2.IsUtc) :
    List.Forall₂ (fun a b => SameAnswer a.1 b.1 ∧ a.2 = b.2) (p.converse calls)
      (q.converse calls) := by
  refine converse_of_matches hp hq hmemory htable ?_ hutc
  exact ⟨rfl, by simp [Table.empty], rfl, by simp [Table.empty]⟩

/-- A batch with a repeated identifier, a batch, the same batch again, its completion, and a
batch that overlaps. -/
def overlappingCalls : List (Instant × StoreCall) :=
  let r : PublicationRecord := ⟨RecordId.drawn 1, "mail", ⟨"app.Placed", "{}"⟩, Clock.epoch, none⟩
  let s : PublicationRecord := { r with id := RecordId.drawn 2 }
  [.insert [r, r], .insert [r, s], .insert [r, s], .complete r.id, .insert [r], .insert [r, r],
    .findIncomplete, .insert [{ r with handlerId := "sms" }]].map fun c => (Clock.epoch, c)

theorem stores_interchangeable_overlapping :
    let space := ModuleSpace.initial []
    let p := Node.start space ⟨Clock.epoch⟩ (.memory .empty)
    let q := Node.start space ⟨Clock.epoch⟩ (.table .empty)
    p.Calm ∧ q.Calm ∧ (∀ x ∈ overlappingCalls, x.1.isUtc ∧ x.2.IsUtc) ∧
      List.Forall₂ (fun a b => SameAnswer a.1 b.1 ∧ a.2 = b.2) (p.converse overlappingCalls)
        (q.converse overlappingCalls) := by
  intro space p q
  have hp : p.Calm := ⟨rfl, rfl⟩
  have hq : q.Calm := ⟨rfl, rfl⟩
  have hutc : ∀ x ∈ overlappingCalls, x.1.isUtc ∧ x.2.IsUtc := by
    simp [overlappingCalls, StoreCall.IsUtc, Clock.epoch, Instant.utc, Instant.isUtc]
  exact ⟨hp, hq, hutc, stores_interchangeable hp hq rfl rfl hutc⟩

end DeliveryLedger
