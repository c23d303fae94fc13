import DeliveryLedger.Proofs.Outcome
import Mathlib.Data.List.Nodup
/-!
Both record stores through one view: the records in the order of their insertion.

Each operation has one law about the view.  A store in memory keeps records as they are; a
table keeps the wall clocks of their instants (`Store.keep`).
-/

namespace DeliveryLedger

namespace Instant

/-- Universal time, given by an offset of zero. -/
def isUtc (t : Instant) : Bool := t.offset == some 0

theorem wallAsUtc_of_isUtc {t : Instant} (h : t.isUtc) : t.wallAsUtc = t := by
  rcases t with ⟨wall, offset⟩
  have hoffset : offset = some 0 := by simpa [isUtc] using h
  subst hoffset
  rfl

theorem key_utc (wall : Int) : key ⟨wall, some 0⟩ = wall := by
  simp [key]

theorem allComparable_of_isAware {ts : List Instant} (h : ∀ t ∈ ts, t.isAware) :
    allComparable ts := by
  cases ts with
  | nil => rfl
  | cons t ts =>
      apply List.all_eq_true.mpr
      intro u hu
      simp [comparable, h t (by simp), h u (by simp [hu])]

theorem offset_of_cutoff {clock : Clock} {age : Duration} {cutoff : Instant}
    (h : clock.cutoff age = .ok cutoff) : cutoff.offset = clock.now.offset := by
  unfold Clock.cutoff sub shift liftTime at h
  split at h
  · rename_i t ht
    obtain rfl := Except.ok.inj h
    dsimp only at ht
    split at ht
    · obtain rfl := Except.ok.inj ht
      rfl
    · simp at ht
  · simp at h

theorem isUtc_of_cutoff {clock : Clock} {age : Duration} {cutoff : Instant}
    (h : clock.cutoff age = .ok cutoff) (hutc : clock.now.isUtc) : cutoff.isUtc := by
  unfold isUtc
  rw [offset_of_cutoff h]
  exact hutc

end Instant

namespace PublicationRecord

/-- The record was completed, and not after the cutoff. -/
def completedUpTo (cutoff : Instant) (r : PublicationRecord) : Bool :=
  match r.completedAt with
  | some t => decide (t.key ≤ cutoff.key)
  | none => false

theorem isPending_iff {r : PublicationRecord} : r.isPending ↔ r.completedAt = none := by
  cases h : r.completedAt <;> simp [isPending, isCompleted, h]

theorem completedUpTo_of_isPending {r : PublicationRecord} (h : r.isPending)
    (cutoff : Instant) : r.completedUpTo cutoff = false := by
  simp [completedUpTo, isPending_iff.mp h]

end PublicationRecord

theorem Table.isOutdated_eq (cutoff : Instant) (row : Row) :
    Table.isOutdated cutoff row = row.toRecord.completedUpTo cutoff.wallAsUtc := by
  unfold Table.isOutdated PublicationRecord.completedUpTo
  rcases row with ⟨_, _, _, _, _, _ | wall⟩ <;>
    simp [Row.toRecord, Instant.wallAsUtc, Instant.key_utc]

namespace Store

/-- The instant as the store keeps it. -/
def keepInstant (s : Store) (t : Instant) : Instant := if s.isTable then t.wallAsUtc else t

/-- The record as the store keeps it. -/
def keep (s : Store) (r : PublicationRecord) : PublicationRecord :=
  { r with
    publishedAt := s.keepInstant r.publishedAt
    completedAt := r.completedAt.map s.keepInstant }

/-- A stored record at its completion. -/
def stamp (s : Store) (now : Instant) (r : PublicationRecord) : PublicationRecord :=
  if s.isTable then { r with completedAt := some now.wallAsUtc } else r.markCompleted now

/-- A batch inserted, where `first` and `again` are what the look-ups of a table see. -/
def insertSeeing (s : Store) (first again : Sight) (batch : List PublicationRecord) :
    Except Fault (Insertion × Store) :=
  match s with
  | .memory m => (m.insert batch).map fun x => (x.1, .memory x.2)
  | .table t => (t.insertSeeing first again batch).map fun x => (x.1, .table x.2)

def complete (s : Store) (id : RecordId) (now : Instant) : Completion × Store :=
  match s with
  | .memory m => ((m.complete id now).1, .memory (m.complete id now).2)
  | .table t => ((t.complete id now).1, .table (t.complete id now).2)

def deleteCompletedUpTo (s : Store) (cutoff : Instant) : Except Fault (Nat × Store) :=
  match s with
  | .memory m => (m.deleteCompletedUpTo cutoff).map fun x => (x.1, .memory x.2)
  | .table t => .ok ((t.deleteCompletedUpTo cutoff).1, .table (t.deleteCompletedUpTo cutoff).2)

def findIncomplete (s : Store) : Except Fault (List PublicationRecord) :=
  match s with
  | .memory m => m.findIncomplete
  | .table t => .ok t.findIncomplete

def findIncompleteUpTo (s : Store) (cutoff : Instant) : Except Fault (List PublicationRecord) :=
  match s with
  | .memory m => m.findIncompleteUpTo cutoff
  | .table t => .ok (t.findIncompleteUpTo cutoff)

def findIncompleteByFingerprint (s : Store) (fingerprint handlerId : String) :
    Except Fault (List PublicationRecord) :=
  match s with
  | .memory m => m.findIncompleteByFingerprint fingerprint handlerId
  | .table t => .ok (t.findIncompleteByFingerprint fingerprint handlerId)

variable {s s' : Store} {r : PublicationRecord} {now : Instant}

theorem keepInstant_of_isUtc {t : Instant} (h : s.isTable → t.isUtc) : s.keepInstant t = t := by
  unfold keepInstant
  split
  · exact Instant.wallAsUtc_of_isUtc (h ‹_›)
  · rfl

theorem isAware_keepInstant {t : Instant} (h : t.isAware) : (s.keepInstant t).isAware := by
  unfold keepInstant
  split
  · rfl
  · exact h

@[simp] theorem id_keep : (s.keep r).id = r.id := rfl

@[simp] theorem handlerId_keep : (s.keep r).handlerId = r.handlerId := rfl

@[simp] theorem payload_keep : (s.keep r).payload = r.payload := rfl

@[simp] theorem isPending_keep : (s.keep r).isPending = r.isPending := by
  simp [keep, PublicationRecord.isPending, PublicationRecord.isCompleted]

theorem keep_memory (m : Memory) : (Store.memory m).keep = id := by
  funext r
  rcases r with ⟨id, handlerId, payload, publishedAt, _ | completedAt⟩ <;> rfl

theorem toRecord_ofRecord (t : Table) (r : PublicationRecord) :
    (Row.ofRecord r).toRecord = (Store.table t).keep r := by
  rcases r with ⟨id, handlerId, payload, publishedAt, _ | completedAt⟩ <;> rfl

@[simp] theorem id_stamp : (s.stamp now r).id = r.id := by
  unfold stamp
  split
  · rfl
  · exact r.id_markCompleted now

theorem stamp_eq : ∃ t, s.stamp now r = { r with completedAt := some t } := by
  unfold stamp PublicationRecord.markCompleted
  split
  · exact ⟨_, rfl⟩
  · split
    · rename_i t h
      exact ⟨t, by rw [← h]⟩
    · exact ⟨now, rfl⟩

theorem stamp_of_isPending (h : r.isPending) :
    s.stamp now r = { r with completedAt := some (s.keepInstant now) } := by
  unfold stamp PublicationRecord.markCompleted keepInstant
  split
  · rfl
  · rw [PublicationRecord.isPending_iff.mp h]

/-! ### Insertion -/

theorem append_ok {t t' : Table} {rows : List Row} (h : t.append rows = .ok t') :
    t' = { t with rows := t.rows ++ rows } ∧ (rows.map (·.id)).Nodup ∧
      (∀ row ∈ rows, row.id ∉ t.rows.map (·.id)) ∧
      ∀ row ∈ rows, member? row.handlerId t.refused = none := by
  induction rows generalizing t with
  | nil =>
      obtain rfl : t = t' := by simpa [Table.append] using h
      simp
  | cons row rows ih =>
      rw [Table.append] at h
      split at h
      · simp at h
      · rename_i hrow
        obtain ⟨ht', hnodup, hfresh, haccepted⟩ := ih h
        have hnew : row.id ∉ t.rows.map (·.id) ∧ member? row.handlerId t.refused = none := by
          unfold Table.refusal? at hrow
          split at hrow
          · simp at hrow
          · exact ⟨by simpa using hrow, ‹_›⟩
        refine ⟨by simp [ht'], ?_, ?_, List.forall_mem_cons.mpr ⟨hnew.2, haccepted⟩⟩
        · rw [List.map_cons, List.nodup_cons]
          refine ⟨?_, hnodup⟩
          intro hmem
          obtain ⟨other, hother, heq⟩ := List.mem_map.mp hmem
          exact hfresh other hother (by simp [heq])
        · intro x hx
          rcases List.mem_cons.mp hx with rfl | hx
          · exact hnew.1
          · exact fun hmem => hfresh x hx (by simp [hmem])

theorem append_eq_ok {t : Table} {rows : List Row}
    (hrefused : ∀ row ∈ rows, member? row.handlerId t.refused = none)
    (hnodup : (rows.map (·.id)).Nodup) (hfresh : ∀ row ∈ rows, row.id ∉ t.rows.map (·.id)) :
    t.append rows = .ok { t with rows := t.rows ++ rows } := by
  induction rows generalizing t with
  | nil => simp [Table.append]
  | cons row rows ih =>
      rw [List.map_cons, List.nodup_cons] at hnodup
      obtain ⟨haccepted, hrefused⟩ := List.forall_mem_cons.mp hrefused
      have hnone : t.refusal? row = none := by
        have hnew := hfresh row (by simp)
        simp only [Table.refusal?, haccepted]
        rw [if_neg]
        simpa using hnew
      have hrest : ∀ x ∈ rows, x.id ∉ (t.rows ++ [row]).map (·.id) := by
        intro x hx hmem
        rw [List.map_append, List.mem_append] at hmem
        rcases hmem with hold | hnew
        · exact hfresh x (by simp [hx]) hold
        · have heq : x.id = row.id := by simpa using hnew
          exact hnodup.1 (heq ▸ List.mem_map_of_mem hx)
      have happend := ih (t := { t with rows := t.rows ++ [row] }) hrefused hnodup.2 hrest
      rw [Table.append, hnone]
      simpa using happend

/-- A batch goes into a table as a whole, under new and different identifiers, if the database
refuses none of its handlers, and else not at all. -/
theorem append_batch_iff {t t' : Table} {batch : List PublicationRecord} :
    t.append (batch.map Row.ofRecord) = .ok t' ↔
      t' = { t with rows := t.rows ++ batch.map Row.ofRecord } ∧ (batch.map (·.id)).Nodup ∧
        (∀ r ∈ batch, r.id ∉ t.rows.map (·.id)) ∧
        ∀ r ∈ batch, member? r.handlerId t.refused = none := by
  have hids : (batch.map Row.ofRecord).map (·.id) = batch.map (·.id) := by
    rw [List.map_map]
    rfl
  constructor
  · intro happend
    obtain ⟨ht', hnodup, hfresh, haccepted⟩ := append_ok happend
    exact ⟨ht', hids ▸ hnodup, fun r hr => hfresh (Row.ofRecord r) (List.mem_map_of_mem hr),
      fun r hr => haccepted (Row.ofRecord r) (List.mem_map_of_mem hr)⟩
  · rintro ⟨rfl, hnodup, hfresh, haccepted⟩
    exact append_eq_ok (List.forall_mem_map.mpr haccepted) (hids ▸ hnodup)
      (List.forall_mem_map.mpr hfresh)

theorem get?_table_eq_none_iff {t : Table} {id : RecordId} :
    t.get? id = none ↔ id ∉ t.rows.map (·.id) := by
  simp [Table.get?, List.mem_map]

theorem checkRetry_eq_ok_iff {existing batch : List PublicationRecord} :
    Table.checkRetry existing batch = .ok () ↔
      ∀ r ∈ batch, ∃ x, existing.find? (·.id = r.id) = some x ∧
        x.sameContent { r with publishedAt := r.publishedAt.assumeUtc } := by
  simp only [Table.checkRetry]
  constructor
  · intro h r hr
    split at h
    · rename_i hall
      have hmatch := List.all_eq_true.mp hall r hr
      split at hmatch
      · rename_i x hx
        exact ⟨x, hx, hmatch⟩
      · simp at hmatch
    · simp at h
  · intro h
    rw [if_pos]
    apply List.all_eq_true.mpr
    intro r hr
    obtain ⟨x, hx, hsame⟩ := h r hr
    simp only [hx, hsame]

theorem mem_of_checkRetry {existing batch : List PublicationRecord}
    (h : Table.checkRetry existing batch = .ok ()) (hr : r ∈ batch) :
    ∃ x ∈ existing, x.id = r.id := by
  obtain ⟨x, hx, -⟩ := checkRetry_eq_ok_iff.mp h r hr
  exact ⟨x, List.mem_of_find?_eq_some hx, by simpa using List.find?_some hx⟩

theorem mem_records_of_mem_stored {t : Table} {batch : List PublicationRecord}
    (h : r ∈ t.stored batch) : r ∈ t.records := by
  obtain ⟨row, hrow, rfl⟩ := List.mem_map.mp h
  exact List.mem_map.mpr ⟨row, (List.mem_filter.mp hrow).1, rfl⟩

theorem mem_records_of_look {t : Table} {batch found : List PublicationRecord} {sight : Sight}
    (h : t.look batch sight = .ok found) (hr : r ∈ found) : r ∈ t.records := by
  cases sight with
  | clear =>
      obtain rfl : t.stored batch = found := by simpa [Table.look] using h
      exact mem_records_of_mem_stored hr
  | blind =>
      obtain rfl : [] = found := by simpa [Table.look] using h
      simp at hr
  | broken message => simp [Table.look] at h

theorem afterRefusal_ok {t t' : Table} {batch : List PublicationRecord} {again : Sight}
    {message : String} {how : Insertion}
    (h : t.afterRefusal batch again message = .ok (how, t')) :
    t' = t ∧ ∀ r ∈ batch, ∃ x ∈ t.records, x.id = r.id := by
  unfold Table.afterRefusal at h
  split at h
  · simp at h
  · simp at h
  · rename_i existing _ hlook
    split at h
    · rename_i hretry
      obtain ⟨-, rfl⟩ : .storedConcurrently = how ∧ t = t' := by simpa using h
      refine ⟨rfl, fun r hr => ?_⟩
      obtain ⟨x, hx, heq⟩ := mem_of_checkRetry hretry hr
      exact ⟨x, mem_records_of_look hlook hx, heq⟩
    · simp at h

theorem table_insertSeeing_ok {t t' : Table} {batch : List PublicationRecord}
    {first again : Sight} {how : Insertion}
    (h : t.insertSeeing first again batch = .ok (how, t')) :
    (t' = t ∧ ∀ r ∈ batch, ∃ x ∈ t.records, x.id = r.id) ∨
      t.append (batch.map Row.ofRecord) = .ok t' := by
  unfold Table.insertSeeing at h
  split at h
  · rename_i hbatch
    obtain ⟨-, rfl⟩ : .stored = how ∧ t = t' := by simpa using h
    exact .inl ⟨rfl, by simp [hbatch]⟩
  · split at h
    · simp at h
    · split at h
      · rename_i happend
        obtain ⟨-, rfl⟩ : .stored = how ∧ _ = t' := by simpa using h
        exact .inr happend
      · exact .inl (afterRefusal_ok h)
    · rename_i hlook
      split at h
      · rename_i hretry
        obtain ⟨-, rfl⟩ : .alreadyStored = how ∧ t = t' := by simpa using h
        refine .inl ⟨rfl, fun r hr => ?_⟩
        obtain ⟨x, hx, heq⟩ := mem_of_checkRetry hretry hr
        exact ⟨x, mem_records_of_look hlook hx, heq⟩
      · simp at h

theorem memory_insert_ok {m m' : Memory} {batch : List PublicationRecord} {how : Insertion}
    (h : m.insert batch = .ok (how, m')) :
    (m' = m ∧ ∀ r ∈ batch, ∃ x ∈ m.records, x.id = r.id) ∨
      (m' = ⟨m.records ++ batch⟩ ∧ (batch.map (·.id)).Nodup ∧
        ∀ r ∈ batch, r.id ∉ m.records.map (·.id)) := by
  simp only [Memory.insert] at h
  split at h
  · split at h
    · rename_i hsame
      obtain ⟨-, rfl⟩ : .alreadyStored = how ∧ m = m' := by simpa using h
      refine .inl ⟨rfl, fun r hr => ?_⟩
      have hholds := List.all_eq_true.mp hsame.2 r hr
      unfold Memory.holds at hholds
      split at hholds
      · rename_i x hx
        exact ⟨x, List.mem_of_find?_eq_some hx, by simpa using List.find?_some hx⟩
      · simp at hholds
    · simp at h
  · rename_i hnone
    split at h
    · rename_i hnodup
      obtain ⟨-, rfl⟩ : .stored = how ∧ _ = m' := by simpa using h
      refine .inr ⟨rfl, hnodup, fun r hr hmem => ?_⟩
      have hmissing : r ∉ batch.filter fun r => (m.get? r.id).isSome := by
        rw [not_not.mp hnone]
        exact List.not_mem_nil
      obtain ⟨x, hx, heq⟩ := List.mem_map.mp hmem
      apply hmissing
      refine List.mem_filter.mpr ⟨hr, ?_⟩
      exact List.find?_isSome.mpr ⟨x, hx, by simpa using heq⟩
    · simp at h

theorem insertSeeing_ok {batch : List PublicationRecord} {first again : Sight}
    {how : Insertion} (h : s.insertSeeing first again batch = .ok (how, s')) :
    (s' = s ∧ ∀ r ∈ batch, ∃ x ∈ s.records, x.id = r.id) ∨
      (s'.records = s.records ++ batch.map s.keep ∧ s'.isTable = s.isTable ∧
        (batch.map (·.id)).Nodup ∧ ∀ r ∈ batch, r.id ∉ s.records.map (·.id)) := by
  cases s with
  | memory m =>
      rcases hm : m.insert batch with fault | ⟨how', m'⟩
      · simp [insertSeeing, hm, Except.map] at h
      · obtain ⟨-, rfl⟩ : how' = how ∧ .memory m' = s' := by
          simpa [insertSeeing, hm, Except.map] using h
        rcases memory_insert_ok hm with ⟨rfl, hstored⟩ | ⟨rfl, hnodup, hfresh⟩
        · exact .inl ⟨rfl, hstored⟩
        · refine .inr ⟨?_, rfl, hnodup, hfresh⟩
          simp [keep_memory, records]
  | table t =>
      rcases ht : t.insertSeeing first again batch with fault | ⟨how', t'⟩
      · simp [insertSeeing, ht, Except.map] at h
      · obtain ⟨-, rfl⟩ : how' = how ∧ .table t' = s' := by
          simpa [insertSeeing, ht, Except.map] using h
        rcases table_insertSeeing_ok ht with ⟨rfl, hstored⟩ | happend
        · exact .inl ⟨rfl, hstored⟩
        · obtain ⟨rfl, hnodup, hfresh, -⟩ := append_batch_iff.mp happend
          refine .inr ⟨?_, rfl, hnodup, ?_⟩
          · simp [records, Table.records, toRecord_ofRecord t]
          · intro r hr hmem
            apply hfresh r hr
            obtain ⟨x, hx, heq⟩ := List.mem_map.mp hmem
            obtain ⟨row, hrow, rfl⟩ := List.mem_map.mp hx
            exact List.mem_map.mpr ⟨row, hrow, heq⟩

/-! ### Completion -/

/-- A completion that does not win changes nothing; one that wins stamps the record of the
identifier, which was pending. -/
theorem complete_cases (s : Store) (id : RecordId) (now : Instant) :
    ((s.complete id now).1 ≠ .completed ∧ (s.complete id now).2 = s) ∨
      ((s.complete id now).1 = .completed ∧ (s.complete id now).2.isTable = s.isTable ∧
        (∃ r, s.get? id = some r ∧ r.isPending) ∧
        (s.complete id now).2.records =
          s.records.map fun r => if r.id = id then s.stamp now r else r) := by
  cases s with
  | memory m =>
      simp only [complete, Memory.complete, get?, records]
      split
      · exact .inl ⟨by simp, rfl⟩
      · rename_i r hr
        split
        · exact .inl ⟨by simp, rfl⟩
        · rename_i hpending
          exact .inr ⟨rfl, rfl, ⟨r, hr, by simpa [PublicationRecord.isPending] using hpending⟩,
            rfl⟩
  | table t =>
      simp only [complete, Table.complete, get?, records]
      split
      · exact .inl ⟨by simp, rfl⟩
      · rename_i row hrow
        split
        · rename_i hpending
          refine .inr ⟨rfl, rfl, ⟨row.toRecord, by simp [Table.get?, hrow], ?_⟩, ?_⟩
          · simpa [PublicationRecord.isPending, PublicationRecord.isCompleted, Row.toRecord,
              Row.isPending] using hpending
          · simp only [Table.records, List.map_map]
            apply List.map_congr_left
            intro x _
            by_cases hx : x.id = id
            · simp [hx, Row.toRecord, stamp, isTable, Instant.wallAsUtc]
            · simp [hx, Row.toRecord]
        · exact .inl ⟨by simp, rfl⟩

/-! ### Deletion -/

theorem keepIf_eq_filter {α : Type} {test : α → Except Fault Bool} {pass : α → Bool}
    {as bs : List α} (hpass : ∀ a b, test a = .ok b → b = pass a)
    (h : Memory.keepIf test as = .ok bs) : bs = as.filter pass := by
  induction as generalizing bs with
  | nil =>
      obtain rfl : [] = bs := by simpa [Memory.keepIf] using h
      rfl
  | cons a as ih =>
      rw [Memory.keepIf] at h
      obtain ⟨b, ha, h⟩ := bind_eq_ok_iff.mp h
      obtain ⟨rest, hrest, h⟩ := bind_eq_ok_iff.mp h
      have hbs : bs = if b then a :: rest else rest := by
        simpa [pure, Except.pure] using h.symm
      rw [hbs, ih hrest, hpass a b ha, List.filter_cons]

theorem eq_completedUpTo_of_isOutdated {cutoff : Instant} {b : Bool}
    (h : Memory.isOutdated cutoff r = .ok b) : b = r.completedUpTo cutoff := by
  unfold Memory.isOutdated at h
  unfold PublicationRecord.completedUpTo
  split at h
  · simp_all
  · rename_i t ht
    unfold Instant.notAfter at h
    split at h <;> simp_all

theorem deleteCompletedUpTo_ok {cutoff : Instant} {count : Nat}
    (h : s.deleteCompletedUpTo cutoff = .ok (count, s')) :
    s'.isTable = s.isTable ∧
      s'.records = s.records.filter (fun r => !r.completedUpTo (s.keepInstant cutoff)) ∧
      count = (s.records.filter (·.completedUpTo (s.keepInstant cutoff))).length := by
  cases s with
  | memory m =>
      obtain ⟨⟨outdated, kept⟩, hm, hs'⟩ := map_eq_ok_iff.mp h
      obtain ⟨out, hout, hm⟩ := bind_eq_ok_iff.mp hm
      obtain ⟨rest, hrest, hm⟩ := bind_eq_ok_iff.mp hm
      obtain ⟨rfl, rfl⟩ : out.length = outdated ∧ ⟨rest⟩ = kept := by
        simpa [pure, Except.pure] using hm
      obtain ⟨rfl, rfl⟩ := Prod.mk.inj hs'
      refine ⟨rfl, ?_, ?_⟩
      · refine keepIf_eq_filter (fun r b hb => ?_) hrest
        obtain ⟨b', hb', rfl⟩ := map_eq_ok_iff.mp hb
        rw [eq_completedUpTo_of_isOutdated hb']
        rfl
      · rw [keepIf_eq_filter (fun r b hb => eq_completedUpTo_of_isOutdated hb) hout]
        rfl
  | table t =>
      obtain ⟨rfl, rfl⟩ : (t.deleteCompletedUpTo cutoff).1 = count ∧
          .table (t.deleteCompletedUpTo cutoff).2 = s' := by
        simpa [deleteCompletedUpTo] using h
      have hrow : ∀ row : Row, Table.isOutdated cutoff row =
          row.toRecord.completedUpTo ((Store.table t).keepInstant cutoff) :=
        Table.isOutdated_eq cutoff
      refine ⟨rfl, ?_, ?_⟩
      · simp [records, Table.records, Table.deleteCompletedUpTo, List.filter_map, hrow,
          Function.comp_def]
      · simp only [records, Table.records, Table.deleteCompletedUpTo, List.filter_map,
          List.length_map, Function.comp_def, ← hrow]

/-! ### Queries -/

theorem mem_of_sortOldestFirst {α : Type} {instant : α → Instant} {items sorted : List α}
    (h : Instant.sortOldestFirst instant items = .ok sorted) : sorted.Perm items := by
  unfold Instant.sortOldestFirst at h
  split at h
  · obtain rfl : _ = sorted := by simpa using h
    exact perm_sortBy _ _
  · simp at h

theorem findIncomplete_perm {found : List PublicationRecord}
    (h : s.findIncomplete = .ok found) : found.Perm (s.records.filter (·.isPending)) := by
  cases s with
  | memory m => exact mem_of_sortOldestFirst h
  | table t =>
      obtain rfl : t.findIncomplete = found := by simpa [findIncomplete] using h
      have hrow : ∀ row : Row, row.toRecord.isPending = row.isPending := by
        intro row
        simp [PublicationRecord.isPending, PublicationRecord.isCompleted, Row.toRecord,
          Row.isPending]
      simp only [Table.findIncomplete, Table.select, records, Table.records, List.filter_map,
        Function.comp_def, hrow]
      exact (perm_sortBy _ _).map _

theorem findIncomplete_eq_ok (h : ∀ r ∈ s.records, r.publishedAt.isAware) :
    ∃ found, s.findIncomplete = .ok found := by
  cases s with
  | memory m =>
      have hcomparable : Instant.allComparable (m.pending.map (·.publishedAt)) := by
        apply Instant.allComparable_of_isAware
        intro t ht
        obtain ⟨r, hr, rfl⟩ := List.mem_map.mp ht
        exact h r (List.mem_filter.mp hr).1
      exact ⟨_, if_pos hcomparable⟩
  | table t => exact ⟨_, rfl⟩

theorem mem_of_keepIf {α : Type} {test : α → Except Fault Bool} {as bs : List α} {a : α}
    (h : Memory.keepIf test as = .ok bs) (ha : a ∈ bs) : a ∈ as := by
  induction as generalizing bs with
  | nil =>
      obtain rfl : [] = bs := by simpa [Memory.keepIf] using h
      exact ha
  | cons x xs ih =>
      rw [Memory.keepIf] at h
      obtain ⟨keep, -, h⟩ := bind_eq_ok_iff.mp h
      obtain ⟨rest, hrest, h⟩ := bind_eq_ok_iff.mp h
      have hbs : (if keep then x :: rest else rest) = bs := by simpa [pure, Except.pure] using h
      rw [← hbs] at ha
      split at ha
      · rcases List.mem_cons.mp ha with rfl | ha
        · exact List.mem_cons_self
        · exact List.mem_cons_of_mem _ (ih hrest ha)
      · exact List.mem_cons_of_mem _ (ih hrest ha)

theorem mem_of_findIncompleteUpTo {cutoff : Instant} {found : List PublicationRecord}
    (h : s.findIncompleteUpTo cutoff = .ok found) (hr : r ∈ found) : r ∈ s.records := by
  cases s with
  | memory m =>
      obtain ⟨kept, hkept, hsorted⟩ := bind_eq_ok_iff.mp h
      exact (List.mem_filter.mp (mem_of_keepIf hkept
        ((mem_of_sortOldestFirst hsorted).mem_iff.mp hr))).1
  | table t =>
      obtain rfl : t.findIncompleteUpTo cutoff = found := by
        simpa [findIncompleteUpTo] using h
      obtain ⟨row, hrow, rfl⟩ := List.mem_map.mp hr
      exact List.mem_map_of_mem (List.mem_filter.mp ((perm_sortBy _ _).mem_iff.mp hrow)).1

end Store

end DeliveryLedger
