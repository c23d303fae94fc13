import DeliveryLedger.Proofs.WallClocks
/-!
Writers that insert into one table at the same time.

A writer looks for the identifiers of its batch, inserts the rows in one go if it saw none of
them, and looks again if the rows were refused; between these steps others may write.
`Writer.step` is one of the steps and `Race.step` one step of some writer.  What happens between
the first look and the insertion makes no difference to the answer (`raced_of_unseen`,
`insertSeeing_blind`), and writers of one batch store it once, whatever the order of their steps
(`Race.Fits`).
-/

namespace DeliveryLedger

/-! ### An insertion that saw nothing -/

namespace Table

variable {t : Table} {batch : List PublicationRecord}

theorem exists_append_error_of_stored (hstored : t.stored batch ≠ []) :
    ∃ message, t.append (batch.map Row.ofRecord) = .error message := by
  cases happend : t.append (batch.map Row.ofRecord) with
  | error message => exact ⟨message, rfl⟩
  | ok t' =>
      obtain ⟨-, -, hfresh, -⟩ := Store.append_batch_iff.mp happend
      have hnil : t.stored batch = [] := Memory.Matches.stored_eq_nil_iff.mpr fun r hr =>
        Store.get?_table_eq_none_iff.mpr (hfresh r hr)
      exact absurd hnil hstored

theorem exists_append_ok_iff (hrefused : t.refused = []) :
    (∃ t', t.append (batch.map Row.ofRecord) = .ok t') ↔
      (batch.map (·.id)).Nodup ∧ ∀ r ∈ batch, r.id ∉ t.rows.map (·.id) := by
  constructor
  · rintro ⟨t', happend⟩
    obtain ⟨-, hnodup, hfresh, -⟩ := Store.append_batch_iff.mp happend
    exact ⟨hnodup, hfresh⟩
  · rintro ⟨hnodup, hfresh⟩
    exact ⟨_, Store.append_batch_iff.mpr ⟨rfl, hnodup, hfresh, by simp [hrefused, member?]⟩⟩

theorem insertSeeing_blind_of_unseen (h : t.stored batch = []) :
    t.insertSeeing .blind .clear batch = t.insert batch := by
  unfold insert insertSeeing
  rw [look, look, h]

theorem afterRefusal_of_stored (hstored : t.stored batch ≠ []) (message : String) :
    t.afterRefusal batch .clear message =
      (checkRetry (t.stored batch) batch).map fun _ => (.storedConcurrently, t) := by
  simp only [afterRefusal, look]
  cases hlist : t.stored batch with
  | nil => exact absurd hlist hstored
  | cons r rs => cases checkRetry (r :: rs) batch <;> rfl

theorem insertSeeing_blind_of_stored (hstored : t.stored batch ≠ []) :
    t.insertSeeing .blind .clear batch =
      (checkRetry (t.stored batch) batch).map fun _ => (.storedConcurrently, t) := by
  have hbatch := Memory.Matches.ne_nil_of_stored hstored
  obtain ⟨message, happend⟩ := exists_append_error_of_stored hstored
  rw [← afterRefusal_of_stored hstored message, insertSeeing, if_neg hbatch, look]
  simp only [happend]

theorem insertSeeing_blind (t : Table) (batch : List PublicationRecord) :
    (t.insertSeeing .blind .clear batch).map (·.2) = (t.insert batch).map (·.2) := by
  by_cases hstored : t.stored batch = []
  · rw [insertSeeing_blind_of_unseen hstored]
  · rw [insertSeeing_blind_of_stored hstored, Memory.Matches.tableInsert_of_stored hstored]
    cases checkRetry (t.stored batch) batch <;> rfl

end Table

/-! ### The steps of a writer -/

/-- How far a writer has come. -/
inductive Writer where
  | starting
  /-- It saw no identifier of its batch. -/
  | unseen
  /-- Its rows were refused, with the message of the database. -/
  | refused (message : String)
  | done (answer : Except Fault Insertion)

namespace Writer

variable {batch : List PublicationRecord} {t t₁ t₂ : Table}

/-- A writer that has its answer, and the table after it. -/
def finish (t : Table) : Except Fault (Insertion × Table) → Writer × Table
  | .ok (how, t') => (.done (.ok how), t')
  | .error fault => (.done (.error fault), t)

/-- The next step of a writer, on the table as the others left it. -/
def step (batch : List PublicationRecord) (t : Table) : Writer → Writer × Table
  | .starting =>
    if batch = [] then (.done (.ok .stored), t)
    else
      match t.stored batch with
      | [] => (.unseen, t)
      | existing => finish t ((Table.checkRetry existing batch).map fun _ => (.alreadyStored, t))
  | .unseen =>
    match t.append (batch.map Row.ofRecord) with
    | .ok t' => (.done (.ok .stored), t')
    | .error message => (.refused message, t)
  | .refused message => finish t (t.afterRefusal batch .clear message)
  | .done answer => (.done answer, t)

/-- Whether the writer succeeded, once it is done. -/
def verdict : Writer → Option (Except Fault Unit)
  | .done answer => some (answer.map fun _ => ())
  | _ => none

/-- A writer that looks at one table and finds another when it inserts its rows. -/
def raced (batch : List PublicationRecord) (t₁ t₂ : Table) : Writer × Table :=
  let second := (step batch t₁ .starting).1.step batch t₂
  second.1.step batch second.2

theorem step_finish (t t' : Table) (answer : Except Fault (Insertion × Table)) :
    (finish t answer).1.step batch t' = ((finish t answer).1, t') := by
  cases answer <;> rfl

theorem step_starting_of_stored (hstored : t.stored batch ≠ []) :
    step batch t .starting = finish t (t.insert batch) := by
  rw [Memory.Matches.tableInsert_of_stored hstored, step,
    if_neg (Memory.Matches.ne_nil_of_stored hstored)]
  split
  · rename_i hnil
    exact absurd hnil hstored
  · rfl

theorem step_starting_of_unseen (hbatch : batch ≠ []) (h : t.stored batch = []) :
    step batch t .starting = (.unseen, t) := by
  rw [step, if_neg hbatch, h]

theorem steps_unseen (hbatch : batch ≠ []) :
    (step batch t .unseen).1.step batch (step batch t .unseen).2 =
      finish t (t.insertSeeing .blind .clear batch) := by
  rw [Table.insertSeeing, if_neg hbatch, Table.look, step]
  cases t.append (batch.map Row.ofRecord) <;> rfl

theorem raced_of_unseen (h : t₁.stored batch = []) :
    raced batch t₁ t₂ = finish t₂ (t₂.insertSeeing .blind .clear batch) := by
  by_cases hbatch : batch = []
  · subst hbatch
    rfl
  · unfold raced
    rw [step_starting_of_unseen hbatch h]
    exact steps_unseen hbatch

theorem table_of_look : (step batch t .starting).2 = t := by
  rw [step]
  split
  · rfl
  split
  · rfl
  · cases Table.checkRetry (t.stored batch) batch <;> rfl

theorem raced_self : raced batch t t = finish t (t.insert batch) := by
  by_cases hstored : t.stored batch = []
  · rw [raced_of_unseen hstored, Table.insertSeeing_blind_of_unseen hstored]
  · -- The first look decides; the two steps after it change nothing any more.
    have hlook := step_starting_of_stored hstored
    have htable : (finish t (t.insert batch)).2 = t := hlook ▸ table_of_look
    unfold raced
    rw [hlook, step_finish, step_finish]
    exact Prod.ext rfl htable.symm

theorem finish_congr {a b : Except Fault (Insertion × Table)} (h : a.map (·.2) = b.map (·.2)) :
    (finish t a).1.verdict = (finish t b).1.verdict ∧ (finish t a).2 = (finish t b).2 := by
  rcases a with fault | ⟨how, t'⟩ <;> rcases b with fault' | ⟨how', t''⟩ <;> cases h
  · exact ⟨rfl, rfl⟩
  · exact ⟨rfl, rfl⟩

/-- What others write between the first look and the insertion makes no difference. -/
theorem raced_eq_alone (h : t₁.stored batch = []) :
    (raced batch t₁ t₂).1.verdict = (raced batch t₂ t₂).1.verdict ∧
      (raced batch t₁ t₂).2 = (raced batch t₂ t₂).2 := by
  rw [raced_of_unseen h, raced_self]
  exact finish_congr (Table.insertSeeing_blind t₂ batch)

end Writer

/-! ### A batch among its own rows -/

theorem Instant.isAware_assumeUtc (t : Instant) : t.assumeUtc.isAware := by
  rcases t with ⟨wall, _ | offset⟩ <;> rfl

/-- Published in universal time, or without an offset, which is taken for universal time. -/
def PublicationRecord.IsRecognised (r : PublicationRecord) : Prop := r.publishedAt.assumeUtc.isUtc

instance (r : PublicationRecord) : Decidable r.IsRecognised :=
  inferInstanceAs (Decidable (r.publishedAt.assumeUtc.isUtc = true))

theorem PublicationRecord.sameContent_toRecord_iff {r : PublicationRecord} :
    (Row.ofRecord r).toRecord.sameContent { r with publishedAt := r.publishedAt.assumeUtc } ↔
      r.IsRecognised := by
  have hwall : (⟨r.publishedAt.wall, some 0⟩ : Instant) = r.publishedAt.assumeUtc.wallAsUtc := by
    rcases r.publishedAt with ⟨wall, _ | offset⟩ <;> rfl
  rw [IsRecognised, ← Instant.sameMoment_wallAsUtc_iff (Instant.isAware_assumeUtc _)]
  simp [sameContent, Row.ofRecord, Row.toRecord, hwall]

theorem find?_of_mem {batch : List PublicationRecord} (hnodup : (batch.map (·.id)).Nodup)
    {r : PublicationRecord} (hr : r ∈ batch) : batch.find? (·.id = r.id) = some r := by
  cases hfind : batch.find? (·.id = r.id) with
  | none => exact (List.find?_eq_none.mp hfind r hr (by simp)).elim
  | some x =>
      have hid : x.id = r.id := by simpa using List.find?_some hfind
      rw [List.inj_on_of_nodup_map hnodup (List.mem_of_find?_eq_some hfind) hr hid]

namespace Table

variable {t : Table} {batch : List PublicationRecord}

def adding (t : Table) (batch : List PublicationRecord) : Table :=
  { t with rows := t.rows ++ batch.map Row.ofRecord }

/-- The identifiers of the batch are different and none of them is stored, and the database
refuses none of its handlers. -/
structure Takes (t : Table) (batch : List PublicationRecord) : Prop where
  different : (batch.map (·.id)).Nodup
  unstored : ∀ r ∈ batch, r.id ∉ t.rows.map (·.id)
  accepted : ∀ r ∈ batch, member? r.handlerId t.refused = none

theorem adding_nil (t : Table) : t.adding [] = t := by
  simp [adding]

theorem Takes.stored_eq_nil (h : t.Takes batch) : t.stored batch = [] :=
  Memory.Matches.stored_eq_nil_iff.mpr fun r hr =>
    Store.get?_table_eq_none_iff.mpr (h.unstored r hr)

theorem Takes.append (h : t.Takes batch) :
    t.append (batch.map Row.ofRecord) = .ok (t.adding batch) :=
  Store.append_batch_iff.mpr ⟨rfl, h.different, h.unstored, h.accepted⟩

theorem Takes.get?_adding (h : t.Takes batch) {r : PublicationRecord} (hr : r ∈ batch) :
    (t.adding batch).get? r.id = some (Row.ofRecord r).toRecord := by
  have hnone := Option.map_eq_none_iff.mp (Store.get?_table_eq_none_iff.mpr (h.unstored r hr))
  have hfind : (batch.map Row.ofRecord).find? (·.id = r.id) = some (Row.ofRecord r) := by
    rw [List.find?_map]
    exact congrArg (Option.map Row.ofRecord) (find?_of_mem h.different hr)
  rw [get?, adding, List.find?_append, hnone, Option.none_or, hfind]
  rfl

theorem Takes.stored_adding_ne_nil (h : t.Takes batch) (hbatch : batch ≠ []) :
    (t.adding batch).stored batch ≠ [] := by
  obtain ⟨r, hr⟩ := List.exists_mem_of_ne_nil batch hbatch
  intro hnil
  have hnone := Memory.Matches.stored_eq_nil_iff.mp hnil r hr
  rw [h.get?_adding hr] at hnone
  cases hnone

theorem Takes.checkRetry_adding_iff (h : t.Takes batch) :
    checkRetry ((t.adding batch).stored batch) batch = .ok () ↔
      ∀ r ∈ batch, r.IsRecognised := by
  rw [Store.checkRetry_eq_ok_iff]
  apply forall₂_congr
  intro r hr
  rw [Memory.Matches.find?_stored hr, h.get?_adding hr,
    ← PublicationRecord.sameContent_toRecord_iff]
  simp

end Table

/-! ### Many writers of one batch -/

namespace Writer

variable {batch : List PublicationRecord} {t now : Table} {w : Writer}

/-- The answer is a success if the table can tell the moments of the batch; else only the writer
that stored it succeeds, and the others report a duplicate. -/
structure Justified (batch : List PublicationRecord) (answer : Except Fault Insertion) : Prop where
  recognised : (∀ r ∈ batch, r.IsRecognised) → ∃ how, answer = .ok how
  refused : (¬ ∀ r ∈ batch, r.IsRecognised) → answer = .ok .stored ∨
    ∃ fault, answer = .error fault ∧ fault.category? = some .duplicateRecord

theorem justified_stored : Justified batch (.ok .stored) :=
  ⟨fun _ => ⟨.stored, rfl⟩, fun _ => .inl rfl⟩

theorem justified_checkRetry (h : t.Takes batch) (how : Insertion) :
    Justified batch
      ((Table.checkRetry ((t.adding batch).stored batch) batch).map fun _ => how) := by
  cases hcheck : Table.checkRetry ((t.adding batch).stored batch) batch with
  | ok =>
      have hall := h.checkRetry_adding_iff.mp hcheck
      exact ⟨fun _ => ⟨how, rfl⟩, fun hnot => absurd hall hnot⟩
  | error fault =>
      have hcategory := Memory.Matches.category_of_checkRetry hcheck
      refine ⟨fun hall => ?_, fun _ => .inr ⟨fault, rfl, hcategory⟩⟩
      rw [h.checkRetry_adding_iff.mpr hall] at hcheck
      cases hcheck

/-- What a writer may be while the table is the first one or the first one with the batch:
once its rows were refused or it has its answer, the batch is in the table. -/
def Fits (batch : List PublicationRecord) (t now : Table) : Writer → Prop
  | .starting => True
  | .unseen => True
  | .refused _ => batch ≠ [] ∧ now = t.adding batch
  | .done answer => now = t.adding batch ∧ Justified batch answer

/-- What one step does: it sees nothing, it stores the batch, it is refused because the batch
is there, or it comes to an answer about the batch that is there. -/
inductive Stepped (batch : List PublicationRecord) (t now : Table) (w : Writer) :
    Writer × Table → Prop
  | sawNothing : Stepped batch t now w (.unseen, now)
  | stored (hnow : now = t) : Stepped batch t now w (.done (.ok .stored), t.adding batch)
  | wasRefused (message : String) (hbatch : batch ≠ []) (hnow : now = t.adding batch) :
      Stepped batch t now w (.refused message, now)
  | answered (answer : Except Fault Insertion) (hnow : now = t.adding batch)
      (hanswer : Justified batch answer)
      (hnew : answer = .ok .stored → w = .done answer) :
      Stepped batch t now w (.done answer, now)

theorem finish_map (check : Except Fault Unit) (how : Insertion) :
    finish now (check.map fun _ => (how, now)) = (.done (check.map fun _ => how), now) := by
  cases check <;> rfl

theorem stepped_of_checkRetry (h : t.Takes batch) {how : Insertion} (hhow : how ≠ .stored)
    (hnow : now = t.adding batch) :
    Stepped batch t now w (finish now
      ((Table.checkRetry (now.stored batch) batch).map fun _ => (how, now))) := by
  subst hnow
  rw [finish_map]
  refine .answered _ rfl (justified_checkRetry h how) fun heq => ?_
  cases hcheck : Table.checkRetry ((t.adding batch).stored batch) batch with
  | ok =>
      rw [hcheck] at heq
      exact absurd (Except.ok.inj heq) hhow
  | error fault =>
      rw [hcheck] at heq
      cases heq

theorem step_refused {message : String} (hstored : now.stored batch ≠ []) :
    step batch now (.refused message) = finish now
      ((Table.checkRetry (now.stored batch) batch).map fun _ => (.storedConcurrently, now)) := by
  rw [step, Table.afterRefusal_of_stored hstored]

theorem step_stepped (h : t.Takes batch) (hnow : now = t ∨ now = t.adding batch)
    (hw : w.Fits batch t now) : Stepped batch t now w (w.step batch now) := by
  by_cases hbatch : batch = []
  · -- An empty batch is in the table from the start.
    subst hbatch
    obtain rfl : now = t := by simpa [Table.adding_nil] using hnow
    have hstored : Stepped [] now now w (.done (.ok .stored), now.adding []) := .stored rfl
    rw [Table.adding_nil] at hstored
    cases w with
    | starting => exact hstored
    | unseen => exact hstored
    | refused message => exact absurd rfl hw.1
    | done answer => exact .answered answer hw.1 hw.2 fun _ => rfl
  · cases w with
    | starting =>
        rcases hnow with hnow | hnow
        · rw [step_starting_of_unseen hbatch (hnow ▸ h.stored_eq_nil)]
          exact .sawNothing
        · have hstored := hnow ▸ h.stored_adding_ne_nil hbatch
          rw [step_starting_of_stored hstored,
            Memory.Matches.tableInsert_of_stored hstored]
          exact stepped_of_checkRetry h (by decide) hnow
    | unseen =>
        rcases hnow with hnow | hnow
        · rw [step, hnow, h.append]
          exact .stored rfl
        · obtain ⟨message, happend⟩ :=
            Table.exists_append_error_of_stored (hnow ▸ h.stored_adding_ne_nil hbatch)
          rw [step, happend]
          exact .wasRefused message hbatch hnow
    | refused message =>
        rw [step_refused (hw.2 ▸ h.stored_adding_ne_nil hbatch)]
        exact stepped_of_checkRetry h (by decide) hw.2
    | done answer => exact .answered answer hw.1 hw.2 fun _ => rfl

theorem Stepped.table {next : Writer × Table} (h : Stepped batch t now w next)
    (hnow : now = t ∨ now = t.adding batch) : next.2 = t ∨ next.2 = t.adding batch := by
  cases h with
  | sawNothing => exact hnow
  | stored _ => exact .inr rfl
  | wasRefused => exact hnow
  | answered => exact hnow

theorem Stepped.fits {next : Writer × Table} (h : Stepped batch t now w next) :
    next.1.Fits batch t next.2 := by
  cases h with
  | sawNothing => trivial
  | stored _ => exact ⟨rfl, justified_stored⟩
  | wasRefused message hbatch hnow => exact ⟨hbatch, hnow⟩
  | answered answer hnow hanswer _ => exact ⟨hnow, hanswer⟩

theorem Stepped.others {next : Writer × Table} (h : Stepped batch t now w next) {v : Writer}
    (hv : v.Fits batch t now) : v.Fits batch t next.2 := by
  cases h with
  | sawNothing => exact hv
  | stored hnow =>
      -- The table changes under the others: those that knew of the batch in it still do.
      cases v with
      | starting => trivial
      | unseen => trivial
      | refused message => exact ⟨hv.1, rfl⟩
      | done answer => exact ⟨rfl, hv.2⟩
  | wasRefused => exact hv
  | answered => exact hv

/-- The writer that stores the batch did so on the first table, or it had done so before. -/
theorem Stepped.of_stored {next : Writer × Table} (h : Stepped batch t now w next)
    (hstored : next.1 = .done (.ok .stored)) : now = t ∨ w = .done (.ok .stored) := by
  cases h with
  | sawNothing => cases hstored
  | stored hnow => exact .inl hnow
  | wasRefused => cases hstored
  | answered answer hnow _ hnew =>
      obtain rfl : answer = .ok .stored := Writer.done.inj hstored
      exact .inr (hnew rfl)

/-! ### Steps to the answer -/

/-- The number of steps to the answer, at most. -/
def distance : Writer → Nat
  | .starting => 3
  | .unseen => 2
  | .refused _ => 1
  | .done _ => 0

theorem distance_finish (answer : Except Fault (Insertion × Table)) :
    (finish t answer).1.distance = 0 := by
  cases answer <;> rfl

theorem distance_step_le (w : Writer) (batch : List PublicationRecord) (now : Table) :
    (w.step batch now).1.distance ≤ w.distance - 1 := by
  cases w with
  | starting =>
      rw [step]
      split
      · exact Nat.zero_le _
      split
      · exact Nat.le_refl _
      · rw [distance_finish]
        exact Nat.zero_le _
  | unseen =>
      rw [step]
      split
      · exact Nat.zero_le _
      · exact Nat.le_refl _
  | refused message =>
      rw [step, distance_finish]
      exact Nat.zero_le _
  | done answer => exact Nat.le_refl _

theorem eq_done_of_distance {w : Writer} (h : w.distance = 0) : ∃ answer, w = .done answer := by
  cases w with
  | done answer => exact ⟨answer, rfl⟩
  | _ => cases h

end Writer

/-- Writers, by their numbers, and the table they share. -/
structure Race where
  table : Table
  writer : Nat → Writer

namespace Race

variable {batch : List PublicationRecord} {t : Table} {z : Race}

def start (t : Table) : Race := ⟨t, fun _ => .starting⟩

def step (batch : List PublicationRecord) (z : Race) (i : Nat) : Race :=
  let next := (z.writer i).step batch z.table
  ⟨next.2, fun j => if j = i then next.1 else z.writer j⟩

/-- Steps of writers in the order of a schedule. -/
def run (batch : List PublicationRecord) (z : Race) (schedule : List Nat) : Race :=
  schedule.foldl (step batch) z

/-- The batch is in the table once or not at all, and every writer fits the table; one writer at
most stored it. -/
structure Fits (batch : List PublicationRecord) (t : Table) (z : Race) : Prop where
  table : z.table = t ∨ z.table = t.adding batch
  writer : ∀ i, (z.writer i).Fits batch t z.table
  once : batch ≠ [] → ∀ i j, z.writer i = .done (.ok .stored) →
    z.writer j = .done (.ok .stored) → i = j

theorem fits_start : (start t).Fits batch t where
  table := .inl rfl
  writer := fun _ => trivial
  once := by
    intro _ i j hi
    cases hi

theorem ne_of_adding (hbatch : batch ≠ []) : t ≠ t.adding batch := by
  intro heq
  have hlength := congrArg (fun t : Table => t.rows.length) heq
  have hnil : batch.length = 0 := by simpa [Table.adding] using hlength
  exact hbatch (List.length_eq_zero_iff.mp hnil)

theorem Fits.step (h : z.Fits batch t) (htakes : t.Takes batch) (i : Nat) :
    (z.step batch i).Fits batch t := by
  have hstepped := Writer.step_stepped htakes h.table (h.writer i)
  refine ⟨hstepped.table h.table, fun j => ?_, fun hbatch j k hj hk => ?_⟩
  · by_cases hji : j = i
    · simpa [Race.step, hji] using hstepped.fits
    · simpa [Race.step, hji] using hstepped.others (h.writer j)
  · -- A writer other than `i` that stored the batch did so before, and left no room for `i`.
    have hbefore : ∀ {j}, j ≠ i → (z.step batch i).writer j = .done (.ok .stored) →
        z.writer j = .done (.ok .stored) := by
      intro j hji hj
      simpa [Race.step, hji] using hj
    have hothers : ∀ {j}, j ≠ i → z.writer j = .done (.ok .stored) →
        (z.step batch i).writer i = .done (.ok .stored) →
          z.writer i = .done (.ok .stored) := by
      intro j hji hj hi
      have hfits := h.writer j
      rw [hj] at hfits
      refine (hstepped.of_stored (by simpa [Race.step] using hi)).resolve_left fun hnow => ?_
      exact ne_of_adding hbatch (hnow.symm.trans hfits.1)
    by_cases hji : j = i <;> by_cases hki : k = i
    · rw [hji, hki]
    · subst hji
      exact h.once hbatch _ _ (hothers hki (hbefore hki hk) hj) (hbefore hki hk)
    · subst hki
      exact h.once hbatch _ _ (hbefore hji hj) (hothers hji (hbefore hji hj) hk)
    · exact h.once hbatch _ _ (hbefore hji hj) (hbefore hki hk)

theorem Fits.run (h : z.Fits batch t) (htakes : t.Takes batch) (schedule : List Nat) :
    (z.run batch schedule).Fits batch t := by
  -- By induction on the schedule: what fits after one step is where the rest starts.
  induction schedule generalizing z with
  | nil => exact h
  | cons i schedule ih => exact ih (h.step htakes i)

theorem distance_run_le (z : Race) (batch : List PublicationRecord) (schedule : List Nat)
    (i : Nat) : ((z.run batch schedule).writer i).distance ≤
      (z.writer i).distance - schedule.count i := by
  induction schedule generalizing z with
  | nil => exact Nat.le_refl _
  | cons j schedule ih =>
      -- A step of another writer leaves this one where it is.
      have hrest := ih (z.step batch j)
      have hstep := (z.writer j).distance_step_le batch z.table
      by_cases hij : i = j
      · subst hij
        have hwriter : (z.step batch i).writer i = ((z.writer i).step batch z.table).1 := by
          simp [step]
        rw [hwriter] at hrest
        rw [List.count_cons_self]
        exact Nat.le_trans hrest (by omega)
      · have hwriter : (z.step batch j).writer i = z.writer i := by simp [step, hij]
        rw [hwriter] at hrest
        rwa [List.count_cons_of_ne (Ne.symm hij)]

theorem exists_answer {schedule : List Nat} {i : Nat} (h : 3 ≤ schedule.count i) :
    ∃ answer, ((start t).run batch schedule).writer i = .done answer := by
  apply Writer.eq_done_of_distance
  have hdistance := distance_run_le (start t) batch schedule i
  have hthree : ((start t).writer i).distance = 3 := rfl
  omega

end Race

/-! ### The operation -/

open Act

theorem Ledger.outcome_insertLate_of_calm {p : Node} {t : Table} (h : p.Calm)
    (hstore : p.store = .table t) (batch : List PublicationRecord) :
    ∃ log, outcome (insertSeeing 1 none batch) p =
      ((t.insertSeeing .blind .clear batch).map fun _ => (),
        { p with
          store := p.store.next ((t.insertSeeing .blind .clear batch).map fun x =>
            (x.1, .table x.2))
          log := log }) := by
  unfold insertSeeing
  rw [outcome_bind_of_ok (outcome_passOutages_of_calm h _ _), outcome_bind_of_ok (outcome_get p),
    hstore]
  dsimp only
  split
  · rename_i hbatch
    refine ⟨p.log, ?_⟩
    simp only [hbatch, Table.insertSeeing, if_true, Except.map, Store.next]
    rw [← hstore, outcome_pure]
  · obtain ⟨log, hlog⟩ := outcome_write (t.insertSeeing .blind .clear batch) .table
      batch.length p
    rw [hstore] at hlog
    refine ⟨log, ?_⟩
    rw [outcome_bind_of_ok (outcome_sightOver_of_calm h _)]
    split
    · rw [outcome_bind_of_ok (outcome_sightOver_of_calm h _)]
      exact hlog
    · rw [outcome_bind_of_ok (outcome_pure _ _)]
      exact hlog

theorem Store.next_congr (s : Store) {a b : Except Fault (Insertion × Table)}
    (h : a.map (·.2) = b.map (·.2)) :
    a.map (fun _ => ()) = b.map (fun _ => ()) ∧
      s.next (a.map fun x => (x.1, .table x.2)) = s.next (b.map fun x => (x.1, .table x.2)) := by
  rcases a with fault | ⟨how, t⟩ <;> rcases b with fault' | ⟨how', t'⟩ <;> cases h
  · exact ⟨rfl, rfl⟩
  · exact ⟨rfl, rfl⟩

theorem Ledger.insertLate_eq_insert {p : Node} {t : Table} (h : p.Calm)
    (hstore : p.store = .table t) (batch : List PublicationRecord) :
    ∃ answer q q', outcome (insertSeeing 1 none batch) p = (answer, q) ∧
      outcome (insert batch) p = (answer, q') ∧ q.store = q'.store := by
  obtain ⟨log, hlate⟩ := outcome_insertLate_of_calm h hstore batch
  obtain ⟨log', hinsert⟩ := outcome_insert_of_calm h batch
  obtain ⟨hanswer, hnext⟩ := p.store.next_congr (Table.insertSeeing_blind t batch)
  have halone : p.store.insertSeeing .clear .clear batch =
      (t.insert batch).map fun x => (x.1, .table x.2) := by
    rw [hstore]
    rfl
  have hunit : ((t.insert batch).map fun x => (x.1, Store.table x.2)).map (fun _ => ()) =
      (t.insert batch).map fun _ => () := by
    cases t.insert batch <;> rfl
  rw [halone, hunit, ← hanswer] at hinsert
  exact ⟨_, _, _, hlate, hinsert, hnext⟩

/-- An insertion whose look comes before others have written answers as an insertion alone, and
leaves the same table.  Any number of writers of one new batch store it once, and all of them
succeed if the table can tell its moments. -/
theorem racing_insert_equals_serial (batch : List PublicationRecord) :
    (∀ t : Table, Writer.raced batch t t = Writer.finish t (t.insert batch)) ∧
    (∀ t₁ t₂ : Table, t₁.stored batch = [] →
      (Writer.raced batch t₁ t₂).1.verdict = (Writer.raced batch t₂ t₂).1.verdict ∧
        (Writer.raced batch t₁ t₂).2 = (Writer.raced batch t₂ t₂).2) ∧
    (∀ (p : Node) (t : Table), p.Calm → p.store = .table t →
      ∃ answer q q', outcome (Ledger.insertSeeing 1 none batch) p = (answer, q) ∧
        outcome (Ledger.insert batch) p = (answer, q') ∧ q.store = q'.store) ∧
    (∀ t : Table, t.refused = [] → ((∃ t', t.append (batch.map Row.ofRecord) = .ok t') ↔
      (batch.map (·.id)).Nodup ∧ ∀ r ∈ batch, r.id ∉ t.rows.map (·.id))) ∧
    ∀ (t : Table) (schedule : List Nat), t.Takes batch →
      let z := (Race.start t).run batch schedule
      (z.table = t ∨ z.table = t.adding batch) ∧
        (∀ i, 3 ≤ schedule.count i → ∃ answer, z.writer i = .done answer) ∧
        (∀ i answer, z.writer i = .done answer → z.table = t.adding batch ∧
          ((∀ r ∈ batch, r.IsRecognised) → ∃ how, answer = .ok how) ∧
          ((¬ ∀ r ∈ batch, r.IsRecognised) → answer = .ok .stored ∨
            ∃ fault, answer = .error fault ∧ fault.category? = some .duplicateRecord)) ∧
        (batch ≠ [] → ∀ i j, z.writer i = .done (.ok .stored) →
          z.writer j = .done (.ok .stored) → i = j) := by
  refine ⟨fun _ => Writer.raced_self, fun _ _ => Writer.raced_eq_alone,
    fun _ _ hcalm hstore => Ledger.insertLate_eq_insert hcalm hstore batch,
    fun _ => Table.exists_append_ok_iff, ?_⟩
  intro t schedule htakes z
  have hfits : z.Fits batch t := Race.fits_start.run htakes schedule
  refine ⟨hfits.table, fun i => Race.exists_answer, fun i answer hanswer => ?_, hfits.once⟩
  have hwriter := hfits.writer i
  rw [hanswer] at hwriter
  exact ⟨hwriter.1, hwriter.2.recognised, hwriter.2.refused⟩

/-- Two writers of one record that take turns both succeed; a writer that looked before the
record was there ends as one that looks after. -/
theorem racing_insert_equals_serial_turns :
    Table.empty.Takes [pendingRecord] ∧ Table.empty.stored [pendingRecord] = [] ∧
      (∃ how how',
        ((Race.start .empty).run [pendingRecord] [0, 1, 0, 1, 0, 1]).writer 0 =
          .done (.ok how) ∧
        ((Race.start .empty).run [pendingRecord] [0, 1, 0, 1, 0, 1]).writer 1 =
          .done (.ok how') ∧
        ((Race.start .empty).run [pendingRecord] [0, 1, 0, 1, 0, 1]).table.rows =
          [Row.ofRecord pendingRecord]) ∧
      (Writer.raced [pendingRecord] .empty (Table.empty.adding [pendingRecord])).1.verdict =
        some (.ok ()) ∧
      ∃ q, outcome (Ledger.insertSeeing 1 none [pendingRecord]) emptyTableNode = (.ok (), q) := by
  have htakes : Table.empty.Takes [pendingRecord] :=
    ⟨List.nodup_singleton _, fun _ _ => List.not_mem_nil, fun _ _ => rfl⟩
  have hrecognised : ∀ r ∈ [pendingRecord], r.IsRecognised := by decide
  obtain ⟨-, hraced, hlate, -, hmany⟩ := racing_insert_equals_serial [pendingRecord]
  refine ⟨htakes, rfl, ?_, ?_, ?_⟩
  · obtain ⟨-, hdone, hanswers, -⟩ := hmany .empty [0, 1, 0, 1, 0, 1] htakes
    obtain ⟨answer, hanswer⟩ := hdone 0 (by decide)
    obtain ⟨answer', hanswer'⟩ := hdone 1 (by decide)
    obtain ⟨htable, hsucceeds, -⟩ := hanswers 0 answer hanswer
    obtain ⟨-, hsucceeds', -⟩ := hanswers 1 answer' hanswer'
    obtain ⟨how, rfl⟩ := hsucceeds hrecognised
    obtain ⟨how', rfl⟩ := hsucceeds' hrecognised
    exact ⟨how, how', hanswer, hanswer', by rw [htable]; rfl⟩
  · exact (hraced .empty (Table.empty.adding [pendingRecord]) rfl).1.trans rfl
  · obtain ⟨answer, q, q', hq, hq', -⟩ := hlate emptyTableNode .empty ⟨rfl, rfl⟩ rfl
    obtain rfl : answer = .ok () := (congrArg Prod.fst hq').symm.trans rfl
    exact ⟨q, hq⟩

/-- Two writers of a record that was published two hours ahead of universal time: the second one
is refused. -/
theorem racing_noon_is_refused :
    Table.empty.Takes [noonRecord] ∧ ∃ fault,
      ((Race.start .empty).run [noonRecord] [0, 1, 0, 1, 0, 1]).writer 1 = .done (.error fault) ∧
        fault.category? = some .duplicateRecord := by
  refine ⟨⟨List.nodup_singleton _, fun _ _ => List.not_mem_nil, fun _ _ => rfl⟩, ?_⟩
  exact ⟨_, rfl, rfl⟩

end DeliveryLedger
