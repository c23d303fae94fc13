import DeliveryLedger.Proofs.Delivery
import DeliveryLedger.Proofs.StageRuns
/-!
One publication from end to end: its batch of records, the invocations that follow from it in
any order, and what the store and the journal hold afterwards.
-/

namespace DeliveryLedger

open Act

def Node.interested (p : Node) (o : Occurrence) : List HandlerDescriptor :=
  p.registry.handlersFor p.space.catalogue o.type

/-! ### Recording a batch -/

namespace Ledger

variable {p q : Node}

theorem record_cases {o : Occurrence} {handlerIds : List String}
    {r : Except Fault (List PublicationRecord)}
    (hfresh : ∀ n, p.drawn < n → RecordId.drawn n ∉ p.store.ids)
    (h : outcome (record o handlerIds) p = (r, q)) :
    (q.journal = p.journal ∧ q.queued = p.queued ∧ q.paused = p.paused) ∧
      (((∃ fault, r = .error fault) ∧ q.store = p.store) ∨
        ∃ records, r = .ok records ∧
          records = newRecords p.drawn (Payload.ofOccurrence p.space.catalogue o) p.clock.now
            handlerIds ∧
          q.store.records = p.store.records ++ records.map p.store.keep) := by
  by_cases hnodup : handlerIds.Nodup
  swap
  · obtain ⟨rfl, rfl⟩ := Prod.mk.inj ((outcome_recordFrom_of_repeated hnodup).symm.trans h)
    exact ⟨⟨rfl, rfl, rfl⟩, .inl ⟨⟨_, rfl⟩, rfl⟩⟩
  by_cases hnone : handlerIds = []
  · subst hnone
    have hempty : outcome (record o []) p = (.ok [], p) := rfl
    obtain ⟨rfl, rfl⟩ := Prod.mk.inj (hempty.symm.trans h)
    exact ⟨⟨rfl, rfl, rfl⟩, .inr ⟨[], rfl, rfl, by simp⟩⟩
  have hnew : ∀ id ∈ drawnIds RecordId.drawn p.drawn handlerIds.length, id ∉ p.store.ids := by
    intro id hid
    obtain ⟨n, hlow, -, rfl⟩ := mem_drawnIds.mp hid
    exact hfresh n hlow
  obtain ⟨s, hbecomes, hanswer⟩ := recordFrom_cases hnodup hnone hnew h
  refine ⟨⟨hbecomes.journal, hbecomes.queued, hbecomes.paused⟩, ?_⟩
  rw [hbecomes.store]
  rcases hanswer with ⟨fault, -, rfl, rfl⟩ | ⟨rfl, rfl, -⟩
  · exact .inl ⟨⟨fault, rfl⟩, rfl⟩
  · exact .inr ⟨_, rfl, rfl, Store.records_adding _ _⟩

end Ledger

namespace Dispatch

open Fanout

variable {p q : Node}

/-- The node after a collector has seen an occurrence. -/
def noted (capture : Option String) (o : Occurrence) (p : Node) : Node :=
  (outcome (captured capture o) p).2

theorem outcome_captured (capture : Option String) (o : Occurrence) (p : Node) :
    outcome (captured capture o) p = (.ok (), noted capture o p) := by
  cases capture <;> rfl

theorem noted_frame (capture : Option String) (o : Occurrence) (p : Node) :
    ∃ captures, noted capture o p = { p with captures := captures } := by
  cases capture with
  | none => exact ⟨p.captures, rfl⟩
  | some name => exact ⟨_, rfl⟩

theorem runQueued_of_idle (h : p.queued = []) : outcome runQueued p = (.ok (), p) := by
  have hsame : { p with queued := [] } = p := by rw [← h]
  change outcome (each startTask p.queued) { p with queued := [] } = _
  rw [hsame, h]
  rfl

/-- Without background tasks, nothing happens while a batch is stored. -/
theorem recordAnd_of_idle (h : p.queued = []) (handlers : List String) (o : Occurrence)
    (handlerIds : List String) :
    outcome (Ledger.recordAnd (whileStoring handlers) o handlerIds) p =
      outcome (Ledger.record o handlerIds) p := by
  have hidle : ∀ m : Node, m.queued = [] → outcome (whileStoring handlers) m = (.ok (), m) := by
    intro m hm
    unfold whileStoring
    rw [outcome_bind_of_ok (outcome_get m)]
    dsimp only
    generalize (m.store.isTable && !_) = waits
    cases waits with
    | true => exact runQueued_of_idle hm
    | false => rfl
  unfold Ledger.record Ledger.recordAnd Ledger.recordFrom
  dsimp only
  split
  · rfl
  split
  · rfl
  have hdrawn := hidle { p with drawn := p.drawn + handlerIds.length } h
  rw [outcome_bind_of_ok (outcome_get p), outcome_bind_of_ok (outcome_get p),
    outcome_bind_of_ok (outcome_set _ _), outcome_bind_of_ok (outcome_set _ _),
    outcome_bind_of_ok hdrawn, outcome_bind_of_ok (outcome_pure _ _)]

/-! ### A publication -/

/-- A publication without a unit of work, with what it answers and the fan-out at its end.
Nothing is recorded for nobody, nothing follows a batch that was refused, and else the tasks
take any course in which those of inline handlers come to their ends. -/
inductive Publishes (o : Occurrence) (capture : Option String) (p : Node) :
    Except Fault (List PublicationRecord) → Fanout → Prop where
  | ignored {lines : List LogLine} (hnone : p.interested o = []) :
      Publishes o capture p (.ok []) ⟨(noted capture o p).logged lines, 0⟩
  | refused {q : Node} {fault : Fault}
      (hrecord : outcome (Ledger.record o ((p.interested o).map (·.id))) (noted capture o p) =
        (.error fault, q)) : Publishes o capture p (.error fault) ⟨q, 0⟩
  | recorded {q : Node} {records : List PublicationRecord} {w : Fanout}
      (hsome : p.interested o ≠ [])
      (hrecord : outcome (Ledger.record o ((p.interested o).map (·.id))) (noted capture o p) =
        (.ok records, q))
      (hcourse : Fanout.Leads ⟨q, ((tasks o (p.interested o) records).map
        fun t => (t, .waiting) : List (Task × Stage))⟩ w)
      (hinline : ∀ x ∈ w.tasks, ¬ x.1.handler.asynchronous → x.2.isOver) :
      Publishes o capture p (.ok records) w

theorem leads_of_all_queued (hqueued : q.queued = []) (hpaused : q.paused = [])
    (ts : List Task) :
    Leads ⟨q, (ts.map fun t => (t, .waiting) : List (Task × Stage))⟩
      (({ q with queued := q.queued ++ ts.filter (·.handler.asynchronous) } : Node).fanout
        ((ts.filter (!·.handler.asynchronous)).map fun t => (t, .waiting) :
          List (Task × Stage))) := by
  rw [← fanout_of_idle hqueued hpaused]
  refine leads_of_regrouped rfl rfl ?_
  have hparts := List.filter_append_perm (fun t : Task => t.handler.asynchronous) ts
  have htasks := Multiset.coe_eq_coe.mpr (hparts.map fun t => (t, Stage.waiting))
  rw [List.map_append, ← Multiset.coe_add] at htasks
  simp only [Node.fanout, hqueued, hpaused, List.nil_append, List.map_nil, Multiset.coe_nil,
    zero_add, htasks]

/-- The background tasks are begun first, since the inline handlers are awaited. -/
theorem leads_of_inline (hpaused : p.paused = [])
    (hbackground : ∀ t ∈ p.queued, t.handler.asynchronous) (ts : List Task) :
    ∃ q z u, outcome runQueued p = (.ok (), q) ∧ outcome (each runInline ts) q = (.ok (), z) ∧
      (∀ x ∈ u, x.2.isOver) ∧
      Leads (p.fanout (ts.map fun t => (t, .waiting) : List (Task × Stage))) (z.fanout u) ∧
      ∀ x ∈ (z.fanout u).tasks, ¬ x.1.handler.asynchronous → x.2.isOver := by
  obtain ⟨q, parked, hrun, hqueued, hqpaused, hparked, v, hv, hcourse⟩ := finishes_runQueued p
  obtain ⟨z, hinline, hfinishes⟩ :=
    finishes_all runInline .waiting ts (fun t _ p => finishes_runInline t p) q
  obtain ⟨v', hv', hcourse'⟩ := hfinishes.course
  refine ⟨q, z, v' + v, hrun, hinline, isOver_add hv' hv, ?_, ?_⟩
  · have hsecond := hcourse' v
    rw [add_comm _ v] at hsecond
    exact (hcourse _).trans hsecond
  · apply isOver_of_mem_fanout
    · rw [hfinishes.queued, hqueued]
      simp
    · rw [hfinishes.paused, hqpaused]
      intro t ht
      have hmem : t ∈ parked := by simpa [hpaused] using ht
      exact hbackground t (hparked t hmem)
    · exact isOver_add hv' hv

theorem publishes_dispatch {p : Node} (hqueued : p.queued = []) (hpaused : p.paused = [])
    (hfresh : ∀ n, p.drawn < n → RecordId.drawn n ∉ p.store.ids) (o : Occurrence)
    (capture : Option String) :
    ∃ r q u, outcome (dispatch o capture) p = (r, q) ∧ (∀ x ∈ u, x.2.isOver) ∧
      Publishes o capture p r (q.fanout u) := by
  obtain ⟨captures, hnoted⟩ := noted_frame capture o p
  have hhandlers : (noted capture o p).registry.handlersFor
      (noted capture o p).space.catalogue o.type = p.interested o := by
    rw [hnoted]
    rfl
  have hqueued' : (noted capture o p).queued = [] := by rw [hnoted]; exact hqueued
  have hpaused' : (noted capture o p).paused = [] := by rw [hnoted]; exact hpaused
  unfold dispatch
  rw [outcome_bind_of_ok (outcome_captured capture o p), outcome_bind_of_ok (outcome_get _)]
  dsimp only
  rw [hhandlers]
  split
  · rename_i hnone
    refine ⟨_, _, 0, rfl, by simp, ?_⟩
    rw [fanout_of_idle (by simpa [Node.logged] using hqueued')
      (by simpa [Node.logged] using hpaused')]
    exact .ignored hnone
  rename_i hsome
  have hrecordAnd := recordAnd_of_idle hqueued' ((p.interested o).map (·.id)) o
    ((p.interested o).map (·.id))
  rcases hrecord : outcome (Ledger.record o ((p.interested o).map (·.id))) (noted capture o p) with
    ⟨fault | records, q⟩
  all_goals
    obtain ⟨-, hqqueued, hqpaused⟩ := (Ledger.record_cases (by rw [hnoted]; exact hfresh) hrecord).1
    rw [hqueued'] at hqqueued
    rw [hpaused'] at hqpaused
    rw [hrecord] at hrecordAnd
  · rw [outcome_bind, hrecordAnd]
    refine ⟨_, q, 0, rfl, by simp, ?_⟩
    rw [fanout_of_idle hqqueued hqpaused]
    exact .refused hrecord
  rw [outcome_bind_of_ok hrecordAnd, outcome_bind_of_ok (outcome_modify _ q)]
  let ts := tasks o (p.interested o) records
  have hstart := leads_of_all_queued hqqueued hqpaused ts
  have hbackground : ∀ x ∈ q.queued ++ ts.filter (·.handler.asynchronous),
      x.handler.asynchronous := by
    intro x hx
    rw [hqqueued, List.nil_append] at hx
    simpa using (List.mem_filter.mp hx).2
  split
  · rename_i hinline
    rw [hinline] at hstart
    refine ⟨_, _, 0, rfl, by simp, .recorded hsome hrecord hstart ?_⟩
    exact isOver_of_mem_fanout hbackground (by simp [hqpaused]) (by simp)
  · obtain ⟨m, z, u, hrun, hinline, hu, hcourse, hover⟩ := leads_of_inline
      (p := { q with queued := q.queued ++ ts.filter (·.handler.asynchronous) }) hqpaused
      hbackground (ts.filter (!·.handler.asynchronous))
    refine ⟨.ok records, z, u, ?_, hu, .recorded hsome hrecord (hstart.trans hcourse) hover⟩
    rw [outcome_bind_of_ok hrun, outcome_bind_of_ok hinline]
    rfl

/-! ### The batch and its tasks -/

theorem records_tasks {o : Occurrence} {handlers : List HandlerDescriptor}
    {records : List PublicationRecord} (hlength : records.length = handlers.length) :
    (tasks o handlers records).map (·.record) = records.map (·.id) := by
  induction handlers generalizing records with
  | nil =>
      obtain rfl := List.eq_nil_of_length_eq_zero hlength
      rfl
  | cons h handlers ih =>
      cases records with
      | nil => simp at hlength
      | cons r records =>
          have htail := @ih records (by simpa using hlength)
          simp only [tasks, List.zipWith_cons_cons, List.map_cons] at htail ⊢
          rw [htail]

theorem entries_tasks {o : Occurrence} {handlers : List HandlerDescriptor}
    {records : List PublicationRecord} (hlength : records.length = handlers.length) :
    (tasks o handlers records).flatMap (fun t => entries t.handler t.occurrence) =
      handlers.flatMap (entries · o) := by
  induction handlers generalizing records with
  | nil => rfl
  | cons h handlers ih =>
      cases records with
      | nil => simp at hlength
      | cons r records =>
          have htail := @ih records (by simpa using hlength)
          simp only [tasks, List.zipWith_cons_cons, List.flatMap_cons] at htail ⊢
          rw [htail]

/-- A publication whose batch was stored: what was recorded before any handler ran, and what
holds in every course of the tasks from there on. -/
structure FannedOut (o : Occurrence) (p : Node) (records : List PublicationRecord)
    (w : Fanout) : Prop where
  /-- One record per interested handler, in their order. -/
  handlers : records.map (·.handlerId) = (p.interested o).map (·.id)
  new : ∀ r ∈ records, r.isPending ∧ r.payload = Payload.ofOccurrence p.space.catalogue o ∧
    r.id ∉ p.store.ids
  different : (records.map (·.id)).Nodup
  stored : ∃ q : Node, q.journal = p.journal ∧
    q.store.records = p.store.records ++ records.map p.store.keep ∧
    Leads ⟨q, ((tasks o (p.interested o) records).map fun t => (t, .waiting) :
      List (Task × Stage))⟩ w
  own : ∀ t ∈ tasks o (p.interested o) records,
    ∃ r ∈ records, t.record = r.id ∧ t.handler.id = r.handlerId
  inline : ∀ x ∈ w.tasks, ¬ x.1.handler.asynchronous → x.2.isOver
  /-- The completed records are those of the tasks that came to be completed, and nothing
  else in the store has changed. -/
  completed : ∀ z, Leads w z →
    z.tasks.map (·.1) = (tasks o (p.interested o) records : Multiset Task) ∧
      ∃ (done : List RecordId) (moment : RecordId → Instant),
        z.node.store.records =
          p.store.records ++ Store.markAll done moment (records.map p.store.keep) ∧
        ∀ id, id ∈ done ↔ ∃ t, (t, .completed) ∈ z.tasks ∧ t.record = id
  /-- Once all tasks are over, each interested handler was invoked once, and no other. -/
  invoked : ∀ z, Leads w z → (∀ x ∈ z.tasks, x.2.isOver) →
    ∃ calls : List Call, z.node.journal = p.journal ++ calls ∧
      calls.Perm ((p.interested o).flatMap (entries · o))

section

variable {o : Occurrence} {q : Node} {records : List PublicationRecord}
  (hstored : q.store.records = p.store.records ++ records.map p.store.keep)
  (hnew : ∀ r ∈ records, r.id ∉ p.store.ids)
  (hown : ∀ t ∈ tasks o (p.interested o) records,
    ∃ r ∈ records, t.record = r.id ∧ t.handler.id = r.handlerId)
include hstored hnew hown

theorem recorded_tasks (hids : p.store.ids.Nodup) (hdifferent : (records.map (·.id)).Nodup)
    (hpending : ∀ r ∈ records, r.isPending) (hlength : records.length = (p.interested o).length) :
    Recorded q (tasks o (p.interested o) records : Multiset Task) := by
  have hqids : q.store.ids = p.store.ids ++ records.map (·.id) := by
    rw [Store.ids, hstored, List.map_append, List.map_map]
    rfl
  constructor
  · rw [hqids, List.nodup_append]
    refine ⟨hids, hdifferent, ?_⟩
    rintro _ hold _ hnewId rfl
    obtain ⟨r, hr, rfl⟩ := List.mem_map.mp hnewId
    exact hnew r hr hold
  · rw [Multiset.map_coe, Multiset.coe_nodup, records_tasks hlength]
    exact hdifferent
  · intro t ht
    obtain ⟨r, hr, hid, -⟩ := hown t (Multiset.mem_coe.mp ht)
    refine ⟨p.store.keep r, ?_, ?_, hid.symm⟩
    · rw [hstored]
      exact List.mem_append_right _ (List.mem_map_of_mem hr)
    · rw [Store.isPending_keep]
      exact hpending r hr

theorem completed_of_progress {z : Fanout}
    (hz : Progress q (tasks o (p.interested o) records) z) :
    ∃ (done : List RecordId) (moment : RecordId → Instant),
      z.node.store.records =
        p.store.records ++ Store.markAll done moment (records.map p.store.keep) ∧
      ∀ id, id ∈ done ↔ ∃ t, (t, .completed) ∈ z.tasks ∧ t.record = id := by
  obtain ⟨done, moment, hrecords, hdone⟩ := hz.records
  have hmem : ∀ id, id ∈ done ↔ ∃ t, (t, .completed) ∈ z.tasks ∧ t.record = id := by
    intro id
    rw [← mem_completedIds, ← hdone, Multiset.mem_coe]
  refine ⟨done, moment, ?_, hmem⟩
  rw [hrecords, hstored, Store.markAll_append, Store.markAll_of_others]
  -- A record from before has an identifier that no task has.
  intro r hr hid
  obtain ⟨t, ht, hrecord⟩ := (hmem r.id).mp hid
  have htask : t ∈ tasks o (p.interested o) records := by
    rw [← Multiset.mem_coe, ← hz.tasks]
    exact Multiset.mem_map_of_mem (·.1) ht
  obtain ⟨x, hx, hxid, -⟩ := hown t htask
  exact hnew x hx (hxid ▸ hrecord ▸ Store.mem_ids_of_mem hr)

end

theorem fannedOut_of_recorded {o : Occurrence} {capture : Option String} {q : Node}
    {records : List PublicationRecord} {w : Fanout} (hids : p.store.ids.Nodup)
    (hfresh : ∀ n, p.drawn < n → RecordId.drawn n ∉ p.store.ids)
    (hrecord : outcome (Ledger.record o ((p.interested o).map (·.id))) (noted capture o p) =
      (.ok records, q))
    (hcourse : Leads ⟨q, ((tasks o (p.interested o) records).map
      fun t => (t, .waiting) : List (Task × Stage))⟩ w)
    (hinline : ∀ x ∈ w.tasks, ¬ x.1.handler.asynchronous → x.2.isOver) :
    FannedOut o p records w := by
  obtain ⟨captures, hnoted⟩ := noted_frame capture o p
  rw [hnoted] at hrecord
  obtain ⟨⟨hjournal, -, -⟩, ⟨⟨fault, hfault⟩, -⟩ | ⟨_, hok, hnew, hstored⟩⟩ :=
    Ledger.record_cases (by exact hfresh) hrecord
  · simp at hfault
  obtain rfl := Except.ok.inj hok
  dsimp only at hjournal hnew hstored
  have hhandlers : records.map (·.handlerId) = (p.interested o).map (·.id) := by
    rw [hnew, handlerIds_newRecords]
  have hlength : records.length = (p.interested o).length := by
    simpa using congrArg List.length hhandlers
  have hfreshIds : ∀ r ∈ records, r.id ∉ p.store.ids := by
    intro r hr
    obtain ⟨-, -, n, hlow, -, hid⟩ := mem_newRecords (hnew ▸ hr)
    exact hid ▸ hfresh n hlow
  have hdifferent : (records.map (·.id)).Nodup := hnew ▸ nodup_newRecords _ _ _ _
  have hpending : ∀ r ∈ records, r.isPending := fun r hr => (mem_newRecords (hnew ▸ hr)).1
  have hown : ∀ t ∈ tasks o (p.interested o) records,
      ∃ r ∈ records, t.record = r.id ∧ t.handler.id = r.handlerId := by
    intro t ht
    obtain ⟨r, hr, hpair⟩ := pair_of_mem_tasks hhandlers ht
    obtain ⟨hid, hhandler⟩ := Prod.mk.inj hpair
    exact ⟨r, hr, hid, hhandler⟩
  have hrecorded := recorded_tasks hstored hfreshIds hown hids hdifferent hpending hlength
  have hprogress : ∀ z, Leads w z → Progress q (tasks o (p.interested o) records) z :=
    fun z hz => (Progress.begin q _).leads hrecorded (hcourse.trans hz)
  refine ⟨hhandlers, ?_, hdifferent, ⟨q, hjournal, hstored, hcourse⟩, hown, hinline, ?_, ?_⟩
  · intro r hr
    exact ⟨hpending r hr, (Ledger.mem_newRecordsFrom (hnew ▸ hr)).2.2.1, hfreshIds r hr⟩
  · intro z hz
    exact ⟨(hprogress z hz).tasks,
      completed_of_progress hstored hfreshIds hown (hprogress z hz)⟩
  · intro z hz hover
    obtain ⟨calls, hcallsJournal, hcalls⟩ := (hprogress z hz).calls_of_over hover
    refine ⟨calls, by rw [hcallsJournal, hjournal], ?_⟩
    rw [Multiset.coe_bind, Multiset.coe_eq_coe, entries_tasks hlength] at hcalls
    exact hcalls

/-- Every course of a publication without a unit of work records nothing and invokes nobody, or
fans out.  An idle node's dispatch is such a course, its waits and opened gates go on with it, and
a drain answers that all background tasks are over exactly when they are. -/
theorem publish_fans_out {p : Node} (hids : p.store.ids.Nodup)
    (hfresh : ∀ n, p.drawn < n → RecordId.drawn n ∉ p.store.ids) (o : Occurrence)
    (capture : Option String) :
    (∀ r w, Publishes o capture p r w →
      (w.tasks = 0 ∧ w.node.store = p.store ∧ w.node.journal = p.journal ∧
          ((p.interested o = [] ∧ r = .ok []) ∨ ∃ fault q, r = .error fault ∧
            outcome (Ledger.record o ((p.interested o).map (·.id))) (noted capture o p) =
              (.error fault, q))) ∨
        ∃ records, r = .ok records ∧ p.interested o ≠ [] ∧ FannedOut o p records w) ∧
    (p.queued = [] → p.paused = [] →
      ∃ r q u, outcome (dispatch o capture) p = (r, q) ∧ (∀ x ∈ u, x.2.isOver) ∧
        Publishes o capture p r (q.fanout u)) ∧
    (∀ q u, (∀ x ∈ u, x.2.isOver) →
      ∃ z v, outcome runQueued q = (.ok (), z) ∧ Leads (q.fanout u) (z.fanout v) ∧
        (∀ x ∈ v, x.2.isOver) ∧ z.queued = [] ∧
        (z.paused = [] → ∀ x ∈ (z.fanout v).tasks, x.2.isOver)) ∧
    (∀ gates q u, (∀ x ∈ u, x.2.isOver) →
      ∃ z v, outcome (drain gates) q = (.ok z.background.isEmpty, z) ∧
        Leads (q.fanout u) (z.fanout v) ∧ (∀ x ∈ v, x.2.isOver) ∧ z.queued = [] ∧
        (∀ t ∈ z.background, t ∈ q.background ∧
          ∀ gate ∈ gates, t.handler.body ≠ some gate) ∧
        (z.background = [] → ∀ x ∈ (z.fanout v).tasks, x.2.isOver)) ∧
    ∀ handler q u, (∀ x ∈ u, x.2.isOver) →
      ∃ z v, outcome (release handler) q = (.ok (), z) ∧ Leads (q.fanout u) (z.fanout v) ∧
        (∀ x ∈ v, x.2.isOver) ∧ z.queued = q.queued ∧
        z.paused = q.paused.filter fun t => !decide (t.handler.body = some handler) := by
  refine ⟨?_, fun hqueued hpaused => publishes_dispatch hqueued hpaused hfresh o capture,
    ?_, ?_, ?_⟩
  · intro r w hpublishes
    obtain ⟨captures, hnoted⟩ := noted_frame capture o p
    cases hpublishes with
    | ignored hnone =>
        refine .inl ⟨rfl, ?_, ?_, .inl ⟨hnone, rfl⟩⟩
        · rw [hnoted]
          rfl
        · rw [hnoted]
          rfl
    | refused hrecord =>
        have hrefused := hrecord
        rw [hnoted] at hrefused
        obtain ⟨⟨hjournal, -, -⟩, ⟨-, hstore⟩ | ⟨records, hok, -⟩⟩ :=
          Ledger.record_cases (by exact hfresh) hrefused
        · exact .inl ⟨rfl, hstore, hjournal, .inr ⟨_, _, rfl, hrecord⟩⟩
        · simp at hok
    | recorded hsome hrecord hcourse hinline =>
        exact .inr ⟨_, rfl, hsome, fannedOut_of_recorded hids hfresh hrecord hcourse hinline⟩
  · intro q u hu
    obtain ⟨z, parked, hrun, hqueued, -, -, v, hv, hcourse⟩ := finishes_runQueued q
    refine ⟨z, v + u, hrun, hcourse u, isOver_add hv hu, hqueued, ?_⟩
    intro hpaused
    rw [fanout_of_idle hqueued hpaused]
    exact isOver_add hv hu
  · intro gates q u hu
    obtain ⟨z, hrun, hqueued, hleft, v, hv, hcourse⟩ := finishes_drain gates q
    refine ⟨z, v + u, hrun, hcourse u, isOver_add hv hu, hqueued, hleft, ?_⟩
    intro hdrained
    obtain ⟨-, hpaused⟩ := List.append_eq_nil_iff.mp hdrained
    rw [fanout_of_idle hqueued hpaused]
    exact isOver_add hv hu
  · intro handler q u hu
    obtain ⟨z, hrun, hqueued, hpaused, v, hv, hcourse⟩ := finishes_release handler q
    exact ⟨z, v + u, hrun, hcourse u, isOver_add hv hu, hqueued, hpaused⟩

/-- An idle node with an empty table: of its handlers one returns, one fails, and one works in
the background. -/
def teamNode : Node :=
  { mailNode with
    registry := ⟨[mailHandler, ⟨"broken", 0, false, "Broken", some "broken"⟩,
      ⟨"index", 0, true, "Index", some "index"⟩], by decide⟩
    scripts := [("broken", .failing false none (-1) (.foreign .runtime "down"))] }

/-- The publication is drained at once: all three handlers were invoked, and the record of the
one that fails is still pending. -/
theorem publish_fans_out_team :
    let o : Occurrence := ⟨0, []⟩
    teamNode.store.ids.Nodup ∧
      (∀ n, teamNode.drawn < n → RecordId.drawn n ∉ teamNode.store.ids) ∧
      ∃ records q z, outcome (dispatch o none) teamNode = (.ok records, q) ∧
        outcome (drain []) q = (.ok true, z) ∧
        records.map (·.handlerId) = (teamNode.interested o).map (·.id) ∧
        (∃ calls : List Call, z.journal = teamNode.journal ++ calls ∧
          calls.Perm ((teamNode.interested o).flatMap (entries · o))) ∧
        (z.store.records.filter (·.isPending)).map (·.handlerId) = ["broken"] := by
  intro o
  have hids : teamNode.store.ids.Nodup := List.nodup_nil
  have hfresh : ∀ n, teamNode.drawn < n → RecordId.drawn n ∉ teamNode.store.ids :=
    fun _ _ => List.not_mem_nil
  obtain ⟨hpublishes, hdispatch, -, hdrains, -⟩ := publish_fans_out hids hfresh o none
  obtain ⟨r, q, u, hrun, hu, hcourse⟩ := hdispatch rfl rfl
  obtain ⟨z, v, hdrain, hleads, -, -, -, hover⟩ := hdrains [] q u hu
  have hq : (outcome (dispatch o none) teamNode).2 = q := congrArg Prod.snd hrun
  have hz : (outcome (drain []) q).2 = z := congrArg Prod.snd hdrain
  have hdrained : z.background = [] := by
    rw [← hz, ← hq]
    decide +kernel
  rw [hdrained] at hdrain
  have hpending : (z.store.records.filter (·.isPending)).map (·.handlerId) = ["broken"] := by
    rw [← hz, ← hq]
    decide +kernel
  have hstored : q.store.records.length = 3 := by
    rw [← hq]
    decide +kernel
  rcases hpublishes r _ hcourse with ⟨-, hstore, -⟩ | ⟨records, rfl, -, hfanned⟩
  · have hsame : q.store = teamNode.store := hstore
    rw [hsame] at hstored
    cases hstored
  · exact ⟨hids, hfresh, records, q, z, hrun, hdrain, hfanned.handlers,
      hfanned.invoked _ hleads (hover hdrained), hpending⟩

end Dispatch

end DeliveryLedger
