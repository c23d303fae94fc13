import DeliveryLedger.Proofs.AgeRestriction
import DeliveryLedger.Proofs.Matching
import DeliveryLedger.Proofs.Overlap
/-!
The look-ups of a store as views of one list, the backlog: all pending records, the oldest first.

In a store whose identifiers are different, whose instants are universal time and whose rows have
the fingerprints of their payloads (`Store.Orderly`), a look-up without restrictions returns the
backlog, and each of the others returns the part of it that it asks for.  Calls in universal time
keep a store orderly (`History.orderly`).  No look-up finds a record that is completed, and a
completed record stays so until it is deleted and a new one is inserted under its identifier
(`History.settled`).
-/

namespace DeliveryLedger

theorem Clock.key_of_cutoff {clock : Clock} {age : Duration} {cutoff : Instant}
    (h : clock.cutoff age = .ok cutoff) : cutoff.key = clock.now.key - age.micros := by
  unfold Clock.cutoff Instant.sub Instant.shift liftTime at h
  split at h
  · rename_i t ht
    obtain rfl := Except.ok.inj h
    dsimp only at ht
    split at ht
    · obtain rfl := Except.ok.inj ht
      unfold Instant.key
      cases clock.now.offset <;> dsimp only <;> omega
    · simp at ht
  · simp at h

/-! ### The backlog -/

theorem Table.select_toRecord (t : Table) (pass : PublicationRecord → Bool) :
    t.select (fun row => pass row.toRecord) =
      sortBy (fun a b => decide (a.publishedAt.key ≤ b.publishedAt.key))
        (t.records.filter pass) := by
  have haware : ∀ r ∈ t.records.filter pass, r.publishedAt.isAware := by
    intro r hr
    exact Instant.isAware_of_isUtc (Store.isUtc_table t r (List.mem_filter.mp hr).1)
  have hsorted := Memory.oldestFirst_of_isAware haware
  rw [Memory.Matches.oldestFirst_eq] at hsorted
  exact Except.ok.inj hsorted

theorem Table.mem_pending_of_select {t : Table} {pass : Row → Bool} {r : PublicationRecord}
    (hpass : ∀ row, pass row → row.isPending) (hr : r ∈ t.select pass) :
    r ∈ t.records.filter (·.isPending) := by
  obtain ⟨row, hrow, rfl⟩ := List.mem_map.mp hr
  obtain ⟨hmem, htest⟩ := List.mem_filter.mp ((perm_sortBy _ _).mem_iff.mp hrow)
  refine List.mem_filter.mpr ⟨List.mem_map_of_mem hmem, ?_⟩
  rw [Memory.Matches.isPending_toRecord]
  exact hpass row htest

namespace Store

variable {s s' : Store} {found : List PublicationRecord}

/-- The pending records, the oldest first. -/
def backlog (s : Store) : List PublicationRecord :=
  sortBy (fun a b => decide (a.publishedAt.key ≤ b.publishedAt.key))
    (s.records.filter (·.isPending))

theorem perm_backlog (s : Store) : s.backlog.Perm (s.records.filter (·.isPending)) :=
  perm_sortBy _ _

theorem pairwise_backlog (s : Store) :
    s.backlog.Pairwise fun a b => a.publishedAt.key ≤ b.publishedAt.key := by
  have hsorted : s.backlog.Pairwise
      fun a b => decide (a.publishedAt.key ≤ b.publishedAt.key) = true := by
    refine pairwise_sortBy (fun a b c hab hbc => ?_) (fun a b => ?_) _
    · exact decide_eq_true (Int.le_trans (of_decide_eq_true hab) (of_decide_eq_true hbc))
    · simpa using Int.le_total a.publishedAt.key b.publishedAt.key
  exact hsorted.imp of_decide_eq_true

theorem findIncomplete_eq_backlog (h : ∀ r ∈ s.records, r.publishedAt.isAware) :
    s.findIncomplete = .ok s.backlog := by
  cases s with
  | memory m =>
      exact Memory.oldestFirst_of_isAware fun r hr => h r (List.mem_filter.mp hr).1
  | table t =>
      have hrow : t.findIncomplete = t.select fun row => row.toRecord.isPending :=
        congrArg t.select (funext fun row => (Memory.Matches.isPending_toRecord row).symm)
      exact congrArg Except.ok (hrow.trans (t.select_toRecord _))

theorem findIncompleteUpTo_eq_backlog {cutoff : Instant}
    (h : ∀ r ∈ s.records, r.publishedAt.isAware) (hcutoff : cutoff.isAware) :
    s.findIncompleteUpTo cutoff =
      .ok (s.backlog.filter (·.publishedUpTo (s.keepInstant cutoff))) := by
  rw [findIncompleteUpTo_eq_of_isAware h hcutoff, findIncomplete_eq_backlog h]
  rfl

theorem findIncompleteByFingerprint_eq_backlog (h : ∀ r ∈ s.records, r.publishedAt.isAware)
    (hindexed : s.IsIndexed) (fingerprint handlerId : String) :
    s.findIncompleteByFingerprint fingerprint handlerId =
      .ok (s.backlog.filter fun r =>
        r.handlerId == handlerId && r.payload.fingerprint == fingerprint) := by
  cases s with
  | memory m =>
      have haware : ∀ r ∈ m.pending.filter fun r =>
          r.handlerId == handlerId && r.payload.fingerprint == fingerprint,
          r.publishedAt.isAware := fun r hr =>
        h r (List.mem_filter.mp (List.mem_filter.mp hr).1).1
      exact (Memory.oldestFirst_of_isAware haware).trans
        (congrArg Except.ok (sortBy_key_filter (fun r : PublicationRecord => r.publishedAt.key) _ _))
  | table t =>
      have hrow : t.findIncompleteByFingerprint fingerprint handlerId =
          t.select fun row => row.isPending &&
            (row.toRecord.handlerId == handlerId &&
              row.toRecord.payload.fingerprint == fingerprint) := by
        refine Memory.Matches.select_congr fun row hrow => ?_
        rw [hindexed row hrow, Bool.and_assoc, Bool.and_comm (row.payload.fingerprint == _)]
        rfl
      have hall := findIncomplete_eq_backlog h
      refine congrArg Except.ok (hrow.trans ((t.select_filter _ fun r =>
        r.handlerId == handlerId && r.payload.fingerprint == fingerprint).trans ?_))
      exact congrArg _ (Except.ok.inj hall)

/-! ### Orderly stores -/

/-- Identifiers are different, and instants are universal time. -/
structure Tidy (s : Store) : Prop where
  different : s.ids.Nodup
  utc : ∀ r ∈ s.records, r.IsUtc

/-- The store is tidy, and each row of a table has the fingerprint of its payload. -/
structure Orderly (s : Store) : Prop extends Tidy s where
  indexed : s.IsIndexed

theorem Tidy.aware (h : s.Tidy) : ∀ r ∈ s.records, r.publishedAt.isAware :=
  fun r hr => Instant.isAware_of_isUtc (h.utc r hr).1

theorem orderly_of_empty (h : s.records = []) : s.Orderly :=
  ⟨⟨by simp [ids, h], by simp [h]⟩, isIndexed_of_empty h⟩

theorem isUtc_stamp {r : PublicationRecord} {now : Instant} (h : r.IsUtc) (hnow : now.isUtc) :
    (s.stamp now r).IsUtc := by
  have hcompleted : ({ r with completedAt := some now } : PublicationRecord).IsUtc := by
    refine ⟨h.1, fun t ht => ?_⟩
    rw [← Option.some.inj ht]
    exact hnow
  unfold stamp PublicationRecord.markCompleted
  split
  · rw [Instant.wallAsUtc_of_isUtc hnow]
    exact hcompleted
  · split
    · exact h
    · exact hcompleted

end Store

namespace StoreCall

variable {p q : Node} {s s' : Store} {clock : Clock} {c : StoreCall}
  {r : Except Fault StoreAnswer}

theorem Effect.eq_of_query (h : Effect s clock c r s') (hquery : c.isQuery) : s' = s := by
  cases h with
  | failed => rfl
  | answered => rfl
  | _ => cases hquery

theorem Effect.tidy (h : Effect s clock c r s') (hclock : clock.now.isUtc) (hc : c.IsUtc)
    (hs : s.Tidy) : s'.Tidy := by
  refine ⟨h.nodup hs.different, ?_⟩
  cases h with
  | failed => exact hs.utc
  | answered => exact hs.utc
  | accepted => exact hs.utc
  | declined => exact hs.utc
  | inserted hrecords =>
      intro x hx
      rw [hrecords] at hx
      rcases List.mem_append.mp hx with hold | hnew
      · exact hs.utc x hold
      · obtain ⟨given, hgiven, rfl⟩ := List.mem_map.mp hnew
        rw [Store.keep_of_isUtc (hc given hgiven)]
        exact hc given hgiven
  | completed _ hrecords =>
      intro x hx
      rw [hrecords] at hx
      obtain ⟨old, hold, rfl⟩ := List.mem_map.mp hx
      split
      · exact Store.isUtc_stamp (hs.utc old hold) hclock
      · exact hs.utc old hold
  | deleted _ hrecords =>
      intro x hx
      rw [hrecords] at hx
      exact hs.utc x (List.mem_filter.mp hx).1

theorem store_of_wrapped {α : Type} {x : Act α} {wrap : α → StoreAnswer} {P : Store → Prop}
    (hx : ∀ m a, x.outcome p = (a, m) → P m.store)
    (h : (x >>= fun a => pure (wrap a)).outcome p = (r, q)) : P q.store := by
  rcases Act.cases_of_outcome_bind h with ⟨_, hfault, -⟩ | ⟨_, m, hm, hq⟩
  · exact hx _ _ hfault
  · obtain ⟨-, rfl⟩ := Prod.mk.inj hq
    exact hx _ _ hm

theorem indexed_of_outcome (h : c.act.outcome p = (r, q)) (hp : p.store.IsIndexed) :
    q.store.IsIndexed := by
  have hlooked (hquery : c.isQuery) : q.store.IsIndexed :=
    (effect_of_outcome h).1.eq_of_query hquery ▸ hp
  cases c with
  | insert batch =>
      refine store_of_wrapped (P := Store.IsIndexed) (fun m a hinsert => ?_) h
      rcases Ledger.insertSeeing_cases hinsert with ⟨-, hpm⟩ | ⟨-, _, _, _, _, hstore, hpm⟩
      · exact hpm.store ▸ hp
      · exact hpm.store ▸ hp.insertSeeing hstore
  | complete id =>
      refine store_of_wrapped (P := Store.IsIndexed) (fun m a hcomplete => ?_) h
      rcases Ledger.complete_cases hcomplete with ⟨-, hpm⟩ | ⟨-, hpm⟩
      · exact hpm.store ▸ hp
      · exact hpm.store ▸ hp.complete id p.clock.now
  | deleteCompletedOlderThan age =>
      refine store_of_wrapped (P := Store.IsIndexed) (fun m a hdelete => ?_) h
      rcases Ledger.deleteCompletedOlderThan_cases hdelete with
        ⟨-, hpm⟩ | ⟨_, _, _, -, hstore, -, hpm⟩
      · exact hpm.store ▸ hp
      · exact hpm.store ▸ hp.deleteCompletedUpTo hstore
  | _ => exact hlooked rfl

end StoreCall

/-- The call was made at a reading in universal time, and so are its instants. -/
def StoreEvent.IsUtc (e : StoreEvent) : Prop := e.now.isUtc ∧ e.call.IsUtc

theorem History.orderly {During : Node → Prop} {p q : Node} {es : List StoreEvent}
    (h : History During p es q) (hutc : ∀ e ∈ es, e.IsUtc) (hp : p.store.Orderly) :
    q.store.Orderly := by
  induction h with
  | here => exact hp
  | call _ hcall _ ih =>
      have heffect := (StoreCall.effect_of_outcome hcall).1
      obtain ⟨⟨hnow, hc⟩, hrest⟩ := List.forall_mem_cons.mp hutc
      exact ih hrest ⟨heffect.tidy hnow hc hp.toTidy,
        StoreCall.indexed_of_outcome hcall hp.indexed⟩
  | meanwhile _ hstore _ ih => exact ih hutc (hstore ▸ hp)

/-! ### Completed records -/

namespace Store

variable {s : Store} {id : RecordId}

/-- No pending record has the identifier. -/
def Settled (s : Store) (id : RecordId) : Prop := ∀ r ∈ s.records, r.id = id → ¬ r.isPending

theorem settled_of_mem {r : PublicationRecord} (hids : s.ids.Nodup) (hr : r ∈ s.records)
    (hcompleted : r.isCompleted) : s.Settled r.id := by
  intro x hx hid
  rw [eq_of_mem_of_id_eq hids hx hr hid]
  simpa [PublicationRecord.isPending] using hcompleted

theorem settled_complete (hids : s.ids.Nodup) (id : RecordId) (now : Instant) :
    (s.complete id now).2.Settled id := by
  intro r hr hid hpending
  rcases s.complete_cases id now with ⟨hlost, hsame⟩ | ⟨-, -, -, hrecords⟩
  · rw [hsame] at hr
    subst hid
    exact hlost (completed_of_isPending (get?_of_mem hids hr) hpending now)
  · rw [hrecords] at hr
    obtain ⟨x, -, rfl⟩ := List.mem_map.mp hr
    split at hid
    · rename_i hx
      obtain ⟨t, ht⟩ : ∃ t, s.stamp now x = { x with completedAt := some t } := stamp_eq
      rw [if_pos hx, ht, PublicationRecord.isPending_iff] at hpending
      cases hpending
    · exact absurd hid ‹_›

theorem mem_pending_of_findIncompleteUpTo {cutoff : Instant} {found : List PublicationRecord}
    {r : PublicationRecord} (h : s.findIncompleteUpTo cutoff = .ok found) (hr : r ∈ found) :
    r ∈ s.records.filter (·.isPending) := by
  cases s with
  | memory m =>
      obtain ⟨kept, hkept, hsorted⟩ := bind_eq_ok_iff.mp h
      exact mem_of_keepIf hkept ((mem_of_sortOldestFirst hsorted).mem_iff.mp hr)
  | table t =>
      obtain rfl : t.findIncompleteUpTo cutoff = found := Except.ok.inj h
      exact Table.mem_pending_of_select (fun _ htest => (Bool.and_eq_true_iff.mp htest).1) hr

theorem mem_pending_of_findIncompleteByFingerprint {fingerprint handlerId : String}
    {found : List PublicationRecord} {r : PublicationRecord}
    (h : s.findIncompleteByFingerprint fingerprint handlerId = .ok found) (hr : r ∈ found) :
    r ∈ s.records.filter (·.isPending) := by
  cases s with
  | memory m => exact (List.mem_filter.mp ((mem_of_sortOldestFirst h).mem_iff.mp hr)).1
  | table t =>
      obtain rfl : t.findIncompleteByFingerprint fingerprint handlerId = found := Except.ok.inj h
      refine Table.mem_pending_of_select (fun _ htest => ?_) hr
      exact (Bool.and_eq_true_iff.mp (Bool.and_eq_true_iff.mp htest).1).1

end Store

namespace StoreCall

variable {p q : Node}

theorem ok_of_wrapped {α : Type} {x : Act α} {wrap : α → StoreAnswer} {b : StoreAnswer}
    (h : (x >>= fun a => pure (wrap a)).outcome p = (.ok b, q)) :
    ∃ a, x.outcome p = (.ok a, q) ∧ wrap a = b := by
  rcases Act.cases_of_outcome_bind h with ⟨_, -, hfault⟩ | ⟨a, m, hm, hq⟩
  · cases hfault
  · obtain ⟨hwrap, rfl⟩ := Prod.mk.inj hq
    exact ⟨a, hm, Except.ok.inj hwrap⟩

theorem mem_pending_of_found {c : StoreCall} {found : List PublicationRecord}
    (h : c.act.outcome p = (.ok (.found found), q)) {r : PublicationRecord} (hr : r ∈ found) :
    r ∈ p.store.records.filter (·.isPending) := by
  cases c with
  | findIncomplete =>
      obtain ⟨found, hfind, ⟨⟩⟩ := ok_of_wrapped h
      have hanswer := (Ledger.findIncomplete_cases hfind).2 _ rfl
      exact (Store.findIncomplete_perm hanswer).mem_iff.mp hr
  | findIncompleteOlderThan age =>
      obtain ⟨found, hfind, ⟨⟩⟩ := ok_of_wrapped h
      obtain ⟨cutoff, -, hanswer⟩ := (Ledger.findIncompleteOlderThan_cases hfind).2 _ rfl
      exact Store.mem_pending_of_findIncompleteUpTo hanswer hr
  | findIncompleteByFingerprint fingerprint handlerId =>
      obtain ⟨found, hfind, ⟨⟩⟩ := ok_of_wrapped h
      have hanswer := (Ledger.findIncompleteByFingerprint_cases hfind).2 _ rfl
      exact Store.mem_pending_of_findIncompleteByFingerprint hanswer hr
  | _ =>
      obtain ⟨_, -, hanswer⟩ := ok_of_wrapped h
      cases hanswer

theorem Effect.settled {s s' : Store} {clock : Clock} {c : StoreCall}
    {r : Except Fault StoreAnswer} {id : RecordId} (h : Effect s clock c r s')
    (hs : s.Settled id)
    (hnew : ∀ batch, c = .insert batch → r = .ok .stored → id ∈ batch.map (·.id) → id ∈ s.ids) :
    s'.Settled id := by
  cases h with
  | failed => exact hs
  | answered => exact hs
  | accepted => exact hs
  | declined => exact hs
  | @inserted batch _ hrecords _ _ hfresh =>
      intro x hx hid
      rw [hrecords] at hx
      rcases List.mem_append.mp hx with hold | hadded
      · exact hs x hold hid
      · obtain ⟨given, hgiven, rfl⟩ := List.mem_map.mp hadded
        obtain rfl : given.id = id := hid
        exact absurd (hnew batch rfl rfl (List.mem_map_of_mem hgiven)) (hfresh given hgiven)
  | completed _ hrecords =>
      intro x hx hid
      rw [hrecords] at hx
      obtain ⟨old, hold, rfl⟩ := List.mem_map.mp hx
      split at hid
      · rw [if_pos ‹_›]
        obtain ⟨t, ht⟩ : ∃ t, s.stamp clock.now old = { old with completedAt := some t } :=
          Store.stamp_eq
        rw [ht, PublicationRecord.isPending_iff]
        exact Option.some_ne_none t
      · rw [if_neg ‹_›]
        exact hs old hold hid
  | deleted _ hrecords =>
      intro x hx hid
      rw [hrecords] at hx
      exact hs x (List.mem_filter.mp hx).1 hid

end StoreCall

/-- On the way from one node to the other, a record was inserted under an identifier that nothing
was stored under at that time. -/
def History.Renews (id : RecordId) (p : Node) (es : List StoreEvent) (z : Node) : Prop :=
  ∃ m batch n before after, History (fun _ => True) p before m ∧ id ∉ m.store.ids ∧
    id ∈ batch.map (·.id) ∧ (StoreCall.insert batch).act.outcome m = (.ok .stored, n) ∧
    History (fun _ => True) n after z ∧
    es = before ++ ⟨m.clock.now, .insert batch, .ok .stored⟩ :: after

namespace History

variable {p q z : Node} {es fs : List StoreEvent} {id : RecordId}

theorem trans {During : Node → Prop} (h : History During p es q) (k : History During q fs z) :
    History During p (es ++ fs) z := by
  induction h with
  | here => exact k
  | call h hcall _ ih => exact .call h hcall (ih k)
  | meanwhile h hstore _ ih => exact .meanwhile h hstore (ih k)

theorem of_store_eq (h : q.store = p.store) : History (fun _ => True) p [] q :=
  .meanwhile trivial h (.here trivial)

theorem settled (h : History (fun _ => True) p es z) (hp : p.store.Settled id) :
    z.store.Settled id ∨ Renews id p es z := by
  induction h with
  | here => exact .inl hp
  | @call p q z c r es _ hcall hrest ih =>
      by_cases hnew : ∀ batch, c = .insert batch → r = .ok .stored → id ∈ batch.map (·.id) →
          id ∈ p.store.ids
      · refine (ih ((StoreCall.effect_of_outcome hcall).1.settled hp hnew)).imp_right ?_
        rintro ⟨m, batch, n, before, after, hbefore, hid, hmem, hinsert, hafter, rfl⟩
        exact ⟨m, batch, n, _ :: before, after, .call trivial hcall hbefore, hid, hmem, hinsert,
          hafter, rfl⟩
      · push Not at hnew
        obtain ⟨batch, rfl, rfl, hmem, hid⟩ := hnew
        exact .inr ⟨p, batch, q, [], es, .here trivial, hid, hmem, hcall, hrest, rfl⟩
  | meanwhile _ hstore _ ih =>
      refine (ih (hstore ▸ hp)).imp_right ?_
      rintro ⟨m, batch, n, before, after, hbefore, hid, hmem, hinsert, hafter, rfl⟩
      exact ⟨m, batch, n, before, after, .meanwhile trivial hstore hbefore, hid, hmem, hinsert,
        hafter, rfl⟩

end History

/-! ### Sweeps are rows of calls -/

namespace Resubmission

open Act

variable {p q : Node}

theorem history_of_replay {record : PublicationRecord} {r : Except Fault Replay}
    (h : outcome (replay record) p = (r, q)) : ∃ es, History (fun _ => True) p es q := by
  let v : Visit := ⟨record, p⟩
  rcases hcalm : v.raised? with _ | fault
  swap
  · obtain ⟨-, rfl⟩ := Prod.mk.inj ((Visit.replay_of_raised hcalm).symm.trans h)
    exact ⟨[], .of_store_eq rfl⟩
  rcases htarget : v.target? with _ | ⟨handler, o⟩
  · obtain ⟨lines, hreplay⟩ := Visit.replay_of_no_target htarget hcalm
    obtain ⟨-, rfl⟩ := Prod.mk.inj (hreplay.symm.trans h)
    exact ⟨[], .of_store_eq rfl⟩
  · rcases hinvoke : v.invocation handler o with ⟨result, n⟩
    obtain ⟨hraised, hreturned⟩ := Visit.replay_of_target htarget hinvoke
    have hstore : n.store = p.store := by
      obtain ⟨clock, reacted, rfl⟩ := Dispatch.invoke_frame hinvoke
      rfl
    cases result with
    | error fault =>
        obtain ⟨lines, hreplay⟩ := hraised fault rfl
        obtain ⟨-, rfl⟩ := Prod.mk.inj (hreplay.symm.trans h)
        exact ⟨[], .of_store_eq hstore⟩
    | ok _ =>
        obtain ⟨lines, hconfirm⟩ := Visit.confirm_cases record n
        obtain ⟨-, rfl⟩ := Prod.mk.inj (hconfirm.symm.trans ((hreturned rfl).symm.trans h))
        have hcall : (StoreCall.complete record.id).act.outcome n =
            ((outcome (Ledger.complete record.id) n).1.map .won,
              (outcome (Ledger.complete record.id) n).2) := by
          rw [StoreCall.act, outcome_bind]
          rcases outcome (Ledger.complete record.id) n with ⟨fault | won, m⟩ <;> rfl
        exact ⟨_, .meanwhile trivial hstore (.call trivial hcall (.of_store_eq rfl))⟩

theorem history_of_replayFrom {predicate : Predicate} {report : Report}
    {records : List PublicationRecord} {r : Except Fault Report}
    (h : outcome (replayFrom predicate report records) p = (r, q)) :
    ∃ es, History (fun _ => True) p es q := by
  induction records generalizing p report with
  | nil =>
      obtain ⟨-, rfl⟩ := Prod.mk.inj h
      exact ⟨[], .here trivial⟩
  | cons record rest ih =>
      rw [replayFrom] at h
      rcases cases_of_outcome_bind h with ⟨fault, hlift, -⟩ | ⟨selected, m, hlift, h⟩
      · obtain ⟨-, rfl⟩ := Prod.mk.inj hlift
        exact ⟨[], .here trivial⟩
      obtain ⟨-, rfl⟩ := Prod.mk.inj hlift
      split at h
      · rcases cases_of_outcome_bind h with ⟨fault, hreplay, -⟩ | ⟨replay, m, hreplay, h⟩
        · exact history_of_replay hreplay
        · obtain ⟨es, hes⟩ := history_of_replay hreplay
          obtain ⟨fs, hfs⟩ := ih h
          exact ⟨es ++ fs, hes.trans hfs⟩
      · exact ih h

theorem history_of_replayAll {predicate : Predicate} {records : List PublicationRecord}
    {r : Except Fault Report} (h : outcome (replayAll records predicate) p = (r, q)) :
    ∃ es, History (fun _ => True) p es q := by
  unfold replayAll at h
  rcases cases_of_outcome_bind h with ⟨fault, hreplay, -⟩ | ⟨report, m, hreplay, h⟩
  · exact history_of_replayFrom hreplay
  · obtain ⟨es, hes⟩ := history_of_replayFrom hreplay
    refine ⟨es ++ [], hes.trans ?_⟩
    split at h <;> obtain ⟨-, rfl⟩ := Prod.mk.inj h
    · exact .here trivial
    · exact .of_store_eq rfl

/-- A sweep, restricted by age or not, is a row of calls, even if it breaks off. -/
theorem history_of_resubmit {predicate : Predicate} {r : Except Fault Report}
    (h : outcome (resubmit predicate) p = (r, q)) : ∃ es, History (fun _ => True) p es q := by
  rcases cases_of_outcome_bind h with ⟨fault, hfind, -⟩ | ⟨records, m, hfind, h⟩
  · exact ⟨[], .of_store_eq (Ledger.findIncomplete_cases hfind).1.store⟩
  · obtain ⟨es, hes⟩ := history_of_replayAll h
    exact ⟨es, .meanwhile trivial (Ledger.findIncomplete_cases hfind).1.store hes⟩

theorem history_of_resubmitOlderThan {age : Duration} {predicate : Predicate}
    {r : Except Fault Report} (h : outcome (resubmitOlderThan age predicate) p = (r, q)) :
    ∃ es, History (fun _ => True) p es q := by
  rcases cases_of_outcome_bind h with ⟨fault, hfind, -⟩ | ⟨records, m, hfind, h⟩
  · exact ⟨[], .of_store_eq (Ledger.findIncompleteOlderThan_cases hfind).1.store⟩
  · obtain ⟨es, hes⟩ := history_of_replayAll h
    exact ⟨es, .meanwhile trivial (Ledger.findIncompleteOlderThan_cases hfind).1.store hes⟩

end Resubmission

/-! ### Every reachable store -/

/-- The node `p` turns into `q` through a completion that does not fail, or through a sweep that
finds a record of the identifier pending and leaves it completed. -/
inductive Node.Completes (id : RecordId) (p q : Node) : Prop where
  | call {won : Bool} (h : (Ledger.complete id).outcome p = (.ok won, q)) : Completes id p q
  | sweep {predicate : Resubmission.Predicate} {r : Except Fault Report}
      (h : (Resubmission.resubmit predicate).outcome p = (r, q))
      (hbefore : ∃ a ∈ p.store.records, a.id = id ∧ a.isPending)
      (hafter : ∃ b ∈ q.store.records, b.id = id ∧ b.isCompleted) : Completes id p q
  | sweepOlderThan {age : Duration} {predicate : Resubmission.Predicate} {r : Except Fault Report}
      (h : (Resubmission.resubmitOlderThan age predicate).outcome p = (r, q))
      (hbefore : ∃ a ∈ p.store.records, a.id = id ∧ a.isPending)
      (hafter : ∃ b ∈ q.store.records, b.id = id ∧ b.isCompleted) : Completes id p q

theorem Node.Completes.settled {p q : Node} {id : RecordId} (h : p.Completes id q)
    (hids : p.store.ids.Nodup) : q.store.Settled id := by
  -- A sweep is a row of calls, so identifiers are different after it too.
  have hswept : ∀ {es}, History (fun _ => True) p es q →
      (∃ b ∈ q.store.records, b.id = id ∧ b.isCompleted) → q.store.Settled id := by
    rintro es hrun ⟨b, hb, rfl, hcompleted⟩
    exact Store.settled_of_mem (hrun.nodup hids) hb hcompleted
  cases h with
  | call h =>
      rcases Ledger.complete_cases h with ⟨⟨fault, hfault⟩, -⟩ | ⟨-, hpq⟩
      · cases hfault
      · rw [hpq.store]
        exact Store.settled_complete hids id p.clock.now
  | sweep h _ hafter =>
      obtain ⟨es, hrun⟩ := Resubmission.history_of_resubmit h
      exact hswept hrun hafter
  | sweepOlderThan h _ hafter =>
      obtain ⟨es, hrun⟩ := Resubmission.history_of_resubmitOlderThan h
      exact hswept hrun hafter

/-- In universal time, and while no outage strikes, the look-ups of either store are views of its
pending records, the oldest first: all of them, those of some age, or those of a handler and a
fingerprint.  What was completed is never found again. -/
theorem look_ups_are_views {p q : Node} {es : List StoreEvent} (hempty : p.store.records = [])
    (hrun : History (fun _ => True) p es q) (hutc : ∀ e ∈ es, e.IsUtc) (hcalm : q.Calm)
    (hclock : q.clock.now.isUtc) :
    ∃ found, Ledger.findIncomplete.outcome q = (.ok found, q) ∧
      found.Perm (q.store.records.filter (·.isPending)) ∧ (found.map (·.id)).Nodup ∧
      found.Pairwise (fun a b => a.publishedAt.key ≤ b.publishedAt.key) ∧
      (∀ age cutoff, q.clock.cutoff age = .ok cutoff →
        (Ledger.findIncompleteOlderThan age).outcome q =
          (.ok (found.filter fun r => r.publishedAt.key ≤ q.clock.now.key - age.micros), q)) ∧
      (∀ fingerprint handlerId,
        (Ledger.findIncompleteByFingerprint fingerprint handlerId).outcome q =
          (.ok (found.filter fun r =>
            r.handlerId == handlerId && r.payload.fingerprint == fingerprint), q)) ∧
      (∀ x y xs ys, x.micros ≤ y.micros →
        (Ledger.findIncompleteOlderThan x).outcome q = (.ok xs, q) →
        (Ledger.findIncompleteOlderThan y).outcome q = (.ok ys, q) → ys.Sublist xs) ∧
      ∀ id m fs z, q.Completes id m → History (fun _ => True) m fs z →
        ¬ History.Renews id m fs z →
        ∀ (c : StoreCall) rs n, c.act.outcome z = (.ok (.found rs), n) → ∀ r ∈ rs, r.id ≠ id := by
  have horderly : q.store.Orderly := hrun.orderly hutc (Store.orderly_of_empty hempty)
  have hage : ∀ age cutoff, q.clock.cutoff age = .ok cutoff →
      (Ledger.findIncompleteOlderThan age).outcome q =
        (.ok (q.store.backlog.filter fun r =>
          r.publishedAt.key ≤ q.clock.now.key - age.micros), q) := by
    intro age cutoff hcutoff
    have hutc' : cutoff.isUtc := Instant.isUtc_of_cutoff hcutoff hclock
    rw [Ledger.outcome_findIncompleteOlderThan_of_calm hcalm, hcutoff]
    refine congrArg (·, q) ((Store.findIncompleteUpTo_eq_backlog horderly.aware
      (Instant.isAware_of_isUtc hutc')).trans ?_)
    rw [Store.keepInstant_of_isUtc fun _ => hutc']
    simp only [PublicationRecord.publishedUpTo, Clock.key_of_cutoff hcutoff]
  refine ⟨q.store.backlog, ?_, q.store.perm_backlog, ?_, q.store.pairwise_backlog, hage, ?_, ?_, ?_⟩
  · rw [Ledger.outcome_findIncomplete_of_calm hcalm,
      Store.findIncomplete_eq_backlog horderly.aware]
  · exact (q.store.perm_backlog.map _).nodup_iff.mpr
      (horderly.different.sublist (List.filter_sublist.map _))
  · intro fingerprint handlerId
    rw [Ledger.outcome_findIncompleteByFingerprint_of_calm hcalm,
      Store.findIncompleteByFingerprint_eq_backlog horderly.aware horderly.indexed]
  · intro x y xs ys hxy hx hy
    -- Both look-ups succeeded, so both cutoffs exist.
    obtain ⟨cutoff, hcutoff, -⟩ := (Ledger.findIncompleteOlderThan_cases hx).2 xs rfl
    obtain ⟨cutoff', hcutoff', -⟩ := (Ledger.findIncompleteOlderThan_cases hy).2 ys rfl
    obtain ⟨hxs, -⟩ := Prod.mk.inj ((hage x cutoff hcutoff).symm.trans hx)
    obtain ⟨hys, -⟩ := Prod.mk.inj ((hage y cutoff' hcutoff').symm.trans hy)
    rw [← Except.ok.inj hxs, ← Except.ok.inj hys]
    refine List.monotone_filter_right _ fun r hr => ?_
    simp only [decide_eq_true_eq] at hr ⊢
    omega
  · intro id m fs z hcompletes hlater hnew c rs n hlook r hr hid
    obtain ⟨hmem, hpending⟩ := List.mem_filter.mp (StoreCall.mem_pending_of_found hlook hr)
    rcases hlater.settled (hcompletes.settled horderly.different) with hsettled | hrenewed
    · exact hsettled r hmem hid hpending
    · exact hnew hrenewed

/-- Three records are inserted into a table and the oldest of them is completed.  Of the others,
one was published exactly at the cutoff, and it is the only one that is old enough. -/
theorem look_ups_are_views_minute :
    let p := Node.start (ModuleSpace.initial []) ⟨⟨Clock.epoch.wall + 120 * 1000000, some 0⟩⟩
      (.table .empty)
    let insert := StoreCall.insert [Resubmission.recordAfter 61 1, Resubmission.recordAfter 60 2,
      Resubmission.recordAfter 0 3]
    let complete := StoreCall.complete (RecordId.drawn 3)
    let q := complete.after (insert.after p)
    let es := [insert.event p, complete.event (insert.after p)]
    p.store.records = [] ∧ History (fun _ => True) p es q ∧ (∀ e ∈ es, e.IsUtc) ∧ q.Calm ∧
      q.clock.now.isUtc ∧
      ∃ found, Ledger.findIncomplete.outcome q = (.ok found, q) ∧
        found.map (·.id) = [RecordId.drawn 2, RecordId.drawn 1] ∧
        (Ledger.findIncompleteOlderThan ⟨60 * 1000000⟩).outcome q =
          (.ok (found.filter fun r => r.publishedAt.key ≤ q.clock.now.key - 60 * 1000000), q) ∧
        (found.filter fun r => r.publishedAt.key ≤ q.clock.now.key - 60 * 1000000).map (·.id) =
          [RecordId.drawn 2] := by
  intro p insert complete q es
  have hempty : p.store.records = [] := rfl
  have hrun : History (fun _ => True) p es q :=
    .call trivial rfl (.call trivial rfl (.here trivial))
  have hutc : ∀ e ∈ es, e.IsUtc := by
    refine List.forall_mem_cons.mpr ⟨⟨rfl, ?_⟩, List.forall_mem_singleton.mpr ⟨rfl, trivial⟩⟩
    intro r hr
    obtain rfl | rfl | rfl : r = Resubmission.recordAfter 61 1 ∨
      r = Resubmission.recordAfter 60 2 ∨ r = Resubmission.recordAfter 0 3 := by simpa using hr
    all_goals exact ⟨rfl, nofun⟩
  have hcalm : q.Calm := ⟨rfl, rfl⟩
  have hclock : q.clock.now.isUtc := rfl
  obtain ⟨found, hfound, -, -, -, hage, -⟩ := look_ups_are_views hempty hrun hutc hcalm hclock
  have hrecords : found = [Resubmission.recordAfter 60 2, Resubmission.recordAfter 61 1] := by
    have heval : (Ledger.findIncomplete.outcome q).1 =
        .ok [Resubmission.recordAfter 60 2, Resubmission.recordAfter 61 1] := rfl
    rw [hfound] at heval
    exact Except.ok.inj heval
  refine ⟨hempty, hrun, hutc, hcalm, hclock, found, hfound, ?_, hage _ _ rfl, ?_⟩
  · rw [hrecords]
    rfl
  · rw [hrecords]
    rfl

end DeliveryLedger
