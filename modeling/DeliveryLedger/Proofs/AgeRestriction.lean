import DeliveryLedger.Proofs.Interchange
import DeliveryLedger.Proofs.Sweep
/-!
Sweeps that are restricted by age.

A store looks up the pending records up to a cutoff by itself.  What it finds is what it finds
without the cutoff, filtered (`Store.findIncompleteUpTo_eq`), and to sweep over filtered records is
to sweep over all of them under a narrower predicate (`replayFrom_filter`).  So the restriction
does nothing that the predicate could not do, although handlers move the clock and complete
records between one test of the predicate and the next.
-/

namespace DeliveryLedger

theorem Instant.isAware_of_isUtc {t : Instant} (h : t.isUtc) : t.isAware := by
  rw [← Instant.eq_of_isUtc h]
  rfl

namespace PublicationRecord

/-- The record was published at a cutoff or before it. -/
def publishedUpTo (cutoff : Instant) (r : PublicationRecord) : Bool :=
  decide (r.publishedAt.key ≤ cutoff.key)

theorem notAfter_of_isAware {r : PublicationRecord} {cutoff : Instant}
    (h : r.publishedAt.isAware) (hcutoff : cutoff.isAware) :
    r.publishedAt.notAfter cutoff = .ok (r.publishedUpTo cutoff) := by
  rw [Instant.notAfter, if_pos (by simp [Instant.comparable, h, hcutoff])]
  rfl

end PublicationRecord

/-! ### The look-ups of a store -/

theorem Memory.oldestFirst_of_isAware {records : List PublicationRecord}
    (h : ∀ r ∈ records, r.publishedAt.isAware) :
    Memory.oldestFirst records =
      .ok (sortBy (fun a b => decide (a.publishedAt.key ≤ b.publishedAt.key)) records) :=
  if_pos (Instant.allComparable_of_isAware (List.forall_mem_map.mpr h))

theorem Table.select_filter (t : Table) (test : Row → Bool) (pass : PublicationRecord → Bool) :
    t.select (fun row => test row && pass row.toRecord) = (t.select test).filter pass := by
  unfold Table.select
  have hrows : t.rows.filter (fun row => test row && pass row.toRecord) =
      (t.rows.filter test).filter fun row => pass row.toRecord := by
    rw [List.filter_filter]
    exact congrArg (List.filter · t.rows) (funext fun row => Bool.and_comm _ _)
  rw [hrows, sortBy_key_filter Row.published, List.filter_map]
  rfl

theorem Store.findIncompleteUpTo_eq_of_isAware {s : Store} {cutoff : Instant}
    (haware : ∀ r ∈ s.records, r.publishedAt.isAware) (hcutoff : cutoff.isAware) :
    s.findIncompleteUpTo cutoff =
      s.findIncomplete.map (·.filter (·.publishedUpTo (s.keepInstant cutoff))) := by
  cases s with
  | memory m =>
      have hpending : ∀ r ∈ m.pending, r.publishedAt.isAware := fun r hr =>
        haware r (List.mem_filter.mp hr).1
      have hkeep : Memory.keepIf (fun r => r.publishedAt.notAfter cutoff) m.pending =
          .ok (m.pending.filter (·.publishedUpTo cutoff)) :=
        keepIf_eq_ok fun r hr => PublicationRecord.notAfter_of_isAware (hpending r hr) hcutoff
      change Memory.findIncompleteUpTo m cutoff = (Memory.findIncomplete m).map _
      rw [Memory.findIncompleteUpTo, Memory.findIncomplete, hkeep,
        Memory.oldestFirst_of_isAware hpending]
      change Memory.oldestFirst _ = _
      rw [Memory.oldestFirst_of_isAware fun r hr => hpending r (List.mem_filter.mp hr).1,
        sortBy_key_filter fun r : PublicationRecord => r.publishedAt.key]
      rfl
  | table t =>
      change Except.ok (t.findIncompleteUpTo cutoff) = .ok (t.findIncomplete.filter _)
      rw [Table.findIncomplete, ← Table.select_filter]
      refine congrArg Except.ok (congrArg t.select (funext fun row => ?_))
      rw [PublicationRecord.publishedUpTo, Row.toRecord, Instant.key_utc]
      exact congrArg (fun wall => row.isPending && decide (row.published ≤ wall))
        (Instant.key_utc cutoff.wall).symm

theorem Store.findIncompleteUpTo_eq {s : Store} {cutoff : Instant}
    (haware : ∀ r ∈ s.records, r.publishedAt.isAware) (hutc : cutoff.isUtc) :
    s.findIncompleteUpTo cutoff =
      s.findIncomplete.map (·.filter (·.publishedUpTo cutoff)) := by
  have hkept := findIncompleteUpTo_eq_of_isAware haware (Instant.isAware_of_isUtc hutc)
  rwa [keepInstant_of_isUtc fun _ => hutc] at hkept

theorem Ledger.findIncompleteOlderThan_eq {p : Node} {age : Duration} {cutoff : Instant}
    (hcutoff : p.clock.cutoff age = .ok cutoff) (hutc : p.clock.now.isUtc)
    (haware : ∀ r ∈ p.store.records, r.publishedAt.isAware)
    (hall : ∀ o ∈ p.outages, o.method ≠ .findIncomplete)
    (hold : ∀ o ∈ p.outages, o.method ≠ .findIncompleteOlderThan) :
    Act.outcome (Ledger.findIncompleteOlderThan age) p =
      ((Act.outcome Ledger.findIncomplete p).1.map (·.filter (·.publishedUpTo cutoff)),
        (Act.outcome Ledger.findIncomplete p).2) := by
  have hfound := Store.findIncompleteUpTo_eq haware (Instant.isUtc_of_cutoff hcutoff hutc)
  unfold Ledger.findIncompleteOlderThan Ledger.findIncomplete
  rw [Act.outcome_bind_of_ok (outcome_passOutages_of_other hold []),
    Act.outcome_bind_of_ok (outcome_passOutages_of_other hall []),
    Act.outcome_bind_of_ok (Act.outcome_get p), hcutoff,
    Act.outcome_bind_of_ok (Act.outcome_lift _ _)]
  rw [Act.outcome_bind, Act.outcome_bind]
  rcases hconnect : Act.outcome (connectOr Table.couldNotRead) p with ⟨fault | ⟨⟩, q⟩
  · rfl
  · have hstore : q.store = p.store := (becomes_of_connectOr hconnect).store
    dsimp only
    rw [Act.outcome_bind_of_ok (Act.outcome_get q), Act.outcome_bind_of_ok (Act.outcome_get q),
      hstore]
    cases hs : p.store with
    | memory m =>
        rw [hs] at hfound
        exact congrArg (·, q) hfound
    | table t =>
        rw [hs] at hfound
        exact congrArg (·, q) hfound

namespace Resubmission

open Act

/-- The predicate among the records published at a cutoff or before it. -/
def upTo (cutoff : Instant) (predicate : Predicate) : Predicate := fun r => do
  if ← r.publishedAt.notAfter cutoff then predicate r else pure false

/-- A sweep over filtered records is a sweep under a predicate that drops the others. -/
theorem replayFrom_filter {predicate narrow : Predicate} {pass : PublicationRecord → Bool}
    {rs : List PublicationRecord}
    (h : ∀ r ∈ rs, narrow r = if pass r then predicate r else .ok false) (report : Report) :
    replayFrom predicate report (rs.filter pass) = replayFrom narrow report rs := by
  induction rs generalizing report with
  | nil => rfl
  | cons r rs ih =>
      have ih (report) := ih (fun x hx => h x (List.mem_cons_of_mem _ hx)) report
      have hr := h r List.mem_cons_self
      rw [List.filter_cons, replayFrom, hr]
      cases hpass : pass r with
      | true =>
          rw [if_pos rfl, if_pos rfl, replayFrom]
          simp only [ih]
      | false => exact ih report

theorem replayAll_filter {predicate narrow : Predicate} {pass : PublicationRecord → Bool}
    {rs : List PublicationRecord}
    (h : ∀ r ∈ rs, narrow r = if pass r then predicate r else .ok false) :
    replayAll (rs.filter pass) predicate = replayAll rs narrow := by
  rw [replayAll, replayAll, replayFrom_filter h]

theorem upTo_of_isAware {r : PublicationRecord} {cutoff : Instant} (predicate : Predicate)
    (h : r.publishedAt.isAware) (hcutoff : cutoff.isAware) :
    upTo cutoff predicate r = if r.publishedUpTo cutoff then predicate r else .ok false := by
  rw [upTo, PublicationRecord.notAfter_of_isAware h hcutoff]
  rfl

/-- A sweep among the records of some age is, in its whole outcome, a sweep among all of them
under a predicate that also asks for the cutoff, which is that of the clock at the beginning. -/
theorem restriction_is_filter {p : Node} {age : Duration} {cutoff : Instant}
    (predicate : Predicate) (hcutoff : p.clock.cutoff age = .ok cutoff)
    (hutc : p.clock.now.isUtc) (haware : ∀ r ∈ p.store.records, r.publishedAt.isAware)
    (hall : ∀ o ∈ p.outages, o.method ≠ .findIncomplete)
    (hold : ∀ o ∈ p.outages, o.method ≠ .findIncompleteOlderThan) :
    outcome (resubmitOlderThan age predicate) p =
      outcome (resubmit (upTo cutoff predicate)) p := by
  have haware' : cutoff.isAware :=
    Instant.isAware_of_isUtc (Instant.isUtc_of_cutoff hcutoff hutc)
  rw [resubmitOlderThan, resubmit, outcome_bind, outcome_bind,
    Ledger.findIncompleteOlderThan_eq hcutoff hutc haware hall hold]
  rcases hfind : outcome Ledger.findIncomplete p with ⟨fault | found, q⟩
  · rfl
  · have hfound := (Ledger.findIncomplete_cases hfind).2 found rfl
    have hnarrow : ∀ r ∈ found, upTo cutoff predicate r =
        if r.publishedUpTo cutoff then predicate r else .ok false := by
      intro r hr
      have hmem := (Store.findIncomplete_perm hfound).mem_iff.mp hr
      exact upTo_of_isAware predicate (haware r (List.mem_filter.mp hmem).1) haware'
    exact congrArg (outcome · q) (replayAll_filter hnarrow)

/-- A pending record that was published some seconds after the clock first stood still. -/
def recordAfter (seconds : Int) (n : Nat) : PublicationRecord :=
  { orderRecord n "slow" with publishedAt := ⟨Clock.epoch.wall + seconds * 1000000, some 0⟩ }

/-- A node two minutes later, whose handler takes half a minute for each record. -/
def slowNode : Node :=
  { Node.start orderSpace ⟨⟨Clock.epoch.wall + 120 * 1000000, some 0⟩⟩
      (.memory ⟨[recordAfter 61 1, recordAfter 60 2, recordAfter 0 3]⟩) with
    registry := ⟨[⟨"slow", 1, false, "Slow", some "slow"⟩], by simp⟩
    scripts := [("slow", ⟨false, fun _ => ⟨some (.int 30), none⟩⟩)] }

/-- Of three records the one published exactly at the cutoff is replayed, and the one published a
second later is not, although it is old enough before the sweep ends. -/
theorem restriction_is_filter_slow :
    let cutoff : Instant := ⟨Clock.epoch.wall + 60 * 1000000, some 0⟩
    let swept := outcome (resubmitOlderThan ⟨60 * 1000000⟩ always) slowNode
    slowNode.clock.cutoff ⟨60 * 1000000⟩ = .ok cutoff ∧
      swept = outcome (resubmit (upTo cutoff always)) slowNode ∧
      swept.1.toOption = some ⟨2, 2, 0, 0⟩ ∧
      swept.2.clock.now = ⟨Clock.epoch.wall + 180 * 1000000, some 0⟩ ∧
      (swept.2.store.records.filter (·.isPending)).map (·.id) = [RecordId.drawn 1] := by
  intro cutoff swept
  have hcutoff : slowNode.clock.cutoff ⟨60 * 1000000⟩ = .ok cutoff := rfl
  have hsame := restriction_is_filter always hcutoff rfl (by decide)
    (List.forall_mem_nil _) (List.forall_mem_nil _)
  exact ⟨hcutoff, hsame, by decide +kernel, by decide +kernel, by decide +kernel⟩

end Resubmission

end DeliveryLedger
