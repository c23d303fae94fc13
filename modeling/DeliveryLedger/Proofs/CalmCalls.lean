import DeliveryLedger.Proofs.Calls
/-!
Calls on a calm node, one on which no outage strikes: each gets exactly the answer of the
store.
-/

namespace DeliveryLedger

/-- Neither a store operation nor a connection of the node is going to fail. -/
structure Node.Calm (p : Node) : Prop where
  outages : p.outages = []
  databaseOutage : p.databaseOutage = none

namespace Store

/-- What a store answers to a call when nothing fails on the way, and the store after it. -/
def answer (s : Store) (clock : Clock) : StoreCall → Except Fault (StoreAnswer × Store)
  | .insert batch => (s.insertSeeing .clear .clear batch).map fun x => (.stored, x.2)
  | .get id => .ok (.record? (s.get? id), s)
  | .complete id =>
    .ok (.won (s.complete id clock.now).1.won, (s.complete id clock.now).2)
  | .findIncomplete => s.findIncomplete.map fun rs => (.found rs, s)
  | .findIncompleteOlderThan age =>
    (clock.cutoff age >>= s.findIncompleteUpTo).map fun rs => (.found rs, s)
  | .findIncompleteByFingerprint fingerprint handlerId =>
    (s.findIncompleteByFingerprint fingerprint handlerId).map fun rs => (.found rs, s)
  | .deleteCompletedOlderThan age =>
    (clock.cutoff age >>= s.deleteCompletedUpTo).map fun x => (.deleted x.1, x.2)

/-- The store after an operation that may fail: a fault leaves it as it was. -/
def next {α : Type} (s : Store) : Except Fault (α × Store) → Store
  | .ok (_, s') => s'
  | .error _ => s

end Store

/-! ### A calm node -/

namespace Ledger

open Act

variable {p : Node}

theorem outcome_passOutages_of_calm (h : p.Calm) (method : StoreMethod)
    (handlers : List String) : outcome (passOutages method handlers) p = (.ok (), p) :=
  outcome_passOutages_of_other (by simp [h.outages]) handlers

theorem outcome_connect_of_calm (h : p.Calm) : outcome connect p = (.ok none, p) := by
  unfold connect
  rw [outcome_bind_of_ok (outcome_get p), h.databaseOutage]
  cases p.store <;> rfl

theorem outcome_connectOr_of_calm (h : p.Calm) (fault : String → Fault) :
    outcome (connectOr fault) p = (.ok (), p) := by
  unfold connectOr
  rw [outcome_bind_of_ok (outcome_connect_of_calm h)]
  rfl

theorem outcome_sightOver_of_calm (h : p.Calm) (s : Sight) :
    outcome (sightOver s) p = (.ok s, p) := by
  unfold sightOver
  rw [outcome_bind_of_ok (outcome_connect_of_calm h)]
  rfl

theorem outcome_write {σ : Type} (answer : Except Fault (Insertion × σ)) (wrap : σ → Store)
    (size : Nat) (p : Node) :
    ∃ log, outcome (write answer wrap size) p =
      (answer.map fun _ => (),
        { p with
          store := p.store.next (answer.map fun x => (x.1, wrap x.2))
          log := log }) := by
  rcases answer with fault | ⟨how, s⟩
  · exact ⟨p.log, rfl⟩
  · cases how <;> exact ⟨_, rfl⟩

theorem outcome_insert_of_calm (h : p.Calm) (batch : List PublicationRecord) :
    ∃ log, outcome (insert batch) p =
      ((p.store.insertSeeing .clear .clear batch).map fun _ => (),
        { p with
          store := p.store.next (p.store.insertSeeing .clear .clear batch)
          log := log }) := by
  unfold insert insertSeeing
  rw [outcome_bind_of_ok (outcome_passOutages_of_calm h _ _),
    outcome_bind_of_ok (outcome_get p)]
  cases hs : p.store with
  | memory m =>
      obtain ⟨log, hlog⟩ := outcome_write (m.insert batch) .memory batch.length p
      refine ⟨log, hlog.trans ?_⟩
      rw [hs, Store.insertSeeing]
      cases m.insert batch <;> rfl
  | table t =>
      dsimp only
      split
      · rename_i hbatch
        refine ⟨p.log, ?_⟩
        simp only [hbatch, Store.insertSeeing, Table.insertSeeing, if_true, Except.map, Store.next]
        rw [← hs, outcome_pure]
      · have hwrite : ∀ first again, first = .clear → again = .clear →
            ∃ log, outcome (write (t.insertSeeing first again batch) .table batch.length) p =
              (((Store.table t).insertSeeing .clear .clear batch).map fun _ => (),
                { p with
                  store := (Store.table t).next
                    ((Store.table t).insertSeeing .clear .clear batch)
                  log := log }) := by
          rintro _ _ rfl rfl
          obtain ⟨log, hlog⟩ := outcome_write (t.insertSeeing .clear .clear batch) .table
            batch.length p
          refine ⟨log, hlog.trans ?_⟩
          rw [hs, Store.insertSeeing]
          cases t.insertSeeing .clear .clear batch <;> rfl
        rw [outcome_bind_of_ok (outcome_sightOver_of_calm h _)]
        split
        · rw [outcome_bind_of_ok (outcome_sightOver_of_calm h _)]
          exact hwrite _ _ rfl rfl
        · rw [outcome_bind_of_ok (outcome_pure _ _)]
          exact hwrite _ _ rfl rfl

theorem outcome_complete_of_calm (h : p.Calm) (id : RecordId) :
    ∃ log, outcome (complete id) p =
      (.ok (p.store.complete id p.clock.now).1.won,
        { p with store := (p.store.complete id p.clock.now).2, log := log }) := by
  unfold complete
  rw [outcome_bind_of_ok (outcome_handlerOf id p),
    outcome_bind_of_ok (outcome_passOutages_of_calm h _ _), outcome_bind_of_ok (outcome_get p),
    outcome_bind_of_ok (outcome_connectOr_of_calm h _), outcome_bind_of_ok (outcome_get p)]
  cases hs : p.store with
  | memory m =>
      simp only [Store.complete]
      cases (m.complete id p.clock.now).1 <;> exact ⟨_, rfl⟩
  | table t =>
      simp only [Store.complete]
      cases (t.complete id p.clock.now).1 <;> exact ⟨_, rfl⟩

theorem outcome_deleteCompletedOlderThan_of_calm (h : p.Calm) (age : Duration) :
    outcome (deleteCompletedOlderThan age) p =
      ((p.clock.cutoff age >>= p.store.deleteCompletedUpTo).map (·.1),
        { p with store := p.store.next (p.clock.cutoff age >>= p.store.deleteCompletedUpTo) }) := by
  unfold deleteCompletedOlderThan
  rw [outcome_bind_of_ok (outcome_passOutages_of_calm h _ _), outcome_bind_of_ok (outcome_get p)]
  rcases p.clock.cutoff age with fault | cutoff
  · rfl
  · rw [outcome_bind_of_ok (outcome_lift _ _), outcome_bind_of_ok (outcome_connectOr_of_calm h _),
      outcome_bind_of_ok (outcome_get p)]
    cases hs : p.store with
    | memory m =>
        simp only [bind, Except.bind, Store.deleteCompletedUpTo]
        cases m.deleteCompletedUpTo cutoff with
        | error fault =>
            simp only [Except.map, Store.next]
            rw [← hs]
            rfl
        | ok x => rfl
    | table t => rfl

theorem outcome_look_of_calm {α : Type} (answer : Store → Except Fault α)
    {ofMemory : Memory → Except Fault α} {ofTable : Table → α} {fault : String → Fault}
    (hmemory : ∀ m, answer (.memory m) = ofMemory m)
    (htable : ∀ t, answer (.table t) = .ok (ofTable t)) (h : p.Calm) :
    outcome (do
      connectOr fault
      match (← get).store with
      | .memory m => Act.lift (ofMemory m)
      | .table t => pure (ofTable t)) p = (answer p.store, p) := by
  rw [outcome_bind_of_ok (outcome_connectOr_of_calm h _), outcome_bind_of_ok (outcome_get p)]
  cases p.store with
  | memory m => simp only [hmemory, outcome_lift]
  | table t => simp only [htable, outcome_pure]

theorem outcome_get?_of_calm (h : p.Calm) (id : RecordId) :
    outcome (get? id) p = (.ok (p.store.get? id), p) := by
  unfold get?
  rw [outcome_bind_of_ok (outcome_handlerOf id p),
    outcome_bind_of_ok (outcome_passOutages_of_calm h _ _),
    outcome_bind_of_ok (outcome_connectOr_of_calm h _)]
  rfl

theorem outcome_findIncomplete_of_calm (h : p.Calm) :
    outcome findIncomplete p = (p.store.findIncomplete, p) := by
  unfold findIncomplete
  rw [outcome_bind_of_ok (outcome_passOutages_of_calm h _ _)]
  exact outcome_look_of_calm Store.findIncomplete (fun _ => rfl) (fun _ => rfl) h

theorem outcome_findIncompleteOlderThan_of_calm (h : p.Calm) (age : Duration) :
    outcome (findIncompleteOlderThan age) p =
      (p.clock.cutoff age >>= p.store.findIncompleteUpTo, p) := by
  unfold findIncompleteOlderThan
  rw [outcome_bind_of_ok (outcome_passOutages_of_calm h _ _), outcome_bind_of_ok (outcome_get p)]
  rcases p.clock.cutoff age with fault | cutoff
  · rfl
  · rw [outcome_bind_of_ok (outcome_lift _ _)]
    exact outcome_look_of_calm (·.findIncompleteUpTo cutoff) (fun _ => rfl) (fun _ => rfl) h

theorem outcome_findIncompleteByFingerprint_of_calm (h : p.Calm)
    (fingerprint handlerId : String) :
    outcome (findIncompleteByFingerprint fingerprint handlerId) p =
      (p.store.findIncompleteByFingerprint fingerprint handlerId, p) := by
  unfold findIncompleteByFingerprint
  rw [outcome_bind_of_ok (outcome_passOutages_of_calm h _ _)]
  exact outcome_look_of_calm (·.findIncompleteByFingerprint fingerprint handlerId)
    (fun _ => rfl) (fun _ => rfl) h

end Ledger

/-- On a calm node, a call gets the answer of the store, and nothing but the store and the log
changes. -/
theorem StoreCall.outcome_of_calm {p : Node} (h : p.Calm) (c : StoreCall) :
    ∃ log, c.act.outcome p =
      ((p.store.answer p.clock c).map (·.1),
        { p with store := p.store.next (p.store.answer p.clock c), log := log }) := by
  cases c with
  | insert batch =>
      obtain ⟨log, hlog⟩ := Ledger.outcome_insert_of_calm h batch
      refine ⟨log, ?_⟩
      rw [act, Act.outcome_bind, hlog, Store.answer]
      cases p.store.insertSeeing .clear .clear batch <;> rfl
  | get id =>
      refine ⟨p.log, ?_⟩
      rw [act, Act.outcome_bind_of_ok (Ledger.outcome_get?_of_calm h id)]
      rfl
  | complete id =>
      obtain ⟨log, hlog⟩ := Ledger.outcome_complete_of_calm h id
      refine ⟨log, ?_⟩
      rw [act, Act.outcome_bind_of_ok hlog]
      rfl
  | findIncomplete =>
      refine ⟨p.log, ?_⟩
      rw [act, Act.outcome_bind, Ledger.outcome_findIncomplete_of_calm h, Store.answer]
      cases p.store.findIncomplete <;> rfl
  | findIncompleteOlderThan age =>
      refine ⟨p.log, ?_⟩
      rw [act, Act.outcome_bind, Ledger.outcome_findIncompleteOlderThan_of_calm h, Store.answer]
      cases p.clock.cutoff age >>= p.store.findIncompleteUpTo <;> rfl
  | findIncompleteByFingerprint fingerprint handlerId =>
      refine ⟨p.log, ?_⟩
      rw [act, Act.outcome_bind, Ledger.outcome_findIncompleteByFingerprint_of_calm h,
        Store.answer]
      cases p.store.findIncompleteByFingerprint fingerprint handlerId <;> rfl
  | deleteCompletedOlderThan age =>
      refine ⟨p.log, ?_⟩
      rw [act, Act.outcome_bind, Ledger.outcome_deleteCompletedOlderThan_of_calm h, Store.answer]
      cases p.clock.cutoff age >>= p.store.deleteCompletedUpTo <;> rfl

end DeliveryLedger
