import DeliveryLedger.Proofs.Operations
/-!
Calls of a record store one after the other, and what each of them can do.

`Effect` lists the effects that a call can have on a store, and `effect_of_outcome` says that
there are no others.  A `History` is a row of calls; between two calls everything but the store
may change: the clock is set, outages come and go.
-/

namespace DeliveryLedger

inductive StoreCall where
  | insert (batch : List PublicationRecord)
  | get (id : RecordId)
  | complete (id : RecordId)
  | findIncomplete
  | findIncompleteOlderThan (age : Duration)
  | findIncompleteByFingerprint (fingerprint handlerId : String)
  | deleteCompletedOlderThan (age : Duration)
deriving DecidableEq, Repr

inductive StoreAnswer where
  | stored
  | record? (r : Option PublicationRecord)
  | won (b : Bool)
  | found (rs : List PublicationRecord)
  | deleted (count : Nat)
deriving DecidableEq, Repr

namespace StoreCall

open Act

/-- The operation of the ledger that a call stands for. -/
def act : StoreCall → Act StoreAnswer
  | .insert batch => do
    Ledger.insert batch
    pure .stored
  | .get id => do
    let r ← Ledger.get? id
    pure (.record? r)
  | .complete id => do
    let b ← Ledger.complete id
    pure (.won b)
  | .findIncomplete => do
    let rs ← Ledger.findIncomplete
    pure (.found rs)
  | .findIncompleteOlderThan age => do
    let rs ← Ledger.findIncompleteOlderThan age
    pure (.found rs)
  | .findIncompleteByFingerprint fingerprint handlerId => do
    let rs ← Ledger.findIncompleteByFingerprint fingerprint handlerId
    pure (.found rs)
  | .deleteCompletedOlderThan age => do
    let count ← Ledger.deleteCompletedOlderThan age
    pure (.deleted count)

/-- The calls that only look. -/
def isQuery : StoreCall → Bool
  | .insert _ | .complete _ | .deleteCompletedOlderThan _ => false
  | _ => true

/-- All that a call can do to the store `s` at a reading of the clock, by its answer. -/
inductive Effect (s : Store) (clock : Clock) :
    StoreCall → Except Fault StoreAnswer → Store → Prop where
  | failed (c : StoreCall) (fault : Fault) : Effect s clock c (.error fault) s
  | answered {c : StoreCall} (a : StoreAnswer) (hquery : c.isQuery) : Effect s clock c (.ok a) s
  /-- The batch was stored before. -/
  | accepted {batch : List PublicationRecord}
      (hstored : ∀ r ∈ batch, ∃ x ∈ s.records, x.id = r.id) :
      Effect s clock (.insert batch) (.ok .stored) s
  | inserted {batch : List PublicationRecord} {s' : Store}
      (hrecords : s'.records = s.records ++ batch.map s.keep) (hkind : s'.isTable = s.isTable)
      (hnodup : (batch.map (·.id)).Nodup)
      (hfresh : ∀ r ∈ batch, r.id ∉ s.records.map (·.id)) :
      Effect s clock (.insert batch) (.ok .stored) s'
  | declined (id : RecordId) : Effect s clock (.complete id) (.ok (.won false)) s
  | completed {id : RecordId} {s' : Store} (hpending : ∃ r, s.get? id = some r ∧ r.isPending)
      (hrecords : s'.records =
        s.records.map fun r => if r.id = id then s.stamp clock.now r else r)
      (hkind : s'.isTable = s.isTable) :
      Effect s clock (.complete id) (.ok (.won true)) s'
  | deleted {age : Duration} {cutoff : Instant} {s' : Store}
      (hcutoff : clock.cutoff age = .ok cutoff)
      (hrecords : s'.records =
        s.records.filter fun r => !r.completedUpTo (s.keepInstant cutoff))
      (hkind : s'.isTable = s.isTable) :
      Effect s clock (.deleteCompletedOlderThan age)
        (.ok (.deleted (s.records.filter (·.completedUpTo (s.keepInstant cutoff))).length)) s'

theorem effect_of_query {c : StoreCall} {α : Type} {x : Act α} {wrap : α → StoreAnswer}
    {p q : Node} {r : Except Fault StoreAnswer} (hquery : c.isQuery)
    (hx : ∀ m r', outcome x p = (r', m) → p.Becomes p.store m)
    (h : outcome (x >>= fun a => pure (wrap a)) p = (r, q)) :
    Effect p.store p.clock c r q.store ∧ p.Becomes q.store q := by
  rcases cases_of_outcome_bind h with ⟨fault, hfault, rfl⟩ | ⟨a, m, ha, hm⟩
  · have hpq := hx _ _ hfault
    exact ⟨hpq.store ▸ .failed c fault, hpq.store ▸ hpq⟩
  · obtain ⟨rfl, rfl⟩ := Prod.mk.inj hm
    have hpq := hx _ _ ha
    exact ⟨hpq.store ▸ .answered _ hquery, hpq.store ▸ hpq⟩

/-- Every outcome of a call is one of the listed effects. -/
theorem effect_of_outcome {c : StoreCall} {p q : Node} {r : Except Fault StoreAnswer}
    (h : outcome c.act p = (r, q)) :
    Effect p.store p.clock c r q.store ∧ p.Becomes q.store q := by
  cases c with
  | insert batch =>
      rcases cases_of_outcome_bind h with ⟨fault, hinsert, rfl⟩ | ⟨_, m, hinsert, hm⟩
      · rcases Ledger.insertSeeing_cases hinsert with ⟨-, hpq⟩ | ⟨hok, -⟩
        · exact ⟨hpq.store ▸ .failed _ fault, hpq.store ▸ hpq⟩
        · simp at hok
      · obtain ⟨rfl, rfl⟩ := Prod.mk.inj hm
        rcases Ledger.insertSeeing_cases hinsert with
          ⟨⟨fault, hfault⟩, -⟩ | ⟨-, first, again, how, s', hstore, hpq⟩
        · simp at hfault
        · refine ⟨?_, hpq.store ▸ hpq⟩
          rw [hpq.store]
          rcases Store.insertSeeing_ok hstore with
            ⟨rfl, hstored⟩ | ⟨hrecords, hkind, hnodup, hfresh⟩
          · exact .accepted hstored
          · exact .inserted hrecords hkind hnodup hfresh
  | get id => exact effect_of_query rfl (fun _ _ hx => (Ledger.get?_cases hx).1) h
  | complete id =>
      rcases cases_of_outcome_bind h with ⟨fault, hcomplete, rfl⟩ | ⟨b, m, hcomplete, hm⟩
      · rcases Ledger.complete_cases hcomplete with ⟨-, hpq⟩ | ⟨hok, -⟩
        · exact ⟨hpq.store ▸ .failed _ fault, hpq.store ▸ hpq⟩
        · simp at hok
      · obtain ⟨rfl, rfl⟩ := Prod.mk.inj hm
        rcases Ledger.complete_cases hcomplete with ⟨⟨fault, hfault⟩, -⟩ | ⟨hb, hpq⟩
        · simp at hfault
        · refine ⟨?_, hpq.store ▸ hpq⟩
          obtain rfl := Except.ok.inj hb
          rw [hpq.store]
          rcases Store.complete_cases p.store id p.clock.now with
            ⟨hlost, hsame⟩ | ⟨hwon, hkind, hpending, hrecords⟩
          · rw [hsame]
            have hfalse : (p.store.complete id p.clock.now).1.won = false := by
              cases hhow : (p.store.complete id p.clock.now).1 <;> simp_all [Completion.won]
            rw [hfalse]
            exact .declined id
          · rw [hwon]
            exact .completed hpending hrecords hkind
  | findIncomplete =>
      exact effect_of_query rfl (fun _ _ hx => (Ledger.findIncomplete_cases hx).1) h
  | findIncompleteOlderThan age =>
      exact effect_of_query rfl (fun _ _ hx => (Ledger.findIncompleteOlderThan_cases hx).1) h
  | findIncompleteByFingerprint fingerprint handlerId =>
      exact effect_of_query rfl
        (fun _ _ hx => (Ledger.findIncompleteByFingerprint_cases hx).1) h
  | deleteCompletedOlderThan age =>
      rcases cases_of_outcome_bind h with ⟨fault, hdelete, rfl⟩ | ⟨count, m, hdelete, hm⟩
      · rcases Ledger.deleteCompletedOlderThan_cases hdelete with
          ⟨-, hpq⟩ | ⟨_, _, _, -, -, hok, -⟩
        · exact ⟨hpq.store ▸ .failed _ fault, hpq.store ▸ hpq⟩
        · simp at hok
      · obtain ⟨rfl, rfl⟩ := Prod.mk.inj hm
        rcases Ledger.deleteCompletedOlderThan_cases hdelete with
          ⟨⟨fault, hfault⟩, -⟩ | ⟨cutoff, count', s', hcutoff, hstore, hcount, hpq⟩
        · simp at hfault
        · obtain rfl := Except.ok.inj hcount
          obtain ⟨hkind, hrecords, rfl⟩ := Store.deleteCompletedUpTo_ok hstore
          refine ⟨?_, hpq.store ▸ hpq⟩
          rw [hpq.store]
          exact .deleted hcutoff hrecords hkind

end StoreCall

/-- A call that was made: the reading of the clock, the call and its answer. -/
structure StoreEvent where
  now : Instant
  call : StoreCall
  answer : Except Fault StoreAnswer

/-- The call completed the record of an identifier. -/
def StoreEvent.Completes (e : StoreEvent) (id : RecordId) : Prop :=
  e.call = .complete id ∧ e.answer = .ok (.won true)

/-- A row of calls that leads from one node to another, such that `During` holds of every node
on the way. -/
inductive History (During : Node → Prop) : Node → List StoreEvent → Node → Prop where
  | here {p : Node} (h : During p) : History During p [] p
  | call {p q z : Node} {c : StoreCall} {r : Except Fault StoreAnswer} {es : List StoreEvent}
      (h : During p) (hcall : c.act.outcome p = (r, q)) (rest : History During q es z) :
      History During p (⟨p.clock.now, c, r⟩ :: es) z
  /-- Everything but the store may change. -/
  | meanwhile {p q z : Node} {es : List StoreEvent} (h : During p) (hstore : q.store = p.store)
      (rest : History During q es z) : History During p es z

end DeliveryLedger
