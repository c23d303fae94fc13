import DeliveryLedger.Proofs.Stores
/-!
The ledger's operations on a node, each with all its outcomes.

An operation either fails, and then the store is as before, or it does to the store what the
operation of the store of the same name does.
-/

namespace DeliveryLedger.Ledger

open Act

variable {p q : Node}

theorem outcome_insertionLog (size : Nat) (how : Insertion) (p : Node) :
    ∃ q, outcome (insertionLog size how) p = (.ok (), q) ∧ p.Becomes p.store q := by
  cases how
  · exact ⟨_, rfl, .refl p⟩
  · exact ⟨_, rfl, p.becomes_logged _⟩
  · exact ⟨_, rfl, p.becomes_logged _⟩

theorem outcome_completionLog (id : RecordId) (how : Completion) (p : Node) :
    ∃ q, outcome (completionLog id how) p = (.ok (), q) ∧ p.Becomes p.store q := by
  cases how <;> exact ⟨_, rfl, p.becomes_logged _⟩

theorem outcome_sightOver (s : Sight) (p : Node) :
    ∃ sight q, outcome (sightOver s) p = (.ok sight, q) ∧ p.Becomes p.store q := by
  obtain ⟨message, q, hq, hpq⟩ := outcome_connect p
  unfold sightOver
  rw [outcome_bind_of_ok hq]
  cases message <;> exact ⟨_, _, rfl, hpq⟩

/-- The answer of a store to a batch, written back with a line in the log. -/
def write {σ : Type} (answer : Except Fault (Insertion × σ)) (wrap : σ → Store) (size : Nat) :
    Act Unit := do
  let (how, s) ← Act.lift answer
  modify fun p => { p with store := wrap s }
  insertionLog size how

theorem outcome_answer {σ : Type} {answer : Except Fault (Insertion × σ)} {wrap : σ → Store}
    {size : Nat} {r : Except Fault Unit}
    (h : outcome (write answer wrap size) p = (r, q)) :
    (∃ fault, answer = .error fault ∧ r = .error fault ∧ p.Becomes p.store q) ∨
      ∃ how s, answer = .ok (how, s) ∧ r = .ok () ∧ p.Becomes (wrap s) q := by
  rcases cases_of_outcome_bind h with ⟨fault, hlift, rfl⟩ | ⟨⟨how, s⟩, m, hlift, hwrite⟩
  · obtain ⟨hanswer, rfl⟩ := Prod.mk.inj hlift
    exact .inl ⟨fault, hanswer, rfl, .refl p⟩
  · obtain ⟨rfl, rfl⟩ := Prod.mk.inj hlift
    obtain ⟨z, hz, hbecomes⟩ := outcome_insertionLog size how { p with store := wrap s }
    rw [outcome_bind_of_ok (outcome_modify _ _), hz] at hwrite
    obtain ⟨rfl, rfl⟩ := Prod.mk.inj hwrite
    exact .inr ⟨how, s, rfl, rfl, (p.becomes_store _).trans hbecomes⟩

/-- A batch is stopped by an outage, refused by the store, or stored by it. -/
theorem insertSeeing_outcomes {late : Nat} {thenFails : Option String}
    {batch : List PublicationRecord} {r : Except Fault Unit}
    (h : outcome (insertSeeing late thenFails batch) p = (r, q)) :
    (∃ o ∈ p.outages, o.method = .insert ∧ r = .error o.fault ∧ p.Becomes p.store q) ∨
      ∃ first again,
        (∃ fault, p.store.insertSeeing first again batch = .error fault ∧ r = .error fault ∧
          p.Becomes p.store q) ∨
        ∃ how s', p.store.insertSeeing first again batch = .ok (how, s') ∧ r = .ok () ∧
          p.Becomes s' q := by
  unfold insertSeeing at h
  rcases cases_of_outcome_bind h with ⟨fault, hpass, rfl⟩ | ⟨_, m, hpass, hm⟩
  · obtain ⟨o, ho, hmethod, rfl⟩ := struck_of_passOutages hpass
    exact .inl ⟨o, ho, hmethod, rfl, becomes_of_passOutages hpass⟩
  have hpm := becomes_of_passOutages hpass
  rw [outcome_bind_of_ok (outcome_get m), hpm.store] at hm
  cases hs : p.store with
  | memory mem =>
      simp only [hs] at hm
      refine .inr ⟨.clear, .clear, ?_⟩
      rcases outcome_answer hm with ⟨fault, hinsert, rfl, hmq⟩ | ⟨how, mem', hinsert, rfl, hmq⟩
      · refine .inl ⟨fault, ?_, rfl, by simpa only [hpm.store, hs] using hpm.trans hmq⟩
        simp [Store.insertSeeing, hinsert, Except.map]
      · refine .inr ⟨how, .memory mem', ?_, rfl, hpm.trans hmq⟩
        simp [Store.insertSeeing, hinsert, Except.map]
  | table t =>
      simp only [hs] at hm
      split at hm
      · rename_i hbatch
        obtain ⟨rfl, rfl⟩ := Prod.mk.inj hm
        refine .inr ⟨.clear, .clear, .inr ⟨.stored, .table t, ?_, rfl, hs ▸ hpm⟩⟩
        simp [Store.insertSeeing, Table.insertSeeing, hbatch, Except.map]
      obtain ⟨first, m₁, hfirst, hm₁⟩ := outcome_sightOver (sight late thenFails 0) m
      rw [outcome_bind_of_ok hfirst] at hm
      have hagain : ∃ again m₂, m₁.Becomes m₁.store m₂ ∧
          outcome (write (t.insertSeeing first again batch) .table batch.length) m₂ = (r, q) := by
        split at hm
        · obtain ⟨again, m₂, hsecond, hm₂⟩ := outcome_sightOver (sight late thenFails 1) m₁
          rw [outcome_bind_of_ok hsecond] at hm
          exact ⟨again, m₂, hm₂, hm⟩
        · exact ⟨.clear, m₁, .refl m₁, hm⟩
      obtain ⟨again, m₂, hm₂, hm⟩ := hagain
      have hpm₂ : p.Becomes p.store m₂ := by
        simpa only [hm₁.store, hpm.store] using (hpm.trans hm₁).trans hm₂
      refine .inr ⟨first, again, ?_⟩
      rcases outcome_answer hm with ⟨fault, hinsert, rfl, hmq⟩ | ⟨how, t', hinsert, rfl, hmq⟩
      · refine .inl ⟨fault, ?_, rfl, by simpa only [hpm₂.store, hs] using hpm₂.trans hmq⟩
        simp [Store.insertSeeing, hinsert, Except.map]
      · refine .inr ⟨how, .table t', ?_, rfl, hpm₂.trans hmq⟩
        simp [Store.insertSeeing, hinsert, Except.map]

theorem insertSeeing_cases {late : Nat} {thenFails : Option String}
    {batch : List PublicationRecord} {r : Except Fault Unit}
    (h : outcome (insertSeeing late thenFails batch) p = (r, q)) :
    ((∃ fault, r = .error fault) ∧ p.Becomes p.store q) ∨
      (r = .ok () ∧ ∃ first again how s',
        p.store.insertSeeing first again batch = .ok (how, s') ∧ p.Becomes s' q) := by
  rcases insertSeeing_outcomes h with ⟨o, -, -, rfl, hpq⟩ |
    ⟨first, again, ⟨fault, -, rfl, hpq⟩ | ⟨how, s', hinsert, rfl, hpq⟩⟩
  · exact .inl ⟨⟨o.fault, rfl⟩, hpq⟩
  · exact .inl ⟨⟨fault, rfl⟩, hpq⟩
  · exact .inr ⟨rfl, first, again, how, s', hinsert, hpq⟩

/-! ### Queries leave the store alone -/

theorem get?_cases {id : RecordId} {r : Except Fault (Option PublicationRecord)}
    (h : outcome (get? id) p = (r, q)) :
    p.Becomes p.store q ∧ ∀ found, r = .ok found → found = p.store.get? id := by
  unfold get? at h
  rw [outcome_bind_of_ok (outcome_handlerOf id p)] at h
  rcases cases_of_outcome_bind h with ⟨fault, hpass, rfl⟩ | ⟨_, m, hpass, hm⟩
  · exact ⟨becomes_of_passOutages hpass, by simp⟩
  have hpm := becomes_of_passOutages hpass
  rcases cases_of_outcome_bind hm with ⟨fault, hconnect, rfl⟩ | ⟨_, m', hconnect, hm'⟩
  · exact ⟨hpm.store ▸ hpm.trans (becomes_of_connectOr hconnect), by simp⟩
  have hpm' := hpm.store ▸ hpm.trans (becomes_of_connectOr hconnect)
  obtain ⟨rfl, rfl⟩ := Prod.mk.inj hm'
  exact ⟨hpm', by simp [hpm'.store]⟩

theorem outcome_look {α : Type} (answer : Store → Except Fault α)
    {ofMemory : Memory → Except Fault α} {ofTable : Table → α} {fault : String → Fault}
    {r : Except Fault α} (hmemory : ∀ m, answer (.memory m) = ofMemory m)
    (htable : ∀ t, answer (.table t) = .ok (ofTable t))
    (h : outcome (do
      connectOr fault
      match (← get).store with
      | .memory m => Act.lift (ofMemory m)
      | .table t => pure (ofTable t)) p = (r, q)) :
    p.Becomes p.store q ∧ ∀ a, r = .ok a → answer p.store = .ok a := by
  rcases cases_of_outcome_bind h with ⟨_, hconnect, rfl⟩ | ⟨_, m, hconnect, hm⟩
  · exact ⟨becomes_of_connectOr hconnect, by simp⟩
  have hpm := becomes_of_connectOr hconnect
  rw [outcome_bind_of_ok (outcome_get m), hpm.store] at hm
  cases hs : p.store with
  | memory mem =>
      simp only [hs] at hm
      obtain ⟨rfl, rfl⟩ := Prod.mk.inj hm
      exact ⟨hs ▸ hpm, fun a ha => by rw [hmemory, ha]⟩
  | table t =>
      simp only [hs] at hm
      obtain ⟨rfl, rfl⟩ := Prod.mk.inj hm
      exact ⟨hs ▸ hpm, fun a ha => by rw [htable, Except.ok.inj ha]⟩

theorem findIncomplete_cases {r : Except Fault (List PublicationRecord)}
    (h : outcome findIncomplete p = (r, q)) :
    p.Becomes p.store q ∧ ∀ found, r = .ok found → p.store.findIncomplete = .ok found := by
  rcases cases_of_outcome_bind h with ⟨fault, hpass, rfl⟩ | ⟨_, m, hpass, hm⟩
  · exact ⟨becomes_of_passOutages hpass, by simp⟩
  have hpm := becomes_of_passOutages hpass
  obtain ⟨hmq, hanswer⟩ := outcome_look Store.findIncomplete
    (fun _ => rfl) (fun _ => rfl) hm
  rw [hpm.store] at hmq hanswer
  exact ⟨hpm.trans hmq, hanswer⟩

theorem outcome_findIncomplete {found : List PublicationRecord}
    (hmethod : ∀ o ∈ p.outages, o.method ≠ .findIncomplete)
    (hready : outcome (connectOr Table.couldNotRead) p = (.ok (), q))
    (hstore : q.store = p.store) (hfound : p.store.findIncomplete = .ok found) :
    outcome findIncomplete p = (.ok found, q) := by
  unfold findIncomplete
  rw [outcome_bind_of_ok (outcome_passOutages_of_other hmethod []), outcome_bind_of_ok hready,
    outcome_bind_of_ok (outcome_get q), hstore]
  cases hkind : p.store with
  | memory m =>
      rw [hkind] at hfound
      have hmemory : m.findIncomplete = .ok found := hfound
      dsimp only
      rw [hmemory]
      rfl
  | table t =>
      rw [hkind] at hfound
      obtain rfl : t.findIncomplete = found := by simpa [Store.findIncomplete] using hfound
      rfl

theorem findIncompleteOlderThan_cases {age : Duration}
    {r : Except Fault (List PublicationRecord)}
    (h : outcome (findIncompleteOlderThan age) p = (r, q)) :
    p.Becomes p.store q ∧ ∀ found, r = .ok found →
      ∃ cutoff, p.clock.cutoff age = .ok cutoff ∧
        p.store.findIncompleteUpTo cutoff = .ok found := by
  rcases cases_of_outcome_bind h with ⟨fault, hpass, rfl⟩ | ⟨_, m, hpass, hm⟩
  · exact ⟨becomes_of_passOutages hpass, by simp⟩
  have hpm := becomes_of_passOutages hpass
  rw [outcome_bind_of_ok (outcome_get m), hpm.clock] at hm
  rcases cases_of_outcome_bind hm with ⟨fault, hlift, rfl⟩ | ⟨cutoff, m', hlift, hm'⟩
  · obtain ⟨-, rfl⟩ := Prod.mk.inj hlift
    exact ⟨hpm, by simp⟩
  obtain ⟨hcutoff, rfl⟩ := Prod.mk.inj hlift
  obtain ⟨hmq, hanswer⟩ := outcome_look (·.findIncompleteUpTo cutoff)
    (fun _ => rfl) (fun _ => rfl) hm'
  rw [hpm.store] at hmq hanswer
  exact ⟨hpm.trans hmq, fun found hfound => ⟨cutoff, hcutoff, hanswer found hfound⟩⟩

theorem findIncompleteByFingerprint_cases {fingerprint handlerId : String}
    {r : Except Fault (List PublicationRecord)}
    (h : outcome (findIncompleteByFingerprint fingerprint handlerId) p = (r, q)) :
    p.Becomes p.store q ∧ ∀ found, r = .ok found →
      p.store.findIncompleteByFingerprint fingerprint handlerId = .ok found := by
  rcases cases_of_outcome_bind h with ⟨fault, hpass, rfl⟩ | ⟨_, m, hpass, hm⟩
  · exact ⟨becomes_of_passOutages hpass, by simp⟩
  have hpm := becomes_of_passOutages hpass
  obtain ⟨hmq, hanswer⟩ :=
    outcome_look (·.findIncompleteByFingerprint fingerprint handlerId)
      (fun _ => rfl) (fun _ => rfl) hm
  rw [hpm.store] at hmq hanswer
  exact ⟨hpm.trans hmq, hanswer⟩

/-! ### Completion and deletion -/

theorem outcome_settle {s : Store} {id : RecordId} {how : Completion} {r : Except Fault Bool}
    (h : outcome (do
      set { p with store := s }
      let how ← pure how
      completionLog id how
      pure how.won) p = (r, q)) :
    r = .ok how.won ∧ p.Becomes s q := by
  rw [outcome_bind_of_ok (outcome_set _ _), outcome_bind_of_ok (outcome_pure _ _)] at h
  obtain ⟨z, hz, hbecomes⟩ := outcome_completionLog id how { p with store := s }
  rw [outcome_bind_of_ok hz] at h
  obtain ⟨rfl, rfl⟩ := Prod.mk.inj h
  exact ⟨rfl, (p.becomes_store s).trans hbecomes⟩

theorem complete_cases {id : RecordId} {r : Except Fault Bool}
    (h : outcome (complete id) p = (r, q)) :
    ((∃ fault, r = .error fault) ∧ p.Becomes p.store q) ∨
      (r = .ok (p.store.complete id p.clock.now).1.won ∧
        p.Becomes (p.store.complete id p.clock.now).2 q) := by
  unfold complete at h
  rw [outcome_bind_of_ok (outcome_handlerOf id p)] at h
  rcases cases_of_outcome_bind h with ⟨fault, hpass, rfl⟩ | ⟨_, m, hpass, hm⟩
  · exact .inl ⟨⟨fault, rfl⟩, becomes_of_passOutages hpass⟩
  have hpm := becomes_of_passOutages hpass
  rw [outcome_bind_of_ok (outcome_get m), hpm.clock] at hm
  rcases cases_of_outcome_bind hm with ⟨fault, hconnect, rfl⟩ | ⟨_, m', hconnect, hm'⟩
  · exact .inl ⟨⟨fault, rfl⟩, hpm.store ▸ hpm.trans (becomes_of_connectOr hconnect)⟩
  have hpm' := hpm.store ▸ hpm.trans (becomes_of_connectOr hconnect)
  rw [outcome_bind_of_ok (outcome_get m'), hpm'.store] at hm'
  cases hs : p.store with
  | memory mem =>
      simp only [hs] at hm'
      obtain ⟨rfl, hmq⟩ := outcome_settle hm'
      exact .inr ⟨rfl, hpm'.trans hmq⟩
  | table t =>
      simp only [hs] at hm'
      obtain ⟨rfl, hmq⟩ := outcome_settle hm'
      exact .inr ⟨rfl, hpm'.trans hmq⟩

theorem deleteCompletedOlderThan_cases {age : Duration} {r : Except Fault Nat}
    (h : outcome (deleteCompletedOlderThan age) p = (r, q)) :
    ((∃ fault, r = .error fault) ∧ p.Becomes p.store q) ∨
      ∃ cutoff count s', p.clock.cutoff age = .ok cutoff ∧
        p.store.deleteCompletedUpTo cutoff = .ok (count, s') ∧ r = .ok count ∧
        p.Becomes s' q := by
  rcases cases_of_outcome_bind h with ⟨fault, hpass, rfl⟩ | ⟨_, m, hpass, hm⟩
  · exact .inl ⟨⟨fault, rfl⟩, becomes_of_passOutages hpass⟩
  have hpm := becomes_of_passOutages hpass
  rw [outcome_bind_of_ok (outcome_get m), hpm.clock] at hm
  rcases cases_of_outcome_bind hm with ⟨fault, hlift, rfl⟩ | ⟨cutoff, m', hlift, hm'⟩
  · obtain ⟨-, rfl⟩ := Prod.mk.inj hlift
    exact .inl ⟨⟨fault, rfl⟩, hpm⟩
  obtain ⟨hcutoff, rfl⟩ := Prod.mk.inj hlift
  rcases cases_of_outcome_bind hm' with ⟨fault, hconnect, rfl⟩ | ⟨_, m₂, hconnect, hm₂⟩
  · exact .inl ⟨⟨fault, rfl⟩, hpm.store ▸ hpm.trans (becomes_of_connectOr hconnect)⟩
  have hpm₂ := hpm.store ▸ hpm.trans (becomes_of_connectOr hconnect)
  rw [outcome_bind_of_ok (outcome_get m₂), hpm₂.store] at hm₂
  cases hs : p.store with
  | memory mem =>
      simp only [hs] at hm₂
      rcases cases_of_outcome_bind hm₂ with ⟨fault, hlift, rfl⟩ | ⟨⟨count, mem'⟩, m₃, hlift, hm₃⟩
      · obtain ⟨-, rfl⟩ := Prod.mk.inj hlift
        exact .inl ⟨⟨fault, rfl⟩, hs ▸ hpm₂⟩
      · obtain ⟨hdelete, rfl⟩ := Prod.mk.inj hlift
        obtain ⟨rfl, rfl⟩ := Prod.mk.inj hm₃
        refine .inr ⟨cutoff, count, .memory mem', hcutoff, ?_, rfl,
          hpm₂.trans (Node.becomes_store _ _)⟩
        simp [Store.deleteCompletedUpTo, hdelete, Except.map]
  | table t =>
      simp only [hs] at hm₂
      obtain ⟨rfl, rfl⟩ := Prod.mk.inj hm₂
      exact .inr ⟨cutoff, _, _, hcutoff, rfl, rfl, hpm₂.trans (Node.becomes_store _ _)⟩

end DeliveryLedger.Ledger
