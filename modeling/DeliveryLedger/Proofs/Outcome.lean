import DeliveryLedger.Ledger
/-!
What an act of a node comes to, operation by operation.

`Act.outcome` runs an act; the equations here take a sequence of operations apart.  Most
operations of the ledger touch nothing but the store, the counts of the outages and the log;
`Node.Becomes` says so once for all of them.
-/

namespace DeliveryLedger

theorem bind_eq_ok_iff {ε α β : Type} {x : Except ε α} {f : α → Except ε β} {b : β} :
    x >>= f = .ok b ↔ ∃ a, x = .ok a ∧ f a = .ok b := by
  cases x <;> simp [bind, Except.bind]

theorem bind_eq_error_iff {ε α β : Type} {x : Except ε α} {f : α → Except ε β} {e : ε} :
    x >>= f = .error e ↔ x = .error e ∨ ∃ a, x = .ok a ∧ f a = .error e := by
  cases x <;> simp [bind, Except.bind]

theorem map_eq_ok_iff {ε α β : Type} {x : Except ε α} {f : α → β} {b : β} :
    x.map f = .ok b ↔ ∃ a, x = .ok a ∧ f a = b := by
  cases x <;> simp [Except.map]

namespace Act

variable {α β : Type}

@[simp] theorem outcome_pure (a : α) (p : Node) : outcome (pure a) p = (.ok a, p) := rfl

@[simp] theorem outcome_get (p : Node) : outcome (get : Act Node) p = (.ok p, p) := rfl

@[simp] theorem outcome_set (p q : Node) :
    outcome (set q : Act PUnit) p = (.ok ⟨⟩, q) := rfl

@[simp] theorem outcome_modify (f : Node → Node) (p : Node) :
    outcome (modify f : Act PUnit) p = (.ok ⟨⟩, f p) := rfl

@[simp] theorem outcome_throw (fault : Fault) (p : Node) :
    outcome (throw fault : Act α) p = (.error fault, p) := rfl

@[simp] theorem outcome_lift (r : Except Fault α) (p : Node) : outcome (lift r) p = (r, p) := rfl

@[simp] theorem outcome_attempt (act : Act α) (p : Node) :
    outcome (attempt act) p = (.ok (outcome act p).1, (outcome act p).2) := rfl

@[simp] theorem outcome_logged (level : Level) (text : String) (p : Node) :
    outcome (logged level text) p = (.ok (), p.logged [⟨level, text⟩]) := rfl

theorem outcome_bind (x : Act α) (f : α → Act β) (p : Node) :
    outcome (x >>= f) p =
      match outcome x p with
      | (.ok a, q) => outcome (f a) q
      | (.error fault, q) => (.error fault, q) := by
  simp only [outcome, bind, ExceptT.run, ExceptT.bind, ExceptT.mk, StateT.run, StateT.bind]
  rcases x p with ⟨fault | a, q⟩ <;> rfl

theorem outcome_bind_of_ok {x : Act α} {f : α → Act β} {p q : Node} {a : α}
    (h : outcome x p = (.ok a, q)) : outcome (x >>= f) p = outcome (f a) q := by
  rw [outcome_bind, h]

theorem cases_of_outcome_bind {x : Act α} {f : α → Act β} {p q : Node} {r : Except Fault β}
    (h : outcome (x >>= f) p = (r, q)) :
    (∃ fault, outcome x p = (.error fault, q) ∧ r = .error fault) ∨
      ∃ a m, outcome x p = (.ok a, m) ∧ outcome (f a) m = (r, q) := by
  rw [outcome_bind] at h
  rcases hx : outcome x p with ⟨fault | a, m⟩
  · rw [hx] at h
    obtain ⟨rfl, rfl⟩ := Prod.mk.inj h
    exact .inl ⟨fault, rfl, rfl⟩
  · rw [hx] at h
    exact .inr ⟨a, m, rfl, h⟩

end Act

namespace Node

/-- The node `p` turns into `q` with the store `s`.  Besides the store, only the counts of the
outages and the log have moved on. -/
structure Becomes (p : Node) (s : Store) (q : Node) : Prop where
  store : q.store = s
  space : q.space = p.space
  clock : q.clock = p.clock
  drawn : q.drawn = p.drawn
  registry : q.registry = p.registry
  scripts : q.scripts = p.scripts
  reacted : q.reacted = p.reacted
  opened : q.opened = p.opened
  journal : q.journal = p.journal
  queued : q.queued = p.queued
  paused : q.paused = p.paused
  captures : q.captures = p.captures

theorem Becomes.refl (p : Node) : p.Becomes p.store p := by
  constructor <;> rfl

theorem Becomes.trans {p q z : Node} {s t : Store} (h : p.Becomes s q) (k : q.Becomes t z) :
    p.Becomes t z where
  store := k.store
  space := k.space.trans h.space
  clock := k.clock.trans h.clock
  drawn := k.drawn.trans h.drawn
  registry := k.registry.trans h.registry
  scripts := k.scripts.trans h.scripts
  reacted := k.reacted.trans h.reacted
  opened := k.opened.trans h.opened
  journal := k.journal.trans h.journal
  queued := k.queued.trans h.queued
  paused := k.paused.trans h.paused
  captures := k.captures.trans h.captures

theorem becomes_logged (p : Node) (lines : List LogLine) : p.Becomes p.store (p.logged lines) := by
  constructor <;> rfl

theorem becomes_store (p : Node) (s : Store) : p.Becomes s { p with store := s } := by
  constructor <;> rfl

end Node

namespace Ledger

open Act

theorem becomes_of_passOutages {method : StoreMethod} {handlers : List String} {p q : Node}
    {r : Except Fault Unit} (h : outcome (passOutages method handlers) p = (r, q)) :
    p.Becomes p.store q := by
  unfold passOutages at h
  rw [outcome_bind_of_ok (outcome_get p)] at h
  split at h
  · obtain ⟨-, rfl⟩ := Prod.mk.inj h
    exact .refl p
  · rw [outcome_bind_of_ok (outcome_set _ _)] at h
    split at h <;> obtain ⟨-, rfl⟩ := Prod.mk.inj h <;> constructor <;> rfl

theorem struck_of_passOutages {method : StoreMethod} {handlers : List String} {p q : Node}
    {fault : Fault} (h : outcome (passOutages method handlers) p = (.error fault, q)) :
    ∃ o ∈ p.outages, o.method = method ∧ o.fault = fault := by
  unfold passOutages at h
  rw [outcome_bind_of_ok (outcome_get p)] at h
  split at h
  · simp at h
  · rename_i o hfind
    rw [outcome_bind_of_ok (outcome_set _ _)] at h
    have hconcerns : concerns method handlers o = true := List.find?_some hfind
    unfold concerns at hconcerns
    rw [Bool.and_eq_true, beq_iff_eq] at hconcerns
    split at h
    · obtain ⟨hfault, -⟩ := Prod.mk.inj h
      exact ⟨o, List.mem_of_find?_eq_some hfind, hconcerns.1, Except.error.inj hfault⟩
    · simp at h

theorem outcome_passOutages_of_other {method : StoreMethod} {p : Node}
    (h : ∀ o ∈ p.outages, o.method ≠ method) (handlers : List String) :
    outcome (passOutages method handlers) p = (.ok (), p) := by
  have hnone : p.outages.find? (concerns method handlers) = none := by
    rw [List.find?_eq_none]
    intro o ho
    simp [concerns, h o ho]
  unfold passOutages
  rw [outcome_bind_of_ok (outcome_get p), hnone]
  rfl

theorem outcome_connect (p : Node) :
    ∃ message q, outcome connect p = (.ok message, q) ∧ p.Becomes p.store q := by
  unfold connect
  rw [outcome_bind_of_ok (outcome_get p)]
  split
  · exact ⟨_, _, rfl, by constructor <;> rfl⟩
  · exact ⟨_, _, rfl, .refl p⟩

theorem becomes_of_connectOr {fault : String → Fault} {p q : Node} {r : Except Fault Unit}
    (h : outcome (connectOr fault) p = (r, q)) : p.Becomes p.store q := by
  obtain ⟨message, m, hm, hpm⟩ := outcome_connect p
  unfold connectOr at h
  rw [outcome_bind_of_ok hm] at h
  cases message <;> obtain ⟨-, rfl⟩ := Prod.mk.inj h <;> exact hpm

theorem outcome_handlerOf (id : RecordId) (p : Node) :
    outcome (handlerOf id) p = (.ok ((p.store.get? id).map (·.handlerId)).toList, p) := rfl

end Ledger

end DeliveryLedger
