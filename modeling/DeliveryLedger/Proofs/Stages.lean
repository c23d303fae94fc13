import DeliveryLedger.Proofs.Invocation
import Mathlib.Data.Multiset.Bind
import Mathlib.Logic.Relation
/-!
The tasks of one fan-out, advancing in any order.

Each task goes through its stages by itself (`Task.advance`), and a `Step` of the fan-out
advances any one of them.  Whatever the order, the journal holds the invocations of the tasks
that have begun, and exactly the records of the tasks at `Stage.completed` are completed
(`Progress`).
-/

namespace DeliveryLedger

open Act

/-- How far the invocation for a record has come. -/
inductive Stage where
  | waiting
  | running
  /-- The handler failed, or there was nothing to invoke. -/
  | raised
  /-- The handler returned normally, and its record is about to be completed. -/
  | returned
  | completed
  /-- The handler returned normally, but the completion failed. -/
  | unconfirmed
deriving DecidableEq

namespace Stage

def isOver : Stage → Bool
  | raised | completed | unconfirmed => true
  | waiting | running | returned => false

/-- The stage after an act, by whether it failed. -/
def next {α : Type} (ok failed : Stage) : Except Fault α × Node → Node × Stage
  | (.ok _, q) => (q, ok)
  | (.error _, q) => (q, failed)

end Stage

/-- A task taken from its stage to the next one.  Only a handler that has a body comes to be at
work, and an invocation that is over stays as it is. -/
def Task.advance (t : Task) (p : Node) : Stage → Node × Stage
  | .waiting => Stage.next .running .raised (outcome (Dispatch.announce t.handler t.occurrence) p)
  | .running => Stage.next .returned .raised (outcome (Dispatch.react (t.handler.body.getD "")) p)
  | .returned => Stage.next .completed .unconfirmed (outcome (Ledger.complete t.record) p)
  | s => (p, s)

/-- A node with the tasks of one fan-out, each at its stage. -/
structure Fanout where
  node : Node
  tasks : Multiset (Task × Stage)

namespace Fanout

inductive Step : Fanout → Fanout → Prop where
  /-- Anything that is no other delivery: the clock moves, outages come and go, lines are
  logged. -/
  | meanwhile {p q : Node} {u : Multiset (Task × Stage)} (hstore : q.store = p.store)
      (hjournal : q.journal = p.journal) : Step ⟨p, u⟩ ⟨q, u⟩
  | advance {p : Node} {u : Multiset (Task × Stage)} {t : Task} {s : Stage} :
      Step ⟨p, (t, s) ::ₘ u⟩ ⟨(t.advance p s).1, (t, (t.advance p s).2) ::ₘ u⟩

abbrev Leads : Fanout → Fanout → Prop := Relation.ReflTransGen Step

end Fanout

/-! ### What a run of steps keeps -/

/-- The invocation of a task, from the moment it has begun. -/
def Stage.entries (x : Task × Stage) : List Call :=
  if x.2 = .waiting then [] else Dispatch.entries x.1.handler x.1.occurrence

def Fanout.completedIds (u : Multiset (Task × Stage)) : Multiset RecordId :=
  (u.filter (·.2 = .completed)).map (·.1.record)

/-- Different pending records of a node wait for their tasks. -/
structure Fanout.Recorded (p : Node) (ts : Multiset Task) : Prop where
  ids : p.store.ids.Nodup
  different : (ts.map (·.record)).Nodup
  pending : ∀ t ∈ ts, ∃ r ∈ p.store.records, r.isPending ∧ r.id = t.record

/-- How far a fan-out has come since the node `p`, on which its tasks began. -/
structure Fanout.Progress (p : Node) (ts : Multiset Task) (w : Fanout) : Prop where
  tasks : w.tasks.map (·.1) = ts
  journal : ∃ calls : List Call, w.node.journal = p.journal ++ calls ∧
    (calls : Multiset Call) = w.tasks.bind fun x => (Stage.entries x : Multiset Call)
  records : ∃ (done : List RecordId) (moment : RecordId → Instant),
    w.node.store.records = Store.markAll done moment p.store.records ∧
      (done : Multiset RecordId) = completedIds w.tasks

theorem Stage.next_fst {α : Type} (ok failed : Stage) (x : Except Fault α × Node) :
    (next ok failed x).1 = x.2 := by
  rcases x with ⟨_ | _, q⟩ <;> rfl

theorem Stage.next_snd {α : Type} (ok failed : Stage) (x : Except Fault α × Node) :
    (next ok failed x).2 = if x.1.isOk then ok else failed := by
  rcases x with ⟨_ | _, q⟩ <;> rfl

theorem Stage.next_snd_ne {α : Type} {ok failed s : Stage} (hok : ok ≠ s) (hfailed : failed ≠ s)
    (x : Except Fault α × Node) : (next ok failed x).2 ≠ s := by
  rcases x with ⟨_ | _, q⟩
  · exact hfailed
  · exact hok

namespace Task

theorem advance_waiting (t : Task) (p : Node) :
    (t.advance p .waiting).1 =
      { p with journal := p.journal ++ Dispatch.entries t.handler t.occurrence } := by
  rw [advance, Stage.next_fst]
  cases hbody : t.handler.body with
  | none =>
      rw [Dispatch.announce_of_no_body hbody, Dispatch.entries_of_no_body hbody, List.append_nil]
  | some body => rw [Dispatch.announce_of_body hbody]

theorem advance_running (t : Task) (p : Node) :
    ∃ clock reacted, (t.advance p .running).1 = { p with clock := clock, reacted := reacted } := by
  rw [advance, Stage.next_fst]
  obtain ⟨clock, reacted, -, hreact⟩ := Dispatch.react_frame (p := p) rfl
  exact ⟨clock, reacted, hreact⟩

end Task

namespace Fanout

variable {p : Node} {ts : Multiset Task} {w z : Fanout}

theorem completedIds_cons (x : Task × Stage) (u : Multiset (Task × Stage)) :
    completedIds (x ::ₘ u) =
      if x.2 = .completed then x.1.record ::ₘ completedIds u else completedIds u := by
  unfold completedIds
  by_cases hx : x.2 = .completed
  · rw [Multiset.filter_cons_of_pos (p := fun x => x.2 = .completed) u hx, Multiset.map_cons,
      if_pos hx]
  · rw [Multiset.filter_cons_of_neg (p := fun x => x.2 = .completed) u hx, if_neg hx]

theorem mem_of_mem_completedIds {u : Multiset (Task × Stage)} {id : RecordId}
    (h : id ∈ completedIds u) : id ∈ (u.map (·.1)).map (·.record) := by
  obtain ⟨x, hx, rfl⟩ := Multiset.mem_map.mp h
  exact Multiset.mem_map_of_mem _ (Multiset.mem_map_of_mem _ (Multiset.mem_filter.mp hx).1)

theorem Progress.of_store_eq {q : Node} {t : Task} {s s' : Stage} {u : Multiset (Task × Stage)}
    (h : Progress p ts ⟨w.node, (t, s) ::ₘ u⟩) (hstore : q.store = w.node.store)
    (hs : s ≠ .completed) (hs' : s' ≠ .completed)
    (hjournal : ∃ calls : List Call, q.journal = w.node.journal ++ calls ∧
      Stage.entries (t, s') = Stage.entries (t, s) ++ calls) :
    Progress p ts ⟨q, (t, s') ::ₘ u⟩ where
  tasks := by simpa using h.tasks
  journal := by
    obtain ⟨old, hold, hcalls⟩ := h.journal
    obtain ⟨calls, hnew, hentries⟩ := hjournal
    refine ⟨old ++ calls, by rw [hnew, hold, List.append_assoc], ?_⟩
    rw [← Multiset.coe_add, hcalls, Multiset.cons_bind, Multiset.cons_bind, hentries,
      ← Multiset.coe_add, add_right_comm]
  records := by
    obtain ⟨done, moment, hrecords, hdone⟩ := h.records
    refine ⟨done, moment, by rw [hstore, hrecords], ?_⟩
    rw [hdone, completedIds_cons, completedIds_cons, if_neg hs, if_neg hs']

theorem Progress.complete {m : Node} {t : Task} {u : Multiset (Task × Stage)}
    (hrecorded : Recorded p ts) (h : Progress p ts ⟨m, (t, .returned) ::ₘ u⟩) :
    Progress p ts ⟨(t.advance m .returned).1, (t, (t.advance m .returned).2) ::ₘ u⟩ := by
  rcases hcomplete : outcome (Ledger.complete t.record) m with ⟨result, q⟩
  have hnode : (t.advance m .returned).1 = q := by
    rw [Task.advance, Stage.next_fst, hcomplete]
  have hstage : (t.advance m .returned).2 = if result.isOk then .completed else .unconfirmed := by
    rw [Task.advance, Stage.next_snd, hcomplete]
  rw [hnode, hstage]
  obtain ⟨done, moment, hrecords, hdone⟩ := h.records
  rw [completedIds_cons, if_neg (by simp)] at hdone
  have hts : t ::ₘ u.map (·.1) = ts := by simpa using h.tasks
  obtain ⟨r, hr, hpending, hid⟩ := hrecorded.pending t (by simp [← hts])
  -- No other task has this record, so nothing has completed it yet.
  have hnew : t.record ∉ done := by
    have hdifferent := hrecorded.different
    rw [← hts, Multiset.map_cons, Multiset.nodup_cons] at hdifferent
    intro hmem
    exact hdifferent.1 (mem_of_mem_completedIds (hdone ▸ Multiset.mem_coe.mpr hmem))
  have hids : m.store.ids.Nodup := by
    rw [Store.ids, hrecords, Store.ids_markAll]
    exact hrecorded.ids
  have hstored : r ∈ m.store.records := by
    rw [hrecords]
    exact Store.mem_markAll_of_notMem hr (hid ▸ hnew)
  rw [← hid] at hcomplete
  rcases Ledger.complete_of_isPending hids hstored hpending hcomplete with
    ⟨⟨fault, rfl⟩, hbecomes⟩ | ⟨rfl, s, hbecomes, hmarked⟩
  · change Progress p ts ⟨q, (t, .unconfirmed) ::ₘ u⟩
    exact h.of_store_eq (w := ⟨m, u⟩) hbecomes.store (by simp) (by simp)
      ⟨[], by rw [hbecomes.journal, List.append_nil], by simp [Stage.entries]⟩
  · change Progress p ts ⟨q, (t, .completed) ::ₘ u⟩
    have hdisjoint : ∀ id ∈ done, id ∉ [r.id] := by
      intro id hmem hlast
      rw [List.mem_singleton.mp hlast, hid] at hmem
      exact hnew hmem
    obtain ⟨moment', hall⟩ : ∃ moment', q.store.records =
        Store.markAll (done ++ [r.id]) moment' p.store.records := by
      rw [hbecomes.store, hmarked, hrecords, Store.markAll_markAll hdisjoint]
      exact ⟨_, rfl⟩
    refine ⟨by simpa using h.tasks, ?_, done ++ [r.id], moment', hall, ?_⟩
    · obtain ⟨calls, hjournal, hcalls⟩ := h.journal
      refine ⟨calls, hbecomes.journal.trans hjournal, ?_⟩
      rw [hcalls, Multiset.cons_bind, Multiset.cons_bind]
      rfl
    · rw [← Multiset.coe_add, hdone, completedIds_cons, if_pos rfl, hid, add_comm]
      rfl

theorem Progress.advance {m : Node} {t : Task} {s : Stage} {u : Multiset (Task × Stage)}
    (hrecorded : Recorded p ts) (h : Progress p ts ⟨m, (t, s) ::ₘ u⟩) :
    Progress p ts ⟨(t.advance m s).1, (t, (t.advance m s).2) ::ₘ u⟩ := by
  cases s with
  | waiting =>
      have hnode := t.advance_waiting m
      have hbegun : (t.advance m .waiting).2 ≠ .waiting :=
        Stage.next_snd_ne (by simp) (by simp) _
      refine h.of_store_eq (w := ⟨m, u⟩) (by rw [hnode]) (by simp)
        (Stage.next_snd_ne (by simp) (by simp) _)
        ⟨Dispatch.entries t.handler t.occurrence, by rw [hnode], ?_⟩
      simp [Stage.entries, hbegun]
  | running =>
      obtain ⟨clock, reacted, hnode⟩ := t.advance_running m
      have hbegun : (t.advance m .running).2 ≠ .waiting :=
        Stage.next_snd_ne (by simp) (by simp) _
      refine h.of_store_eq (w := ⟨m, u⟩) (by rw [hnode]) (by simp)
        (Stage.next_snd_ne (by simp) (by simp) _) ⟨[], by simp [hnode], ?_⟩
      simp [Stage.entries, hbegun]
  | returned => exact h.complete hrecorded
  | raised => exact h
  | completed => exact h
  | unconfirmed => exact h

theorem Progress.step (hrecorded : Recorded p ts) (h : Progress p ts w) (hstep : Step w z) :
    Progress p ts z := by
  cases hstep with
  | meanwhile hstore hjournal =>
      refine ⟨h.tasks, ?_, ?_⟩
      · rw [hjournal]
        exact h.journal
      · rw [hstore]
        exact h.records
  | advance => exact h.advance hrecorded

theorem Progress.leads (hrecorded : Recorded p ts) (h : Progress p ts w) (hleads : Leads w z) :
    Progress p ts z := by
  induction hleads with
  | refl => exact h
  | tail _ hstep ih => exact ih.step hrecorded hstep

theorem Progress.begin (p : Node) (ts : Multiset Task) :
    Progress p ts ⟨p, ts.map fun t => (t, .waiting)⟩ where
  tasks := by simp
  journal := by
    refine ⟨[], by simp, ?_⟩
    rw [Multiset.bind_map]
    simp [Stage.entries]
  records := by
    refine ⟨[], fun _ => default, (Store.markAll_nil _ _).symm, ?_⟩
    symm
    apply Multiset.eq_zero_of_forall_notMem
    intro id hid
    obtain ⟨x, hx, -⟩ := Multiset.mem_map.mp hid
    obtain ⟨hmem, hstage⟩ := Multiset.mem_filter.mp hx
    obtain ⟨t, -, rfl⟩ := Multiset.mem_map.mp hmem
    simp at hstage

theorem Progress.calls_of_over (h : Progress p ts w) (hover : ∀ x ∈ w.tasks, x.2.isOver) :
    ∃ calls : List Call, w.node.journal = p.journal ++ calls ∧
      (calls : Multiset Call) =
        ts.bind fun t => (Dispatch.entries t.handler t.occurrence : Multiset Call) := by
  obtain ⟨calls, hjournal, hcalls⟩ := h.journal
  refine ⟨calls, hjournal, ?_⟩
  rw [hcalls, ← h.tasks, Multiset.bind_map]
  apply Multiset.bind_congr
  intro x hx
  have hbegun : x.2 ≠ .waiting := by
    intro hwaiting
    have hx := hover x hx
    rw [hwaiting] at hx
    simp [Stage.isOver] at hx
  rw [Stage.entries, if_neg hbegun]

theorem mem_completedIds {u : Multiset (Task × Stage)} {id : RecordId} :
    id ∈ completedIds u ↔ ∃ t, (t, .completed) ∈ u ∧ t.record = id := by
  constructor
  · intro h
    obtain ⟨⟨t, s⟩, hx, rfl⟩ := Multiset.mem_map.mp h
    obtain ⟨hmem, hstage⟩ := Multiset.mem_filter.mp hx
    dsimp only at hstage
    subst hstage
    exact ⟨t, hmem, rfl⟩
  · rintro ⟨t, ht, rfl⟩
    exact Multiset.mem_map.mpr ⟨(t, .completed), Multiset.mem_filter.mpr ⟨ht, rfl⟩, rfl⟩

end Fanout

end DeliveryLedger
