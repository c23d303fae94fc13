import DeliveryLedger.Proofs.Stages
import DeliveryLedger.Proofs.WholeOperations
/-!
The functions of a node as courses of a fan-out.

A node holds those tasks of the fan-out that are queued or stay at a gate (`Node.fanout`).
Invoking inline handlers, waiting and opening a gate take tasks to their ends, step by step.
-/

namespace DeliveryLedger

open Act

/-- The fan-out of a node: its queued tasks have not begun, its paused ones are at work. -/
def Node.fanout (p : Node) (u : Multiset (Task × Stage)) : Fanout :=
  ⟨p, (p.queued.map fun t => (t, .waiting) : List (Task × Stage)) +
    ((p.paused.map fun t => (t, .running) : List (Task × Stage)) + u)⟩

theorem Node.fanout_cons (p : Node) (x : Task × Stage) (u : Multiset (Task × Stage)) :
    p.fanout (x ::ₘ u) = ⟨p, x ::ₘ (p.fanout u).tasks⟩ := by
  simp [fanout]

/-- The tasks `x` come to their ends, but for those that the node keeps at its gates. -/
structure Fanout.Finishes (p : Node) (x : Multiset (Task × Stage)) (parked : List Task)
    (q : Node) : Prop where
  course : ∃ v : Multiset (Task × Stage), (∀ y ∈ v, y.2.isOver) ∧
    ∀ u, (p.fanout (x + u)).Leads (q.fanout (v + u))
  queued : q.queued = p.queued
  paused : q.paused = p.paused ++ parked

namespace Fanout

variable {p q m : Node} {x y : Multiset (Task × Stage)} {parked more : List Task}

theorem leads_of_regrouped {u v : Multiset (Task × Stage)} (hstore : q.store = p.store)
    (hjournal : q.journal = p.journal) (htasks : (q.fanout v).tasks = (p.fanout u).tasks) :
    (p.fanout u).Leads (q.fanout v) := by
  have hfanout : q.fanout v = ⟨q, (p.fanout u).tasks⟩ := by
    rw [← htasks]
    rfl
  rw [hfanout]
  exact .single (.meanwhile hstore hjournal)

theorem isOver_add {u v : Multiset (Task × Stage)} (hu : ∀ x ∈ u, x.2.isOver)
    (hv : ∀ x ∈ v, x.2.isOver) : ∀ x ∈ u + v, x.2.isOver := by
  intro x hx
  rcases Multiset.mem_add.mp hx with hx | hx
  · exact hu x hx
  · exact hv x hx

theorem Finishes.refl (p : Node) : Finishes p 0 [] p where
  course := ⟨0, by simp, fun u => .refl⟩
  queued := rfl
  paused := by simp

theorem Finishes.trans (h : Finishes p x parked m) (k : Finishes m y more q) :
    Finishes p (x + y) (parked ++ more) q where
  course := by
    obtain ⟨v, hv, hcourse⟩ := h.course
    obtain ⟨v', hv', hcourse'⟩ := k.course
    refine ⟨v + v', isOver_add hv hv', fun u => ?_⟩
    have hfirst := hcourse (y + u)
    have hsecond := hcourse' (v + u)
    rw [add_left_comm] at hfirst hsecond
    rw [add_assoc, add_left_comm, add_assoc, add_left_comm v]
    exact hfirst.trans hsecond
  queued := k.queued.trans h.queued
  paused := by rw [k.paused, h.paused, List.append_assoc]

variable {t : Task} {s s' : Stage}

theorem Finishes.of_over (hs : s.isOver) (lines : List LogLine) :
    Finishes p {(t, s)} [] (p.logged lines) where
  course := by
    refine ⟨{(t, s)}, ?_, fun u => leads_of_regrouped rfl rfl rfl⟩
    intro y hy
    rw [Multiset.mem_singleton.mp hy]
    exact hs
  queued := rfl
  paused := by simp [Node.logged]

theorem advance_background (t : Task) (p : Node) (s : Stage) :
    (t.advance p s).1.queued = p.queued ∧ (t.advance p s).1.paused = p.paused := by
  cases s with
  | waiting =>
      rw [t.advance_waiting]
      exact ⟨rfl, rfl⟩
  | running =>
      obtain ⟨clock, reacted, hnode⟩ := t.advance_running p
      rw [hnode]
      exact ⟨rfl, rfl⟩
  | returned =>
      rw [Task.advance, Stage.next_fst]
      rcases hcomplete : outcome (Ledger.complete t.record) p with ⟨r, q⟩
      obtain ⟨s, hbecomes⟩ := exists_becomes_of_complete hcomplete
      exact ⟨hbecomes.queued, hbecomes.paused⟩
  | raised => exact ⟨rfl, rfl⟩
  | completed => exact ⟨rfl, rfl⟩
  | unconfirmed => exact ⟨rfl, rfl⟩

theorem Finishes.of_advance (hadvance : t.advance p s = (m, s'))
    (h : Finishes m {(t, s')} parked q) : Finishes p {(t, s)} parked q := by
  obtain ⟨hqueued, hpaused⟩ := advance_background t p s
  rw [hadvance] at hqueued hpaused
  dsimp only at hqueued hpaused
  refine ⟨?_, h.queued.trans hqueued, by rw [h.paused, hpaused]⟩
  obtain ⟨v, hv, hcourse⟩ := h.course
  refine ⟨v, hv, fun u => .head ?_ (hcourse u)⟩
  have hstep : Step ⟨p, (t, s) ::ₘ (p.fanout u).tasks⟩ _ := .advance
  rw [hadvance] at hstep
  have hrest : (m.fanout u).tasks = (p.fanout u).tasks := by
    simp only [Node.fanout, hqueued, hpaused]
  rw [Multiset.singleton_add, Multiset.singleton_add, Node.fanout_cons, Node.fanout_cons, hrest]
  exact hstep

theorem fanout_of_idle (hqueued : q.queued = []) (hpaused : q.paused = [])
    (u : Multiset (Task × Stage)) : q.fanout u = ⟨q, u⟩ := by
  simp [Node.fanout, hqueued, hpaused]

theorem isOver_of_mem_fanout {u : Multiset (Task × Stage)}
    (hqueued : ∀ t ∈ q.queued, t.handler.asynchronous)
    (hpaused : ∀ t ∈ q.paused, t.handler.asynchronous) (hu : ∀ x ∈ u, x.2.isOver) :
    ∀ x ∈ (q.fanout u).tasks, ¬ x.1.handler.asynchronous → x.2.isOver := by
  intro x hx hinline
  rcases Multiset.mem_add.mp hx with hx | hx
  · obtain ⟨t, ht, rfl⟩ := List.mem_map.mp (Multiset.mem_coe.mp hx)
    exact absurd (hqueued t ht) hinline
  rcases Multiset.mem_add.mp hx with hx | hx
  · obtain ⟨t, ht, rfl⟩ := List.mem_map.mp (Multiset.mem_coe.mp hx)
    exact absurd (hpaused t ht) hinline
  · exact hu x hx

end Fanout

namespace Dispatch

open Fanout

variable {p : Node} {t : Task}

theorem finishes_confirm (t : Task) (p : Node) :
    ∃ q, outcome (confirm t) p = (.ok (), q) ∧ Finishes p {(t, .returned)} [] q := by
  have hadvance : t.advance p .returned =
      Stage.next .completed .unconfirmed (outcome (Ledger.complete t.record) p) := rfl
  unfold confirm
  rw [outcome_bind_of_ok (outcome_attempt _ p)]
  rcases hcomplete : outcome (Ledger.complete t.record) p with ⟨fault | won, m⟩
  · rw [hcomplete] at hadvance
    exact ⟨_, rfl, .of_advance hadvance (.of_over rfl _)⟩
  · rw [hcomplete] at hadvance
    have hsame : m.logged [] = m := by simp [Node.logged]
    have hover := Finishes.of_over (p := m) (t := t) (s := .completed) rfl []
    rw [hsame] at hover
    exact ⟨m, rfl, .of_advance hadvance hover⟩

theorem finishes_resume {body : String} (hbody : t.handler.body = some body) (p : Node) :
    ∃ q, outcome (resume t body) p = (.ok (), q) ∧ Finishes p {(t, .running)} [] q := by
  have hadvance : t.advance p .running = Stage.next .returned .raised (outcome (react body) p) := by
    rw [Task.advance, hbody]
    rfl
  unfold resume
  rw [outcome_bind_of_ok (outcome_attempt _ p)]
  rcases hreact : outcome (react body) p with ⟨fault | ⟨⟩, m⟩
  · rw [hreact] at hadvance
    exact ⟨_, rfl, .of_advance hadvance (.of_over rfl _)⟩
  · rw [hreact] at hadvance
    obtain ⟨q, hconfirm, hfinishes⟩ := finishes_confirm t m
    exact ⟨q, hconfirm, .of_advance hadvance hfinishes⟩

theorem advance_announced {body : String} (hbody : t.handler.body = some body) (p : Node) :
    t.advance p .waiting =
      ({ p with journal := p.journal ++ entries t.handler t.occurrence }, .running) := by
  rw [Task.advance, announce_of_body hbody]
  rfl

theorem advance_unannounced (hbody : t.handler.body = none) (p : Node) :
    t.advance p .waiting = (p, .raised) := by
  rw [Task.advance, announce_of_no_body hbody]
  rfl

theorem finishes_runInline (t : Task) (p : Node) :
    ∃ q, outcome (runInline t) p = (.ok (), q) ∧ Finishes p {(t, .waiting)} [] q := by
  unfold runInline
  rw [outcome_bind_of_ok (outcome_attempt _ p)]
  unfold invoke
  cases hbody : t.handler.body with
  | none =>
      rw [outcome_bind, announce_of_no_body hbody]
      exact ⟨_, rfl, .of_advance (advance_unannounced hbody p) (.of_over rfl _)⟩
  | some body =>
      rw [outcome_bind_of_ok (announce_of_body hbody p)]
      obtain ⟨q, hresume, hfinishes⟩ := finishes_resume hbody
        { p with journal := p.journal ++ entries t.handler t.occurrence }
      exact ⟨q, hresume, .of_advance (advance_announced hbody p) hfinishes⟩

theorem finishes_startTask (t : Task) (p : Node) :
    ∃ q parked, outcome (startTask t) p = (.ok (), q) ∧ (∀ x ∈ parked, x = t) ∧
      Finishes p {(t, .waiting)} parked q := by
  unfold startTask
  rw [outcome_bind_of_ok (outcome_attempt _ p)]
  cases hbody : t.handler.body with
  | none =>
      rw [announce_of_no_body hbody]
      exact ⟨_, [], rfl, by simp, .of_advance (advance_unannounced hbody p) (.of_over rfl _)⟩
  | some body =>
      rw [announce_of_body hbody]
      dsimp only
      rw [outcome_bind_of_ok (outcome_get _)]
      split
      -- At its gate the task becomes one of the paused ones, which is a regrouping and no step.
      · refine ⟨_, [t], rfl, by simp, .of_advance (advance_announced hbody p)
          ⟨⟨0, by simp, fun u => ?_⟩, rfl, rfl⟩⟩
        refine leads_of_regrouped rfl rfl ?_
        simp only [Node.fanout, List.map_append, ← Multiset.coe_add, zero_add, add_assoc]
        rfl
      · obtain ⟨q, hresume, hfinishes⟩ := finishes_resume hbody
          { p with journal := p.journal ++ entries t.handler t.occurrence }
        exact ⟨q, [], hresume, by simp, .of_advance (advance_announced hbody p) hfinishes⟩

theorem finishes_each (act : Task → Act Unit) (s : Stage) (stays : Task → Prop) (ts : List Task)
    (hact : ∀ t ∈ ts, ∀ p, ∃ q parked, outcome (act t) p = (.ok (), q) ∧
      (∀ x ∈ parked, x = t ∧ stays x) ∧ Finishes p {(t, s)} parked q) (p : Node) :
    ∃ q parked, outcome (each act ts) p = (.ok (), q) ∧
      (∀ x ∈ parked, x ∈ ts ∧ stays x) ∧
      Finishes p (ts.map fun t => (t, s) : List (Task × Stage)) parked q := by
  induction ts generalizing p with
  | nil => exact ⟨p, [], rfl, by simp, .refl p⟩
  | cons t ts ih =>
      obtain ⟨m, parked, hhead, hparked, hfinishes⟩ := hact t (by simp) p
      obtain ⟨q, more, htail, hmore, hrest⟩ := ih (fun x hx => hact x (by simp [hx])) m
      refine ⟨q, parked ++ more, ?_, ?_, ?_⟩
      · rw [each, outcome_bind_of_ok hhead, htail]
      · intro x hx
        rcases List.mem_append.mp hx with hx | hx
        · obtain ⟨rfl, hstays⟩ := hparked x hx
          exact ⟨by simp, hstays⟩
        · exact ⟨by simp [(hmore x hx).1], (hmore x hx).2⟩
      · rw [List.map_cons, ← Multiset.cons_coe, ← Multiset.singleton_add]
        exact hfinishes.trans hrest

theorem finishes_all (act : Task → Act Unit) (s : Stage) (ts : List Task)
    (hact : ∀ t ∈ ts, ∀ p, ∃ q, outcome (act t) p = (.ok (), q) ∧ Finishes p {(t, s)} [] q)
    (p : Node) :
    ∃ q, outcome (each act ts) p = (.ok (), q) ∧
      Finishes p (ts.map fun t => (t, s) : List (Task × Stage)) [] q := by
  obtain ⟨q, parked, hrun, hparked, hfinishes⟩ := finishes_each act s (fun _ => False) ts
    (fun t ht p => by
      obtain ⟨q, hrun, hfinishes⟩ := hact t ht p
      exact ⟨q, [], hrun, by simp, hfinishes⟩) p
  obtain rfl : parked = [] := List.eq_nil_iff_forall_not_mem.mpr fun x hx => (hparked x hx).2
  exact ⟨q, hrun, hfinishes⟩

/-- The node waits: all queued tasks begin, and only those that stay at their gates are not
over then. -/
theorem finishes_runQueued (p : Node) :
    ∃ q parked, outcome runQueued p = (.ok (), q) ∧ q.queued = [] ∧
      q.paused = p.paused ++ parked ∧ (∀ x ∈ parked, x ∈ p.queued) ∧
      ∃ v : Multiset (Task × Stage), (∀ y ∈ v, y.2.isOver) ∧
        ∀ u, (p.fanout u).Leads (q.fanout (v + u)) := by
  obtain ⟨q, parked, hrun, hparked, hfinishes⟩ := finishes_each startTask .waiting
    (fun _ => True) p.queued (fun t _ p => by
      obtain ⟨q, parked, hrun, hparked, hfinishes⟩ := finishes_startTask t p
      exact ⟨q, parked, hrun, fun x hx => ⟨hparked x hx, trivial⟩, hfinishes⟩)
    { p with queued := [] }
  refine ⟨q, parked, hrun, hfinishes.queued, hfinishes.paused, fun x hx => (hparked x hx).1, ?_⟩
  obtain ⟨v, hv, hcourse⟩ := hfinishes.course
  refine ⟨v, hv, fun u => .trans ?_ (hcourse u)⟩
  refine leads_of_regrouped rfl rfl ?_
  simp only [Node.fanout, List.map_nil, Multiset.coe_nil, zero_add]
  exact add_left_comm _ _ _

theorem mem_background_of_run {p q : Node} {parked : List Task} (hqueued : q.queued = [])
    (hpaused : q.paused = p.paused ++ parked) (hparked : ∀ x ∈ parked, x ∈ p.queued) {t : Task}
    (h : t ∈ q.background) : t ∈ p.background := by
  rw [Node.background, hqueued, List.nil_append, hpaused] at h
  rcases List.mem_append.mp h with h | h
  · exact List.mem_append_right _ h
  · exact List.mem_append_left _ (hparked t h)

/-- A gate opens: the tasks that stayed at it come to their ends. -/
theorem finishes_release (handler : String) (p : Node) :
    ∃ q, outcome (release handler) p = (.ok (), q) ∧ q.queued = p.queued ∧
      q.paused = p.paused.filter (fun t => !decide (t.handler.body = some handler)) ∧
      ∃ v : Multiset (Task × Stage), (∀ y ∈ v, y.2.isOver) ∧
        ∀ u, (p.fanout u).Leads (q.fanout (v + u)) := by
  let freed := p.paused.filter fun t => t.handler.body = some handler
  let waiting := p.paused.filter fun t => !decide (t.handler.body = some handler)
  obtain ⟨q, hrun, hfinishes⟩ := finishes_all (fun t => resume t handler) .running freed
    (fun t ht p => finishes_resume (by simpa using (List.mem_filter.mp ht).2) p)
    { p with opened := handler :: p.opened, paused := waiting }
  refine ⟨q, ?_, hfinishes.queued, by rw [hfinishes.paused, List.append_nil], ?_⟩
  · unfold release
    rw [outcome_bind_of_ok (outcome_get p)]
    dsimp only
    rw [List.partition_eq_filter_filter, outcome_bind_of_ok (outcome_set _ _)]
    exact hrun
  · obtain ⟨v, hv, hcourse⟩ := hfinishes.course
    refine ⟨v, hv, fun u => .trans ?_ (hcourse u)⟩
    refine leads_of_regrouped rfl rfl ?_
    -- The paused tasks are the freed ones and the waiting ones.
    have hparts := List.filter_append_perm (fun t : Task => t.handler.body = some handler) p.paused
    have htasks := Multiset.coe_eq_coe.mpr (hparts.map fun t => (t, Stage.running))
    rw [List.map_append, ← Multiset.coe_add] at htasks
    simp only [Node.fanout, ← htasks, add_assoc]
    exact congrArg _ (add_left_comm _ _ _)

theorem finishes_drain (gates : List String) (p : Node) :
    ∃ q, outcome (drain gates) p = (.ok q.background.isEmpty, q) ∧ q.queued = [] ∧
      (∀ t ∈ q.background, t ∈ p.background ∧ ∀ gate ∈ gates, t.handler.body ≠ some gate) ∧
      ∃ v : Multiset (Task × Stage), (∀ y ∈ v, y.2.isOver) ∧
        ∀ u, (p.fanout u).Leads (q.fanout (v + u)) := by
  induction gates generalizing p with
  | nil =>
      obtain ⟨q, parked, hrun, hqueued, hpaused, hparked, hcourse⟩ := finishes_runQueued p
      refine ⟨q, ?_, hqueued, ?_, hcourse⟩
      · rw [drain, outcome_bind_of_ok hrun, outcome_bind_of_ok (outcome_get q)]
        rfl
      · intro t ht
        exact ⟨mem_background_of_run hqueued hpaused hparked ht, by simp⟩
  | cons gate gates ih =>
      obtain ⟨m, parked, hrun, hqueued, hpaused, hparked, v, hv, hcourse⟩ := finishes_runQueued p
      rw [drain, outcome_bind_of_ok hrun, outcome_bind_of_ok (outcome_get m)]
      split
      · rename_i hempty
        have hnone : m.background = [] := List.isEmpty_iff.mp hempty
        exact ⟨m, by rw [hempty]; rfl, hqueued, by simp [hnone], v, hv, hcourse⟩
      · obtain ⟨n, hopen, hnqueued, hnpaused, v', hv', hcourse'⟩ := finishes_release gate m
        obtain ⟨q, hrest, hqqueued, hleft, v'', hv'', hcourse''⟩ := ih n
        refine ⟨q, by rw [outcome_bind_of_ok hopen, hrest], hqqueued, ?_, v'' + (v' + v), ?_, ?_⟩
        -- What is left after the gate has opened stayed at another one.
        · intro t ht
          obtain ⟨hmem, hgates⟩ := hleft t ht
          rw [Node.background, hnqueued, hqueued, List.nil_append, hnpaused,
            List.mem_filter] at hmem
          refine ⟨mem_background_of_run hqueued hpaused hparked ?_, ?_⟩
          · exact List.mem_append_right _ hmem.1
          · rw [List.forall_mem_cons]
            exact ⟨by simpa using hmem.2, hgates⟩
        · exact isOver_add hv'' (isOver_add hv' hv)
        · intro u
          have hall := ((hcourse u).trans (hcourse' _)).trans (hcourse'' _)
          rwa [← add_assoc v', ← add_assoc v''] at hall

end Dispatch

end DeliveryLedger
