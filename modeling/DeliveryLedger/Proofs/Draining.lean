import DeliveryLedger.Proofs.SweepRuns
import Mathlib
/-!
Repeated sweeps empty the ledger.

Records of one handler share its budget of failures: which of them fail in a sweep depends on
their order, but the handler fails once for each unit of the budget and no more.  A record that
is still pending after a row of sweeps failed in each of them, so the largest budget among the
handlers bounds the number of sweeps, and what the sweeps report is what the budgets and the
pending records come to (`sweeps_drain`).
-/

namespace DeliveryLedger

namespace Node

/-- The pending records of a node. -/
def pending (p : Node) : List PublicationRecord := p.store.records.filter (·.isPending)

/-- The handlers with a pending record. -/
def waiting (p : Node) : Finset String := (p.pending.map (·.handlerId)).toFinset

theorem mem_waiting {p : Node} {id : String} :
    id ∈ p.waiting ↔ ∃ r ∈ p.pending, r.handlerId = id := by
  rw [waiting, List.mem_toFinset, List.mem_map]

end Node

namespace Resubmission

open Act

variable {p z : Node} {k : Nat} {budget : String → Nat} {vs : List Visit} {id : String}

/-! ### Budgets -/

/-- Whether a handler returned, visit by visit to one of its records. -/
def reactions (id : String) (vs : List Visit) : List Bool :=
  (vs.filter (·.record.handlerId = id)).map (·.returned)

/-- Each handler fails as often as its budget says, and returns every time after that. -/
def FailsFirst (budget : String → Nat) (vs : List Visit) : Prop :=
  ∀ id i returns, (reactions id vs)[i]? = some returns → returns = decide (budget id ≤ i)

/-- The visits to records of a handler. -/
def visitsOf (id : String) (vs : List Visit) : Nat := vs.countP (·.record.handlerId = id)

def failuresOf (id : String) (vs : List Visit) : Nat :=
  vs.countP fun v => decide (v.record.handlerId = id) && !v.returned

theorem count_false {returns : List Bool} {n : Nat}
    (h : ∀ i b, returns[i]? = some b → b = decide (n ≤ i)) :
    returns.count false = min n returns.length := by
  -- By induction on the returns; each one that is `false` takes one off the budget `n`.
  induction returns generalizing n with
  | nil => simp
  | cons b returns ih =>
      have hfirst : b = decide (n ≤ 0) := h 0 b rfl
      cases n with
      | zero =>
          have hrest := ih (n := 0) fun i c hc => by simpa using h (i + 1) c hc
          simp [hfirst, hrest]
      | succ n =>
          have hrest := ih (n := n) fun i c hc => by simpa using h (i + 1) c hc
          simp [hfirst, hrest]

/-- A handler has failed as often as it was invoked, or as its budget says. -/
theorem FailsFirst.failuresOf_eq (h : FailsFirst budget vs) (id : String) :
    failuresOf id vs = min (budget id) (visitsOf id vs) := by
  have hcount := count_false (h id)
  have hlength : (reactions id vs).length = visitsOf id vs := by
    rw [reactions, List.length_map, visitsOf, List.countP_eq_length_filter]
  have hfailures : (reactions id vs).count false = failuresOf id vs := by
    rw [reactions, List.count, List.countP_map, List.countP_filter, failuresOf]
    apply List.countP_congr
    intro v _
    cases hreturned : v.returned <;> simp [hreturned]
  rw [← hfailures, hcount, hlength]

theorem countP_eq_sum {handlers : Finset String} (test : Visit → Bool)
    (h : ∀ v ∈ vs, v.record.handlerId ∈ handlers) :
    vs.countP test =
      ∑ id ∈ handlers, vs.countP fun v => decide (v.record.handlerId = id) && test v := by
  induction vs with
  | nil => simp
  | cons v vs ih =>
      have hrest := ih fun w hw => h w (List.mem_cons_of_mem v hw)
      have hself := h v List.mem_cons_self
      simp only [List.countP_cons, Finset.sum_add_distrib, ← hrest]
      cases htest : test v <;> simp [hself, Finset.sum_ite_eq]

/-! ### The course of the visits -/

theorem Visit.isSome_body_of_returned {v : Visit} {h : HandlerDescriptor} {o : Occurrence}
    (htarget : v.target? = some (h, o)) (hreturned : v.returned) : h.body.isSome := by
  cases hbody : h.body with
  | some body => rfl
  | none =>
      have hinvoke : v.invocation h o =
          (.error (.unimplemented h.name), { v.node with space := v.resolved.2 }) := by
        rw [invocation, Dispatch.invoke, outcome_bind, Dispatch.announce_of_no_body hbody]
      rw [Visit.returned, htarget] at hreturned
      simp [hinvoke, Except.isOk, Except.toBool] at hreturned

theorem countP_calls (h : ∀ v ∈ vs, v.record.handlerId = id → ∃ c, v.calls = [c]) :
    (vs.flatMap Visit.calls).countP (·.handlerId = id) = visitsOf id vs := by
  have hown : ∀ v : Visit, ∀ c ∈ v.calls, c.handlerId = v.record.handlerId := by
    intro v c hc
    unfold Visit.calls at hc
    split at hc
    · split at hc
      · rw [List.mem_singleton.mp hc]
      · cases hc
    · cases hc
  induction vs with
  | nil => rfl
  | cons v vs ih =>
      have hrest := ih fun w hw => h w (List.mem_cons_of_mem v hw)
      rw [List.flatMap_cons, List.countP_append, hrest, visitsOf, visitsOf, List.countP_cons,
        Nat.add_comm]
      congr 1
      by_cases hid : v.record.handlerId = id
      · obtain ⟨c, hc⟩ := h v List.mem_cons_self hid
        have hcall : c.handlerId = id := (hown v c (by simp [hc])).trans hid
        simp [hc, hcall, hid]
      · have hnone : v.calls.countP (·.handlerId = id) = 0 := by
          rw [List.countP_eq_zero]
          intro c hc
          simpa [hown v c hc] using hid
        simp [hnone, hid]

theorem visitsOf_eq_add (id : String) (vs : List Visit) :
    visitsOf id vs =
      (vs.countP fun v => decide (v.record.handlerId = id) && v.returned) + failuresOf id vs := by
  rw [visitsOf, List.countP_eq_countP_filter_add vs _ (·.returned), List.countP_filter,
    List.countP_filter]
  rfl

namespace Toured

theorem confirmed_eq_returned (h : Toured p k z) {v : Visit} (hv : v ∈ tour p k) :
    v.confirmed = v.returned :=
  Visit.confirmed_eq_returned (h.keeps v hv).serves

theorem eq_of_id_eq (h : Toured p k z) (hids : p.store.ids.Nodup) {v : Visit}
    (hv : v ∈ tour p k) {r : PublicationRecord} (hr : r ∈ p.pending) (hid : v.record.id = r.id) :
    v.record = r :=
  Store.eq_of_mem_of_id_eq hids (h.pending v hv).1 (List.mem_filter.mp hr).1 hid

theorem pending_eq (h : Toured p k z) :
    z.pending =
      (p.pending).filter (·.id ∉ confirmedIds (tour p k)) := by
  obtain ⟨moment, hrecords⟩ := h.swept.records
  rw [Node.pending, hrecords, Store.pending_markAll]
  rfl

theorem le_failuresOf (h : Toured p k z) (hids : p.store.ids.Nodup) {r : PublicationRecord}
    (hr : r ∈ p.pending) (hleft : r.id ∉ confirmedIds (tour p k)) :
    k ≤ failuresOf r.handlerId (tour p k) := by
  -- It was visited in each of the sweeps, and at none of these visits its handler returned.
  obtain ⟨hmem, hpending⟩ := List.mem_filter.mp hr
  conv_lhs => rw [← h.left r hmem hpending hleft]
  apply List.countP_mono_left
  intro v hv hid
  have hid : v.record.id = r.id := by simpa using hid
  have hreturned : v.returned = false := by
    rw [← h.confirmed_eq_returned hv]
    by_contra hconfirmed
    apply hleft
    rw [← hid]
    exact List.mem_map_of_mem (f := fun v : Visit => v.record.id)
      (List.mem_filter.mpr ⟨hv, by simpa using hconfirmed⟩)
  simp [h.eq_of_id_eq hids hv hr hid, hreturned]

theorem pending_eq_nil (h : Toured p k z) (hids : p.store.ids.Nodup)
    (hfails : FailsFirst budget (tour p k)) (hk : p.waiting.sup budget < k) :
    z.pending = [] := by
  rw [h.pending_eq, List.filter_eq_nil_iff]
  intro r hr hleft
  -- A record that is left would have cost its handler a failure in each sweep.
  have hfailures := h.le_failuresOf hids hr (by simpa using hleft)
  have hbudget : failuresOf r.handlerId (tour p k) ≤ budget r.handlerId := by
    rw [hfails.failuresOf_eq]
    exact Nat.min_le_left _ _
  have hwaiting : r.handlerId ∈ p.waiting := Node.mem_waiting.mpr ⟨r, hr, rfl⟩
  have hmost : budget r.handlerId ≤ p.waiting.sup budget := Finset.le_sup hwaiting
  omega

theorem perm_pending (h : Toured p k z) (hids : p.store.ids.Nodup)
    (hdrained : z.pending = []) :
    (((tour p k).filter (·.confirmed)).map (·.record)).Perm (p.pending) := by
  rw [h.pending_eq, List.filter_eq_nil_iff] at hdrained
  have hvisited : (((tour p k).filter (·.confirmed)).map (·.record)).Nodup := by
    have honce : ((((tour p k).filter (·.confirmed)).map (·.record)).map (·.id)).Nodup := by
      rw [List.map_map]
      exact h.once
    exact honce.of_map
  have hstored : p.pending.Nodup := hids.of_map.filter _
  rw [List.perm_ext_iff_of_nodup hvisited hstored]
  intro r
  constructor
  · intro hr
    obtain ⟨v, hv, rfl⟩ := List.mem_map.mp hr
    exact List.mem_filter.mpr (h.pending v (List.mem_filter.mp hv).1)
  · intro hr
    have hdone : r.id ∈ confirmedIds (tour p k) := by simpa using hdrained r hr
    obtain ⟨v, hv, hid⟩ := List.mem_map.mp hdone
    rw [← h.eq_of_id_eq hids (List.mem_filter.mp hv).1 hr hid]
    exact List.mem_map_of_mem hv

theorem countP_returned (h : Toured p k z) (hids : p.store.ids.Nodup)
    (hdrained : z.pending = []) (id : String) :
    ((tour p k).countP fun v => decide (v.record.handlerId = id) && v.returned) =
      (p.pending).countP (·.handlerId = id) := by
  rw [← (h.perm_pending hids hdrained).countP_eq, List.countP_map, List.countP_filter]
  apply List.countP_congr
  intro v hv
  rw [h.confirmed_eq_returned hv]
  rfl

theorem failuresOf_eq_budget (h : Toured p k z) (hids : p.store.ids.Nodup)
    (hfails : FailsFirst budget (tour p k)) (hdrained : z.pending = [])
    (hid : id ∈ p.waiting) : failuresOf id (tour p k) = budget id := by
  have hreturned := h.countP_returned hids hdrained id
  have hvisits := visitsOf_eq_add id (tour p k)
  have hpositive : 0 < (p.pending).countP (·.handlerId = id) := by
    obtain ⟨r, hr, rfl⟩ := Node.mem_waiting.mp hid
    exact List.countP_pos_iff.mpr ⟨r, hr, by simp⟩
  have hfailures := hfails.failuresOf_eq id
  -- It returned at some visit, so there were more visits than its budget has failures.
  omega

theorem exists_target (h : Toured p k z)
    (hregistered : ∀ r ∈ p.pending, (p.registry.get? r.handlerId).isSome)
    (hresolves : ∀ v ∈ tour p k, v.resolved.1.isOk) {v : Visit} (hv : v ∈ tour p k) :
    ∃ d o, v.target? = some (d, o) ∧ p.registry.get? v.record.handlerId = some d := by
  have hrecord : v.record ∈ p.pending := List.mem_filter.mpr (h.pending v hv)
  obtain ⟨d, hd⟩ := Option.isSome_iff_exists.mp (hregistered v.record hrecord)
  have hget : v.node.registry.get? v.record.handlerId = some d := by
    rw [(h.keeps v hv).registry, hd]
  have hok := hresolves v hv
  unfold Visit.target?
  cases hresolved : v.resolved.1 with
  | error fault =>
      rw [hresolved] at hok
      cases hok
  | ok o => exact ⟨d, o, by rw [hget], hd⟩

theorem exists_call (h : Toured p k z) (hids : p.store.ids.Nodup)
    (hregistered : ∀ r ∈ p.pending, (p.registry.get? r.handlerId).isSome)
    (hresolves : ∀ v ∈ tour p k, v.resolved.1.isOk) (hdrained : z.pending = [])
    (hid : id ∈ p.waiting) :
    ∀ v ∈ tour p k, v.record.handlerId = id → ∃ c, v.calls = [c] := by
  -- One of the visits returned, so the handler has a body.
  obtain ⟨r, hr, rfl⟩ := Node.mem_waiting.mp hid
  obtain ⟨w, hw, hrecord⟩ := List.mem_map.mp ((h.perm_pending hids hdrained).mem_iff.mpr hr)
  obtain ⟨hw, hconfirmed⟩ := List.mem_filter.mp hw
  obtain ⟨d, o, htarget, hd⟩ := h.exists_target hregistered hresolves hw
  have hbody : d.body.isSome :=
    Visit.isSome_body_of_returned htarget (h.confirmed_eq_returned hw ▸ hconfirmed)
  intro v hv hv'
  obtain ⟨d', o', htarget', hd'⟩ := h.exists_target hregistered hresolves hv
  rw [hv', ← hrecord, hd] at hd'
  obtain rfl := Option.some.inj hd'
  rw [Visit.calls, htarget']
  exact ⟨_, if_pos hbody⟩

end Toured

/-! ### The reports of the sweeps -/

theorem sum_tallies (field : Report → Int) (test : Visit → Bool)
    (h : ∀ vs, field (tally Report.empty vs) = vs.countP test) (rounds : List (List Visit)) :
    ((rounds.map (tally Report.empty)).map field).sum = rounds.flatten.countP test := by
  induction rounds with
  | nil => rfl
  | cons vs rounds ih =>
      rw [List.map_cons, List.map_cons, List.sum_cons, h, ih, List.flatten_cons,
        List.countP_append]
      exact (Int.natCast_add _ _).symm

theorem skipped_eq_zero {rounds : List (List Visit)}
    (h : ∀ v ∈ rounds.flatten, v.target?.isSome) :
    ∀ report ∈ rounds.map (tally Report.empty), report.skipped = 0 := by
  intro report hreport
  obtain ⟨vs, hvs, rfl⟩ := List.mem_map.mp hreport
  have hnone : vs.countP (·.target?.isNone) = 0 := by
    rw [List.countP_eq_zero]
    intro v hv
    have hsome := h v (List.mem_flatten.mpr ⟨vs, hvs, hv⟩)
    simpa using Option.isSome_iff_ne_none.mp hsome
  rw [tally_eq]
  simp [Report.empty, hnone]

theorem Ready.findIncomplete_nil (h : Ready z) (hnone : z.pending = []) :
    ∃ q, outcome Ledger.findIncomplete z = (.ok [], q) := by
  obtain ⟨found, hfound⟩ := h.orderable
  have hperm : found.Perm z.pending := Store.findIncomplete_perm hfound
  rw [hnone, List.perm_nil] at hperm
  subst hperm
  obtain ⟨q, hread, -⟩ := Ledger.findIncomplete_of_serves h.serves hfound
  exact ⟨q, hread⟩

/-- Of handlers that fail as often as their budgets say and then return, one sweep more than the
largest budget leaves nothing pending; and once nothing is, the reports and the invocations add
up to the records and the budgets. -/
theorem sweeps_drain (hserves : p.Serves) (hids : p.store.ids.Nodup)
    (horder : p.store.Orderable)
    (hregistered : ∀ r ∈ p.pending, (p.registry.get? r.handlerId).isSome)
    (hresolves : ∀ v ∈ tour p k, v.resolved.1.isOk) (hfails : FailsFirst budget (tour p k)) :
    ∃ reports z, outcome (sweeps k) p = (.ok reports, z) ∧ reports.length = k ∧
      (∀ report ∈ reports, report.skipped = 0) ∧
      (p.waiting.sup budget + 1 ≤ k →
        z.pending = [] ∧ ∃ q, outcome Ledger.findIncomplete z = (.ok [], q)) ∧
      (z.pending = [] →
        (reports.map (·.succeeded)).sum = p.pending.length ∧
        (reports.map (·.failed)).sum = ∑ id ∈ p.waiting, budget id ∧
        ∃ calls, z.journal = p.journal ++ calls ∧ ∀ id ∈ p.waiting,
          calls.countP (·.handlerId = id) =
            p.pending.countP (·.handlerId = id) + budget id) := by
  have hcalm : ∀ v ∈ tour p k, v.raised? = none := fun v hv =>
    Visit.raised?_of_isOk (hresolves v hv)
  obtain ⟨z, hsweeps, h, hready⟩ := sweeps_spec ⟨hserves, hids, horder⟩ k hcalm
  have htarget : ∀ v ∈ tour p k, v.target?.isSome := by
    intro v hv
    obtain ⟨d, o, htarget, -⟩ := h.exists_target hregistered hresolves hv
    rw [htarget]
    rfl
  refine ⟨_, z, hsweeps, ?_, skipped_eq_zero htarget, fun hk => ?_, fun hdrained => ⟨?_, ?_, ?_⟩⟩
  · rw [List.length_map, length_rounds]
  · have hnone := h.pending_eq_nil hids hfails hk
    exact ⟨hnone, hready.findIncomplete_nil hnone⟩
  · have hsum := sum_tallies (·.succeeded) (·.confirmed)
      (fun vs => by simp [tally_eq, Report.empty]) (rounds p k)
    rw [hsum, ← (h.perm_pending hids hdrained).length_eq, List.length_map,
      ← List.countP_eq_length_filter]
    rfl
  · have hsum := sum_tallies (·.failed) (fun v => v.target?.isSome && !v.confirmed)
      (fun vs => by simp [tally_eq, Report.empty]) (rounds p k)
    have hfailed : (tour p k).countP (fun v => v.target?.isSome && !v.confirmed) =
        (tour p k).countP (!·.returned) := by
      apply List.countP_congr
      intro v hv
      rw [htarget v hv, h.confirmed_eq_returned hv, Bool.true_and]
    have hwaiting : ∀ v ∈ tour p k, v.record.handlerId ∈ p.waiting := fun v hv =>
      Node.mem_waiting.mpr ⟨v.record, List.mem_filter.mpr (h.pending v hv), rfl⟩
    have hbudgets : (tour p k).countP (!·.returned) = ∑ id ∈ p.waiting, budget id := by
      rw [countP_eq_sum _ hwaiting]
      exact Finset.sum_congr rfl fun id hid => h.failuresOf_eq_budget hids hfails hdrained hid
    rw [hsum, ← hbudgets, ← hfailed]
    rfl
  · refine ⟨_, h.swept.journal, fun id hid => ?_⟩
    rw [countP_calls (h.exists_call hids hregistered hresolves hdrained hid), visitsOf_eq_add,
      h.countP_returned hids hdrained, h.failuresOf_eq_budget hids hfails hdrained hid]

/-- A node on which three records are pending, two of them of a handler that fails three
times. -/
def sharingNode : Node :=
  { Node.start orderSpace ⟨Clock.epoch⟩
      (.memory ⟨[orderRecord 1 "mail", orderRecord 2 "broken", orderRecord 3 "broken"]⟩) with
    registry := ⟨[⟨"mail", 1, false, "Mail", some "mail"⟩,
      ⟨"broken", 1, false, "Broken", some "broken"⟩], by simp⟩
    scripts := [("broken", .failing false none 3 (.foreign .runtime "down"))] }

/-- In four sweeps the two records of the failing handler share its three failures. -/
theorem sweeps_drain_sharing :
    ∃ reports z calls, outcome (sweeps 4) sharingNode = (.ok reports, z) ∧ z.pending = [] ∧
      (reports.map (·.succeeded)).sum = 3 ∧ (reports.map (·.failed)).sum = 3 ∧
      z.journal = sharingNode.journal ++ calls ∧ calls.countP (·.handlerId = "broken") = 5 := by
  let budget : String → Nat := fun id => if id = "broken" then 3 else 0
  have hturns : (tour sharingNode 4).map (fun v => (v.record.handlerId, v.returned)) =
      [("mail", true), ("broken", false), ("broken", false), ("broken", false),
        ("broken", true), ("broken", true)] := by decide +kernel
  have hfails : FailsFirst budget (tour sharingNode 4) := by
    intro id i returns hi
    have hreactions : reactions id (tour sharingNode 4) =
        (((tour sharingNode 4).map (fun v => (v.record.handlerId, v.returned))).filter
          (·.1 = id)).map (·.2) := by
      rw [List.filter_map, List.map_map]
      rfl
    rw [hreactions, hturns] at hi
    by_cases hmail : id = "mail"
    · subst hmail
      cases i <;> simp_all [budget]
    by_cases hbroken : id = "broken"
    · subst hbroken
      rcases i with _ | _ | _ | _ | _ | i <;> simp_all [budget]
    · simp [Ne.symm hmail, Ne.symm hbroken] at hi
  have hresolves : ∀ v ∈ tour sharingNode 4, v.resolved.1.isOk := by
    have hall : (tour sharingNode 4).all (·.resolved.1.isOk) = true := by decide +kernel
    exact List.all_eq_true.mp hall
  have hserves : sharingNode.Serves :=
    ⟨by simp [sharingNode, Node.start], by simp [sharingNode, Node.start]⟩
  obtain ⟨reports, z, hsweeps, -, -, hdrains, hcounts⟩ := sweeps_drain (k := 4) hserves
    (by decide) ⟨_, rfl⟩ (by decide) hresolves hfails
  have hwaiting : sharingNode.waiting = {"mail", "broken"} := by decide
  obtain ⟨hnone, -⟩ := hdrains (by rw [hwaiting]; decide)
  obtain ⟨hsucceeded, hfailed, calls, hjournal, hcalls⟩ := hcounts hnone
  refine ⟨reports, z, calls, hsweeps, hnone, ?_, ?_, hjournal, ?_⟩
  · rw [hsucceeded]
    rfl
  · rw [hfailed, hwaiting]
    rfl
  · rw [hcalls "broken" (by decide)]
    rfl
end Resubmission

end DeliveryLedger
