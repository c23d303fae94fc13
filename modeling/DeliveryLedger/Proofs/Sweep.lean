import DeliveryLedger.Proofs.Invocation
import DeliveryLedger.Resubmission
/-!
A sweep from its read to its report.

The sweep pays the selected records one visit each, in the order of the read, and every visit
finds the node as the visits before it left it (`visits`).  What a visit comes to depends on
the payload, the registry, the handler and the completion at that moment; journal, store and
report of the whole sweep are put together from its visits.  A visit ends the sweep if the class
of the record raises a fault over the payload (`Visit.raised?`).
-/

namespace DeliveryLedger.Resubmission

open Act

/-- A record whose turn it is, and the node as it stands then. -/
structure Visit where
  record : PublicationRecord
  node : Node

namespace Visit

/-- The occurrence rebuilt, and the modules after that. -/
def resolved (v : Visit) : Except Fault Occurrence × ModuleSpace :=
  v.record.payload.resolve v.node.space

/-- The fault raised over the payload, unless it says that the payload cannot be resolved. -/
def raised? (v : Visit) : Option Fault :=
  match v.resolved.1 with
  | .error fault => if fault.isUnresolvable then none else some fault
  | .ok _ => none

/-- The handler to invoke and the occurrence to invoke it with, if there are both. -/
def target? (v : Visit) : Option (HandlerDescriptor × Occurrence) :=
  match v.resolved.1, v.node.registry.get? v.record.handlerId with
  | .ok o, some h => some (h, o)
  | _, _ => none

def invocation (v : Visit) (h : HandlerDescriptor) (o : Occurrence) : Except Fault Unit × Node :=
  (Dispatch.invoke h o).outcome { v.node with space := v.resolved.2 }

def completion (v : Visit) (h : HandlerDescriptor) (o : Occurrence) : Except Fault Bool × Node :=
  (Ledger.complete v.record.id).outcome (v.invocation h o).2

/-- The handler returned normally, and the completion was written. -/
def confirmed (v : Visit) : Bool :=
  match v.target? with
  | some (h, o) => (v.invocation h o).1.isOk && (v.completion h o).1.isOk
  | none => false

/-- The invocations of a visit: of the record's own handler, with the rebuilt occurrence.  A
handler without a body is never reached. -/
def calls (v : Visit) : List Call :=
  match v.target? with
  | some (h, o) =>
    if h.body.isSome then [⟨v.record.handlerId, o.type, o.toJson.canonical⟩] else []
  | none => []

def came (v : Visit) : Replay :=
  if v.target?.isNone then .skipped else if v.confirmed then .succeeded else .failed

def result (v : Visit) : Except Fault Replay :=
  match v.raised? with
  | some fault => .error fault
  | none => .ok v.came

end Visit

/-- The visits to a row of records, from the node `p` on.  One that ends with a fault is the
last. -/
def visits (p : Node) : List PublicationRecord → List Visit
  | [] => []
  | r :: rest =>
    ⟨r, p⟩ :: match (replay r).outcome p with
      | (.ok _, q) => visits q rest
      | (.error _, _) => []

def confirmedIds (vs : List Visit) : List RecordId := (vs.filter (·.confirmed)).map (·.record.id)

theorem confirmedIds_append (us vs : List Visit) :
    confirmedIds (us ++ vs) = confirmedIds us ++ confirmedIds vs := by
  rw [confirmedIds, List.filter_append, List.map_append]
  rfl

theorem visits_of_ok {p q : Node} {r : PublicationRecord} {came : Replay}
    (h : (replay r).outcome p = (.ok came, q)) (rest : List PublicationRecord) :
    visits p (r :: rest) = ⟨r, p⟩ :: visits q rest := by
  rw [visits, h]

theorem visits_of_error {p q : Node} {r : PublicationRecord} {fault : Fault}
    (h : (replay r).outcome p = (.error fault, q)) (rest : List PublicationRecord) :
    visits p (r :: rest) = [⟨r, p⟩] := by
  rw [visits, h]

theorem records_visits (p : Node) (rs : List PublicationRecord) :
    (visits p rs).map (·.record) <+: rs := by
  induction rs generalizing p with
  | nil => exact List.prefix_refl []
  | cons r rs ih =>
      rcases hreplay : (replay r).outcome p with ⟨fault | came, q⟩
      · rw [visits_of_error hreplay]
        exact List.prefix_cons_inj r |>.mpr List.nil_prefix
      · rw [visits_of_ok hreplay]
        exact List.prefix_cons_inj r |>.mpr (ih q)

theorem mem_of_mem_confirmedIds {p : Node} {rs : List PublicationRecord} {id : RecordId}
    (h : id ∈ confirmedIds (visits p rs)) : id ∈ rs.map (·.id) := by
  obtain ⟨v, hv, rfl⟩ := List.mem_map.mp h
  exact List.mem_map_of_mem
    ((records_visits p rs).subset (List.mem_map_of_mem (List.mem_filter.mp hv).1))

/-- What a row of visits makes of a node: their invocations are in the journal, the confirmed
records are completed, and the other records are as they were. -/
structure Swept (p : Node) (vs : List Visit) (z : Node) : Prop where
  journal : z.journal = p.journal ++ vs.flatMap Visit.calls
  records : ∃ moment, z.store.records = Store.markAll (confirmedIds vs) moment p.store.records

namespace Swept

variable {p q z : Node} {v : Visit} {vs : List Visit}

theorem refl (p : Node) : Swept p [] p where
  journal := by simp
  records := ⟨fun _ => default, (Store.markAll_nil _ _).symm⟩

theorem of_unconfirmed (hconfirmed : v.confirmed = false) (hstore : q.store = p.store)
    (hjournal : q.journal = p.journal ++ v.calls) : Swept p [v] q where
  journal := by simpa using hjournal
  records := by
    refine ⟨fun _ => default, ?_⟩
    rw [hstore, confirmedIds, List.filter_cons_of_neg (by simp [hconfirmed])]
    exact (Store.markAll_nil _ _).symm

theorem ids_eq (h : Swept p vs z) : z.store.ids = p.store.ids := by
  obtain ⟨moment, hrecords⟩ := h.records
  rw [Store.ids, hrecords, Store.ids_markAll]
  rfl

theorem mem_of_notMem (h : Swept p vs z) {r : PublicationRecord} (hr : r ∈ p.store.records)
    (hid : r.id ∉ confirmedIds vs) : r ∈ z.store.records := by
  obtain ⟨moment, hrecords⟩ := h.records
  rw [hrecords]
  exact Store.mem_markAll_of_notMem hr hid

theorem append {us : List Visit} (h : Swept p us q) (k : Swept q vs z)
    (hdisjoint : ∀ id ∈ confirmedIds us, id ∉ confirmedIds vs) : Swept p (us ++ vs) z where
  journal := by
    rw [k.journal, h.journal, List.append_assoc, ← List.flatMap_append]
  records := by
    obtain ⟨moment, hq⟩ := h.records
    obtain ⟨moment', hz⟩ := k.records
    rw [hz, hq, Store.markAll_markAll hdisjoint, confirmedIds_append]
    exact ⟨_, rfl⟩

theorem cons (h : Swept p [v] q) (k : Swept q vs z) (hid : v.record.id ∉ confirmedIds vs) :
    Swept p (v :: vs) z := by
  refine h.append k ?_
  intro id hmem
  obtain ⟨w, hw, rfl⟩ := List.mem_map.mp hmem
  obtain rfl := List.mem_singleton.mp (List.mem_filter.mp hw).1
  exact hid

end Swept

namespace Visit

variable {v : Visit} {h : HandlerDescriptor} {o : Occurrence}

theorem eq_of_target (htarget : v.target? = some (h, o)) :
    v.resolved.1 = .ok o ∧ v.node.registry.get? v.record.handlerId = some h := by
  unfold target? at htarget
  split at htarget
  · rename_i hresolved hget
    obtain ⟨rfl, rfl⟩ := Prod.mk.inj (Option.some.inj htarget)
    exact ⟨hresolved, hget⟩
  · simp at htarget

theorem raised?_of_isOk (hok : v.resolved.1.isOk = true) : v.raised? = none := by
  unfold raised?
  cases hresolved : v.resolved.1 with
  | error fault =>
      rw [hresolved] at hok
      cases hok
  | ok o => rfl

theorem raised?_of_target (htarget : v.target? = some (h, o)) : v.raised? = none :=
  raised?_of_isOk (by rw [(eq_of_target htarget).1]; rfl)

theorem target?_of_raised {fault : Fault} (hraised : v.raised? = some fault) :
    v.target? = none := by
  rcases htarget : v.target? with _ | ⟨h, o⟩
  · rfl
  · rw [raised?_of_target htarget] at hraised
    cases hraised

theorem calls_of_target (htarget : v.target? = some (h, o)) :
    v.calls = Dispatch.entries h o := by
  have hid : h.id = v.record.handlerId := by
    simpa using List.find?_some (eq_of_target htarget).2
  rw [calls, htarget, Dispatch.entries, hid]

theorem calls_of_no_target (htarget : v.target? = none) : v.calls = [] := by
  rw [calls, htarget]

theorem confirmed_of_no_target (htarget : v.target? = none) : v.confirmed = false := by
  rw [confirmed, htarget]

theorem came_of_no_target (htarget : v.target? = none) : v.came = .skipped := by
  rw [came, htarget]
  rfl

theorem came_of_target (htarget : v.target? = some (h, o)) :
    v.came = if v.confirmed then .succeeded else .failed := by
  rw [came, htarget]
  rfl

/-! ### The course of a visit -/

theorem outcome_rebuild (v : Visit) :
    outcome (rebuild v.record) v.node =
      (.ok v.resolved.1, { v.node with space := v.resolved.2 }) := rfl

theorem replay_of_raised {fault : Fault} (hraised : v.raised? = some fault) :
    outcome (replay v.record) v.node = (.error fault, { v.node with space := v.resolved.2 }) := by
  unfold raised? at hraised
  split at hraised
  · rename_i fault' hresolved
    split_ifs at hraised with hunresolvable
    cases hraised
    unfold replay
    rw [outcome_bind_of_ok v.outcome_rebuild, hresolved]
    dsimp only
    rw [if_neg hunresolvable]
    rfl
  · cases hraised

theorem replay_of_no_target (htarget : v.target? = none) (hcalm : v.raised? = none) :
    ∃ lines, outcome (replay v.record) v.node =
      (.ok .skipped, ({ v.node with space := v.resolved.2 } : Node).logged lines) := by
  unfold replay
  rw [outcome_bind_of_ok v.outcome_rebuild]
  cases hresolved : v.resolved.1 with
  | error fault =>
      have hunresolvable : fault.isUnresolvable = true := by
        by_contra hother
        rw [raised?, hresolved] at hcalm
        simp [hother] at hcalm
      dsimp only
      rw [if_pos hunresolvable]
      exact ⟨_, rfl⟩
  | ok o =>
      have hget : v.node.registry.get? v.record.handlerId = none := by
        rw [target?, hresolved] at htarget
        cases hget : v.node.registry.get? v.record.handlerId with
        | none => rfl
        | some h => simp [hget] at htarget
      dsimp only
      rw [outcome_bind_of_ok (outcome_get _)]
      dsimp only
      rw [hget]
      exact ⟨_, rfl⟩

theorem replay_of_target {r : Except Fault Unit} {n : Node} (htarget : v.target? = some (h, o))
    (hinvoke : v.invocation h o = (r, n)) :
    (∀ fault, r = .error fault →
      ∃ lines, outcome (replay v.record) v.node = (.ok .failed, n.logged lines)) ∧
    (r = .ok () → outcome (replay v.record) v.node = outcome (confirm v.record) n) := by
  have hattempt : outcome (Act.attempt (Dispatch.invoke h o))
      { v.node with space := v.resolved.2 } = (.ok r, n) := by
    rw [outcome_attempt]
    exact congrArg (fun x => (Except.ok x.1, x.2)) hinvoke
  obtain ⟨hresolved, hget⟩ := eq_of_target htarget
  unfold replay
  rw [outcome_bind_of_ok v.outcome_rebuild, hresolved]
  dsimp only
  rw [outcome_bind_of_ok (outcome_get _)]
  dsimp only
  rw [hget]
  dsimp only
  rw [outcome_bind_of_ok hattempt]
  constructor
  · rintro fault rfl
    exact ⟨_, rfl⟩
  · rintro rfl
    rfl

theorem confirm_cases (r : PublicationRecord) (n : Node) :
    ∃ lines, outcome (confirm r) n =
      (.ok (if (outcome (Ledger.complete r.id) n).1.isOk then .succeeded else .failed),
        (outcome (Ledger.complete r.id) n).2.logged lines) := by
  unfold confirm
  rw [outcome_bind_of_ok (outcome_attempt _ n)]
  rcases outcome (Ledger.complete r.id) n with ⟨fault | won, k⟩ <;> exact ⟨_, rfl⟩

theorem raised?_of_replay {fault : Fault} {q : Node}
    (hreplay : outcome (replay v.record) v.node = (.error fault, q)) : v.raised? = some fault := by
  rcases hraised : v.raised? with _ | cause
  · exfalso
    rcases htarget : v.target? with _ | ⟨h, o⟩
    · obtain ⟨lines, hskipped⟩ := replay_of_no_target htarget hraised
      rw [hskipped] at hreplay
      cases hreplay
    · rcases hinvoke : v.invocation h o with ⟨cause | _, n⟩
      · obtain ⟨lines, hfailed⟩ := (replay_of_target htarget hinvoke).1 cause rfl
        rw [hfailed] at hreplay
        cases hreplay
      · obtain ⟨lines, hconfirm⟩ := confirm_cases v.record n
        rw [(replay_of_target htarget hinvoke).2 rfl, hconfirm] at hreplay
        cases hreplay
  · rw [replay_of_raised hraised] at hreplay
    cases hreplay
    rfl

end Visit

variable {p : Node}

theorem Swept.of_no_target {v : Visit} {q : Node} (htarget : v.target? = none)
    (hstore : q.store = v.node.store) (hjournal : q.journal = v.node.journal) :
    Swept v.node [v] q := by
  refine .of_unconfirmed (Visit.confirmed_of_no_target htarget) hstore ?_
  rw [hjournal, Visit.calls_of_no_target htarget, List.append_nil]

theorem replay_visit_of_target {v : Visit} {h : HandlerDescriptor} {o : Occurrence}
    (hids : v.node.store.ids.Nodup) (hr : v.record ∈ v.node.store.records)
    (hpending : v.record.isPending) (htarget : v.target? = some (h, o)) :
    ∃ q, outcome (replay v.record) v.node = (.ok v.came, q) ∧ Swept v.node [v] q := by
  have hconfirmed : v.confirmed = ((v.invocation h o).1.isOk && (v.completion h o).1.isOk) := by
    rw [Visit.confirmed, htarget]
  rw [Visit.came_of_target htarget]
  rcases hinvoke : v.invocation h o with ⟨r, n⟩
  obtain ⟨hraised, hreturned⟩ := Visit.replay_of_target htarget hinvoke
  obtain ⟨clock, reacted, hn⟩ := Dispatch.invoke_frame hinvoke
  have hjournal : n.journal = v.node.journal ++ v.calls := by
    rw [hn, Visit.calls_of_target htarget]
  have hstore : n.store = v.node.store := by
    rw [hn]
  rw [hinvoke] at hconfirmed
  cases r with
  | error fault =>
      have hfailed : v.confirmed = false := hconfirmed
      obtain ⟨lines, hreplay⟩ := hraised fault rfl
      rw [hfailed]
      exact ⟨_, hreplay, .of_unconfirmed hfailed hstore hjournal⟩
  | ok _ =>
      obtain ⟨lines, hconfirm⟩ := Visit.confirm_cases v.record n
      have hcompletion : v.completion h o = outcome (Ledger.complete v.record.id) n := by
        rw [Visit.completion, hinvoke]
      rw [hcompletion] at hconfirmed
      refine ⟨_, (hreturned rfl).trans (hconfirm.trans (by rw [hconfirmed]; rfl)), ?_⟩
      rcases hcomplete : outcome (Ledger.complete v.record.id) n with ⟨result, k⟩
      rw [hcomplete] at hconfirmed
      -- The invocation has left the store alone, so the record is still pending there.
      rw [← hstore] at hids hr
      rcases Ledger.complete_of_isPending hids hr hpending hcomplete with
        ⟨⟨fault, rfl⟩, hbecomes⟩ | ⟨rfl, s, hbecomes, hrecords⟩
      · refine .of_unconfirmed hconfirmed (hbecomes.store.trans hstore) ?_
        exact hbecomes.journal.trans hjournal
      · constructor
        · rw [List.flatMap_singleton]
          exact hbecomes.journal.trans hjournal
        · have hids : confirmedIds [v] = [v.record.id] := by
            have htrue : v.confirmed = true := hconfirmed
            simp [confirmedIds, htrue]
          refine ⟨fun _ => n.store.keepInstant n.clock.now, ?_⟩
          rw [hids, ← hstore, ← hrecords, ← hbecomes.store]
          rfl

theorem replay_visit {v : Visit} (hids : v.node.store.ids.Nodup)
    (hr : v.record ∈ v.node.store.records) (hpending : v.record.isPending) :
    ∃ q, outcome (replay v.record) v.node = (v.result, q) ∧ Swept v.node [v] q := by
  rcases hraised : v.raised? with _ | fault
  · rw [Visit.result, hraised]
    rcases htarget : v.target? with _ | ⟨h, o⟩
    · obtain ⟨lines, hreplay⟩ := Visit.replay_of_no_target htarget hraised
      rw [Visit.came_of_no_target htarget]
      exact ⟨_, hreplay, .of_no_target htarget rfl rfl⟩
    · exact replay_visit_of_target hids hr hpending htarget
  · rw [Visit.result, hraised]
    exact ⟨_, Visit.replay_of_raised hraised,
      .of_no_target (Visit.target?_of_raised hraised) rfl rfl⟩

/-! ### The whole sweep -/

/-- A report with the outcomes of further visits. -/
def tally (report : Report) (vs : List Visit) : Report :=
  vs.foldl (fun report v => count report v.came) report

/-- What a row of visits ends with: a report, or the fault that one of them raises. -/
def ending (report : Report) (vs : List Visit) : Except Fault Report :=
  match vs.findSome? Visit.raised? with
  | some fault => .error fault
  | none => .ok (tally report vs)

theorem ending_of_calm {report : Report} {vs : List Visit} (h : ∀ v ∈ vs, v.raised? = none) :
    ending report vs = .ok (tally report vs) := by
  rw [ending, List.findSome?_eq_none_iff.mpr h]

theorem ending_cons {report : Report} {v : Visit} (h : v.raised? = none) (vs : List Visit) :
    ending report (v :: vs) = ending (count report v.came) vs := by
  rw [ending, ending, List.findSome?_cons, h]
  rfl

theorem records_visits_of_calm {rs : List PublicationRecord}
    (h : ∀ v ∈ visits p rs, v.raised? = none) : (visits p rs).map (·.record) = rs := by
  induction rs generalizing p with
  | nil => rfl
  | cons r rs ih =>
      rcases hreplay : (replay r).outcome p with ⟨fault | came, q⟩
      · have hraised := Visit.raised?_of_replay (v := ⟨r, p⟩) hreplay
        rw [visits_of_error hreplay, List.forall_mem_singleton, hraised] at h
        cases h
      · rw [visits_of_ok hreplay] at h ⊢
        rw [List.map_cons, ih (List.forall_mem_cons.mp h).2]

/-- The visits to the selected ones of a row of different pending records. -/
theorem replayFrom_visits (predicate : PublicationRecord → Bool) {rs : List PublicationRecord}
    (report : Report) (hids : p.store.ids.Nodup) (hnodup : (rs.map (·.id)).Nodup)
    (hpending : ∀ r ∈ rs, r ∈ p.store.records ∧ r.isPending) :
    ∃ z, outcome (replayFrom (fun r => .ok (predicate r)) report rs) p =
        (ending report (visits p (rs.filter predicate)), z) ∧
      Swept p (visits p (rs.filter predicate)) z := by
  induction rs generalizing p report with
  | nil => exact ⟨p, rfl, .refl p⟩
  | cons r rs ih =>
      obtain ⟨hr, hopen⟩ := hpending r (by simp)
      rw [List.map_cons] at hnodup
      obtain ⟨hnew, htail⟩ := List.nodup_cons.mp hnodup
      rw [replayFrom, outcome_bind_of_ok (outcome_lift _ p)]
      cases hselected : predicate r with
      | false =>
          rw [List.filter_cons_of_neg (by simp [hselected])]
          exact ih report hids htail fun x hx => hpending x (by simp [hx])
      | true =>
          rw [List.filter_cons_of_pos hselected]
          simp only [if_true]
          obtain ⟨q, hvisit, hswept⟩ := replay_visit (v := ⟨r, p⟩) hids hr hopen
          rw [Visit.result] at hvisit
          rcases hraised : Visit.raised? ⟨r, p⟩ with _ | fault
          swap
          · rw [hraised] at hvisit
            rw [visits_of_error hvisit, outcome_bind, hvisit]
            refine ⟨q, ?_, hswept⟩
            rw [ending, List.findSome?_singleton, hraised]
          rw [hraised] at hvisit
          rw [visits_of_ok hvisit, outcome_bind_of_ok hvisit, ending_cons hraised]
          -- This visit completes no record but its own: the later ones keep their turns.
          have hother : ∀ x ∈ rs, x.id ∉ confirmedIds [⟨r, p⟩] := by
            intro x hx hmem
            obtain ⟨v, hv, hid⟩ := List.mem_map.mp hmem
            obtain rfl := List.mem_singleton.mp (List.mem_filter.mp hv).1
            exact hnew (List.mem_map.mpr ⟨x, hx, hid.symm⟩)
          have hlater : ∀ x ∈ rs, x ∈ q.store.records ∧ x.isPending := by
            intro x hx
            obtain ⟨hmem, hopen'⟩ := hpending x (by simp [hx])
            exact ⟨hswept.mem_of_notMem hmem (hother x hx), hopen'⟩
          obtain ⟨z, hrest, hswept'⟩ := ih (count report (Visit.mk r p).came)
            (hswept.ids_eq ▸ hids) htail hlater
          refine ⟨z, hrest, hswept.cons hswept' ?_⟩
          intro hmem
          obtain ⟨x, hx, hid⟩ := List.mem_map.mp (mem_of_mem_confirmedIds hmem)
          exact hnew (List.mem_map.mpr ⟨x, (List.mem_filter.mp hx).1, hid⟩)

theorem tally_eq (report : Report) (vs : List Visit) :
    tally report vs =
      { attempted := report.attempted + vs.countP (·.target?.isSome)
        succeeded := report.succeeded + vs.countP (·.confirmed)
        failed := report.failed + vs.countP fun v => v.target?.isSome && !v.confirmed
        skipped := report.skipped + vs.countP (·.target?.isNone) } := by
  induction vs generalizing report with
  | nil => simp [tally]
  | cons v vs ih =>
      rw [tally, List.foldl_cons]
      change tally _ vs = _
      rw [ih]
      rcases htarget : v.target? with _ | ⟨h, o⟩
      · have hconfirmed := Visit.confirmed_of_no_target htarget
        rw [Visit.came_of_no_target htarget]
        simp [count, htarget, hconfirmed]
        omega
      · rw [Visit.came_of_target htarget]
        cases hconfirmed : v.confirmed <;>
          simp [count, htarget, hconfirmed] <;> omega

/-- A class without fields. -/
def orderClass : OccurrenceClass :=
  { key := "Order", moduleName := "shop", localName := "Order", pinned := none, fields := []
    lineage := [1, 0] }

/-- A class that looks its code up among the known ones. -/
def couponClass : OccurrenceClass :=
  { key := "Coupon", moduleName := "shop", localName := "Coupon", pinned := none
    fields := [⟨"code", .text, none⟩], lineage := [2, 0]
    rules.verdict := fun values =>
      match member? "code" values with
      | some (.text code) =>
        if code = "aa" then .ok () else .error (.raised (.foreign .key code))
      | _ => .ok () }

def orderSpace : ModuleSpace :=
  { ModuleSpace.initial [] with
    catalogue :=
      { classes := [Catalogue.baseClass, orderClass, couponClass]
        registry := [("shop.Order", 1), ("shop.Coupon", 2)] } }

/-- A pending order, by its number and handler. -/
def orderRecord (n : Nat) (handlerId : String) : PublicationRecord :=
  { id := RecordId.drawn n, handlerId, payload := ⟨"shop.Order", "\x7b\x7d"⟩
    publishedAt := Clock.epoch, completedAt := none }

end DeliveryLedger.Resubmission
