import DeliveryLedger.Proofs.InFlight
import DeliveryLedger.Proofs.Sweep
import Mathlib.Tactic.Abel
/-!
Whole operations of a node as runs of single steps.

The background tasks of a node are under way in the world of the node (`Node.world`), and each
operation from beginning to end takes that world to the world of the node after it, whatever
else is under way (`Operation.run`).
-/

namespace DeliveryLedger

/-- The node changed in nothing that a delivery depends on. -/
structure Node.Drifts (p q : Node) : Prop where
  store : q.store = p.store
  drawn : q.drawn = p.drawn
  queued : q.queued = p.queued
  paused : q.paused = p.paused
  aware : p.clock.now.isAware → q.clock.now.isAware

namespace Node

/-- The world of a node: its background tasks are under way, and so are further threads. -/
def world (p : Node) (u : Multiset Thread) : World :=
  ⟨p, (p.queued.map .invoking : List Thread) + ((p.paused.map .running : List Thread) + u)⟩

theorem Drifts.refl (p : Node) : p.Drifts p := by
  constructor <;> simp

theorem Drifts.trans {p q z : Node} (h : p.Drifts q) (k : q.Drifts z) : p.Drifts z where
  store := k.store.trans h.store
  drawn := k.drawn.trans h.drawn
  queued := k.queued.trans h.queued
  paused := k.paused.trans h.paused
  aware := k.aware ∘ h.aware

theorem Becomes.drifts {p q : Node} (h : p.Becomes p.store q) : p.Drifts q where
  store := h.store
  drawn := h.drawn
  queued := h.queued
  paused := h.paused
  aware haware := by rwa [h.clock]

theorem drifts_logged (p : Node) (lines : List LogLine) : p.Drifts (p.logged lines) :=
  (p.becomes_logged lines).drifts

theorem world_cons (p : Node) (t : Thread) (u : Multiset Thread) :
    p.world (t ::ₘ u) = ⟨p, t ::ₘ (p.world u).threads⟩ := by
  simp [world]

theorem world_add (p : Node) (v u : Multiset Thread) :
    p.world (v + u) = ⟨p, v + (p.world u).threads⟩ := by
  simp only [world, World.mk.injEq, true_and]
  rw [add_left_comm v, add_left_comm v]

theorem world_eq {p q : Node} (hqueued : q.queued = p.queued) (hpaused : q.paused = p.paused)
    (u : Multiset Thread) : q.world u = ⟨q, (p.world u).threads⟩ := by
  simp only [world, hqueued, hpaused]

end Node

/-- Some run leads from one world to the other, without any call to complete a record. -/
def World.Leads (w z : World) : Prop := ∃ E, Run w E z ∧ ∀ e ∈ E, ¬ e.IsCall

namespace World

theorem Leads.refl (w : World) : w.Leads w := ⟨[], .here w, by simp⟩

theorem Leads.trans {w m z : World} (h : w.Leads m) (k : m.Leads z) : w.Leads z := by
  obtain ⟨E, hE, hcalls⟩ := h
  obtain ⟨F, hF, hcalls'⟩ := k
  refine ⟨E ++ F, hE.trans hF, ?_⟩
  exact List.forall_mem_append.mpr ⟨hcalls, hcalls'⟩

theorem leads_of_step {w z : World} {E : List Event} (h : Step w E z)
    (hcalls : ∀ e ∈ E, ¬ e.IsCall) : w.Leads z :=
  ⟨E ++ [], .step h (.here z), by simpa using hcalls⟩

end World

theorem World.leads_of_regrouped {p q : Node} {u v : Multiset Thread}
    (hstore : q.store = p.store) (hdrawn : q.drawn = p.drawn)
    (haware : p.clock.now.isAware → q.clock.now.isAware)
    (hthreads : (q.world v).threads = (p.world u).threads) :
    (p.world u).Leads (q.world v) := by
  have hworld : q.world v = ⟨q, (p.world u).threads⟩ := by
    rw [← hthreads]
    rfl
  rw [hworld]
  exact leads_of_step (.change hstore hdrawn haware) (by simp)

open Act

section

variable {p q : Node} {u : Multiset Thread} {t : Task}

theorem Node.Drifts.leads (h : p.Drifts q) : (p.world u).Leads (q.world u) := by
  rw [Node.world_eq h.queued h.paused]
  exact World.leads_of_step (.change h.store h.drawn h.aware) (by simp)

theorem leads_fail {thread : Thread} (h : thread.Fails p q) (hqueued : q.queued = p.queued)
    (hpaused : q.paused = p.paused) : (p.world (thread ::ₘ u)).Leads (q.world u) := by
  rw [Node.world_cons, Node.world_eq hqueued hpaused]
  exact World.leads_of_step (.fail h) (by simp)

namespace Dispatch

theorem announce_drifts {h : HandlerDescriptor} {o : Occurrence} {r : Except Fault String}
    (hannounce : outcome (announce h o) p = (r, q)) : p.Drifts q := by
  cases hbody : h.body with
  | none =>
      rw [announce_of_no_body hbody] at hannounce
      obtain ⟨-, rfl⟩ := Prod.mk.inj hannounce
      exact .refl p
  | some body =>
      rw [announce_of_body hbody] at hannounce
      obtain ⟨-, rfl⟩ := Prod.mk.inj hannounce
      constructor <;> simp

theorem body_of_announce {h : HandlerDescriptor} {o : Occurrence} {body : String}
    (hannounce : outcome (announce h o) p = (.ok body, q)) : h.body = some body := by
  cases hbody : h.body with
  | none =>
      rw [announce_of_no_body hbody] at hannounce
      simp at hannounce
  | some name =>
      rw [announce_of_body hbody] at hannounce
      obtain ⟨hname, -⟩ := Prod.mk.inj hannounce
      rw [Except.ok.inj hname]

theorem react_drifts {body : String} {r : Except Fault Unit}
    (h : outcome (react body) p = (r, q)) : p.Drifts q := by
  obtain ⟨clock, reacted, haware, rfl⟩ := react_frame h
  exact ⟨rfl, rfl, rfl, rfl, haware⟩

end Dispatch

theorem exists_becomes_of_insert {records : List PublicationRecord} {r : Except Fault Unit}
    (h : outcome (Ledger.insert records) p = (r, q)) : ∃ s, p.Becomes s q := by
  rcases Ledger.insertSeeing_cases h with ⟨-, hbecomes⟩ | ⟨-, _, _, _, _, -, hbecomes⟩ <;>
    exact ⟨_, hbecomes⟩

theorem exists_becomes_of_complete {id : RecordId} {r : Except Fault Bool}
    (h : outcome (Ledger.complete id) p = (r, q)) : ∃ s, p.Becomes s q := by
  rcases Ledger.complete_cases h with ⟨-, hbecomes⟩ | ⟨-, hbecomes⟩ <;> exact ⟨_, hbecomes⟩

namespace Dispatch

theorem leads_of_confirm {r : Except Fault Unit} (h : outcome (confirm t) p = (r, q)) :
    r = .ok () ∧ (p.world (.confirming t ::ₘ u)).Leads (q.world u) := by
  unfold confirm at h
  rw [outcome_bind_of_ok (outcome_attempt _ p)] at h
  rcases hcomplete : outcome (Ledger.complete t.record) p with ⟨fault | won, m⟩
  · rw [hcomplete] at h
    obtain ⟨s, hbecomes⟩ := exists_becomes_of_complete hcomplete
    obtain ⟨rfl, rfl⟩ := Prod.mk.inj h
    exact ⟨rfl, (leads_fail (.confirm hcomplete) hbecomes.queued hbecomes.paused).trans
      (m.drifts_logged _).leads⟩
  · rw [hcomplete] at h
    obtain ⟨s, hbecomes⟩ := exists_becomes_of_complete hcomplete
    obtain ⟨rfl, rfl⟩ := Prod.mk.inj h
    rw [Node.world_cons, Node.world_eq hbecomes.queued hbecomes.paused]
    exact ⟨rfl, World.leads_of_step (.confirm hcomplete) (Event.not_isCall_confirmed _ _)⟩

theorem leads_of_react {body : String} {r : Except Fault Unit}
    (hbody : t.handler.body = some body) (h : outcome (react body) p = (r, q)) :
    (r = .ok () ∧ (p.world (.running t ::ₘ u)).Leads (q.world (.confirming t ::ₘ u))) ∨
      (∃ fault, r = .error fault) ∧ (p.world (.running t ::ₘ u)).Leads (q.world u) := by
  have hdrifts := react_drifts h
  rcases r with fault | ⟨⟩
  · exact .inr ⟨⟨fault, rfl⟩, leads_fail (.raise hbody h) hdrifts.queued hdrifts.paused⟩
  · refine .inl ⟨rfl, ?_⟩
    rw [Node.world_cons, Node.world_cons, Node.world_eq hdrifts.queued hdrifts.paused]
    exact World.leads_of_step (.returns hbody h) (by simp [Event.IsCall])

theorem leads_of_announce {r : Except Fault String}
    (h : outcome (announce t.handler t.occurrence) p = (r, q)) :
    (∃ body, r = .ok body ∧ t.handler.body = some body ∧
        (p.world (.invoking t ::ₘ u)).Leads (q.world (.running t ::ₘ u))) ∨
      (∃ fault, r = .error fault) ∧ (p.world (.invoking t ::ₘ u)).Leads (q.world u) := by
  have hdrifts := announce_drifts h
  rcases r with fault | body
  · exact .inr ⟨⟨fault, rfl⟩, leads_fail (.invoke h) hdrifts.queued hdrifts.paused⟩
  · refine .inl ⟨body, rfl, body_of_announce h, ?_⟩
    rw [Node.world_cons, Node.world_cons, Node.world_eq hdrifts.queued hdrifts.paused]
    exact World.leads_of_step (.invoke h) (by simp)

theorem leads_of_invoke {r : Except Fault Unit}
    (h : outcome (invoke t.handler t.occurrence) p = (r, q)) :
    (r = .ok () ∧ (p.world (.invoking t ::ₘ u)).Leads (q.world (.confirming t ::ₘ u))) ∨
      (∃ fault, r = .error fault) ∧ (p.world (.invoking t ::ₘ u)).Leads (q.world u) := by
  rcases cases_of_outcome_bind h with ⟨fault, hannounce, rfl⟩ | ⟨body, m, hannounce, hreact⟩
  · rcases leads_of_announce (u := u) hannounce with ⟨body, hr, -⟩ | ⟨-, hleads⟩
    · simp at hr
    · exact .inr ⟨⟨fault, rfl⟩, hleads⟩
  · rcases leads_of_announce (u := u) hannounce with
      ⟨name, hname, hbody, hleads⟩ | ⟨⟨fault, hr⟩, -⟩
    · obtain rfl := Except.ok.inj hname
      rcases leads_of_react (u := u) hbody hreact with ⟨hr, hreturn⟩ | ⟨hfault, hraise⟩
      · exact .inl ⟨hr, hleads.trans hreturn⟩
      · exact .inr ⟨hfault, hleads.trans hraise⟩
    · simp at hr

theorem leads_of_settle {w : World} {r r' : Except Fault Unit}
    (hinvoked : (r' = .ok () ∧ w.Leads (p.world (.confirming t ::ₘ u))) ∨
      (∃ fault, r' = .error fault) ∧ w.Leads (p.world u))
    (h : outcome (settleInvocation t r') p = (r, q)) :
    r = .ok () ∧ w.Leads (q.world u) := by
  rcases hinvoked with ⟨rfl, hleads⟩ | ⟨⟨fault, rfl⟩, hleads⟩
  · obtain ⟨hok, hconfirm⟩ := leads_of_confirm (u := u) h
    exact ⟨hok, hleads.trans hconfirm⟩
  · obtain ⟨rfl, rfl⟩ := Prod.mk.inj h
    exact ⟨rfl, hleads.trans (p.drifts_logged _).leads⟩

theorem leads_of_runInline {r : Except Fault Unit} (h : outcome (runInline t) p = (r, q)) :
    r = .ok () ∧ (p.world (.invoking t ::ₘ u)).Leads (q.world u) := by
  unfold runInline at h
  rw [outcome_bind_of_ok (outcome_attempt _ p)] at h
  exact leads_of_settle (leads_of_invoke rfl) h

theorem leads_of_resume {body : String} {r : Except Fault Unit}
    (hbody : t.handler.body = some body) (h : outcome (resume t body) p = (r, q)) :
    r = .ok () ∧ (p.world (.running t ::ₘ u)).Leads (q.world u) := by
  unfold resume at h
  rw [outcome_bind_of_ok (outcome_attempt _ p)] at h
  exact leads_of_settle (leads_of_react hbody rfl) h

theorem leads_of_startTask {r : Except Fault Unit} (h : outcome (startTask t) p = (r, q)) :
    r = .ok () ∧ (p.world (.invoking t ::ₘ u)).Leads (q.world u) := by
  unfold startTask at h
  rw [outcome_bind_of_ok (outcome_attempt _ p)] at h
  rcases hannounce : outcome (announce t.handler t.occurrence) p with ⟨r', m⟩
  rw [hannounce] at h
  rcases leads_of_announce (u := u) hannounce with
    ⟨body, rfl, hbody, hleads⟩ | ⟨⟨fault, rfl⟩, hleads⟩
  · rw [outcome_bind_of_ok (outcome_get m)] at h
    split at h
    · obtain ⟨rfl, rfl⟩ := Prod.mk.inj h
      refine ⟨rfl, hleads.trans (World.leads_of_regrouped rfl rfl id ?_)⟩
      simp only [Node.world, List.map_append, ← Multiset.coe_add, add_assoc]
      rfl
    · obtain ⟨hok, hresume⟩ := leads_of_resume (u := u) hbody h
      exact ⟨hok, hleads.trans hresume⟩
  · exact leads_of_settle (.inr ⟨⟨fault, rfl⟩, hleads⟩) h

theorem leads_of_each {α : Type} {act : α → Act Unit} {thread : α → Thread} {as : List α}
    {r : Except Fault Unit}
    (hact : ∀ a ∈ as, ∀ (p q : Node) (u : Multiset Thread) (r : Except Fault Unit),
      outcome (act a) p = (r, q) → r = .ok () ∧ (p.world (thread a ::ₘ u)).Leads (q.world u))
    (h : outcome (each act as) p = (r, q)) :
    r = .ok () ∧ (p.world ((as.map thread : List Thread) + u)).Leads (q.world u) := by
  induction as generalizing p with
  | nil =>
      obtain ⟨rfl, rfl⟩ := Prod.mk.inj h
      exact ⟨rfl, by simpa using World.Leads.refl _⟩
  | cons a as ih =>
      rw [each] at h
      rcases cases_of_outcome_bind h with ⟨fault, ha, -⟩ | ⟨_, m, ha, hrest⟩
      · obtain ⟨hok, -⟩ := hact a (by simp) p q u _ ha
        simp at hok
      · obtain ⟨-, hhead⟩ := hact a (by simp) p m ((as.map thread : List Thread) + u) _ ha
        obtain ⟨hok, htail⟩ := ih (fun b hb => hact b (by simp [hb])) hrest
        refine ⟨hok, ?_⟩
        rw [List.map_cons, ← Multiset.cons_coe, Multiset.cons_add]
        exact hhead.trans htail

theorem leads_of_runQueued {r : Except Fault Unit} (h : outcome runQueued p = (r, q)) :
    r = .ok () ∧ (p.world u).Leads (q.world u) := by
  unfold runQueued at h
  rw [outcome_bind_of_ok (outcome_get p), outcome_bind_of_ok (outcome_set _ _)] at h
  obtain ⟨hok, hleads⟩ := leads_of_each (u := u)
    (fun t _ _ _ _ _ ht => leads_of_startTask ht) h
  refine ⟨hok, World.Leads.trans ?_ hleads⟩
  refine World.leads_of_regrouped rfl rfl id ?_
  simp only [Node.world, List.map_nil, Multiset.coe_nil, zero_add]
  exact add_left_comm _ _ _

theorem leads_of_release {handler : String} {r : Except Fault Unit}
    (h : outcome (release handler) p = (r, q)) :
    r = .ok () ∧ (p.world u).Leads (q.world u) := by
  unfold release at h
  rw [outcome_bind_of_ok (outcome_get p)] at h
  dsimp only at h
  rw [List.partition_eq_filter_filter, outcome_bind_of_ok (outcome_set _ _)] at h
  obtain ⟨hok, hleads⟩ := leads_of_each (u := u) (fun t ht _ _ _ _ hresume =>
    leads_of_resume (by simpa using (List.mem_filter.mp ht).2) hresume) h
  refine ⟨hok, World.Leads.trans ?_ hleads⟩
  refine World.leads_of_regrouped rfl rfl id ?_
  have hparts := List.filter_append_perm (fun t : Task => t.handler.body = some handler) p.paused
  have hthreads := Multiset.coe_eq_coe.mpr (hparts.map Thread.running)
  rw [List.map_append, ← Multiset.coe_add] at hthreads
  simp only [Node.world, ← hthreads, add_assoc]
  exact congrArg _ (add_left_comm _ _ _)

theorem leads_of_whileStoring {handlers : List String} {r : Except Fault Unit}
    (h : outcome (whileStoring handlers) p = (r, q)) :
    r = .ok () ∧ (p.world u).Leads (q.world u) := by
  unfold whileStoring at h
  rw [outcome_bind_of_ok (outcome_get p)] at h
  dsimp only at h
  generalize (p.store.isTable && !_) = waits at h
  cases waits with
  | true => exact leads_of_runQueued h
  | false =>
      obtain ⟨rfl, rfl⟩ := Prod.mk.inj h
      exact ⟨rfl, .refl _⟩

theorem captured_drifts {capture : Option String} {o : Occurrence} {r : Except Fault Unit}
    (h : outcome (captured capture o) p = (r, q)) : r = .ok () ∧ p.Drifts q := by
  cases capture with
  | none =>
      obtain ⟨rfl, rfl⟩ := Prod.mk.inj h
      exact ⟨rfl, .refl p⟩
  | some name =>
      obtain ⟨rfl, rfl⟩ := Prod.mk.inj h
      exact ⟨rfl, by constructor <;> simp⟩

theorem leads_of_recordAnd {o : Occurrence} {handlers : List HandlerDescriptor}
    {r : Except Fault (List PublicationRecord)}
    (hhandlers : handlers = p.registry.handlersFor p.space.catalogue o.type)
    (h : outcome (Ledger.recordAnd (whileStoring (handlers.map (·.id))) o
      (handlers.map (·.id))) p = (r, q)) :
    ((∃ fault, r = .error fault) ∧ (p.world u).Leads (q.world u)) ∨
      ∃ records, r = .ok records ∧ (p.world u).Leads
        (q.world (((tasks o handlers records).map .invoking : List Thread) + u)) := by
  unfold Ledger.recordAnd Ledger.recordFrom at h
  dsimp only at h
  split at h
  · obtain ⟨rfl, rfl⟩ := Prod.mk.inj h
    exact .inl ⟨⟨_, rfl⟩, .refl _⟩
  split at h
  · obtain ⟨rfl, rfl⟩ := Prod.mk.inj h
    refine .inr ⟨[], rfl, ?_⟩
    simpa [tasks] using World.Leads.refl _
  rw [outcome_bind_of_ok (outcome_get p), outcome_bind_of_ok (outcome_set _ _)] at h
  have hpublish : ∀ records, records = Ledger.newRecords p.drawn
        (Payload.ofOccurrence p.space.catalogue o) p.clock.now (handlers.map (·.id)) →
      (p.world u).Leads
        (({ p with drawn := p.drawn + (handlers.map (·.id)).length } : Node).world
          (.storing o handlers records ::ₘ u)) := by
    rintro _ rfl
    rw [Node.world_cons, List.length_map]
    exact World.leads_of_step (.publish hhandlers) (by simp)
  rcases cases_of_outcome_bind h with ⟨fault, hwhile, rfl⟩ | ⟨_, m, hwhile, h⟩
  · obtain ⟨hok, -⟩ := leads_of_whileStoring (u := u) hwhile
    simp at hok
  generalize hrecords : Ledger.newRecordsFrom RecordId.drawn p.drawn
    (Payload.ofOccurrence p.space.catalogue o) p.clock.now (handlers.map (·.id)) = records at h
  obtain ⟨-, hwhile⟩ := leads_of_whileStoring (u := .storing o handlers records ::ₘ u) hwhile
  have hstart := (hpublish records hrecords.symm).trans hwhile
  rcases cases_of_outcome_bind h with ⟨fault, hinsert, rfl⟩ | ⟨⟨⟩, m', hinsert, h⟩
  · obtain ⟨s, hbecomes⟩ := exists_becomes_of_insert hinsert
    exact .inl ⟨⟨fault, rfl⟩,
      hstart.trans (leads_fail (.store hinsert) hbecomes.queued hbecomes.paused)⟩
  · obtain ⟨s, hbecomes⟩ := exists_becomes_of_insert hinsert
    obtain ⟨rfl, rfl⟩ := Prod.mk.inj h
    refine .inr ⟨records, rfl, hstart.trans (World.Leads.trans ?_ (m'.drifts_logged _).leads)⟩
    rw [Node.world_cons, Node.world_add, Node.world_eq hbecomes.queued hbecomes.paused]
    exact World.leads_of_step (.store hinsert) (Event.not_isCall_created _)

theorem leads_of_queued (all : List Task) :
    (p.world ((all.map .invoking : List Thread) + u)).Leads
      (({ p with queued := p.queued ++ all.filter (·.handler.asynchronous) } : Node).world
        (((all.filter (!·.handler.asynchronous)).map .invoking : List Thread) + u)) := by
  refine World.leads_of_regrouped rfl rfl id ?_
  have hparts := List.filter_append_perm (fun t : Task => t.handler.asynchronous) all
  have hthreads := Multiset.coe_eq_coe.mpr (hparts.map Thread.invoking)
  rw [List.map_append, ← Multiset.coe_add] at hthreads
  have hrest : ∀ a b c d : Multiset Thread, a + b + (c + (d + u)) = a + (c + (b + d + u)) := by
    intro a b c d
    abel
  simp only [Node.world, List.map_append, ← Multiset.coe_add, ← hthreads]
  exact hrest _ _ _ _

theorem leads_of_dispatch {o : Occurrence} {capture : Option String}
    {r : Except Fault (List PublicationRecord)}
    (h : outcome (dispatch o capture) p = (r, q)) : (p.world u).Leads (q.world u) := by
  unfold dispatch at h
  rcases cases_of_outcome_bind h with ⟨fault, hcaptured, -⟩ | ⟨_, m, hcaptured, h⟩
  · exact (captured_drifts hcaptured).2.leads
  apply (captured_drifts hcaptured).2.leads.trans
  rw [outcome_bind_of_ok (outcome_get m)] at h
  dsimp only at h
  split at h
  · obtain ⟨-, rfl⟩ := Prod.mk.inj h
    exact (m.drifts_logged _).leads
  rcases cases_of_outcome_bind h with ⟨fault, hrecord, rfl⟩ | ⟨records, m', hrecord, h⟩
  · rcases leads_of_recordAnd (u := u) rfl hrecord with ⟨-, hleads⟩ | ⟨records, hr, -⟩
    · exact hleads
    · simp at hr
  rcases leads_of_recordAnd (u := u) rfl hrecord with ⟨⟨fault, hr⟩, -⟩ | ⟨_, hr, hleads⟩
  · simp at hr
  obtain rfl := Except.ok.inj hr
  apply hleads.trans
  have hqueued := leads_of_queued (p := m') (u := u) (tasks o (m.registry.handlersFor
    m.space.catalogue o.type) records)
  apply hqueued.trans
  rw [outcome_bind_of_ok (outcome_modify _ m')] at h
  split at h
  · rename_i hinline
    obtain ⟨-, rfl⟩ := Prod.mk.inj h
    rw [hinline]
    simpa using World.Leads.refl _
  · rcases cases_of_outcome_bind h with ⟨fault, hrun, rfl⟩ | ⟨_, n, hrun, h⟩
    · obtain ⟨hok, -⟩ := leads_of_runQueued (u := u) hrun
      simp at hok
    apply (leads_of_runQueued hrun).2.trans
    rcases cases_of_outcome_bind h with ⟨fault, heach, rfl⟩ | ⟨_, n', heach, h⟩
    · exact (leads_of_each (fun t _ _ _ _ _ ht => leads_of_runInline ht) heach).2
    · obtain ⟨-, rfl⟩ := Prod.mk.inj h
      exact (leads_of_each (fun t _ _ _ _ _ ht => leads_of_runInline ht) heach).2

end Dispatch

namespace Resubmission

theorem leads_of_confirm {rec : PublicationRecord} {r : Except Fault Replay}
    (ht : t.record = rec.id) (h : outcome (confirm rec) p = (r, q)) :
    (∃ replay, r = .ok replay) ∧ (p.world (.confirming t ::ₘ u)).Leads (q.world u) := by
  unfold confirm at h
  rw [outcome_bind_of_ok (outcome_attempt _ p)] at h
  rcases hcomplete : outcome (Ledger.complete rec.id) p with ⟨fault | won, m⟩
  · rw [hcomplete] at h
    obtain ⟨s, hbecomes⟩ := exists_becomes_of_complete hcomplete
    obtain ⟨rfl, rfl⟩ := Prod.mk.inj h
    exact ⟨⟨_, rfl⟩, (leads_fail (.confirm (ht ▸ hcomplete)) hbecomes.queued
      hbecomes.paused).trans (m.drifts_logged _).leads⟩
  · rw [hcomplete] at h
    obtain ⟨s, hbecomes⟩ := exists_becomes_of_complete hcomplete
    obtain ⟨rfl, rfl⟩ := Prod.mk.inj h
    refine ⟨⟨_, rfl⟩, World.Leads.trans ?_ (m.drifts_logged _).leads⟩
    rw [Node.world_cons, Node.world_eq hbecomes.queued hbecomes.paused]
    exact World.leads_of_step (.confirm (ht ▸ hcomplete))
      (Event.not_isCall_confirmed _ _)

theorem leads_of_skip (p : Node) (u : Multiset Thread) (rec : PublicationRecord)
    (rest : List PublicationRecord) :
    (p.world (.sweeping (rec :: rest) ::ₘ u)).Leads (p.world (.sweeping rest ::ₘ u)) := by
  rw [Node.world_cons, Node.world_cons]
  exact World.leads_of_step .skip (by simp)

theorem leads_of_finish (p : Node) (u : Multiset Thread) (rest : List PublicationRecord) :
    (p.world (.sweeping rest ::ₘ u)).Leads (p.world u) := by
  rw [Node.world_cons]
  exact World.leads_of_step .finish (by simp)

/-- A replay ends with the next record to be looked at, or with the whole sweep. -/
theorem leads_of_replay {rec : PublicationRecord} (rest : List PublicationRecord)
    {r : Except Fault Replay} (h : outcome (replay rec) p = (r, q)) :
    (∀ replay, r = .ok replay →
      (p.world (.sweeping (rec :: rest) ::ₘ u)).Leads (q.world (.sweeping rest ::ₘ u))) ∧
    (∀ fault, r = .error fault →
      (p.world (.sweeping (rec :: rest) ::ₘ u)).Leads (q.world u)) := by
  have hdrifts : p.Drifts { p with space := (rec.payload.resolve p.space).2 } := by
    constructor <;> simp
  rcases hraised : Visit.raised? ⟨rec, p⟩ with _ | fault
  swap
  · obtain ⟨rfl, rfl⟩ := Prod.mk.inj ((Visit.replay_of_raised hraised).symm.trans h)
    exact ⟨fun _ hr => (by cases hr), fun _ _ => (leads_of_finish p u _).trans hdrifts.leads⟩
  rcases htarget : Visit.target? ⟨rec, p⟩ with _ | ⟨handler, o⟩
  · obtain ⟨lines, hskip⟩ := Visit.replay_of_no_target htarget hraised
    obtain ⟨rfl, rfl⟩ := Prod.mk.inj (hskip.symm.trans h)
    exact ⟨fun _ _ => (leads_of_skip p u rec rest).trans
      (hdrifts.trans (Node.drifts_logged _ _)).leads, fun _ hr => (by cases hr)⟩
  obtain ⟨hresolved, hhandler⟩ := Visit.eq_of_target htarget
  have hreplay : (p.world (.sweeping (rec :: rest) ::ₘ u)).Leads
      (({ p with space := (rec.payload.resolve p.space).2 } : Node).world
        (.invoking ⟨handler, rec.id, o⟩ ::ₘ .sweeping rest ::ₘ u)) := by
    rw [Node.world_cons, Node.world_cons, Node.world_cons,
      Node.world_eq hdrifts.queued hdrifts.paused]
    exact World.leads_of_step (.replay (Prod.ext hresolved rfl) hhandler) (by simp)
  rcases hinvoke : Visit.invocation ⟨rec, p⟩ handler o with ⟨r', m⟩
  obtain ⟨hfailed, hreturned⟩ := Visit.replay_of_target htarget hinvoke
  rcases Dispatch.leads_of_invoke (u := .sweeping rest ::ₘ u) (t := ⟨handler, rec.id, o⟩) hinvoke
    with ⟨rfl, hleads⟩ | ⟨⟨fault, rfl⟩, hleads⟩
  · obtain ⟨⟨replay, rfl⟩, hconfirm⟩ :=
      leads_of_confirm (t := ⟨handler, rec.id, o⟩) rfl ((hreturned rfl).symm.trans h)
    exact ⟨fun _ _ => (hreplay.trans hleads).trans hconfirm, fun _ hr => by cases hr⟩
  · obtain ⟨lines, hlogged⟩ := hfailed fault rfl
    obtain ⟨rfl, rfl⟩ := Prod.mk.inj (hlogged.symm.trans h)
    exact ⟨fun _ _ => (hreplay.trans hleads).trans (Node.drifts_logged _ _).leads,
      fun _ hr => by cases hr⟩

theorem leads_of_replayFrom {predicate : Predicate} {report : Report}
    {records : List PublicationRecord} {r : Except Fault Report}
    (h : outcome (replayFrom predicate report records) p = (r, q)) :
    (p.world (.sweeping records ::ₘ u)).Leads (q.world u) := by
  induction records generalizing p report with
  | nil =>
      obtain ⟨-, rfl⟩ := Prod.mk.inj h
      exact leads_of_finish p u []
  | cons rec rest ih =>
      rw [replayFrom] at h
      rcases cases_of_outcome_bind h with ⟨fault, hlift, -⟩ | ⟨selected, m, hlift, h⟩
      · obtain ⟨-, rfl⟩ := Prod.mk.inj hlift
        exact leads_of_finish p u _
      obtain ⟨-, rfl⟩ := Prod.mk.inj hlift
      split at h
      · rcases cases_of_outcome_bind h with ⟨fault, hreplay, -⟩ | ⟨replay, m, hreplay, h⟩
        · exact (leads_of_replay rest hreplay).2 fault rfl
        · exact ((leads_of_replay rest hreplay).1 replay rfl).trans (ih h)
      · exact (leads_of_skip p u rec rest).trans (ih h)

theorem leads_of_replayAll {predicate : Predicate} {records : List PublicationRecord}
    {r : Except Fault Report} (h : outcome (replayAll records predicate) p = (r, q)) :
    (p.world (.sweeping records ::ₘ u)).Leads (q.world u) := by
  unfold replayAll at h
  rcases cases_of_outcome_bind h with ⟨fault, hreplay, -⟩ | ⟨report, m, hreplay, h⟩
  · exact leads_of_replayFrom hreplay
  · apply (leads_of_replayFrom hreplay).trans
    split at h
    · obtain ⟨-, rfl⟩ := Prod.mk.inj h
      exact .refl _
    · obtain ⟨-, rfl⟩ := Prod.mk.inj h
      exact (m.drifts_logged _).leads

theorem leads_of_resubmit {predicate : Predicate} {r : Except Fault Report}
    (h : outcome (resubmit predicate) p = (r, q)) : (p.world u).Leads (q.world u) := by
  unfold resubmit at h
  rcases cases_of_outcome_bind h with ⟨fault, hfind, -⟩ | ⟨records, m, hfind, h⟩
  · exact (Ledger.findIncomplete_cases hfind).1.drifts.leads
  · have hbecomes := (Ledger.findIncomplete_cases hfind).1
    refine World.Leads.trans ?_ (leads_of_replayAll h)
    rw [Node.world_cons, Node.world_eq hbecomes.queued hbecomes.paused]
    exact World.leads_of_step (.sweep hfind) (by simp)

theorem leads_of_resubmitOlderThan {age : Duration} {predicate : Predicate}
    {r : Except Fault Report} (h : outcome (resubmitOlderThan age predicate) p = (r, q)) :
    (p.world u).Leads (q.world u) := by
  unfold resubmitOlderThan at h
  rcases cases_of_outcome_bind h with ⟨fault, hfind, -⟩ | ⟨records, m, hfind, h⟩
  · exact (Ledger.findIncompleteOlderThan_cases hfind).1.drifts.leads
  · have hbecomes := (Ledger.findIncompleteOlderThan_cases hfind).1
    refine World.Leads.trans ?_ (leads_of_replayAll h)
    rw [Node.world_cons, Node.world_eq hbecomes.queued hbecomes.paused]
    exact World.leads_of_step (.sweepOlderThan hfind) (by simp)

end Resubmission

namespace Ledger

theorem run_of_complete {id : RecordId} {r : Except Fault Bool}
    (h : outcome (complete id) p = (r, q)) : ∃ E, Run (p.world u) E (q.world u) := by
  rcases complete_cases h with ⟨-, hbecomes⟩ | ⟨rfl, hbecomes⟩
  · obtain ⟨E, hE, -⟩ := hbecomes.drifts.leads (u := u)
    exact ⟨E, hE⟩
  · rw [Node.world_eq hbecomes.queued hbecomes.paused]
    exact ⟨_, .step (.complete h) (.here _)⟩

theorem run_of_completeMatching {o : Occurrence} {handlerId : String} {r : Except Fault Bool}
    (h : outcome (completeMatching o handlerId) p = (r, q)) :
    ∃ E, Run (p.world u) E (q.world u) := by
  unfold completeMatching at h
  rw [outcome_bind_of_ok (outcome_get p)] at h
  dsimp only at h
  rcases cases_of_outcome_bind h with ⟨fault, hfind, -⟩ | ⟨found, m, hfind, h⟩
  · obtain ⟨E, hE, -⟩ := (findIncompleteByFingerprint_cases hfind).1.drifts.leads (u := u)
    exact ⟨E, hE⟩
  obtain ⟨E, hE, -⟩ := (findIncompleteByFingerprint_cases hfind).1.drifts.leads (u := u)
  split at h
  · obtain ⟨-, rfl⟩ := Prod.mk.inj h
    obtain ⟨F, hF, -⟩ := (m.drifts_logged _).leads (u := u)
    exact ⟨E ++ F, hE.trans hF⟩
  · obtain ⟨F, hF⟩ := run_of_complete h
    exact ⟨E ++ F, hE.trans hF⟩
  · obtain ⟨-, rfl⟩ := Prod.mk.inj h
    exact ⟨E, hE⟩

theorem prune_cases {age : Duration} {r : Except Fault Nat}
    (h : outcome (prune age) p = (r, q)) :
    ((∃ fault, r = .error fault) ∧ p.Becomes p.store q) ∨
      ∃ cutoff count s, p.clock.cutoff age = .ok cutoff ∧
        p.store.deleteCompletedUpTo cutoff = .ok (count, s) ∧ r = .ok count ∧ p.Becomes s q := by
  unfold prune at h
  rcases cases_of_outcome_bind h with ⟨fault, hdelete, rfl⟩ | ⟨count, m, hdelete, h⟩
  · rcases deleteCompletedOlderThan_cases hdelete with ⟨hfault, hbecomes⟩ | ⟨_, _, _, -, -, hok, -⟩
    · exact .inl ⟨hfault, hbecomes⟩
    · simp at hok
  · rcases deleteCompletedOlderThan_cases hdelete with
      ⟨⟨fault, hfault⟩, -⟩ | ⟨cutoff, _, s, hcutoff, hstore, hok, hbecomes⟩
    · simp at hfault
    · obtain rfl := Except.ok.inj hok
      split at h
      · obtain ⟨rfl, rfl⟩ := Prod.mk.inj h
        exact .inr ⟨cutoff, count, s, hcutoff, hstore, rfl, hbecomes⟩
      · obtain ⟨rfl, rfl⟩ := Prod.mk.inj h
        refine .inr ⟨cutoff, count, s, hcutoff, hstore, rfl, hbecomes.trans ?_⟩
        exact hbecomes.store ▸ m.becomes_logged _

theorem leads_of_prune {age : Duration} {r : Except Fault Nat}
    (h : outcome (prune age) p = (r, q)) : (p.world u).Leads (q.world u) := by
  rcases prune_cases h with ⟨-, hbecomes⟩ | ⟨_, count, _, -, -, rfl, hbecomes⟩
  · exact hbecomes.drifts.leads
  · rw [Node.world_eq hbecomes.queued hbecomes.paused]
    exact World.leads_of_step (.prune h) (by simp)

end Ledger

end

/-- An operation of a node, from beginning to end. -/
inductive Operation where
  | dispatch (o : Occurrence) (capture : Option String)
  /-- The background tasks that are queued run. -/
  | runQueued
  /-- The tasks that wait for the gate of a handler go on. -/
  | release (handler : String)
  | resubmit (predicate : Resubmission.Predicate)
  | resubmitOlderThan (age : Duration) (predicate : Resubmission.Predicate)
  | complete (id : RecordId)
  | completeMatching (o : Occurrence) (handlerId : String)
  | prune (age : Duration)

namespace Operation

/-- The node after an operation, whether or not it failed. -/
def after (p : Node) : Operation → Node
  | .dispatch o capture => ((Dispatch.dispatch o capture).outcome p).2
  | .runQueued => (Dispatch.runQueued.outcome p).2
  | .release handler => ((Dispatch.release handler).outcome p).2
  | .resubmit predicate => ((Resubmission.resubmit predicate).outcome p).2
  | .resubmitOlderThan age predicate =>
    ((Resubmission.resubmitOlderThan age predicate).outcome p).2
  | .complete id => ((Ledger.complete id).outcome p).2
  | .completeMatching o handlerId => ((Ledger.completeMatching o handlerId).outcome p).2
  | .prune age => ((Ledger.prune age).outcome p).2

/-- The operation is a call for the purpose of completing a record. -/
def IsCall : Operation → Prop
  | .complete _ | .completeMatching _ _ => True
  | _ => False

/-- Whatever else is under way, an operation from beginning to end is a run. -/
theorem run (op : Operation) (p : Node) (u : Multiset Thread) :
    ∃ E, Run (p.world u) E ((op.after p).world u) ∧ (¬ op.IsCall → ∀ e ∈ E, ¬ e.IsCall) := by
  have hrun : ∀ {q : Node}, (p.world u).Leads (q.world u) →
      ∃ E, Run (p.world u) E (q.world u) ∧ (¬ op.IsCall → ∀ e ∈ E, ¬ e.IsCall) := by
    rintro q ⟨E, hE, hcalls⟩
    exact ⟨E, hE, fun _ => hcalls⟩
  cases op with
  | dispatch o capture => exact hrun (Dispatch.leads_of_dispatch rfl)
  | runQueued => exact hrun (Dispatch.leads_of_runQueued rfl).2
  | release handler => exact hrun (Dispatch.leads_of_release rfl).2
  | resubmit predicate => exact hrun (Resubmission.leads_of_resubmit rfl)
  | resubmitOlderThan age predicate => exact hrun (Resubmission.leads_of_resubmitOlderThan rfl)
  | complete id =>
      obtain ⟨E, hE⟩ := Ledger.run_of_complete (u := u) (rfl : Act.outcome _ p = _)
      exact ⟨E, hE, fun hcall => absurd trivial hcall⟩
  | completeMatching o handlerId =>
      obtain ⟨E, hE⟩ := Ledger.run_of_completeMatching (u := u) (rfl : Act.outcome _ p = _)
      exact ⟨E, hE, fun hcall => absurd trivial hcall⟩
  | prune age => exact hrun (Ledger.leads_of_prune rfl)

end Operation

end DeliveryLedger
