import DeliveryLedger.Proofs.Ancestry
import DeliveryLedger.Proofs.FanOut
/-!
Which handlers an occurrence goes to, and in which order.

A registry is built unless a handler has no occurrence type or an identity is taken
(`build_cases`).  The handlers of a class are collected along its lineage, so that what is known
of lineages carries over to them: none is missed or repeated, and those of a class come before
those of its ancestors.
-/

namespace DeliveryLedger

namespace Registrable

/-- The identity under which a handler would be registered. -/
def id : Registrable → String
  | .instanceOf c => c.handlerId
  | .descriptor d => d.id

/-- The handler names the class of occurrences that it is for. -/
def IsTyped : Registrable → Prop
  | .instanceOf c => c.occurrenceType ≠ none
  | .descriptor _ => True

theorem descriptor?_cases (h : Registrable) :
    (∃ d, h.descriptor? = .ok d ∧ d.id = h.id ∧ h.IsTyped) ∨
      ∃ fault, h.descriptor? = .error fault ∧ fault.category? = some .configuration ∧
        ¬ h.IsTyped := by
  cases h with
  | descriptor d => exact .inl ⟨d, rfl, rfl, trivial⟩
  | instanceOf c =>
      rw [descriptor?, HandlerDescriptor.ofClass]
      cases htype : c.occurrenceType with
      | none => exact .inr ⟨_, rfl, rfl, fun htyped => htyped htype⟩
      | some type => exact .inl ⟨_, rfl, rfl, fun hnone => by simp [htype] at hnone⟩

end Registrable

namespace HandlerRegistry

open Catalogue (Inherits HasBases)
open Relation (ReflTransGen TransGen)

variable {r : HandlerRegistry} {cat : Catalogue} {bases : List (List ClassId)} {c : ClassId}
  {d e : HandlerDescriptor}

/-! ### Building -/

theorem register_cases (r : HandlerRegistry) (h : Registrable) :
    (∃ d r', h.descriptor? = .ok d ∧ h.IsTyped ∧ (do r.add (← h.descriptor?)) = .ok r' ∧
        r'.descriptors = r.descriptors ++ [d] ∧ r'.ids = r.ids ++ [h.id]) ∨
      ∃ fault, (do r.add (← h.descriptor?)) = .error fault ∧
        fault.category? = some .configuration ∧ (¬ h.IsTyped ∨ h.id ∈ r.ids) := by
  rcases h.descriptor?_cases with ⟨d, hd, hid, htyped⟩ | ⟨fault, hd, hcategory, huntyped⟩
  · have hadd : (do r.add (← h.descriptor?)) = r.add d := by rw [hd]; rfl
    rw [hadd]
    unfold add
    split
    · rename_i htaken
      exact .inr ⟨_, rfl, rfl, .inr (hid ▸ htaken)⟩
    · exact .inl ⟨d, _, hd, htyped, rfl, rfl, by rw [ids, List.map_append, ← hid]; rfl⟩
  · refine .inr ⟨fault, ?_, hcategory, .inl huntyped⟩
    rw [hd]
    rfl

theorem registerAll_cases (handlers : List Registrable) (r : HandlerRegistry) :
    (∃ r' ds, handlers.foldlM (fun r h => do r.add (← h.descriptor?)) r = .ok r' ∧
        r'.descriptors = r.descriptors ++ ds ∧ handlers.map (·.descriptor?) = ds.map .ok ∧
        (∀ h ∈ handlers, h.IsTyped) ∧ r'.ids = r.ids ++ handlers.map (·.id)) ∨
      ∃ fault, handlers.foldlM (fun r h => do r.add (← h.descriptor?)) r = .error fault ∧
        fault.category? = some .configuration ∧
        ((∃ h ∈ handlers, ¬ h.IsTyped) ∨ ¬ (r.ids ++ handlers.map (·.id)).Nodup) := by
  induction handlers generalizing r with
  | nil => exact .inl ⟨r, [], rfl, by simp, rfl, by simp, by simp⟩
  | cons h handlers ih =>
      rw [List.foldlM_cons]
      rcases register_cases r h with
        ⟨d, m, hd, htyped, hjoin, hm, hmids⟩ | ⟨fault, hjoin, hcategory, hcause⟩
      · rw [hjoin]
        have hrow : r.ids ++ (h :: handlers).map (·.id) = m.ids ++ handlers.map (·.id) := by
          rw [hmids, List.append_assoc]
          rfl
        rw [hrow]
        rcases ih m with ⟨z, ds, hrest, hz, hds, hall, hzids⟩ | ⟨fault, hrest, hcategory, hcause⟩
        · refine .inl ⟨z, d :: ds, hrest, ?_, ?_, List.forall_mem_cons.mpr ⟨htyped, hall⟩, hzids⟩
          · rw [hz, hm, List.append_assoc, List.singleton_append]
          · rw [List.map_cons, hds, hd, List.map_cons]
        · refine .inr ⟨fault, hrest, hcategory, hcause.imp_left ?_⟩
          rintro ⟨x, hx, huntyped⟩
          exact ⟨x, by simp [hx], huntyped⟩
      · rw [hjoin]
        refine .inr ⟨fault, rfl, hcategory, hcause.imp (fun huntyped => ⟨h, by simp, huntyped⟩) ?_⟩
        intro htaken hnodup
        exact (List.nodup_append.mp hnodup).2.2 _ htaken _ (by simp) rfl

theorem build_cases (handlers : List Registrable) :
    (∃ r, build handlers = .ok r ∧ handlers.map (·.descriptor?) = r.descriptors.map .ok ∧
        (∀ h ∈ handlers, h.IsTyped) ∧ (handlers.map (·.id)).Nodup) ∨
      ∃ fault, build handlers = .error fault ∧ fault.category? = some .configuration ∧
        ((∃ h ∈ handlers, ¬ h.IsTyped) ∨ ¬ (handlers.map (·.id)).Nodup) := by
  rcases registerAll_cases handlers empty with ⟨r, ds, hbuild, hr, hds, hall, hids⟩ | hfault
  · have hempty : r.descriptors = ds := hr
    have hrow : r.ids = handlers.map (·.id) := hids
    exact .inl ⟨r, hbuild, by rw [hds, hempty], hall, hrow ▸ r.nodup⟩
  · exact .inr hfault

theorem get?_eq_some_iff {id : String} :
    r.get? id = some d ↔ d ∈ r.descriptors ∧ d.id = id := by
  constructor
  · intro hget
    exact ⟨List.mem_of_find?_eq_some hget, by simpa using List.find?_some hget⟩
  · rintro ⟨hd, rfl⟩
    cases hget : r.get? d.id with
    | none => simpa using List.find?_eq_none.mp hget d hd
    | some e =>
        have hid : e.id = d.id := by simpa using List.find?_some hget
        rw [List.inj_on_of_nodup_map r.nodup (List.mem_of_find?_eq_some hget) hd hid]

/-! ### Routing along a lineage -/

theorem mem_handlersFor :
    d ∈ r.handlersFor cat c ↔ d ∈ r.descriptors ∧ d.occurrenceType ∈ cat.lineage c := by
  simp only [handlersFor, List.mem_flatMap, List.mem_filter, decide_eq_true_eq]
  constructor
  · rintro ⟨type, htype, hd, rfl⟩
    exact ⟨hd, htype⟩
  · rintro ⟨hd, htype⟩
    exact ⟨_, htype, hd, rfl⟩

theorem nodup_handlersFor (h : (cat.lineage c).Nodup) : (r.handlersFor cat c).Nodup := by
  refine List.nodup_flatMap.mpr ⟨fun type _ => (List.Nodup.of_map _ r.nodup).filter _, ?_⟩
  refine h.imp fun hne d hd he => hne ?_
  exact (of_decide_eq_true (List.mem_filter.mp hd).2).symm.trans
    (of_decide_eq_true (List.mem_filter.mp he).2)

theorem filter_handlersFor (h : (cat.lineage c).Nodup) {type : ClassId}
    (htype : type ∈ cat.lineage c) :
    (r.handlersFor cat c).filter (·.occurrenceType = type) =
      r.descriptors.filter (·.occurrenceType = type) := by
  obtain ⟨before, after, hlineage⟩ := List.append_of_mem htype
  rw [hlineage, List.nodup_append, List.nodup_cons] at h
  obtain ⟨-, ⟨hafter, -⟩, hbefore⟩ := h
  have hothers : ∀ classes : List ClassId, type ∉ classes → classes.flatMap (fun k =>
      (r.descriptors.filter (·.occurrenceType = k)).filter (·.occurrenceType = type)) = [] := by
    intro classes hnot
    simp only [List.flatMap_eq_nil_iff, List.filter_eq_nil_iff, List.mem_filter,
      decide_eq_true_eq]
    rintro k hk d ⟨-, rfl⟩ rfl
    exact hnot hk
  rw [handlersFor, List.filter_flatMap, hlineage, List.flatMap_append, List.flatMap_cons,
    hothers before fun hmem => hbefore _ hmem _ (by simp) rfl, hothers after hafter,
    List.append_nil, List.nil_append, List.filter_filter]
  simp

/-- Handlers of two classes stand in the order of these classes. -/
theorem sublist_handlersFor (hd : d ∈ r.descriptors) (he : e ∈ r.descriptors)
    (h : [d.occurrenceType, e.occurrenceType].Sublist (cat.lineage c)) :
    [d, e].Sublist (r.handlersFor cat c) := by
  have hgroup : ∀ x ∈ r.descriptors,
      [x].Sublist (r.descriptors.filter (·.occurrenceType = x.occurrenceType)) := fun x hx =>
    List.singleton_sublist.mpr (List.mem_filter.mpr ⟨hx, by simp⟩)
  have hgroups := (hgroup d hd).append (hgroup e he)
  have hlineage := h.flatMap fun k => r.descriptors.filter (·.occurrenceType = k)
  simp only [List.flatMap_cons, List.flatMap_nil, List.append_nil] at hlineage
  exact hgroups.trans hlineage

theorem nodup_ids_handlersFor (h : (cat.lineage c).Nodup) :
    ((r.handlersFor cat c).map (·.id)).Nodup := by
  refine (nodup_handlersFor h).map_on fun d hd e he hid => ?_
  exact List.inj_on_of_nodup_map r.nodup (mem_handlersFor.mp hd).1 (mem_handlersFor.mp he).1 hid

end HandlerRegistry

theorem Ledger.fault_of_recordFrom {source : Nat → RecordId} {meanwhile : Act Unit}
    {o : Occurrence} {handlerIds : List String} {p q : Node} {fault : Fault}
    (hnodup : handlerIds.Nodup)
    (h : Act.outcome (recordFrom source meanwhile o handlerIds) p = (.error fault, q)) :
    (∃ m, Act.outcome meanwhile m = (.error fault, q)) ∨
      ∃ batch m, Act.outcome (Ledger.insert batch) m = (.error fault, q) := by
  unfold recordFrom at h
  rw [if_neg (not_not.mpr (duplicates_eq_nil_iff.mpr hnodup))] at h
  split at h
  · simp at h
  rw [Act.outcome_bind_of_ok (Act.outcome_get p), Act.outcome_bind_of_ok (Act.outcome_set _ _)] at h
  rcases Act.cases_of_outcome_bind h with ⟨_, hmeanwhile, heq⟩ | ⟨⟨⟩, m, -, h⟩
  · obtain rfl := Except.error.inj heq
    exact .inl ⟨_, hmeanwhile⟩
  rcases Act.cases_of_outcome_bind h with ⟨_, hinsert, heq⟩ | ⟨⟨⟩, m, -, h⟩
  · obtain rfl := Except.error.inj heq
    exact .inr ⟨_, _, hinsert⟩
  · cases (Prod.mk.inj h).1

namespace Dispatch

open Act

variable {p q : Node} {o : Occurrence} {capture : Option String} {fault : Fault}

theorem outcome_whileStoring (handlers : List String) (p : Node) :
    ∃ q, outcome (whileStoring handlers) p = (.ok (), q) := by
  unfold whileStoring
  rw [outcome_bind_of_ok (outcome_get p)]
  dsimp only
  split
  all_goals
    split
    · obtain ⟨q, -, hrun, -⟩ := finishes_runQueued p
      exact ⟨q, hrun⟩
    · exact ⟨p, rfl⟩

theorem fault_of_dispatch (hnodup : ((p.interested o).map (·.id)).Nodup)
    (h : outcome (dispatch o capture) p = (.error fault, q)) :
    ∃ batch m, outcome (Ledger.insert batch) m = (.error fault, q) := by
  obtain ⟨captures, hnoted⟩ := noted_frame capture o p
  have hhandlers : (noted capture o p).registry.handlersFor
      (noted capture o p).space.catalogue o.type = p.interested o := by
    rw [hnoted]
    rfl
  unfold dispatch at h
  rw [outcome_bind_of_ok (outcome_captured capture o p), outcome_bind_of_ok (outcome_get _)] at h
  dsimp only at h
  rw [hhandlers] at h
  split at h
  · cases (Prod.mk.inj h).1
  rcases cases_of_outcome_bind h with ⟨_, hrecord, heq⟩ | ⟨records, m, -, h⟩
  · obtain rfl := Except.error.inj heq
    rcases Ledger.fault_of_recordFrom hnodup hrecord with ⟨m, hwaits⟩ | hinsert
    · obtain ⟨n, hok⟩ := outcome_whileStoring ((p.interested o).map (·.id)) m
      cases (Prod.mk.inj (hok.symm.trans hwaits)).1
    · exact hinsert
  -- Once the batch is stored, no failure of a handler reaches the publisher.
  rw [outcome_bind_of_ok (outcome_modify _ m)] at h
  split at h
  · cases (Prod.mk.inj h).1
  · let ts := tasks o (p.interested o) records
    obtain ⟨n, -, hqueued, -⟩ := finishes_runQueued
      { m with queued := m.queued ++ ts.filter (·.handler.asynchronous) }
    obtain ⟨z, hinline, -⟩ := finishes_all runInline .waiting
      (ts.filter (!·.handler.asynchronous)) (fun t _ p => finishes_runInline t p) n
    rw [outcome_bind_of_ok hqueued, outcome_bind_of_ok hinline] at h
    cases (Prod.mk.inj h).1

end Dispatch

namespace HandlerRegistry

open Catalogue (Inherits HasBases)
open Relation (ReflTransGen TransGen)

/-- Building a registry fails exactly if a handler has no occurrence type or an identity is given
twice.  Otherwise each class of every hierarchy is routed to the handlers of its lineage, once
each, those of the class first, and in the order of registration within a class. -/
theorem routes_exactly (handlers : List Registrable) :
    ((∃ fault, build handlers = .error fault) ↔
        (∃ h ∈ handlers, ¬ h.IsTyped) ∨ ¬ (handlers.map (·.id)).Nodup) ∧
      (∀ fault, build handlers = .error fault → fault.category? = some .configuration) ∧
      ∀ r, build handlers = .ok r →
        handlers.map (·.descriptor?) = r.descriptors.map .ok ∧
        (∀ id d, r.get? id = some d ↔ d ∈ r.descriptors ∧ d.id = id) ∧
        ∀ cat bases, HasBases cat bases → ∀ c < cat.classes.length,
          (r.handlersFor cat c).Nodup ∧
          (∀ d, d ∈ r.handlersFor cat c ↔
            d ∈ r.descriptors ∧ ReflTransGen (Inherits bases) c d.occurrenceType) ∧
          (∀ d ∈ r.handlersFor cat c, ∀ e ∈ r.handlersFor cat c,
            TransGen (Inherits bases) d.occurrenceType e.occurrenceType →
              [d, e].Sublist (r.handlersFor cat c)) ∧
          (∀ type, ReflTransGen (Inherits bases) c type →
            (r.handlersFor cat c).filter (·.occurrenceType = type) =
              r.descriptors.filter (·.occurrenceType = type)) ∧
          Ledger.duplicates ((r.handlersFor cat c).map (·.id)) = [] ∧
          ∀ (p q : Node) o capture fault, p.registry = r → p.space.catalogue = cat → o.type = c →
            Act.outcome (Dispatch.dispatch o capture) p = (.error fault, q) →
              ∃ batch m, Act.outcome (Ledger.insert batch) m = (.error fault, q) := by
  have hcases := build_cases handlers
  refine ⟨?_, ?_, ?_⟩
  · rcases hcases with ⟨r, hbuild, -, hall, hnodup⟩ | ⟨fault, hbuild, -, hcause⟩
    · refine ⟨fun ⟨fault, herror⟩ => by simp [hbuild] at herror, ?_⟩
      rintro (⟨h, hh, huntyped⟩ | hrepeated)
      · exact absurd (hall h hh) huntyped
      · exact absurd hnodup hrepeated
    · exact ⟨fun _ => hcause, fun _ => ⟨fault, hbuild⟩⟩
  · intro fault hfault
    rcases hcases with ⟨r, hbuild, -⟩ | ⟨other, hbuild, hcategory, -⟩
    · simp [hbuild] at hfault
    · obtain rfl := Except.error.inj (hbuild.symm.trans hfault)
      exact hcategory
  intro r hbuilt
  refine ⟨?_, fun id d => get?_eq_some_iff, ?_⟩
  · rcases hcases with ⟨r', hbuild, hdescriptors, -⟩ | ⟨fault, hbuild, -⟩
    · obtain rfl := Except.ok.inj (hbuild.symm.trans hbuilt)
      exact hdescriptors
    · simp [hbuilt] at hbuild
  intro cat bases hbases c hc
  have hlinear := hbases.linear
  have hnodup := hlinear.nodup_lineage hc
  have hids := nodup_ids_handlersFor (r := r) hnodup
  refine ⟨nodup_handlersFor hnodup, fun d => ?_, ?_, fun type habove => ?_,
    Ledger.duplicates_eq_nil_iff.mpr hids, ?_⟩
  · rw [mem_handlersFor, hlinear.mem_lineage_iff hc]
  · intro d hd e he habove
    obtain ⟨hd, hbelow⟩ := mem_handlersFor.mp hd
    rw [hlinear.mem_lineage_iff hc] at hbelow
    exact sublist_handlersFor hd (mem_handlersFor.mp he).1
      (hlinear.sublist_lineage_of_above hc hbelow habove)
  · exact filter_handlersFor hnodup ((hlinear.mem_lineage_iff hc).mpr habove)
  · rintro p q o capture fault rfl rfl rfl hfault
    exact Dispatch.fault_of_dispatch hids hfault

/-- A class without fields, by its name and its lineage. -/
def plainClass (name : String) (lineage : List ClassId) : OccurrenceClass :=
  { key := name, moduleName := "app", localName := name, pinned := none, fields := [], lineage }

def plainDeclaration (name : String) (bases : List String) : ClassDeclaration :=
  { key := name, fields := [], moduleName := none, localName := none, pinned := none, bases }

/-- Classes in the shape of a diamond: the last one has two bases, which share theirs. -/
def diamondCatalogue : Catalogue :=
  { classes := [Catalogue.baseClass, plainClass "Event" [1, 0], plainClass "Sale" [2, 1, 0],
      plainClass "Refund" [3, 1, 0], plainClass "Exchange" [4, 2, 3, 1, 0]]
    registry := [("app.Event", 1), ("app.Sale", 2), ("app.Refund", 3), ("app.Exchange", 4)] }

def diamondBases : List (List ClassId) := [[], [0], [1], [1], [2, 3]]

theorem hasBases_diamond : HasBases diamondCatalogue diamondBases := by
  have hevent := @HasBases.declare _ _ _ "app" (plainDeclaration "Event" []) 1 _
    .initial rfl rfl
  have hsale := @HasBases.declare _ _ _ "app" (plainDeclaration "Sale" ["Event"]) 2 _
    hevent rfl rfl
  have hrefund := @HasBases.declare _ _ _ "app" (plainDeclaration "Refund" ["Event"]) 3 _
    hsale rfl rfl
  exact @HasBases.declare _ _ _ "app" (plainDeclaration "Exchange" ["Sale", "Refund"]) 4 _
    hrefund rfl rfl

/-- Handlers of the classes of the diamond, the general ones registered first. -/
def diamondHandlers : List Registrable :=
  [("everything", 0), ("audit", 1), ("refunds", 3), ("sales", 2), ("exchanges", 4),
    ("receipts", 2)].map fun h => .descriptor ⟨h.1, h.2, false, h.1, some h.1⟩

/-- An exchange goes to its own handler, then to the two of sales in the order of registration,
and the shared ancestor of its bases is served after both of them, once. -/
theorem routes_exactly_diamond :
    HasBases diamondCatalogue diamondBases ∧ 4 < diamondCatalogue.classes.length ∧
      ∃ r, build diamondHandlers = .ok r ∧
        (r.handlersFor diamondCatalogue 4).map (·.id) =
          ["exchanges", "sales", "receipts", "refunds", "audit", "everything"] ∧
        Ledger.duplicates ((r.handlersFor diamondCatalogue 4).map (·.id)) = [] ∧
        ∀ d ∈ r.handlersFor diamondCatalogue 4, ∀ e ∈ r.handlersFor diamondCatalogue 4,
          d.occurrenceType = 2 → e.occurrenceType = 1 →
            [d, e].Sublist (r.handlersFor diamondCatalogue 4) := by
  obtain ⟨r, hbuild, hids⟩ : ∃ r, build diamondHandlers = .ok r ∧
      (r.handlersFor diamondCatalogue 4).map (·.id) =
        ["exchanges", "sales", "receipts", "refunds", "audit", "everything"] := ⟨_, rfl, rfl⟩
  obtain ⟨-, -, hroutes⟩ := routes_exactly diamondHandlers
  obtain ⟨-, -, hclasses⟩ := hroutes r hbuild
  obtain ⟨-, -, hordered, -, hdifferent, -⟩ :=
    hclasses diamondCatalogue diamondBases hasBases_diamond 4 (by decide)
  refine ⟨hasBases_diamond, by decide, r, hbuild, hids, hdifferent, ?_⟩
  intro d hd e he hsale hevent
  refine hordered d hd e he ?_
  rw [hsale, hevent]
  exact .single ⟨[1], rfl, by simp⟩

end HandlerRegistry

end DeliveryLedger
