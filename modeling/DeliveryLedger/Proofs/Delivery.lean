import DeliveryLedger.Proofs.Recording
import DeliveryLedger.Proofs.WholeOperations
/-!
Every delivery happens at least once.

Records, threads and events mention identifiers, each together with the handler that it belongs
to.  `Sound` is the invariant of all runs: an identifier has one handler wherever it is mentioned
(`paired`), and a record that a dispatch created is pending until its handler has returned from an
invocation for it, or until a call has completed it (`settled`).
-/

namespace DeliveryLedger

/-- The identifier of a record and its handler. -/
def PublicationRecord.pair (r : PublicationRecord) : RecordId × String := (r.id, r.handlerId)

/-- The record that a task is for and its handler. -/
def Task.pair (t : Task) : RecordId × String := (t.record, t.handler.id)

namespace Thread

/-- The records that a thread is about, with the handlers to be invoked for them. -/
def pairs : Thread → List (RecordId × String)
  | .storing o handlers records =>
    records.map (·.pair) ++ (Dispatch.tasks o handlers records).map (·.pair)
  | .invoking t | .running t | .confirming t => [t.pair]
  | .sweeping rest => rest.map (·.pair)

/-- The records that a thread is about to store are pending, and of a known moment. -/
def IsReady : Thread → Prop
  | .storing _ _ records => ∀ r ∈ records, r.isPending ∧ r.publishedAt.isAware
  | _ => True

end Thread

/-- An identifier and a handler that belong together in the store or in a thread. -/
def World.Carries (w : World) (x : RecordId × String) : Prop :=
  (∃ r ∈ w.node.store.records, x = r.pair) ∨ ∃ t ∈ w.threads, x ∈ t.pairs

/-- An identifier and a handler that belong together anywhere. -/
def World.Mentions (w : World) (E : List Event) (x : RecordId × String) : Prop :=
  w.Carries x ∨ ∃ r, .created r ∈ E ∧ x = r.pair

/-- A record with the identifier, the handler and the content of `r` is stored and pending. -/
def Store.HasPending (s : Store) (r : PublicationRecord) : Prop :=
  ∃ x ∈ s.records, x.isPending ∧ x.id = r.id ∧ x.handlerId = r.handlerId ∧ x.payload = r.payload

/-- The invariant of all runs from a node at its beginning. -/
structure Sound (w : World) (E : List Event) : Prop where
  nodup : w.node.store.ids.Nodup
  paired : ∀ x y, w.Mentions E x → w.Mentions E y → x.1 = y.1 → x.2 = y.2
  undrawn : ∀ x, w.Mentions E x → ∀ n, w.node.drawn < n → x.1 ≠ RecordId.drawn n
  clock : w.node.clock.now.isAware
  moments : ∀ r ∈ w.node.store.records, r.publishedAt.isAware
  ready : ∀ t ∈ w.threads, t.IsReady
  returned : ∀ t, .confirming t ∈ w.threads → .returned t.handler.id t.record ∈ E
  settled : ∀ r, .created r ∈ E → w.node.store.HasPending r ∨
    (.returned r.handlerId r.id ∈ E ∧ .confirmed r.id ∈ E) ∨ .completed r.id ∈ E

/-! ### What one step does to the store -/

namespace StoreCall

variable {s s' : Store} {clock : Clock} {c : StoreCall} {r : Except Fault StoreAnswer}

theorem Effect.pending_stays (h : Effect s clock c r s') (hnodup : s.ids.Nodup)
    {a : PublicationRecord} (ha : a ∈ s.records) (hpending : a.isPending) :
    a ∈ s'.records ∨ c.Wins r a.id := by
  have hstays : a.id ∈ s'.ids := by
    by_cases hc : ∃ age, c = .deleteCompletedOlderThan age
    · obtain ⟨age, rfl⟩ := hc
      rcases r with fault | answer
      · rw [h.eq_of_error]
        exact Store.mem_ids_of_mem ha
      · obtain ⟨cutoff, -, hrecords, -⟩ := h.of_delete
        apply Store.mem_ids_of_mem
        rw [hrecords]
        exact List.mem_filter.mpr
          ⟨ha, by rw [PublicationRecord.completedUpTo_of_isPending hpending]; rfl⟩
    · exact h.mem_ids (fun age hage => hc ⟨age, hage⟩) (Store.mem_ids_of_mem ha)
  rcases h.follow hnodup ha hstays with ⟨-, hsame⟩ | ⟨hwins, -, -⟩
  · exact .inl hsame
  · exact .inr hwins

theorem Effect.origin (h : Effect s clock c r s') {a : PublicationRecord}
    (ha : a ∈ s'.records) :
    (∃ b ∈ s.records, a.pair = b.pair ∧ a.publishedAt = b.publishedAt) ∨
      ∃ batch, c = .insert batch ∧ ∃ b ∈ batch, a = s.keep b := by
  cases h with
  | failed => exact .inl ⟨a, ha, rfl, rfl⟩
  | answered => exact .inl ⟨a, ha, rfl, rfl⟩
  | accepted => exact .inl ⟨a, ha, rfl, rfl⟩
  | declined => exact .inl ⟨a, ha, rfl, rfl⟩
  | inserted hrecords =>
      rw [hrecords] at ha
      rcases List.mem_append.mp ha with hold | hnew
      · exact .inl ⟨a, hold, rfl, rfl⟩
      · obtain ⟨b, hb, rfl⟩ := List.mem_map.mp hnew
        exact .inr ⟨_, rfl, b, hb, rfl⟩
  | @completed id _ _ hrecords =>
      rw [hrecords] at ha
      obtain ⟨b, hb, rfl⟩ := List.mem_map.mp ha
      refine .inl ⟨b, hb, ?_⟩
      split
      · obtain ⟨t, ht⟩ : ∃ t, s.stamp clock.now b = { b with completedAt := some t } :=
          Store.stamp_eq
        rw [ht]
        exact ⟨rfl, rfl⟩
      · exact ⟨rfl, rfl⟩
  | deleted _ hrecords =>
      rw [hrecords] at ha
      exact .inl ⟨a, (List.mem_filter.mp ha).1, rfl, rfl⟩

theorem Effect.hasPending {batch : List PublicationRecord} {a : StoreAnswer}
    (h : Effect s clock (.insert batch) (.ok a) s') {b : PublicationRecord} (hb : b ∈ batch)
    (hnew : b.id ∉ s.ids) (hpending : b.isPending) : s'.HasPending b := by
  cases h with
  | answered _ hquery => simp [isQuery] at hquery
  | accepted hstored =>
      obtain ⟨x, hx, hid⟩ := hstored b hb
      exact absurd (hid ▸ Store.mem_ids_of_mem hx) hnew
  | inserted hrecords =>
      refine ⟨s.keep b, ?_, ?_, rfl, rfl, rfl⟩
      · rw [hrecords]
        exact List.mem_append_right _ (List.mem_map_of_mem hb)
      · rwa [Store.isPending_keep]

theorem effect_of_insert {p q : Node} {batch : List PublicationRecord}
    (h : (Ledger.insert batch).outcome p = (.ok (), q)) :
    Effect p.store p.clock (.insert batch) (.ok .stored) q.store := by
  refine (effect_of_outcome (p := p) (q := q) ?_).1
  rw [act, Act.outcome_bind_of_ok h]
  rfl

theorem effect_of_complete {p q : Node} {id : RecordId} {won : Bool}
    (h : (Ledger.complete id).outcome p = (.ok won, q)) :
    Effect p.store p.clock (.complete id) (.ok (.won won)) q.store := by
  refine (effect_of_outcome (p := p) (q := q) ?_).1
  rw [act, Act.outcome_bind_of_ok h]
  rfl

theorem effect_of_prune {p q : Node} {age : Duration} {count : Nat}
    (h : (Ledger.prune age).outcome p = (.ok count, q)) :
    ∃ a, Effect p.store p.clock (.deleteCompletedOlderThan age) (.ok a) q.store := by
  rcases Ledger.prune_cases h with ⟨⟨fault, hfault⟩, -⟩ | ⟨cutoff, n, s, hcutoff, hstore, -, hq⟩
  · simp at hfault
  · obtain ⟨hkind, hrecords, -⟩ := Store.deleteCompletedUpTo_ok hstore
    rw [hq.store]
    exact ⟨_, .deleted hcutoff hrecords hkind⟩

end StoreCall

theorem Thread.Fails.drifts {t : Thread} {p q : Node} (h : t.Fails p q) : p.Drifts q := by
  cases h with
  | store h =>
      rcases Ledger.insertSeeing_cases h with ⟨-, hbecomes⟩ | ⟨hok, -⟩
      · exact hbecomes.drifts
      · simp at hok
  | invoke h => exact Dispatch.announce_drifts h
  | raise _ h => exact Dispatch.react_drifts h
  | confirm h =>
      rcases Ledger.complete_cases h with ⟨-, hbecomes⟩ | ⟨hok, -⟩
      · exact hbecomes.drifts
      · simp at hok

/-- Identifiers drawn stay drawn, and the clock stays aware. -/
structure Node.Advances (p q : Node) : Prop where
  drawn : p.drawn ≤ q.drawn
  aware : p.clock.now.isAware → q.clock.now.isAware

theorem Node.Becomes.advances {p q : Node} {s : Store} (h : p.Becomes s q) : p.Advances q :=
  ⟨h.drawn.ge, fun haware => by rwa [h.clock]⟩

theorem Node.Drifts.advances {p q : Node} (h : p.Drifts q) : p.Advances q :=
  ⟨h.drawn.ge, h.aware⟩

/-! ### Records of a dispatch -/

/-- The records are pending, of the present moment, and under identifiers drawn on the way from
one world to the other. -/
structure World.Draws (w z : World) (fresh : List PublicationRecord) : Prop where
  nodup : (fresh.map (·.id)).Nodup
  mem : ∀ r ∈ fresh, r.isPending ∧ r.publishedAt = w.node.clock.now ∧
    ∃ n, w.node.drawn < n ∧ n ≤ z.node.drawn ∧ r.id = RecordId.drawn n

theorem World.Draws.nil (w z : World) : w.Draws z [] := ⟨by simp, by simp⟩

theorem mem_newRecords {drawn : Nat} {payload : Payload} {now : Instant} {ids : List String}
    {r : PublicationRecord} (hr : r ∈ Ledger.newRecords drawn payload now ids) :
    r.isPending ∧ r.publishedAt = now ∧
      ∃ n, drawn < n ∧ n ≤ drawn + ids.length ∧ r.id = RecordId.drawn n := by
  obtain ⟨hpending, hnow, -, hid⟩ := Ledger.mem_newRecordsFrom hr
  exact ⟨hpending, hnow, Ledger.mem_drawnIds.mp hid⟩

theorem nodup_newRecords (drawn : Nat) (payload : Payload) (now : Instant) (ids : List String) :
    ((Ledger.newRecords drawn payload now ids).map (·.id)).Nodup := by
  unfold Ledger.newRecords
  rw [Ledger.ids_newRecordsFrom]
  exact List.Nodup.map (fun _ _ => RecordId.drawn_injective) List.nodup_range'

theorem handlerIds_newRecords (drawn : Nat) (payload : Payload) (now : Instant)
    (ids : List String) :
    (Ledger.newRecords drawn payload now ids).map (·.handlerId) = ids :=
  Ledger.handlerIds_newRecordsFrom _ _ _ _ _

theorem pair_of_mem_tasks {o : Occurrence} {handlers : List HandlerDescriptor}
    {records : List PublicationRecord} {t : Task}
    (hids : records.map (·.handlerId) = handlers.map (·.id))
    (ht : t ∈ Dispatch.tasks o handlers records) : ∃ r ∈ records, t.pair = r.pair := by
  induction handlers generalizing records with
  | nil => simp [Dispatch.tasks] at ht
  | cons handler handlers ih =>
      cases records with
      | nil => simp [Dispatch.tasks] at ht
      | cons r records =>
          simp only [List.map_cons, List.cons.injEq] at hids
          rcases List.mem_cons.mp ht with rfl | ht
          · exact ⟨r, by simp, by simp [Task.pair, PublicationRecord.pair, hids.1]⟩
          · obtain ⟨s, hs, hpair⟩ := ih hids.2 ht
            exact ⟨s, by simp [hs], hpair⟩

theorem id_of_registry_get? {registry : HandlerRegistry} {id : String}
    {handler : HandlerDescriptor} (h : registry.get? id = some handler) : handler.id = id := by
  simpa using List.find?_some h

/-- Where a thread comes from in a step that leaves the world `w`. -/
inductive Thread.Arises (w : World) (F : List Event) (fresh : List PublicationRecord) :
    Thread → Prop where
  | stays {t : Thread} (h : t ∈ w.threads) : Arises w F fresh t
  | published {o : Occurrence} {handlers : List HandlerDescriptor}
      (hpairs : ∀ t ∈ Dispatch.tasks o handlers fresh, ∃ r ∈ fresh, t.pair = r.pair) :
      Arises w F fresh (.storing o handlers fresh)
  | stored {o : Occurrence} {handlers : List HandlerDescriptor}
      {records : List PublicationRecord} {t : Task}
      (h : .storing o handlers records ∈ w.threads) (ht : t ∈ Dispatch.tasks o handlers records) :
      Arises w F fresh (.invoking t)
  | replayed {r : PublicationRecord} {rest : List PublicationRecord} {t : Task}
      (h : .sweeping (r :: rest) ∈ w.threads) (ht : t.pair = r.pair) :
      Arises w F fresh (.invoking t)
  | invoked {t : Task} (h : .invoking t ∈ w.threads) : Arises w F fresh (.running t)
  | returned {t : Task} (h : .running t ∈ w.threads)
      (hevent : .returned t.handler.id t.record ∈ F) : Arises w F fresh (.confirming t)
  | swept {rest : List PublicationRecord} (h : ∀ r ∈ rest, r ∈ w.node.store.records) :
      Arises w F fresh (.sweeping rest)
  | continued {r : PublicationRecord} {rest : List PublicationRecord}
      (h : .sweeping (r :: rest) ∈ w.threads) : Arises w F fresh (.sweeping rest)

namespace Step

variable {w z : World} {F : List Event}

theorem store_cases (h : Step w F z) :
    z.node.store = w.node.store ∨
      ∃ c r, StoreCall.Effect w.node.store w.node.clock c r z.node.store ∧
        (∀ id, c.Wins r id → (∃ t, .confirming t ∈ w.threads ∧ t.record = id ∧
          .confirmed id ∈ F) ∨ .completed id ∈ F) ∧
        ∀ batch, c = .insert batch → (∃ o handlers, .storing o handlers batch ∈ w.threads) ∧
          ∀ x ∈ batch, x.id ∉ w.node.store.ids → .created x ∈ F := by
  cases h with
  | change hstore => exact .inl hstore
  | publish => exact .inl rfl
  | @store _ _ _ o handlers records h =>
      refine .inr ⟨_, _, StoreCall.effect_of_insert h, ?_, ?_⟩
      · rintro id ⟨hc, -⟩
        simp at hc
      · rintro batch hbatch
        obtain rfl := StoreCall.insert.inj hbatch
        refine ⟨⟨o, handlers, Multiset.mem_cons_self _ _⟩, fun x hx hnew => ?_⟩
        exact List.mem_map_of_mem (List.mem_filter.mpr ⟨hx, by simpa using hnew⟩)
  | invoke h => exact .inl (Dispatch.announce_drifts h).store
  | returns _ h => exact .inl (Dispatch.react_drifts h).store
  | @confirm _ _ _ t won h =>
      refine .inr ⟨_, _, StoreCall.effect_of_complete h, ?_, by simp⟩
      rintro id ⟨hid, hwon⟩
      obtain rfl := StoreCall.complete.inj hid
      obtain rfl : won = true := by simpa using hwon
      exact .inl ⟨t, Multiset.mem_cons_self _ _, rfl, by simp [Event.ofCompletion]⟩
  | fail h => exact .inl h.drifts.store
  | sweep h => exact .inl (Ledger.findIncomplete_cases h).1.store
  | sweepOlderThan h => exact .inl (Ledger.findIncompleteOlderThan_cases h).1.store
  | skip => exact .inl rfl
  | replay => exact .inl rfl
  | finish => exact .inl rfl
  | @complete _ _ _ id won h =>
      refine .inr ⟨_, _, StoreCall.effect_of_complete h, ?_, by simp⟩
      rintro id ⟨hid, hwon⟩
      obtain rfl := StoreCall.complete.inj hid
      obtain rfl : won = true := by simpa using hwon
      exact .inr (by simp [Event.ofCompletion])
  | prune h =>
      obtain ⟨a, heffect⟩ := StoreCall.effect_of_prune h
      refine .inr ⟨_, _, heffect, ?_, by simp⟩
      rintro id ⟨hc, -⟩
      simp at hc
  | restart _ hstore => exact .inl hstore

theorem nodup (h : Step w F z) (hnodup : w.node.store.ids.Nodup) :
    z.node.store.ids.Nodup := by
  rcases h.store_cases with hstore | ⟨c, r, heffect, -, -⟩
  · rwa [hstore]
  · exact heffect.nodup hnodup

theorem pending_stays (h : Step w F z) (hnodup : w.node.store.ids.Nodup)
    {x : PublicationRecord} (hx : x ∈ w.node.store.records) (hpending : x.isPending) :
    x ∈ z.node.store.records ∨
      (∃ t, .confirming t ∈ w.threads ∧ t.record = x.id ∧ .confirmed x.id ∈ F) ∨
      .completed x.id ∈ F := by
  rcases h.store_cases with hstore | ⟨c, r, heffect, hwins, -⟩
  · exact .inl (hstore ▸ hx)
  · rcases heffect.pending_stays hnodup hx hpending with hsame | hwon
    · exact .inl hsame
    · exact .inr (hwins x.id hwon)

theorem origin (h : Step w F z) {x : PublicationRecord} (hx : x ∈ z.node.store.records) :
    (∃ y ∈ w.node.store.records, x.pair = y.pair ∧ x.publishedAt = y.publishedAt) ∨
      ∃ o handlers records, .storing o handlers records ∈ w.threads ∧
        ∃ y ∈ records, x = w.node.store.keep y ∧ (y.id ∉ w.node.store.ids → .created y ∈ F) := by
  rcases h.store_cases with hstore | ⟨c, r, heffect, -, hinsert⟩
  · exact .inl ⟨x, hstore ▸ hx, rfl, rfl⟩
  · rcases heffect.origin hx with hold | ⟨batch, hc, y, hy, hkeep⟩
    · exact .inl hold
    · obtain ⟨⟨o, handlers, hthread⟩, hcreated⟩ := hinsert batch hc
      exact .inr ⟨o, handlers, batch, hthread, y, hy, hkeep, hcreated y hy⟩

theorem sourced (h : Step w F z) {id : RecordId} (hid : id ∈ z.node.store.ids) :
    id ∈ w.node.store.ids ∨ ∃ r, .created r ∈ F ∧ r.id = id := by
  obtain ⟨x, hx, rfl⟩ := List.mem_map.mp hid
  rcases h.origin hx with ⟨y, hy, hpair, -⟩ | ⟨-, -, -, -, y, -, rfl, hcreated⟩
  · have hid : x.id = y.id := congrArg Prod.fst hpair
    exact .inl (hid ▸ Store.mem_ids_of_mem hy)
  · by_cases hold : y.id ∈ w.node.store.ids
    · exact .inl hold
    · exact .inr ⟨y, hcreated hold, rfl⟩

theorem advances (h : Step w F z) : w.node.Advances z.node := by
  cases h with
  | change _ hdrawn haware => exact ⟨hdrawn.ge, haware⟩
  | publish => exact ⟨Nat.le_add_right _ _, id⟩
  | store h =>
      obtain ⟨s, hbecomes⟩ := exists_becomes_of_insert h
      exact hbecomes.advances
  | invoke h => exact (Dispatch.announce_drifts h).advances
  | returns _ h => exact (Dispatch.react_drifts h).advances
  | confirm h =>
      obtain ⟨s, hbecomes⟩ := exists_becomes_of_complete h
      exact hbecomes.advances
  | fail h => exact h.drifts.advances
  | sweep h => exact (Ledger.findIncomplete_cases h).1.advances
  | sweepOlderThan h => exact (Ledger.findIncompleteOlderThan_cases h).1.advances
  | skip => exact ⟨le_rfl, id⟩
  | replay => exact ⟨le_rfl, id⟩
  | finish => exact ⟨le_rfl, id⟩
  | complete h =>
      obtain ⟨s, hbecomes⟩ := exists_becomes_of_complete h
      exact hbecomes.advances
  | prune h =>
      rcases Ledger.prune_cases h with ⟨-, hbecomes⟩ | ⟨_, _, _, -, -, -, hbecomes⟩ <;>
        exact hbecomes.advances
  | restart _ _ hdrawn haware => exact ⟨hdrawn.ge, haware⟩

theorem arises (h : Step w F z) :
    ∃ fresh : List PublicationRecord, w.Draws z fresh ∧ ∀ t ∈ z.threads, t.Arises w F fresh := by
  cases h with
  | change => exact ⟨[], .nil _ _, fun t ht => .stays ht⟩
  | @publish p u o handlers hhandlers =>
      refine ⟨Ledger.newRecords p.drawn (Payload.ofOccurrence p.space.catalogue o) p.clock.now
        (handlers.map (·.id)), ⟨nodup_newRecords _ _ _ _, fun r hr => ?_⟩, fun t ht => ?_⟩
      · simpa using mem_newRecords hr
      · rcases Multiset.mem_cons.mp ht with rfl | hold
        · exact .published fun t ht =>
            pair_of_mem_tasks (handlerIds_newRecords _ _ _ _) ht
        · exact .stays hold
  | store h =>
      refine ⟨[], .nil _ _, fun t ht => ?_⟩
      rcases Multiset.mem_add.mp ht with hnew | hold
      · obtain ⟨task, htask, rfl⟩ := List.mem_map.mp (Multiset.mem_coe.mp hnew)
        exact .stored (Multiset.mem_cons_self _ _) htask
      · exact .stays (Multiset.mem_cons_of_mem hold)
  | invoke h =>
      refine ⟨[], .nil _ _, fun t ht => ?_⟩
      rcases Multiset.mem_cons.mp ht with rfl | hold
      · exact .invoked (Multiset.mem_cons_self _ _)
      · exact .stays (Multiset.mem_cons_of_mem hold)
  | returns _ h =>
      refine ⟨[], .nil _ _, fun t ht => ?_⟩
      rcases Multiset.mem_cons.mp ht with rfl | hold
      · exact .returned (Multiset.mem_cons_self _ _) (by simp)
      · exact .stays (Multiset.mem_cons_of_mem hold)
  | confirm => exact ⟨[], .nil _ _, fun t ht => .stays (Multiset.mem_cons_of_mem ht)⟩
  | fail => exact ⟨[], .nil _ _, fun t ht => .stays (Multiset.mem_cons_of_mem ht)⟩
  | sweep h =>
      refine ⟨[], .nil _ _, fun t ht => ?_⟩
      rcases Multiset.mem_cons.mp ht with rfl | hold
      · refine .swept fun r hr => ?_
        have hfound := Store.findIncomplete_perm ((Ledger.findIncomplete_cases h).2 _ rfl)
        exact (List.mem_filter.mp (hfound.mem_iff.mp hr)).1
      · exact .stays hold
  | sweepOlderThan h =>
      refine ⟨[], .nil _ _, fun t ht => ?_⟩
      rcases Multiset.mem_cons.mp ht with rfl | hold
      · refine .swept fun r hr => ?_
        obtain ⟨cutoff, -, hfound⟩ := (Ledger.findIncompleteOlderThan_cases h).2 _ rfl
        exact Store.mem_of_findIncompleteUpTo hfound hr
      · exact .stays hold
  | skip =>
      refine ⟨[], .nil _ _, fun t ht => ?_⟩
      rcases Multiset.mem_cons.mp ht with rfl | hold
      · exact .continued (Multiset.mem_cons_self _ _)
      · exact .stays (Multiset.mem_cons_of_mem hold)
  | replay _ hhandler =>
      refine ⟨[], .nil _ _, fun t ht => ?_⟩
      rcases Multiset.mem_cons.mp ht with rfl | ht
      · exact .replayed (Multiset.mem_cons_self _ _)
          (by simp [Task.pair, PublicationRecord.pair, id_of_registry_get? hhandler])
      · rcases Multiset.mem_cons.mp ht with rfl | hold
        · exact .continued (Multiset.mem_cons_self _ _)
        · exact .stays (Multiset.mem_cons_of_mem hold)
  | finish => exact ⟨[], .nil _ _, fun t ht => .stays (Multiset.mem_cons_of_mem ht)⟩
  | complete => exact ⟨[], .nil _ _, fun t ht => .stays ht⟩
  | prune => exact ⟨[], .nil _ _, fun t ht => .stays ht⟩
  | restart => exact ⟨[], .nil _ _, fun t ht => absurd ht (Multiset.notMem_zero t)⟩

theorem created (h : Step w F z) (hready : ∀ t ∈ w.threads, t.IsReady) {r : PublicationRecord}
    (hr : .created r ∈ F) : z.node.store.HasPending r ∧ w.Carries r.pair := by
  cases h with
  | @store p q u o handlers records h =>
      obtain ⟨x, hx, hxr⟩ := List.mem_map.mp hr
      obtain rfl := Event.created.inj hxr
      obtain ⟨hmem, hnew⟩ := List.mem_filter.mp hx
      have hthread : .storing o handlers records ∈ .storing o handlers records ::ₘ u :=
        Multiset.mem_cons_self _ _
      refine ⟨?_, .inr ⟨_, hthread, List.mem_append_left _ (List.mem_map_of_mem hmem)⟩⟩
      exact (StoreCall.effect_of_insert h).hasPending hmem (by simpa using hnew)
        (hready _ hthread x hmem).1
  | returns => simp at hr
  | @confirm _ _ _ _ won => cases won <;> simp [Event.ofCompletion] at hr
  | @complete _ _ _ _ won => cases won <;> simp [Event.ofCompletion] at hr
  | change => simp at hr
  | publish => simp at hr
  | invoke => simp at hr
  | fail => simp at hr
  | sweep => simp at hr
  | sweepOlderThan => simp at hr
  | skip => simp at hr
  | replay => simp at hr
  | finish => simp at hr
  | prune => simp at hr
  | restart => simp at hr

end Step

namespace Thread.Arises

variable {w : World} {F : List Event} {fresh : List PublicationRecord} {t : Thread}

theorem carries (h : t.Arises w F fresh) {x : RecordId × String} (hx : x ∈ t.pairs) :
    w.Carries x ∨ ∃ r ∈ fresh, x = r.pair := by
  cases h with
  | stays h => exact .inl (.inr ⟨t, h, hx⟩)
  | published hpairs =>
      rcases List.mem_append.mp hx with hrecord | htask
      · obtain ⟨r, hr, rfl⟩ := List.mem_map.mp hrecord
        exact .inr ⟨r, hr, rfl⟩
      · obtain ⟨task, hmem, rfl⟩ := List.mem_map.mp htask
        exact .inr (hpairs task hmem)
  | @stored _ _ _ task h ht =>
      obtain rfl : x = task.pair := by simpa [pairs] using hx
      exact .inl (.inr ⟨_, h, List.mem_append_right _ (List.mem_map_of_mem ht)⟩)
  | @replayed r _ task h ht =>
      obtain rfl : x = task.pair := by simpa [pairs] using hx
      exact .inl (.inr ⟨_, h, by simp [pairs, ht]⟩)
  | invoked h => exact .inl (.inr ⟨_, h, hx⟩)
  | returned h => exact .inl (.inr ⟨_, h, hx⟩)
  | swept h =>
      obtain ⟨r, hr, rfl⟩ := List.mem_map.mp hx
      exact .inl (.inl ⟨r, h r hr, rfl⟩)
  | continued h =>
      exact .inl (.inr ⟨_, h, by simp only [pairs, List.map_cons]; exact List.mem_cons_of_mem _ hx⟩)

theorem isReady (h : t.Arises w F fresh) (hready : ∀ t ∈ w.threads, t.IsReady)
    (hfresh : ∀ r ∈ fresh, r.isPending ∧ r.publishedAt.isAware) : t.IsReady := by
  cases h with
  | stays h => exact hready t h
  | published => exact hfresh
  | stored => trivial
  | replayed => trivial
  | invoked => trivial
  | returned => trivial
  | swept => trivial
  | continued => trivial

end Thread.Arises

/-! ### The invariant along a run -/

namespace Sound

variable {w z : World} {E F : List Event} {fresh : List PublicationRecord}

theorem mentions (h : Sound w E) (hstep : Step w F z)
    (harises : ∀ t ∈ z.threads, t.Arises w F fresh) {x : RecordId × String}
    (hx : z.Mentions (E ++ F) x) : w.Mentions E x ∨ ∃ r ∈ fresh, x = r.pair := by
  rcases hx with (⟨r, hr, rfl⟩ | ⟨t, ht, hx⟩) | ⟨r, hr, rfl⟩
  · rcases hstep.origin hr with ⟨y, hy, hpair, -⟩ | ⟨o, handlers, records, hthread, y, hy, rfl, -⟩
    · exact .inl (.inl (.inl ⟨y, hy, hpair⟩))
    · exact .inl (.inl (.inr ⟨_, hthread, List.mem_append_left _ (List.mem_map.mpr ⟨y, hy, rfl⟩)⟩))
  · rcases (harises t ht).carries hx with hold | hnew
    · exact .inl (.inl hold)
    · exact .inr hnew
  · rcases List.mem_append.mp hr with hold | hnew
    · exact .inl (.inr ⟨r, hold, rfl⟩)
    · exact .inl (.inl (hstep.created h.ready hnew).2)

theorem paired_step (h : Sound w E) (hstep : Step w F z) {x y : RecordId × String}
    (hx : z.Mentions (E ++ F) x) (hy : z.Mentions (E ++ F) y) (hid : x.1 = y.1) :
    x.2 = y.2 := by
  obtain ⟨fresh, hdraws, harises⟩ := hstep.arises
  -- An identifier drawn by this step was mentioned nowhere, so old and new ones never meet.
  rcases h.mentions hstep harises hx with hx | ⟨r, hr, rfl⟩
  · rcases h.mentions hstep harises hy with hy | ⟨s, hs, rfl⟩
    · exact h.paired x y hx hy hid
    · obtain ⟨-, -, n, hn, -, hs⟩ := hdraws.mem s hs
      exact absurd (hid.trans hs) (h.undrawn x hx n hn)
  · rcases h.mentions hstep harises hy with hy | ⟨s, hs, rfl⟩
    · obtain ⟨-, -, n, hn, -, hr⟩ := hdraws.mem r hr
      exact absurd (hid.symm.trans hr) (h.undrawn y hy n hn)
    · rw [List.inj_on_of_nodup_map hdraws.nodup hr hs hid]

theorem undrawn_step (h : Sound w E) (hstep : Step w F z) {x : RecordId × String}
    (hx : z.Mentions (E ++ F) x) {n : Nat} (hn : z.node.drawn < n) : x.1 ≠ RecordId.drawn n := by
  obtain ⟨fresh, hdraws, harises⟩ := hstep.arises
  rcases h.mentions hstep harises hx with hx | ⟨r, hr, rfl⟩
  · exact h.undrawn x hx n (hstep.advances.drawn.trans_lt hn)
  · obtain ⟨-, -, k, -, hk, hid⟩ := hdraws.mem r hr
    intro heq
    have hkn : k = n := RecordId.drawn_injective (hid.symm.trans heq)
    omega

theorem moments_step (h : Sound w E) (hstep : Step w F z) {r : PublicationRecord}
    (hr : r ∈ z.node.store.records) : r.publishedAt.isAware := by
  rcases hstep.origin hr with ⟨y, hy, -, hmoment⟩ | ⟨o, handlers, records, hthread, y, hy, rfl, -⟩
  · rw [hmoment]
    exact h.moments y hy
  · exact Store.isAware_keepInstant (h.ready _ hthread y hy).2

/-- A confirmation follows an invocation of the handler that the record names. -/
theorem settled_step (h : Sound w E) (hstep : Step w F z) {r : PublicationRecord}
    (hr : .created r ∈ E ++ F) :
    z.node.store.HasPending r ∨
      (.returned r.handlerId r.id ∈ E ++ F ∧ .confirmed r.id ∈ E ++ F) ∨
      .completed r.id ∈ E ++ F := by
  rcases List.mem_append.mp hr with hold | hnew
  · rcases h.settled r hold with
      ⟨x, hx, hpending, hid, hrest⟩ | ⟨hreturned, hconfirmed⟩ | hcompleted
    · rcases hstep.pending_stays h.nodup hx hpending with
        hstays | ⟨t, ht, htask, hconfirmed⟩ | hcompleted
      · exact .inl ⟨x, hstays, hpending, hid, hrest⟩
      -- What `t` confirms has returned from the handler of `t`; identifiers have one handler.
      · have hhandler : t.handler.id = r.handlerId :=
          h.paired t.pair r.pair (.inl (.inr ⟨_, ht, by simp [Thread.pairs]⟩))
            (.inr ⟨r, hold, rfl⟩) (htask.trans hid)
        have hreturned := h.returned t ht
        rw [hhandler, htask, hid] at hreturned
        rw [hid] at hconfirmed
        exact .inr (.inl ⟨List.mem_append_left _ hreturned, List.mem_append_right _ hconfirmed⟩)
      · exact .inr (.inr (List.mem_append_right _ (hid ▸ hcompleted)))
    · exact .inr (.inl ⟨List.mem_append_left _ hreturned, List.mem_append_left _ hconfirmed⟩)
    · exact .inr (.inr (List.mem_append_left _ hcompleted))
  · exact .inl (hstep.created h.ready hnew).1

theorem step (h : Sound w E) (hstep : Step w F z) : Sound z (E ++ F) := by
  obtain ⟨fresh, hdraws, harises⟩ := hstep.arises
  constructor
  · exact hstep.nodup h.nodup
  · exact fun x y hx hy hid => h.paired_step hstep hx hy hid
  · exact fun x hx n hn => h.undrawn_step hstep hx hn
  · exact hstep.advances.aware h.clock
  · exact fun r hr => h.moments_step hstep hr
  · intro t ht
    apply (harises t ht).isReady h.ready
    intro r hr
    obtain ⟨hpending, hnow, -⟩ := hdraws.mem r hr
    exact ⟨hpending, hnow ▸ h.clock⟩
  · intro t ht
    cases harises _ ht with
    | stays hold => exact List.mem_append_left _ (h.returned t hold)
    | returned _ hevent => exact List.mem_append_right _ hevent
  · exact fun r hr => h.settled_step hstep hr

theorem run (h : Sound w E) (hrun : Run w F z) : Sound z (E ++ F) := by
  induction hrun generalizing E with
  | here w => simpa using h
  | step hstep _ ih =>
      rw [← List.append_assoc]
      exact ih (h.step hstep)

end Sound

theorem Run.sourced {w z : World} {E : List Event} (h : Run w E z) {id : RecordId}
    (hid : id ∈ z.node.store.ids) :
    id ∈ w.node.store.ids ∨ ∃ r, .created r ∈ E ∧ r.id = id := by
  induction h with
  | here => exact .inl hid
  | step hstep _ ih =>
      rcases ih hid with hmiddle | ⟨r, hr, hrid⟩
      · rcases hstep.sourced hmiddle with hold | ⟨r, hr, hrid⟩
        · exact .inl hold
        · exact .inr ⟨r, List.mem_append_left _ hr, hrid⟩
      · exact .inr ⟨r, List.mem_append_right _ hr, hrid⟩

/-- A node at its beginning: nothing is under way, and no identifier of a stored record will be
drawn. -/
structure Node.Ready (p : Node) : Prop where
  nodup : p.store.ids.Nodup
  undrawn : ∀ r ∈ p.store.records, ∀ n, p.drawn < n → r.id ≠ RecordId.drawn n
  clock : p.clock.now.isAware
  moments : ∀ r ∈ p.store.records, r.publishedAt.isAware

theorem Node.Ready.sound {p : Node} (h : p.Ready) : Sound ⟨p, 0⟩ [] := by
  have hcarries : ∀ x, (World.mk p 0).Mentions [] x → ∃ r ∈ p.store.records, x = r.pair := by
    rintro x ((hstored | ⟨t, ht, -⟩) | ⟨r, hr, -⟩)
    · exact hstored
    · exact absurd ht (Multiset.notMem_zero t)
    · simp at hr
  constructor
  · exact h.nodup
  · intro x y hx hy hid
    obtain ⟨r, hr, rfl⟩ := hcarries x hx
    obtain ⟨s, hs, rfl⟩ := hcarries y hy
    rw [Store.eq_of_mem_of_id_eq h.nodup hr hs hid]
  · intro x hx
    obtain ⟨r, hr, rfl⟩ := hcarries x hx
    exact h.undrawn r hr
  · exact h.clock
  · exact h.moments
  · exact fun t ht => absurd ht (Multiset.notMem_zero t)
  · exact fun t ht => absurd ht (Multiset.notMem_zero _)
  · simp

theorem Store.HasPending.found {s : Store} {r : PublicationRecord} (h : s.HasPending r)
    (hmoments : ∀ x ∈ s.records, x.publishedAt.isAware) :
    ∃ found, s.findIncomplete = .ok found ∧ ∃ x ∈ found, x.isPending ∧ x.id = r.id ∧
      x.handlerId = r.handlerId ∧ x.payload = r.payload := by
  obtain ⟨x, hx, hpending, hsame⟩ := h
  obtain ⟨found, hfound⟩ := findIncomplete_eq_ok hmoments
  refine ⟨found, hfound, x, ?_, hpending, hsame⟩
  exact (findIncomplete_perm hfound).mem_iff.mpr (List.mem_filter.mpr ⟨hx, hpending⟩)

/-- At least once: in every run a record that a dispatch created is pending and found, or its own
handler has returned from an invocation for it, or a call has completed it.  Whatever else is
under way, each operation of a node is such a run. -/
theorem delivered_at_least_once {p : Node} {w : World} {E : List Event} (hready : p.Ready)
    (hrun : Run ⟨p, 0⟩ E w) :
    (∀ id ∈ w.node.store.ids, id ∈ p.store.ids ∨ ∃ r, .created r ∈ E ∧ r.id = id) ∧
      (∀ r, .created r ∈ E →
        ((∃ found, w.node.store.findIncomplete = .ok found ∧ ∃ x ∈ found, x.isPending ∧
            x.id = r.id ∧ x.handlerId = r.handlerId ∧ x.payload = r.payload) ∨
          .returned r.handlerId r.id ∈ E ∨ .completed r.id ∈ E) ∧
        (r.id ∈ w.node.store.ids ∨ .confirmed r.id ∈ E ∨ .completed r.id ∈ E)) ∧
      (∀ F z, Step w F z → ∀ x ∈ w.node.store.records, x.isPending →
        x ∈ z.node.store.records ∨ .confirmed x.id ∈ F ∨ .completed x.id ∈ F) ∧
      ∀ (op : Operation) (q : Node) (u : Multiset Thread), w = q.world u →
        ∃ F, Run w F ((op.after q).world u) ∧ (¬ op.IsCall → ∀ e ∈ F, ¬ e.IsCall) := by
  have hsound : Sound w E := hready.sound.run hrun
  refine ⟨fun id hid => hrun.sourced hid, ?_, ?_, ?_⟩
  · intro r hr
    rcases hsound.settled r hr with hpending | ⟨hreturned, hconfirmed⟩ | hcompleted
    · refine ⟨.inl (hpending.found hsound.moments), .inl ?_⟩
      obtain ⟨x, hx, -, hid, -⟩ := hpending
      exact hid ▸ Store.mem_ids_of_mem hx
    · exact ⟨.inr (.inl hreturned), .inr (.inl hconfirmed)⟩
    · exact ⟨.inr (.inr hcompleted), .inr (.inr hcompleted)⟩
  · intro F z hstep x hx hpending
    rcases hstep.pending_stays hsound.nodup hx hpending with
      hstays | ⟨-, -, -, hconfirmed⟩ | hcompleted
    · exact .inl hstays
    · exact .inr (.inl hconfirmed)
    · exact .inr (.inr hcompleted)
  · rintro op q u rfl
    exact op.run q u

/-- A handler of all occurrences. -/
def mailHandler : HandlerDescriptor := ⟨"mail", 0, false, "Mail", some "mail"⟩

/-- A node at the first instant with an empty table and one handler. -/
def mailNode : Node :=
  { Node.start (ModuleSpace.initial []) ⟨Clock.epoch⟩ (.table .empty) with
    registry := ⟨[mailHandler], by simp⟩ }

/-- The record of the first dispatch of the base class. -/
def mailRecord : PublicationRecord :=
  { id := RecordId.drawn 1, handlerId := "mail"
    payload := Payload.ofOccurrence Catalogue.initial ⟨0, []⟩
    publishedAt := Clock.epoch, completedAt := none }

/-- A process that ends before the handler is invoked leaves the record to be found. -/
theorem delivered_at_least_once_restarted :
    ∃ E w, mailNode.Ready ∧ Run ⟨mailNode, 0⟩ E w ∧ .created mailRecord ∈ E ∧
      ((∃ found, w.node.store.findIncomplete = .ok found ∧ ∃ x ∈ found, x.isPending ∧
          x.id = mailRecord.id ∧ x.handlerId = mailRecord.handlerId ∧
          x.payload = mailRecord.payload) ∨
        .returned mailRecord.handlerId mailRecord.id ∈ E ∨ .completed mailRecord.id ∈ E) ∧
      (mailRecord.id ∈ w.node.store.ids ∨ .confirmed mailRecord.id ∈ E ∨
        .completed mailRecord.id ∈ E) := by
  have hready : mailNode.Ready := by
    constructor
    · exact List.nodup_nil
    · intro r hr
      cases hr
    · rfl
    · intro r hr
      cases hr
  have hhandlers : [mailHandler] = mailNode.registry.handlersFor mailNode.space.catalogue 0 := by
    decide
  let q : Node := { mailNode with drawn := 1 }
  let z : Node := ((Ledger.insert [mailRecord]).outcome q).2
  have hstored : (Ledger.insert [mailRecord]).outcome q = (.ok (), z) := rfl
  have hpublish : Step ⟨mailNode, 0⟩ [] ⟨q, .storing ⟨0, []⟩ [mailHandler] [mailRecord] ::ₘ 0⟩ :=
    Step.publish (p := mailNode) (u := 0) (o := ⟨0, []⟩) hhandlers
  have hstore : Step ⟨q, .storing ⟨0, []⟩ [mailHandler] [mailRecord] ::ₘ 0⟩
      [.created mailRecord] ⟨z, _⟩ := Step.store (u := 0) hstored
  have hrun : Run ⟨mailNode, 0⟩ ([] ++ ([.created mailRecord] ++ ([] ++ []))) ⟨z, 0⟩ :=
    .step hpublish (.step hstore (.step (.restart rfl rfl rfl id) (.here _)))
  have hcreated :
      .created mailRecord ∈ ([] ++ ([.created mailRecord] ++ ([] ++ [])) : List Event) := by
    simp
  exact ⟨_, _, hready, hrun, hcreated,
    (delivered_at_least_once hready hrun).2.1 mailRecord hcreated⟩

end DeliveryLedger
