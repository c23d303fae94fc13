import DeliveryLedger.Proofs.Calls
/-!
The life of a stored record: inserted once, completed at most once, deleted only after its
completion, and never changed otherwise.

`StoreCall.Effect.follow` says what one call can do to a record that stays stored, and
`History.follow` says it of a row of calls.
-/

namespace DeliveryLedger

namespace Store

/-- The identifiers of the stored records. -/
def ids (s : Store) : List RecordId := s.records.map (·.id)

theorem mem_ids_of_mem {s : Store} {r : PublicationRecord} (h : r ∈ s.records) : r.id ∈ s.ids :=
  List.mem_map_of_mem h

theorem eq_of_mem_of_id_eq {s : Store} {a b : PublicationRecord} (hnodup : s.ids.Nodup)
    (ha : a ∈ s.records) (hb : b ∈ s.records) (hid : a.id = b.id) : a = b :=
  List.inj_on_of_nodup_map hnodup ha hb hid

theorem mem_of_get? {s : Store} {id : RecordId} {r : PublicationRecord}
    (h : s.get? id = some r) : r ∈ s.records ∧ r.id = id := by
  cases s with
  | memory m =>
      exact ⟨List.mem_of_find?_eq_some h, by simpa using List.find?_some h⟩
  | table t =>
      obtain ⟨row, hrow, rfl⟩ := Option.map_eq_some_iff.mp h
      exact ⟨List.mem_map_of_mem (List.mem_of_find?_eq_some hrow),
        by simpa [Row.toRecord] using List.find?_some hrow⟩

end Store

namespace StoreCall

variable {s s' : Store} {clock : Clock} {c : StoreCall} {r : Except Fault StoreAnswer}

theorem ids_of_stamped {id : RecordId} {now : Instant}
    (h : s'.records = s.records.map fun r => if r.id = id then s.stamp now r else r) :
    s'.ids = s.ids := by
  unfold Store.ids
  rw [h, List.map_map]
  apply List.map_congr_left
  intro r _
  by_cases hr : r.id = id <;> simp [hr]

theorem Effect.isTable_eq (h : Effect s clock c r s') : s'.isTable = s.isTable := by
  cases h with
  | failed => rfl
  | answered => rfl
  | accepted => rfl
  | declined => rfl
  | inserted _ hkind => exact hkind
  | completed _ _ hkind => exact hkind
  | deleted _ _ hkind => exact hkind

theorem Effect.nodup (h : Effect s clock c r s') (hnodup : s.ids.Nodup) : s'.ids.Nodup := by
  cases h with
  | failed => exact hnodup
  | answered => exact hnodup
  | accepted => exact hnodup
  | declined => exact hnodup
  | @inserted batch _ hrecords _ hbatch hfresh =>
      have hids : s'.ids = s.ids ++ batch.map (·.id) := by
        simp [Store.ids, hrecords, Function.comp_def]
      rw [hids, List.nodup_append]
      refine ⟨hnodup, hbatch, ?_⟩
      rintro _ hold _ hnew rfl
      obtain ⟨r, hr, rfl⟩ := List.mem_map.mp hnew
      exact hfresh r hr hold
  | completed _ hrecords _ => exact ids_of_stamped hrecords ▸ hnodup
  | deleted _ hrecords _ =>
      unfold Store.ids
      rw [hrecords]
      exact hnodup.sublist ((List.filter_sublist).map _)

theorem Effect.mem_ids (h : Effect s clock c r s') (hc : ∀ age, c ≠ .deleteCompletedOlderThan age)
    {id : RecordId} (hid : id ∈ s.ids) : id ∈ s'.ids := by
  cases h with
  | failed => exact hid
  | answered => exact hid
  | accepted => exact hid
  | declined => exact hid
  | inserted hrecords =>
      unfold Store.ids
      rw [hrecords, List.map_append]
      exact List.mem_append_left _ hid
  | completed _ hrecords _ => exact ids_of_stamped hrecords ▸ hid
  | deleted => exact absurd rfl (hc _)

theorem Effect.eq_of_error {fault : Fault} (h : Effect s clock c (.error fault) s') :
    s' = s := by
  cases h
  rfl

theorem Effect.of_delete {age : Duration} {a : StoreAnswer}
    (h : Effect s clock (.deleteCompletedOlderThan age) (.ok a) s') :
    ∃ cutoff, clock.cutoff age = .ok cutoff ∧
      s'.records = s.records.filter (fun r => !r.completedUpTo (s.keepInstant cutoff)) ∧
      a = .deleted (s.records.filter (·.completedUpTo (s.keepInstant cutoff))).length := by
  cases h with
  | answered _ hquery => simp [isQuery] at hquery
  | deleted hcutoff hrecords => exact ⟨_, hcutoff, hrecords, rfl⟩

/-- The call is the one that completed the record of an identifier. -/
def Wins (c : StoreCall) (r : Except Fault StoreAnswer) (id : RecordId) : Prop :=
  c = .complete id ∧ r = .ok (.won true)

/-- A record that stays stored is left as it is, or it was pending and the call completes it. -/
theorem Effect.follow (h : Effect s clock c r s') (hnodup : s.ids.Nodup)
    {a : PublicationRecord} (ha : a ∈ s.records) (hstays : a.id ∈ s'.ids) :
    (¬ c.Wins r a.id ∧ a ∈ s'.records) ∨
      (c.Wins r a.id ∧ a.isPending ∧
        { a with completedAt := some (s.keepInstant clock.now) } ∈ s'.records) := by
  cases h with
  | failed => exact .inl ⟨by simp [Wins], ha⟩
  | answered _ hquery => exact .inl ⟨fun hwins => by simp [hwins.1, isQuery] at hquery, ha⟩
  | accepted => exact .inl ⟨by simp [Wins], ha⟩
  | declined => exact .inl ⟨by simp [Wins], ha⟩
  | inserted hrecords =>
      refine .inl ⟨by simp [Wins], ?_⟩
      rw [hrecords]
      exact List.mem_append_left _ ha
  | @completed id _ hpending hrecords _ =>
      by_cases hid : a.id = id
      · obtain ⟨b, hb, hbpending⟩ := hpending
        obtain ⟨hbmem, hbid⟩ := Store.mem_of_get? hb
        obtain rfl : a = b := Store.eq_of_mem_of_id_eq hnodup ha hbmem (hid.trans hbid.symm)
        refine .inr ⟨⟨by rw [hid], rfl⟩, hbpending, ?_⟩
        rw [hrecords, ← Store.stamp_of_isPending hbpending]
        exact List.mem_map.mpr ⟨a, ha, by simp [hid]⟩
      · refine .inl ⟨fun hwins => hid (by simpa using hwins.1.symm), ?_⟩
        rw [hrecords]
        exact List.mem_map.mpr ⟨a, ha, by simp [hid]⟩
  | deleted _ hrecords _ =>
      refine .inl ⟨by simp [Wins], ?_⟩
      obtain ⟨b, hb, hid⟩ := List.mem_map.mp hstays
      rw [hrecords] at hb ⊢
      obtain ⟨hbmem, hbkept⟩ := List.mem_filter.mp hb
      obtain rfl : b = a := Store.eq_of_mem_of_id_eq hnodup hbmem ha hid
      exact List.mem_filter.mpr ⟨ha, hbkept⟩

end StoreCall

namespace History

variable {During : Node → Prop} {p z : Node} {es : List StoreEvent}

theorem isTable_eq (h : History During p es z) : z.store.isTable = p.store.isTable := by
  induction h with
  | here => rfl
  | call _ hcall _ ih => exact ih.trans (StoreCall.effect_of_outcome hcall).1.isTable_eq
  | meanwhile _ hstore _ ih => exact ih.trans (congrArg Store.isTable hstore)

theorem nodup (h : History During p es z) (hnodup : p.store.ids.Nodup) : z.store.ids.Nodup := by
  induction h with
  | here => exact hnodup
  | call _ hcall _ ih => exact ih ((StoreCall.effect_of_outcome hcall).1.nodup hnodup)
  | meanwhile _ hstore _ ih => exact ih (hstore ▸ hnodup)

theorem during_first (h : History During p es z) : During p := by
  cases h <;> assumption

/-- What became of a record through a row of calls: it is as it was and no call completed it,
or it was pending and exactly one call completed it, at the time that it says. -/
def Followed (es : List StoreEvent) (kept : Instant → Instant) (a b : PublicationRecord) : Prop :=
  (b = a ∧ ∀ e ∈ es, ¬ e.Completes a.id) ∨
    (a.isPending ∧ ∃ before e after, es = before ++ e :: after ∧ e.Completes a.id ∧
      b = { a with completedAt := some (kept e.now) } ∧
      ∀ e' ∈ before ++ after, ¬ e'.Completes a.id)

theorem follow {id : RecordId} (h : History (fun m => id ∈ m.store.ids) p es z)
    (hnodup : p.store.ids.Nodup) {a : PublicationRecord} (ha : a ∈ p.store.records)
    (hid : a.id = id) :
    ∃ b ∈ z.store.records, Followed es p.store.keepInstant a b := by
  induction h generalizing a with
  | here => exact ⟨a, ha, .inl ⟨rfl, by simp⟩⟩
  | meanwhile _ hstore _ ih =>
      obtain ⟨b, hb, hfollowed⟩ := ih (hstore ▸ hnodup) (hstore ▸ ha) hid
      exact ⟨b, hb, hstore ▸ hfollowed⟩
  | @call p q z c r es _ hcall rest ih =>
      have heffect := (StoreCall.effect_of_outcome hcall).1
      have hkeep : q.store.keepInstant = p.store.keepInstant := by
        funext t
        simp [Store.keepInstant, heffect.isTable_eq]
      have hnodup' := heffect.nodup hnodup
      rcases heffect.follow hnodup ha (hid ▸ rest.during_first) with
        ⟨hlost, ha'⟩ | ⟨hwins, hpending, ha'⟩
      · obtain ⟨b, hb, hfollowed⟩ := ih hnodup' ha' hid
        refine ⟨b, hb, ?_⟩
        rw [hkeep] at hfollowed
        rcases hfollowed with ⟨rfl, hnone⟩ | ⟨hpending, before, e, after, rfl, he, rfl, hnone⟩
        · exact .inl ⟨rfl, List.forall_mem_cons.mpr ⟨hlost, hnone⟩⟩
        · refine .inr ⟨hpending, _ :: before, e, after, rfl, he, rfl, ?_⟩
          exact List.forall_mem_cons.mpr ⟨hlost, hnone⟩
      -- Completed by this call, the record is not pending any more, so none of the rest can.
      · obtain ⟨b, hb, hfollowed⟩ := ih hnodup' ha' hid
        refine ⟨b, hb, .inr ⟨hpending, [], _, es, rfl, hwins, ?_⟩⟩
        rcases hfollowed with ⟨rfl, hnone⟩ | ⟨hpending', -⟩
        · exact ⟨rfl, hnone⟩
        · simp [PublicationRecord.isPending, PublicationRecord.isCompleted] at hpending'

end History

/-- From an empty store on, whatever is called and however the clock is set, a record keeps what it
was inserted with, is completed at most once, by the one completion that returns true, and goes
away only in a deletion whose cutoff its completion has reached. -/
theorem record_lifecycle {p q : Node} {es : List StoreEvent} (hempty : p.store.records = [])
    (hrun : History (fun _ => True) p es q) :
    q.store.ids.Nodup ∧
      (∀ (c : StoreCall) (r : Except Fault StoreAnswer) (m : Node), c.act.outcome q = (r, m) →
        (∀ fault, r = .error fault → m.store = q.store) ∧
          ((∀ age, c ≠ .deleteCompletedOlderThan age) → ∀ id ∈ q.store.ids, id ∈ m.store.ids) ∧
          ∀ age a, c = .deleteCompletedOlderThan age → r = .ok a →
            (q.store.isTable → q.clock.now.isUtc) →
            ∃ cutoff, q.clock.cutoff age = .ok cutoff ∧
              m.store.records = q.store.records.filter (fun r => !r.completedUpTo cutoff) ∧
              a = .deleted (q.store.records.filter (·.completedUpTo cutoff)).length) ∧
      ∀ id z fs, History (fun m => id ∈ m.store.ids) q fs z →
        (q.store.isTable → ∀ e ∈ fs, e.now.isUtc) →
        ∃ a ∈ q.store.records, ∃ b ∈ z.store.records, a.id = id ∧
          ((b = a ∧ ∀ e ∈ fs, ¬ e.Completes id) ∨
            (a.isPending ∧ ∃ before e after, fs = before ++ e :: after ∧ e.Completes id ∧
              b = { a with completedAt := some e.now } ∧
              ∀ e' ∈ before ++ after, ¬ e'.Completes id)) := by
  have hnodup : q.store.ids.Nodup := hrun.nodup (by simp [Store.ids, hempty])
  refine ⟨hnodup, ?_, ?_⟩
  · intro c r m hcall
    have heffect := (StoreCall.effect_of_outcome hcall).1
    refine ⟨?_, fun hc id hid => heffect.mem_ids hc hid, ?_⟩
    · rintro fault rfl
      exact heffect.eq_of_error
    · rintro age a rfl rfl hutc
      obtain ⟨cutoff, hcutoff, hrecords, hcount⟩ := heffect.of_delete
      have hkeep : q.store.keepInstant cutoff = cutoff :=
        Store.keepInstant_of_isUtc fun htable => Instant.isUtc_of_cutoff hcutoff (hutc htable)
      rw [hkeep] at hrecords hcount
      exact ⟨cutoff, hcutoff, hrecords, hcount⟩
  · intro id z fs hduring hutc
    obtain ⟨a, ha, hid⟩ := List.mem_map.mp hduring.during_first
    obtain ⟨b, hb, hfollowed⟩ := hduring.follow hnodup ha hid
    subst hid
    refine ⟨a, ha, b, hb, rfl, ?_⟩
    rcases hfollowed with hsame | ⟨hpending, before, e, after, rfl, he, rfl, hnone⟩
    · exact .inl hsame
    · have hnow : q.store.keepInstant e.now = e.now :=
        Store.keepInstant_of_isUtc fun htable => hutc htable e (by simp)
      exact .inr ⟨hpending, before, e, after, rfl, he, by rw [hnow], hnone⟩

/-- A node at the first instant with an empty table. -/
def emptyTableNode : Node := Node.start (ModuleSpace.initial []) ⟨Clock.epoch⟩ (.table .empty)

/-- A pending record of the first instant. -/
def pendingRecord : PublicationRecord :=
  ⟨RecordId.drawn 1, "mail", ⟨"app.Placed", "{}"⟩, Clock.epoch, none⟩

/-- The node after a call. -/
def StoreCall.after (c : StoreCall) (p : Node) : Node := (c.act.outcome p).2

/-- The event of a call. -/
def StoreCall.event (c : StoreCall) (p : Node) : StoreEvent :=
  ⟨p.clock.now, c, (c.act.outcome p).1⟩

/-- A record that is completed, inserted again and completed again keeps its first completion. -/
theorem record_lifecycle_reinserted :
    let q := (StoreCall.insert [pendingRecord]).after emptyTableNode
    let m := (StoreCall.complete pendingRecord.id).after q
    let n := (StoreCall.insert [pendingRecord]).after m
    let z := (StoreCall.complete pendingRecord.id).after n
    let fs := [(StoreCall.complete pendingRecord.id).event q,
      (StoreCall.insert [pendingRecord]).event m, (StoreCall.complete pendingRecord.id).event n]
    emptyTableNode.store.records = [] ∧
      History (fun _ => True) emptyTableNode
        [(StoreCall.insert [pendingRecord]).event emptyTableNode] q ∧
      History (fun m => pendingRecord.id ∈ m.store.ids) q fs z ∧
      ∃ a ∈ q.store.records, ∃ b ∈ z.store.records, a.id = pendingRecord.id ∧
          ((b = a ∧ ∀ e ∈ fs, ¬ e.Completes pendingRecord.id) ∨
            (a.isPending ∧ ∃ before e after, fs = before ++ e :: after ∧
              e.Completes pendingRecord.id ∧ b = { a with completedAt := some e.now } ∧
              ∀ e' ∈ before ++ after, ¬ e'.Completes pendingRecord.id)) := by
  intro q m n z fs
  have hempty : emptyTableNode.store.records = [] := rfl
  have hrun : History (fun _ => True) emptyTableNode
      [(StoreCall.insert [pendingRecord]).event emptyTableNode] q :=
    .call trivial rfl (.here trivial)
  have hduring : History (fun m => pendingRecord.id ∈ m.store.ids) q fs z :=
    .call (by decide) rfl (.call (by decide) rfl (.call (by decide) rfl (.here (by decide))))
  exact ⟨hempty, hrun, hduring,
    (record_lifecycle hempty hrun).2.2 pendingRecord.id z fs hduring (fun _ => by decide)⟩

end DeliveryLedger
