import DeliveryLedger.Proofs.Lifecycle
import DeliveryLedger.Dispatch
/-!
What an invocation and the completion after it change in a node, and what they leave alone.

An invocation touches the journal, the clock and the count of reactions; a completion that
does not fail marks the pending record of its identifier and no other.
-/

namespace DeliveryLedger

namespace Store

variable {s : Store} {r : PublicationRecord}

theorem get?_of_mem (hids : s.ids.Nodup) (hr : r ∈ s.records) : s.get? r.id = some r := by
  have hsome : (s.get? r.id).isSome := by
    cases s with
    | memory m => exact List.find?_isSome.mpr ⟨r, hr, by simp⟩
    | table t =>
        obtain ⟨row, hrow, rfl⟩ := List.mem_map.mp hr
        have hfind : (t.rows.find? (·.id = row.toRecord.id)).isSome :=
          List.find?_isSome.mpr ⟨row, hrow, by simp [Row.toRecord]⟩
        simpa [get?, Table.get?] using hfind
  obtain ⟨x, hx⟩ := Option.isSome_iff_exists.mp hsome
  obtain ⟨hmem, hid⟩ := mem_of_get? hx
  rw [hx, eq_of_mem_of_id_eq hids hmem hr hid]

theorem completed_of_isPending {id : RecordId} (hr : s.get? id = some r) (hpending : r.isPending)
    (now : Instant) : (s.complete id now).1 = .completed := by
  cases s with
  | memory m =>
      have hget : m.get? id = some r := hr
      have hopen : ¬ r.isCompleted := by simpa [PublicationRecord.isPending] using hpending
      simp [complete, Memory.complete, hget, hopen]
  | table t =>
      obtain ⟨row, hrow, rfl⟩ := Option.map_eq_some_iff.mp hr
      have hopen : row.isPending := by
        simpa [PublicationRecord.isPending, PublicationRecord.isCompleted, Row.toRecord,
          Row.isPending] using hpending
      simp [complete, Table.complete, hrow, hopen]

/-- The records after some of them were completed. -/
def markAll (done : List RecordId) (moment : RecordId → Instant)
    (records : List PublicationRecord) : List PublicationRecord :=
  records.map fun r => if r.id ∈ done then { r with completedAt := some (moment r.id) } else r

theorem ids_markAll (done : List RecordId) (moment : RecordId → Instant)
    (records : List PublicationRecord) :
    (markAll done moment records).map (·.id) = records.map (·.id) := by
  rw [markAll, List.map_map]
  apply List.map_congr_left
  intro r _
  by_cases hr : r.id ∈ done <;> simp [hr]

theorem markAll_nil (moment : RecordId → Instant) (records : List PublicationRecord) :
    markAll [] moment records = records := by
  simp [markAll]

theorem mem_markAll_of_notMem {done : List RecordId} {moment : RecordId → Instant}
    {records : List PublicationRecord} (hr : r ∈ records) (hid : r.id ∉ done) :
    r ∈ markAll done moment records :=
  List.mem_map.mpr ⟨r, hr, by simp [hid]⟩

theorem markAll_append (done : List RecordId) (moment : RecordId → Instant)
    (as bs : List PublicationRecord) :
    markAll done moment (as ++ bs) = markAll done moment as ++ markAll done moment bs :=
  List.map_append

theorem markAll_of_others {done : List RecordId} {records : List PublicationRecord}
    (h : ∀ r ∈ records, r.id ∉ done) (moment : RecordId → Instant) :
    markAll done moment records = records := by
  conv_rhs => rw [← List.map_id records]
  apply List.map_congr_left
  intro r hr
  simp [h r hr]

theorem markAll_markAll {done more : List RecordId} {moment moment' : RecordId → Instant}
    (hdisjoint : ∀ id ∈ done, id ∉ more) (records : List PublicationRecord) :
    markAll more moment' (markAll done moment records) =
      markAll (done ++ more) (fun id => if id ∈ done then moment id else moment' id) records := by
  simp only [markAll, List.map_map]
  apply List.map_congr_left
  intro r _
  by_cases hdone : r.id ∈ done
  · simp [hdone, hdisjoint r.id hdone]
  · by_cases hmore : r.id ∈ more <;> simp [hdone, hmore]

end Store

open Act

variable {p q : Node}

theorem Ledger.complete_of_isPending {r : PublicationRecord} {result : Except Fault Bool}
    (hids : p.store.ids.Nodup) (hr : r ∈ p.store.records) (hpending : r.isPending)
    (h : outcome (complete r.id) p = (result, q)) :
    ((∃ fault, result = .error fault) ∧ p.Becomes p.store q) ∨
      (result = .ok true ∧ ∃ s, p.Becomes s q ∧ s.records =
        Store.markAll [r.id] (fun _ => p.store.keepInstant p.clock.now) p.store.records) := by
  rcases complete_cases h with hfailed | ⟨rfl, hbecomes⟩
  · exact .inl hfailed
  · have hwon := Store.completed_of_isPending (Store.get?_of_mem hids hr) hpending p.clock.now
    -- The call can only fail: a completion that reaches the store wins a pending record.
    rcases p.store.complete_cases r.id p.clock.now with ⟨hlost, -⟩ | ⟨-, -, -, hrecords⟩
    · exact absurd hwon hlost
    · refine .inr ⟨by rw [hwon]; rfl, _, hbecomes, ?_⟩
      rw [hrecords, Store.markAll]
      apply List.map_congr_left
      intro x hx
      by_cases hid : x.id = r.id
      · obtain rfl := Store.eq_of_mem_of_id_eq hids hx hr hid
        simp [Store.stamp_of_isPending hpending]
      · simp [hid]

namespace Dispatch

/-- What an invocation enters in the journal; a handler without a body is never reached. -/
def entries (h : HandlerDescriptor) (o : Occurrence) : List Call :=
  if h.body.isSome then [⟨h.id, o.type, o.toJson.canonical⟩] else []

theorem announce_of_body {h : HandlerDescriptor} {o : Occurrence} {body : String}
    (hbody : h.body = some body) (p : Node) :
    outcome (announce h o) p = (.ok body, { p with journal := p.journal ++ entries h o }) := by
  unfold announce
  rw [entries, hbody]
  rfl

theorem announce_of_no_body {h : HandlerDescriptor} {o : Occurrence} (hbody : h.body = none)
    (p : Node) : outcome (announce h o) p = (.error (.unimplemented h.name), p) := by
  unfold announce
  rw [hbody]
  rfl

theorem entries_of_no_body {h : HandlerDescriptor} {o : Occurrence} (hbody : h.body = none) :
    entries h o = [] := by
  rw [entries, hbody]
  rfl

theorem aware_of_advance {c d : Clock} {seconds : Json} (h : c.advanceSeconds seconds = .ok d)
    (haware : c.now.isAware) : d.now.isAware := by
  obtain ⟨x, -, h⟩ := bind_eq_ok_iff.mp h
  obtain ⟨total, -, h⟩ := bind_eq_ok_iff.mp h
  obtain ⟨now, hnow, h⟩ := bind_eq_ok_iff.mp h
  obtain rfl := Except.ok.inj h
  have hadd : c.now.add total = .ok now := by
    unfold liftTime at hnow
    split at hnow
    · rename_i hadd
      rw [hadd, Except.ok.inj hnow]
    · simp at hnow
  rw [Instant.isAware, Instant.offset_add hadd]
  exact haware

theorem react_frame {body : String} {r : Except Fault Unit}
    (h : outcome (react body) p = (r, q)) :
    ∃ clock reacted, (p.clock.now.isAware → clock.now.isAware) ∧
      q = { p with clock := clock, reacted := reacted } := by
  -- Counting and failing come last, after the clock was moved or not.
  have hcounted : ∀ (m : Node) (times : Nat) (last : Act Unit),
      (∀ n, (outcome last n).2 = n) →
      outcome (do
        modify fun p => { p with reacted := insertMember body (times + 1) p.reacted }
        last) m = (r, q) →
      ∃ reacted, q = { m with reacted := reacted } := by
    intro m times last hlast hm
    rw [outcome_bind_of_ok (outcome_modify _ m)] at hm
    exact ⟨_, (congrArg Prod.snd hm).symm.trans (hlast _)⟩
  unfold react at h
  rw [outcome_bind_of_ok (outcome_get p)] at h
  dsimp only at h
  split at h
  · obtain ⟨reacted, rfl⟩ := hcounted _ _ _ (fun n => by split <;> rfl) h
    exact ⟨p.clock, reacted, id, rfl⟩
  · rcases cases_of_outcome_bind h with ⟨fault, hlift, -⟩ | ⟨clock, m, hlift, hrest⟩
    · exact ⟨p.clock, p.reacted, id, (Prod.mk.inj hlift).2.symm⟩
    · obtain ⟨hclock, rfl⟩ := Prod.mk.inj hlift
      rw [outcome_bind_of_ok (outcome_modify _ p)] at hrest
      obtain ⟨reacted, rfl⟩ := hcounted _ _ _ (fun n => by split <;> rfl) hrest
      exact ⟨clock, reacted, aware_of_advance hclock, rfl⟩

theorem invoke_frame {h : HandlerDescriptor} {o : Occurrence} {r : Except Fault Unit}
    (hinvoke : outcome (invoke h o) p = (r, q)) :
    ∃ clock reacted, q =
      { p with clock := clock, reacted := reacted, journal := p.journal ++ entries h o } := by
  unfold invoke at hinvoke
  cases hbody : h.body with
  | none =>
      rw [outcome_bind, announce_of_no_body hbody] at hinvoke
      obtain ⟨-, rfl⟩ := Prod.mk.inj hinvoke
      exact ⟨p.clock, p.reacted, by rw [entries_of_no_body hbody, List.append_nil]⟩
  | some body =>
      rw [outcome_bind_of_ok (announce_of_body hbody p)] at hinvoke
      obtain ⟨clock, reacted, -, rfl⟩ := react_frame hinvoke
      exact ⟨clock, reacted, rfl⟩

end Dispatch

end DeliveryLedger
