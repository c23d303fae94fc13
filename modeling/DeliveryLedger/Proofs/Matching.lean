import DeliveryLedger.Proofs.Delivery
import DeliveryLedger.Proofs.DigestText
import DeliveryLedger.Proofs.Invocation
/-!
Completion by occurrence never guesses.

In a store that holds nothing but recorded fan-outs (`Store.FromFanOuts`), the records that a
look-up by fingerprint finds are those of the same type and payload, as long as no two of the
texts have one digest.  One such record is completed, and none if there are none or several.
-/

namespace DeliveryLedger

open Act

/-! ### Stores of fan-outs -/

/-- A batch as a fan-out makes it: one payload and one aware instant for all its records. -/
def Ledger.IsBatch (batch : List PublicationRecord) : Prop :=
  ∃ source drawn cat o now handlerIds, now.isAware ∧
    batch = newRecordsFrom source drawn (Payload.ofOccurrence cat o) now handlerIds

namespace Store

/-- The store began empty.  Since then fan-outs were recorded in it, records completed and old
ones deleted, in any order and at any time. -/
inductive FromFanOuts : Store → Prop where
  | empty {s : Store} (h : s.records = []) : FromFanOuts s
  | record {s s' : Store} {batch : List PublicationRecord} {first again : Sight}
      {how : Insertion} (h : FromFanOuts s) (hbatch : Ledger.IsBatch batch)
      (hinsert : s.insertSeeing first again batch = .ok (how, s')) : FromFanOuts s'
  | complete {s : Store} (h : FromFanOuts s) (id : RecordId) (now : Instant) :
      FromFanOuts (s.complete id now).2
  | delete {s s' : Store} {cutoff : Instant} {count : Nat} (h : FromFanOuts s)
      (hdelete : s.deleteCompletedUpTo cutoff = .ok (count, s')) : FromFanOuts s'

/-- Every row of a table has the fingerprint of its payload. -/
def IsIndexed : Store → Prop
  | .memory _ => True
  | .table t => ∀ row ∈ t.rows, row.fingerprint = row.payload.fingerprint

variable {s s' : Store}

theorem isIndexed_of_empty (h : s.records = []) : s.IsIndexed := by
  cases s with
  | memory m => trivial
  | table t =>
      intro row hrow
      have hmem : row.toRecord ∈ (Store.table t).records := List.mem_map_of_mem hrow
      simp [h] at hmem

theorem IsIndexed.insertSeeing {batch : List PublicationRecord} {first again : Sight}
    {how : Insertion} (h : s.IsIndexed)
    (hinsert : s.insertSeeing first again batch = .ok (how, s')) : s'.IsIndexed := by
  cases s with
  | memory m =>
      obtain ⟨⟨_, m'⟩, -, hs'⟩ := map_eq_ok_iff.mp hinsert
      obtain ⟨-, rfl⟩ := Prod.mk.inj hs'
      trivial
  | table t =>
      obtain ⟨⟨_, t'⟩, ht, hs'⟩ := map_eq_ok_iff.mp hinsert
      obtain ⟨-, rfl⟩ := Prod.mk.inj hs'
      rcases table_insertSeeing_ok ht with ⟨rfl, -⟩ | happend
      · exact h
      · obtain ⟨rfl, -⟩ := append_batch_iff.mp happend
        intro row hrow
        rcases List.mem_append.mp hrow with hold | hnew
        · exact h row hold
        · obtain ⟨r, -, rfl⟩ := List.mem_map.mp hnew
          rfl

theorem IsIndexed.complete (h : s.IsIndexed) (id : RecordId) (now : Instant) :
    (s.complete id now).2.IsIndexed := by
  cases s with
  | memory m => trivial
  | table t =>
      intro row hrow
      unfold Table.complete at hrow
      split at hrow
      · exact h row hrow
      · split at hrow
        · obtain ⟨old, hold, rfl⟩ := List.mem_map.mp hrow
          have hindexed := h old hold
          split <;> exact hindexed
        · exact h row hrow

theorem IsIndexed.deleteCompletedUpTo {cutoff : Instant} {count : Nat} (h : s.IsIndexed)
    (hdelete : s.deleteCompletedUpTo cutoff = .ok (count, s')) : s'.IsIndexed := by
  cases s with
  | memory m =>
      obtain ⟨⟨_, m'⟩, -, hs'⟩ := map_eq_ok_iff.mp hdelete
      obtain ⟨-, rfl⟩ := Prod.mk.inj hs'
      trivial
  | table t =>
      obtain ⟨-, rfl⟩ := Prod.mk.inj (Except.ok.inj hdelete)
      exact fun row hrow => h row (List.mem_filter.mp hrow).1

/-- A record as a fan-out leaves it: its payload is an encoded occurrence, and it was published
at an aware instant. -/
def IsFannedOut (r : PublicationRecord) : Prop :=
  (∃ cat o, r.payload = Payload.ofOccurrence cat o) ∧ r.publishedAt.isAware

/-- What recording, completing and deleting preserve. -/
structure Faithful (s : Store) : Prop where
  nodup : s.ids.Nodup
  fannedOut : ∀ r ∈ s.records, IsFannedOut r
  indexed : s.IsIndexed

theorem isFannedOut_of_mem_batch {batch : List PublicationRecord} {r : PublicationRecord}
    (hbatch : Ledger.IsBatch batch) (hr : r ∈ batch) : IsFannedOut r := by
  obtain ⟨source, drawn, cat, o, now, handlerIds, haware, rfl⟩ := hbatch
  obtain ⟨-, hnow, hpayload, -⟩ := Ledger.mem_newRecordsFrom hr
  exact ⟨⟨cat, o, hpayload⟩, hnow ▸ haware⟩

theorem Faithful.record {batch : List PublicationRecord} {first again : Sight} {how : Insertion}
    (h : s.Faithful) (hbatch : Ledger.IsBatch batch)
    (hinsert : s.insertSeeing first again batch = .ok (how, s')) : s'.Faithful := by
  rcases insertSeeing_ok hinsert with ⟨rfl, -⟩ | ⟨hrecords, -, hnodup, hfresh⟩
  · exact h
  refine ⟨?_, ?_, h.indexed.insertSeeing hinsert⟩
  · unfold ids
    rw [hrecords, List.map_append, List.nodup_append]
    refine ⟨h.nodup, by simpa [Function.comp_def] using hnodup, ?_⟩
    rintro _ hold _ hnew rfl
    obtain ⟨r, hr, rfl⟩ := List.mem_map.mp hnew
    obtain ⟨given, hgiven, rfl⟩ := List.mem_map.mp hr
    exact hfresh given hgiven hold
  · intro r hr
    rw [hrecords] at hr
    rcases List.mem_append.mp hr with hold | hnew
    · exact h.fannedOut r hold
    · obtain ⟨given, hgiven, rfl⟩ := List.mem_map.mp hnew
      obtain ⟨hpayload, haware⟩ := isFannedOut_of_mem_batch hbatch hgiven
      exact ⟨hpayload, isAware_keepInstant haware⟩

theorem Faithful.complete (h : s.Faithful) (id : RecordId) (now : Instant) :
    (s.complete id now).2.Faithful := by
  refine ⟨?_, ?_, h.indexed.complete id now⟩
  all_goals
    rcases s.complete_cases id now with ⟨-, hsame⟩ | ⟨-, -, -, hrecords⟩
  · exact hsame.symm ▸ h.nodup
  · exact StoreCall.ids_of_stamped hrecords ▸ h.nodup
  · exact hsame.symm ▸ h.fannedOut
  · intro r hr
    rw [hrecords] at hr
    obtain ⟨old, hold, rfl⟩ := List.mem_map.mp hr
    have hfanned := h.fannedOut old hold
    split
    · obtain ⟨t, ht⟩ : ∃ t, s.stamp now old = { old with completedAt := some t } := stamp_eq
      rw [ht]
      exact hfanned
    · exact hfanned

theorem Faithful.delete {cutoff : Instant} {count : Nat} (h : s.Faithful)
    (hdelete : s.deleteCompletedUpTo cutoff = .ok (count, s')) : s'.Faithful := by
  obtain ⟨-, hrecords, -⟩ := deleteCompletedUpTo_ok hdelete
  refine ⟨?_, ?_, h.indexed.deleteCompletedUpTo hdelete⟩
  · unfold ids
    rw [hrecords]
    exact h.nodup.sublist (List.filter_sublist.map _)
  · intro r hr
    rw [hrecords] at hr
    exact h.fannedOut r (List.mem_filter.mp hr).1

theorem FromFanOuts.faithful (h : s.FromFanOuts) : s.Faithful := by
  induction h with
  | @empty s h =>
      exact ⟨by simp [ids, h], by simp [h], isIndexed_of_empty h⟩
  | record _ hbatch hinsert ih => exact ih.record hbatch hinsert
  | complete _ id now ih => exact ih.complete id now
  | delete _ hdelete ih => exact ih.delete hdelete

end Store

/-! ### Operations on them -/

namespace Ledger

variable {p q : Node}

theorem fromFanOuts_of_insert {batch : List PublicationRecord} {r : Except Fault Unit}
    (h : p.store.FromFanOuts) (hbatch : IsBatch batch)
    (hinsert : outcome (insert batch) p = (r, q)) :
    q.store.FromFanOuts ∧ q.clock = p.clock := by
  rcases insertSeeing_cases hinsert with ⟨-, hbecomes⟩ | ⟨-, _, _, _, _, hstore, hbecomes⟩
  · exact ⟨hbecomes.store ▸ h, hbecomes.clock⟩
  · exact ⟨hbecomes.store ▸ h.record hbatch hstore, hbecomes.clock⟩

theorem fromFanOuts_of_recordFrom {source : Nat → RecordId} {o : Occurrence}
    {handlerIds : List String} {r : Except Fault (List PublicationRecord)}
    (h : p.store.FromFanOuts) (haware : p.clock.now.isAware)
    (hrecord : outcome (recordFrom source (pure ()) o handlerIds) p = (r, q)) :
    q.store.FromFanOuts ∧ q.clock = p.clock := by
  by_cases hnodup : handlerIds.Nodup
  swap
  · rw [outcome_recordFrom_of_repeated hnodup] at hrecord
    obtain ⟨-, rfl⟩ := Prod.mk.inj hrecord
    exact ⟨h, rfl⟩
  by_cases hsome : handlerIds = []
  · subst hsome
    rw [outcome_recordFrom_nil] at hrecord
    obtain ⟨-, rfl⟩ := Prod.mk.inj hrecord
    exact ⟨h, rfl⟩
  obtain ⟨answer, m, hinsert, hlogged, -⟩ := recordFrom_inserts hnodup hsome hrecord
  rw [hlogged.store, hlogged.clock]
  have hbatch : IsBatch (newRecordsFrom source p.drawn (Payload.ofOccurrence p.space.catalogue o)
      p.clock.now handlerIds) :=
    ⟨source, p.drawn, p.space.catalogue, o, p.clock.now, handlerIds, haware, rfl⟩
  exact fromFanOuts_of_insert (p := { p with drawn := p.drawn + handlerIds.length }) h hbatch
    hinsert

theorem fromFanOuts_of_complete {id : RecordId} {r : Except Fault Bool}
    (h : p.store.FromFanOuts) (hcomplete : outcome (complete id) p = (r, q)) :
    q.store.FromFanOuts := by
  rcases complete_cases hcomplete with ⟨-, hbecomes⟩ | ⟨-, hbecomes⟩
  · exact hbecomes.store ▸ h
  · exact hbecomes.store ▸ h.complete id p.clock.now

theorem fromFanOuts_of_prune {age : Duration} {r : Except Fault Nat} (h : p.store.FromFanOuts)
    (hprune : outcome (prune age) p = (r, q)) : q.store.FromFanOuts := by
  rcases prune_cases hprune with ⟨-, hbecomes⟩ | ⟨_, _, _, -, hdelete, -, hbecomes⟩
  · exact hbecomes.store ▸ h
  · exact hbecomes.store ▸ h.delete hdelete

end Ledger

/-- The store holds fan-outs, and a dispatch that is about to store a batch made it as a
fan-out. -/
structure World.FromFanOuts (w : World) : Prop where
  store : w.node.store.FromFanOuts
  clock : w.node.clock.now.isAware
  storing : ∀ o handlers batch, .storing o handlers batch ∈ w.threads → Ledger.IsBatch batch

theorem Step.fromFanOuts {w z : World} {F : List Event} (h : Step w F z) (hw : w.FromFanOuts) :
    z.FromFanOuts := by
  have hstorage := hw.storing
  have hstore := hw.store
  refine ⟨?_, h.advances.aware hw.clock, ?_⟩
  · cases h with
    | change hsame => exact hsame ▸ hstore
    | publish => exact hstore
    | store h =>
        exact (Ledger.fromFanOuts_of_insert hstore
          (hstorage _ _ _ (Multiset.mem_cons_self _ _)) h).1
    | invoke h => exact (Dispatch.announce_drifts h).store ▸ hstore
    | returns _ h => exact (Dispatch.react_drifts h).store ▸ hstore
    | confirm h => exact Ledger.fromFanOuts_of_complete hstore h
    | fail h => exact h.drifts.store ▸ hstore
    | sweep h => exact (Ledger.findIncomplete_cases h).1.store ▸ hstore
    | sweepOlderThan h => exact (Ledger.findIncompleteOlderThan_cases h).1.store ▸ hstore
    | skip => exact hstore
    | replay => exact hstore
    | finish => exact hstore
    | complete h => exact Ledger.fromFanOuts_of_complete hstore h
    | prune h => exact Ledger.fromFanOuts_of_prune hstore h
    | restart _ hsame => exact hsame ▸ hstore
  · intro o handlers batch ht
    cases h with
    | @publish p u o' handlers' =>
        rcases Multiset.mem_cons.mp ht with hnew | hold
        · obtain ⟨-, -, rfl⟩ := Thread.storing.inj hnew
          exact ⟨RecordId.drawn, p.drawn, p.space.catalogue, o', p.clock.now, _, hw.clock, rfl⟩
        · exact hstorage _ _ _ hold
    | store =>
        rcases Multiset.mem_add.mp ht with hnew | hold
        · simp at hnew
        · exact hstorage _ _ _ (Multiset.mem_cons_of_mem hold)
    | restart => exact absurd ht (Multiset.notMem_zero _)
    | _ => exact hstorage o handlers batch (by simp_all)

theorem Run.fromFanOuts {w z : World} {E : List Event} (h : Run w E z) (hw : w.FromFanOuts) :
    z.FromFanOuts := by
  induction h with
  | here => exact hw
  | step h _ ih => exact ih (h.fromFanOuts hw)

/-- The nodes that operations lead to, one after the other, from an empty store on.  Between two
operations everything but the store may change, and the clock stays aware. -/
inductive Node.Worked : Node → Prop where
  | start {p : Node} (hempty : p.store.records = []) (haware : p.clock.now.isAware) : Worked p
  | record {p q : Node} {source : Nat → RecordId} {o : Occurrence} {handlerIds : List String}
      {r : Except Fault (List PublicationRecord)} (h : Worked p)
      (hrecord : outcome (Ledger.recordFrom source (pure ()) o handlerIds) p = (r, q)) : Worked q
  | operation {p : Node} (h : Worked p) (op : Operation) : Worked (op.after p)
  | change {p q : Node} (h : Worked p) (hstore : q.store = p.store)
      (haware : q.clock.now.isAware) : Worked q

theorem Node.Worked.record_after {p : Node} (h : p.Worked) (o : Occurrence)
    (handlerIds : List String) : (outcome (Ledger.record o handlerIds) p).2.Worked :=
  .record h (rfl : outcome (Ledger.recordFrom RecordId.drawn (pure ()) o handlerIds) p = _)

theorem Node.world_fromFanOuts {p : Node} (hstore : p.store.FromFanOuts)
    (haware : p.clock.now.isAware) : (p.world 0).FromFanOuts := by
  refine ⟨hstore, haware, ?_⟩
  intro o handlers batch ht
  simp [Node.world] at ht

theorem Node.Worked.fromFanOuts {p : Node} (h : p.Worked) :
    p.store.FromFanOuts ∧ p.clock.now.isAware := by
  induction h with
  | start hempty haware => exact ⟨.empty hempty, haware⟩
  | record _ hrecord ih =>
      obtain ⟨hstore, hclock⟩ := Ledger.fromFanOuts_of_recordFrom ih.1 ih.2 hrecord
      exact ⟨hstore, hclock ▸ ih.2⟩
  | @operation p _ op ih =>
      obtain ⟨E, hrun, -⟩ := op.run p 0
      have hafter := hrun.fromFanOuts (Node.world_fromFanOuts ih.1 ih.2)
      exact ⟨hafter.store, hafter.clock⟩
  | change _ hstore haware ih => exact ⟨hstore ▸ ih.1, haware⟩

/-! ### The look-up -/

namespace Store

variable {s : Store}

/-- The pending records of a handler with a fingerprint. -/
def withFingerprint (s : Store) (handlerId fingerprint : String) : List PublicationRecord :=
  s.records.filter fun r =>
    r.isPending && r.handlerId == handlerId && r.payload.fingerprint == fingerprint

theorem Faithful.exists_findIncompleteByFingerprint (h : s.Faithful)
    (fingerprint handlerId : String) :
    ∃ found, s.findIncompleteByFingerprint fingerprint handlerId = .ok found ∧
      found.Perm (s.withFingerprint handlerId fingerprint) := by
  cases s with
  | memory m =>
      have hcomparable : Instant.allComparable ((m.pending.filter fun r =>
          r.handlerId == handlerId && r.payload.fingerprint == fingerprint).map
            (·.publishedAt)) := by
        apply Instant.allComparable_of_isAware
        intro instant hinstant
        obtain ⟨r, hr, rfl⟩ := List.mem_map.mp hinstant
        exact (h.fannedOut r (List.mem_filter.mp (List.mem_filter.mp hr).1).1).2
      refine ⟨_, if_pos hcomparable, (perm_sortBy _ _).trans (List.Perm.of_eq ?_)⟩
      unfold Memory.pending withFingerprint
      rw [List.filter_filter]
      refine List.filter_congr fun r _ => ?_
      rw [Bool.and_comm, Bool.and_assoc]
  | table t =>
      refine ⟨_, rfl, ((perm_sortBy _ _).map _).trans (List.Perm.of_eq ?_)⟩
      unfold withFingerprint records Table.records
      rw [List.filter_map]
      congr 1
      refine List.filter_congr fun row hrow => ?_
      -- The column holds the digest that the look-up in memory computes.
      rw [h.indexed row hrow, Function.comp_apply, Memory.Matches.isPending_toRecord,
        Bool.and_right_comm]
      rfl

/-- The pending records of a handler with a payload. -/
def matching (s : Store) (handlerId : String) (payload : Payload) : List PublicationRecord :=
  s.records.filter fun r => r.isPending && r.handlerId == handlerId && r.payload == payload

theorem Faithful.withFingerprint_eq_matching (h : s.Faithful) {cat : Catalogue} {o : Occurrence}
    (handlerId : String)
    (hdigests : Payload.NoCollision
      (Payload.ofOccurrence cat o :: s.records.map (·.payload))) :
    s.withFingerprint handlerId (Payload.ofOccurrence cat o).fingerprint =
      s.matching handlerId (Payload.ofOccurrence cat o) := by
  refine List.filter_congr fun r hr => ?_
  have hpayload : r.payload.fingerprint = (Payload.ofOccurrence cat o).fingerprint ↔
      r.payload = Payload.ofOccurrence cat o := by
    constructor
    · intro heq
      have htext := hdigests r.payload (List.mem_cons_of_mem _ (List.mem_map_of_mem hr)) _
        List.mem_cons_self heq
      obtain ⟨⟨cat', o', hencoded⟩, -⟩ := h.fannedOut r hr
      rw [hencoded] at htext ⊢
      exact Payload.digestText_injective htext
    · exact fun heq => heq ▸ rfl
  rw [Bool.eq_iff_iff]
  simp [hpayload]

end Store

/-! ### Completion by occurrence -/

namespace Ledger

variable {p q : Node}

theorem complete_found {x : PublicationRecord} {r : Except Fault Bool}
    (hids : p.store.ids.Nodup) (hx : x ∈ p.store.records) (hpending : x.isPending)
    (h : outcome (complete x.id) p = (r, q)) :
    (¬ p.Calm ∧ (∃ fault, r = .error fault) ∧ p.Becomes p.store q) ∨
      (r = .ok true ∧ p.Becomes q.store q ∧ q.store.records =
        Store.markAll [x.id] (fun _ => p.store.keepInstant p.clock.now) p.store.records) := by
  rcases complete_of_isPending hids hx hpending h with
    ⟨⟨fault, rfl⟩, hbecomes⟩ | ⟨rfl, s, hbecomes, hrecords⟩
  · refine .inl ⟨fun hcalm => ?_, ⟨fault, rfl⟩, hbecomes⟩
    obtain ⟨log, hcomplete⟩ := outcome_complete_of_calm hcalm x.id
    rw [hcomplete] at h
    simp at h
  · refine .inr ⟨rfl, hbecomes.store ▸ hbecomes, ?_⟩
    rw [hbecomes.store, hrecords]

/-- Completion by occurrence, by the number of pending records with its fingerprint. -/
theorem completeMatching_outcomes {o : Occurrence} {handlerId : String} {r : Except Fault Bool}
    (hstore : p.store.FromFanOuts) (h : outcome (completeMatching o handlerId) p = (r, q)) :
    let fingerprint := (Payload.ofOccurrence p.space.catalogue o).fingerprint
    let found := p.store.withFingerprint handlerId fingerprint
    (¬ p.Calm ∧ (∃ fault, r = .error fault) ∧ p.Becomes p.store q) ∨
      (found = [] ∧ r = .ok false ∧ p.Becomes p.store q) ∨
      (∃ x, found = [x] ∧ r = .ok true ∧ p.Becomes q.store q ∧ q.store.records =
        Store.markAll [x.id] (fun _ => p.store.keepInstant p.clock.now) p.store.records) ∨
      (2 ≤ found.length ∧ r = .error (.ambiguous handlerId fingerprint found.length) ∧
        p.Becomes p.store q) := by
  intro fingerprint found
  have hfaithful := hstore.faithful
  obtain ⟨list, hlist, hperm⟩ :=
    hfaithful.exists_findIncompleteByFingerprint fingerprint handlerId
  unfold completeMatching at h
  rw [outcome_bind_of_ok (outcome_get p)] at h
  dsimp only at h
  rcases cases_of_outcome_bind h with ⟨fault, hfind, rfl⟩ | ⟨list', m, hfind, h⟩
  · refine .inl ⟨fun hcalm => ?_, ⟨fault, rfl⟩, (findIncompleteByFingerprint_cases hfind).1⟩
    rw [outcome_findIncompleteByFingerprint_of_calm hcalm, hlist] at hfind
    simp at hfind
  -- The look-up leaves the store, so that what it found is still there to be completed.
  obtain ⟨hpm, hanswer⟩ := findIncompleteByFingerprint_cases hfind
  obtain rfl : list' = list := Except.ok.inj ((hanswer list' rfl).symm.trans hlist)
  match list', hperm with
  | [], hperm =>
      obtain ⟨rfl, rfl⟩ := Prod.mk.inj h
      exact .inr (.inl ⟨hperm.symm.eq_nil, rfl, hpm.trans (hpm.store ▸ m.becomes_logged _)⟩)
  | [x], hperm =>
      have hone : found = [x] := List.perm_singleton.mp hperm.symm
      have hx : x ∈ found := hone ▸ List.mem_singleton_self x
      obtain ⟨hmem, hmatches⟩ := List.mem_filter.mp hx
      rw [Bool.and_eq_true, Bool.and_eq_true] at hmatches
      have hcalm : p.Calm → m.Calm := by
        intro hcalm
        rw [outcome_findIncompleteByFingerprint_of_calm hcalm] at hfind
        exact (Prod.mk.inj hfind).2 ▸ hcalm
      rcases complete_found (hpm.store.symm ▸ hfaithful.nodup) (hpm.store.symm ▸ hmem)
        hmatches.1.1 h with ⟨hstruck, hfault, hbecomes⟩ | ⟨rfl, hbecomes, hrecords⟩
      · rw [hpm.store] at hbecomes
        exact .inl ⟨mt hcalm hstruck, hfault, hpm.trans hbecomes⟩
      · rw [hpm.store, hpm.clock] at hrecords
        exact .inr (.inr (.inl ⟨x, hone, rfl, hpm.trans hbecomes, hrecords⟩))
  | x :: y :: rest, hperm =>
      have hlength : found.length = (x :: y :: rest).length := hperm.length_eq.symm
      obtain ⟨rfl, rfl⟩ := Prod.mk.inj h
      exact .inr (.inr (.inr ⟨by simp [hlength], by rw [hlength], hpm⟩))

/-- Completion by occurrence, in a store of fan-outs without a collision of digests, completes the
one pending record that matches, and leaves the store alone if there is none or more than one. -/
theorem completion_never_guesses {o : Occurrence} {handlerId : String} {r : Except Fault Bool}
    (hstore : p.store.FromFanOuts)
    (hdigests : Payload.NoCollision
      (Payload.ofOccurrence p.space.catalogue o :: p.store.records.map (·.payload)))
    (h : outcome (completeMatching o handlerId) p = (r, q)) :
    let payload := Payload.ofOccurrence p.space.catalogue o
    let found := p.store.matching handlerId payload
    (¬ p.Calm ∧ (∃ fault, r = .error fault) ∧ p.Becomes p.store q) ∨
      ((found = [] → r = .ok false ∧ p.Becomes p.store q) ∧
        (∀ x, found = [x] → r = .ok true ∧ p.Becomes q.store q ∧
          q.store.records =
            Store.markAll [x.id] (fun _ => p.store.keepInstant p.clock.now) p.store.records ∧
          ((p.store.isTable → p.clock.now.isUtc) →
            { x with completedAt := some p.clock.now } ∈ q.store.records)) ∧
        (2 ≤ found.length →
          r = .error (.ambiguous handlerId payload.fingerprint found.length) ∧
            p.Becomes p.store q)) := by
  intro payload found
  have hfound : p.store.withFingerprint handlerId payload.fingerprint = found :=
    hstore.faithful.withFingerprint_eq_matching handlerId hdigests
  rcases completeMatching_outcomes hstore h with
    hstruck | ⟨hnone, rfl, hbecomes⟩ | ⟨x, hone, rfl, hbecomes, hrecords⟩ |
      ⟨hseveral, rfl, hbecomes⟩
  · exact .inl hstruck
  · rw [hfound] at hnone
    exact .inr ⟨fun _ => ⟨rfl, hbecomes⟩, by simp [hnone], by simp [hnone]⟩
  · rw [hfound] at hone
    refine .inr ⟨by simp [hone], ?_, by simp [hone]⟩
    intro z hsingle
    obtain rfl : x = z := List.singleton_inj.mp (hone.symm.trans hsingle)
    refine ⟨rfl, hbecomes, hrecords, fun hutc => ?_⟩
    have hmem : x ∈ p.store.records :=
      (List.mem_filter.mp (hone ▸ List.mem_singleton_self x : x ∈ found)).1
    rw [hrecords]
    exact List.mem_map.mpr ⟨x, hmem, by simp [Store.keepInstant_of_isUtc hutc]⟩
  · rw [hfound] at hseveral
    refine .inr ⟨?_, ?_, fun _ => ⟨by rw [hfound], hbecomes⟩⟩
    · intro hnil
      simp [hnil] at hseveral
    · intro z hsingle
      simp [hsingle] at hseveral

/-- A node with a table in which an occurrence was recorded twice, for two handlers and then
again for one of them. -/
def twiceNode : Node :=
  let first := (outcome (record ⟨0, []⟩ ["mail", "sms"]) emptyTableNode).2
  (outcome (record ⟨0, []⟩ ["mail"]) first).2

/-- Nothing is pending for a third handler, one record for the second, and two for the first. -/
theorem completion_never_guesses_twice :
    let o : Occurrence := ⟨0, []⟩
    twiceNode.store.FromFanOuts ∧
      Payload.NoCollision
        (Payload.ofOccurrence twiceNode.space.catalogue o ::
          twiceNode.store.records.map (·.payload)) ∧
      (∃ q, outcome (completeMatching o "push") twiceNode = (.ok false, q)) ∧
      (∃ q, outcome (completeMatching o "sms") twiceNode = (.ok true, q)) ∧
      ∃ fingerprint q, outcome (completeMatching o "mail") twiceNode =
        (.error (.ambiguous "mail" fingerprint 2), q) := by
  intro o
  have hempty : emptyTableNode.Worked := .start rfl rfl
  have hstore : twiceNode.store.FromFanOuts :=
    ((hempty.record_after o ["mail", "sms"]).record_after o ["mail"]).fromFanOuts.1
  have hdigests : Payload.NoCollision (Payload.ofOccurrence twiceNode.space.catalogue o ::
      twiceNode.store.records.map (·.payload)) := by
    have hsame : ∀ a ∈ Payload.ofOccurrence twiceNode.space.catalogue o ::
        twiceNode.store.records.map (·.payload),
        a = Payload.ofOccurrence twiceNode.space.catalogue o := by decide +kernel
    intro a ha b hb _
    rw [hsame a ha, hsame b hb]
  have hcalm : twiceNode.Calm := ⟨rfl, rfl⟩
  refine ⟨hstore, hdigests, ?_, ?_, ?_⟩
  · rcases h : outcome (completeMatching o "push") twiceNode with ⟨r, q⟩
    rcases completion_never_guesses hstore hdigests h with ⟨hstruck, -⟩ | ⟨hnone, -⟩
    · exact absurd hcalm hstruck
    · obtain ⟨rfl, -⟩ := hnone (by decide +kernel)
      exact ⟨q, rfl⟩
  · rcases h : outcome (completeMatching o "sms") twiceNode with ⟨r, q⟩
    rcases completion_never_guesses hstore hdigests h with ⟨hstruck, -⟩ | ⟨-, hsingle, -⟩
    · exact absurd hcalm hstruck
    · obtain ⟨x, hx⟩ := List.length_eq_one_iff.mp (by decide +kernel :
        (twiceNode.store.matching "sms"
          (Payload.ofOccurrence twiceNode.space.catalogue o)).length = 1)
      obtain ⟨rfl, -⟩ := hsingle x hx
      exact ⟨q, rfl⟩
  · rcases h : outcome (completeMatching o "mail") twiceNode with ⟨r, q⟩
    rcases completion_never_guesses hstore hdigests h with ⟨hstruck, -⟩ | ⟨-, -, hseveral⟩
    · exact absurd hcalm hstruck
    · have hlength : (twiceNode.store.matching "mail"
          (Payload.ofOccurrence twiceNode.space.catalogue o)).length = 2 := by decide +kernel
      obtain ⟨rfl, -⟩ := hseveral hlength.ge
      rw [hlength]
      exact ⟨_, q, rfl⟩

end Ledger

end DeliveryLedger
