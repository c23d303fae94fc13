import DeliveryLedger.Proofs.Sweep
/-!
One sweep after another.

While reads and completions go through, each sweep reads what the sweeps before it left pending,
and visits it.  `tour` is the row of all these visits; `sweep_spec` says what one sweep does to
the node, and `sweeps_spec`, by induction, what a row of sweeps does.
-/

namespace DeliveryLedger

/-! ### Records that can be put in order -/

theorem Instant.allComparable_iff {ts : List Instant} :
    allComparable ts ↔ ∀ s ∈ ts, ∀ t ∈ ts, s.comparable t := by
  cases ts with
  | nil => simp [allComparable]
  | cons u ts =>
      simp only [allComparable, List.all_eq_true, comparable, beq_iff_eq]
      constructor
      · intro h s hs t ht
        have hall : ∀ x ∈ u :: ts, u.isAware = x.isAware := List.forall_mem_cons.mpr ⟨rfl, h⟩
        exact (hall s hs).symm.trans (hall t ht)
      · intro h t ht
        exact h u List.mem_cons_self t (List.mem_cons_of_mem u ht)

namespace Store

variable {s s' : Store} {done : List RecordId} {moment : RecordId → Instant}

/-- The pending records can be put in the order of their publication, as they can when all
instants are aware (`findIncomplete_eq_ok`). -/
def Orderable (s : Store) : Prop := ∃ found, s.findIncomplete = .ok found

theorem pending_markAll (records : List PublicationRecord) :
    (markAll done moment records).filter (·.isPending) =
      (records.filter (·.isPending)).filter (·.id ∉ done) := by
  induction records with
  | nil => rfl
  | cons r rs ih =>
      have hcons : markAll done moment (r :: rs) =
          (if r.id ∈ done then { r with completedAt := some (moment r.id) } else r) ::
            markAll done moment rs := rfl
      rw [hcons, List.filter_cons, List.filter_cons, ih]
      by_cases hid : r.id ∈ done
      · cases hpending : r.isPending <;>
          simp [hid, PublicationRecord.isPending, PublicationRecord.isCompleted]
      · cases hpending : r.isPending <;> simp [hid, hpending]

theorem mem_of_mem_markAll {r : PublicationRecord} {records : List PublicationRecord}
    (hr : r ∈ markAll done moment records) (hpending : r.isPending) :
    r ∈ records ∧ r.id ∉ done := by
  have hmem : r ∈ (markAll done moment records).filter (·.isPending) :=
    List.mem_filter.mpr ⟨hr, hpending⟩
  rw [pending_markAll, List.mem_filter, List.mem_filter] at hmem
  exact ⟨hmem.1.1, by simpa using hmem.2⟩

theorem orderable_memory_iff {m : Memory} :
    (Store.memory m).Orderable ↔ Instant.allComparable (m.pending.map (·.publishedAt)) := by
  show (∃ found, Instant.sortOldestFirst _ m.pending = .ok found) ↔ _
  unfold Instant.sortOldestFirst
  split
  · rename_i hcomparable
    simpa using hcomparable
  · rename_i hcomparable
    simpa using hcomparable

theorem Orderable.of_markAll (h : s.Orderable) (htable : s'.isTable = s.isTable)
    (hrecords : s'.records = markAll done moment s.records) : s'.Orderable := by
  cases s' with
  | table t => exact ⟨_, rfl⟩
  | memory m' =>
      cases s with
      | table t => simp [isTable] at htable
      | memory m =>
          rw [orderable_memory_iff, Instant.allComparable_iff] at h ⊢
          have hsubset : ∀ t ∈ m'.pending.map (·.publishedAt),
              t ∈ m.pending.map (·.publishedAt) := by
            intro t ht
            obtain ⟨r, hr, rfl⟩ := List.mem_map.mp ht
            have hpending : m'.pending = m.pending.filter (·.id ∉ done) := by
              rw [Memory.pending, show m'.records = _ from hrecords, pending_markAll]
              rfl
            rw [hpending] at hr
            exact List.mem_map_of_mem (List.mem_filter.mp hr).1
          exact fun u hu t ht => h u (hsubset u hu) t (hsubset t ht)

end Store

/-! ### A node that serves -/

/-- No outage stands in the way of reads and completions. -/
structure Node.Serves (p : Node) : Prop where
  outages : ∀ o ∈ p.outages, o.method ≠ .findIncomplete ∧ o.method ≠ .complete
  database : ∀ o, p.databaseOutage = some o → ∀ n, o.strikes n = false

theorem Node.Serves.congr {p q : Node} (h : p.Serves) (houtages : q.outages = p.outages)
    (hdatabase : q.databaseOutage = p.databaseOutage) : q.Serves where
  outages := houtages ▸ h.outages
  database := hdatabase ▸ h.database

namespace Ledger

open Act

variable {p : Node}

theorem connect_of_serves (h : p.Serves) :
    ∃ q, outcome connect p = (.ok none, q) ∧ p.Becomes p.store q ∧ q.Serves := by
  unfold connect
  rw [outcome_bind_of_ok (outcome_get p)]
  split
  · rename_i o _ ho
    rw [outcome_bind_of_ok (outcome_set _ _), h.database o ho]
    refine ⟨_, rfl, by constructor <;> rfl, h.outages, ?_⟩
    intro o' ho' n
    obtain rfl := Option.some.inj ho'
    exact h.database o ho n
  · exact ⟨p, rfl, .refl p, h⟩

theorem connectOr_of_serves (h : p.Serves) (fault : String → Fault) :
    ∃ q, outcome (connectOr fault) p = (.ok (), q) ∧ p.Becomes p.store q ∧ q.Serves := by
  obtain ⟨q, hconnect, hq⟩ := connect_of_serves h
  unfold connectOr
  rw [outcome_bind_of_ok hconnect]
  exact ⟨q, rfl, hq⟩

theorem findIncomplete_of_serves (h : p.Serves) {found : List PublicationRecord}
    (hfound : p.store.findIncomplete = .ok found) :
    ∃ q, outcome findIncomplete p = (.ok found, q) ∧ p.Becomes p.store q ∧ q.Serves := by
  obtain ⟨q, hready, hbecomes, hq⟩ := connectOr_of_serves h Table.couldNotRead
  have hmethod : ∀ o ∈ p.outages, o.method ≠ .findIncomplete := fun o ho => (h.outages o ho).1
  exact ⟨q, outcome_findIncomplete hmethod hready hbecomes.store hfound, hbecomes, hq⟩

theorem completionLog_of_serves (h : p.Serves) (id : RecordId) (how : Completion) :
    ∃ q, outcome (completionLog id how) p = (.ok (), q) ∧ q.Serves := by
  cases how <;> exact ⟨_, rfl, h.congr rfl rfl⟩

theorem complete_of_serves (h : p.Serves) (id : RecordId) :
    ∃ won q, outcome (complete id) p = (.ok won, q) ∧ q.Serves := by
  unfold complete
  obtain ⟨m, hready, -, hm⟩ := connectOr_of_serves h fun message =>
    .storeUnavailable ("Could not complete publication " ++ id.text ++ ": " ++ message)
  rw [outcome_bind_of_ok (outcome_handlerOf id p),
    outcome_bind_of_ok (outcome_passOutages_of_other (fun o ho => (h.outages o ho).2) _),
    outcome_bind_of_ok (outcome_get p), outcome_bind_of_ok hready,
    outcome_bind_of_ok (outcome_get m)]
  cases m.store with
  | memory mem =>
      obtain ⟨q, hlog, hq⟩ := completionLog_of_serves
        (p := { m with store := .memory (mem.complete id p.clock.now).2 }) (hm.congr rfl rfl)
        id (mem.complete id p.clock.now).1
      exact ⟨_, q, outcome_bind_of_ok hlog, hq⟩
  | table t =>
      obtain ⟨q, hlog, hq⟩ := completionLog_of_serves
        (p := { m with store := .table (t.complete id p.clock.now).2 }) (hm.congr rfl rfl)
        id (t.complete id p.clock.now).1
      exact ⟨_, q, outcome_bind_of_ok hlog, hq⟩

end Ledger

namespace Resubmission

open Act

/-! ### One sweep -/

/-- The handlers are the same after it, the store is of the same kind, and reads and completions
still go through. -/
structure Keeps (p z : Node) : Prop where
  registry : z.registry = p.registry
  isTable : z.store.isTable = p.store.isTable
  serves : z.Serves

namespace Keeps

variable {p q z : Node}

theorem refl (h : p.Serves) : Keeps p p := ⟨rfl, rfl, h⟩

theorem trans (h : Keeps p q) (k : Keeps q z) : Keeps p z :=
  ⟨k.registry.trans h.registry, k.isTable.trans h.isTable, k.serves⟩

theorem logged (h : Keeps p q) (lines : List LogLine) : Keeps p (q.logged lines) :=
  ⟨h.registry, h.isTable, h.serves.congr rfl rfl⟩

theorem of_complete (h : p.Serves) (id : RecordId) :
    Keeps p (outcome (Ledger.complete id) p).2 := by
  obtain ⟨won, q, hcomplete, hq⟩ := Ledger.complete_of_serves h id
  rw [hcomplete]
  rcases Ledger.complete_cases hcomplete with ⟨⟨fault, hfault⟩, -⟩ | ⟨-, hbecomes⟩
  · cases hfault
  · refine ⟨hbecomes.registry, ?_, hq⟩
    rw [hbecomes.store]
    rcases p.store.complete_cases id p.clock.now with ⟨-, hsame⟩ | ⟨-, htable, -⟩
    · rw [hsame]
    · exact htable

end Keeps

namespace Visit

variable {v : Visit} {h : HandlerDescriptor} {o : Occurrence}

/-- The handler was there and returned normally. -/
def returned (v : Visit) : Bool :=
  match v.target? with
  | some (h, o) => (v.invocation h o).1.isOk
  | none => false

theorem keeps_invocation (hserves : v.node.Serves) : Keeps v.node (v.invocation h o).2 := by
  rcases hinvoke : v.invocation h o with ⟨r, n⟩
  obtain ⟨clock, reacted, rfl⟩ := Dispatch.invoke_frame hinvoke
  exact ⟨rfl, rfl, hserves.congr rfl rfl⟩

theorem confirmed_eq_returned (hserves : v.node.Serves) : v.confirmed = v.returned := by
  rw [confirmed, returned]
  cases v.target? with
  | none => rfl
  | some target =>
      obtain ⟨h, o⟩ := target
      obtain ⟨won, q, hcomplete, -⟩ := Ledger.complete_of_serves
        (keeps_invocation (h := h) (o := o) hserves).serves v.record.id
      have hcompletion : v.completion h o = (.ok won, q) := hcomplete
      simp [hcompletion, Except.isOk, Except.toBool]

theorem keeps_replay (hserves : v.node.Serves) :
    Keeps v.node (outcome (replay v.record) v.node).2 := by
  have hresolved : Keeps v.node { v.node with space := v.resolved.2 } :=
    ⟨rfl, rfl, hserves.congr rfl rfl⟩
  rcases hraised : v.raised? with _ | fault
  swap
  · rw [replay_of_raised hraised]
    exact hresolved
  rcases htarget : v.target? with _ | ⟨h, o⟩
  · obtain ⟨lines, hreplay⟩ := replay_of_no_target htarget hraised
    rw [hreplay]
    exact hresolved.logged lines
  rcases hinvoke : v.invocation h o with ⟨r, n⟩
  obtain ⟨hraised, hreturned⟩ := replay_of_target htarget hinvoke
  have hn : Keeps v.node n := by
    have hkeeps := keeps_invocation (h := h) (o := o) hserves
    rwa [hinvoke] at hkeeps
  cases r with
  | error fault =>
      obtain ⟨lines, hreplay⟩ := hraised fault rfl
      rw [hreplay]
      exact hn.logged lines
  | ok _ =>
      obtain ⟨lines, hconfirm⟩ := confirm_cases v.record n
      rw [hreturned rfl, hconfirm]
      exact (hn.trans (.of_complete hn.serves v.record.id)).logged lines

end Visit

variable {p z : Node}

theorem keeps_of_mem_visits (h : p.Serves) {rs : List PublicationRecord} {v : Visit}
    (hv : v ∈ visits p rs) : Keeps p v.node := by
  induction rs generalizing p with
  | nil => cases hv
  | cons r rs ih =>
      rcases hreplay : (replay r).outcome p with ⟨fault | came, q⟩
      · rw [visits_of_error hreplay] at hv
        obtain rfl := List.mem_singleton.mp hv
        exact .refl h
      · rw [visits_of_ok hreplay] at hv
        rcases List.mem_cons.mp hv with rfl | hv
        · exact .refl h
        · have hkeeps := Visit.keeps_replay (v := ⟨r, p⟩) h
          rw [hreplay] at hkeeps
          exact hkeeps.trans (ih hkeeps.serves hv)

theorem keeps_replayFrom (h : p.Serves) (report : Report) (rs : List PublicationRecord) :
    Keeps p (outcome (replayFrom always report rs) p).2 := by
  induction rs generalizing p report with
  | nil => exact .refl h
  | cons r rs ih =>
      have hkeeps := Visit.keeps_replay (v := ⟨r, p⟩) h
      have hselected : outcome (Act.lift (always r)) p = (.ok true, p) := rfl
      rw [replayFrom, outcome_bind_of_ok hselected]
      simp only [if_true]
      rw [outcome_bind]
      rcases hreplay : outcome (replay r) p with ⟨fault | came, q⟩
      · rw [hreplay] at hkeeps
        exact hkeeps
      · rw [hreplay] at hkeeps
        exact hkeeps.trans (ih hkeeps.serves _)

/-- The visits of a sweep over all pending records. -/
def sweep (p : Node) : List Visit :=
  match outcome Ledger.findIncomplete p with
  | (.ok found, q) => visits q found
  | (.error _, _) => []

/-- What a node has to be for its sweeps to go through. -/
structure Ready (p : Node) : Prop where
  serves : p.Serves
  nodup : p.store.ids.Nodup
  orderable : p.store.Orderable

/-- A sweep visits every pending record once, and leaves the node ready for the next one, unless
a class raises a fault over a payload. -/
theorem sweep_spec (h : Ready p) (hcalm : ∀ v ∈ sweep p, v.raised? = none) :
    ∃ z, outcome (resubmit always) p = (.ok (tally Report.empty (sweep p)), z) ∧
      Swept p (sweep p) z ∧ Keeps p z ∧ Ready z ∧
      ((sweep p).map (·.record)).Perm (p.store.records.filter (·.isPending)) ∧
      ∀ v ∈ sweep p, Keeps p v.node := by
  obtain ⟨found, hfound⟩ := h.orderable
  obtain ⟨q, hread, hbecomes, hq⟩ := Ledger.findIncomplete_of_serves h.serves hfound
  have hpq : Keeps p q := ⟨hbecomes.registry, by rw [hbecomes.store], hq⟩
  have hsweep : sweep p = visits q found := by rw [sweep, hread]
  have hperm := Store.findIncomplete_perm hfound
  have hstored : ∀ r ∈ found, r ∈ q.store.records ∧ r.isPending := by
    intro r hr
    rw [hbecomes.store]
    exact List.mem_filter.mp (hperm.mem_iff.mp hr)
  have hnodup : (found.map (·.id)).Nodup :=
    (hperm.map _).nodup_iff.mpr (h.nodup.sublist ((List.filter_sublist).map _))
  obtain ⟨z, hreplay, hswept⟩ := replayFrom_visits (fun _ => true) Report.empty
    (hbecomes.store ▸ h.nodup) hnodup hstored
  rw [List.filter_true, ← hsweep] at hreplay hswept
  change outcome (replayFrom always Report.empty found) q = _ at hreplay
  rw [ending_of_calm hcalm] at hreplay
  have hqz : Keeps q z := by
    have hkeeps := keeps_replayFrom hq Report.empty found
    rwa [hreplay] at hkeeps
  obtain ⟨lines, hreport⟩ : ∃ lines, outcome (resubmit always) p =
      (.ok (tally Report.empty (sweep p)), z.logged lines) := by
    rw [resubmit, outcome_bind_of_ok hread, replayAll, outcome_bind_of_ok hreplay]
    split
    · exact ⟨[], by simp [Node.logged]⟩
    · exact ⟨_, rfl⟩
  have hpz : Swept p (sweep p) (z.logged lines) := by
    refine ⟨?_, ?_⟩
    · rw [← hbecomes.journal]
      exact hswept.journal
    · rw [← hbecomes.store]
      exact hswept.records
  have hkeeps : Keeps p (z.logged lines) := (hpq.trans hqz).logged lines
  refine ⟨z.logged lines, hreport, hpz, hkeeps, ⟨hkeeps.serves, ?_, ?_⟩, ?_, ?_⟩
  · rw [hpz.ids_eq]
    exact h.nodup
  · obtain ⟨moment, hrecords⟩ := hpz.records
    exact h.orderable.of_markAll hkeeps.isTable hrecords
  · rw [hsweep] at hcalm ⊢
    rw [records_visits_of_calm hcalm]
    exact hperm
  · intro v hv
    exact hpq.trans (keeps_of_mem_visits hq (hsweep ▸ hv))

/-! ### A row of sweeps -/

/-- Sweeps over all pending records, one after another, and their reports. -/
def sweeps : Nat → Act (List Report)
  | 0 => pure []
  | k + 1 => do
    let report ← resubmit always
    let reports ← sweeps k
    pure (report :: reports)

/-- The visits of a row of sweeps, sweep by sweep. -/
def rounds (p : Node) : Nat → List (List Visit)
  | 0 => []
  | k + 1 => sweep p :: rounds (outcome (resubmit always) p).2 k

theorem length_rounds (p : Node) (k : Nat) : (rounds p k).length = k := by
  induction k generalizing p with
  | zero => rfl
  | succ k ih => rw [rounds, List.length_cons, ih]

def tour (p : Node) (k : Nat) : List Visit := (rounds p k).flatten

theorem tour_succ {q : Node} {r : Except Fault Report} (h : outcome (resubmit always) p = (r, q))
    (k : Nat) : tour p (k + 1) = sweep p ++ tour q k := by
  rw [tour, rounds, h, List.flatten_cons]
  rfl

/-- What a row of sweeps makes of a node.  Besides what its visits make of it, no record is
completed twice, only records that were pending at first are visited, and one that is still
pending was visited in every sweep. -/
structure Toured (p : Node) (k : Nat) (z : Node) : Prop where
  swept : Swept p (tour p k) z
  once : (confirmedIds (tour p k)).Nodup
  pending : ∀ v ∈ tour p k, v.record ∈ p.store.records ∧ v.record.isPending
  keeps : ∀ v ∈ tour p k, Keeps p v.node
  left : ∀ r ∈ p.store.records, r.isPending → r.id ∉ confirmedIds (tour p k) →
    (tour p k).countP (·.record.id = r.id) = k

theorem nodup_of_perm_pending {vs : List Visit} (hids : p.store.ids.Nodup)
    (hperm : (vs.map (·.record)).Perm (p.store.records.filter (·.isPending))) :
    (vs.map (·.record.id)).Nodup := by
  have hsublist : ((p.store.records.filter (·.isPending)).map (·.id)).Nodup :=
    hids.sublist ((List.filter_sublist).map _)
  have hnodup := (hperm.map (·.id)).nodup_iff.mpr hsublist
  rwa [List.map_map] at hnodup

theorem nodup_confirmedIds {vs : List Visit} (h : (vs.map (·.record.id)).Nodup) :
    (confirmedIds vs).Nodup :=
  h.sublist ((List.filter_sublist).map _)

theorem Toured.succ {q : Node} {r : Except Fault Report} {k : Nat} (h : Ready p)
    (hnext : outcome (resubmit always) p = (r, q)) (hswept : Swept p (sweep p) q)
    (hkeeps : Keeps p q)
    (hperm : ((sweep p).map (·.record)).Perm (p.store.records.filter (·.isPending)))
    (hnodes : ∀ v ∈ sweep p, Keeps p v.node) (hrest : Toured q k z) : Toured p (k + 1) z := by
  have htour := tour_succ hnext k
  have hnodup := nodup_of_perm_pending h.nodup hperm
  -- What is pending after the first sweep was pending before, and that sweep did not complete it.
  have hopen : ∀ r ∈ q.store.records, r.isPending →
      r ∈ p.store.records ∧ r.id ∉ confirmedIds (sweep p) := by
    obtain ⟨moment, hrecords⟩ := hswept.records
    intro r hr hpending
    exact Store.mem_of_mem_markAll (hrecords ▸ hr) hpending
  have hdisjoint : ∀ id ∈ confirmedIds (sweep p), id ∉ confirmedIds (tour q k) := by
    intro id hdone hmem
    obtain ⟨v, hv, rfl⟩ := List.mem_map.mp hmem
    obtain ⟨hr, hpending⟩ := hrest.pending v (List.mem_filter.mp hv).1
    exact (hopen v.record hr hpending).2 hdone
  constructor
  · rw [htour]
    exact hswept.append hrest.swept hdisjoint
  · rw [htour, confirmedIds_append]
    refine List.nodup_append.mpr ⟨nodup_confirmedIds hnodup, hrest.once, ?_⟩
    rintro id hdone _ hmem rfl
    exact hdisjoint id hdone hmem
  · intro v hv
    rw [htour] at hv
    rcases List.mem_append.mp hv with hv | hv
    · exact List.mem_filter.mp (hperm.mem_iff.mp (List.mem_map_of_mem hv))
    · obtain ⟨hr, hpending⟩ := hrest.pending v hv
      exact ⟨(hopen v.record hr hpending).1, hpending⟩
  · intro v hv
    rw [htour] at hv
    rcases List.mem_append.mp hv with hv | hv
    · exact hnodes v hv
    · exact hkeeps.trans (hrest.keeps v hv)
  · intro r hr hpending hleft
    rw [htour, confirmedIds_append, List.mem_append, not_or] at hleft
    obtain ⟨hfirst, hlater⟩ := hleft
    have hvisited : r ∈ (sweep p).map (·.record) :=
      hperm.mem_iff.mpr (List.mem_filter.mpr ⟨hr, hpending⟩)
    have hone : (sweep p).countP (·.record.id = r.id) = 1 := by
      have hmem : r.id ∈ (sweep p).map (·.record.id) := by
        obtain ⟨v, hv, rfl⟩ := List.mem_map.mp hvisited
        exact List.mem_map_of_mem (f := fun v : Visit => v.record.id) hv
      have hcount := List.count_eq_one_of_mem hnodup hmem
      rw [List.count, List.countP_map] at hcount
      exact hcount
    rw [htour, List.countP_append, hone,
      hrest.left r (hswept.mem_of_notMem hr hfirst) hpending hlater, Nat.add_comm]

theorem toured_zero (p : Node) : Toured p 0 p where
  swept := .refl p
  once := List.nodup_nil
  pending := fun _ hv => absurd hv List.not_mem_nil
  keeps := fun _ hv => absurd hv List.not_mem_nil
  left := fun _ _ _ _ => rfl

theorem sweeps_spec (h : Ready p) (k : Nat) (hcalm : ∀ v ∈ tour p k, v.raised? = none) :
    ∃ z, outcome (sweeps k) p = (.ok ((rounds p k).map (tally Report.empty)), z) ∧
      Toured p k z ∧ Ready z := by
  induction k generalizing p with
  | zero => exact ⟨p, rfl, toured_zero p, h⟩
  | succ k ih =>
      -- The first sweep leaves a node that is ready, and the rest of the row starts there.
      have hfirst : ∀ v ∈ sweep p, v.raised? = none := fun v hv =>
        hcalm v (List.mem_append_left _ hv)
      obtain ⟨q, hnext, hswept, hkeeps, hready, hperm, hnodes⟩ := sweep_spec h hfirst
      rw [tour_succ hnext] at hcalm
      obtain ⟨z, hrest, htoured, hz⟩ := ih hready fun v hv =>
        hcalm v (List.mem_append_right _ hv)
      refine ⟨z, ?_, htoured.succ h hnext hswept hkeeps hperm hnodes, hz⟩
      rw [sweeps, outcome_bind_of_ok hnext, outcome_bind_of_ok hrest, rounds, hnext]
      rfl

end Resubmission

end DeliveryLedger
