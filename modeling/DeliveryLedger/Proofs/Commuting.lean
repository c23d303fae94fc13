import DeliveryLedger.Proofs.Views
/-!
Calls of a store that may be exchanged.

A call answers from a few facts about the store: a completion asks whether the record is pending,
a deletion counts old records, and an insertion asks which records of its batch are stored and
under which content.  Each law of exchange says that one call keeps the facts that the other asks
for, and that the two changes of the records do not get in each other's way.
-/

namespace DeliveryLedger

theorem SameAnswer.refl (a : Except Fault StoreAnswer) : SameAnswer a a := by
  cases a with
  | ok a => rfl
  | error fault => exact ⟨rfl, fun _ => rfl⟩

namespace PublicationRecord

variable {r : PublicationRecord} {id : RecordId} {now cutoff : Instant}

/-- The record completed if it is the pending one of an identifier. -/
def completeIf (id : RecordId) (now : Instant) (r : PublicationRecord) : PublicationRecord :=
  if r.id = id ∧ r.isPending then { r with completedAt := some now } else r

@[simp] theorem id_completeIf : (r.completeIf id now).id = r.id := by
  unfold completeIf
  split <;> rfl

@[simp] theorem handlerId_completeIf : (r.completeIf id now).handlerId = r.handlerId := by
  unfold completeIf
  split <;> rfl

@[simp] theorem payload_completeIf : (r.completeIf id now).payload = r.payload := by
  unfold completeIf
  split <;> rfl

@[simp] theorem publishedAt_completeIf : (r.completeIf id now).publishedAt = r.publishedAt := by
  unfold completeIf
  split <;> rfl

theorem completeIf_of_ne (h : r.id ≠ id) : r.completeIf id now = r :=
  if_neg fun hboth => h hboth.1

theorem completeIf_comm (a b : RecordId) (r : PublicationRecord) :
    (r.completeIf a now).completeIf b now = (r.completeIf b now).completeIf a now := by
  by_cases ha : r.id = a
  · by_cases hb : r.id = b
    · rw [← ha, ← hb]
    · have hb' : (r.completeIf a now).id ≠ b := by simpa using hb
      rw [completeIf_of_ne hb', completeIf_of_ne hb]
  · have ha' : (r.completeIf b now).id ≠ a := by simpa using ha
    rw [completeIf_of_ne ha, completeIf_of_ne ha']

theorem completedUpTo_completeIf (h : cutoff.key < now.key) :
    (r.completeIf id now).completedUpTo cutoff = r.completedUpTo cutoff := by
  unfold completeIf
  split
  · rename_i hpending
    rw [completedUpTo_of_isPending hpending.2, completedUpTo]
    exact decide_eq_false (by omega)
  · rfl

theorem completedUpTo_or {later : Instant} (h : later.key = max cutoff.key now.key) :
    (r.completedUpTo cutoff || r.completedUpTo now) = r.completedUpTo later := by
  unfold completedUpTo
  cases r.completedAt with
  | none => rfl
  | some t =>
      rw [Bool.eq_iff_iff]
      simp only [Bool.or_eq_true, decide_eq_true_eq, h]
      omega

end PublicationRecord

/-- The smaller of two ages. -/
def Duration.shorter (x y : Duration) : Duration := ⟨min x.micros y.micros⟩

theorem Duration.shorter_cases (x y : Duration) : x.shorter y = x ∨ x.shorter y = y := by
  rcases min_choice x.micros y.micros with h | h
  · exact .inl (congrArg Duration.mk h)
  · exact .inr (congrArg Duration.mk h)

namespace Store

variable {s s' : Store} {clock : Clock} {id : RecordId} {batch : List PublicationRecord}

/-- The answer of the store to a call when nothing fails on the way. -/
def reply (s : Store) (clock : Clock) (c : StoreCall) : Except Fault StoreAnswer :=
  (s.answer clock c).map (·.1)

/-- The store after a call when nothing fails on the way. -/
def after (s : Store) (clock : Clock) (c : StoreCall) : Store := s.next (s.answer clock c)

theorem effect_reply (s : Store) (clock : Clock) (c : StoreCall) :
    StoreCall.Effect s clock c (s.reply clock c) (s.after clock c) := by
  obtain ⟨log, hlog⟩ := c.outcome_of_calm
    (p := Node.start (ModuleSpace.initial []) clock s) ⟨rfl, rfl⟩
  exact (StoreCall.effect_of_outcome hlog).1

theorem Tidy.after (h : s.Tidy) (hclock : clock.now.isUtc) {c : StoreCall} (hc : c.IsUtc) :
    (s.after clock c).Tidy :=
  (s.effect_reply clock c).tidy hclock hc h

theorem refuses_adding (s : Store) (batch : List PublicationRecord) :
    (s.adding batch).refuses = s.refuses := by
  cases s <;> rfl

/-! ### Completion -/

/-- A pending record has the identifier. -/
def awaits (s : Store) (id : RecordId) : Bool := s.records.any fun r => r.id = id && r.isPending

theorem awaits_iff : s.awaits id ↔ ∃ r ∈ s.records, r.id = id ∧ r.isPending := by
  simp [awaits]

theorem complete_cases_of_tidy (h : s.Tidy) (hclock : clock.now.isUtc) (id : RecordId) :
    s.reply clock (.complete id) = .ok (.won (s.awaits id)) ∧
      (s.after clock (.complete id)).records =
        s.records.map (·.completeIf id clock.now) := by
  unfold reply after answer
  dsimp only [Except.map, next]
  -- One record at most has the identifier, so any that is pending is the one that is looked up.
  rcases s.complete_cases id clock.now with ⟨hlost, hsame⟩ | ⟨hwon, -, ⟨r, hr, hpending⟩, hrecords⟩
  · have hnone : ∀ r ∈ s.records, ¬ (r.id = id ∧ r.isPending) := by
      rintro r hr ⟨rfl, hpending⟩
      exact hlost (completed_of_isPending (get?_of_mem h.different hr) hpending clock.now)
    have hawaits : s.awaits id = false := by
      rw [← Bool.not_eq_true, awaits_iff]
      exact fun ⟨r, hr, hboth⟩ => hnone r hr hboth
    have hfalse : (s.complete id clock.now).1.won = false := by
      cases hhow : (s.complete id clock.now).1 <;> simp_all [Completion.won]
    rw [hfalse, hawaits, hsame]
    exact ⟨rfl, (List.map_congr_left fun r hr => if_neg (hnone r hr)).trans (List.map_id _)
      |>.symm⟩
  · obtain ⟨hmem, rfl⟩ := mem_of_get? hr
    have hawaits : s.awaits r.id = true := awaits_iff.mpr ⟨r, hmem, rfl, hpending⟩
    rw [hwon, hawaits, hrecords]
    refine ⟨rfl, List.map_congr_left fun x hx => ?_⟩
    by_cases hid : x.id = r.id
    · obtain rfl := eq_of_mem_of_id_eq h.different hx hmem hid
      rw [if_pos rfl, PublicationRecord.completeIf, if_pos ⟨rfl, hpending⟩,
        stamp_of_isPending hpending, keepInstant_of_isUtc fun _ => hclock]
    · rw [if_neg hid, PublicationRecord.completeIf_of_ne hid]

theorem refuses_complete (s : Store) (id : RecordId) (now : Instant) :
    (s.complete id now).2.refuses = s.refuses := by
  cases s with
  | memory m => rfl
  | table t =>
      unfold complete Table.complete
      dsimp only
      split
      · rfl
      · split <;> rfl

/-! ### Deletion -/

theorem delete_of_fault {age : Duration} {fault : Fault} (h : clock.cutoff age = .error fault) :
    s.reply clock (.deleteCompletedOlderThan age) = .error fault ∧
      s.after clock (.deleteCompletedOlderThan age) = s := by
  have hanswer : s.answer clock (.deleteCompletedOlderThan age) = .error fault := by
    rw [answer, h]
    rfl
  rw [reply, after, hanswer]
  exact ⟨rfl, rfl⟩

theorem exists_deleteCompletedUpTo (h : s.Tidy) {cutoff : Instant} (hcutoff : cutoff.isUtc) :
    ∃ x, s.deleteCompletedUpTo cutoff = .ok x := by
  cases s with
  | memory m =>
      have htest : ∀ r ∈ m.records, Memory.isOutdated cutoff r =
          .ok (r.completedUpTo cutoff) := by
        intro r hr
        unfold Memory.isOutdated PublicationRecord.completedUpTo
        cases hcompleted : r.completedAt with
        | none => rfl
        | some t =>
            have ht : t.isAware := Instant.isAware_of_isUtc ((h.utc r hr).2 t hcompleted)
            have hcomparable : t.comparable cutoff := by
              simp [Instant.comparable, ht, Instant.isAware_of_isUtc hcutoff]
            exact if_pos hcomparable
      have hkeep : ∀ r ∈ m.records, (Memory.isOutdated cutoff r).map (!·) =
          .ok (!r.completedUpTo cutoff) := by
        intro r hr
        rw [htest r hr]
        rfl
      have hdelete : m.deleteCompletedUpTo cutoff =
          .ok ((m.records.filter (·.completedUpTo cutoff)).length,
            ⟨m.records.filter fun r => !r.completedUpTo cutoff⟩) := by
        rw [Memory.deleteCompletedUpTo, keepIf_eq_ok htest, keepIf_eq_ok hkeep]
        rfl
      rw [deleteCompletedUpTo, hdelete]
      exact ⟨_, rfl⟩
  | table t => exact ⟨_, rfl⟩

theorem delete_of_cutoff {age : Duration} {cutoff : Instant} (h : s.Tidy)
    (hclock : clock.now.isUtc) (hcutoff : clock.cutoff age = .ok cutoff) :
    s.reply clock (.deleteCompletedOlderThan age) =
        .ok (.deleted (s.records.countP (·.completedUpTo cutoff))) ∧
      (s.after clock (.deleteCompletedOlderThan age)).records =
        s.records.filter fun r => !r.completedUpTo cutoff := by
  have hutc := Instant.isUtc_of_cutoff hcutoff hclock
  obtain ⟨⟨count, s'⟩, hdelete⟩ := exists_deleteCompletedUpTo h hutc
  obtain ⟨-, hrecords, hcount⟩ := deleteCompletedUpTo_ok hdelete
  rw [keepInstant_of_isUtc fun _ => hutc] at hrecords hcount
  have hbind : (clock.cutoff age >>= s.deleteCompletedUpTo) = .ok (count, s') := by
    rw [hcutoff]
    exact hdelete
  unfold reply after answer
  simp only [hbind, Except.map, next]
  exact ⟨by rw [hcount, List.countP_eq_length_filter], hrecords⟩

theorem refuses_delete (s : Store) (clock : Clock) (age : Duration) :
    (s.after clock (.deleteCompletedOlderThan age)).refuses = s.refuses := by
  cases hcutoff : clock.cutoff age with
  | error fault => rw [(delete_of_fault hcutoff).2]
  | ok cutoff =>
      unfold after answer
      dsimp only
      rw [hcutoff]
      cases s with
      | memory m =>
          dsimp only [bind, Except.bind, deleteCompletedUpTo]
          cases m.deleteCompletedUpTo cutoff <;> rfl
      | table t => rfl

/-! ### Insertion -/

/-- A record with the identifier, handler, content and publication of `r` is stored. -/
def Knows (s : Store) (r : PublicationRecord) : Prop :=
  ∃ x ∈ s.records, x.id = r.id ∧ x.handlerId = r.handlerId ∧ x.payload = r.payload ∧
    x.publishedAt = r.publishedAt

theorem holdsAll_iff_knows (h : s.Tidy) : s.HoldsAll batch ↔ ∀ r ∈ batch, s.Knows r := by
  refine forall₂_congr fun r _ => ⟨?_, ?_⟩
  · rintro ⟨x, hx, hsame⟩
    obtain ⟨hmem, hid⟩ := mem_of_get? hx
    exact ⟨x, hmem, hid, hsame⟩
  · rintro ⟨x, hmem, hid, hsame⟩
    exact ⟨x, hid ▸ get?_of_mem h.different hmem, hsame⟩

theorem Tidy.isUtc (h : s.Tidy) : s.IsUtc := fun r hr => (h.utc r hr).1

theorem insert_cases_of_tidy (h : s.Tidy) (clock : Clock)
    (hbatch : (StoreCall.insert batch).IsUtc) :
    (s.Accepts batch ∧ s.reply clock (.insert batch) = .ok .stored ∧
        s.after clock (.insert batch) = s.adding batch) ∨
      (¬ s.Accepts batch ∧ s.HoldsAll batch ∧ s.reply clock (.insert batch) = .ok .stored ∧
        s.after clock (.insert batch) = s) ∨
      (¬ s.Accepts batch ∧ ¬ s.HoldsAll batch ∧ s.after clock (.insert batch) = s ∧
        ∃ fault, s.reply clock (.insert batch) = .error fault ∧
          fault.category? = some .duplicateRecord) := by
  have hpublished : ∀ r ∈ batch, r.publishedAt.isUtc := fun r hr => (hbatch r hr).1
  unfold reply after answer
  by_cases haccepts : s.Accepts batch
  · obtain ⟨how, hinsert⟩ := insertSeeing_of_isNew h.isUtc haccepts.new haccepts.unrefused
    simp only [hinsert]
    exact .inl ⟨haccepts, rfl, rfl⟩
  · by_cases hholds : s.HoldsAll batch
    · obtain ⟨how, hinsert⟩ := insertSeeing_of_holdsAll h.isUtc hpublished hholds
      simp only [hinsert]
      exact .inr (.inl ⟨haccepts, hholds, rfl, rfl⟩)
    · obtain ⟨fault, hinsert, hcategory⟩ :=
        insertSeeing_of_not_accepts h.isUtc hpublished haccepts hholds
      simp only [hinsert]
      exact .inr (.inr ⟨haccepts, hholds, rfl, fault, rfl, hcategory⟩)

theorem records_of_accepts (h : s.Tidy) (hbatch : (StoreCall.insert batch).IsUtc)
    (haccepts : s.Accepts batch) :
    (s.after clock (.insert batch)).records = s.records ++ batch := by
  rcases insert_cases_of_tidy h clock hbatch with ⟨-, -, hafter⟩ | ⟨hnot, -⟩ | ⟨hnot, -⟩
  · rw [hafter, records_adding_of_isUtc hbatch]
  · exact absurd haccepts hnot
  · exact absurd haccepts hnot

theorem after_of_not_accepts (h : s.Tidy) (hbatch : (StoreCall.insert batch).IsUtc)
    (hnot : ¬ s.Accepts batch) : s.after clock (.insert batch) = s := by
  rcases insert_cases_of_tidy h clock hbatch with ⟨haccepts, -⟩ | ⟨-, -, -, hafter⟩ | ⟨-, -, hafter, -⟩
  · exact absurd haccepts hnot
  · exact hafter
  · exact hafter

/-- Two stores know the same of a batch. -/
structure Agree (s s' : Store) (batch : List PublicationRecord) : Prop where
  refuses : s'.refuses = s.refuses
  stored : ∀ r ∈ batch, r.id ∈ s'.ids ↔ r.id ∈ s.ids
  knows : ∀ r ∈ batch, s'.Knows r ↔ s.Knows r

theorem Agree.refl (s : Store) (batch : List PublicationRecord) : s.Agree s batch :=
  ⟨rfl, fun _ _ => .rfl, fun _ _ => .rfl⟩

theorem Agree.accepts (h : s.Agree s' batch) : s'.Accepts batch ↔ s.Accepts batch := by
  constructor
  · rintro ⟨⟨hdifferent, hunstored⟩, hunrefused⟩
    exact ⟨⟨hdifferent, fun r hr => mt (h.stored r hr).mpr (hunstored r hr)⟩,
      h.refuses ▸ hunrefused⟩
  · rintro ⟨⟨hdifferent, hunstored⟩, hunrefused⟩
    exact ⟨⟨hdifferent, fun r hr => mt (h.stored r hr).mp (hunstored r hr)⟩,
      h.refuses ▸ hunrefused⟩

theorem Agree.reply (h : s.Agree s' batch) (hs : s.Tidy) (hs' : s'.Tidy) (clock : Clock)
    (hbatch : (StoreCall.insert batch).IsUtc) :
    SameAnswer (s.reply clock (.insert batch)) (s'.reply clock (.insert batch)) := by
  have hholds : s'.HoldsAll batch ↔ s.HoldsAll batch := by
    rw [holdsAll_iff_knows hs, holdsAll_iff_knows hs']
    exact forall₂_congr h.knows
  have haccepts := h.accepts
  rcases insert_cases_of_tidy hs clock hbatch with
    ⟨ha, hreply, -⟩ | ⟨ha, hh, hreply, -⟩ | ⟨ha, hh, -, fault, hreply, hcategory⟩ <;>
  rcases insert_cases_of_tidy hs' clock hbatch with
    ⟨ha', hreply', -⟩ | ⟨ha', hh', hreply', -⟩ | ⟨ha', hh', -, fault', hreply', hcategory'⟩ <;>
  rw [hreply, hreply'] <;>
  first
  | rfl
  | exact Memory.Matches.sameClass_of_category hcategory hcategory'
  | exact absurd (haccepts.mp ha') ha
  | exact absurd (haccepts.mpr ha) ha'
  | exact absurd (hholds.mp hh') hh
  | exact absurd (hholds.mpr hh) hh'

/-! ### Exchange -/

/-- Two calls may be exchanged: each gets the same answer first and second, and the same records
are stored in the end. -/
structure Exchange (s : Store) (clock : Clock) (c d : StoreCall) : Prop where
  left : SameAnswer (s.reply clock c) ((s.after clock d).reply clock c)
  right : SameAnswer (s.reply clock d) ((s.after clock c).reply clock d)
  records : ((s.after clock c).after clock d).records.Perm
    ((s.after clock d).after clock c).records

theorem awaits_map_completeIf {a b : RecordId} {now : Instant} (hne : a ≠ b)
    (hrecords : s'.records = s.records.map (·.completeIf b now)) : s'.awaits a = s.awaits a := by
  unfold awaits
  rw [hrecords, List.any_map]
  refine congrArg (List.any s.records) (funext fun r => ?_)
  by_cases ha : r.id = a
  · have hb : r.id ≠ b := ha ▸ hne
    rw [Function.comp_apply, PublicationRecord.completeIf_of_ne hb]
  · simp [ha]

theorem exchange_complete_complete (h : s.Tidy) (hclock : clock.now.isUtc) {a b : RecordId}
    (hne : a ≠ b) : s.Exchange clock (.complete a) (.complete b) := by
  obtain ⟨hreplyA, hrecordsA⟩ := complete_cases_of_tidy h hclock a
  obtain ⟨hreplyB, hrecordsB⟩ := complete_cases_of_tidy h hclock b
  have hA : (s.after clock (.complete a)).Tidy := h.after hclock trivial
  have hB : (s.after clock (.complete b)).Tidy := h.after hclock trivial
  obtain ⟨hreplyAB, hrecordsAB⟩ := complete_cases_of_tidy hA hclock b
  obtain ⟨hreplyBA, hrecordsBA⟩ := complete_cases_of_tidy hB hclock a
  refine ⟨?_, ?_, List.Perm.of_eq ?_⟩
  · rw [hreplyA, hreplyBA, awaits_map_completeIf hne hrecordsB]
    exact .refl _
  · rw [hreplyB, hreplyAB, awaits_map_completeIf hne.symm hrecordsA]
    exact .refl _
  · rw [hrecordsAB, hrecordsBA, hrecordsA, hrecordsB, List.map_map, List.map_map]
    exact List.map_congr_left fun r _ => PublicationRecord.completeIf_comm a b r

theorem awaits_filter {cutoff : Instant}
    (hrecords : s'.records = s.records.filter fun r => !r.completedUpTo cutoff) :
    s'.awaits id = s.awaits id := by
  unfold awaits
  rw [hrecords, List.any_filter]
  refine congrArg (List.any s.records) (funext fun r => ?_)
  -- A pending record is not old, so the filter has kept it.
  cases hpending : r.isPending with
  | true => simp [PublicationRecord.completedUpTo_of_isPending hpending]
  | false => simp

/-- A deletion whose cutoff does not exist fails before it looks at the store. -/
theorem exchange_delete_of_fault (s : Store) {age : Duration} {fault : Fault}
    (hcutoff : clock.cutoff age = .error fault) (c : StoreCall) :
    s.Exchange clock c (.deleteCompletedOlderThan age) := by
  obtain ⟨hfault, hsame⟩ := delete_of_fault (s := s) hcutoff
  obtain ⟨hfault', hsame'⟩ := delete_of_fault (s := s.after clock c) hcutoff
  refine ⟨?_, ?_, ?_⟩
  · rw [hsame]
    exact .refl _
  · rw [hfault, hfault']
    exact .refl _
  · rw [hsame, hsame']

theorem exchange_complete_delete (h : s.Tidy) (hclock : clock.now.isUtc) (id : RecordId)
    {age : Duration} (hage : 0 < age.micros) :
    s.Exchange clock (.complete id) (.deleteCompletedOlderThan age) := by
  obtain ⟨hreply, hrecords⟩ := complete_cases_of_tidy h hclock id
  have hcompleted : (s.after clock (.complete id)).Tidy := h.after hclock trivial
  cases hcutoff : clock.cutoff age with
  | error fault => exact exchange_delete_of_fault s hcutoff _
  | ok cutoff =>
      have hold : cutoff.key < clock.now.key := by
        rw [Clock.key_of_cutoff hcutoff]
        omega
      obtain ⟨hcount, hkept⟩ := delete_of_cutoff h hclock hcutoff
      obtain ⟨hcount', hkept'⟩ := delete_of_cutoff hcompleted hclock hcutoff
      have hdeleted : (s.after clock (.deleteCompletedOlderThan age)).Tidy :=
        h.after hclock trivial
      obtain ⟨hreply', hrecords'⟩ := complete_cases_of_tidy hdeleted hclock id
      refine ⟨?_, ?_, List.Perm.of_eq ?_⟩
      · rw [hreply, hreply', awaits_filter hkept]
        exact .refl _
      · rw [hcount, hcount', hrecords, List.countP_map]
        simp only [Function.comp_def, PublicationRecord.completedUpTo_completeIf hold]
        exact .refl _
      · rw [hkept', hrecords', hrecords, hkept, List.filter_map]
        simp only [Function.comp_def, PublicationRecord.completedUpTo_completeIf hold]

theorem exists_added (s : Store) (clock : Clock) (hbatch : (StoreCall.insert batch).IsUtc) :
    ∃ added ⊆ batch, ∀ s' : Store, s'.Tidy → s.Agree s' batch →
      (s'.after clock (.insert batch)).records = s'.records ++ added := by
  by_cases haccepts : s.Accepts batch
  · exact ⟨batch, List.Subset.refl _, fun s' hs' hagree =>
      records_of_accepts hs' hbatch (hagree.accepts.mpr haccepts)⟩
  · refine ⟨[], List.nil_subset _, fun s' hs' hagree => ?_⟩
    rw [after_of_not_accepts hs' hbatch (mt hagree.accepts.mp haccepts), List.append_nil]

theorem refuses_insert (h : s.Tidy) (clock : Clock) (hbatch : (StoreCall.insert batch).IsUtc) :
    (s.after clock (.insert batch)).refuses = s.refuses := by
  rcases insert_cases_of_tidy h clock hbatch with ⟨-, -, hafter⟩ | ⟨-, -, -, hafter⟩ |
    ⟨-, -, hafter, -⟩
  · rw [hafter, refuses_adding]
  · rw [hafter]
  · rw [hafter]

theorem agree_of_apart {others : List PublicationRecord}
    (hrefuses : s'.refuses = s.refuses) (hrecords : s'.records = s.records ++ others)
    (hapart : ∀ r ∈ batch, ∀ x ∈ others, x.id ≠ r.id) : s.Agree s' batch where
  refuses := hrefuses
  stored := by
    intro r hr
    have hother : r.id ∉ others.map (·.id) := by
      intro hmem
      obtain ⟨x, hx, hid⟩ := List.mem_map.mp hmem
      exact hapart r hr x hx hid
    simp only [ids, hrecords, List.map_append, List.mem_append, hother, or_false]
  knows := by
    intro r hr
    unfold Knows
    rw [hrecords]
    constructor
    · rintro ⟨x, hx, hid, hsame⟩
      rcases List.mem_append.mp hx with hx | hx
      · exact ⟨x, hx, hid, hsame⟩
      · exact absurd hid (hapart r hr x hx)
    · rintro ⟨x, hx, hsame⟩
      exact ⟨x, List.mem_append_left _ hx, hsame⟩

theorem agree_of_insert (h : s.Tidy) (clock : Clock) {other : List PublicationRecord}
    (hother : (StoreCall.insert other).IsUtc)
    (hapart : ∀ r ∈ batch, ∀ x ∈ other, x.id ≠ r.id) :
    s.Agree (s.after clock (.insert other)) batch := by
  obtain ⟨added, hadded, hrecords⟩ := s.exists_added clock hother
  exact agree_of_apart (refuses_insert h clock hother) (hrecords s h (.refl s other))
    fun r hr x hx => hapart r hr x (hadded hx)

theorem exchange_insert_insert (h : s.Tidy) (hclock : clock.now.isUtc)
    {other : List PublicationRecord} (hbatch : (StoreCall.insert batch).IsUtc)
    (hother : (StoreCall.insert other).IsUtc)
    (hapart : ∀ r ∈ batch, ∀ x ∈ other, r.id ≠ x.id) :
    s.Exchange clock (.insert batch) (.insert other) := by
  have hfirst : (s.after clock (.insert batch)).Tidy := h.after hclock hbatch
  have hsecond : (s.after clock (.insert other)).Tidy := h.after hclock hother
  have hagree : s.Agree (s.after clock (.insert other)) batch :=
    agree_of_insert h clock hother fun r hr x hx => (hapart r hr x hx).symm
  have hagree' : s.Agree (s.after clock (.insert batch)) other :=
    agree_of_insert h clock hbatch fun x hx r hr => hapart r hr x hx
  refine ⟨hagree.reply h hsecond clock hbatch, hagree'.reply h hfirst clock hother, ?_⟩
  obtain ⟨added, -, hadded⟩ := s.exists_added clock hbatch
  obtain ⟨added', -, hadded'⟩ := s.exists_added clock hother
  rw [hadded' _ hfirst hagree', hadded _ hsecond hagree, hadded s h (.refl s batch),
    hadded' s h (.refl s other), List.append_assoc, List.append_assoc]
  exact .append_left _ List.perm_append_comm

theorem agree_of_complete (h : s.Tidy) (hclock : clock.now.isUtc) (id : RecordId) :
    s.Agree (s.after clock (.complete id)) batch := by
  obtain ⟨-, hrecords⟩ := complete_cases_of_tidy h hclock id
  refine ⟨?_, fun r _ => ?_, fun r _ => ?_⟩
  · unfold after answer
    exact refuses_complete s id clock.now
  · simp only [ids, hrecords, List.map_map, Function.comp_def, PublicationRecord.id_completeIf]
  · simp only [Knows, hrecords, List.mem_map, exists_exists_and_eq_and,
      PublicationRecord.id_completeIf, PublicationRecord.handlerId_completeIf,
      PublicationRecord.payload_completeIf, PublicationRecord.publishedAt_completeIf]

theorem awaits_append {others : List PublicationRecord}
    (hrecords : s'.records = s.records ++ others) (hapart : ∀ r ∈ others, r.id ≠ id) :
    s'.awaits id = s.awaits id := by
  have hnone : (others.any fun r => r.id = id && r.isPending) = false := by
    rw [List.any_eq_false]
    intro r hr
    simp [hapart r hr]
  rw [awaits, hrecords, List.any_append, hnone, Bool.or_false, awaits]

theorem exchange_insert_complete (h : s.Tidy) (hclock : clock.now.isUtc)
    (hbatch : (StoreCall.insert batch).IsUtc) (hapart : ∀ r ∈ batch, r.id ≠ id) :
    s.Exchange clock (.insert batch) (.complete id) := by
  have hinserted : (s.after clock (.insert batch)).Tidy := h.after hclock hbatch
  have hcompleted : (s.after clock (.complete id)).Tidy := h.after hclock trivial
  have hagree : s.Agree (s.after clock (.complete id)) batch := agree_of_complete h hclock id
  obtain ⟨added, hsub, hadded⟩ := s.exists_added clock hbatch
  have hrecords := hadded s h (.refl s batch)
  have hothers : ∀ r ∈ added, r.id ≠ id := fun r hr => hapart r (hsub hr)
  obtain ⟨hreply, hmarked⟩ := complete_cases_of_tidy h hclock id
  obtain ⟨hreply', hmarked'⟩ := complete_cases_of_tidy hinserted hclock id
  refine ⟨hagree.reply h hcompleted clock hbatch, ?_, List.Perm.of_eq ?_⟩
  · rw [hreply, hreply', awaits_append hrecords hothers]
    exact .refl _
  · have hsame : added.map (·.completeIf id clock.now) = added :=
      (List.map_congr_left fun r hr => PublicationRecord.completeIf_of_ne (hothers r hr)).trans
        (List.map_id _)
    rw [hmarked', hadded _ hcompleted hagree, hrecords, hmarked, List.map_append, hsame]

theorem agree_of_new (hrefuses : s'.refuses = s.refuses) (hsub : s'.records ⊆ s.records)
    (hnew : ∀ r ∈ batch, r.id ∉ s.ids) : s.Agree s' batch := by
  have hnew' : ∀ r ∈ batch, r.id ∉ s'.ids := fun r hr hmem =>
    hnew r hr (List.map_subset _ hsub hmem)
  have hunknown : ∀ (t : Store), ∀ r : PublicationRecord, r.id ∉ t.ids → ¬ t.Knows r := by
    rintro t r hid ⟨x, hx, hsame, -⟩
    exact hid (hsame ▸ mem_ids_of_mem hx)
  refine ⟨hrefuses, fun r hr => ?_, fun r hr => ?_⟩
  · exact iff_of_false (hnew' r hr) (hnew r hr)
  · exact iff_of_false (hunknown s' r (hnew' r hr)) (hunknown s r (hnew r hr))

theorem exchange_insert_delete (h : s.Tidy) (hclock : clock.now.isUtc)
    (hbatch : (StoreCall.insert batch).IsUtc) (hnew : ∀ r ∈ batch, r.id ∉ s.ids)
    (hpending : ∀ r ∈ batch, r.isPending) (age : Duration) :
    s.Exchange clock (.insert batch) (.deleteCompletedOlderThan age) := by
  have hinserted : (s.after clock (.insert batch)).Tidy := h.after hclock hbatch
  have hdeleted : (s.after clock (.deleteCompletedOlderThan age)).Tidy := h.after hclock trivial
  cases hcutoff : clock.cutoff age with
  | error fault => exact exchange_delete_of_fault s hcutoff _
  | ok cutoff =>
      obtain ⟨hcount, hkept⟩ := delete_of_cutoff h hclock hcutoff
      obtain ⟨hcount', hkept'⟩ := delete_of_cutoff hinserted hclock hcutoff
      have hagree : s.Agree (s.after clock (.deleteCompletedOlderThan age)) batch :=
        agree_of_new (refuses_delete s clock age) (hkept ▸ List.filter_subset_self _) hnew
      obtain ⟨added, hsub, hadded⟩ := s.exists_added clock hbatch
      have hrecords := hadded s h (.refl s batch)
      have hyoung : ∀ r ∈ added, r.completedUpTo cutoff = false := fun r hr =>
        PublicationRecord.completedUpTo_of_isPending (hpending r (hsub hr)) cutoff
      refine ⟨hagree.reply h hdeleted clock hbatch, ?_, List.Perm.of_eq ?_⟩
      · have hnone : added.countP (·.completedUpTo cutoff) = 0 :=
          List.countP_eq_zero.mpr fun r hr => by simp [hyoung r hr]
        rw [hcount, hcount', hrecords, List.countP_append, hnone, Nat.add_zero]
        exact .refl _
      · have hall : added.filter (fun r => !r.completedUpTo cutoff) = added :=
          List.filter_eq_self.mpr fun r hr => by simp [hyoung r hr]
        rw [hkept', hadded _ hdeleted hagree, hrecords, hkept, List.filter_append, hall]

/-! ### Two deletions -/

theorem delete_delete (h : s.Tidy) (hclock : clock.now.isUtc) {x y : Duration} {cx cy : Instant}
    (hx : clock.cutoff x = .ok cx) (hy : clock.cutoff y = .ok cy) :
    ∃ i j,
      s.reply clock (.deleteCompletedOlderThan x) = .ok (.deleted i) ∧
      (s.after clock (.deleteCompletedOlderThan x)).reply clock (.deleteCompletedOlderThan y) =
        .ok (.deleted j) ∧
      s.reply clock (.deleteCompletedOlderThan (x.shorter y)) = .ok (.deleted (i + j)) ∧
      ((s.after clock (.deleteCompletedOlderThan x)).after clock
          (.deleteCompletedOlderThan y)).records =
        (s.after clock (.deleteCompletedOlderThan (x.shorter y))).records := by
  obtain ⟨later, hlater⟩ : ∃ later, clock.cutoff (x.shorter y) = .ok later := by
    rcases x.shorter_cases y with hshorter | hshorter
    · exact ⟨cx, by rw [hshorter, hx]⟩
    · exact ⟨cy, by rw [hshorter, hy]⟩
  -- The smaller an age is, the later its cutoff.
  have hkey : later.key = max cx.key cy.key := by
    rw [Clock.key_of_cutoff hlater, Clock.key_of_cutoff hx, Clock.key_of_cutoff hy,
      Duration.shorter]
    dsimp only
    omega
  have htidy : (s.after clock (.deleteCompletedOlderThan x)).Tidy := h.after hclock trivial
  obtain ⟨hcount, hkept⟩ := delete_of_cutoff h hclock hx
  obtain ⟨hcount', hkept'⟩ := delete_of_cutoff htidy hclock hy
  obtain ⟨hcountBoth, hkeptBoth⟩ := delete_of_cutoff h hclock hlater
  refine ⟨_, _, hcount, hcount', ?_, ?_⟩
  · have hfirst : ∀ r : PublicationRecord,
        (r.completedUpTo later && r.completedUpTo cx) = r.completedUpTo cx := by
      intro r
      rw [← PublicationRecord.completedUpTo_or hkey]
      cases r.completedUpTo cx <;> simp
    have hsecond : ∀ r : PublicationRecord,
        (r.completedUpTo later && !r.completedUpTo cx) =
          (r.completedUpTo cy && !r.completedUpTo cx) := by
      intro r
      rw [← PublicationRecord.completedUpTo_or hkey]
      cases r.completedUpTo cx <;> simp
    rw [hcountBoth, hkept, List.countP_filter,
      List.countP_eq_countP_filter_add s.records _ (·.completedUpTo cx), List.countP_filter,
      List.countP_filter]
    simp only [hfirst, hsecond]
  · rw [hkept', hkept, hkeptBoth, List.filter_filter]
    refine List.filter_congr fun r _ => ?_
    rw [← PublicationRecord.completedUpTo_or hkey, Bool.not_or, Bool.and_comm]

theorem records_delete_delete (h : s.Tidy) (hclock : clock.now.isUtc) {x y : Duration}
    {later : Instant} (hlater : clock.cutoff (x.shorter y) = .ok later) :
    ((s.after clock (.deleteCompletedOlderThan x)).after clock
        (.deleteCompletedOlderThan y)).records =
      (s.after clock (.deleteCompletedOlderThan (x.shorter y))).records := by
  cases hx : clock.cutoff x with
  | error fault =>
      rcases x.shorter_cases y with hshorter | hshorter
      · rw [hshorter, hx] at hlater
        cases hlater
      · rw [hshorter, (delete_of_fault hx).2]
  | ok cx =>
      cases hy : clock.cutoff y with
      | error fault =>
          rcases x.shorter_cases y with hshorter | hshorter
          · rw [hshorter, (delete_of_fault hy).2]
          · rw [hshorter, hy] at hlater
            cases hlater
      | ok cy =>
          obtain ⟨-, -, -, -, -, hrecords⟩ := delete_delete h hclock hx hy
          exact hrecords

end Store

/-! ### On a node -/

/-- Two calls commute on a node: whichever comes first, each has the same answer, or a fault of
the same class, and the same records are stored in the end. -/
structure StoreCall.Commute (c d : StoreCall) (p : Node) : Prop where
  left : SameAnswer (c.act.outcome p).1 (c.act.outcome (d.after p)).1
  right : SameAnswer (d.act.outcome p).1 (d.act.outcome (c.after p)).1
  records : (d.after (c.after p)).store.records.Perm (c.after (d.after p)).store.records

/-- Deletions by two ages, one after the other, are one deletion by the smaller age. -/
structure Node.DeletesAsOne (p : Node) (x y : Duration) : Prop where
  /-- The counts of two deletions that do not fail add up. -/
  counts : ∀ cx cy, p.clock.cutoff x = .ok cx → p.clock.cutoff y = .ok cy → ∃ i j,
    ((StoreCall.deleteCompletedOlderThan x).act.outcome p).1 = .ok (.deleted i) ∧
    ((StoreCall.deleteCompletedOlderThan y).act.outcome
      ((StoreCall.deleteCompletedOlderThan x).after p)).1 = .ok (.deleted j) ∧
    ((StoreCall.deleteCompletedOlderThan (x.shorter y)).act.outcome p).1 = .ok (.deleted (i + j))
  /-- They leave what the one deletion leaves, even if one of them fails. -/
  records : ∀ later, p.clock.cutoff (x.shorter y) = .ok later →
    ((StoreCall.deleteCompletedOlderThan y).after
        ((StoreCall.deleteCompletedOlderThan x).after p)).store.records =
      ((StoreCall.deleteCompletedOlderThan (x.shorter y)).after p).store.records
  /-- Only a cutoff that does not exist makes a deletion fail, and then nothing is deleted. -/
  fault : ∀ fault, p.clock.cutoff x = .error fault →
    ((StoreCall.deleteCompletedOlderThan x).act.outcome p).1 = .error fault ∧
      ((StoreCall.deleteCompletedOlderThan x).after p).store = p.store

section OnNodes

variable {p : Node}

theorem StoreCall.answer_of_calm (h : p.Calm) (c : StoreCall) :
    (c.act.outcome p).1 = p.store.reply p.clock c := by
  obtain ⟨log, hlog⟩ := c.outcome_of_calm h
  rw [hlog]
  rfl

theorem StoreCall.after_of_calm (h : p.Calm) (c : StoreCall) :
    (c.after p).Calm ∧ (c.after p).clock = p.clock ∧
      (c.after p).store = p.store.after p.clock c := by
  obtain ⟨log, hlog⟩ := c.outcome_of_calm h
  unfold StoreCall.after
  rw [hlog]
  exact ⟨⟨h.outages, h.databaseOutage⟩, rfl, rfl⟩

theorem StoreCall.second_answer_of_calm (h : p.Calm) (c d : StoreCall) :
    (d.act.outcome (c.after p)).1 = (p.store.after p.clock c).reply p.clock d := by
  obtain ⟨hcalm, hclock, hstore⟩ := c.after_of_calm h
  rw [d.answer_of_calm hcalm, hclock, hstore]

theorem StoreCall.second_store_of_calm (h : p.Calm) (c d : StoreCall) :
    (d.after (c.after p)).store = (p.store.after p.clock c).after p.clock d := by
  obtain ⟨hcalm, hclock, hstore⟩ := c.after_of_calm h
  rw [(d.after_of_calm hcalm).2.2, hclock, hstore]

theorem Store.Exchange.commute {c d : StoreCall} (h : p.store.Exchange p.clock c d)
    (hcalm : p.Calm) : c.Commute d p where
  left := by
    rw [c.answer_of_calm hcalm, StoreCall.second_answer_of_calm hcalm]
    exact h.left
  right := by
    rw [d.answer_of_calm hcalm, StoreCall.second_answer_of_calm hcalm]
    exact h.right
  records := by
    rw [StoreCall.second_store_of_calm hcalm, StoreCall.second_store_of_calm hcalm]
    exact h.records

theorem Node.deletesAsOne (hcalm : p.Calm) (hclock : p.clock.now.isUtc) (hstore : p.store.Tidy)
    (x y : Duration) : p.DeletesAsOne x y where
  counts := by
    intro cx cy hx hy
    obtain ⟨i, j, hi, hj, hsum, -⟩ := Store.delete_delete hstore hclock hx hy
    refine ⟨i, j, ?_, ?_, ?_⟩
    · rw [StoreCall.answer_of_calm hcalm, hi]
    · rw [StoreCall.second_answer_of_calm hcalm, hj]
    · rw [StoreCall.answer_of_calm hcalm, hsum]
  records := by
    intro later hlater
    rw [StoreCall.second_store_of_calm hcalm, (StoreCall.after_of_calm hcalm _).2.2]
    exact Store.records_delete_delete hstore hclock hlater
  fault := by
    intro fault hfault
    rw [StoreCall.answer_of_calm hcalm, (StoreCall.after_of_calm hcalm _).2.2]
    exact Store.delete_of_fault hfault

end OnNodes

/-- Calls that concern different records may be made in either order, on either store; two
deletions in either order are one deletion by the smaller age. -/
theorem independent_calls_commute {p : Node} (hcalm : p.Calm) (hclock : p.clock.now.isUtc)
    (hstore : p.store.Tidy) :
    (∀ a b, a ≠ b → (StoreCall.complete a).Commute (.complete b) p) ∧
      (∀ a (age : Duration), 0 < age.micros →
        (StoreCall.complete a).Commute (.deleteCompletedOlderThan age) p) ∧
      (∀ batch other, (∀ r ∈ batch, r.IsUtc) → (∀ r ∈ other, r.IsUtc) →
        (∀ r ∈ batch, ∀ x ∈ other, r.id ≠ x.id) →
        (StoreCall.insert batch).Commute (.insert other) p) ∧
      (∀ batch a, (∀ r ∈ batch, r.IsUtc) → (∀ r ∈ batch, r.id ≠ a) →
        (StoreCall.insert batch).Commute (.complete a) p) ∧
      (∀ batch age, (∀ r ∈ batch, r.IsUtc) → (∀ r ∈ batch, r.id ∉ p.store.ids) →
        (∀ r ∈ batch, r.isPending) →
        (StoreCall.insert batch).Commute (.deleteCompletedOlderThan age) p) ∧
      ∀ x y, p.DeletesAsOne x y := by
  refine ⟨?_, ?_, ?_, ?_, ?_, p.deletesAsOne hcalm hclock hstore⟩
  · intro a b hne
    exact (Store.exchange_complete_complete hstore hclock hne).commute hcalm
  · intro a age hage
    exact (Store.exchange_complete_delete hstore hclock a hage).commute hcalm
  · intro batch other hbatch hother hapart
    exact (Store.exchange_insert_insert hstore hclock hbatch hother hapart).commute hcalm
  · intro batch a hbatch hapart
    exact (Store.exchange_insert_complete hstore hclock hbatch hapart).commute hcalm
  · intro batch age hbatch hnew hpending
    exact (Store.exchange_insert_delete hstore hclock hbatch hnew hpending age).commute hcalm

/-- A table with a record that was completed a minute ago and a pending one. -/
def halfDoneNode : Node :=
  Node.start (ModuleSpace.initial []) ⟨⟨Clock.epoch.wall + 60 * 1000000, some 0⟩⟩
    (.table ⟨[Row.ofRecord completedRecord,
      Row.ofRecord { pendingRecord with id := RecordId.drawn 2 }], []⟩)

/-- A new record beside one that is stored already, and a completed record that is completed again
and deleted at an age of exactly a minute. -/
theorem independent_calls_commute_minute :
    let p := halfDoneNode
    let new := { pendingRecord with id := RecordId.drawn 3 }
    let minute : Duration := ⟨60 * 1000000⟩
    p.Calm ∧ p.clock.now.isUtc ∧ p.store.Tidy ∧
      (StoreCall.complete (RecordId.drawn 1)).Commute (.complete (RecordId.drawn 2)) p ∧
      (StoreCall.complete (RecordId.drawn 1)).Commute (.deleteCompletedOlderThan minute) p ∧
      (StoreCall.insert [new]).Commute (.insert [pendingRecord]) p ∧
      (StoreCall.insert [new]).Commute (.complete (RecordId.drawn 2)) p ∧
      (StoreCall.insert [new]).Commute (.deleteCompletedOlderThan minute) p ∧
      p.DeletesAsOne ⟨0⟩ minute ∧
      ((StoreCall.deleteCompletedOlderThan minute).act.outcome p).1 = .ok (.deleted 1) := by
  intro p new minute
  have hcalm : p.Calm := ⟨rfl, rfl⟩
  have hclock : p.clock.now.isUtc := rfl
  have hutc : ∀ r ∈ p.store.records, r.IsUtc := by
    refine List.forall_mem_cons.mpr ⟨⟨rfl, ?_⟩, List.forall_mem_singleton.mpr ⟨rfl, nofun⟩⟩
    rintro _ ⟨⟩
    rfl
  have hstore : p.store.Tidy := ⟨by decide, hutc⟩
  have hnew : ∀ r ∈ [new], r.IsUtc := List.forall_mem_singleton.mpr ⟨rfl, nofun⟩
  have hold : ∀ r ∈ [pendingRecord], r.IsUtc := List.forall_mem_singleton.mpr ⟨rfl, nofun⟩
  obtain ⟨hcompletions, hdeletion, hinsertions, hcompletion, hinsertion, hdeletions⟩ :=
    independent_calls_commute hcalm hclock hstore
  refine ⟨hcalm, hclock, hstore, ?_, ?_, ?_, ?_, ?_, hdeletions _ _, rfl⟩
  · exact hcompletions _ _ (by decide)
  · exact hdeletion _ minute (by decide)
  · exact hinsertions _ _ hnew hold (by decide)
  · exact hcompletion _ _ hnew (by decide)
  · exact hinsertion _ minute hnew (by decide) (by decide)

end DeliveryLedger
