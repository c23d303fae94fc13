import DeliveryLedger.Proofs.QuietActs
import Mathlib.Data.List.Induction
/-!
The counts of failures over whole rows of runs.

A run answers, whatever went wrong in it, and moves the count of its own identifier by one step
(`failures_perform`).  So after any row of runs a count is the number of failures since the last
success (`failures_performAll`), and the alarm goes off exactly at the failures that bring it to
the threshold or beyond.
-/

namespace DeliveryLedger.Sweeper

open Act

/-- A run that a sweeper is asked for: what happened to the node since the run before, what is
run under which identifier, and what goes wrong around it. -/
structure Run where
  meanwhile : Node → Node
  id : String
  work : Act Unit
  mishaps : Mishaps

namespace Run

/-- A schedule is run, and nothing goes wrong around it. -/
def ofSchedule (meanwhile : Node → Node) (x : Schedule) : Run :=
  ⟨meanwhile, x.id, act x.sweep, .none⟩

/-- What the work of a run comes to, and the node after its scope. -/
def worked (r : Run) (s : Sweeper × Node) : Except Fault Unit × Node :=
  outcome (inScope r.mishaps r.work) (r.meanwhile s.2)

def fails (r : Run) (s : Sweeper × Node) : Bool := !(r.worked s).1.isOk

def perform (r : Run) (s : Sweeper × Node) : Except Fault Unit × (Sweeper × Node) :=
  runWork r.mishaps r.id r.work (s.1, r.meanwhile s.2)

/-- A row of runs, which ends at the first that brings a fault. -/
def performAll : List Run → Sweeper × Node → Except Fault Unit × (Sweeper × Node)
  | [], s => (.ok (), s)
  | r :: rest, s =>
    match r.perform s with
    | (.error fault, s) => (.error fault, s)
    | (.ok (), s) => performAll rest s

/-- Which identifiers were run, in order, and whether each run failed. -/
def history : List Run → Sweeper × Node → List (String × Bool)
  | [], _ => []
  | r :: rest, s => (r.id, r.fails s) :: history rest (r.perform s).2

end Run

/-- The failed runs of an identifier since its last successful one. -/
def failuresInRow (history : List (String × Bool)) (id : String) : Nat :=
  ((history.filter (·.1 = id)).reverse.takeWhile (·.2)).length

variable {s : Sweeper × Node}

/-! ### One run -/

theorem failures_note (sweeper : Sweeper) (id : String) (result : Except Fault Unit)
    (key : String) :
    (sweeper.note id result).1.failures key =
      if key = id then if result.isOk then 0 else sweeper.failures id + 1
      else sweeper.failures key := by
  rcases result with fault | ⟨⟩
  · by_cases hkey : key = id
    · simp [note, failures, member?_insertMember, hkey, Except.isOk, Except.toBool]
    · simp [note, failures, member?_insertMember, hkey]
  · by_cases hkey : key = id
    · simp [note, failures, member?_eraseMember, hkey, Except.isOk, Except.toBool]
    · simp [note, failures, member?_eraseMember, hkey]

theorem exists_critical_note (sweeper : Sweeper) (id : String) (result : Except Fault Unit) :
    (∃ l ∈ (sweeper.note id result).2, l.level = .critical) ↔
      result.isOk = false ∧ alarmThreshold ≤ (sweeper.note id result).1.failures id := by
  rw [failures_note, if_pos rfl]
  rcases result with fault | ⟨⟩
  · by_cases hcount : alarmThreshold ≤ sweeper.failures id + 1
    · simp [note, hcount, Except.isOk, Except.toBool]
    · simp [note, hcount, Except.isOk, Except.toBool]
  · simp [note, Except.isOk, Except.toBool]

theorem isOk_inScope (m : Mishaps) (work : Act Unit) (p : Node) :
    (outcome (inScope m work) p).1.isOk =
      (m.opening.isNone && m.lookup.isNone && (outcome work p).1.isOk && m.closing.isNone) := by
  obtain ⟨opening, lookup, closing⟩ := m
  rcases opening with _ | fault
  · rcases lookup with _ | fault
    · rcases hwork : outcome work p with ⟨fault | ⟨⟩, q⟩ <;> rcases closing with _ | late <;>
        simp [inScope, pass, outcome_bind, hwork, Except.isOk, Except.toBool]
    · rcases closing with _ | late <;>
        simp [inScope, pass, outcome_bind, Except.isOk, Except.toBool]
  · simp [inScope, pass, Except.isOk, Except.toBool]

theorem quiet_pass (mishap : Option Fault) : Quiet (pass mishap) := by
  cases mishap with
  | none => exact quiet_pure _
  | some fault => exact quiet_throw fault

theorem quiet_inScope (m : Mishaps) {work : Act Unit} (h : Quiet work) : Quiet (inScope m work) :=
  (quiet_pass _).bind fun _ => ((quiet_pass _).bind fun _ => h).attempt.bind fun result =>
    (quiet_pass _).bind fun _ => quiet_lift result

namespace Run

theorem perform_eq (r : Run) (s : Sweeper × Node) :
    r.perform s = (.ok (), ((s.1.note r.id (r.worked s).1).1,
      (r.worked s).2.logged (s.1.note r.id (r.worked s).1).2)) := rfl

theorem failures_perform (r : Run) (s : Sweeper × Node) (key : String) :
    (r.perform s).2.1.failures key =
      if key = r.id then if r.fails s then s.1.failures r.id + 1 else 0 else s.1.failures key := by
  rw [perform_eq, failures_note, fails]
  cases (r.worked s).1.isOk <;> rfl

theorem fails_iff (r : Run) (s : Sweeper × Node) :
    r.fails s ↔ r.mishaps.opening ≠ none ∨ r.mishaps.lookup ≠ none ∨
      (outcome r.work (r.meanwhile s.2)).1.isOk = false ∨ r.mishaps.closing ≠ none := by
  rw [fails, worked, isOk_inScope]
  simp only [Bool.not_and, Bool.or_eq_true, Bool.not_eq_true', Option.isNone_eq_false_iff,
    Option.isSome_iff_ne_none, or_assoc]

theorem exists_critical_perform (r : Run) (s : Sweeper × Node) :
    ∃ lines, (r.perform s).2.2 = (r.worked s).2.logged lines ∧
      ((∃ l ∈ lines, l.level = .critical) ↔
        r.fails s ∧ alarmThreshold ≤ (r.perform s).2.1.failures r.id) := by
  refine ⟨_, rfl, (exists_critical_note s.1 r.id (r.worked s).1).trans ?_⟩
  rw [fails, Bool.not_eq_true']
  rfl

theorem exists_critical_of_quiet {r : Run} (hquiet : Quiet r.work) (s : Sweeper × Node) :
    ∃ lines, (r.perform s).2.2.log = (r.meanwhile s.2).log ++ lines ∧
      ((∃ l ∈ lines, l.level = .critical) ↔
        r.fails s ∧ alarmThreshold ≤ (r.perform s).2.1.failures r.id) := by
  obtain ⟨lines, hlines, hcritical⟩ := r.exists_critical_perform s
  obtain ⟨before, hbefore, hcalm⟩ := quiet_inScope r.mishaps hquiet (r.meanwhile s.2)
  refine ⟨before ++ lines, ?_, ?_⟩
  · rw [hlines, Node.logged, ← List.append_assoc, ← hbefore]
    rfl
  · rw [← hcritical]
    constructor
    · rintro ⟨l, hl, hlevel⟩
      rcases List.mem_append.mp hl with hl | hl
      · exact absurd hlevel (hcalm l hl)
      · exact ⟨l, hl, hlevel⟩
    · rintro ⟨l, hl, hlevel⟩
      exact ⟨l, List.mem_append_right before hl, hlevel⟩

/-! ### Rows of runs -/

theorem performAll_append (before after : List Run) (s : Sweeper × Node) :
    performAll (before ++ after) s = performAll after (performAll before s).2 := by
  induction before generalizing s with
  | nil => rfl
  | cons r before ih => exact ih (r.perform s).2

theorem performAll_fst (runs : List Run) (s : Sweeper × Node) :
    (performAll runs s).1 = .ok () := by
  induction runs generalizing s with
  | nil => rfl
  | cons r runs ih => exact ih (r.perform s).2

theorem history_append (before after : List Run) (s : Sweeper × Node) :
    history (before ++ after) s = history before s ++ history after (performAll before s).2 := by
  induction before generalizing s with
  | nil => rfl
  | cons r before ih => exact congrArg (_ :: ·) (ih (r.perform s).2)

end Run

theorem failuresInRow_append (past : List (String × Bool)) (id : String) (failed : Bool)
    (key : String) :
    failuresInRow (past ++ [(id, failed)]) key =
      if key = id then if failed then failuresInRow past id + 1 else 0
      else failuresInRow past key := by
  by_cases hkey : key = id
  · subst hkey
    cases failed <;> simp [failuresInRow, List.filter_append]
  · simp [failuresInRow, List.filter_append, hkey, Ne.symm hkey]

example : failuresInRow [("a", true), ("b", true), ("a", false), ("a", true), ("b", true)] "a" = 1 ∧
    failuresInRow [("a", true), ("b", true), ("a", false), ("a", true), ("b", true)] "b" = 2 := by
  decide

/-- After any row of runs, from a sweeper that has counted nothing, each count is the number of
failures since the last success. -/
theorem failures_performAll (hfresh : s.1.failing = []) (runs : List Run) (key : String) :
    (Run.performAll runs s).2.1.failures key = failuresInRow (Run.history runs s) key := by
  -- the count after a run comes from the count before it, so the last run is taken away
  induction runs using List.reverseRecOn generalizing key with
  | nil =>
      rw [Run.performAll, failures, hfresh]
      rfl
  | append_singleton runs r ih =>
      rw [Run.performAll_append, Run.history_append]
      have hlast := r.failures_perform (Run.performAll runs s).2 key
      rw [ih, ih] at hlast
      exact hlast.trans (failuresInRow_append _ _ _ _).symm

/-- No run of a row brings a fault, the count of an identifier is that of its failed runs since its
last successful one, and an alarm is logged exactly if a run fails and its count has reached the
threshold.  The runs of schedules are among them. -/
theorem runs_counted (sweeper : Sweeper) (node : Node) (runs : List Run) :
    let start := ({ sweeper with failing := [] }, node)
    let now := (Run.performAll runs start).2
    (Run.performAll runs start).1 = .ok () ∧
    (∀ id, now.1.failures id = failuresInRow (Run.history runs start) id) ∧
    (∀ meanwhile x, (Run.ofSchedule meanwhile x).perform now =
      runSchedule x (now.1, meanwhile now.2)) ∧
    ∀ r : Run, (r.perform now).1 = .ok () ∧
      (r.fails now ↔ r.mishaps.opening ≠ none ∨ r.mishaps.lookup ≠ none ∨
        (outcome r.work (r.meanwhile now.2)).1.isOk = false ∨ r.mishaps.closing ≠ none) ∧
      (r.perform now).2.1.failures r.id =
        failuresInRow (Run.history runs start ++ [(r.id, r.fails now)]) r.id ∧
      (∀ id ≠ r.id, (r.perform now).2.1.failures id = now.1.failures id) ∧
      (∃ lines, (r.perform now).2.2 = (r.worked now).2.logged lines ∧
        ((∃ l ∈ lines, l.level = .critical) ↔
          r.fails now ∧ alarmThreshold ≤ (r.perform now).2.1.failures r.id)) ∧
      ((Quiet r.work ∨ ∃ sweep, r.work = act sweep) →
        ∃ lines, (r.perform now).2.2.log = (r.meanwhile now.2).log ++ lines ∧
          ((∃ l ∈ lines, l.level = .critical) ↔
            r.fails now ∧ alarmThreshold ≤ (r.perform now).2.1.failures r.id)) := by
  intro start now
  have hcounts : ∀ id, now.1.failures id = failuresInRow (Run.history runs start) id :=
    failures_performAll rfl runs
  refine ⟨Run.performAll_fst runs start, hcounts, fun _ _ => rfl, fun r => ⟨rfl, r.fails_iff now,
    ?_, ?_, r.exists_critical_perform now, ?_⟩⟩
  · rw [failuresInRow_append, if_pos rfl, ← hcounts, r.failures_perform, if_pos rfl]
  · intro id hid
    rw [r.failures_perform, if_neg hid]
  · rintro (hquiet | ⟨sweep, hwork⟩)
    · exact Run.exists_critical_of_quiet hquiet now
    · exact Run.exists_critical_of_quiet (hwork ▸ quiet_act sweep) now

end DeliveryLedger.Sweeper
