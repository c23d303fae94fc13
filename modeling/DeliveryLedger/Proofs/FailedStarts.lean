import DeliveryLedger.Proofs.FailureCounts
/-!
Starts of a sweeper that succeed, and starts that fail.

A start asks a timer for several things, one after the other, and each may be refused (`Stops`).
If none is, the timer has all schedules, in order, and the sweeper runs until it is stopped.  If
one is, nothing is taken back: what the start has opened by then stays open, and with a timer at
hand the sweeper counts as running.
-/

namespace DeliveryLedger.Sweeper

variable {m : Timer.Make} {given xs : List Schedule} {s : Sweeper × Node} {fault : Fault}
  {t : Option Timer} {exits : Exits}

/-- A timer that has been given schedules takes each of some further ones, in their order. -/
def Accepts (m : Timer.Make) (given xs : List Schedule) : Prop :=
  ∀ before x rest, xs = before ++ x :: rest → handOver m ⟨given ++ before, false⟩ x = .ok ()

/-- Nothing that a start asks for is refused. -/
structure Succeeds (m : Timer.Make) (xs : List Schedule) : Prop where
  create : m.create = .ok ()
  enter : m.enter = .ok ()
  accepts : Accepts m [] xs
  launch : m.launch ⟨xs, false⟩ = .ok ()

/-- A start fails at the first thing that is refused.  By then there is a timer or not, which has
been given some schedules, and which will have to be closed or not. -/
inductive Stops (m : Timer.Make) (xs : List Schedule) : Fault → Option Timer → Exits → Prop
  | create {fault : Fault} (hcreate : m.create = .error fault) : Stops m xs fault none ⟨false⟩
  | enter {fault : Fault} (hcreate : m.create = .ok ()) (henter : m.enter = .error fault) :
      Stops m xs fault (some .fresh) ⟨false⟩
  | handOver {fault : Fault} {before rest : List Schedule} {x : Schedule}
      (hcreate : m.create = .ok ()) (henter : m.enter = .ok ()) (hxs : xs = before ++ x :: rest)
      (hbefore : Accepts m [] before) (hx : handOver m ⟨before, false⟩ x = .error fault) :
      Stops m xs fault (some ⟨before, false⟩) ⟨true⟩
  | launch {fault : Fault} (hcreate : m.create = .ok ()) (henter : m.enter = .ok ())
      (hxs : Accepts m [] xs) (hlaunch : m.launch ⟨xs, false⟩ = .error fault) :
      Stops m xs fault (some ⟨xs, false⟩) ⟨true⟩

/-- A sweeper with what a start has opened; without a new timer it keeps the one that it has. -/
def opened (s : Sweeper) (t : Option Timer) (exits : Exits) : Sweeper :=
  { s with timer := t.or s.timer, exits := some exits, last := t.getD s.last }

theorem accepts_nil (m : Timer.Make) (given : List Schedule) : Accepts m given [] := by
  intro before x rest h
  simp at h

theorem accepts_cons {x : Schedule} (hx : handOver m ⟨given, false⟩ x = .ok ())
    (hxs : Accepts m (given ++ [x]) xs) : Accepts m given (x :: xs) := by
  rintro (_ | ⟨y, before⟩) z rest h
  · obtain ⟨rfl, rfl⟩ := List.cons.inj h
    rwa [List.append_nil]
  · obtain ⟨rfl, hrest⟩ := List.cons.inj h
    have hz := hxs before z rest hrest
    rwa [List.append_assoc] at hz

theorem Stops.not_succeeds (h : Stops m xs fault t exits) : ¬ Succeeds m xs := by
  rintro ⟨hcreate, henter, haccepts, hlaunch⟩
  cases h with
  | create h => simp [hcreate] at h
  | enter _ h => simp [henter] at h
  | handOver _ _ hxs _ hx =>
      have hok := haccepts _ _ _ hxs
      rw [List.nil_append, hx] at hok
      cases hok
  | launch _ _ _ h => simp [hlaunch] at h

theorem register_cases (m : Timer.Make) (given xs : List Schedule) :
    let (result, timer, _) := register m ⟨given, false⟩ xs
    (Accepts m given xs ∧ result = .ok () ∧ timer = ⟨given ++ xs, false⟩) ∨
    ∃ before x rest fault, xs = before ++ x :: rest ∧ Accepts m given before ∧
      handOver m ⟨given ++ before, false⟩ x = .error fault ∧
      result = .error fault ∧ timer = ⟨given ++ before, false⟩ := by
  induction xs generalizing given with
  | nil => exact .inl ⟨accepts_nil m given, rfl, by rw [List.append_nil]⟩
  | cons x xs ih =>
      rcases hx : handOver m ⟨given, false⟩ x with fault | ⟨⟩
      · rw [register, hx]
        refine .inr ⟨[], x, xs, fault, rfl, accepts_nil m given, ?_, rfl, ?_⟩
        · rwa [List.append_nil]
        · rw [List.append_nil]
      · rw [register, hx]
        rcases ih (given ++ [x]) with ⟨haccepts, hresult, htimer⟩ |
          ⟨before, y, rest, fault, rfl, hbefore, hy, hresult, htimer⟩
        · exact .inl ⟨accepts_cons hx haccepts, hresult, by simpa using htimer⟩
        · refine .inr ⟨x :: before, y, rest, fault, rfl, accepts_cons hx hbefore, ?_, hresult, ?_⟩
          · rwa [List.append_assoc] at hy
          · simpa using htimer

/-- A start succeeds and the sweeper has a timer under way, or it stops somewhere and the sweeper
is left with what there was by then. -/
theorem start_cases (m : Timer.Make) (s : Sweeper × Node) :
    let (result, after, _) := start m s
    (Succeeds m s.1.schedules ∧ result = .ok () ∧
      after = s.1.opened (some ⟨s.1.schedules, true⟩) ⟨true⟩) ∨
    ∃ fault t exits, Stops m s.1.schedules fault t exits ∧ result = .error fault ∧
      after = s.1.opened t exits := by
  rcases hcreate : m.create with fault | ⟨⟩
  · rw [start, hcreate]
    exact .inr ⟨fault, none, ⟨false⟩, .create hcreate, rfl, rfl⟩
  rcases henter : m.enter with fault | ⟨⟩
  · rw [start, hcreate, henter]
    exact .inr ⟨fault, some .fresh, ⟨false⟩, .enter hcreate henter, rfl, rfl⟩
  have hregister := register_cases m [] s.1.schedules
  rw [start, hcreate, henter]
  rcases hanswer : register m ⟨[], false⟩ s.1.schedules with ⟨result, timer, lines⟩
  rw [hanswer] at hregister
  dsimp only [Timer.fresh]
  rw [hanswer]
  rcases hregister with ⟨haccepts, rfl, rfl⟩ | ⟨before, x, rest, fault, hxs, hbefore, hx, rfl, rfl⟩
  · rcases hlaunch : m.launch ⟨s.1.schedules, false⟩ with fault | ⟨⟩
    · dsimp only
      rw [List.nil_append, hlaunch]
      exact .inr ⟨fault, some ⟨s.1.schedules, false⟩, ⟨true⟩,
        .launch hcreate henter haccepts hlaunch, rfl, rfl⟩
    · dsimp only
      rw [List.nil_append, hlaunch]
      exact .inl ⟨⟨hcreate, henter, haccepts, hlaunch⟩, rfl, rfl⟩
  · exact .inr ⟨fault, some ⟨before, false⟩, ⟨true⟩, .handOver hcreate henter hxs hbefore hx,
      rfl, rfl⟩

theorem start_ok_iff (m : Timer.Make) (s : Sweeper × Node) :
    (start m s).1 = .ok () ↔ Succeeds m s.1.schedules := by
  rcases start_cases m s with ⟨hsucceeds, hok, -⟩ | ⟨fault, t, exits, hstops, hfault, -⟩
  · exact iff_of_true hok hsucceeds
  · refine iff_of_false (fun hok => ?_) hstops.not_succeeds
    cases hok.symm.trans hfault

theorem Stops.isSome_timer (h : Stops m xs fault t exits) : t.isSome = m.create.isOk := by
  cases h with
  | create hcreate => rw [hcreate]; rfl
  | enter hcreate => rw [hcreate]; rfl
  | handOver hcreate => rw [hcreate]; rfl
  | launch hcreate => rw [hcreate]; rfl

theorem performAll_frame (runs : List Run) (s : Sweeper × Node) :
    ∃ failing, (Run.performAll runs s).2.1 = { s.1 with failing := failing } := by
  induction runs generalizing s with
  | nil => exact ⟨s.1.failing, rfl⟩
  | cons r runs ih =>
      obtain ⟨failing, hlast⟩ := ih (r.perform s).2
      refine ⟨failing, hlast.trans ?_⟩
      rw [r.perform_eq]
      cases (r.worked s).1 <;> rfl

/-- A start returns exactly if nothing that it asks for is refused, and then the timer was handed
every schedule once, in order, and set off.  A start that fails takes nothing back: the sweeper
counts as running with what was opened by then, and stays so until it is stopped. -/
theorem start_completes_or_stays_open (m : Timer.Make) (s : Sweeper × Node) :
    let started := start m s
    let after := started.2.1
    (started.1 = .ok () ↔ Succeeds m s.1.schedules) ∧
    (started.1 = .ok () → after = s.1.opened (some ⟨s.1.schedules, true⟩) ⟨true⟩) ∧
    (∀ fault, started.1 = .error fault → ∃ t exits, Stops m s.1.schedules fault t exits ∧
      after = s.1.opened t exits ∧ after.isRunning = (m.create.isOk || s.1.isRunning)) ∧
    ∀ runs, let later := (Run.performAll runs started.2).2
      later.1.isRunning = after.isRunning ∧ later.1.exits = after.exits ∧
      (stop later).1 = { later.1 with timer := none, exits := none } := by
  intro started after
  have hcases := start_cases m s
  refine ⟨start_ok_iff m s, fun hok => ?_, fun fault hfault => ?_, fun runs => ?_⟩
  · rcases hcases with ⟨-, -, hafter⟩ | ⟨fault, t, exits, -, hfault, -⟩
    · exact hafter
    · cases hok.symm.trans hfault
  · rcases hcases with ⟨-, hok, -⟩ | ⟨fault', t, exits, hstops, hfault', hafter⟩
    · cases hok.symm.trans hfault
    · cases hfault'.symm.trans hfault
      refine ⟨t, exits, hstops, hafter, ?_⟩
      rw [← hstops.isSome_timer]
      exact (congrArg isRunning hafter).trans Option.isSome_or
  · obtain ⟨failing, hframe⟩ := performAll_frame runs started.2
    intro later
    have hlater : later.1 = { after with failing := failing } := hframe
    exact ⟨by rw [hlater]; rfl, by rw [hlater], rfl⟩

/-- A timer that cannot read one cron expression, as it has one field only. -/
def refusingTimer : Timer.Make where
  create := .ok ()
  enter := .ok ()
  readCron cron := if cron = "daily" then .error (.cronFields 1) else .ok ()
  take _ _ := .ok ()
  launch _ := .ok ()

/-- Of two schedules the second has a malformed cron expression: the start fails at it, but the
sweeper runs from then on, with a timer that keeps the first schedule and is not closed. -/
theorem failed_start_leaves_timer_open :
    let settings : LedgerSettings := { LedgerSettings.standard with
      resubmit := some ⟨"*/5 * * * *", .zero, none⟩
      prune := some ⟨"daily", .zero⟩ }
    let s : Sweeper × Node :=
      (ofSettings settings, Node.start (ModuleSpace.initial []) ⟨Clock.epoch⟩ (.table .empty))
    let started := start refusingTimer s
    s.1.isRunning = false ∧ s.1.exits = none ∧ started.1 = .error (.cronFields 1) ∧
      started.2.1.isRunning = true ∧ started.2.1.exits = some ⟨true⟩ ∧
      (started.2.1.timer.map Timer.jobs) = some ["ledger-resubmit"] := by
  intro settings s started
  exact ⟨rfl, rfl, rfl, rfl, rfl, rfl⟩

end DeliveryLedger.Sweeper
