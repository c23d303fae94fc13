import DeliveryLedger.Deferral
import DeliveryLedger.Proofs.Outcome
/-!
What becomes of the publications that wait for a unit of work.

A unit of work is taken through any row of steps: publications are left to it, it is committed
or rolled back, the block around it is left, and the node goes on beside it.  The backend may
accept or refuse each request.  Until a step finishes the unit, the publications only wait;
a commit that the backend accepts makes them as if each were made at once (`dispatchAll`),
and a rollback forgets them.
-/

namespace DeliveryLedger

namespace Deferred

/-- Publications made without a unit of work, one after the other.  One that fails is logged, and
the next one is made. -/
def dispatchAll : List Deferred → Node → Node
  | [], p => p
  | d :: ds, p =>
    match (Dispatch.dispatch d.occurrence d.capture).outcome p with
    | (.ok _, q) => dispatchAll ds q
    | (.error fault, q) => dispatchAll ds
        (q.logged [⟨.error, "After-commit callback <callback> failed: " ++ fault.message⟩])

/-- A backend's answer to one request, and all that the request changed in the node. -/
structure Reply where
  answer : Except Fault Unit
  effect : Node → Node

/-- The backend that answers the next request in this way. -/
def Reply.backend (reply : Reply) : UnitOfWork.Backend Deferred Node :=
  Deferred.backend (fun p => (reply.answer, reply.effect p)) fun p => (reply.answer, reply.effect p)

/-- The node after a rollback has forgotten `count` publications. -/
def Reply.forget (reply : Reply) (count : Nat) (p : Node) : Node :=
  match reply.answer with
  | .ok () =>
    if count = 0 then reply.effect p
    else (reply.effect p).logged [⟨.debug, "Rolled back unit of work, dropped " ++
      Decimal.natText count ++ " callbacks"⟩]
  | .error _ => reply.effect p

inductive Step where
  | publish (d : Deferred)
  | commit (reply : Reply)
  | rollback (reply : Reply)
  /-- The block around the unit is left, and its backend asked for what follows from that. -/
  | leave (body : Except Fault Unit) (reply : Reply)
  /-- Something happens in the node that does not concern the unit. -/
  | meanwhile (effect : Node → Node)

namespace Step

def perform (s : UnitOfWork Deferred × Node) : Step → UnitOfWork Deferred × Node
  | publish d => (d.defer s).2
  | commit reply => (UnitOfWork.commit reply.backend s).2
  | rollback reply => (UnitOfWork.rollback reply.backend s).2
  | leave body reply => (UnitOfWork.leave reply.backend body s).2
  | meanwhile effect => (s.1, effect s.2)

def run (s : UnitOfWork Deferred × Node) (steps : List Step) : UnitOfWork Deferred × Node :=
  steps.foldl perform s

/-- What the backend changes by a commit that finishes an open unit. -/
def commits? : Step → Option (Node → Node)
  | commit ⟨.ok (), effect⟩ => some effect
  | leave (.ok ()) ⟨.ok (), effect⟩ => some effect
  | _ => none

/-- The backend's part in a step that rolls an open unit back. -/
def rollsBack? : Step → Option Reply
  | rollback reply => some reply
  | leave (.error _) reply => some reply
  | _ => none

def StaysOpen (s : Step) : Prop := s.commits? = none ∧ s.rollsBack? = none

/-- The publication that a step leaves to an open unit. -/
def publication : Step → List Deferred
  | publish d => [d]
  | commit _ | rollback _ | leave .. | meanwhile _ => []

/-- What a step changes in the node beside the publications.  The block around a finished
unit asks nothing of the backend. -/
def beside (finished : Bool) (p : Node) : Step → Node
  | publish _ => p
  | commit reply | rollback reply => reply.effect p
  | leave _ reply => if finished then p else reply.effect p
  | meanwhile effect => effect p

end Step

variable {p : Node} {waiting : List Deferred}

theorem runAll_backend (reply : Reply) (u : UnitOfWork Deferred) (ds : List Deferred) (p : Node) :
    UnitOfWork.runAll reply.backend ds (u, p) = (u, dispatchAll ds p) := by
  induction ds generalizing p with
  | nil => rfl
  | cons d ds ih =>
      -- The callback of a publication is the direct publication.
      have hrun : reply.backend.run d (u, p) =
          (((Dispatch.dispatch d.occurrence d.capture).outcome p).1.map fun _ => (),
            (u, ((Dispatch.dispatch d.occurrence d.capture).outcome p).2)) := rfl
      rw [UnitOfWork.runAll, dispatchAll, hrun]
      rcases (Dispatch.dispatch d.occurrence d.capture).outcome p with ⟨fault | records, q⟩
      · exact ih (failed fault q)
      · exact ih q

theorem defer_open (d : Deferred) :
    d.defer (⟨waiting, false⟩, p) = (.ok [], (⟨waiting ++ [d], false⟩, p)) := rfl

theorem commit_accepted (effect : Node → Node) :
    UnitOfWork.commit (Reply.backend ⟨.ok (), effect⟩) (⟨waiting, false⟩, p) =
      (.ok (), (UnitOfWork.closed, dispatchAll waiting (effect p))) := by
  change (Except.ok (), UnitOfWork.runAll _ waiting (UnitOfWork.closed, effect p)) = _
  rw [runAll_backend]

theorem rollback_open (reply : Reply) :
    (UnitOfWork.rollback reply.backend (⟨waiting, false⟩, p)).2 =
      (UnitOfWork.closed, reply.forget waiting.length p) := by
  rcases reply with ⟨fault | ⟨⟩, effect⟩
  · rfl
  · change (UnitOfWork.closed, if waiting.length = 0 then effect p else _) = _
    rfl

namespace Step

variable {s : Step}

theorem perform_of_staysOpen (h : s.StaysOpen) :
    s.perform (⟨waiting, false⟩, p) = (⟨waiting ++ s.publication, false⟩, s.beside false p) := by
  obtain ⟨hcommit, hrollback⟩ := h
  cases s with
  | publish d => rfl
  | commit reply =>
      rcases reply with ⟨fault | ⟨⟩, effect⟩
      · rw [publication, List.append_nil]
        rfl
      · simp [commits?] at hcommit
  | rollback reply => simp [rollsBack?] at hrollback
  | leave body reply =>
      rcases body with fault | ⟨⟩
      · simp [rollsBack?] at hrollback
      · rcases reply with ⟨fault | ⟨⟩, effect⟩
        · rw [publication, List.append_nil]
          rfl
        · simp [commits?] at hcommit
  | meanwhile effect =>
      rw [publication, List.append_nil]
      rfl

theorem perform_of_commits {effect : Node → Node} (h : s.commits? = some effect) :
    s.perform (⟨waiting, false⟩, p) = (UnitOfWork.closed, dispatchAll waiting (effect p)) := by
  unfold commits? at h
  split at h
  · obtain rfl := Option.some.inj h
    rw [perform, commit_accepted]
  · obtain rfl := Option.some.inj h
    exact congrArg Prod.snd (commit_accepted _)
  · simp at h

theorem perform_of_rollsBack {reply : Reply} (h : s.rollsBack? = some reply) :
    s.perform (⟨waiting, false⟩, p) = (UnitOfWork.closed, reply.forget waiting.length p) := by
  unfold rollsBack? at h
  split at h
  · obtain rfl := Option.some.inj h
    exact rollback_open _
  · rename_i fault reply'
    obtain rfl := Option.some.inj h
    -- A fault of the backend replaces the fault of the block; the unit is closed in both cases.
    rw [perform, ← rollback_open, UnitOfWork.leave]
    rcases UnitOfWork.rollback reply'.backend (⟨waiting, false⟩, p) with ⟨other | ⟨⟩, t⟩ <;> rfl
  · simp at h

theorem perform_closed (s : Step) (p : Node) :
    s.perform (UnitOfWork.closed, p) = (UnitOfWork.closed, s.beside true p) := by
  cases s with
  | publish d => rfl
  | commit reply => rcases reply with ⟨fault | ⟨⟩, effect⟩ <;> rfl
  | rollback reply => rcases reply with ⟨fault | ⟨⟩, effect⟩ <;> rfl
  | leave body reply => rfl
  | meanwhile effect => rfl

theorem run_closed (steps : List Step) (p : Node) :
    run (UnitOfWork.closed, p) steps =
      (UnitOfWork.closed, steps.foldl (beside true) p) := by
  induction steps generalizing p with
  | nil => rfl
  | cons s steps ih =>
      rw [run, List.foldl_cons, List.foldl_cons, perform_closed]
      exact ih _

theorem run_of_staysOpen {steps : List Step} (h : ∀ s ∈ steps, s.StaysOpen) :
    run (⟨waiting, false⟩, p) steps =
      (⟨waiting ++ steps.flatMap publication, false⟩, steps.foldl (beside false) p) := by
  induction steps generalizing p waiting with
  | nil => simp [run]
  | cons s steps ih =>
      rw [run, List.foldl_cons, perform_of_staysOpen (h s (by simp)), List.foldl_cons,
        List.flatMap_cons, ← List.append_assoc]
      exact ih fun x hx => h x (by simp [hx])

theorem staysOpen_or_exists (steps : List Step) :
    (∀ s ∈ steps, s.StaysOpen) ∨ ∃ before s after, steps = before ++ s :: after ∧
      (∀ x ∈ before, x.StaysOpen) ∧
      ((∃ effect, s.commits? = some effect) ∨ ∃ reply, s.rollsBack? = some reply) := by
  induction steps with
  | nil => simp
  | cons s steps ih =>
      rcases hcommit : s.commits? with _ | effect
      · rcases hrollback : s.rollsBack? with _ | reply
        · rcases ih with hopen | ⟨before, x, after, rfl, hopen, hcloses⟩
          · exact .inl (List.forall_mem_cons.mpr ⟨⟨hcommit, hrollback⟩, hopen⟩)
          · exact .inr ⟨s :: before, x, after, rfl,
              List.forall_mem_cons.mpr ⟨⟨hcommit, hrollback⟩, hopen⟩, hcloses⟩
        · exact .inr ⟨[], s, steps, rfl, by simp, .inr ⟨reply, hrollback⟩⟩
      · exact .inr ⟨[], s, steps, rfl, by simp, .inl ⟨effect, hcommit⟩⟩

theorem run_append (s : UnitOfWork Deferred × Node) (before after : List Step) :
    run s (before ++ after) = run (run s before) after :=
  List.foldl_append

end Step

open Deferred.Step in
/-- A publication left to an open unit answers no records and only joins the waiting ones.  These
wait while the unit stays open, are made as if without it once the backend has committed, and are
never made once the unit is rolled back. -/
theorem deferred_until_commit (steps : List Step) (p : Node) :
    (∀ (d : Deferred) (waiting : List Deferred) (q : Node),
      d.defer (⟨waiting, false⟩, q) = (.ok [], (⟨waiting ++ [d], false⟩, q))) ∧
    ((∀ s ∈ steps, s.StaysOpen) ∧
        run (UnitOfWork.fresh, p) steps =
          (⟨steps.flatMap publication, false⟩, steps.foldl (beside false) p) ∨
      ∃ before s after, steps = before ++ s :: after ∧ (∀ x ∈ before, x.StaysOpen) ∧
        ((∃ effect, s.commits? = some effect ∧
            run (UnitOfWork.fresh, p) steps =
              (UnitOfWork.closed, after.foldl (beside true)
                (dispatchAll (before.flatMap publication)
                  (effect (before.foldl (beside false) p))))) ∨
          ∃ reply, s.rollsBack? = some reply ∧
            run (UnitOfWork.fresh, p) steps =
              (UnitOfWork.closed, after.foldl (beside true)
                (reply.forget (before.flatMap publication).length
                  (before.foldl (beside false) p))))) := by
  refine ⟨fun d waiting q => defer_open d, ?_⟩
  rcases staysOpen_or_exists steps with hopen | ⟨before, s, after, rfl, hopen, hcloses⟩
  · exact .inl ⟨hopen, run_of_staysOpen hopen⟩
  · refine .inr ⟨before, s, after, rfl, hopen, ?_⟩
    have hbefore : run (UnitOfWork.fresh, p) before =
        (⟨before.flatMap publication, false⟩, before.foldl (beside false) p) :=
      run_of_staysOpen hopen
    -- The unit is closed by `s`, so what follows can neither commit nor roll back again.
    have hrun : run (UnitOfWork.fresh, p) (before ++ s :: after) =
        run (s.perform (⟨before.flatMap publication, false⟩, before.foldl (beside false) p))
          after := by
      rw [run_append, hbefore]
      rfl
    rcases hcloses with ⟨effect, hcommit⟩ | ⟨reply, hrollback⟩
    · refine .inl ⟨effect, hcommit, ?_⟩
      rw [hrun, perform_of_commits hcommit, run_closed]
    · refine .inr ⟨reply, hrollback, ?_⟩
      rw [hrun, perform_of_rollsBack hrollback, run_closed]

end Deferred

end DeliveryLedger
