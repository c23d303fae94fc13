import DeliveryLedger.Deferral
import DeliveryLedger.UnitOfWork.Trial
import DeliveryLedger.Proofs.Watching
/-!
The life of a unit of work.

After any calls a unit is open, or it was committed once, or rolled back once (`Life`); one call
leads from such a life to such a life (`Life.perform`), and a row of calls too (`Life.play`).  Only
the one commit that finishes an open unit runs callbacks: those accepted until then, in their
order.  A block around a unit finishes it, but for the end at which the commit is refused.
-/

namespace DeliveryLedger.UnitOfWork

variable {κ σ : Type} {b : Backend κ σ} {u : UnitOfWork κ} {t t' : σ} {past : List (Event κ)}
  {call : Call κ}

/-! ### Journals -/

@[simp] theorem runs_cons (e : Event κ) (past : List (Event κ)) :
    runs (e :: past) = e.ran?.toList ++ runs past := by
  cases e <;> rfl

@[simp] theorem acceptances_cons (e : Event κ) (past : List (Event κ)) :
    acceptances (e :: past) = e.accepted?.toList ++ acceptances past := by
  cases e <;> rfl

@[simp] theorem acceptances_nil : acceptances ([] : List (Event κ)) = [] := rfl

@[simp] theorem runs_append (xs ys : List (Event κ)) : runs (xs ++ ys) = runs xs ++ runs ys :=
  List.filterMap_append

@[simp] theorem acceptances_append (xs ys : List (Event κ)) :
    acceptances (xs ++ ys) = acceptances xs ++ acceptances ys :=
  List.filterMap_append

@[simp] theorem runs_map_ran (cs : List κ) : runs (cs.map .ran) = cs := by
  induction cs with
  | nil => rfl
  | cons c cs ih => exact congrArg (c :: ·) ih

theorem runs_eq_nil (h : ∀ e ∈ past, e.IsEarly ∨ e.IsLate) : runs past = [] := by
  refine List.filterMap_eq_nil_iff.mpr fun e he => ?_
  cases e with
  | ran c => exact (h _ he).elim False.elim False.elim
  | _ => rfl

theorem runs_of_early (h : ∀ e ∈ past, e.IsEarly) : runs past = [] :=
  runs_eq_nil fun e he => .inl (h e he)

theorem runs_of_late (h : ∀ e ∈ past, e.IsLate) : runs past = [] :=
  runs_eq_nil fun e he => .inr (h e he)

theorem not_ended_of_early (h : ∀ e ∈ past, e.IsEarly) : ¬ Ended past := by
  rintro (hcommit | ⟨done, hrollback⟩)
  · exact h _ hcommit
  · exact h _ hrollback

section Waiting

variable [DecidableEq κ]

theorem leaves_early (h : ∀ e ∈ past, e.IsEarly) (cs : List κ) :
    past.foldl Event.leaves cs = cs ++ acceptances past := by
  induction past generalizing cs with
  | nil => simp [acceptances]
  | cons e past ih =>
      obtain ⟨he, hpast⟩ := List.forall_mem_cons.mp h
      cases e with
      | accepted c => simp [Event.leaves, ih hpast]
      | commit done =>
          cases done with
          | true => exact he.elim
          | false => simp [Event.leaves, ih hpast]
      | declined c => exact he.elim
      | ran c => exact he.elim
      | rollback done => exact he.elim

theorem leaves_map_ran (cs : List κ) : (cs.map Event.ran).foldl Event.leaves cs = [] := by
  induction cs with
  | nil => rfl
  | cons c cs ih => simpa [Event.leaves] using ih

theorem leaves_late (h : ∀ e ∈ past, e.IsLate) : past.foldl Event.leaves ([] : List κ) = [] := by
  induction past with
  | nil => rfl
  | cons e past ih =>
      obtain ⟨he, hpast⟩ := List.forall_mem_cons.mp h
      cases e with
      | accepted c => exact he.elim
      | ran c => exact he.elim
      | _ => exact ih hpast

end Waiting

/-! ### The life of a unit -/

/-- A unit together with its journal: it is open and its callbacks wait, or a commit ran them
and nothing was accepted since, or a rollback came before any commit. -/
inductive Life : UnitOfWork κ → List (Event κ) → Prop
  | isOpen {past : List (Event κ)} (hearly : ∀ e ∈ past, e.IsEarly) :
      Life ⟨acceptances past, false⟩ past
  | committed {before after : List (Event κ)} (hearly : ∀ e ∈ before, e.IsEarly)
      (hlate : ∀ e ∈ after, e.IsLate) :
      Life closed (before ++ .commit true :: ((acceptances before).map .ran ++ after))
  | rolledBack {before after : List (Event κ)} (done : Bool) (hearly : ∀ e ∈ before, e.IsEarly)
      (hlate : ∀ e ∈ after, e.IsLate) :
      Life closed (before ++ .rollback done :: after)

namespace Life

theorem pending_eq [DecidableEq κ] (h : Life u past) : u.pending = waiting past := by
  cases h with
  | isOpen hearly => simp [waiting, leaves_early hearly]
  | committed hearly hlate =>
      simp [waiting, leaves_early hearly, Event.leaves, leaves_map_ran, leaves_late hlate, closed]
  | rolledBack done hearly hlate =>
      simp [waiting, leaves_early hearly, Event.leaves, leaves_late hlate, closed]

theorem finished_iff (h : Life u past) : u.finished = true ↔ Ended past := by
  cases h with
  | isOpen hearly => simpa using not_ended_of_early hearly
  | committed => simp [closed, Ended]
  | rolledBack done =>
      refine iff_of_true rfl (.inr ⟨done, ?_⟩)
      simp

theorem eq_closed (h : Life u past) (hfinished : u.finished = true) : u = closed := by
  cases h with
  | isOpen => simp at hfinished
  | committed => rfl
  | rolledBack => rfl

theorem runs_of_committed {before after : List (Event κ)} (hearly : ∀ e ∈ before, e.IsEarly)
    (hlate : ∀ e ∈ after, e.IsLate) :
    runs (before ++ .commit true :: ((acceptances before).map .ran ++ after)) =
      acceptances before := by
  simp [runs_of_early hearly, runs_of_late hlate]

theorem runs_of_rolledBack {before after : List (Event κ)} (done : Bool)
    (hearly : ∀ e ∈ before, e.IsEarly) (hlate : ∀ e ∈ after, e.IsLate) :
    runs (before ++ .rollback done :: after) = [] := by
  simp [runs_of_early hearly, runs_of_late hlate]

theorem sublist (h : Life u past) : (runs past).Sublist (acceptances past) := by
  cases h with
  | isOpen hearly => simp [runs_of_early hearly]
  | committed hearly hlate => simp [runs_of_committed hearly hlate]
  | rolledBack done hearly hlate => simp [runs_of_rolledBack done hearly hlate]

theorem append_late {added : List (Event κ)} (h : Life u past) (hu : u = closed)
    (hadded : ∀ e ∈ added, e.IsLate) : Life closed (past ++ added) := by
  cases h with
  | isOpen => simp [closed] at hu
  | committed hearly hlate =>
      simpa using committed hearly (List.forall_mem_append.mpr ⟨hlate, hadded⟩)
  | rolledBack done hearly hlate =>
      simpa using rolledBack done hearly (List.forall_mem_append.mpr ⟨hlate, hadded⟩)

theorem open_or_closed (h : Life u past) :
    (u = ⟨acceptances past, false⟩ ∧ ∀ e ∈ past, e.IsEarly) ∨ u = closed := by
  cases h with
  | isOpen hearly => exact .inl ⟨rfl, hearly⟩
  | committed => exact .inr rfl
  | rolledBack => exact .inr rfl

theorem isOpen_append {e : Event κ} (hearly : ∀ e ∈ past, e.IsEarly) (he : e.IsEarly) :
    Life ⟨acceptances past ++ e.accepted?.toList, false⟩ (past ++ [e]) := by
  have hlife : Life ⟨acceptances (past ++ [e]), false⟩ (past ++ [e]) :=
    isOpen (List.forall_mem_append.mpr ⟨hearly, List.forall_mem_singleton.mpr he⟩)
  rwa [acceptances_append, acceptances_cons, acceptances_nil, List.append_nil] at hlife

theorem perform_open (hb : b.KeepsFinished) (t : σ) (hearly : ∀ e ∈ past, e.IsEarly)
    (call : Call κ) :
    Life (call.perform b (⟨acceptances past, false⟩, (t, past))).2.1
      (call.perform b (⟨acceptances past, false⟩, (t, past))).2.2.2 := by
  generalize hu : (⟨acceptances past, false⟩ : UnitOfWork κ) = u
  have hopen : u.finished = false := hu ▸ rfl
  rcases hrequest : call.request? u.finished with _ | ⟨⟨⟩⟩
  · cases call with
    | afterCommit c =>
        subst hu
        exact isOpen_append hearly (e := .accepted c) trivial
    | commit => simp [Call.request?] at hrequest
    | rollback => simp [Call.request?] at hrequest
    | leave body =>
        rw [Call.request?, hopen] at hrequest
        rcases body with _ | _ <;> simp [Except.isOk, Except.toBool] at hrequest
  · rcases hcommit : b.commit t with ⟨fault | ⟨⟩, t'⟩
    · rw [perform_of_refused hrequest hcommit, ← hu]
      simpa using isOpen_append hearly (e := .commit false) trivial
    · obtain ⟨t'', hperform⟩ := perform_of_committed hb past hrequest hcommit
      rw [hperform, ← hu]
      have hlife := committed hearly (List.forall_mem_nil Event.IsLate)
      rwa [List.append_nil] at hlife
  · obtain ⟨done, t', hperform⟩ := perform_of_rollback b t past hrequest
    rw [hperform]
    exact rolledBack done hearly (by simp)

/-- One call leads from a life to a life. -/
theorem perform (hb : b.KeepsFinished) (h : Life u past) (t : σ) (call : Call κ) :
    Life (call.perform b (u, (t, past))).2.1 (call.perform b (u, (t, past))).2.2.2 := by
  rcases h.open_or_closed with ⟨rfl, hearly⟩ | rfl
  · exact perform_open hb t hearly call
  · obtain ⟨t', added, hperform, hlate⟩ := perform_closed hb t past call
    rw [hperform]
    exact h.append_late rfl hlate

theorem play (hb : b.KeepsFinished) (h : Life u past) (t : σ) (calls : List (Call κ)) :
    Life (Call.play b (u, (t, past)) calls).1 (Call.play b (u, (t, past)) calls).2.2 := by
  induction calls generalizing u t past with
  | nil => exact h
  | cons call calls ih => exact ih (h.perform hb t call) _

end Life

theorem life_play (hb : b.KeepsFinished) (t : σ) (calls : List (Call κ)) :
    Life (Call.play b (fresh, (t, [])) calls).1 (Call.play b (fresh, (t, [])) calls).2.2 :=
  Life.play hb (.isOpen (List.forall_mem_nil _)) t calls

theorem runs_play_closed (hb : b.KeepsFinished) (t : σ) (past : List (Event κ))
    (later : List (Call κ)) :
    runs (Call.play b (closed, (t, past)) later).2.2 = runs past := by
  obtain ⟨t', added, hplay, hlate⟩ := play_closed hb t past later
  rw [hplay, runs_append, runs_of_late hlate, List.append_nil]

theorem Trial.keepsFinished_full (refusals : Trial.Refusals) :
    (Trial.full refusals).KeepsFinished := by
  intro c j
  change (Trial.react refusals c (closed, j)).2.1 = closed
  rw [Trial.react]
  cases c.effect with
  | nothing => rfl
  | register => rfl
  | commit =>
      dsimp only [commit]
      rcases (Trial.bare refusals).commit (j.note c.name) with ⟨_ | _, j'⟩ <;> rfl
  | rollback =>
      dsimp only [rollback]
      rcases (Trial.bare refusals).rollback (j.note c.name) with ⟨_ | _, j'⟩ <;> rfl
  | fail => rfl

theorem keepsFinished_deferred (commit rollback : Node → Except Fault Unit × Node) :
    (Deferred.backend commit rollback).KeepsFinished := fun _ _ => rfl

/-- After any calls to a fresh unit, what has run was accepted, and ran in that order and no more
often; what is pending was accepted and has neither run nor been dropped.  A commit that the
backend does runs all that waits, whether or not some of it fails; a rollback drops it. -/
theorem commit_hooks [DecidableEq κ] (b : Backend κ σ) (hb : b.KeepsFinished) (t : σ)
    (calls : List (Call κ)) :
    let now := Call.play b (fresh, (t, [])) calls
    let past := now.2.2
    (now.1, now.2.1) = calls.foldl (fun s call => (call.make b s).2) (fresh, t) ∧
    (runs past).Sublist (acceptances past) ∧
    now.1.pending = waiting past ∧
    (Ended past → ∀ c, now.1.afterCommit c = .error .finishedUnit) ∧
    (¬ Ended past → ∀ c, now.1.afterCommit c = .ok ⟨waiting past ++ [c], false⟩) ∧
    (∀ call : Call κ, call.request? now.1.finished = some .commit → ∀ t',
      b.commit now.2.1 = (.ok (), t') → ∃ s, call.perform b now =
        (.ok (), (closed, (s, past ++ .commit true :: (waiting past).map .ran)))) ∧
    (∀ call : Call κ, call.request? now.1.finished = some .commit → ∀ fault t',
      b.commit now.2.1 = (.error fault, t') →
        call.perform b now = (.error fault, (now.1, (t', past ++ [.commit false])))) ∧
    ∀ call : Call κ, call.request? now.1.finished = some .rollback → ∃ done s,
      (call.perform b now).2 = (closed, (s, past ++ [.rollback done])) ∧
      ∀ later, runs (Call.play b (call.perform b now).2 later).2.2 = runs past := by
  intro now past
  have hlife : Life now.1 past := life_play hb t calls
  refine ⟨play_unwatched b _ calls, hlife.sublist, hlife.pending_eq, fun hended c => ?_,
    fun hopen c => ?_, fun call hcall t' hdone => ?_, fun call hcall fault t' hrefused => ?_,
    fun call hcall => ?_⟩
  · rw [afterCommit, if_pos (hlife.finished_iff.mpr hended)]
  · have hunfinished : now.1.finished = false :=
      Bool.eq_false_iff.mpr fun hfinished => hopen (hlife.finished_iff.mp hfinished)
    rw [afterCommit, hunfinished, hlife.pending_eq]
    rfl
  · rw [← hlife.pending_eq]
    exact perform_of_committed hb past hcall hdone
  · exact perform_of_refused hcall hrefused
  · obtain ⟨done, s, hperform⟩ := perform_of_rollback b now.2.1 past hcall
    refine ⟨done, s, hperform, fun later => ?_⟩
    have hnext : (call.perform b now).2 = (closed, (s, past ++ [.rollback done])) := hperform
    rw [hnext, runs_play_closed hb]
    simp [runs]

/-- The backend refuses the first commit and does the second, and one of three callbacks fails. -/
theorem commit_hooks_retried :
    let b := Trial.full ⟨(· == 0), fun _ => false⟩
    let a : Trial.Callback := ⟨"a", .nothing⟩
    let c : Trial.Callback := ⟨"c", .fail⟩
    let d : Trial.Callback := ⟨"d", .commit⟩
    let now := Call.play b (fresh, (.empty, [])) [.afterCommit a, .commit, .afterCommit c,
      .afterCommit d]
    b.KeepsFinished ∧ now.2.2 = [.accepted a, .commit false, .accepted c, .accepted d] ∧
    now.1.pending = [a, c, d] ∧
    ∃ s, Call.commit.perform b now =
      (.ok (), (closed, (s, now.2.2 ++ [.commit true, .ran a, .ran c, .ran d]))) := by
  intro b a c d now
  have hb : b.KeepsFinished := Trial.keepsFinished_full _
  obtain ⟨-, -, hpending, -, -, hdone, -⟩ := commit_hooks b hb .empty [.afterCommit a, .commit,
    .afterCommit c, .afterCommit d]
  have hwaiting : waiting now.2.2 = [a, c, d] := by decide
  refine ⟨hb, by decide, hpending.trans hwaiting, ?_⟩
  have hcommit := hdone .commit rfl _ rfl
  rwa [hwaiting] at hcommit

/-! ### The block around a unit -/

/-- Nothing is left open: no callback waits and none is accepted, and either a commit was done
and exactly the callbacks accepted before it ran, or a rollback was requested and none ever runs. -/
structure Settled (b : Backend κ σ) (s : Watched κ σ) : Prop where
  pending : s.1.pending = []
  finished : ∀ c, s.1.afterCommit c = .error .finishedUnit
  fate : (∃ before after, s.2.2 = before ++ .commit true :: after ∧
      runs s.2.2 = acceptances before) ∨
    (∃ done, .rollback done ∈ s.2.2) ∧ ∀ later, runs (Call.play b s later).2.2 = []

theorem Life.settled (hb : b.KeepsFinished) (h : Life u past) (hu : u = closed) (t : σ) :
    Settled b (u, (t, past)) := by
  have hfate : (∃ before after, past = before ++ .commit true :: after ∧
      runs past = acceptances before) ∨ (∃ done, .rollback done ∈ past) ∧ runs past = [] := by
    cases h with
    | isOpen => simp [closed] at hu
    | committed hearly hlate => exact .inl ⟨_, _, rfl, runs_of_committed hearly hlate⟩
    | rolledBack done hearly hlate =>
        exact .inr ⟨⟨done, by simp⟩, runs_of_rolledBack done hearly hlate⟩
  subst hu
  refine ⟨rfl, fun c => rfl, hfate.imp_right fun hrollback => ⟨hrollback.1, fun later => ?_⟩⟩
  rw [runs_play_closed hb, hrollback.2]

theorem closed_of_leave (hb : b.KeepsFinished) (h : Life u past) {body : Except Fault Unit}
    (hrefused : ¬ (u.finished = false ∧ body = .ok () ∧ (b.commit t).1.isOk = false)) :
    ((Call.leave body).perform b (u, (t, past))).2.1 = closed := by
  cases hfinished : u.finished with
  | true =>
      obtain rfl := h.eq_closed hfinished
      rfl
  | false =>
      rcases body with fault | ⟨⟩
      · have hrequest : (Call.leave (.error fault) : Call κ).request? u.finished =
            some .rollback := by
          rw [hfinished]
          rfl
        obtain ⟨done, t', hperform⟩ := perform_of_rollback b t past hrequest
        rw [hperform]
      · rcases hanswer : b.commit t with ⟨fault | ⟨⟩, t'⟩
        · exact (hrefused ⟨hfinished, rfl, by rw [hanswer]; rfl⟩).elim
        · obtain ⟨s, hperform⟩ :=
            perform_of_committed hb past (request?_of_returned hfinished) hanswer
          rw [hperform]

theorem leave_of_refused (hopen : u.finished = false) (hrefused : (b.commit t).1.isOk = false) :
    (Call.leave (.ok ())).perform b (u, (t, past)) =
      ((b.commit t).1, (u, ((b.commit t).2, past ++ [.commit false]))) := by
  rcases hanswer : b.commit t with ⟨fault | ⟨⟩, t'⟩
  · exact perform_of_refused (request?_of_returned hopen) hanswer
  · rw [hanswer] at hrefused
    exact Bool.noConfusion hrefused

/-- A block around a fresh unit leaves it settled, unless the block ends well with the unit open
and the backend refuses the commit at its end.  Then the fault goes on, but the unit stays open
with all its callbacks, and nothing asks the backend for a rollback. -/
theorem settled_after_block (b : Backend κ σ) (hb : b.KeepsFinished) (t : σ)
    (calls : List (Call κ)) (body : Except Fault Unit) :
    let inside := Call.play b (fresh, (t, [])) calls
    let left := (Call.leave body).perform b inside
    let refused := inside.1.finished = false ∧ body = .ok () ∧ (b.commit inside.2.1).1.isOk = false
    (Settled b left.2 ↔ ¬ refused) ∧
    (refused → left = ((b.commit inside.2.1).1,
      (inside.1, ((b.commit inside.2.1).2, inside.2.2 ++ [.commit false])))) := by
  intro inside left refused
  have hlife : Life inside.1 inside.2.2 := life_play hb t calls
  have hleft : Life left.2.1 left.2.2.2 := hlife.perform hb inside.2.1 (.leave body)
  have hrefused : refused → left = ((b.commit inside.2.1).1,
      (inside.1, ((b.commit inside.2.1).2, inside.2.2 ++ [.commit false]))) := by
    rintro ⟨hopen, rfl, hcommit⟩
    exact leave_of_refused hopen hcommit
  refine ⟨⟨fun hsettled h => ?_, fun h => ?_⟩, hrefused⟩
  · -- The journal of an open unit names neither a commit that was done nor a rollback.
    have hopen : ¬ Ended left.2.2.2 := by
      rw [← hleft.finished_iff, hrefused h, h.1]
      exact Bool.false_ne_true
    rcases hsettled.fate with ⟨before, after, hpast, -⟩ | ⟨hrollback, -⟩
    · exact hopen (.inl (by rw [hpast]; simp))
    · exact hopen (.inr hrollback)
  · exact hleft.settled hb (closed_of_leave hb hlife h) _

/-- The block fails after a refused commit of its own: the rollback settles the unit. -/
theorem settled_after_block_failing :
    let b := Trial.full ⟨fun _ => true, fun _ => true⟩
    let calls : List (Call Trial.Callback) := [.afterCommit ⟨"a", .nothing⟩, .commit]
    let inside := Call.play b (fresh, (.empty, [])) calls
    b.KeepsFinished ∧ inside.1.pending = [⟨"a", .nothing⟩] ∧
      Settled b ((Call.leave (.error (.foreign .value "body failed"))).perform b inside).2 := by
  intro b calls inside
  have hb : b.KeepsFinished := Trial.keepsFinished_full _
  have hiff := (settled_after_block b hb .empty calls (.error (.foreign .value "body failed"))).1
  exact ⟨hb, by decide, hiff.mpr fun hrefused => nomatch hrefused.2.1⟩

/-- A block accepts a callback and ends well, but the commit at its end is refused: the callback
still waits, others are accepted, no rollback was requested, and a later commit runs it. -/
theorem block_leaves_unit_open :
    let b := Trial.full ⟨(· == 0), fun _ => false⟩
    let a : Trial.Callback := ⟨"a", .nothing⟩
    let inside := Call.play b (fresh, (.empty, [])) [.afterCommit a]
    let left := ((Call.leave (.ok ())).perform b inside).2
    b.KeepsFinished ∧ ¬ Settled b left ∧ left.1.pending = [a] ∧
      left.1.afterCommit a = .ok ⟨[a, a], false⟩ ∧ left.2.2 = [.accepted a, .commit false] ∧
      runs (Call.play b left [.commit]).2.2 = [a] := by
  intro b a inside left
  have hpending : left.1.pending = [a] := by decide
  refine ⟨Trial.keepsFinished_full _, fun hsettled => ?_, hpending, rfl, by decide, by decide⟩
  rw [hsettled.pending] at hpending
  exact List.cons_ne_nil _ _ hpending.symm

end DeliveryLedger.UnitOfWork
