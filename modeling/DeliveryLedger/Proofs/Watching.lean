import DeliveryLedger.UnitOfWork
import Mathlib.Data.List.Basic
/-!
Units of work, watched from outside.

A journal keeps what was asked of a unit and of its backend, and the callbacks that ran.  The
watched backend is a backend like any other, so it is the unit's own operations that write the
journal; they answer and leave behind what they do without it (`perform_unwatched`).  Each call
is described once: by what it asks of the backend, and by what the journal gains.
-/

namespace DeliveryLedger.UnitOfWork

variable {κ σ : Type}

/-- What can be watched: callbacks given to a unit and taken or not, callbacks that run, and the
requests to the backend, done or refused. -/
inductive Event (κ : Type) where
  | accepted (c : κ)
  | declined (c : κ)
  | ran (c : κ)
  | commit (done : Bool)
  | rollback (done : Bool)
deriving DecidableEq

namespace Event

@[simp] def accepted? : Event κ → Option κ
  | accepted c => some c
  | _ => none

@[simp] def ran? : Event κ → Option κ
  | ran c => some c
  | _ => none

/-- What leaves an open unit open. -/
def IsEarly : Event κ → Prop
  | accepted _ | commit false => True
  | _ => False

/-- What can happen to a finished unit. -/
def IsLate : Event κ → Prop
  | declined _ | commit _ | rollback _ => True
  | _ => False

end Event

/-- The callbacks that a journal says to have run. -/
def runs (past : List (Event κ)) : List κ := past.filterMap Event.ran?

def acceptances (past : List (Event κ)) : List κ := past.filterMap Event.accepted?

/-- What waits after an event, if `cs` waited before it. -/
def Event.leaves [DecidableEq κ] (cs : List κ) : Event κ → List κ
  | accepted c => cs ++ [c]
  | ran c => cs.erase c
  | rollback _ => []
  | declined _ | commit _ => cs

/-- The callbacks accepted so far that have neither run nor been dropped by a rollback. -/
def waiting [DecidableEq κ] (past : List (Event κ)) : List κ := past.foldl Event.leaves []

/-- The backend was committed, or it was asked for a rollback, with success or not. -/
def Ended (past : List (Event κ)) : Prop :=
  .commit true ∈ past ∨ ∃ done, .rollback done ∈ past

/-- The backend with a journal of the requests made to it and of the callbacks that run. -/
def Backend.watched (b : Backend κ σ) : Backend κ (σ × List (Event κ)) :=
  { commit := fun s =>
      ((b.commit s.1).1, ((b.commit s.1).2, s.2 ++ [.commit (b.commit s.1).1.isOk]))
    rollback := fun s =>
      ((b.rollback s.1).1, ((b.rollback s.1).2, s.2 ++ [.rollback (b.rollback s.1).1.isOk]))
    run := fun c s =>
      let (result, (u, t)) := b.run c (s.1, s.2.1)
      (result, (u, (t, s.2.2 ++ [.ran c])))
    failed := fun fault s => (b.failed fault s.1, s.2)
    dropped := fun count s => (b.dropped count s.1, s.2) }

/-- A callback that runs finds its unit finished, and leaves it so. -/
def Backend.KeepsFinished (b : Backend κ σ) : Prop := ∀ c t, (b.run c (closed, t)).2.1 = closed

inductive Request where
  | commit
  | rollback
deriving DecidableEq

inductive Call (κ : Type) where
  | afterCommit (c : κ)
  | commit
  | rollback
  /-- The block around the unit is left, with a fault or without. -/
  | leave (body : Except Fault Unit)

/-- A unit, the state of its backend, and the journal. -/
abbrev Watched (κ σ : Type) : Type := UnitOfWork κ × (σ × List (Event κ))

namespace Call

def make (b : Backend κ σ) (s : UnitOfWork κ × σ) :
    Call κ → Except Fault Unit × (UnitOfWork κ × σ)
  | afterCommit c =>
    match s.1.afterCommit c with
    | .ok u => (.ok (), (u, s.2))
    | .error fault => (.error fault, s)
  | commit => UnitOfWork.commit b s
  | rollback => UnitOfWork.rollback b s
  | leave body => UnitOfWork.leave b body s

/-- What a call that was answered adds to the journal by itself. -/
def mark (answer : Except Fault Unit) : Call κ → List (Event κ)
  | afterCommit c => if answer.isOk then [.accepted c] else [.declined c]
  | commit | rollback | leave _ => []

/-- A call that is watched. -/
def perform (b : Backend κ σ) (s : Watched κ σ) (call : Call κ) :
    Except Fault Unit × Watched κ σ :=
  let (answer, (u, (t, past))) := call.make b.watched s
  (answer, (u, (t, past ++ call.mark answer)))

/-- A row of calls, whatever each of them answers. -/
def play (b : Backend κ σ) (s : Watched κ σ) (calls : List (Call κ)) : Watched κ σ :=
  calls.foldl (fun s call => (call.perform b s).2) s

/-- What a call asks of the backend. -/
def request? (finished : Bool) : Call κ → Option Request
  | afterCommit _ => none
  | commit => some .commit
  | rollback => some .rollback
  | leave body => if finished then none else if body.isOk then some .commit else some .rollback

end Call

/-! ### Watching

The watched backend takes a unit through the same answers and states (`perform_unwatched`), and
the journal gains what a call asked for. -/

variable {b : Backend κ σ} {u : UnitOfWork κ} {t t' : σ} {past : List (Event κ)} {call : Call κ}

@[simp] theorem watched_commit (b : Backend κ σ) (s : σ × List (Event κ)) :
    b.watched.commit s =
      ((b.commit s.1).1, ((b.commit s.1).2, s.2 ++ [.commit (b.commit s.1).1.isOk])) := rfl

@[simp] theorem watched_rollback (b : Backend κ σ) (s : σ × List (Event κ)) :
    b.watched.rollback s =
      ((b.rollback s.1).1, ((b.rollback s.1).2, s.2 ++ [.rollback (b.rollback s.1).1.isOk])) := rfl

@[simp] theorem watched_run (b : Backend κ σ) (c : κ) (s : Watched κ σ) :
    b.watched.run c s = ((b.run c (s.1, s.2.1)).1, ((b.run c (s.1, s.2.1)).2.1,
      ((b.run c (s.1, s.2.1)).2.2, s.2.2 ++ [.ran c]))) := rfl

@[simp] theorem watched_failed (b : Backend κ σ) (fault : Fault) (s : σ × List (Event κ)) :
    b.watched.failed fault s = (b.failed fault s.1, s.2) := rfl

@[simp] theorem watched_dropped (b : Backend κ σ) (count : Nat) (s : σ × List (Event κ)) :
    b.watched.dropped count s = (b.dropped count s.1, s.2) := rfl

theorem runAll_watched (b : Backend κ σ) (cs : List κ) (u : UnitOfWork κ) (t : σ)
    (past : List (Event κ)) :
    runAll b.watched cs (u, (t, past)) =
      ((runAll b cs (u, t)).1, ((runAll b cs (u, t)).2, past ++ cs.map .ran)) := by
  induction cs generalizing u t past with
  | nil => simp [runAll]
  | cons c cs ih =>
      rw [runAll, runAll, watched_run]
      rcases b.run c (u, t) with ⟨_ | _, v, t'⟩
      · simp [ih]
      · simp [ih]

theorem runAll_closed (hb : b.KeepsFinished) (cs : List κ) (t : σ) :
    (runAll b cs (closed, t)).1 = closed := by
  induction cs generalizing t with
  | nil => rfl
  | cons c cs ih =>
      have hclosed := hb c t
      rw [runAll]
      rcases hrun : b.run c (closed, t) with ⟨_ | _, v, t'⟩ <;> rw [hrun] at hclosed <;>
        obtain rfl : v = closed := hclosed
      · exact ih _
      · exact ih _

theorem commit_watched (b : Backend κ σ) (s : Watched κ σ) :
    commit b.watched s =
      let r := commit b (s.1, s.2.1)
      (r.1, (r.2.1, (r.2.2, s.2.2 ++
        .commit r.1.isOk :: if r.1.isOk then s.1.pending.map .ran else []))) := by
  rw [commit, commit, watched_commit]
  rcases b.commit s.2.1 with ⟨_ | _, t'⟩
  · rfl
  · simp [runAll_watched, Except.isOk, Except.toBool]

theorem rollback_watched (b : Backend κ σ) (s : Watched κ σ) :
    rollback b.watched s =
      let r := rollback b (s.1, s.2.1)
      (r.1, (r.2.1, (r.2.2, s.2.2 ++ [.rollback r.1.isOk]))) := by
  rw [rollback, rollback, watched_rollback]
  rcases b.rollback s.2.1 with ⟨_ | _, t'⟩
  · rfl
  · dsimp only
    split <;> rfl

theorem make_of_commit {τ : Type} (b : Backend κ τ) (s : τ)
    (h : call.request? u.finished = some .commit) : call.make b (u, s) = commit b (u, s) := by
  cases call with
  | afterCommit c => simp [Call.request?] at h
  | commit => rfl
  | rollback => simp [Call.request?] at h
  | leave body =>
      cases hfinished : u.finished
      · rcases body with fault | ⟨⟩
        · simp [Call.request?, hfinished, Except.isOk, Except.toBool] at h
        · simp [Call.make, leave, hfinished]
      · simp [Call.request?, hfinished] at h

theorem make_of_rollback {τ : Type} (b : Backend κ τ) (s : τ)
    (h : call.request? u.finished = some .rollback) :
    (call.make b (u, s)).2 = (rollback b (u, s)).2 := by
  cases call with
  | afterCommit c => simp [Call.request?] at h
  | commit => simp [Call.request?] at h
  | rollback => rfl
  | leave body =>
      cases hfinished : u.finished
      · rcases body with fault | ⟨⟩
        · simp only [Call.make, leave, hfinished]
          rcases rollback b (u, s) with ⟨_ | _, v⟩ <;> rfl
        · simp [Call.request?, hfinished, Except.isOk, Except.toBool] at h
      · simp [Call.request?, hfinished] at h

theorem request?_of_returned (hopen : u.finished = false) :
    (Call.leave (.ok ()) : Call κ).request? u.finished = some .commit := by
  rw [hopen]
  rfl

theorem mark_of_request {request : Request} (h : call.request? u.finished = some request)
    (answer : Except Fault Unit) : call.mark answer = [] := by
  cases call with
  | afterCommit c => simp [Call.request?] at h
  | commit => rfl
  | rollback => rfl
  | leave body => rfl

theorem perform_unwatched (b : Backend κ σ) (s : Watched κ σ) (call : Call κ) :
    ((call.perform b s).1, ((call.perform b s).2.1, (call.perform b s).2.2.1)) =
      call.make b (s.1, s.2.1) := by
  cases call with
  | afterCommit c =>
      simp only [Call.perform, Call.make]
      cases s.1.afterCommit c <;> rfl
  | commit => simp only [Call.perform, Call.make, commit_watched]
  | rollback => simp only [Call.perform, Call.make, rollback_watched]
  | leave body =>
      simp only [Call.perform, Call.make, leave, commit_watched, rollback_watched]
      split
      · rfl
      · cases body with
        | ok => rfl
        | error fault => rcases rollback b (s.1, s.2.1) with ⟨_ | _, v⟩ <;> rfl

theorem play_unwatched (b : Backend κ σ) (s : Watched κ σ) (calls : List (Call κ)) :
    ((Call.play b s calls).1, (Call.play b s calls).2.1) =
      calls.foldl (fun s call => (call.make b s).2) (s.1, s.2.1) := by
  induction calls generalizing s with
  | nil => rfl
  | cons call calls ih =>
      rw [List.foldl_cons, ← perform_unwatched]
      exact ih _

/-! ### What one call does -/

theorem perform_of_commit (h : call.request? u.finished = some .commit) :
    call.perform b (u, (t, past)) = commit b.watched (u, (t, past)) := by
  simp only [Call.perform, mark_of_request h, make_of_commit b.watched (t, past) h,
    List.append_nil]

theorem perform_of_refused {fault : Fault} (h : call.request? u.finished = some .commit)
    (hrefused : b.commit t = (.error fault, t')) :
    call.perform b (u, (t, past)) = (.error fault, (u, (t', past ++ [.commit false]))) := by
  rw [perform_of_commit h, commit_watched, commit, hrefused]
  rfl

theorem perform_of_committed (hb : b.KeepsFinished) (past : List (Event κ))
    (h : call.request? u.finished = some .commit) (hdone : b.commit t = (.ok (), t')) :
    ∃ s, call.perform b (u, (t, past)) =
      (.ok (), (closed, (s, past ++ .commit true :: u.pending.map .ran))) := by
  refine ⟨(runAll b u.pending (closed, t')).2, ?_⟩
  rw [perform_of_commit h, commit_watched, commit, hdone]
  dsimp only
  rw [runAll_closed hb]
  rfl

theorem perform_of_rollback (b : Backend κ σ) (t : σ) (past : List (Event κ))
    (h : call.request? u.finished = some .rollback) :
    ∃ done s, (call.perform b (u, (t, past))).2 = (closed, (s, past ++ [.rollback done])) := by
  have hclosed : (rollback b (u, t)).2.1 = closed := by
    rw [rollback]
    rcases b.rollback t with ⟨_ | _, t'⟩ <;> rfl
  refine ⟨(rollback b (u, t)).1.isOk, (rollback b (u, t)).2.2, ?_⟩
  simp only [Call.perform, mark_of_request h, make_of_rollback b.watched (t, past) h,
    rollback_watched, hclosed, List.append_nil]

theorem perform_closed (hb : b.KeepsFinished) (t : σ) (past : List (Event κ)) (call : Call κ) :
    ∃ s added, (call.perform b (closed, (t, past))).2 = (closed, (s, past ++ added)) ∧
      ∀ e ∈ added, e.IsLate := by
  rcases hrequest : call.request? (closed : UnitOfWork κ).finished with _ | ⟨⟨⟩⟩
  · cases call with
    | afterCommit c => exact ⟨t, [.declined c], rfl, by simp [Event.IsLate]⟩
    | commit => simp [Call.request?] at hrequest
    | rollback => simp [Call.request?] at hrequest
    | leave body => exact ⟨t, [], rfl, by simp⟩
  · rcases hcommit : b.commit t with ⟨fault | ⟨⟩, t'⟩
    · exact ⟨t', _, congrArg Prod.snd (perform_of_refused hrequest hcommit),
        by simp [Event.IsLate]⟩
    · obtain ⟨s, hs⟩ := perform_of_committed hb past hrequest hcommit
      exact ⟨s, _, congrArg Prod.snd hs, by simp [Event.IsLate, closed]⟩
  · obtain ⟨done, s, hs⟩ := perform_of_rollback b t past hrequest
    exact ⟨s, _, hs, by simp [Event.IsLate]⟩

theorem play_closed (hb : b.KeepsFinished) (t : σ) (past : List (Event κ))
    (calls : List (Call κ)) :
    ∃ s added, Call.play b (closed, (t, past)) calls = (closed, (s, past ++ added)) ∧
      ∀ e ∈ added, e.IsLate := by
  induction calls generalizing t past with
  | nil => exact ⟨t, [], by simp [Call.play], by simp⟩
  | cons call calls ih =>
      obtain ⟨s₁, added₁, hperform, hlate₁⟩ := perform_closed hb t past call
      obtain ⟨s₂, added₂, hplay, hlate₂⟩ := ih s₁ (past ++ added₁)
      refine ⟨s₂, added₁ ++ added₂, ?_, List.forall_mem_append.mpr ⟨hlate₁, hlate₂⟩⟩
      rw [← List.append_assoc, ← hplay, ← hperform]
      rfl

end DeliveryLedger.UnitOfWork
