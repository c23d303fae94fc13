import DeliveryLedger.Sweeper
import DeliveryLedger.Proofs.Invocation
/-!
Acts that raise no alarm.

Whatever a node does by itself, it only adds to its log, and never a line of the highest level:
`Quiet` passes through sequences of acts, and all that a schedule can run is quiet.
-/

namespace DeliveryLedger

variable {α β : Type} {p q : Node}

/-- The log has grown, by lines none of which is an alarm. -/
def Node.LogsOn (p q : Node) : Prop :=
  ∃ lines, q.log = p.log ++ lines ∧ ∀ l ∈ lines, l.level ≠ .critical

theorem Node.LogsOn.of_eq (h : q.log = p.log) : p.LogsOn q :=
  ⟨[], by rw [h, List.append_nil], List.forall_mem_nil _⟩

theorem Node.LogsOn.trans {z : Node} (h : p.LogsOn q) (k : q.LogsOn z) : p.LogsOn z := by
  obtain ⟨lines, hq, hlines⟩ := h
  obtain ⟨more, hz, hmore⟩ := k
  refine ⟨lines ++ more, ?_, List.forall_mem_append.mpr ⟨hlines, hmore⟩⟩
  rw [hz, hq, List.append_assoc]

namespace Act

/-- An act that, done in `p`, adds only lines that are no alarms. -/
def QuietAt (p : Node) (act : Act α) : Prop := p.LogsOn (outcome act p).2

def Quiet (act : Act α) : Prop := ∀ p, QuietAt p act

theorem QuietAt.bind {x : Act α} {f : α → Act β} (hx : QuietAt p x)
    (hf : ∀ a q, outcome x p = (.ok a, q) → QuietAt q (f a)) : QuietAt p (x >>= f) := by
  rcases hfirst : outcome x p with ⟨fault | a, q⟩
  · have hlast : outcome (x >>= f) p = (.error fault, q) := by
      rw [outcome_bind, hfirst]
    rw [QuietAt, hfirst] at hx
    rwa [QuietAt, hlast]
  · rw [QuietAt, outcome_bind_of_ok hfirst]
    rw [QuietAt, hfirst] at hx
    exact hx.trans (hf a q hfirst)

theorem Quiet.bind {x : Act α} {f : α → Act β} (hx : Quiet x) (hf : ∀ a, Quiet (f a)) :
    Quiet (x >>= f) :=
  fun p => (hx p).bind fun a q _ => hf a q

theorem quiet_get_bind {f : Node → Act α} (hf : ∀ p, QuietAt p (f p)) : Quiet (get >>= f) :=
  fun p => hf p

theorem quietAt_set_bind {f : PUnit → Act α} (hq : q.log = p.log) (hf : Quiet (f ⟨⟩)) :
    QuietAt p (set q >>= f) :=
  QuietAt.bind (Node.LogsOn.of_eq hq) fun _ z _ => hf z

theorem quiet_pure (a : α) : Quiet (pure a : Act α) := fun _ => .of_eq rfl

theorem quiet_throw (fault : Fault) : Quiet (throw fault : Act α) := fun _ => .of_eq rfl

theorem quiet_lift (r : Except Fault α) : Quiet (lift r) := fun _ => .of_eq rfl

theorem Quiet.attempt {act : Act α} (h : Quiet act) : Quiet (Act.attempt act) := fun p => h p

theorem quiet_logged {level : Level} (h : level ≠ .critical) (text : String) :
    Quiet (logged level text) := fun _ =>
  ⟨[⟨level, text⟩], rfl, List.forall_mem_singleton.mpr h⟩

theorem quiet_logged_pure {level : Level} (h : level ≠ .critical) (text : String) (a : α) :
    Quiet (do logged level text; pure a) :=
  (quiet_logged h text).bind fun _ => quiet_pure a

end Act

open Act

/-! ### Operations on the store -/

namespace Ledger

theorem quiet_passOutages (method : StoreMethod) (handlers : List String) :
    Quiet (passOutages method handlers) := by
  unfold passOutages
  refine quiet_get_bind fun p => ?_
  split
  · exact quiet_pure _ p
  · refine quietAt_set_bind rfl ?_
    split
    · exact quiet_throw _
    · exact quiet_pure _

theorem quiet_connect : Quiet connect := by
  unfold connect
  refine quiet_get_bind fun p => ?_
  split
  · exact quietAt_set_bind rfl (quiet_pure _)
  · exact quiet_pure _ p

theorem quiet_connectOr (fault : String → Fault) : Quiet (connectOr fault) := by
  unfold connectOr
  refine quiet_connect.bind fun message => ?_
  cases message with
  | none => exact quiet_pure _
  | some message => exact quiet_throw _

theorem quiet_handlerOf (id : RecordId) : Quiet (handlerOf id) :=
  quiet_get_bind fun p => quiet_pure _ p

theorem quiet_findIncomplete : Quiet findIncomplete := by
  refine (quiet_passOutages _ _).bind fun _ => (quiet_connectOr _).bind fun _ => ?_
  refine quiet_get_bind fun p => ?_
  split
  · exact quiet_lift _ p
  · exact quiet_pure _ p

theorem quiet_findIncompleteOlderThan (age : Duration) : Quiet (findIncompleteOlderThan age) := by
  refine (quiet_passOutages _ _).bind fun _ => quiet_get_bind fun p => ?_
  refine ((quiet_lift _).bind fun cutoff => (quiet_connectOr _).bind fun _ => ?_) p
  refine quiet_get_bind fun q => ?_
  split
  · exact quiet_lift _ q
  · exact quiet_pure _ q

theorem quiet_completionLog (id : RecordId) (how : Completion) : Quiet (completionLog id how) := by
  cases how <;> exact quiet_logged (by decide) _

theorem quiet_complete (id : RecordId) : Quiet (complete id) := by
  have hreport : ∀ how : Completion, Quiet (do completionLog id how; pure how.won) :=
    fun how => (quiet_completionLog id how).bind fun _ => quiet_pure _
  unfold complete
  refine (quiet_handlerOf id).bind fun _ => (quiet_passOutages _ _).bind fun _ => ?_
  refine quiet_get_bind fun p => ((quiet_connectOr _).bind fun _ => ?_) p
  refine quiet_get_bind fun q => ?_
  dsimp only
  split
  · exact quietAt_set_bind rfl ((quiet_pure _).bind hreport)
  · exact quietAt_set_bind rfl ((quiet_pure _).bind hreport)

theorem quiet_deleteCompletedOlderThan (age : Duration) :
    Quiet (deleteCompletedOlderThan age) := by
  unfold deleteCompletedOlderThan
  refine (quiet_passOutages _ _).bind fun _ => quiet_get_bind fun p => ?_
  refine ((quiet_lift _).bind fun cutoff => (quiet_connectOr _).bind fun _ => ?_) p
  refine quiet_get_bind fun q => ?_
  split
  · refine (quiet_lift _ q).bind fun deleted m hdeleted => ?_
    obtain ⟨-, rfl⟩ := Prod.mk.inj hdeleted
    exact quietAt_set_bind rfl (quiet_pure _)
  · exact quietAt_set_bind rfl (quiet_pure _)

theorem quiet_prune (age : Duration) : Quiet (prune age) := by
  unfold prune
  refine (quiet_deleteCompletedOlderThan age).bind fun count => ?_
  split
  · exact quiet_pure _
  · exact (quiet_logged (by decide) _).bind fun _ => quiet_pure _

end Ledger

/-! ### Sweeps -/

theorem Dispatch.quiet_invoke (h : HandlerDescriptor) (o : Occurrence) : Quiet (invoke h o) := by
  have hannounce : Quiet (announce h o) := by
    unfold announce
    split
    · exact quiet_throw _
    · exact fun p => QuietAt.bind (.of_eq rfl) fun _ q _ => quiet_pure _ q
  refine hannounce.bind fun body p => ?_
  rcases hreact : outcome (react body) p with ⟨r, q⟩
  obtain ⟨clock, reacted, -, rfl⟩ := react_frame hreact
  rw [QuietAt, hreact]
  exact .of_eq rfl

namespace Resubmission

theorem quiet_skip (r : PublicationRecord) (why : String) : Quiet (skip r why) :=
  quiet_logged_pure (by decide) _ _

theorem quiet_confirm (r : PublicationRecord) : Quiet (confirm r) := by
  unfold confirm
  refine (Ledger.quiet_complete r.id).attempt.bind fun result => ?_
  cases result with
  | error fault => exact quiet_logged_pure (by decide) _ _
  | ok won => exact quiet_logged_pure (by decide) _ _

theorem quiet_replay (r : PublicationRecord) : Quiet (replay r) := by
  unfold replay
  refine Quiet.bind (quiet_get_bind fun p => quietAt_set_bind rfl (quiet_pure _)) fun rebuilt => ?_
  cases rebuilt with
  | error fault =>
      dsimp only
      split
      · exact quiet_skip r _
      · exact quiet_throw _
  | ok o =>
      refine quiet_get_bind fun p => ?_
      split
      · exact quiet_skip r _ p
      · refine ((Dispatch.quiet_invoke _ o).attempt.bind fun result => ?_) p
        cases result with
        | error fault => exact quiet_logged_pure (by decide) _ _
        | ok _ => exact quiet_confirm r

theorem quiet_replayFrom (predicate : Predicate) (report : Report)
    (records : List PublicationRecord) : Quiet (replayFrom predicate report records) := by
  induction records generalizing report with
  | nil => exact quiet_pure _
  | cons r rest ih =>
      refine (quiet_lift _).bind fun selected => ?_
      cases selected with
      | true => exact (quiet_replay r).bind fun outcome => ih _
      | false => exact ih report

theorem quiet_replayAll (records : List PublicationRecord) (predicate : Predicate) :
    Quiet (replayAll records predicate) := by
  unfold replayAll
  refine (quiet_replayFrom predicate _ records).bind fun report => ?_
  split
  · exact quiet_pure _
  · exact (quiet_logged (by decide) _).bind fun _ => quiet_pure _

theorem quiet_scheduled (seconds : Json) (handlerIds : List String) :
    Quiet (scheduled seconds handlerIds) := by
  unfold scheduled
  split
  · refine (quiet_lift _).bind fun age => ?_
    exact (Ledger.quiet_findIncompleteOlderThan age).bind fun records => quiet_replayAll records _
  · exact Ledger.quiet_findIncomplete.bind fun records => quiet_replayAll records _

end Resubmission

theorem Sweeper.quiet_act (sweep : Sweep) : Quiet (act sweep) := by
  cases sweep with
  | resubmit olderThanSeconds handlerIds =>
      exact (Resubmission.quiet_scheduled _ _).bind fun _ => quiet_pure _
  | prune completedOlderThanSeconds =>
      refine Quiet.bind ?_ fun _ => quiet_pure _
      exact (quiet_lift _).bind fun age => Ledger.quiet_prune age

end DeliveryLedger
