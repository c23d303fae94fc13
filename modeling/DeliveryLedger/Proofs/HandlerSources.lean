import DeliveryLedger.Discovery
import DeliveryLedger.Proofs.Outcome
import Mathlib.Data.List.Forall2
/-!
The sources of a discovery: each yields all its handlers, or none.

What a source may yield is said by `Yields`, without the order in which the discovery looks: an
instance or a descriptor itself, an instance of a class, what a function returns, and of a row
each member, none left out.  The sources are tried one after the other, each among the modules that
the ones before it have left (`tried`), and the discovery is put together from the answers.
-/

namespace DeliveryLedger.Discovery

open ModuleSpace (Attempt)

variable {α : Type} {classes : List HandlerClass} {name : String} {space mid later : ModuleSpace}
  {o : Object} {rs : List Registrable}

/-! ### What a target yields -/

/-- An object is a handler, or a ready descriptor. -/
inductive Is (classes : List HandlerClass) : Object → Registrable → Prop
  | handler {key : String} {c : HandlerClass} (hc : classOf classes key = .ok c) :
      Is classes (.handler key) (.ofClass c)
  | descriptor {key : String} {c : HandlerClass} {d : HandlerDescriptor}
      (hc : classOf classes key = .ok c) (hd : HandlerDescriptor.ofClass c = .ok d) :
      Is classes (.descriptor key) (.descriptor d)

/-- An object stands for handlers: for the one that it is, or for its members, each of which is
one. -/
inductive Holds (classes : List HandlerClass) (space : ModuleSpace) :
    Object → List Registrable → ModuleSpace → Prop
  | itself {o : Object} {r : Registrable} (ho : Is classes o r) : Holds classes space o [r] space
  | row {o : Object} {items : List Object} {rs : List Registrable} {later : ModuleSpace}
      (hitems : members space o = (.ok items, later))
      (hall : List.Forall₂ (Is classes) items rs) : Holds classes space o rs later

/-- A target yields handlers: an instance of a handler class that needs no arguments, what a
function returns, or what it stands for itself. -/
inductive Yields (classes : List HandlerClass) (name : String) (space : ModuleSpace) :
    Object → List Registrable → ModuleSpace → Prop
  | made {key : String} {c : HandlerClass} (hc : classOf classes key = .ok c)
      (hrequired : c.required = []) (hraises : c.raises = none) :
      Yields classes name space (.handlerClass key) [.instanceOf c] space
  | base : Yields classes name space .handlerBase [.instanceOf baseClass] space
  | returned {returns : Target} {o : Object} {rs : List Registrable} {mid later : ModuleSpace}
      (hcall : space.realize name returns = .ok (o, mid)) (ho : Holds classes mid o rs later) :
      Yields classes name space (.factory returns) rs later
  | held {o : Object} {rs : List Registrable} {later : ModuleSpace}
      (ho : Holds classes space o rs later) : Yields classes name space o rs later

theorem handler?_eq_some_iff {r : Registrable} :
    handler? classes o = .ok (some r) ↔ Is classes o r := by
  constructor
  · intro h
    cases o with
    | handler key =>
        obtain ⟨c, hc, h⟩ := bind_eq_ok_iff.mp h
        cases h
        exact .handler hc
    | descriptor key =>
        obtain ⟨c, hc, h⟩ := bind_eq_ok_iff.mp h
        obtain ⟨d, hd, h⟩ := bind_eq_ok_iff.mp h
        cases h
        exact .descriptor hc hd
    | _ => cases h
  · rintro (hc | ⟨hc, hd⟩)
    · exact bind_eq_ok_iff.mpr ⟨_, hc, rfl⟩
    · exact bind_eq_ok_iff.mpr ⟨_, hc, bind_eq_ok_iff.mpr ⟨_, hd, rfl⟩⟩

theorem allHandlers_ok_iff {cat : Catalogue} {items : List Object} :
    allHandlers cat classes name items = .ok rs ↔ List.Forall₂ (Is classes) items rs := by
  induction items generalizing rs with
  | nil => simp [allHandlers, eq_comm]
  | cons o items ih =>
      rw [List.forall₂_cons_left_iff, allHandlers, bind_eq_ok_iff]
      constructor
      · rintro ⟨_ | r, ho, h⟩
        · cases h
        · obtain ⟨rest, hrest, h⟩ := bind_eq_ok_iff.mp h
          cases h
          exact ⟨r, rest, handler?_eq_some_iff.mp ho, ih.mp hrest, rfl⟩
      · rintro ⟨r, rest, ho, hrest, rfl⟩
        exact ⟨some r, handler?_eq_some_iff.mpr ho, bind_eq_ok_iff.mpr ⟨rest, ih.mpr hrest, rfl⟩⟩

theorem handler?_of_members {items : List Object} (h : members space o = (.ok items, later)) :
    handler? classes o = .ok none := by
  cases o with
  | handler key => cases h
  | descriptor key => cases h
  | _ => rfl

theorem handlersIn_ok_iff :
    handlersIn classes name space o = (.ok rs, later) ↔ Holds classes space o rs later := by
  constructor
  · intro h
    rw [handlersIn] at h
    rcases ho : handler? classes o with fault | _ | r
    · simp [ho] at h
    · rw [ho] at h
      rcases hitems : members space o with ⟨fault | items, after⟩
      · simp [hitems] at h
      · rw [hitems] at h
        obtain ⟨hall, rfl⟩ := Prod.mk.inj h
        exact .row hitems (allHandlers_ok_iff.mp hall)
    · rw [ho] at h
      cases h
      exact .itself (handler?_eq_some_iff.mp ho)
  · rintro (ho | ⟨hitems, hall⟩)
    · rw [handlersIn, handler?_eq_some_iff.mpr ho]
    · rw [handlersIn, handler?_of_members hitems]
      dsimp only
      rw [hitems]
      dsimp only
      rw [allHandlers_ok_iff.mpr hall]

theorem materialize_of_holds (ho : Holds classes space o rs later) :
    materialize classes name space o = handlersIn classes name space o := by
  cases ho with
  | itself ho => cases ho <;> rfl
  | row hitems =>
      -- what `materialize` treats apart, classes and functions, has no members
      cases o <;> first | rfl | cases hitems

theorem make_ok_iff {c : HandlerClass} {r : Registrable} :
    make c = .ok r ↔ c.required = [] ∧ c.raises = none ∧ r = .instanceOf c := by
  rw [make]
  by_cases hrequired : c.required = []
  · rcases hraises : c.raises with _ | fault <;> simp [hrequired, eq_comm]
  · simp [hrequired]

theorem materialize_ok_iff :
    materialize classes name space o = (.ok rs, later) ↔ Yields classes name space o rs later := by
  constructor
  · intro h
    cases o with
    | handlerClass key =>
        obtain ⟨hmade, rfl⟩ := Prod.mk.inj h
        obtain ⟨c, hc, hmade⟩ := bind_eq_ok_iff.mp hmade
        obtain ⟨r, hr, hmade⟩ := bind_eq_ok_iff.mp hmade
        obtain ⟨hrequired, hraises, rfl⟩ := make_ok_iff.mp hr
        cases hmade
        exact .made hc hrequired hraises
    | handlerBase =>
        cases h
        exact .base
    | occurrenceClass id => cases h
    | plainClass id className => cases h
    | failing fault => cases h
    | factory returns =>
        rw [materialize] at h
        rcases hcall : space.realize name returns with fault | ⟨o, mid⟩
        · simp [hcall] at h
        · rw [hcall] at h
          exact .returned hcall (handlersIn_ok_iff.mp h)
    | _ => exact .held (handlersIn_ok_iff.mp h)
  · intro h
    cases h with
    | made hc hrequired hraises =>
        have hmade := make_ok_iff.mpr ⟨hrequired, hraises, rfl⟩
        exact Prod.ext (bind_eq_ok_iff.mpr ⟨_, hc, bind_eq_ok_iff.mpr ⟨_, hmade, rfl⟩⟩) rfl
    | base => rfl
    | returned hcall ho =>
        rw [materialize, hcall]
        exact handlersIn_ok_iff.mpr ho
    | held ho => exact (materialize_of_holds ho).trans (handlersIn_ok_iff.mpr ho)

/-! ### What a source yields -/

/-- An entry point loads, and its target yields handlers. -/
def Offers (classes : List HandlerClass) (space : ModuleSpace) (e : EntryPoint)
    (rs : List Registrable) : Prop :=
  ∃ target o mid later, e.target = .ok target ∧ space.realize e.name target = .ok (o, mid) ∧
    Yields classes e.name mid o rs later

/-- A reference leads to an object, which yields handlers. -/
def LeadsTo (classes : List HandlerClass) (space : ModuleSpace) (text : String)
    (rs : List Registrable) : Prop :=
  ∃ o mid later, load classes space text = (.ok o, mid) ∧ Yields classes text mid o rs later

theorem ofEntryPoint_ok_iff {e : EntryPoint} :
    (ofEntryPoint classes space e).1 = .ok rs ↔ Offers classes space e rs := by
  rw [Offers]
  rcases htarget : e.target with fault | target
  · simp [ofEntryPoint, htarget]
  rcases hload : space.realize e.name target with fault | ⟨o, mid⟩
  · simp [ofEntryPoint, htarget, hload]
  · have hsource : ofEntryPoint classes space e = materialize classes e.name mid o := by
      rw [ofEntryPoint, htarget]
      dsimp only
      rw [hload]
    rw [hsource]
    constructor
    · intro h
      exact ⟨target, o, mid, _, rfl, hload, materialize_ok_iff.mp (Prod.ext h rfl)⟩
    · rintro ⟨target, o, mid, later, htarget, hobject, hyields⟩
      cases htarget
      cases hload.symm.trans hobject
      rw [materialize_ok_iff.mpr hyields]

theorem ofReference_ok_iff {text : String} :
    (ofReference classes space text).1 = .ok rs ↔ LeadsTo classes space text rs := by
  rw [LeadsTo]
  rcases hload : load classes space text with ⟨fault | o, mid⟩
  · simp [ofReference, hload]
  · have hsource : ofReference classes space text = materialize classes text mid o := by
      rw [ofReference, hload]
    rw [hsource]
    constructor
    · intro h
      exact ⟨o, mid, _, rfl, materialize_ok_iff.mp (Prod.ext h rfl)⟩
    · rintro ⟨o, mid, later, hobject, hyields⟩
      cases hobject
      rw [materialize_ok_iff.mpr hyields]

/-! ### Sources in turn -/

/-- A source that was tried, the modules before it, and its handlers or the fault in their place. -/
structure Trial (α : Type) where
  source : α
  before : ModuleSpace
  answer : Except Fault (List Registrable)

/-- The handlers of a trial; a failed one has none. -/
def Trial.found (t : Trial α) : List Registrable := t.answer.toOption.getD []

variable {source : ModuleSpace → α → Attempt (List Registrable)}

/-- Each of a row of sources tried among the modules that the one before it has left. -/
def tried (source : ModuleSpace → α → Attempt (List Registrable)) (space : ModuleSpace) :
    List α → List (Trial α)
  | [] => []
  | a :: rest => ⟨a, space, (source space a).1⟩ :: tried source (source space a).2 rest

/-- The modules after a row of sources. -/
def leftBy (source : ModuleSpace → α → Attempt (List Registrable)) (space : ModuleSpace)
    (sources : List α) : ModuleSpace :=
  sources.foldl (fun space a => (source space a).2) space

theorem map_source_tried (space : ModuleSpace) (sources : List α) :
    (tried source space sources).map (·.source) = sources := by
  induction sources generalizing space with
  | nil => rfl
  | cons a rest ih => rw [tried, List.map_cons, ih]

theorem answer_of_mem_tried {sources : List α} {t : Trial α}
    (h : t ∈ tried source space sources) : t.answer = (source t.before t.source).1 := by
  induction sources generalizing space with
  | nil => cases h
  | cons a rest ih =>
      rcases List.mem_cons.mp h with rfl | h
      · rfl
      · exact ih h

/-- The line about an entry point: a warning with the fault if there is one. -/
def lineAbout (t : Trial EntryPoint) : LogLine :=
  match t.answer with
  | .ok found => ⟨.debug, "Discovered " ++ Decimal.natText found.length ++
      " handlers from entry point " ++ t.source.name⟩
  | .error fault => ⟨.warning, "Failed to load handlers from entry point '" ++ t.source.name ++
      "': " ++ fault.message⟩

theorem ofEntryPoints_eq (classes : List HandlerClass) (space : ModuleSpace)
    (es : List EntryPoint) :
    let offered := tried (ofEntryPoint classes) space es
    ofEntryPoints classes space es =
      (offered.flatMap Trial.found, offered.map lineAbout,
        leftBy (ofEntryPoint classes) space es) := by
  induction es generalizing space with
  | nil => rfl
  | cons e es ih =>
      rcases he : ofEntryPoint classes space e with ⟨fault | found, mid⟩
      · simp [ofEntryPoints, he, ih, tried, leftBy, Trial.found, lineAbout, Except.toOption]
      · simp [ofEntryPoints, he, ih, tried, leftBy, Trial.found, lineAbout, Except.toOption]

theorem ofReferences_cons (classes : List HandlerClass) (space : ModuleSpace) (text : String)
    (texts : List String) :
    (ofReferences classes space (text :: texts)).1 =
      match ofReference classes space text with
      | (.error cause, _) => .error (cannotLoad text cause)
      | (.ok found, mid) => (ofReferences classes mid texts).1.map (found ++ ·) := by
  rw [ofReferences]
  rcases ofReference classes space text with ⟨cause | found, mid⟩
  · rfl
  · dsimp only
    rcases ofReferences classes mid texts with ⟨fault | rest, last⟩ <;> rfl

theorem ofReferences_cases (classes : List HandlerClass) (space : ModuleSpace)
    (texts : List String) :
    let named := tried (ofReference classes) space texts
    ((∀ t ∈ named, t.answer.isOk) ∧
      (ofReferences classes space texts).1 = .ok (named.flatMap Trial.found)) ∨
    ∃ before t after cause, named = before ++ t :: after ∧ (∀ b ∈ before, b.answer.isOk) ∧
      t.answer = .error cause ∧
      (ofReferences classes space texts).1 = .error (cannotLoad t.source cause) := by
  induction texts generalizing space with
  | nil => exact .inl ⟨by simp [tried], rfl⟩
  | cons text texts ih =>
      rw [ofReferences_cons, tried]
      -- `named` goes on behind a failing reference with answers that nothing asks for
      rcases ofReference classes space text with ⟨cause | found, mid⟩
      · exact .inr ⟨[], ⟨text, space, .error cause⟩, tried (ofReference classes) mid texts, cause,
          rfl, by simp, rfl, rfl⟩
      · rcases ih mid with ⟨hok, hfound⟩ | ⟨before, t, after, cause, hnamed, hok, ht, hfault⟩
        · refine .inl ⟨List.forall_mem_cons.mpr ⟨rfl, hok⟩, ?_⟩
          dsimp only
          rw [hfound]
          rfl
        · refine .inr ⟨⟨text, space, .ok found⟩ :: before, t, after, cause, ?_,
            List.forall_mem_cons.mpr ⟨rfl, hok⟩, ht, ?_⟩
          · dsimp only
            rw [hnamed]
            rfl
          · dsimp only
            rw [hfault]
            rfl

/-! ### Whole discoveries -/

theorem isConfigurationFault_cannotLoad (text : String) (fault : Fault) :
    (cannotLoad text fault).isConfigurationFault := by
  rw [cannotLoad]
  split
  · assumption
  · rfl

theorem discover_eq (classes : List HandlerClass) (space : ModuleSpace) (es : List EntryPoint)
    (texts : List String) :
    let offered := tried (ofEntryPoint classes) space es
    (discover classes space es texts).log = offered.map lineAbout ∧
      (discover classes space es texts).outcome =
        (ofReferences classes (leftBy (ofEntryPoint classes) space es) texts).1.map
          (offered.flatMap Trial.found ++ ·) := by
  intro offered
  rw [discover, ofEntryPoints_eq]
  dsimp only
  rcases ofReferences classes (leftBy (ofEntryPoint classes) space es) texts with
    ⟨fault | named, last⟩ <;> exact ⟨rfl, rfl⟩

/-- A discovery comes to everything that was found, or to the fault of the first reference that
fails. -/
theorem discover_cases (classes : List HandlerClass) (space : ModuleSpace) (es : List EntryPoint)
    (texts : List String) :
    let offered := tried (ofEntryPoint classes) space es
    let named := tried (ofReference classes) (leftBy (ofEntryPoint classes) space es) texts
    let result := discover classes space es texts
    ((∀ t ∈ named, t.answer.isOk) ∧
      result.outcome = .ok (offered.flatMap Trial.found ++ named.flatMap Trial.found)) ∨
    ∃ before t after cause, named = before ++ t :: after ∧ (∀ b ∈ before, b.answer.isOk) ∧
      t.answer = .error cause ∧ result.outcome = .error (cannotLoad t.source cause) := by
  intro offered named result
  have houtcome := (discover_eq classes space es texts).2
  rcases ofReferences_cases classes (leftBy (ofEntryPoint classes) space es) texts with
    ⟨hok, hfound⟩ | ⟨before, t, after, cause, hnamed, hok, ht, hfault⟩
  · rw [hfound] at houtcome
    exact .inl ⟨hok, houtcome⟩
  · rw [hfault] at houtcome
    exact .inr ⟨before, t, after, cause, hnamed, hok, ht, houtcome⟩

/-- A discovery comes to the handlers of all entry points that do not fail and of all references,
in order, or to a wrong setup named by the first reference that fails.  The log warns of exactly
the entry points that fail. -/
theorem discovery_all_or_nothing (classes : List HandlerClass) (space : ModuleSpace)
    (es : List EntryPoint) (texts : List String) :
    let offered := tried (ofEntryPoint classes) space es
    let named := tried (ofReference classes) (leftBy (ofEntryPoint classes) space es) texts
    let result := discover classes space es texts
    (offered.map (·.source) = es ∧ named.map (·.source) = texts) ∧
    (∀ t ∈ offered, ∀ rs, t.answer = .ok rs ↔ Offers classes t.before t.source rs) ∧
    (∀ t ∈ named, ∀ rs, t.answer = .ok rs ↔ LeadsTo classes t.before t.source rs) ∧
    result.log = offered.map lineAbout ∧
    ((∃ fault, result.outcome = .error fault) ↔ ∃ t ∈ named, t.answer.isOk = false) ∧
    (∀ fault, result.outcome = .error fault → fault.isConfigurationFault ∧
      ∃ before t after cause, named = before ++ t :: after ∧ (∀ b ∈ before, b.answer.isOk) ∧
        t.answer = .error cause ∧ fault = cannotLoad t.source cause) ∧
    (∀ handlers, result.outcome = .ok handlers →
      handlers = offered.flatMap Trial.found ++ named.flatMap Trial.found) := by
  intro offered named result
  refine ⟨⟨map_source_tried _ _, map_source_tried _ _⟩, fun t ht rs => ?_, fun t ht rs => ?_,
    (discover_eq classes space es texts).1, ?_⟩
  · rw [answer_of_mem_tried ht]
    exact ofEntryPoint_ok_iff
  · rw [answer_of_mem_tried ht]
    exact ofReference_ok_iff
  rcases discover_cases classes space es texts with
    ⟨hok, hfound⟩ | ⟨before, t, after, cause, hnamed, hok, ht, hfails⟩
  · refine ⟨iff_of_false ?_ ?_, fun fault hfault => ?_, fun handlers hhandlers => ?_⟩
    · rintro ⟨fault, hfault⟩
      cases hfound.symm.trans hfault
    · rintro ⟨t, ht, hfails⟩
      cases (hok t ht).symm.trans hfails
    · cases hfound.symm.trans hfault
    · exact Except.ok.inj (hhandlers.symm.trans hfound)
  · refine ⟨iff_of_true ⟨_, hfails⟩ ⟨t, ?_, ?_⟩, fun fault hfault => ?_,
      fun handlers hhandlers => ?_⟩
    · rw [show named = _ from hnamed]
      exact List.mem_append_right before List.mem_cons_self
    · rw [ht]
      rfl
    · obtain rfl := Except.error.inj (hfails.symm.trans hfault)
      exact ⟨isConfigurationFault_cannotLoad _ _, before, t, after, cause, hnamed, hok, ht, rfl⟩
    · cases hfails.symm.trans hhandlers

end DeliveryLedger.Discovery
