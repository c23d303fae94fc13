import DeliveryLedger.Proofs.Ancestry
import DeliveryLedger.Proofs.ImportSteps
/-!
Modules whose names are bound to declared classes only.

A catalogue grows when modules are imported: classes are added, and each is registered under its
type name, unless a class that was declared still later has taken the name (`Grows`).  A name is
bound to a class after its declaration, so that in all modules that a process can come to have
(`Attainable`) every occurrence class that a path of names leads to was declared
(`Sound.classAt?`), and hence derives from the base class (`Reachable.derives_zero`).
-/

namespace DeliveryLedger

open Relation (ReflTransGen)

namespace Catalogue

variable {cat middle later : Catalogue} {name : String} {id : ClassId}

/-! ### Growing catalogues -/

/-- Under a name the class `first`, or a newer one, is registered as under its type name. -/
def RegistersFrom (cat : Catalogue) (first : ClassId) (name : String) : Prop :=
  ∃ id c, cat.registered? name = some id ∧ first ≤ id ∧ cat.classes[id]? = some c ∧
    c.typeName = name

/-- Classes were added, and some of them registered. -/
structure Grows (cat later : Catalogue) : Prop where
  classes : cat.classes <+: later.classes
  registry : ∀ name, later.registered? name = cat.registered? name ∨
    later.RegistersFrom cat.classes.length name
  /-- The type name of a new class is registered for it, or for a class that is newer still. -/
  named : ∀ id c, cat.classes.length ≤ id → later.classes[id]? = some c →
    later.RegistersFrom id c.typeName

theorem RegistersFrom.of_le {first second : ClassId} (h : cat.RegistersFrom second name)
    (hle : first ≤ second) : cat.RegistersFrom first name := by
  obtain ⟨id, c, hregistered, hnew, hc⟩ := h
  exact ⟨id, c, hregistered, Nat.le_trans hle hnew, hc⟩

theorem Grows.refl (cat : Catalogue) : cat.Grows cat where
  classes := List.prefix_refl _
  registry _ := .inl rfl
  named _ _ hnew hc := absurd (List.getElem?_eq_some_iff.mp hc).1 (Nat.not_lt.mpr hnew)

theorem Grows.getElem? (h : cat.Grows later) {c : OccurrenceClass}
    (hc : cat.classes[id]? = some c) : later.classes[id]? = some c := by
  obtain ⟨rest, hrest⟩ := h.classes
  rw [← hrest, List.getElem?_append_left (List.getElem?_eq_some_iff.mp hc).1, hc]

theorem RegistersFrom.grow {first : ClassId} (h : cat.RegistersFrom first name)
    (hfirst : first ≤ cat.classes.length) (k : cat.Grows later) :
    later.RegistersFrom first name := by
  rcases k.registry name with hsame | hnewer
  · obtain ⟨id, c, hregistered, hnew, hc, hname⟩ := h
    exact ⟨id, c, hsame.trans hregistered, hnew, k.getElem? hc, hname⟩
  · exact hnewer.of_le hfirst

theorem Grows.trans (h : cat.Grows middle) (k : middle.Grows later) : cat.Grows later where
  classes := h.classes.trans k.classes
  registry name := by
    rcases h.registry name with hsame | hnew
    · rcases k.registry name with hsame' | hnew
      · exact .inl (hsame'.trans hsame)
      · exact .inr (hnew.of_le h.classes.length_le)
    · exact .inr (hnew.grow h.classes.length_le k)
  named id c hnew hc := by
    by_cases hid : id < middle.classes.length
    · have hmiddle : middle.classes[id]? = some c := by
        rw [← hc, List.getElem?_eq_getElem hid, k.getElem? (List.getElem?_eq_getElem hid)]
      exact (h.named id c hnew hmiddle).grow (Nat.le_of_lt hid) k
    · exact k.named id c (Nat.not_lt.mp hid) hc

theorem grows_of_declare {homeModule : String} {d : ClassDeclaration}
    (h : cat.declare homeModule d = .ok (id, later)) : cat.Grows later := by
  obtain ⟨-, c, rfl, -⟩ := declare_eq_ok h
  have hown : RegistersFrom
      ⟨cat.classes ++ [c], insertMember c.typeName cat.classes.length cat.registry⟩
      cat.classes.length c.typeName :=
    ⟨cat.classes.length, c, by simp [registered?, member?_insertMember], Nat.le_refl _, by simp,
      rfl⟩
  refine ⟨List.prefix_append _ _, fun name => ?_, fun id' c' hnew hc' => ?_⟩
  · by_cases hname : name = c.typeName
    · exact .inr (hname ▸ hown)
    · left
      simp [registered?, member?_insertMember, hname]
  · rw [List.getElem?_append_right hnew, List.getElem?_singleton] at hc'
    split at hc'
    · rename_i hzero
      obtain rfl := Option.some.inj hc'
      exact hown.of_le (Nat.sub_eq_zero_iff_le.mp hzero)
    · cases hc'

/-! ### The base class -/

theorem ne_nil_of_bases? {names : List String} {named : List ClassId}
    (h : cat.bases? names = .ok named) : named ≠ [] := by
  unfold bases? at h
  split at h
  · obtain rfl := Except.ok.inj h
    exact List.cons_ne_nil _ _
  · rename_i hnames
    obtain ⟨first, rest, rfl⟩ := List.exists_cons_of_ne_nil hnames
    rw [List.mapM_cons] at h
    obtain ⟨b, -, h⟩ := bind_eq_ok_iff.mp h
    obtain ⟨bs, -, h⟩ := bind_eq_ok_iff.mp h
    obtain rfl := Except.ok.inj h
    exact List.cons_ne_nil _ _

theorem HasBases.ne_nil {bases : List (List ClassId)} (h : cat.HasBases bases) {c : ClassId}
    {named : List ClassId} (hc : bases[c]? = some named) (hzero : c ≠ 0) : named ≠ [] := by
  induction h with
  | initial =>
      rw [List.getElem?_singleton, if_neg hzero] at hc
      cases hc
  | declare _ hnamed _ ih =>
      rw [List.getElem?_append, List.getElem?_singleton] at hc
      split at hc
      · exact ih hc
      split at hc
      · obtain rfl := Option.some.inj hc
        exact ne_nil_of_bases? hnamed
      · cases hc
  | forget name _ ih => exact ih hc

theorem Reachable.derives_zero (h : cat.Reachable) (hid : id < cat.classes.length) :
    cat.derives id 0 := by
  obtain ⟨bases, hbases⟩ := h.exists_hasBases
  have hlinear := hbases.linear
  have hreaches : ReflTransGen (Inherits bases) id 0 := by
    induction id using Nat.strongRecOn with
    | ind id ih =>
        by_cases hzero : id = 0
        · rw [hzero]
        obtain ⟨named, hnamed⟩ := hlinear.exists_bases hid
        obtain ⟨b, hb⟩ := List.exists_mem_of_ne_nil named (hbases.ne_nil hnamed hzero)
        have hinherits : Inherits bases id b := ⟨named, hnamed, hb⟩
        have hlt := hlinear.earlier hinherits
        exact .head hinherits (ih b hlt (Nat.lt_trans hlt hid))
  rw [derives, List.contains_iff_mem]
  exact (hlinear.mem_lineage_iff hid).mpr hreaches

theorem Reachable.lt_of_registered (h : cat.Reachable) (hid : cat.registered? name = some id) :
    id < cat.classes.length := by
  have hregistry : ∀ m ∈ cat.registry, m.2 < cat.classes.length := by
    clear hid
    induction h with
    | initial => exact List.forall_mem_nil _
    | declare _ hd ih =>
        obtain ⟨-, c, rfl, -⟩ := declare_eq_ok hd
        intro m hm
        rw [List.length_append, List.length_singleton]
        rcases mem_insertMember hm with rfl | hm
        · exact Nat.lt_succ_self _
        · exact Nat.lt_succ_of_lt (ih m hm)
    | forget name _ ih => exact fun m hm => ih m (List.mem_filter.mp hm).1
  exact hregistry _ (mem_of_member? hid)

end Catalogue

theorem ModuleSpace.grows_of_steps {space later : ModuleSpace}
    (h : ReflTransGen Step space later) :
    space.catalogue.Grows later.catalogue := by
  induction h with
  | refl => exact .refl _
  | tail _ hstep ih =>
      refine ih.trans ?_
      cases hstep with
      | declared _ _ h =>
          rw [(rebinds_bindNested _ _ _ _).catalogue]
          exact Catalogue.grows_of_declare h
      | bound h =>
          rw [(rebinds_of_bindAll _ h).catalogue]
          exact .refl _
      | entered => exact .refl _
      | attached => exact .refl _

/-- The object is no occurrence class, or one that was declared. -/
def Object.DeclaredIn (cat : Catalogue) : Object → Prop
  | .occurrenceClass id => id < cat.classes.length
  | _ => True

namespace ModuleSpace

variable {space later : ModuleSpace}

/-- Names are bound to declared classes only. -/
structure Sound (space : ModuleSpace) : Prop where
  reachable : space.catalogue.Reachable
  bound : ∀ b ∈ space.bindings, b.2.DeclaredIn space.catalogue

theorem sound_initial (sources : List ModuleSource) : (initial sources).Sound where
  reachable := .initial
  bound := by
    intro b hb
    rcases List.mem_append.mp hb with hb | hb
    · obtain ⟨m, -, rfl⟩ := List.mem_map.mp hb
      trivial
    · rcases List.mem_cons.mp hb with rfl | hb
      · exact Nat.one_pos
      · obtain rfl := List.mem_singleton.mp hb
        trivial

theorem Sound.bind (h : space.Sound) (owner : Owner) (name : String) {object : Object}
    (hobject : object.DeclaredIn space.catalogue) : (space.bind owner name object).Sound where
  reachable := h.reachable
  bound := List.forall_mem_cons.mpr ⟨hobject, h.bound⟩

theorem Sound.declare (h : space.Sound) {cat : Catalogue} {homeModule : String}
    {d : ClassDeclaration} {id : ClassId}
    (hd : space.catalogue.declare homeModule d = .ok (id, cat)) :
    Sound { space with catalogue := cat } where
  reachable := .declare h.reachable hd
  bound := by
    intro b hb
    have hold := h.bound b hb
    have hle := (Catalogue.grows_of_declare hd).classes.length_le
    -- What was declared stays declared when there are more classes.
    revert hold
    cases b.2 <;> intro hold <;> first | trivial | exact Nat.lt_of_lt_of_le hold hle

theorem Sound.bindNested (h : space.Sound) (owner : Owner) (path : List String)
    {object : Object} (hobject : object.DeclaredIn space.catalogue) :
    (space.bindNested owner path object).Sound := by
  fun_induction ModuleSpace.bindNested space owner path object with
  | case1 => exact h
  | case2 => exact h.bind _ _ hobject
  | case3 space owner name rest object _ inner _ ih => exact ih h hobject
  | case4 space owner name rest object _ _ _ _ ih =>
      have hmade : Sound (space.bind owner name (.plainClass space.fresh name)) :=
        h.bind owner name trivial
      exact ih ⟨hmade.reachable, hmade.bound⟩ hobject

mutual

theorem sound_of_realize (t : Target) {space later : ModuleSpace} {name : String}
    {object : Object} (hspace : space.Sound) (h : realize space name t = .ok (object, later)) :
    later.Sound ∧ object.DeclaredIn later.catalogue := by
  cases t with
  | occurrence key =>
      rw [realize] at h
      split at h
      · rename_i hkey
        cases h
        exact ⟨hspace, Catalogue.lt_of_byKey? hkey⟩
      · cases h
  | list items =>
      rw [realize] at h
      obtain ⟨⟨objects, middle⟩, hitems, h⟩ := bind_eq_ok_iff.mp h
      cases h
      exact ⟨sound_of_realizeAll items hspace hitems, trivial⟩
  | tuple items =>
      rw [realize] at h
      obtain ⟨⟨objects, middle⟩, hitems, h⟩ := bind_eq_ok_iff.mp h
      cases h
      exact ⟨sound_of_realizeAll items hspace hitems, trivial⟩
  | stream items | breaking items fault =>
      rw [realize] at h
      obtain ⟨⟨objects, middle⟩, hitems, h⟩ := bind_eq_ok_iff.mp h
      cases h
      have hmiddle := sound_of_realizeAll items hspace hitems
      exact ⟨⟨hmiddle.reachable, hmiddle.bound⟩, trivial⟩
  | plainClass attributes =>
      rw [realize] at h
      obtain ⟨middle, hbound, h⟩ := bind_eq_ok_iff.mp h
      cases h
      have hfresh : Sound { space with fresh := space.fresh + 1 } :=
        ⟨hspace.reachable, hspace.bound⟩
      exact ⟨sound_of_bindAll attributes hfresh hbound, trivial⟩
  | _ =>
      rw [realize] at h
      cases h
      exact ⟨hspace, trivial⟩

theorem sound_of_realizeAll (ts : List Target) {space later : ModuleSpace} {name : String}
    {objects : List Object} (hspace : space.Sound)
    (h : realizeAll space name ts = .ok (objects, later)) : later.Sound := by
  cases ts with
  | nil =>
      cases h
      exact hspace
  | cons t ts =>
      rw [realizeAll] at h
      obtain ⟨⟨object, middle⟩, ht, h⟩ := bind_eq_ok_iff.mp h
      obtain ⟨⟨objects, last⟩, hts, h⟩ := bind_eq_ok_iff.mp h
      cases h
      exact sound_of_realizeAll ts (sound_of_realize t hspace ht).1 hts

theorem sound_of_bindAll (ts : List (String × Target)) {space later : ModuleSpace}
    {owner : Owner} (hspace : space.Sound) (h : bindAll space owner ts = .ok later) :
    later.Sound := by
  cases ts with
  | nil =>
      cases h
      exact hspace
  | cons t ts =>
      obtain ⟨name, t⟩ := t
      rw [bindAll] at h
      obtain ⟨⟨object, middle⟩, ht, h⟩ := bind_eq_ok_iff.mp h
      obtain ⟨hmiddle, hobject⟩ := sound_of_realize t hspace ht
      exact sound_of_bindAll ts (hmiddle.bind owner name hobject) h

end

theorem Step.sound (h : Step space later) (hspace : space.Sound) : later.Sound := by
  cases h with
  | declared owner path h =>
      obtain ⟨rfl, c, rfl, -⟩ := Catalogue.declare_eq_ok h
      refine (hspace.declare h).bindNested owner path ?_
      show space.catalogue.classes.length < (space.catalogue.classes ++ [c]).length
      simp
  | bound h => exact sound_of_bindAll _ hspace h
  | entered => exact ⟨hspace.reachable, hspace.bound⟩
  | attached owner part name => exact hspace.bind owner part trivial

theorem sound_of_steps (h : ReflTransGen Step space later) (hspace : space.Sound) :
    later.Sound := by
  induction h with
  | refl => exact hspace
  | tail _ hstep ih => exact hstep.sound ih

/-! ### Sound modules -/

theorem Sound.lookup? (h : space.Sound) {owner : Owner} {name : String} {object : Object}
    (hfound : space.lookup? owner name = some object) : object.DeclaredIn space.catalogue := by
  obtain ⟨b, hb, rfl⟩ := Option.map_eq_some_iff.mp hfound
  exact h.bound b (List.mem_of_find?_eq_some hb)

theorem Sound.attribute? (h : space.Sound) {owner object : Object} {name : String}
    (hfound : space.attribute? owner name = some object) : object.DeclaredIn space.catalogue := by
  cases owner with
  | moduleRef m => exact h.lookup? hfound
  | plainClass id _ => exact h.lookup? hfound
  | occurrenceClass id =>
      obtain ⟨c, -, hc⟩ := List.exists_of_findSome?_eq_some hfound
      exact h.lookup? hc
  | _ => cases hfound

theorem Sound.follow? (h : space.Sound) {path : List String} {start object : Object}
    (hstart : start.DeclaredIn space.catalogue)
    (hfound : space.follow? start path = some object) : object.DeclaredIn space.catalogue := by
  induction path generalizing start with
  | nil =>
      obtain rfl := Option.some.inj hfound
      exact hstart
  | cons name rest ih =>
      rw [ModuleSpace.follow?] at hfound
      split at hfound
      · cases hfound
      · rename_i hnext
        exact ih (h.attribute? hnext) hfound

theorem Sound.classAt? (h : space.Sound) {moduleName : String} {path : List String} {id : ClassId}
    (hfound : space.classAt? moduleName path = some id) : id < space.catalogue.classes.length := by
  unfold ModuleSpace.classAt? at hfound
  split at hfound
  · rename_i hobject
    obtain rfl := Option.some.inj hfound
    have hmodule : (Object.moduleRef moduleName).DeclaredIn space.catalogue := trivial
    exact h.follow? hmodule hobject
  · cases hfound

/-- The modules that a process can have. -/
inductive Attainable : ModuleSpace → Prop where
  | initial (sources : List ModuleSource) : Attainable (initial sources)
  /-- A class is declared outside of all modules that are imported. -/
  | declared {space : ModuleSpace} {cat : Catalogue} {homeModule : String} {d : ClassDeclaration}
      {id : ClassId} (h : Attainable space)
      (hd : space.catalogue.declare homeModule d = .ok (id, cat)) :
      Attainable { space with catalogue := cat }
  | forgotten {space : ModuleSpace} (name : String) (h : Attainable space) :
      Attainable { space with catalogue := space.catalogue.forget name }
  | imported {space : ModuleSpace} (name : String) (h : Attainable space) :
      Attainable (space.importModule name).2
  /-- A function that an attribute holds is called. -/
  | realized {space later : ModuleSpace} {name : String} {t : Target} {object : Object}
      (h : Attainable space) (ht : space.realize name t = .ok (object, later)) : Attainable later
  | taken {space : ModuleSpace} (stream : Nat) (h : Attainable space) :
      Attainable { space with spent := stream :: space.spent }

theorem Attainable.sound (h : space.Attainable) : space.Sound := by
  induction h with
  | initial sources => exact sound_initial sources
  | declared _ hd ih => exact ih.declare hd
  | forgotten name _ ih => exact ⟨.forget name ih.reachable, ih.bound⟩
  | imported name _ ih => exact sound_of_steps (steps_importModule _ name) ih
  | realized _ ht ih => exact (sound_of_realize _ ih ht).1
  | taken stream _ ih => exact ⟨ih.reachable, ih.bound⟩

end ModuleSpace

end DeliveryLedger
