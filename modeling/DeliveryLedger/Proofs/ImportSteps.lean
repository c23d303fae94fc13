import DeliveryLedger.Proofs.Declarations
import Mathlib.Logic.Relation
/-!
What an import does to the modules of a process, step by step.

A step declares a class and binds it, binds the attributes of a module, enters a module among
the imported ones, or binds it in its parent (`Step`).  An import is a row of steps, whether it
fails or not (`steps_importModule`), and so is a search for a class (`steps_resolveType`).  What
each step keeps is therefore kept by all of them: declarations led to the catalogue
(`reachable_of_steps`), modules stay imported (`loaded_subset_of_steps`), and no module becomes
importable that was not (`importable_iff_of_steps`).
-/

namespace DeliveryLedger

namespace ModuleSpace

open Relation (ReflTransGen)

/-! ### Bindings -/

/-- Nothing but the bindings changed, and which number is fresh. -/
def Rebinds (space later : ModuleSpace) : Prop :=
  ∃ bindings fresh, later = { space with bindings := bindings, fresh := fresh }

namespace Rebinds

variable {space middle later : ModuleSpace}

theorem refl (space : ModuleSpace) : space.Rebinds space := ⟨_, _, rfl⟩

theorem trans (h : space.Rebinds middle) (k : middle.Rebinds later) : space.Rebinds later := by
  obtain ⟨_, _, rfl⟩ := h
  obtain ⟨bindings, fresh, rfl⟩ := k
  exact ⟨bindings, fresh, rfl⟩

theorem catalogue (h : space.Rebinds later) : later.catalogue = space.catalogue := by
  obtain ⟨_, _, rfl⟩ := h
  rfl

theorem loaded (h : space.Rebinds later) : later.loaded = space.loaded := by
  obtain ⟨_, _, rfl⟩ := h
  rfl

theorem sources (h : space.Rebinds later) : later.sources = space.sources := by
  obtain ⟨_, _, rfl⟩ := h
  rfl

end Rebinds

theorem rebinds_bindNested (space : ModuleSpace) (owner : Owner) (path : List String)
    (object : Object) : space.Rebinds (space.bindNested owner path object) := by
  fun_induction bindNested space owner path object with
  | case1 => exact .refl _
  | case2 => exact ⟨_, _, rfl⟩
  | case3 space owner name rest object _ inner _ ih => exact ih
  | case4 space owner name rest object _ _ _ _ ih => exact Rebinds.trans ⟨_, _, rfl⟩ ih

mutual

theorem rebinds_of_realize (t : Target) {space later : ModuleSpace} {name : String}
    {object : Object} (h : realize space name t = .ok (object, later)) :
    space.Rebinds later := by
  cases t with
  | occurrence key =>
      rw [realize] at h
      split at h
      · cases h
        exact .refl _
      · cases h
  | list items =>
      rw [realize] at h
      obtain ⟨⟨objects, middle⟩, hitems, h⟩ := bind_eq_ok_iff.mp h
      cases h
      exact rebinds_of_realizeAll items hitems
  | tuple items =>
      rw [realize] at h
      obtain ⟨⟨objects, middle⟩, hitems, h⟩ := bind_eq_ok_iff.mp h
      cases h
      exact rebinds_of_realizeAll items hitems
  | stream items | breaking items fault =>
      rw [realize] at h
      obtain ⟨⟨objects, middle⟩, hitems, h⟩ := bind_eq_ok_iff.mp h
      cases h
      exact (rebinds_of_realizeAll items hitems).trans ⟨_, _, rfl⟩
  | plainClass attributes =>
      rw [realize] at h
      obtain ⟨middle, hbound, h⟩ := bind_eq_ok_iff.mp h
      cases h
      exact Rebinds.trans ⟨_, _, rfl⟩ (rebinds_of_bindAll attributes hbound)
  | _ =>
      rw [realize] at h
      cases h
      exact .refl _

theorem rebinds_of_realizeAll (ts : List Target) {space later : ModuleSpace} {name : String}
    {objects : List Object} (h : realizeAll space name ts = .ok (objects, later)) :
    space.Rebinds later := by
  cases ts with
  | nil =>
      cases h
      exact .refl _
  | cons t ts =>
      rw [realizeAll] at h
      obtain ⟨⟨object, middle⟩, ht, h⟩ := bind_eq_ok_iff.mp h
      obtain ⟨⟨objects, last⟩, hts, h⟩ := bind_eq_ok_iff.mp h
      cases h
      exact (rebinds_of_realize t ht).trans (rebinds_of_realizeAll ts hts)

theorem rebinds_of_bindAll (ts : List (String × Target)) {space later : ModuleSpace}
    {owner : Owner} (h : bindAll space owner ts = .ok later) : space.Rebinds later := by
  cases ts with
  | nil =>
      cases h
      exact .refl _
  | cons t ts =>
      obtain ⟨name, t⟩ := t
      rw [bindAll] at h
      obtain ⟨⟨object, middle⟩, ht, h⟩ := bind_eq_ok_iff.mp h
      exact ((rebinds_of_realize t ht).trans ⟨_, _, rfl⟩).trans (rebinds_of_bindAll ts h)

end

variable {space later : ModuleSpace}

/-! ### Steps -/

/-- One step of an import. -/
inductive Step : ModuleSpace → ModuleSpace → Prop where
  | declared {space : ModuleSpace} {cat : Catalogue} {homeModule : String} {d : ClassDeclaration}
      {id : ClassId} (owner : Owner) (path : List String)
      (h : space.catalogue.declare homeModule d = .ok (id, cat)) :
      Step space
        (bindNested { space with catalogue := cat } owner path (.occurrenceClass id))
  | bound {space later : ModuleSpace} {owner : Owner} {attributes : List (String × Target)}
      (h : space.bindAll owner attributes = .ok later) : Step space later
  | entered {space : ModuleSpace} {source : ModuleSource} (h : source ∈ space.sources) :
      Step space { space with loaded := source.name :: space.loaded }
  | attached {space : ModuleSpace} (owner : Owner) (part name : String) :
      Step space (space.bind owner part (.moduleRef name))

theorem Step.sources (h : Step space later) : later.sources = space.sources := by
  cases h with
  | declared => exact (rebinds_bindNested _ _ _ _).sources
  | bound h => exact (rebinds_of_bindAll _ h).sources
  | entered => rfl
  | attached => rfl

theorem sources_of_steps (h : ReflTransGen Step space later) : later.sources = space.sources := by
  induction h with
  | refl => rfl
  | tail _ hstep ih => exact hstep.sources.trans ih

theorem steps_declareTypes (space : ModuleSpace) (moduleName : String)
    (ds : List ClassDeclaration) :
    ReflTransGen Step space (space.declareTypes moduleName ds).2 := by
  induction ds generalizing space with
  | nil => exact .refl
  | cons d ds ih =>
      rw [declareTypes]
      split
      · exact .refl
      · rename_i hd
        exact .head (.declared _ _ hd) (ih _)

theorem steps_execute (space : ModuleSpace) (source : ModuleSource) :
    ReflTransGen Step space (space.execute source).2 := by
  have htypes := steps_declareTypes space source.name source.types
  unfold execute
  split
  · exact .refl
  split
  · rename_i heq
    rwa [heq] at htypes
  · rename_i heq
    rw [heq] at htypes
    split
    · exact htypes
    · rename_i hbound
      exact htypes.tail (.bound hbound)

theorem steps_importPart (space : ModuleSpace) (outer : List String) (part : String) :
    ReflTransGen Step space (space.importPart outer part).2 := by
  unfold importPart
  extract_lets name
  split
  · exact .refl
  split
  · exact .refl
  · rename_i source hsource
    have hexecute := steps_execute space source
    split
    · rename_i heq
      rwa [heq] at hexecute
    · rename_i heq
      rw [heq] at hexecute
      have hmem : source ∈ space.sources := List.mem_of_find?_eq_some hsource
      have hname : source.name = name := by simpa using List.find?_some hsource
      rw [← sources_of_steps hexecute] at hmem
      have hentered := hexecute.tail (.entered hmem)
      rw [hname] at hentered
      dsimp only
      split
      · exact hentered
      · exact hentered.tail (.attached _ _ _)

theorem steps_importParts (space : ModuleSpace) (outer parts : List String) :
    ReflTransGen Step space (space.importParts outer parts).2 := by
  induction parts generalizing space outer with
  | nil => exact .refl
  | cons part rest ih =>
      have hpart := steps_importPart space outer part
      rw [importParts]
      split
      · rename_i heq
        rwa [heq] at hpart
      · rename_i heq
        rw [heq] at hpart
        exact hpart.trans (ih _ _)

theorem steps_importModule (space : ModuleSpace) (name : String) :
    ReflTransGen Step space (space.importModule name).2 := by
  unfold importModule
  split
  · exact .refl
  split
  · exact .refl
  · exact steps_importParts _ _ _

theorem steps_of_importModule {name : String} {r : Except Fault Unit}
    (h : space.importModule name = (r, later)) : ReflTransGen Step space later := by
  have hsteps := steps_importModule space name
  rwa [h] at hsteps

theorem steps_searchModules (space : ModuleSpace) (parts : List String) (n : Nat) :
    ReflTransGen Step space (space.searchModules parts n).space := by
  induction n generalizing space with
  | zero => exact .refl
  | succ n ih =>
      rw [searchModules]
      generalize Text.joinDots (parts.take (n + 1)) = moduleName
      split
      · exact .refl
      have hmodule := steps_importModule space moduleName
      split
      · rename_i heq
        rwa [heq] at hmodule
      · rename_i heq
        rw [heq] at hmodule
        split
        · exact hmodule.trans (ih _)
        · exact hmodule

theorem steps_resolveType (space : ModuleSpace) (name : String) :
    ReflTransGen Step space (space.resolveType name).space := by
  unfold resolveType
  split
  · exact .refl
  · exact steps_searchModules _ _ _

/-! ### What steps keep -/

theorem Step.reachable (h : Step space later) (hspace : space.catalogue.Reachable) :
    later.catalogue.Reachable := by
  cases h with
  | declared _ _ h =>
      rw [(rebinds_bindNested _ _ _ _).catalogue]
      exact .declare hspace h
  | bound h =>
      rw [(rebinds_of_bindAll _ h).catalogue]
      exact hspace
  | entered => exact hspace
  | attached => exact hspace

theorem Step.loaded_subset (h : Step space later) : space.loaded ⊆ later.loaded := by
  cases h with
  | declared =>
      rw [(rebinds_bindNested _ _ _ _).loaded]
      exact List.Subset.refl _
  | bound h =>
      rw [(rebinds_of_bindAll _ h).loaded]
      exact List.Subset.refl _
  | entered => exact List.subset_cons_self _ _
  | attached => exact List.Subset.refl _

theorem loaded_subset_of_steps (h : ReflTransGen Step space later) :
    space.loaded ⊆ later.loaded := by
  induction h with
  | refl => exact List.Subset.refl _
  | tail _ hstep ih => exact List.Subset.trans ih hstep.loaded_subset

/-- There is a module of the name: it was imported, or it has a source. -/
def Importable (space : ModuleSpace) (name : String) : Prop :=
  name ∈ space.loaded ∨ ∃ source ∈ space.sources, source.name = name

theorem Step.importable_iff (h : Step space later) (name : String) :
    later.Importable name ↔ space.Importable name := by
  unfold Importable
  rw [h.sources]
  cases h with
  | declared => rw [(rebinds_bindNested _ _ _ _).loaded]
  | bound h => rw [(rebinds_of_bindAll _ h).loaded]
  | @entered source hsource =>
      constructor
      · rintro (hloaded | hfound)
        · rcases List.mem_cons.mp hloaded with rfl | hloaded
          · exact .inr ⟨source, hsource, rfl⟩
          · exact .inl hloaded
        · exact .inr hfound
      · exact Or.imp_left (List.mem_cons_of_mem _)
  | attached => rfl

theorem importable_iff_of_steps (h : ReflTransGen Step space later) (name : String) :
    later.Importable name ↔ space.Importable name := by
  induction h with
  | refl => rfl
  | tail _ hstep ih => exact (hstep.importable_iff name).trans ih

end ModuleSpace

end DeliveryLedger
