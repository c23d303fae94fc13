import DeliveryLedger.Proofs.ImportSteps
/-!
The search for the class of a type name, made a second time.

The imports of a search that did not fail are settled: made again, they end as they did and
change nothing (`searchModules_again`).  The registry, though, is read before the imports and
not after them.  A second call returns the class that the first one left registered, whatever
the first call itself answered (`resolveType_again`).
-/

namespace DeliveryLedger

theorem exists_of_mapM_eq_error {ε α β : Type} {f : α → Except ε β} {as : List α} {e : ε}
    (h : as.mapM f = .error e) : ∃ a ∈ as, f a = .error e := by
  induction as with
  | nil => cases h
  | cons a as ih =>
      rw [List.mapM_cons] at h
      rcases bind_eq_error_iff.mp h with ha | ⟨b, -, h⟩
      · exact ⟨a, by simp, ha⟩
      · rcases bind_eq_error_iff.mp h with has | ⟨bs, -, h⟩
        · obtain ⟨x, hx, hfx⟩ := ih has
          exact ⟨x, by simp [hx], hfx⟩
        · cases h

/-! ### Faults of imports

A search steps over modules that are missing or broken.  Of the faults of an import these are
the ones that nothing but the module system raises: no declaration and no attribute does. -/

namespace Catalogue

theorem isImportFault_of_declare {cat : Catalogue} {homeModule : String} {d : ClassDeclaration}
    {fault : Fault} (h : cat.declare homeModule d = .error fault) :
    fault.isImportFault = false := by
  unfold declare at h
  rcases bind_eq_error_iff.mp h with hbases | ⟨bases, -, h⟩
  · unfold bases? at hbases
    split at hbases
    · cases hbases
    · obtain ⟨name, -, hname⟩ := exists_of_mapM_eq_error hbases
      split at hname
      · cases hname
      · cases hname
        rfl
  · dsimp only at h
    split at h
    · cases h
      rfl
    · cases h

end Catalogue

namespace ModuleSpace

mutual

theorem isImportFault_of_realize (t : Target) {space : ModuleSpace} {name : String}
    {fault : Fault} (h : realize space name t = .error fault) : fault.isImportFault = false := by
  cases t with
  | occurrence key =>
      rw [realize] at h
      split at h
      · cases h
      · cases h
        rfl
  | list items =>
      rw [realize] at h
      rcases bind_eq_error_iff.mp h with hitems | ⟨_, -, h⟩
      · exact isImportFault_of_realizeAll items hitems
      · cases h
  | tuple items =>
      rw [realize] at h
      rcases bind_eq_error_iff.mp h with hitems | ⟨_, -, h⟩
      · exact isImportFault_of_realizeAll items hitems
      · cases h
  | stream items | breaking items fault =>
      rw [realize] at h
      rcases bind_eq_error_iff.mp h with hitems | ⟨_, -, h⟩
      · exact isImportFault_of_realizeAll items hitems
      · cases h
  | plainClass attributes =>
      rw [realize] at h
      rcases bind_eq_error_iff.mp h with hbound | ⟨_, -, h⟩
      · exact isImportFault_of_bindAll attributes hbound
      · cases h
  | _ =>
      rw [realize] at h
      cases h

theorem isImportFault_of_realizeAll (ts : List Target) {space : ModuleSpace} {name : String}
    {fault : Fault} (h : realizeAll space name ts = .error fault) :
    fault.isImportFault = false := by
  cases ts with
  | nil => cases h
  | cons t ts =>
      rw [realizeAll] at h
      rcases bind_eq_error_iff.mp h with ht | ⟨_, -, h⟩
      · exact isImportFault_of_realize t ht
      · rcases bind_eq_error_iff.mp h with hts | ⟨_, -, h⟩
        · exact isImportFault_of_realizeAll ts hts
        · cases h

theorem isImportFault_of_bindAll (ts : List (String × Target)) {space : ModuleSpace}
    {owner : Owner} {fault : Fault} (h : bindAll space owner ts = .error fault) :
    fault.isImportFault = false := by
  cases ts with
  | nil => cases h
  | cons t ts =>
      obtain ⟨name, t⟩ := t
      rw [bindAll] at h
      rcases bind_eq_error_iff.mp h with ht | ⟨_, -, h⟩
      · exact isImportFault_of_realize t ht
      · exact isImportFault_of_bindAll ts h

end

variable {space later : ModuleSpace} {fault : Fault}

theorem isImportFault_of_declareTypes {moduleName : String} {ds : List ClassDeclaration}
    (h : space.declareTypes moduleName ds = (.error fault, later)) :
    fault.isImportFault = false := by
  induction ds generalizing space with
  | nil => cases (Prod.mk.inj h).1
  | cons d ds ih =>
      rw [declareTypes] at h
      split at h
      · rename_i hd
        obtain ⟨hfault, -⟩ := Prod.mk.inj h
        cases hfault
        exact Catalogue.isImportFault_of_declare hd
      · exact ih h

theorem eq_of_execute_importFault {source : ModuleSource}
    (h : space.execute source = (.error fault, later)) (hfault : fault.isImportFault = true) :
    later = space := by
  unfold execute at h
  split at h
  · exact (Prod.mk.inj h).2.symm
  split at h
  · rename_i hdeclare
    obtain ⟨hsame, -⟩ := Prod.mk.inj h
    cases hsame
    simp [isImportFault_of_declareTypes hdeclare] at hfault
  · split at h
    · rename_i hbound
      obtain ⟨hsame, -⟩ := Prod.mk.inj h
      cases hsame
      simp [isImportFault_of_bindAll _ hbound] at hfault
    · cases (Prod.mk.inj h).1

/-! ### Imports made again -/

theorem importPart_of_loaded {outer : List String} {part : String}
    (h : Text.joinDots (outer ++ [part]) ∈ space.loaded) :
    space.importPart outer part = (.ok (), space) := by
  unfold importPart
  rw [if_pos (by simpa using h)]

theorem mem_loaded_importPart {outer : List String} {part : String}
    (h : space.importPart outer part = (.ok (), later)) :
    Text.joinDots (outer ++ [part]) ∈ later.loaded := by
  unfold importPart at h
  extract_lets name at h
  split at h
  · rename_i hloaded
    obtain ⟨-, rfl⟩ := Prod.mk.inj h
    simpa using hloaded
  split at h
  · cases (Prod.mk.inj h).1
  split at h
  · cases (Prod.mk.inj h).1
  · obtain ⟨-, rfl⟩ := Prod.mk.inj h
    split <;> exact List.mem_cons_self

theorem eq_of_importPart_importFault {outer : List String} {part : String}
    (h : space.importPart outer part = (.error fault, later))
    (hfault : fault.isImportFault = true) : later = space := by
  unfold importPart at h
  extract_lets name at h
  split at h
  · cases (Prod.mk.inj h).1
  split at h
  · exact (Prod.mk.inj h).2.symm
  split at h
  · rename_i hexecute
    obtain ⟨hsame, rfl⟩ := Prod.mk.inj h
    cases hsame
    exact eq_of_execute_importFault hexecute hfault
  · cases (Prod.mk.inj h).1

/-- An attempt after which a search goes on, or ends: the import succeeded, or the module is
missing or broken. -/
def IsRegular (r : Except Fault Unit) : Prop := ∀ fault, r = .error fault → fault.isImportFault

/-- The modules of a row of parts are imported already, all of them or all up to one that is
missing or broken. -/
inductive Settled (space : ModuleSpace) : List String → List String → Prop where
  | done (outer : List String) : Settled space outer []
  | imported {outer rest : List String} {part : String}
      (h : space.importPart outer part = (.ok (), space))
      (hrest : Settled space (outer ++ [part]) rest) : Settled space outer (part :: rest)
  | missing {outer rest : List String} {part : String} {fault : Fault}
      (h : space.importPart outer part = (.error fault, space))
      (hfault : fault.isImportFault) : Settled space outer (part :: rest)

namespace Settled

variable {outer parts : List String}

theorem importParts (h : space.Settled outer parts) :
    ∃ r, IsRegular r ∧ space.importParts outer parts = (r, space) := by
  induction h with
  | done => exact ⟨.ok (), by simp [IsRegular], rfl⟩
  | imported h _ ih =>
      obtain ⟨r, hr, hparts⟩ := ih
      refine ⟨r, hr, ?_⟩
      rw [ModuleSpace.importParts, h]
      exact hparts
  | @missing _ _ _ fault h hfault =>
      refine ⟨.error fault, ?_, ?_⟩
      · rintro _ ⟨⟩
        exact hfault
      · rw [ModuleSpace.importParts, h]

theorem take (h : space.Settled outer parts) (n : Nat) : space.Settled outer (parts.take n) := by
  induction h generalizing n with
  | done =>
      rw [List.take_nil]
      exact .done _
  | imported h _ ih =>
      cases n with
      | zero => exact .done _
      | succ n => exact .imported h (ih n)
  | missing h hfault =>
      cases n with
      | zero => exact .done _
      | succ n => exact .missing h hfault

theorem importModule {name : String} (h : space.Settled [] (Text.splitDots name)) :
    ∃ r, space.importModule name = (r, space) := by
  unfold ModuleSpace.importModule
  split
  · exact ⟨_, rfl⟩
  split
  · exact ⟨_, rfl⟩
  · obtain ⟨r, -, hparts⟩ := h.importParts
    exact ⟨r, hparts⟩

end Settled

theorem importParts_again {outer parts : List String} {r : Except Fault Unit}
    (h : space.importParts outer parts = (r, later)) (hr : IsRegular r) :
    later.Settled outer parts ∧ later.importParts outer parts = (r, later) := by
  induction parts generalizing space outer with
  | nil =>
      obtain ⟨rfl, rfl⟩ := Prod.mk.inj h
      exact ⟨.done _, rfl⟩
  | cons part rest ih =>
      rw [importParts] at h
      split at h
      · rename_i fault middle hpart
        obtain ⟨rfl, rfl⟩ := Prod.mk.inj h
        have hfault := hr fault rfl
        obtain rfl := eq_of_importPart_importFault hpart hfault
        refine ⟨.missing hpart hfault, ?_⟩
        rw [importParts, hpart]
      · rename_i middle hpart
        obtain ⟨hsettled, hagain⟩ := ih h
        have hloaded : later.importPart outer part = (.ok (), later) := by
          apply importPart_of_loaded
          have hsubset := loaded_subset_of_steps (steps_importParts middle (outer ++ [part]) rest)
          rw [h] at hsubset
          exact hsubset (mem_loaded_importPart hpart)
        refine ⟨.imported hloaded hsettled, ?_⟩
        rw [importParts, hloaded]
        exact hagain

theorem importModule_again {name : String} {r : Except Fault Unit}
    (h : space.importModule name = (r, later)) (hr : IsRegular r) :
    later.Settled [] (Text.splitDots name) ∧ later.importModule name = (r, later) := by
  unfold importModule at h ⊢
  split at h
  · obtain ⟨rfl, -⟩ := Prod.mk.inj h
    exact absurd (hr _ rfl) (by simp [Fault.isImportFault])
  split at h
  · obtain ⟨rfl, -⟩ := Prod.mk.inj h
    exact absurd (hr _ rfl) (by simp [Fault.isImportFault])
  · rename_i hname hhead
    rw [if_neg hname, if_neg hhead]
    exact importParts_again h hr

/-! ### The steps of a search -/

section

variable {parts : List String} {n : Nat}

theorem searchModules_of_nameless (h : Text.joinDots (parts.take (n + 1)) = "") :
    space.searchModules parts (n + 1) = ⟨.ok none, 0, space⟩ := by
  rw [searchModules]
  dsimp only
  rw [if_pos h]

theorem searchModules_of_imported (hname : Text.joinDots (parts.take (n + 1)) ≠ "")
    (h : space.importModule (Text.joinDots (parts.take (n + 1))) = (.ok (), later)) :
    space.searchModules parts (n + 1) =
      ⟨.ok (later.classAt? (Text.joinDots (parts.take (n + 1))) (parts.drop (n + 1))), 1,
        later⟩ := by
  rw [searchModules]
  dsimp only
  rw [if_neg hname, h]

theorem searchModules_of_failed (hname : Text.joinDots (parts.take (n + 1)) ≠ "")
    (h : space.importModule (Text.joinDots (parts.take (n + 1))) = (.error fault, later)) :
    space.searchModules parts (n + 1) =
      if fault.isImportFault then
        ⟨(later.searchModules parts n).outcome, (later.searchModules parts n).attempts + 1,
          (later.searchModules parts n).space⟩
      else ⟨.error fault, 1, later⟩ := by
  rw [searchModules]
  dsimp only
  rw [if_neg hname, h]

end

/-! ### Searches made again -/

theorem space_searchModules_of_settled {name : String} {n : Nat} {found : Option ClassId}
    (hsettled : space.Settled [] ((Text.splitDots name).take n))
    (hok : (space.searchModules (Text.splitDots name) n).outcome = .ok found) :
    (space.searchModules (Text.splitDots name) n).space = space := by
  induction n with
  | zero => rfl
  | succ n ih =>
      by_cases hname : Text.joinDots ((Text.splitDots name).take (n + 1)) = ""
      · rw [searchModules_of_nameless hname]
      have hfewer := hsettled.take n
      rw [List.take_take, Nat.min_eq_left (Nat.le_succ n)] at hfewer
      rw [← Text.splitDots_joinDots_take] at hsettled
      obtain ⟨fault | ⟨⟩, hmodule⟩ := hsettled.importModule
      · rw [searchModules_of_failed hname hmodule] at hok ⊢
        split at hok
        · rename_i hfault
          rw [if_pos hfault]
          exact ih hfewer hok
        · cases hok
      · rw [searchModules_of_imported hname hmodule]

/-- A search that did not fail ends a second time as it did, and changes nothing. -/
theorem searchModules_again {name : String} {n : Nat} {found : Option ClassId}
    (hok : (space.searchModules (Text.splitDots name) n).outcome = .ok found) :
    (space.searchModules (Text.splitDots name) n).space.searchModules (Text.splitDots name) n =
      space.searchModules (Text.splitDots name) n := by
  cases n with
  | zero => rfl
  | succ n =>
      by_cases hname : Text.joinDots ((Text.splitDots name).take (n + 1)) = ""
      · rw [searchModules_of_nameless hname, searchModules_of_nameless hname]
      rcases hmodule : space.importModule (Text.joinDots ((Text.splitDots name).take (n + 1)))
        with ⟨fault | ⟨⟩, middle⟩
      · rw [searchModules_of_failed hname hmodule] at hok ⊢
        split at hok
        · rename_i hfault
          have hregular : IsRegular (.error fault) := by
            rintro _ ⟨⟩
            exact hfault
          obtain ⟨hsettled, hagain⟩ := importModule_again hmodule hregular
          have hfewer := hsettled.take n
          rw [Text.splitDots_joinDots_take, List.take_take, Nat.min_eq_left (Nat.le_succ n)]
            at hfewer
          -- The shorter names are settled too, so the rest of the search changes nothing.
          have hspace := space_searchModules_of_settled hfewer hok
          rw [if_pos hfault]
          dsimp only
          rw [hspace, searchModules_of_failed hname hagain, if_pos hfault, hspace]
        · cases hok
      · have hagain := (importModule_again hmodule (by simp [IsRegular])).2
        rw [searchModules_of_imported hname hmodule]
        exact searchModules_of_imported hname hagain

theorem resolveType_of_registered {name : String} {type : ClassId}
    (h : space.catalogue.registered? name = some type) :
    space.resolveType name = ⟨.ok (some type), 0, space⟩ := by
  unfold resolveType
  rw [h]

theorem resolveType_of_unregistered {name : String}
    (h : space.catalogue.registered? name = none) :
    space.resolveType name =
      space.searchModules (Text.splitDots name) ((Text.splitDots name).length - 1) := by
  unfold resolveType
  rw [h]

/-- After a search that did not fail, a second one finds the class that is registered by then,
and only if there is none, what the first one found; from then on nothing changes.  The two
answers are the same just if the first search found whatever class its imports registered. -/
theorem resolveType_again {name : String} {found : Option ClassId}
    (h : (space.resolveType name).outcome = .ok found) :
    let after := (space.resolveType name).space
    (after.resolveType name).outcome = .ok ((after.catalogue.registered? name).or found) ∧
      (after.resolveType name).space = after ∧
      ((after.resolveType name).outcome = .ok found ↔
        ∀ type, after.catalogue.registered? name = some type → found = some type) := by
  intro after
  have hagain : (after.resolveType name).outcome =
        .ok ((after.catalogue.registered? name).or found) ∧
      (after.resolveType name).space = after := by
    cases hafter : after.catalogue.registered? name with
    | some type =>
        rw [resolveType_of_registered hafter]
        exact ⟨rfl, rfl⟩
    | none =>
        have hbefore : space.catalogue.registered? name = none := by
          cases hregistered : space.catalogue.registered? name with
          | none => rfl
          | some type =>
              have hsame : after = space := by
                simp only [after, resolveType_of_registered hregistered]
              rw [hsame, hregistered] at hafter
              cases hafter
        have hfirst := resolveType_of_unregistered hbefore
        rw [hfirst] at h
        rw [resolveType_of_unregistered hafter]
        simp only [after, hfirst, searchModules_again h]
        exact ⟨h, trivial⟩
  refine ⟨hagain.1, hagain.2, ?_⟩
  rw [hagain.1, Except.ok.injEq]
  cases hafter : after.catalogue.registered? name with
  | none => simp
  | some type => simp [eq_comm]

/-- A module of one class, which was renamed and keeps its former type name. -/
def renamedSource : ModuleSource :=
  { name := "shop"
    types := [{ key := "OrderPlaced", fields := [], moduleName := none, localName := none,
                pinned := some "shop.Order", bases := [] }]
    attributes := [], raises := none }

/-- Modules of which none was imported. -/
def renamedSpace : ModuleSpace := ModuleSpace.initial [renamedSource]

/-- The first search imports the module and so registers the class, but does not find it; the
second one does. -/
theorem resolveType_again_renamed :
    let after := (renamedSpace.resolveType "shop.Order").space
    (renamedSpace.resolveType "shop.Order").outcome = .ok none ∧
      (after.resolveType "shop.Order").outcome = .ok (some 1) ∧
      (after.resolveType "shop.Order").space = after := by
  have hfirst : (renamedSpace.resolveType "shop.Order").outcome = .ok none := rfl
  obtain ⟨hsecond, hspace, -⟩ := resolveType_again hfirst
  exact ⟨hfirst, hsecond, hspace⟩

end ModuleSpace

/-- A stored occurrence of a renamed class cannot be rebuilt at first, though the attempt
registers its class; the next attempt rebuilds it. -/
theorem unresolvable_at_first_renamed :
    let p : Payload := ⟨"shop.Order", "\x7b\x7d"⟩
    let first := p.resolve ModuleSpace.renamedSpace
    first.1 = .error (.unresolvable "shop.Order" "type is not registered") ∧
      first.2.catalogue.registered? "shop.Order" = some 1 ∧
      (p.resolve first.2).1 = .ok ⟨1, []⟩ := by
  exact ⟨rfl, rfl, rfl⟩

end DeliveryLedger
