import DeliveryLedger.Proofs.SoundModules
import DeliveryLedger.Proofs.TypeSearch
import Mathlib.Data.List.TakeDrop
/-!
The search for the module in which a class was defined.

A type name does not say where its module ends and the names of classes around the class begin.
The search is a loop over two names (`Runs`): it tries to import what it takes for the module,
and if there is no such module, it moves the last part over to the name of the class.  Each pass
takes one point away from the module, so that the loop ends (`runs_searchModules`).  For a class
that was defined in a module it stops at this module, provided that no module has the name of an
outer class (`searchModules_backs_off`).
-/

namespace DeliveryLedger

namespace Text

/-- What stands before the last point of a name; nothing if there is no point. -/
def outerPart (name : String) : String := joinDots (splitDots name).dropLast

/-- What stands behind the last point of a name. -/
def lastPart (name : String) : String := (splitDots name).getLast (splitDots_ne_nil name)

theorem outerPart_joinDots_take {name : String} {n : Nat} (hn : n < (splitDots name).length) :
    outerPart (joinDots ((splitDots name).take (n + 1))) = joinDots ((splitDots name).take n) := by
  rw [outerPart, splitDots_joinDots_take, List.dropLast_eq_take, List.take_take,
    List.length_take_of_le hn, Nat.succ_sub_one, Nat.min_eq_left (Nat.le_succ n)]

theorem lastPart_joinDots_take {name : String} {n : Nat} (hn : n < (splitDots name).length) :
    lastPart (joinDots ((splitDots name).take (n + 1))) = (splitDots name)[n] := by
  simp only [lastPart, splitDots_joinDots_take, List.getLast_eq_getElem, List.length_take,
    List.getElem_take]
  congr 1
  omega

end Text

namespace ModuleSpace

variable {space middle later after : ModuleSpace} {name moduleName : String}

/-! ### The loop -/

/-- The runs of the loop, by what it takes for the module and for the class in it. -/
inductive Runs : ModuleSpace → String → String → Search → Prop where
  | nameless {space : ModuleSpace} {localName : String} :
      Runs space "" localName ⟨.ok none, 0, space⟩
  | imported {space later : ModuleSpace} {moduleName localName : String}
      (hname : moduleName ≠ "") (h : space.importModule moduleName = (.ok (), later)) :
      Runs space moduleName localName
        ⟨.ok (later.classAt? moduleName (Text.splitDots localName)), 1, later⟩
  | raised {space later : ModuleSpace} {moduleName localName : String} {fault : Fault}
      (hname : moduleName ≠ "") (h : space.importModule moduleName = (.error fault, later))
      (hfault : fault.isImportFault = false) :
      Runs space moduleName localName ⟨.error fault, 1, later⟩
  | missing {space later : ModuleSpace} {moduleName localName : String} {fault : Fault}
      {rest : Search} (hname : moduleName ≠ "")
      (h : space.importModule moduleName = (.error fault, later))
      (hfault : fault.isImportFault = true)
      (hrest : Runs later (Text.outerPart moduleName)
        (Text.lastPart moduleName ++ "." ++ localName) rest) :
      Runs space moduleName localName ⟨rest.outcome, rest.attempts + 1, rest.space⟩

theorem Runs.unique {localName : String} {s t : Search} (h : space.Runs moduleName localName s)
    (k : space.Runs moduleName localName t) : t = s := by
  induction h generalizing t with
  | nameless =>
      cases k with
      | nameless => rfl
      | imported hname => exact absurd rfl hname
      | raised hname => exact absurd rfl hname
      | missing hname => exact absurd rfl hname
  | imported hname h =>
      cases k with
      | nameless => exact absurd rfl hname
      | imported _ h' => cases h.symm.trans h'; rfl
      | raised _ h' => cases h.symm.trans h'
      | missing _ h' => cases h.symm.trans h'
  | raised hname h hfault =>
      cases k with
      | nameless => exact absurd rfl hname
      | imported _ h' => cases h.symm.trans h'
      | raised _ h' => cases h.symm.trans h'; rfl
      | missing _ h' hfault' =>
          cases h.symm.trans h'
          exact absurd hfault' (by simp [hfault])
  | missing hname h hfault _ ih =>
      cases k with
      | nameless => exact absurd rfl hname
      | imported _ h' => cases h.symm.trans h'
      | raised _ h' hfault' =>
          cases h.symm.trans h'
          exact absurd hfault (by simp [hfault'])
      | missing _ h' _ hrest =>
          cases h.symm.trans h'
          rw [ih hrest]

theorem Runs.isImportFault {localName : String} {s : Search} {fault : Fault}
    (h : space.Runs moduleName localName s) (hs : s.outcome = .error fault) :
    fault.isImportFault = false := by
  induction h with
  | nameless => cases hs
  | imported => cases hs
  | raised _ _ hfault =>
      cases hs
      exact hfault
  | missing _ _ _ _ ih => exact ih hs

theorem runs_searchModules (space : ModuleSpace) {n : Nat}
    (hn : n < (Text.splitDots name).length) :
    space.Runs (Text.joinDots ((Text.splitDots name).take n))
      (Text.joinDots ((Text.splitDots name).drop n))
      (space.searchModules (Text.splitDots name) n) := by
  -- Each pass takes one part from the module, so the induction is on their number.
  induction n generalizing space with
  | zero => exact .nameless
  | succ n ih =>
      have hparts : ∀ part ∈ (Text.splitDots name).drop (n + 1), '.' ∉ part.toList :=
        fun part hpart => Text.not_mem_of_mem_splitDots (List.mem_of_mem_drop hpart)
      have hlocal : (Text.splitDots name).drop (n + 1) ≠ [] := by
        simpa [List.drop_eq_nil_iff] using hn
      by_cases hname : Text.joinDots ((Text.splitDots name).take (n + 1)) = ""
      · rw [searchModules_of_nameless hname, hname]
        exact .nameless
      rcases hmodule : space.importModule (Text.joinDots ((Text.splitDots name).take (n + 1)))
        with ⟨fault | ⟨⟩, later⟩
      · rw [searchModules_of_failed hname hmodule]
        cases hfault : fault.isImportFault with
        | false => exact .raised hname hmodule hfault
        | true =>
            have hn' : n < (Text.splitDots name).length := Nat.lt_of_succ_lt hn
            have hrest := ih later hn'
            rw [List.drop_eq_getElem_cons hn', Text.joinDots_cons _ hlocal,
              ← Text.lastPart_joinDots_take hn', ← Text.outerPart_joinDots_take hn'] at hrest
            exact .missing hname hmodule hfault hrest
      · rw [searchModules_of_imported hname hmodule]
        have himported := @Runs.imported _ _ _
          (Text.joinDots ((Text.splitDots name).drop (n + 1))) hname hmodule
        rwa [Text.splitDots_joinDots hlocal hparts] at himported

/-- The loop of a type name that is not registered starts at the last point of the name. -/
theorem runs_resolveType (h : space.catalogue.registered? name = none) :
    space.Runs (Text.outerPart name) (Text.lastPart name) (space.resolveType name) := by
  have hlength : (Text.splitDots name).length - 1 < (Text.splitDots name).length :=
    Nat.sub_one_lt_of_lt (List.length_pos_iff.mpr (Text.splitDots_ne_nil name))
  have hlast : (Text.splitDots name).drop ((Text.splitDots name).length - 1) =
      [Text.lastPart name] := List.drop_length_sub_one (Text.splitDots_ne_nil name)
  have hruns := space.runs_searchModules hlength
  rw [hlast, ← List.dropLast_eq_take] at hruns
  rwa [Text.joinDots_singleton, ← resolveType_of_unregistered h] at hruns

theorem attempts_searchModules_le (space : ModuleSpace) (parts : List String) (n : Nat) :
    (space.searchModules parts n).attempts ≤ n := by
  induction n generalizing space with
  | zero => exact Nat.le_refl 0
  | succ n ih =>
      by_cases hname : Text.joinDots (parts.take (n + 1)) = ""
      · rw [searchModules_of_nameless hname]
        exact Nat.zero_le _
      rcases hmodule : space.importModule (Text.joinDots (parts.take (n + 1)))
        with ⟨fault | ⟨⟩, later⟩
      · rw [searchModules_of_failed hname hmodule]
        split
        · exact Nat.succ_le_succ (ih later)
        · exact Nat.succ_le_succ (Nat.zero_le n)
      · rw [searchModules_of_imported hname hmodule]
        exact Nat.succ_le_succ (Nat.zero_le n)

theorem attempts_resolveType_le (space : ModuleSpace) (name : String) :
    (space.resolveType name).attempts ≤ name.toList.count '.' := by
  cases h : space.catalogue.registered? name with
  | some id =>
      rw [resolveType_of_registered h]
      exact Nat.zero_le _
  | none =>
      rw [resolveType_of_unregistered h, Text.length_splitDots, Nat.add_sub_cancel]
      exact attempts_searchModules_le space _ _

theorem Runs.lt_of_found {localName : String} {s : Search} {type : ClassId}
    (h : space.Runs moduleName localName s) (hsound : s.space.Sound)
    (hfound : s.outcome = .ok (some type)) : type < s.space.catalogue.classes.length := by
  induction h with
  | nameless => cases hfound
  | imported => exact hsound.classAt? (Except.ok.inj hfound)
  | raised => cases hfound
  | missing _ _ _ _ ih => exact ih hsound hfound

theorem Sound.derives_of_resolveType (hspace : space.Sound) {type : ClassId}
    (h : (space.resolveType name).outcome = .ok (some type)) :
    (space.resolveType name).space.catalogue.derives type 0 := by
  have hsound := sound_of_steps (steps_resolveType space name) hspace
  refine hsound.reachable.derives_zero ?_
  cases hregistered : space.catalogue.registered? name with
  | some id =>
      rw [resolveType_of_registered hregistered] at h ⊢
      cases h
      exact hspace.reachable.lt_of_registered hregistered
  | none =>
      exact (runs_resolveType hregistered).lt_of_found hsound h

/-! ### The way back to the module -/

theorem importModule_eq_ok (h : space.importModule moduleName = (.ok (), later)) :
    moduleName ≠ "" ∧ moduleName.toList.head? ≠ some '.' ∧
      space.importParts [] (Text.splitDots moduleName) = (.ok (), later) := by
  unfold importModule at h
  split at h
  · cases (Prod.mk.inj h).1
  split at h
  · cases (Prod.mk.inj h).1
  · exact ⟨‹_›, ‹_›, h⟩

theorem mem_loaded_importParts {outer parts : List String} (hne : parts ≠ [])
    (h : space.importParts outer parts = (.ok (), later)) :
    Text.joinDots (outer ++ parts) ∈ later.loaded := by
  induction parts generalizing space outer with
  | nil => exact absurd rfl hne
  | cons part rest ih =>
      rw [importParts] at h
      split at h
      · cases (Prod.mk.inj h).1
      · rename_i middle hpart
        cases rest with
        | nil =>
            obtain ⟨-, rfl⟩ := Prod.mk.inj h
            exact mem_loaded_importPart hpart
        | cons next rest =>
            have hmem := ih (List.cons_ne_nil next rest) h
            rwa [List.append_assoc, List.singleton_append] at hmem

theorem mem_loaded_importModule (h : space.importModule moduleName = (.ok (), later)) :
    moduleName ∈ later.loaded := by
  have hmem := mem_loaded_importParts (Text.splitDots_ne_nil moduleName) (importModule_eq_ok h).2.2
  rwa [List.nil_append, Text.joinDots_splitDots] at hmem

theorem importParts_append {outer parts more : List String}
    (h : space.importParts outer parts = (.ok (), middle)) :
    space.importParts outer (parts ++ more) = middle.importParts (outer ++ parts) more := by
  induction parts generalizing space outer with
  | nil =>
      obtain ⟨-, rfl⟩ := Prod.mk.inj h
      rw [List.nil_append, List.append_nil]
  | cons part rest ih =>
      rw [importParts] at h
      rw [List.cons_append, importParts]
      split at h
      · cases (Prod.mk.inj h).1
      · rw [ih h, List.append_assoc, List.singleton_append]

theorem importPart_of_not_importable {outer : List String} {part : String}
    (h : ¬ space.Importable (Text.joinDots (outer ++ [part]))) :
    space.importPart outer part = (.error (noModule (Text.joinDots (outer ++ [part]))), space) := by
  unfold importPart
  extract_lets moduleName
  have hloaded : ¬ space.loaded.contains moduleName := by
    rw [List.contains_iff_mem]
    exact fun hmem => h (.inl hmem)
  have hsource : space.sources.find? (·.name = moduleName) = none := by
    rw [List.find?_eq_none]
    intro source hmem hname
    exact h (.inr ⟨source, hmem, by simpa using hname⟩)
  rw [if_neg hloaded, hsource]

theorem importModule_of_absolute (hname : name ≠ "") (hhead : name.toList.head? ≠ some '.') :
    space.importModule name = space.importParts [] (Text.splitDots name) := by
  unfold importModule
  rw [if_neg hname, if_neg hhead]

theorem importModule_of_inner {part : String} {more : List String}
    (himport : space.importModule moduleName = (.ok (), after))
    (hparts : ∀ p ∈ part :: more, '.' ∉ p.toList)
    (hnone : ¬ space.Importable (moduleName ++ "." ++ part)) :
    space.importModule (Text.joinDots (Text.splitDots moduleName ++ part :: more)) =
      (.error (noModule (moduleName ++ "." ++ part)), after) := by
  obtain ⟨hname, hhead, hmodule⟩ := importModule_eq_ok himport
  have hjoin := Text.joinDots_splitDots_append moduleName (List.cons_ne_nil part more) hparts
  have hpart : Text.joinDots (Text.splitDots moduleName ++ [part]) = moduleName ++ "." ++ part := by
    rw [Text.joinDots_splitDots_append moduleName (List.cons_ne_nil part [])
      (List.forall_mem_singleton.mpr (hparts part List.mem_cons_self)), Text.joinDots_singleton]
  have hsplit : Text.splitDots (moduleName ++ "." ++ Text.joinDots (part :: more)) =
      Text.splitDots moduleName ++ part :: more := by
    rw [Text.splitDots_append, Text.splitDots_joinDots (List.cons_ne_nil part more) hparts]
  have hmissing : after.importPart (Text.splitDots moduleName) part =
      (.error (noModule (moduleName ++ "." ++ part)), after) := by
    rw [← hpart]
    apply importPart_of_not_importable
    rw [hpart, importable_iff_of_steps (steps_of_importModule himport)]
    exact hnone
  have habsolute : (moduleName ++ "." ++ Text.joinDots (part :: more)).toList.head? ≠ some '.' := by
    cases hchars : moduleName.toList with
    | nil => exact absurd (String.toList_eq_nil_iff.mp hchars) hname
    | cons c cs => simpa [hchars] using hhead
  rw [hjoin, importModule_of_absolute (by simp [hname]) habsolute, hsplit,
    importParts_append hmodule, List.nil_append, importParts, hmissing]

/-- From an inner class on the search comes back to the module, one attempt for each class. -/
theorem searchModules_backs_off {part : String} {more : List String}
    (himport : space.importModule moduleName = (.ok (), after))
    (hparts : ∀ p ∈ part :: more, '.' ∉ p.toList) {n : Nat}
    (hnone : 0 < n → ¬ space.Importable (moduleName ++ "." ++ part)) :
    space.searchModules (Text.splitDots moduleName ++ part :: more)
        ((Text.splitDots moduleName).length + n) =
      ⟨.ok (after.classAt? moduleName (part :: more)), n + 1, after⟩ := by
  induction n generalizing space with
  | zero =>
      obtain ⟨m, hm⟩ : ∃ m, (Text.splitDots moduleName).length = m + 1 :=
        Nat.exists_eq_add_one.mpr (List.length_pos_iff.mpr (Text.splitDots_ne_nil moduleName))
      have hname : Text.joinDots ((Text.splitDots moduleName ++ part :: more).take (m + 1)) =
          moduleName := by
        rw [← hm, List.take_left, Text.joinDots_splitDots]
      have hlocal : (Text.splitDots moduleName ++ part :: more).drop (m + 1) = part :: more := by
        rw [← hm, List.drop_left]
      rw [Nat.add_zero, hm,
        searchModules_of_imported (by rw [hname]; exact (importModule_eq_ok himport).1)
          (by rw [hname]; exact himport), hname, hlocal]
  | succ n ih =>
      have hnone' := hnone (Nat.succ_pos n)
      have hparts' : ∀ p ∈ part :: more.take n, '.' ∉ p.toList := fun p hp =>
        hparts p (List.take_subset (n + 1) _ (by rwa [List.take_succ_cons]))
      have htake : (Text.splitDots moduleName ++ part :: more).take
          ((Text.splitDots moduleName).length + n + 1) =
            Text.splitDots moduleName ++ part :: more.take n := by
        rw [Nat.add_assoc, List.take_length_add_append, List.take_succ_cons]
      have hfailed := importModule_of_inner himport hparts' hnone'
      have hnamed : Text.joinDots (Text.splitDots moduleName ++ part :: more.take n) ≠ "" := by
        rw [Text.joinDots_splitDots_append moduleName (List.cons_ne_nil _ _) hparts']
        simp
      rw [← htake] at hfailed hnamed
      -- The module stays imported, so the rest of the search is that from `after`.
      have hagain := (importModule_again himport (by simp [IsRegular])).2
      have hnone'' : ¬ after.Importable (moduleName ++ "." ++ part) := by
        rwa [importable_iff_of_steps (steps_of_importModule himport)]
      have hmissing : (noModule (moduleName ++ "." ++ part)).isImportFault = true := rfl
      rw [← Nat.add_assoc, searchModules_of_failed hnamed hfailed, if_pos hmissing,
        ih hagain fun _ => hnone'']

/-- The import of its module declares a class that is not pinned and binds it under its name. -/
structure Defines (space after : ModuleSpace) (type : ClassId) (c : OccurrenceClass) : Prop where
  imported : space.importModule c.moduleName = (.ok (), after)
  new : space.catalogue.classes.length ≤ type
  declared : after.catalogue.classes[type]? = some c
  unpinned : c.pinned = none ∨ c.pinned = some ""
  bound : after.classAt? c.moduleName (Text.splitDots c.localName) = some type

theorem Defines.typeName_eq {type : ClassId} {c : OccurrenceClass}
    (h : space.Defines after type c) : c.typeName = c.moduleName ++ "." ++ c.localName := by
  unfold OccurrenceClass.typeName
  rcases h.unpinned with hpinned | hpinned
  · rw [hpinned]
  · rw [hpinned]
    exact if_pos rfl

theorem Defines.resolveType_eq {type : ClassId} {c : OccurrenceClass}
    (h : space.Defines after type c) (hregistered : space.catalogue.registered? c.typeName = none)
    (hnone : ∀ i, 0 < i → i < (Text.splitDots c.localName).length →
      ¬ space.Importable
        (c.moduleName ++ "." ++ Text.joinDots ((Text.splitDots c.localName).take i))) :
    space.resolveType c.typeName =
      ⟨.ok (some type), (Text.splitDots c.localName).length, after⟩ := by
  obtain ⟨part, more, hlocal⟩ := List.exists_cons_of_ne_nil (Text.splitDots_ne_nil c.localName)
  have hparts : ∀ p ∈ part :: more, '.' ∉ p.toList := fun p hp =>
    Text.not_mem_of_mem_splitDots (hlocal ▸ hp)
  have hfirst : 0 < more.length → ¬ space.Importable (c.moduleName ++ "." ++ part) := by
    intro hmore
    have hnone' := hnone 1 Nat.one_pos (by rw [hlocal, List.length_cons]; omega)
    rwa [hlocal, List.take_succ_cons, List.take_zero, Text.joinDots_singleton] at hnone'
  have hbound := h.bound
  rw [resolveType_of_unregistered hregistered, h.typeName_eq, Text.splitDots_append,
    List.length_append]
  rw [hlocal] at hbound ⊢
  have hback := searchModules_backs_off h.imported hparts hfirst
  rwa [hbound] at hback

theorem Defines.registered {type : ClassId} {c : OccurrenceClass}
    (h : space.Defines after type c) :
    after.catalogue.registered? c.typeName = some type ∨
      ∃ other, type < other ∧ after.catalogue.registered? c.typeName = some other ∧
        after.catalogue.typeName other = c.typeName := by
  have hgrows := grows_of_steps (steps_of_importModule h.imported)
  obtain ⟨other, d, hregistered, hle, hd, hname⟩ := hgrows.named type c h.new h.declared
  rcases Nat.eq_or_lt_of_le hle with rfl | hlt
  · exact .inl hregistered
  · refine .inr ⟨other, hlt, hregistered, ?_⟩
    rw [Catalogue.typeName, hd]
    exact hname

/-- In every process a class that the import of its module defines is found through its type name,
after no more imports than the name of the class has parts.  Whatever the name, the search ends. -/
theorem resolveType_finds_importable {space : ModuleSpace} (hspace : space.Attainable) :
    (∀ after type c, space.Defines after type c →
      space.catalogue.registered? c.typeName = none →
      (∀ i, 0 < i → i < (Text.splitDots c.localName).length →
        ¬ space.Importable
          (c.moduleName ++ "." ++ Text.joinDots ((Text.splitDots c.localName).take i))) →
      space.resolveType c.typeName =
          ⟨.ok (some type), (Text.splitDots c.localName).length, after⟩ ∧
        c.moduleName ∈ after.loaded ∧
        (after.catalogue.registered? c.typeName = some type ∨
          ∃ other, type < other ∧ after.catalogue.registered? c.typeName = some other ∧
            after.catalogue.typeName other = c.typeName)) ∧
      ∀ name,
        (space.catalogue.registered? name = none →
          ∀ run, space.Runs (Text.outerPart name) (Text.lastPart name) run ↔
            run = space.resolveType name) ∧
        (space.resolveType name).attempts ≤ name.toList.count '.' ∧
        (∀ fault, (space.resolveType name).outcome = .error fault →
          fault.isImportFault = false) ∧
        ∀ type, (space.resolveType name).outcome = .ok (some type) →
          (space.resolveType name).space.catalogue.derives type 0 := by
  refine ⟨?_, fun name => ⟨?_, space.attempts_resolveType_le name, ?_, ?_⟩⟩
  · intro after type c h hregistered hnone
    exact ⟨h.resolveType_eq hregistered hnone, mem_loaded_importModule h.imported, h.registered⟩
  · intro hregistered run
    have hruns := runs_resolveType hregistered
    exact ⟨fun hrun => hruns.unique hrun, fun hrun => hrun ▸ hruns⟩
  · intro fault hfault
    cases hregistered : space.catalogue.registered? name with
    | some id =>
        rw [resolveType_of_registered hregistered] at hfault
        cases hfault
    | none => exact (runs_resolveType hregistered).isImportFault hfault
  · intro type htype
    exact hspace.sound.derives_of_resolveType htype

/-- A package, and a module in it with a class inside another one. -/
def nestedSources : List ModuleSource :=
  [{ name := "shop", types := [], attributes := [], raises := none },
   { name := "shop.orders"
     types := [{ key := "Placed", fields := [], moduleName := none,
                 localName := some "Order.Placed", pinned := none, bases := [] }]
     attributes := [], raises := none }]

/-- The class that the import of the module declares. -/
def nestedClass : OccurrenceClass :=
  { key := "Placed", moduleName := "shop.orders", localName := "Order.Placed", pinned := none,
    fields := [], lineage := [1, 0] }

/-- The first attempt looks for a module of the outer class, the second one finds the class. -/
theorem resolveType_finds_importable_nested :
    let space := initial nestedSources
    let after := (space.importModule "shop.orders").2
    space.Attainable ∧ space.Defines after 1 nestedClass ∧
      space.catalogue.registered? nestedClass.typeName = none ∧
      (∀ i, 0 < i → i < (Text.splitDots nestedClass.localName).length →
        ¬ space.Importable (nestedClass.moduleName ++ "." ++
          Text.joinDots ((Text.splitDots nestedClass.localName).take i))) ∧
      nestedClass.typeName = "shop.orders.Order.Placed" ∧
      space.resolveType nestedClass.typeName = ⟨.ok (some 1), 2, after⟩ ∧
      "shop.orders" ∈ after.loaded := by
  intro space after
  have hspace : space.Attainable := .initial nestedSources
  have hdefines : space.Defines after 1 nestedClass :=
    ⟨rfl, Nat.le_refl 1, rfl, .inl rfl, rfl⟩
  have hregistered : space.catalogue.registered? nestedClass.typeName = none := rfl
  have hnone : ∀ i, 0 < i → i < (Text.splitDots nestedClass.localName).length →
      ¬ space.Importable (nestedClass.moduleName ++ "." ++
        Text.joinDots ((Text.splitDots nestedClass.localName).take i)) := by
    intro i hpos hi
    have hlength : (Text.splitDots nestedClass.localName).length = 2 := rfl
    obtain rfl : i = 1 := by omega
    unfold Importable
    decide
  obtain ⟨hfound, hloaded, -⟩ :=
    (resolveType_finds_importable hspace).1 after 1 nestedClass hdefines hregistered hnone
  exact ⟨hspace, hdefines, hregistered, hnone, rfl, hfound, hloaded⟩

end ModuleSpace

end DeliveryLedger
