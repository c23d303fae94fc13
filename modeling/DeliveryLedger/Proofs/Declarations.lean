import DeliveryLedger.Proofs.KeyedRows
import DeliveryLedger.Proofs.Outcome
/-!
Which catalogues there can be: declarations lead to them, and names may have been forgotten.

Every class of such a catalogue has fields of distinct names (`Reachable.nodup_fields`).
-/

namespace DeliveryLedger

namespace Catalogue

/-- The catalogues that declarations lead to. -/
inductive Reachable : Catalogue → Prop
  | initial : Reachable Catalogue.initial
  | declare {cat cat' : Catalogue} {homeModule : String} {d : ClassDeclaration} {id : ClassId}
      (h : Reachable cat) (hd : cat.declare homeModule d = .ok (id, cat')) : Reachable cat'
  | forget {cat : Catalogue} (name : String) (h : Reachable cat) : Reachable (cat.forget name)

theorem nodup_mergeFields (inherited own : List Field) :
    ((mergeFields inherited own).map (·.name)).Nodup := by
  have hnamed : ∀ m ∈ collectMembers ((inherited.reverse ++ own).map fun f => (f.name, f)),
      m.2.name = m.1 := by
    intro m hm
    obtain ⟨f, -, rfl⟩ := List.mem_map.mp (mem_of_mem_collectMembers hm)
    rfl
  have hnodup := nodup_collectMembers ((inherited.reverse ++ own).map fun f => (f.name, f))
  unfold mergeFields
  generalize collectMembers ((inherited.reverse ++ own).map fun f => (f.name, f)) = named
    at hnamed hnodup
  have hkeys : (named.map (·.2)).map (·.name) = keys named := by
    rw [List.map_map]
    exact List.map_congr_left hnamed
  rw [hkeys]
  exact hnodup

theorem declare_eq_ok {cat cat' : Catalogue} {homeModule : String} {d : ClassDeclaration}
    {id : ClassId} (h : cat.declare homeModule d = .ok (id, cat')) :
    id = cat.classes.length ∧ ∃ c : OccurrenceClass,
      cat' = ⟨cat.classes ++ [c], insertMember c.typeName cat.classes.length cat.registry⟩ ∧
        (c.fields.map (·.name)).Nodup := by
  obtain ⟨bases, -, h⟩ := bind_eq_ok_iff.mp h
  dsimp only at h
  split at h
  · cases h
  · cases h
    exact ⟨rfl, _, rfl, nodup_mergeFields _ _⟩

theorem Reachable.nodup_fields {cat : Catalogue} (h : cat.Reachable) (id : ClassId) :
    ((cat.fields id).map (·.name)).Nodup := by
  have hclasses : ∀ c ∈ cat.classes, (c.fields.map (·.name)).Nodup := by
    induction h with
    | initial =>
        intro c hc
        obtain rfl := List.mem_singleton.mp hc
        exact List.nodup_nil
    | declare _ hd ih =>
        obtain ⟨-, c, rfl, hc⟩ := declare_eq_ok hd
        intro c' hc'
        rw [List.mem_append, List.mem_singleton] at hc'
        rcases hc' with hc' | rfl
        · exact ih c' hc'
        · exact hc
    | forget name _ ih => exact ih
  unfold fields
  cases hfound : cat.classes[id]? with
  | none => exact List.nodup_nil
  | some c => exact hclasses c (List.mem_of_getElem? hfound)

end Catalogue

end DeliveryLedger
