import OberonImports.Proofs.Ascending
import OberonImports.Registry.Basic

/-!
# Undeclared names

The unresolved imports of a registry are the names that some module imports and none declares, in
strictly ascending order.
-/

namespace OberonImports

variable {name : String} {registry : Registry}

namespace Registry

/-- Some module of the registry has the name. -/
def Declares (registry : Registry) (name : String) : Prop :=
  ∃ module ∈ registry.modules, module.name = name

/-- Some module of the registry imports the name. -/
def Imports (registry : Registry) (name : String) : Prop :=
  ∃ module ∈ registry.modules, name ∈ module.imports

theorem nodup_names (registry : Registry) : (registry.modules.map (·.name)).Nodup :=
  List.pairwise_map.mpr (registry.ascending.imp fun hlt => hlt.ne)

theorem get?_eq_none_iff : registry.get? name = none ↔ ¬ registry.Declares name := by
  simp [get?, Declares]

theorem contains_iff : registry.contains name = true ↔ registry.Declares name := by
  rw [contains, Option.isSome_iff_ne_none, Ne, get?_eq_none_iff, not_not]

theorem resolve_eq_unresolved {imported : String} :
    registry.resolve imported = .unresolved name ↔ imported = name ∧ ¬ registry.Declares name := by
  unfold resolve
  split
  next module hfound =>
    have hdeclared : registry.Declares imported := by
      by_contra hnot
      rw [get?_eq_none_iff.mpr hnot] at hfound
      cases hfound
    simp only [reduceCtorEq, false_iff, not_and, not_not]
    rintro rfl
    exact hdeclared
  next hmissing =>
    have hnot := get?_eq_none_iff.mp hmissing
    simp only [Reference.unresolved.injEq]
    constructor
    · rintro rfl
      exact ⟨rfl, hnot⟩
    · exact fun hboth => hboth.1

/-- The unresolved imports are the names that are imported and not declared. -/
theorem mem_unresolvedImports :
    name ∈ registry.unresolvedImports ↔ registry.Imports name ∧ ¬ registry.Declares name := by
  simp only [unresolvedImports, List.mem_eraseDups, List.mem_mergeSort, List.mem_flatMap,
    List.mem_filterMap, importsOf, List.mem_map]
  constructor
  · rintro ⟨module, hmodule, _, ⟨imported, himported, rfl⟩, hunresolved⟩
    cases hresolve : registry.resolve imported with
    | resolved found => simp [hresolve] at hunresolved
    | unresolved missing =>
        rw [hresolve] at hunresolved
        obtain rfl := Option.some.inj hunresolved
        obtain ⟨rfl, hnot⟩ := resolve_eq_unresolved.mp hresolve
        exact ⟨⟨module, hmodule, himported⟩, hnot⟩
  · rintro ⟨⟨module, hmodule, himported⟩, hnot⟩
    refine ⟨module, hmodule, _, ⟨name, himported, rfl⟩, ?_⟩
    rw [resolve_eq_unresolved.mpr ⟨rfl, hnot⟩]

theorem pairwise_unresolvedImports (registry : Registry) :
    registry.unresolvedImports.Pairwise (· < ·) :=
  pairwise_eraseDups_mergeSort _

end Registry

end OberonImports
