import Mathlib.Data.Finset.Card
import OberonImports.Proofs.Registry.Imports

/-!
# Runs of insertions

A registry tells by look-up what it holds. Inserting a module changes what it holds under the name
of the module and nothing else, and a module that is refused changes nothing. So after a run of
insertions, each with a policy of its own, a registry holds the names that were inserted, each with
a module of this name.
-/

namespace OberonImports

/-- A module, and the policy that settles a name that is taken. -/
structure Insertion where
  policy : DuplicatePolicy
  module : Module

namespace Registry

variable {registry : Registry} {policy : DuplicatePolicy} {module new old : Module}
  {name : String} {modules : List Module} {insertions : List Insertion}

/-- What a name holds after a module was declared under it. -/
def settled (policy : DuplicatePolicy) (new : Module) : Option Module → Module
  | none => new
  | some old => policy.settle old new

/-- The registry after insertions into the empty one. -/
def run (insertions : List Insertion) : Registry :=
  insertions.foldl (fun registry insertion =>
    (registry.insert insertion.policy insertion.module).registry) empty

/-! ## What a registry holds -/

/-- Modules are held under their own names. -/
theorem get?_eq_some_iff :
    registry.get? name = some module ↔ module ∈ registry.modules ∧ module.name = name := by
  have hfound : ∀ {found}, registry.get? name = some found →
      found ∈ registry.modules ∧ found.name = name := fun hget =>
    ⟨List.mem_of_find?_eq_some hget, by simpa using List.find?_some hget⟩
  refine ⟨hfound, fun ⟨hmem, hname⟩ => ?_⟩
  cases hget : registry.get? name with
  | none => exact absurd ⟨module, hmem, hname⟩ (get?_eq_none_iff.mp hget)
  | some found =>
      obtain ⟨hfoundMem, hfoundName⟩ := hfound hget
      rw [List.inj_on_of_nodup_map registry.nodup_names hfoundMem hmem
        (hfoundName.trans hname.symm)]

theorem contains_of_get? (hget : registry.get? name = some module) :
    registry.contains name = true := by
  rw [contains, hget]
  rfl

/-- A name refers to a module of this name exactly if the registry contains it. -/
theorem resolve_eq_resolved_iff :
    (∃ module, registry.resolve name = .resolved module ∧ module.name = name) ↔
      registry.contains name = true := by
  unfold resolve
  cases hget : registry.get? name with
  | none => simp [contains, hget]
  | some module => simp [contains_of_get? hget, (get?_eq_some_iff.mp hget).2]

/-! ## One insertion -/

/-- Placing a module in an ascending list changes what stands under its name. -/
theorem find?_place (hascending : modules.Pairwise fun a b => a.name < b.name) :
    (place policy new modules).find? (·.name = name) =
      if name = new.name then some (settled policy new (modules.find? (·.name = name)))
      else modules.find? (·.name = name) := by
  fun_induction place policy new modules with
  | case1 =>
      by_cases hname : name = new.name
      · simp [hname, settled]
      · simp [hname, Ne.symm hname]
  | case2 old modules hlt =>
      by_cases hname : name = new.name
      · have hnone : (old :: modules).find? (·.name = name) = none := by
          refine List.find?_eq_none.mpr fun module hmem hmodule => ?_
          have hmodule : module.name = new.name := (of_decide_eq_true hmodule).trans hname
          rcases List.mem_cons.mp hmem with rfl | hmem
          · exact hlt.ne hmodule.symm
          · exact (hlt.trans ((List.pairwise_cons.mp hascending).1 module hmem)).ne hmodule.symm
        rw [if_pos hname, hnone, List.find?_cons_of_pos (by simp [hname])]
        rfl
      · rw [if_neg hname, List.find?_cons_of_neg (by simpa using Ne.symm hname)]
  | case3 old modules hlt heq =>
      by_cases hname : name = new.name
      · rw [if_pos hname, List.find?_cons_of_pos (by simp [name_settle heq, hname, heq]),
          List.find?_cons_of_pos (by simp [hname, heq])]
        rfl
      · have hold : old.name ≠ name := fun hsame => hname (hsame.symm.trans heq.symm)
        rw [if_neg hname, List.find?_cons_of_neg (by simpa [name_settle heq] using hold),
          List.find?_cons_of_neg (by simpa using hold)]
  | case4 old modules hlt hne ih =>
      by_cases hold : old.name = name
      · have hname : name ≠ new.name := fun hsame => hne (hsame.symm.trans hold.symm)
        rw [if_neg hname, List.find?_cons_of_pos (by simpa using hold),
          List.find?_cons_of_pos (by simpa using hold)]
      · rw [List.find?_cons_of_neg (by simpa using hold),
          List.find?_cons_of_neg (by simpa using hold), ih (List.pairwise_cons.mp hascending).2]

/-- A module is refused exactly if its name is taken and the policy is to reject it. -/
theorem error?_insert_eq_some_iff {error : DuplicateError} :
    (registry.insert policy new).error? = some error ↔ policy = .reject ∧
      ∃ old, registry.get? new.name = some old ∧ error = ⟨new.name, old.source, new.source⟩ := by
  unfold insert
  cases policy <;> cases registry.get? new.name <;> simp [eq_comm]

theorem error?_insert_ne_none_iff : (registry.insert policy new).error? ≠ none ↔
    policy = .reject ∧ registry.contains new.name = true := by
  simp only [Option.ne_none_iff_exists', error?_insert_eq_some_iff, contains,
    Option.isSome_iff_exists]
  constructor
  · rintro ⟨_, hpolicy, old, hold, -⟩
    exact ⟨hpolicy, old, hold⟩
  · rintro ⟨hpolicy, old, hold⟩
    exact ⟨_, hpolicy, old, hold, rfl⟩

/-- A refused module leaves the registry as it was. -/
theorem registry_insert_of_refused (hrefused : (registry.insert policy new).error? ≠ none) :
    (registry.insert policy new).registry = registry := by
  revert hrefused
  unfold insert
  split
  next => exact fun _ => rfl
  next => exact fun hrefused => absurd rfl hrefused

theorem modules_of_insert (haccepted : (registry.insert policy new).error? = none) :
    (registry.insert policy new).registry.modules = place policy new registry.modules := by
  revert haccepted
  unfold insert
  split
  next => exact nofun
  next => exact fun _ => rfl

/-- What is held after a module was accepted. -/
theorem get?_of_insert (haccepted : (registry.insert policy new).error? = none) (name : String) :
    (registry.insert policy new).registry.get? name =
      if name = new.name then some (settled policy new (registry.get? name))
      else registry.get? name := by
  rw [get?, modules_of_insert haccepted, find?_place registry.ascending]
  rfl

/-- An insertion adds the name of its module, refused or not. -/
theorem contains_insert : (registry.insert policy new).registry.contains name = true ↔
    registry.contains name = true ∨ new.name = name := by
  by_cases haccepted : (registry.insert policy new).error? = none
  · rw [contains, get?_of_insert haccepted, contains]
    by_cases hname : name = new.name
    · simp [hname]
    · simp [hname, Ne.symm hname]
  · rw [registry_insert_of_refused haccepted]
    constructor
    · exact .inl
    · rintro (hold | rfl)
      · exact hold
      · exact (error?_insert_ne_none_iff.mp haccepted).2

/-! ## Runs -/

theorem run_concat (insertions : List Insertion) (insertion : Insertion) :
    run (insertions ++ [insertion]) =
      ((run insertions).insert insertion.policy insertion.module).registry := by
  simp [run]

/-- By induction on the run from its end: a run adds the names of its modules. -/
theorem contains_run : (run insertions).contains name = true ↔
    ∃ insertion ∈ insertions, insertion.module.name = name := by
  induction insertions using List.reverseRecOn with
  | nil => simp [run, contains, get?, empty]
  | append_singleton insertions insertion ih =>
      rw [run_concat, contains_insert, ih]
      simp [or_and_right, exists_or]

/-- A run leaves as many modules as it has inserted names. -/
theorem size_run :
    (run insertions).size = (insertions.map (·.module.name)).toFinset.card := by
  have hnames : ((run insertions).modules.map (·.name)).toFinset =
      (insertions.map (·.module.name)).toFinset := by
    ext name
    simp only [List.mem_toFinset, List.mem_map]
    exact contains_iff.symm.trans contains_run
  rw [← hnames, List.toFinset_card_of_nodup (run insertions).nodup_names, List.length_map, size]

/-- After any run of insertions into the empty registry, the names of the modules ascend strictly,
each module is held under its own name, the names are those that were inserted, and a name refers to
a module of this name exactly if it was inserted. Of the next insertion, only a module that the
policy rejects and whose name is taken is refused, and the registry stays as it was. Any other
changes nothing but what stands under its own name. -/
theorem run_insertions (insertions : List Insertion) :
    let registry := run insertions
    (registry.modules.map (·.name)).Pairwise (· < ·) ∧
    (∀ name module, registry.get? name = some module ↔
      module ∈ registry.modules ∧ module.name = name) ∧
    (∀ name, registry.contains name = true ↔
      ∃ insertion ∈ insertions, insertion.module.name = name) ∧
    registry.size = (insertions.map (·.module.name)).toFinset.card ∧
    (∀ name, (∃ module, registry.resolve name = .resolved module ∧ module.name = name) ↔
      registry.contains name = true) ∧
    ∀ insertion,
      let inserted := registry.insert insertion.policy insertion.module
      run (insertions ++ [insertion]) = inserted.registry ∧
      (inserted.error? ≠ none ↔
        insertion.policy = .reject ∧ registry.contains insertion.module.name = true) ∧
      (inserted.error? ≠ none → inserted.registry = registry) ∧
      (inserted.error? = none →
        ∀ name, name ≠ insertion.module.name →
          inserted.registry.get? name = registry.get? name) := by
  refine ⟨List.pairwise_map.mpr (run insertions).ascending, fun _ _ => get?_eq_some_iff,
    fun _ => contains_run, size_run, fun _ => resolve_eq_resolved_iff, fun insertion =>
    ⟨run_concat insertions insertion, error?_insert_ne_none_iff, registry_insert_of_refused,
      fun haccepted name hname => ?_⟩⟩
  rw [get?_of_insert haccepted, if_neg hname]

end Registry

end OberonImports
