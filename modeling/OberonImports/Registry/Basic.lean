import OberonImports.Config.Policy
import OberonImports.Module

/-!
# The registry of declared modules

A registry holds modules in ascending order of their names, so each name at most once. Inserting a
module whose name is taken is settled by the duplicate policy. An import is resolved if the registry
declares a module of its name.
-/

namespace OberonImports

/-- The old declaration with the imports that only the new one has behind its own, each once. -/
def Module.merge (old new : Module) : Module :=
  { old with
    imports := new.imports.foldl
      (fun imports name => if name ∈ imports then imports else imports ++ [name]) old.imports }

/-- The declaration that stays when a module is declared again. -/
def DuplicatePolicy.settle : DuplicatePolicy → Module → Module → Module
  | reject, old, _ => old
  | overwrite, _, new => new
  | merge, old, new => old.merge new

/-- A module that was declared twice: its name and the files of the two declarations. -/
structure DuplicateError where
  name : String
  first : Option Path
  second : Option Path
  deriving Repr, DecidableEq

def DuplicateError.place : Option Path → String
  | none => "<memory>"
  | some path => "'" ++ path.display ++ "'"

def DuplicateError.message (error : DuplicateError) : String :=
  "duplicate module '" ++ error.name ++ "' declared in " ++ place error.first ++ " and "
    ++ place error.second

/-- Declared modules in strictly ascending order of their names. -/
structure Registry where
  modules : List Module
  ascending : modules.Pairwise fun a b => a.name < b.name

namespace Registry

/-- The modules with a new one at its place by name. -/
def place (policy : DuplicatePolicy) (new : Module) : List Module → List Module
  | [] => [new]
  | old :: modules =>
      if new.name < old.name then new :: old :: modules
      else if new.name = old.name then policy.settle old new :: modules
      else old :: place policy new modules

theorem name_settle {policy : DuplicatePolicy} {old new : Module} (h : new.name = old.name) :
    (policy.settle old new).name = old.name := by
  cases policy
  · rfl
  · exact h
  · rfl

/-- Every name in the result of placing a module is the new name or an old one. -/
theorem name_mem_place {policy : DuplicatePolicy} {new : Module} {modules : List Module}
    {module : Module} (h : module ∈ place policy new modules) :
    module.name = new.name ∨ ∃ old ∈ modules, module.name = old.name := by
  fun_induction place policy new modules with
  | case1 => simp_all
  | case2 old modules hlt =>
    rcases List.mem_cons.1 h with rfl | hmem
    · exact .inl rfl
    · exact .inr ⟨module, hmem, rfl⟩
  | case3 old modules hlt heq =>
    rcases List.mem_cons.1 h with rfl | hmem
    · exact .inr ⟨old, by simp, name_settle heq⟩
    · exact .inr ⟨module, by simp [hmem], rfl⟩
  | case4 old modules hlt hne ih =>
    rcases List.mem_cons.1 h with rfl | hmem
    · exact .inr ⟨module, by simp, rfl⟩
    · rcases ih hmem with hnew | ⟨other, hother, hname⟩
      · exact .inl hnew
      · exact .inr ⟨other, by simp [hother], hname⟩

/-- Placing a module keeps the order. -/
theorem pairwise_place {policy : DuplicatePolicy} {new : Module} {modules : List Module}
    (h : modules.Pairwise fun a b => a.name < b.name) :
    (place policy new modules).Pairwise fun a b => a.name < b.name := by
  fun_induction place policy new modules with
  | case1 => simp
  | case2 old modules hlt =>
    refine List.pairwise_cons.2 ⟨fun module hmem => ?_, h⟩
    rcases List.mem_cons.1 hmem with rfl | hmem
    · exact hlt
    · exact String.lt_trans hlt ((List.pairwise_cons.1 h).1 module hmem)
  | case3 old modules hlt heq =>
    obtain ⟨hhead, htail⟩ := List.pairwise_cons.1 h
    refine List.pairwise_cons.2 ⟨fun module hmem => ?_, htail⟩
    rw [name_settle heq]
    exact hhead module hmem
  | case4 old modules hlt hne ih =>
    obtain ⟨hhead, htail⟩ := List.pairwise_cons.1 h
    refine List.pairwise_cons.2 ⟨fun module hmem => ?_, ih htail⟩
    rcases name_mem_place hmem with hname | ⟨other, hother, hname⟩
    · rw [hname]
      grind
    · rw [hname]
      exact hhead other hother

def empty : Registry := ⟨[], .nil⟩

instance : Inhabited Registry := ⟨empty⟩

def get? (registry : Registry) (name : String) : Option Module :=
  registry.modules.find? (·.name = name)

def contains (registry : Registry) (name : String) : Bool := (registry.get? name).isSome

def size (registry : Registry) : Nat := registry.modules.length

/-- What an insertion leaves behind: a registry, and why the module was refused if it was. -/
structure Inserted where
  registry : Registry
  error? : Option DuplicateError

/-- Insert a module, settling a name that is taken by the policy. -/
def insert (registry : Registry) (policy : DuplicatePolicy) (new : Module) : Inserted :=
  match policy, registry.get? new.name with
  | .reject, some old => ⟨registry, some ⟨new.name, old.source, new.source⟩⟩
  | _, _ => ⟨⟨place policy new registry.modules, pairwise_place registry.ascending⟩, none⟩

/-- The registry that an insertion leaves, unless the module was refused. -/
def Inserted.accepted (inserted : Inserted) : Except DuplicateError Registry :=
  match inserted.error? with
  | some error => .error error
  | none => .ok inserted.registry

/-- Insert modules one after the other into the empty registry, up to the first that is refused. -/
def build (modules : List Module) (policy : DuplicatePolicy) : Except DuplicateError Registry :=
  modules.foldlM (fun registry new => (registry.insert policy new).accepted) empty

/-- The modules of a list that repeat the name of an earlier one. -/
def repeats : List Module → List Module
  | [] => []
  | module :: modules =>
      go [module.name] modules
where
  /-- The repeats among the modules behind those with the names `seen`. -/
  go (seen : List String) : List Module → List Module
    | [] => []
    | module :: modules =>
        if module.name ∈ seen then module :: go seen modules
        else go (module.name :: seen) modules

/-- What an import refers to. -/
inductive Reference where
  | resolved (module : Module)
  | unresolved (name : String)
  deriving Repr, DecidableEq

def resolve (registry : Registry) (name : String) : Reference :=
  match registry.get? name with
  | some module => .resolved module
  | none => .unresolved name

/-- What the imports of a module refer to. The module itself need not be declared. -/
def importsOf (registry : Registry) (module : Module) : List Reference :=
  module.imports.map registry.resolve

/-- The imports of the declared modules that no module declares, in ascending order and each
once. -/
def unresolvedImports (registry : Registry) : List String :=
  let names := registry.modules.flatMap fun module =>
    (registry.importsOf module).filterMap fun
      | .resolved _ => none
      | .unresolved name => some name
  (names.mergeSort (· ≤ ·)).eraseDups

end Registry

end OberonImports
