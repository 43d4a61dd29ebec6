import OberonImports.Proofs.Registry.Arrival

/-!
# What the duplicate policies make of a list of modules

Modules of different names do not touch each other, so what a registry holds under a name depends on
the modules of this name only, in the order in which they arrive. Of these, overwriting keeps the
last. Merging keeps the first, with the imports of the others behind its own. Rejecting keeps all
modules of a list without repeats, and refuses any other list at the first repeat.
-/

namespace OberonImports

/-! ## Merging one declaration after the other -/

/-- Adding names that are missing, one after the other, puts each of them behind the others once, in
the order in which they first occur. -/
theorem foldl_addMissing (names others : List String) :
    others.foldl (fun imports name => if name ∈ imports then imports else imports ++ [name]) names =
      names ++ (others.filter (· ∉ names)).eraseDups := by
  induction others using List.reverseRecOn with
  | nil => simp
  | append_singleton others last ih =>
      rw [List.foldl_append, List.foldl_cons, List.foldl_nil, ih, List.filter_append]
      by_cases hknown : last ∈ names
      · simp [hknown]
      · have hlast : [last].filter (· ∉ names) = [last] := by simp [hknown]
        rw [hlast, eraseDups_concat]
        by_cases hrepeat : last ∈ others
        · simp [hknown, hrepeat]
        · simp [hknown, hrepeat]

/-- Merging declarations one after the other adds all their imports. -/
theorem Module.foldl_merge (first : Module) (later : List Module) :
    later.foldl Module.merge first =
      { first with
        imports := first.imports ++
          ((later.flatMap (·.imports)).filter (· ∉ first.imports)).eraseDups } := by
  rw [← foldl_addMissing]
  induction later generalizing first with
  | nil => rfl
  | cons next later ih =>
      rw [List.foldl_cons, ih, List.flatMap_cons, List.foldl_append]
      rfl

namespace Registry

variable {registry : Registry} {modules others before after declared : List Module}
  {new first : Module} {policy : DuplicatePolicy} {error : DuplicateError} {name : String}

/-! ## What a name holds -/

/-- The modules of a name, in the order in which they arrive. -/
def named (name : String) (modules : List Module) : List Module := modules.filter (·.name = name)

/-- What a name holds after modules of this name were declared one after the other. -/
def heldAfter (policy : DuplicatePolicy) (declared : List Module) : Option Module :=
  declared.foldl (fun held new => some (settled policy new held)) none

theorem named_concat : named name (modules ++ [new]) =
    if name = new.name then named name modules ++ [new] else named name modules := by
  by_cases hname : name = new.name
  · simp [named, hname]
  · simp [named, hname, Ne.symm hname]

theorem heldAfter_concat : heldAfter policy (declared ++ [new]) =
    some (settled policy new (heldAfter policy declared)) := by
  rw [heldAfter, List.foldl_append]
  rfl

/-- By induction from the last module: it changes what its own name holds. -/
theorem get?_of_build (hbuild : build modules policy = .ok registry) (name : String) :
    registry.get? name = heldAfter policy (named name modules) := by
  induction modules using List.reverseRecOn generalizing registry with
  | nil =>
      cases hbuild
      rfl
  | append_singleton modules new ih =>
      obtain ⟨earlier, hbefore, haccepted, rfl⟩ := exists_of_build_concat hbuild
      rw [get?_of_insert haccepted, ih hbefore, named_concat]
      split
      next => exact heldAfter_concat.symm
      next => rfl

theorem heldAfter_reject (declared : List Module) : heldAfter .reject declared = declared.head? := by
  induction declared using List.reverseRecOn with
  | nil => rfl
  | append_singleton declared new ih =>
      rw [heldAfter_concat, ih]
      cases declared <;> rfl

theorem heldAfter_overwrite (declared : List Module) :
    heldAfter .overwrite declared = declared.getLast? := by
  induction declared using List.reverseRecOn with
  | nil => rfl
  | append_singleton declared new ih =>
      rw [heldAfter_concat, List.getLast?_concat]
      cases heldAfter .overwrite declared <;> rfl

theorem heldAfter_merge_cons (first : Module) (later : List Module) :
    heldAfter .merge (first :: later) = some (later.foldl Module.merge first) := by
  induction later using List.reverseRecOn with
  | nil => rfl
  | append_singleton later new ih =>
      rw [← List.cons_append, heldAfter_concat, ih, List.foldl_append]
      rfl

/-! ## The first repeat -/

/-- The first module of a list whose name occurred before it, and all that comes before it. -/
structure FirstRepeat (modules before : List Module) (new : Module) : Prop where
  split : ∃ after, modules = before ++ new :: after
  nodup : (before.map (·.name)).Nodup
  occurred : new.name ∈ before.map (·.name)

theorem exists_firstRepeat (hrepeat : ¬ (modules.map (·.name)).Nodup) :
    ∃ before new, FirstRepeat modules before new := by
  induction modules using List.reverseRecOn with
  | nil => exact absurd List.nodup_nil hrepeat
  | append_singleton modules last ih =>
      by_cases hnodup : (modules.map (·.name)).Nodup
      · have hlast : last.name ∈ modules.map (·.name) := by
          by_contra hnew
          rw [List.map_append] at hrepeat
          exact hrepeat ((List.perm_append_singleton last.name _).nodup_iff.mpr
            (List.nodup_cons.mpr ⟨hnew, hnodup⟩))
        exact ⟨modules, last, ⟨[], rfl⟩, hnodup, hlast⟩
      · obtain ⟨before, new, ⟨after, rfl⟩, hbefore, hnew⟩ := ih hnodup
        exact ⟨before, new, ⟨after ++ [last], by simp⟩, hbefore, hnew⟩

/-- What is refused stays refused, whatever follows. -/
theorem build_append_of_error (hbuild : build modules policy = .error error) :
    build (modules ++ others) policy = .error error := by
  unfold build at hbuild ⊢
  rw [List.foldlM_append, hbuild]
  rfl

/-- A list with a repeat is refused at its first one, which is told with the first module of its
name. -/
theorem build_reject_of_firstRepeat (hrepeat : FirstRepeat modules before new) :
    ∃ first, (named new.name modules).head? = some first ∧
      build modules .reject = .error ⟨new.name, first.source, new.source⟩ := by
  obtain ⟨after, rfl⟩ := hrepeat.split
  obtain ⟨registry, hbuild⟩ := exists_build fun _ => hrepeat.nodup
  -- The name is taken by the first module that has it.
  obtain ⟨old, hold, hname⟩ := List.mem_map.mp hrepeat.occurred
  have hmem : old ∈ named new.name before := List.mem_filter.mpr ⟨hold, decide_eq_true hname⟩
  obtain ⟨first, hfirst⟩ : ∃ first, (named new.name before).head? = some first :=
    ⟨_, List.head?_eq_some_head (List.ne_nil_of_mem hmem)⟩
  have hget : registry.get? new.name = some first := by
    rw [get?_of_build hbuild, heldAfter_reject, hfirst]
  have hrefused : (registry.insert .reject new).error? =
      some ⟨new.name, first.source, new.source⟩ :=
    error?_insert_eq_some_iff.mpr ⟨rfl, first, hget, rfl⟩
  refine ⟨first, ?_, ?_⟩
  · rw [named, List.filter_append, List.head?_append, ← named, hfirst]
    rfl
  · have hfails : build (before ++ [new]) .reject =
        .error ⟨new.name, first.source, new.source⟩ := by
      rw [build_concat, hbuild, Except.bind, Inserted.accepted, hrefused]
    rw [List.append_cons]
    exact build_append_of_error hfails

/-- Rejecting repeats fails exactly at a first repeat. -/
theorem build_reject_eq_error_iff : build modules .reject = .error error ↔
    ∃ before new first, FirstRepeat modules before new ∧
      (named new.name modules).head? = some first ∧
      error = ⟨new.name, first.source, new.source⟩ := by
  constructor
  · intro hbuild
    obtain ⟨-, hrepeat⟩ := exists_build_eq_error_iff.mp ⟨error, hbuild⟩
    obtain ⟨before, new, hfirst⟩ := exists_firstRepeat hrepeat
    obtain ⟨first, hhead, hrefused⟩ := build_reject_of_firstRepeat hfirst
    rw [hbuild] at hrefused
    exact ⟨before, new, first, hfirst, hhead, Except.error.inj hrefused⟩
  · rintro ⟨before, new, first, hrepeat, hhead, rfl⟩
    obtain ⟨other, hother, hrefused⟩ := build_reject_of_firstRepeat hrepeat
    obtain rfl : first = other := Option.some.inj (hhead.symm.trans hother)
    exact hrefused

/-- Rejecting repeats succeeds exactly on modules of different names, and then each name holds its
module. Otherwise the error tells the first module of the list whose name occurred before it, with
the files of the first module of this name and of the repeat. Overwriting refuses nothing, and each
name holds the last module of this name. Merging refuses nothing either, and each name holds its
first module, with its file and its imports, and behind these the imports of the later ones that are
not among them, each once and in the order in which they first occur. -/
theorem build_by_policy (modules : List Module) :
    ((∃ registry, build modules .reject = .ok registry) ↔ (modules.map (·.name)).Nodup) ∧
    (∀ registry, build modules .reject = .ok registry →
      ∀ name, registry.get? name = (named name modules).head?) ∧
    (∀ error, build modules .reject = .error error ↔
      ∃ before new first, FirstRepeat modules before new ∧
        (named new.name modules).head? = some first ∧
        error = ⟨new.name, first.source, new.source⟩) ∧
    (∃ registry, build modules .overwrite = .ok registry ∧
      ∀ name, registry.get? name = (named name modules).getLast?) ∧
    ∃ registry, build modules .merge = .ok registry ∧
      ∀ name, registry.get? name =
        match named name modules with
        | [] => none
        | first :: later => some
          { first with
            imports := first.imports ++
              ((later.flatMap (·.imports)).filter (· ∉ first.imports)).eraseDups } := by
  refine ⟨?_, fun registry hbuild name => ?_, fun _ => build_reject_eq_error_iff, ?_, ?_⟩
  · exact ⟨fun ⟨registry, hbuild⟩ => nodup_of_build_reject hbuild,
      fun hnodup => exists_build fun _ => hnodup⟩
  · rw [get?_of_build hbuild, heldAfter_reject]
  · obtain ⟨registry, hbuild⟩ : ∃ registry, build modules .overwrite = .ok registry :=
      exists_build nofun
    refine ⟨registry, hbuild, fun name => ?_⟩
    rw [get?_of_build hbuild, heldAfter_overwrite]
  · obtain ⟨registry, hbuild⟩ : ∃ registry, build modules .merge = .ok registry :=
      exists_build nofun
    refine ⟨registry, hbuild, fun name => ?_⟩
    rw [get?_of_build hbuild]
    cases named name modules with
    | nil => rfl
    | cons first later => rw [heldAfter_merge_cons, Module.foldl_merge]

end Registry

end OberonImports
