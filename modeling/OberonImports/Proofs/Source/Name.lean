import OberonImports.Module
import OberonImports.Proofs.Source.Clause
import OberonImports.Proofs.Text.Cut

/-!
# Names that a source text gives

Whatever a source text holds, the names that it gives are tidy: a module and its imports have names
that are not empty, have no blanks at their ends and hold no semicolon, and an imported name holds
no comma either.
-/

namespace OberonImports

/-- A name that is not empty, has no blanks at its ends and holds no semicolon. -/
structure IsTidyName (name : String) : Prop where
  trimmed : Text.IsTrimmed name.toList
  no_semicolon : ';' ∉ name.toList

theorem IsTidyName.ne_empty {name : String} (hname : IsTidyName name) : name ≠ "" :=
  fun hempty => hname.trimmed.ne_nil (String.toList_eq_nil_iff.mpr hempty)

/-- A module with tidy names only. Its own name is made of the characters of declared names, and the
names that it imports hold no comma. -/
structure Module.IsTidy (module : Module) : Prop where
  name : IsTidyName module.name
  declared : ∀ c ∈ module.name.toList, Source.isNameChar c = true
  imports : ∀ name ∈ module.imports, IsTidyName name ∧ ',' ∉ name.toList

namespace Source

open Text

variable {keyword text body entry list name : List Char} {admits : Char → Bool} {inWord : Bool}

theorem not_mem_of_findClause? (hclause : findClause? keyword admits inWord text = some body) :
    ';' ∉ body := by
  obtain ⟨before, rest, -, hat, -⟩ := exists_clauseAt?_of_findClause? hclause
  exact (clauseAt?_eq_some.mp hat).2.1

/-- The characters of a declared name, and of the blanks around it, are those of names. -/
theorem isNameChar_of_declaration? (hclause : declaration? text = some body) :
    ∀ c ∈ body, isNameChar c = true := by
  obtain ⟨before, rest, -, hat, -⟩ := exists_clauseAt?_of_findClause? hclause
  exact (isBody_eq_true.mp (clauseAt?_eq_some.mp hat).1).2.2

/-- The name that an entry gives stands in the entry. -/
theorem importedName_isInfix : importedName entry <:+: entry := by
  unfold importedName
  split
  next target hcut =>
    have htarget : target <:+: trim entry := by
      rw [append_of_cut? hcut]
      exact (List.suffix_append _ _).isInfix
    exact trim_isInfix.trans (htarget.trans trim_isInfix)
  next => exact trim_isInfix

theorem isTrimmed_importedName (hne : importedName entry ≠ []) :
    IsTrimmed (importedName entry) := by
  unfold importedName at hne ⊢
  split at hne
  next => exact isTrimmed_trim hne
  next => exact isTrimmed_trim hne

/-- An imported name is trimmed and made of what the list holds, but for the commas. -/
theorem of_mem_importedNames (hname : name ∈ importedNames list) :
    IsTrimmed name ∧ ∀ c ∈ name, c ∈ list ∧ c ≠ ',' := by
  obtain ⟨hname, hne⟩ := List.mem_filter.mp hname
  obtain ⟨entry, hentry, rfl⟩ := List.mem_map.mp hname
  refine ⟨isTrimmed_importedName (of_decide_eq_true hne), ?_⟩
  intro c hc
  exact mem_of_mem_fields hentry (importedName_isInfix.subset hc)

end Source

namespace Module

open Source

variable {module : Module} {text : String} {chars : List Char} {name : String}

theorem isTidy_of_mem_importsOf (hname : name ∈ importsOf chars) :
    IsTidyName name ∧ ',' ∉ name.toList := by
  unfold importsOf at hname
  split at hname
  next => cases hname
  next list hclause =>
    obtain ⟨imported, himported, rfl⟩ := List.mem_map.mp hname
    obtain ⟨htrimmed, hmem⟩ := of_mem_importedNames himported
    rw [String.toList_ofList]
    refine ⟨⟨by rwa [String.toList_ofList], ?_⟩, fun hcomma => (hmem _ hcomma).2 rfl⟩
    rw [String.toList_ofList]
    exact fun hsemicolon => not_mem_of_findClause? hclause (hmem _ hsemicolon).1

/-- The module that a source text declares has tidy names only. -/
theorem isTidy_of_ofText? (hmodule : ofText? text = some module) : module.IsTidy := by
  unfold ofText? at hmodule
  cases hclause : declaration? (stripComments text.toList) with
  | none => simp [hclause] at hmodule
  | some body =>
      simp only [hclause, Option.map_some] at hmodule
      split at hmodule
      next => cases hmodule
      next => cases hmodule
      next name hnot htrim =>
        obtain rfl : Text.trim body = name := Option.some.inj htrim
        cases hmodule
        refine ⟨⟨?_, ?_⟩, ?_, fun _ => isTidy_of_mem_importsOf⟩
        · rw [String.toList_ofList]
          exact Text.isTrimmed_trim hnot
        · rw [String.toList_ofList]
          exact fun hsemicolon =>
            not_mem_of_findClause? hclause (Text.trim_isInfix.subset hsemicolon)
        · rw [String.toList_ofList]
          exact fun c hc => isNameChar_of_declaration? hclause c (Text.trim_isInfix.subset hc)

end Module

end OberonImports
