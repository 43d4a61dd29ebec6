import OberonImports.Proofs.Source.Header
import OberonImports.Proofs.Source.ImportList
import OberonImports.Proofs.Source.LeftmostClause

/-!
# The imported names

A module imports what the leftmost import clause of its text lists, comments left out, and nothing if
the text has no such clause. Order and repeats are those of the clause, and a later clause adds
nothing.
-/

namespace OberonImports

open Source Text

namespace Source

/-- The expression `(?is)\bIMPORT\s+([^;]+?);`. -/
def importPattern : Pattern := clausePattern importWord (· ≠ ';') .empty

theorem fits_importPattern : Fits (fun _ => true) (· ≠ ';') .empty (· = []) where
  captures_iff := by simp
  admits_blank := fun _ _ => rfl
  accepts := Pattern.accepts_empty
  gap_nil := rfl
  gap_blank := by simp

/-- The leftmost import clause of a text, without its comments, has this body. -/
def HasImportList (text : String) (list : List Char) : Prop :=
  ∃ position, IsLeftmostClause importWord (fun _ => true) (stripComments text.toList) position list

theorem importClause?_eq_some_iff {text : String} {list : List Char} :
    importClause? (stripComments text.toList) = some list ↔ HasImportList text list :=
  findClause?_eq_some_iff

theorem importClause?_eq_none_iff {text : List Char} : importClause? text = none ↔
    ∀ position list, ¬ IsClause importWord (fun _ => true) text position list := by
  constructor
  · intro hnone position list hclause
    obtain ⟨first, found, hleftmost⟩ := hclause.exists_leftmost
    have hfound : importClause? text = some found := findClause?_eq_some_iff.mpr ⟨first, hleftmost⟩
    rw [hnone] at hfound
    cases hfound
  · intro hnone
    cases hclause : importClause? text with
    | none => rfl
    | some list =>
        obtain ⟨position, hleftmost⟩ := findClause?_eq_some_iff.mp hclause
        exact absurd hleftmost.isClause (hnone position list)

end Source

namespace Module

variable {text : String} {module : Module} {list : List Char} {names : List (List Char)}

theorem imports_of_ofText? (hmodule : ofText? text = some module) :
    module.imports = importsOf (stripComments text.toList) := by
  unfold ofText? at hmodule
  dsimp only at hmodule
  split at hmodule
  next => cases hmodule
  next => cases hmodule
  next => 
    cases hmodule
    rfl

/-- What the expression captures names the same modules as the body of the clause: the two differ
in blanks around the list. -/
theorem importsOf_eq_capture? (text : List Char) : importsOf text =
    (((importPattern.capture? text).map importedNames).getD []).map String.ofList := by
  have htrim : (importPattern.capture? text).map trim = (importClause? text).map trim :=
    map_trim_capture?_clausePattern isKeyword_importWord fits_importPattern
  have hnames : (importPattern.capture? text).map importedNames =
      (importClause? text).map importedNames := by
    have hthrough : ∀ found : Option (List Char),
        found.map importedNames = (found.map trim).map importedNames := by
      intro found
      simp [Function.comp_def, importedNames_trim]
    rw [hthrough, htrim, ← hthrough]
  rw [hnames, importsOf]
  cases importClause? text <;> rfl

/-- A module that a text declares imports what the list of the leftmost import clause names, in its
order and with its repeats, and nothing if no clause stands in the text. The names are also those of
what the expression captures. -/
theorem imports_from_leftmost_clause (hmodule : ofText? text = some module) :
    ((∀ position list,
        ¬ IsClause importWord (fun _ => true) (stripComments text.toList) position list) →
      module.imports = []) ∧
    (∀ list, HasImportList text list →
      ∀ names, module.imports = names.map String.ofList ↔ ListNames list names) ∧
    module.imports =
      (((importPattern.capture? (stripComments text.toList)).map importedNames).getD []).map
        String.ofList := by
  rw [imports_of_ofText? hmodule]
  refine ⟨fun hnone => ?_, fun list hlist names => ?_, importsOf_eq_capture? _⟩
  · rw [importsOf, importClause?_eq_none_iff.mpr hnone]
  · have hinjective : Function.Injective (List.map String.ofList) :=
      List.map_injective_iff.mpr fun _ _ => String.ofList_injective
    rw [importsOf, importClause?_eq_some_iff.mpr hlist, listNames_iff]
    exact hinjective.eq_iff

/-- A clause that is too short, one with aliases, a blank entry and repeats, and a later one. -/
def crowdedText : String := "MODULE M; IMPORT ; Import\n A:=B:=C , ,D,D;IMPORT E;"

def crowdedList : List Char := "\n A:=B:=C , ,D,D".toList

/-- A text in which the only clause is too short. -/
def lonelyText : String := "MODULE M; IMPORT ;"

theorem imports_crowdedText :
    ofText? crowdedText = some ⟨"M", ["B:=C", "D", "D"], none⟩ ∧
    HasImportList crowdedText crowdedList ∧
    ListNames crowdedList ["B:=C".toList, "D".toList, "D".toList] ∧
    (∀ position list, ¬ IsClause importWord (fun _ => true) (stripComments lonelyText.toList)
      position list) ∧
    (ofText? lonelyText).map Module.imports = some [] := by
  have hcrowded : ofText? crowdedText = some ⟨"M", ["B:=C", "D", "D"], none⟩ := by decide +kernel
  have hlist : HasImportList crowdedText crowdedList :=
    importClause?_eq_some_iff.mp (by decide +kernel)
  have hnone : ∀ position list, ¬ IsClause importWord (fun _ => true)
      (stripComments lonelyText.toList) position list :=
    importClause?_eq_none_iff.mp (by decide +kernel)
  have hsome : (ofText? lonelyText).isSome = true := by decide +kernel
  obtain ⟨lonely, hlonely⟩ := Option.isSome_iff_exists.mp hsome
  obtain ⟨-, hnames, -⟩ := imports_from_leftmost_clause hcrowded
  obtain ⟨hempty, -, -⟩ := imports_from_leftmost_clause hlonely
  refine ⟨hcrowded, hlist, (hnames _ hlist _).mp (by decide), hnone, ?_⟩
  rw [hlonely, Option.map_some, hempty hnone]

end Module

end OberonImports
