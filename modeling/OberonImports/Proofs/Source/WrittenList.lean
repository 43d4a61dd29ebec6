import OberonImports.Proofs.Source.ImportList
import OberonImports.Proofs.Source.Name

/-!
# Written import lists

An entry is written as a name between blanks, or as an alias between blanks, the alias sign and such
a name. A list of written entries is read back as their names, whatever the blanks and the aliases
are. A comma parts any list into two that are read each on its own, and the names that any list gives
are trimmed and hold no comma.
-/

namespace OberonImports.Source

open Text

/-! ## Entries -/

/-- Any number of blanks and nothing else. -/
structure Blanks where
  text : List Char
  all_blank : text.all isBlank = true

theorem Blanks.isBlank_of_mem (blanks : Blanks) : ∀ c ∈ blanks.text, isBlank c = true :=
  List.all_eq_true.mp blanks.all_blank

/-- A text without commas and without the alias sign, and the blanks around it. -/
structure Part where
  front : Blanks
  core : List Char
  back : Blanks
  no_comma : ',' ∉ core
  no_sign : ¬ aliasSign <:+: core

namespace Part

def text (part : Part) : List Char := part.front.text ++ part.core ++ part.back.text

theorem comma_not_mem (part : Part) : ',' ∉ part.text := by
  have hblank : isBlank ',' = false := by decide
  simp only [text, List.mem_append, not_or]
  exact ⟨⟨not_mem_of_forall_isBlank part.front.isBlank_of_mem hblank, part.no_comma⟩,
    not_mem_of_forall_isBlank part.back.isBlank_of_mem hblank⟩

theorem aliasSign_not_isInfix (part : Part) : ¬ aliasSign <:+: part.text := by
  intro hsign
  apply part.no_sign
  exact aliasSign_isInfix_of_blanks_append part.front.isBlank_of_mem part.back.isBlank_of_mem hsign

end Part

/-- A name and the blanks around it. -/
structure NamePart extends Part where
  isTrimmed : IsTrimmed core

theorem NamePart.hasCore (part : NamePart) : HasCore part.text part.core where
  isTrimmed := part.isTrimmed
  split := ⟨part.front.text, part.back.text, rfl, part.front.isBlank_of_mem,
    part.back.isBlank_of_mem⟩

/-- An entry as it is written: a name, perhaps behind an alias and the sign. The alias may be empty,
and it may end with the first character of the sign. -/
inductive WrittenEntry where
  | plain (name : NamePart)
  | renamed (short : Part) (name : NamePart)

namespace WrittenEntry

def text : WrittenEntry → List Char
  | plain name => name.text
  | renamed short name => short.text ++ aliasSign ++ name.text

def target : WrittenEntry → NamePart
  | plain name => name
  | renamed _ name => name

/-- The module that an entry names. -/
def name (entry : WrittenEntry) : List Char := entry.target.core

theorem hasTarget (entry : WrittenEntry) : HasTarget entry.text entry.target.text := by
  cases entry with
  | plain name => exact .plain name.aliasSign_not_isInfix
  | renamed short name => exact .renamed short.aliasSign_not_isInfix

theorem comma_not_mem (entry : WrittenEntry) : ',' ∉ entry.text := by
  cases entry with
  | plain name => exact name.comma_not_mem
  | renamed short name =>
      have hsign : ',' ∉ aliasSign := by decide
      simp only [text, List.mem_append, not_or]
      exact ⟨⟨short.comma_not_mem, hsign⟩, name.comma_not_mem⟩

end WrittenEntry

/-! ## Lists -/

theorem entriesName_written (entries : List WrittenEntry) :
    EntriesName (entries.map WrittenEntry.text) (entries.map WrittenEntry.name) := by
  induction entries with
  | nil => exact .nil
  | cons entry entries ih => exact .name entry.hasTarget entry.target.hasCore ih

/-- A list of written entries is read back as their names. -/
theorem importedNames_written (entries : List WrittenEntry) :
    importedNames (joinFields ',' (entries.map WrittenEntry.text)) =
      entries.map WrittenEntry.name := by
  cases entries with
  | nil => rfl
  | cons entry entries =>
      have hfields : IsFields ','
          (joinFields ',' ((entry :: entries).map WrittenEntry.text))
          ((entry :: entries).map WrittenEntry.text) := by
        refine ⟨by simp, rfl, ?_⟩
        intro piece hpiece
        obtain ⟨written, -, rfl⟩ := List.mem_map.mp hpiece
        exact written.comma_not_mem
      exact listNames_iff.mp ⟨_, hfields, entriesName_written (entry :: entries)⟩

/-- Two lists with a comma between them name what the first names and then what the second names.
Every name of a list is trimmed, not empty and without commas. A list of written entries names what
its entries name, in their order. -/
theorem import_lists_name_their_entries :
    (∀ first second, importedNames (first ++ ',' :: second) =
      importedNames first ++ importedNames second) ∧
    (∀ list, ∀ name ∈ importedNames list, name ≠ [] ∧ IsTrimmed name ∧ ',' ∉ name) ∧
    ∀ entries : List WrittenEntry,
      importedNames (joinFields ',' (entries.map WrittenEntry.text)) =
        entries.map WrittenEntry.name := by
  refine ⟨importedNames_append_comma, ?_, importedNames_written⟩
  intro list name hname
  obtain ⟨htrimmed, hmem⟩ := of_mem_importedNames hname
  exact ⟨htrimmed.ne_nil, htrimmed, fun hcomma => (hmem ',' hcomma).2 rfl⟩

/-- A name that begins as the alias sign ends. -/
def equalsName (front back : Blanks) : NamePart where
  front := front
  core := ['=', 'N']
  back := back
  no_comma := by decide
  no_sign := by decide
  isTrimmed := (hasCore_iff.mpr ⟨show trim ['=', 'N'] = _ by decide, by decide⟩).isTrimmed

/-- Two entries in which the alias sign touches its own characters or nothing, and one without it. -/
def touchingEntries : List WrittenEntry :=
  [.renamed ⟨⟨[' '], by decide⟩, ['x', ':'], ⟨[], rfl⟩, by decide, by decide⟩
      (equalsName ⟨[], rfl⟩ ⟨['\u3000'], by decide⟩),
    .renamed ⟨⟨[], rfl⟩, [], ⟨[], rfl⟩, by decide, by decide⟩
      (equalsName ⟨['\t'], by decide⟩ ⟨[], rfl⟩),
    .plain (equalsName ⟨[], rfl⟩ ⟨['\n'], by decide⟩)]

def touchingText : List Char := " x::==N\u3000,:=\t=N,=N\n".toList

theorem importedNames_touchingText :
    joinFields ',' (touchingEntries.map WrittenEntry.text) = touchingText ∧
    importedNames touchingText = ["=N".toList, "=N".toList, "=N".toList] ∧
    "=N".toList ∈ importedNames touchingText ∧ IsTrimmed "=N".toList ∧ ',' ∉ "=N".toList ∧
    importedNames (touchingText ++ ',' :: ",A:= ,B:=C:=D".toList) =
      importedNames touchingText ++ ["C:=D".toList] := by
  obtain ⟨hcomma, htidy, hwritten⟩ := import_lists_name_their_entries
  have htext : joinFields ',' (touchingEntries.map WrittenEntry.text) = touchingText := by decide
  have hnames : importedNames touchingText = ["=N".toList, "=N".toList, "=N".toList] := by
    rw [← htext, hwritten]
    decide
  have hmem : "=N".toList ∈ importedNames touchingText := by
    rw [hnames]
    exact List.mem_cons_self
  have hrest : importedNames ",A:= ,B:=C:=D".toList = ["C:=D".toList] := by decide
  obtain ⟨-, htrimmed, hno⟩ := htidy _ _ hmem
  exact ⟨htext, hnames, hmem, htrimmed, hno, by rw [hcomma, hrest]⟩

end OberonImports.Source
