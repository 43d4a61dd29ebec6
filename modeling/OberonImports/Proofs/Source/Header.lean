import OberonImports.Proofs.Source.Clause
import OberonImports.Proofs.Source.Comment
import OberonImports.Proofs.Source.WrittenList

/-!
# Module headers

A header is written as a grammar has it: a module clause with the name of the module, and behind it
an import clause with entries between commas. Gaps of blanks and complete comments may stand between
any two words. Stripping comments leaves the blanks of each gap, so the module clause is the
leftmost declaration and the import clause the leftmost of its kind, whatever follows.
-/

namespace OberonImports.Source

open Text

/-! ## The grammar -/

/-- A blank or a complete comment. -/
inductive GapPiece where
  | blank (c : Char) (hblank : isBlank c = true)
  | comment (body : List Char) (hbody : ¬ closeMark <:+: body)

def GapPiece.text : GapPiece → List Char
  | blank c _ => [c]
  | comment body _ => Source.comment body

def GapPiece.blanks : GapPiece → List Char
  | blank c _ => [c]
  | comment _ _ => []

/-- Any number of blanks and complete comments. -/
structure Gap where
  pieces : List GapPiece

namespace Gap

def text (gap : Gap) : List Char := gap.pieces.flatMap GapPiece.text

/-- The blanks of a gap, those inside its comments left out. -/
def blanks (gap : Gap) : List Char := gap.pieces.flatMap GapPiece.blanks

end Gap

def moduleWord : List Char := ['M', 'O', 'D', 'U', 'L', 'E']

def importWord : List Char := ['I', 'M', 'P', 'O', 'R', 'T']

/-- A keyword in some letter case. -/
structure Spelling (keyword : List Char) where
  text : List Char
  spells : Spells text keyword

/-- A letter or underscore and then letters, digits and underscores, but not the import keyword. -/
structure Ident where
  first : Char
  rest : List Char
  first_start : first.isAlpha = true ∨ first = '_'
  rest_char : ∀ c ∈ rest, c.isAlphanum = true ∨ c = '_'
  not_import : ¬ Spells (first :: rest) importWord

def Ident.text (name : Ident) : List Char := name.first :: name.rest

/-- An imported module, or an alias and the module that it stands for. -/
inductive Item where
  | plain (name : Ident)
  | renamed (short : Ident) (before after : Gap) (name : Ident)

namespace Item

def text : Item → List Char
  | plain name => name.text
  | renamed short before after name =>
      short.text ++ before.text ++ aliasSign ++ after.text ++ name.text

/-- The module that an item imports. -/
def name : Item → Ident
  | plain name => name
  | renamed _ _ _ name => name

/-- The item without its comments. -/
def bare : Item → List Char
  | plain name => name.text
  | renamed short before after name =>
      short.text ++ before.blanks ++ aliasSign ++ after.blanks ++ name.text

end Item

/-- An item between two gaps. -/
structure Entry where
  front : Gap
  item : Item
  back : Gap

namespace Entry

def text (entry : Entry) : List Char := entry.front.text ++ entry.item.text ++ entry.back.text

def bare (entry : Entry) : List Char := entry.front.blanks ++ entry.item.bare ++ entry.back.blanks

end Entry

/-- An import clause: the keyword, entries between commas, a semicolon. The gap behind the keyword
has a blank. -/
structure ImportClause where
  front : Gap
  keyword : Spelling importWord
  first : Entry
  others : List Entry
  separated : first.front.blanks ≠ []

namespace ImportClause

def entries (clause : ImportClause) : List Entry := clause.first :: clause.others

def text (clause : ImportClause) : List Char :=
  clause.front.text ++ clause.keyword.text ++
    joinFields ',' (clause.entries.map Entry.text) ++ [';']

/-- The imported names, in order and with repeats. -/
def names (clause : ImportClause) : List String :=
  clause.entries.map fun entry => .ofList entry.item.name.text

end ImportClause

/-- A module clause: the keyword, the name of the module, a semicolon. The gap behind the keyword
has a blank. -/
structure ModuleClause where
  front : Gap
  keyword : Spelling moduleWord
  separator : Gap
  separated : separator.blanks ≠ []
  name : Ident
  back : Gap

def ModuleClause.text (clause : ModuleClause) : List Char :=
  clause.front.text ++ clause.keyword.text ++ clause.separator.text ++ clause.name.text ++
    clause.back.text ++ [';']

/-! ## What stripping comments leaves -/

/-- Whatever follows, stripping comments leaves `bare` of the text in front. -/
def StripsTo (text bare : List Char) : Prop :=
  ∀ rest, stripComments (text ++ rest) = bare ++ stripComments rest

namespace StripsTo

variable {text bare first second firstBare secondBare body : List Char}

theorem nil : StripsTo [] [] := fun _ => rfl

theorem append (hfirst : StripsTo first firstBare) (hsecond : StripsTo second secondBare) :
    StripsTo (first ++ second) (firstBare ++ secondBare) := by
  intro rest
  rw [List.append_assoc, hfirst, hsecond, List.append_assoc]

/-- A text without opening parentheses begins no comment. -/
theorem of_not_mem (hnot : '(' ∉ text) : StripsTo text text := by
  intro rest
  apply stripComments_append_of_no_mark
  · exact fun hopen => hnot (hopen.subset (by decide))
  · exact fun hmake => hnot (List.mem_of_getLast? hmake.1)

theorem comment (hbody : ¬ closeMark <:+: body) : StripsTo (comment body) [] :=
  fun _ => stripComments_comment_append hbody

theorem flatMap {α : Type} {pieces : List α} {f g : α → List Char}
    (hpiece : ∀ piece ∈ pieces, StripsTo (f piece) (g piece)) :
    StripsTo (pieces.flatMap f) (pieces.flatMap g) := by
  induction pieces with
  | nil => exact nil
  | cons piece pieces ih =>
      obtain ⟨hfirst, hrest⟩ := List.forall_mem_cons.mp hpiece
      exact hfirst.append (ih hrest)

theorem join {α : Type} {separator : Char} {pieces : List α} {f g : α → List Char}
    (hseparator : separator ≠ '(') (hpiece : ∀ piece ∈ pieces, StripsTo (f piece) (g piece)) :
    StripsTo (joinFields separator (pieces.map f)) (joinFields separator (pieces.map g)) := by
  have hsign : StripsTo [separator] [separator] := of_not_mem (by simpa using hseparator.symm)
  induction pieces with
  | nil => exact nil
  | cons piece pieces ih =>
      obtain ⟨hfirst, hrest⟩ := List.forall_mem_cons.mp hpiece
      cases pieces with
      | nil => exact hfirst
      | cons next pieces => exact hfirst.append (hsign.append (ih hrest))

end StripsTo

theorem isKeyword_moduleWord : IsKeyword moduleWord :=
  ⟨by decide, List.all_eq_true.mp (by decide)⟩

theorem isKeyword_importWord : IsKeyword importWord :=
  ⟨by decide, List.all_eq_true.mp (by decide)⟩

theorem Spelling.not_mem {keyword : List Char} (spelling : Spelling keyword)
    (hkeyword : IsKeyword keyword) {c : Char} (hc : isIdentChar c = false) :
    c ∉ spelling.text := by
  intro hmem
  rw [spelling.spells.isIdentChar hkeyword hmem] at hc
  cases hc

namespace Gap

theorem isBlank_of_mem {gap : Gap} {c : Char} (hc : c ∈ gap.blanks) : isBlank c = true := by
  obtain ⟨piece, -, hpiece⟩ := List.mem_flatMap.mp hc
  cases piece with
  | blank first hblank => rwa [List.mem_singleton.mp hpiece]
  | comment body hbody => cases hpiece

/-- A gap without its comments. -/
def bare (gap : Gap) : Blanks := ⟨gap.blanks, List.all_eq_true.mpr fun _ => isBlank_of_mem⟩

theorem not_isWordChar_of_mem {gap : Gap} {c : Char} (hc : c ∈ gap.blanks) :
    isWordChar c = false :=
  not_isWordChar_of_isBlank (isBlank_of_mem hc)

theorem not_mem {gap : Gap} {c : Char} (hc : isBlank c = false) : c ∉ gap.blanks :=
  not_mem_of_forall_isBlank (fun _ => isBlank_of_mem) hc

theorem stripsTo (gap : Gap) : StripsTo gap.text gap.blanks := by
  apply StripsTo.flatMap
  intro piece _
  cases piece with
  | blank c hblank =>
      apply StripsTo.of_not_mem
      rintro hmem
      obtain rfl := List.mem_singleton.mp hmem
      exact absurd hblank (by decide)
  | comment body hbody => exact .comment hbody

end Gap

namespace Ident

theorem ne_nil (name : Ident) : name.text ≠ [] := List.cons_ne_nil _ _

theorem isIdentChar_of_mem {name : Ident} {c : Char} (hc : c ∈ name.text) :
    isIdentChar c = true := by
  rcases List.mem_cons.mp hc with rfl | hrest
  · rcases name.first_start with hletter | hunderscore
    · simp [isIdentChar, Char.isAlphanum, hletter]
    · simp [isIdentChar, hunderscore]
  · simpa [isIdentChar] using name.rest_char c hrest

theorem isWordChar_of_mem {name : Ident} {c : Char} (hc : c ∈ name.text) : isWordChar c = true :=
  isWordChar_of_isIdentChar (isIdentChar_of_mem hc)

theorem not_mem {name : Ident} {c : Char} (hc : isIdentChar c = false) : c ∉ name.text := by
  intro hmem
  rw [isIdentChar_of_mem hmem] at hc
  cases hc

theorem not_isBlank_of_mem {name : Ident} {c : Char} (hc : c ∈ name.text) : isBlank c = false :=
  not_isBlank_of_isIdentChar (isIdentChar_of_mem hc)

theorem stripsTo (name : Ident) : StripsTo name.text name.text :=
  .of_not_mem (not_mem (by decide))

theorem isTrimmed (name : Ident) : IsTrimmed name.text where
  ne_nil := name.ne_nil
  front := fun _ hc => not_isBlank_of_mem (List.mem_of_head? hc)
  back := fun _ hc => not_isBlank_of_mem (List.mem_of_getLast? hc)

theorem aliasSign_not_isInfix (name : Ident) : ¬ aliasSign <:+: name.text :=
  fun hsign => not_mem (by decide) (hsign.subset (show ':' ∈ aliasSign by decide))

/-- The name and the blanks of two gaps around it. -/
def part (name : Ident) (front back : Gap) : NamePart where
  front := front.bare
  core := name.text
  back := back.bare
  no_comma := not_mem (by decide)
  no_sign := name.aliasSign_not_isInfix
  isTrimmed := name.isTrimmed

/-- Trimming leaves a name of the blanks around it. -/
theorem trim_append (name : Ident) (front back : Gap) :
    trim (front.blanks ++ name.text ++ back.blanks) = name.text :=
  (hasCore_iff.mp (name.part front back).hasCore).1

end Ident

namespace Item

theorem stripsTo (item : Item) : StripsTo item.text item.bare := by
  cases item with
  | plain name => exact name.stripsTo
  | renamed short before after name =>
      have hsign : StripsTo aliasSign aliasSign := .of_not_mem (by decide)
      exact (((short.stripsTo.append before.stripsTo).append hsign).append
        after.stripsTo).append name.stripsTo

theorem ne_nil (item : Item) : item.bare ≠ [] := by
  cases item <;> exact List.cons_ne_nil _ _

theorem not_mem (item : Item) {c : Char} (hident : isIdentChar c = false)
    (hblank : isBlank c = false) (hsign : c ∉ aliasSign) : c ∉ item.bare := by
  cases item with
  | plain name => exact Ident.not_mem hident
  | renamed short before after name =>
      simp only [bare, List.mem_append, not_or]
      exact ⟨⟨⟨⟨Ident.not_mem hident, Gap.not_mem hblank⟩, hsign⟩, Gap.not_mem hblank⟩,
        Ident.not_mem hident⟩

end Item

namespace Entry

theorem stripsTo (entry : Entry) : StripsTo entry.text entry.bare :=
  (entry.front.stripsTo.append entry.item.stripsTo).append entry.back.stripsTo

/-- What is left of an entry without its comments is a written entry. -/
def written : Entry → WrittenEntry
  | ⟨front, .plain name, back⟩ => .plain (name.part front back)
  | ⟨front, .renamed short before after name, back⟩ =>
      .renamed (short.part front before).toPart (name.part after back)

theorem text_written (entry : Entry) : entry.written.text = entry.bare := by
  obtain ⟨front, item, back⟩ := entry
  cases item with
  | plain name => rfl
  | renamed short before after name =>
      simp only [written, WrittenEntry.text, Part.text, Ident.part, Gap.bare, bare, Item.bare,
        List.append_assoc]

theorem name_written (entry : Entry) : entry.written.name = entry.item.name.text := by
  obtain ⟨front, item, back⟩ := entry
  cases item <;> rfl

theorem not_mem (entry : Entry) {c : Char} (hident : isIdentChar c = false)
    (hblank : isBlank c = false) (hsign : c ∉ aliasSign) : c ∉ entry.bare := by
  simp only [bare, List.mem_append, not_or]
  exact ⟨⟨Gap.not_mem hblank, entry.item.not_mem hident hblank hsign⟩, Gap.not_mem hblank⟩

end Entry

/-! ## The clauses of a header -/

namespace ImportClause

/-- The body of the clause without its comments. -/
def body (clause : ImportClause) : List Char := joinFields ',' (clause.entries.map Entry.bare)

theorem stripsTo (clause : ImportClause) :
    StripsTo clause.text (clause.front.blanks ++ clause.keyword.text ++ clause.body ++ [';']) := by
  have hkeyword : StripsTo clause.keyword.text clause.keyword.text :=
    .of_not_mem (clause.keyword.not_mem isKeyword_importWord (by decide))
  have hentries : StripsTo (joinFields ',' (clause.entries.map Entry.text)) clause.body :=
    .join (by decide) fun entry _ => entry.stripsTo
  have hend : StripsTo [';'] [';'] := .of_not_mem (by decide)
  exact ((clause.front.stripsTo.append hkeyword).append hentries).append hend

/-- The body of a clause is a list of written entries. -/
theorem importedNames_body (clause : ImportClause) :
    (importedNames clause.body).map String.ofList = clause.names := by
  have hwritten : clause.entries.map Entry.bare =
      (clause.entries.map Entry.written).map WrittenEntry.text := by
    rw [List.map_map]
    exact List.map_congr_left fun entry _ => entry.text_written.symm
  rw [body, hwritten, importedNames_written, List.map_map, List.map_map, names]
  exact List.map_congr_left fun entry _ => congrArg String.ofList entry.name_written

theorem isBody_body (clause : ImportClause) : isBody (fun _ => true) clause.body = true := by
  obtain ⟨others, hothers⟩ : ∃ rest, clause.body = clause.first.bare ++ rest :=
    exists_joinFields_cons _
  rw [hothers, Entry.bare, List.append_assoc, List.append_assoc]
  exact isBody_append clause.separated (fun _ => Gap.isBlank_of_mem)
    (List.append_ne_nil_of_left_ne_nil clause.first.item.ne_nil _) fun _ _ => rfl

/-- The search finds the clause, whatever follows. -/
theorem importClause?_append (clause : ImportClause) (rest : List Char) :
    importClause? (clause.front.blanks ++ clause.keyword.text ++ clause.body ++ [';'] ++ rest) =
      some clause.body := by
  have hsemicolon : ';' ∉ clause.body := by
    apply not_mem_joinFields (by decide)
    rintro bare hbare
    obtain ⟨entry, -, rfl⟩ := List.mem_map.mp hbare
    exact entry.not_mem (by decide) (by decide) (by decide)
  exact findClause?_clause isKeyword_importWord (fun _ => Gap.not_isWordChar_of_mem)
    clause.keyword.spells clause.isBody_body hsemicolon

end ImportClause

namespace ModuleClause

/-- The body of the clause without its comments. -/
def body (clause : ModuleClause) : List Char :=
  clause.separator.blanks ++ clause.name.text ++ clause.back.blanks

theorem stripsTo (clause : ModuleClause) :
    StripsTo clause.text (clause.front.blanks ++ clause.keyword.text ++ clause.body ++ [';']) := by
  have hkeyword : StripsTo clause.keyword.text clause.keyword.text :=
    .of_not_mem (clause.keyword.not_mem isKeyword_moduleWord (by decide))
  have hbody : StripsTo (clause.separator.text ++ clause.name.text ++ clause.back.text)
      clause.body :=
    (clause.separator.stripsTo.append clause.name.stripsTo).append clause.back.stripsTo
  have hend : StripsTo [';'] [';'] := .of_not_mem (by decide)
  have hall := ((clause.front.stripsTo.append hkeyword).append hbody).append hend
  simpa only [text, List.append_assoc] using hall

theorem isNameChar_of_mem (clause : ModuleClause) {c : Char} (hc : c ∈ clause.body) :
    isNameChar c = true := by
  rcases List.mem_append.mp hc with hfront | hback
  · rcases List.mem_append.mp hfront with hseparator | hname
    · simp [isNameChar, Gap.isBlank_of_mem hseparator]
    · simp [isNameChar, Ident.isWordChar_of_mem hname]
  · simp [isNameChar, Gap.isBlank_of_mem hback]

/-- The search finds the clause, whatever follows. -/
theorem declaration?_append (clause : ModuleClause) (rest : List Char) :
    declaration? (clause.front.blanks ++ clause.keyword.text ++ clause.body ++ [';'] ++ rest) =
      some clause.body := by
  have hbody : isBody isNameChar clause.body = true := by
    rw [body, List.append_assoc]
    refine isBody_append clause.separated (fun _ => Gap.isBlank_of_mem)
      (List.append_ne_nil_of_left_ne_nil clause.name.ne_nil _) fun c hc => ?_
    exact clause.isNameChar_of_mem (by rwa [body, List.append_assoc])
  have hsemicolon : ';' ∉ clause.body := fun hmem =>
    absurd (clause.isNameChar_of_mem hmem) (by decide)
  exact findClause?_clause isKeyword_moduleWord (fun _ => Gap.not_isWordChar_of_mem)
    clause.keyword.spells hbody hsemicolon

/-- A module clause holds no import clause. -/
theorem importClause?_append (clause : ModuleClause) (rest : List Char) :
    importClause? (clause.front.blanks ++ clause.keyword.text ++ clause.body ++ [';'] ++ rest) =
      importClause? rest := by
  have hassoc : clause.front.blanks ++ clause.keyword.text ++ clause.body ++ [';'] ++ rest =
      clause.front.blanks ++ (clause.keyword.text ++ clause.separator.blanks ++
        (clause.name.text ++ (clause.back.blanks ++ [';']) ++ rest)) := by
    simp only [body, List.append_assoc]
  have hother : ¬ Spells clause.keyword.text importWord := fun hspells =>
    absurd (clause.keyword.spells.symm.trans hspells) (by decide)
  have hend : ∀ c ∈ clause.back.blanks ++ [';'], isWordChar c = false := by
    intro c hc
    rcases List.mem_append.mp hc with hblank | hsemicolon
    · exact Gap.not_isWordChar_of_mem hblank
    · rw [List.mem_singleton.mp hsemicolon]
      decide
  rw [hassoc]
  exact (findClause?_gap_append isKeyword_importWord fun _ => Gap.not_isWordChar_of_mem).trans
    ((findClause?_word_gap_append isKeyword_importWord
      (clause.keyword.spells.ne_nil isKeyword_moduleWord)
      (fun _ => clause.keyword.spells.isWordChar isKeyword_moduleWord) hother clause.separated
      fun _ => Gap.not_isWordChar_of_mem).trans
    (findClause?_word_gap_append isKeyword_importWord clause.name.ne_nil
      (fun _ => Ident.isWordChar_of_mem) clause.name.not_import (by simp) hend))

/-- A module clause names the module, and the imports are those of what follows. -/
theorem ofText?_append (clause : ModuleClause) (rest : List Char) :
    Module.ofText? (.ofList (clause.text ++ rest)) =
      some ⟨.ofList clause.name.text, Module.importsOf (stripComments rest), none⟩ := by
  have hname : (declaration? (clause.front.blanks ++ clause.keyword.text ++ clause.body ++ [';'] ++
      stripComments rest)).map trim = some clause.name.text := by
    rw [declaration?_append, Option.map_some]
    exact congrArg some (clause.name.trim_append clause.separator clause.back)
  have himports : Module.importsOf (clause.front.blanks ++ clause.keyword.text ++ clause.body ++
      [';'] ++ stripComments rest) = Module.importsOf (stripComments rest) := by
    rw [Module.importsOf, importClause?_append, Module.importsOf]
  simp only [Module.ofText?, String.toList_ofList, clause.stripsTo rest, hname, himports]
  rfl

end ModuleClause

/-- A well-formed header is read as it is written, whatever follows: the module has the name of the
module clause and imports what the items of the import clause name, in order and with repeats. If
there is no import clause and, without comments, what follows holds no import keyword, the module
imports nothing. -/
theorem ofText?_header (header : ModuleClause) :
    (∀ (clause : ImportClause) (tail : List Char),
      Module.ofText? (.ofList (header.text ++ clause.text ++ tail)) =
        some ⟨.ofList header.name.text, clause.names, none⟩) ∧
    (∀ tail : List Char, ¬ HasKeyword importWord (stripComments tail) →
      Module.ofText? (.ofList (header.text ++ tail)) =
        some ⟨.ofList header.name.text, [], none⟩) := by
  constructor
  · intro clause tail
    have himports : Module.importsOf (stripComments (clause.text ++ tail)) = clause.names := by
      rw [clause.stripsTo tail, Module.importsOf, clause.importClause?_append]
      exact clause.importedNames_body
    rw [List.append_assoc, header.ofText?_append, himports]
  · intro tail hnone
    have hclause : importClause? (stripComments tail) = none := findClause?_eq_none hnone
    have himports : Module.importsOf (stripComments tail) = [] := by
      rw [Module.importsOf, hclause]
    rw [header.ofText?_append, himports]

/-- A module clause with a comment before the keyword and one with an opening mark behind it. -/
def commentedModule : ModuleClause where
  front := ⟨[.comment "MODULE X;".toList (by decide), .blank '\n' (by decide)]⟩
  keyword := ⟨"Module".toList, by decide⟩
  separator := ⟨[.comment "(*".toList (by decide), .blank ' ' (by decide)]⟩
  separated := by decide
  name := ⟨'A', ['_', '1'], by decide, by simp, by decide⟩
  back := ⟨[.blank ' ' (by decide)]⟩

/-- An import clause with an alias, a comma in a comment and a repeat. -/
def commentedImports : ImportClause where
  front := ⟨[]⟩
  keyword := ⟨"import".toList, by decide⟩
  first :=
    { front := ⟨[.blank '\t' (by decide)]⟩
      item := .renamed ⟨'B', [], by decide, by simp, by decide⟩ ⟨[]⟩
        ⟨[.comment ",".toList (by decide)]⟩ ⟨'C', [], by decide, by simp, by decide⟩
      back := ⟨[]⟩ }
  others := [⟨⟨[]⟩, .plain ⟨'C', [], by decide, by simp, by decide⟩, ⟨[]⟩⟩]
  separated := by decide

theorem ofText?_commentedModule :
    commentedModule.text ++ commentedImports.text =
      "(*MODULE X;*)\nModule(*(**) A_1 ;import\tB:=(*,*)C,C;".toList ∧
    Module.ofText? (.ofList (commentedModule.text ++ commentedImports.text ++ "(* END".toList)) =
      some ⟨"A_1", ["C", "C"], none⟩ ∧
    ¬ HasKeyword importWord (stripComments (comment " IMPORT B; ".toList ++ "END A_1.".toList)) ∧
    Module.ofText? (.ofList
      (commentedModule.text ++ (comment " IMPORT B; ".toList ++ "END A_1.".toList))) =
        some ⟨"A_1", [], none⟩ := by
  obtain ⟨himports, hbare⟩ := ofText?_header commentedModule
  have hstrip : stripComments (comment " IMPORT B; ".toList ++ "END A_1.".toList) =
      "END A_1.".toList := by
    rw [stripComments_comment_append (by decide), stripComments_of_no_mark (by decide)]
  have hnone : ¬ HasKeyword importWord
      (stripComments (comment " IMPORT B; ".toList ++ "END A_1.".toList)) := by
    intro hkeyword
    obtain ⟨c, hc, hcapital⟩ := hkeyword.exists_mem (show 'P' ∈ importWord by decide)
    rw [hstrip] at hc
    have hnever : 'P' ∉ "END A_1.".toList.map Char.toUpper := by decide
    exact hnever (List.mem_map.mpr ⟨c, hc, hcapital⟩)
  exact ⟨by decide, himports commentedImports _, hnone, hbare _ hnone⟩

end OberonImports.Source
