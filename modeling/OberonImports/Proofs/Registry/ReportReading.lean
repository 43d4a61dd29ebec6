import OberonImports.Proofs.Text.Cut
import OberonImports.Report

/-!
# Reading a report back

A report is read line by line. What a line is told by its place: the first line of a block is a
heading, whatever it looks like, and the lines behind it are imports for as long as they start with
a tab, which the separator does not. So a report tells the names and the imports of the modules, and
the names may look like lines of any kind if none of them holds a line feed.
-/

namespace OberonImports

variable {registry : Registry} {lines : List String} {rest : List (List Char)}
  {imports : List String} {name : String}

/-- The lines of a text that ends each of its lines. -/
def Text.endedLines? (text : String) : Option (List (List Char)) :=
  let pieces := fields '\n' text.toList
  if pieces.getLast? = some [] then some pieces.dropLast else none

theorem Text.fields_unlines (hfree : ∀ line ∈ lines, '\n' ∉ line.toList) :
    fields '\n' (unlines lines).toList = lines.map String.toList ++ [[]] := by
  induction lines with
  | nil => rfl
  | cons line lines ih =>
      obtain ⟨hline, hlines⟩ := List.forall_mem_cons.mp hfree
      have htext : (unlines (line :: lines)).toList =
          line.toList ++ '\n' :: (unlines lines).toList := by simp [unlines]
      rw [htext, fields_append, fields_of_not_mem hline, ih hlines]
      rfl

theorem Text.endedLines?_unlines (hfree : ∀ line ∈ lines, '\n' ∉ line.toList) :
    endedLines? (unlines lines) = some (lines.map String.toList) := by
  simp [endedLines?, fields_unlines hfree]

namespace Registry

/-- What is told of each module: its name and its imports. -/
def declarations (registry : Registry) : List (String × List String) :=
  registry.modules.map fun module => (module.name, module.imports)

theorem pairwise_declarations (registry : Registry) :
    registry.declarations.Pairwise fun lower upper => lower.1 < upper.1 :=
  List.pairwise_map.mpr registry.ascending

/-- The name in front of the colon that ends a heading. -/
def headingName? (line : List Char) : Option String :=
  if line.getLast? = some ':' then some (String.ofList line.dropLast) else none

/-- Read on in a report, within the block that is open or else before the next one. -/
def readBlocks? (block : Option (String × List String)) :
    List (List Char) → Option (List (String × List String))
  | [] => if block.isNone then some [] else none
  | line :: lines =>
      match block with
      | none => (headingName? line).bind fun name => readBlocks? (some (name, [])) lines
      | some (name, imports) =>
          match line with
          | '\t' :: imported =>
              readBlocks? (some (name, imports ++ [String.ofList imported])) lines
          | _ =>
              if line = separator.toList then (readBlocks? none lines).map ((name, imports) :: ·)
              else none

/-- The declarations that a report tells. -/
def ofReport? (text : String) : Option (List (String × List String)) :=
  (Text.endedLines? text).bind (readBlocks? none)

theorem readBlocks?_heading (name : String) (rest : List (List Char)) :
    readBlocks? none ((name ++ ":").toList :: rest) = readBlocks? (some (name, [])) rest := by
  simp [readBlocks?, headingName?]

theorem readBlocks?_import (imported : String) :
    readBlocks? (some (name, imports)) (("\t" ++ imported).toList :: rest) =
      readBlocks? (some (name, imports ++ [imported])) rest := by
  have hline : ("\t" ++ imported).toList = '\t' :: imported.toList := by simp
  rw [hline, readBlocks?, String.ofList_toList]

/-- A separator does not start with a tab, so it ends the block. -/
theorem readBlocks?_separator : readBlocks? (some (name, imports)) (separator.toList :: rest) =
    (readBlocks? none rest).map ((name, imports) :: ·) := by
  rfl

/-- By induction on the imports that are still to come. -/
theorem readBlocks?_imports (behind : List String) :
    readBlocks? (some (name, imports))
        (behind.map (fun imported => ("\t" ++ imported).toList) ++ separator.toList :: rest) =
      (readBlocks? none rest).map ((name, imports ++ behind) :: ·) := by
  induction behind generalizing imports with
  | nil => rw [List.append_nil]; exact readBlocks?_separator
  | cons imported behind ih =>
      rw [List.map_cons, List.cons_append, readBlocks?_import, ih, List.append_assoc]
      rfl

theorem readBlocks?_reportLines (module : Module) :
    readBlocks? none (module.reportLines.map String.toList ++ rest) =
      (readBlocks? none rest).map ((module.name, module.imports) :: ·) := by
  have hlines : module.reportLines.map String.toList ++ rest = (module.name ++ ":").toList ::
      (module.imports.map (fun imported => ("\t" ++ imported).toList) ++
        separator.toList :: rest) := by
    simp [Module.reportLines]
  rw [hlines, readBlocks?_heading, readBlocks?_imports, List.nil_append]

theorem readBlocks?_flatMap (modules : List Module) :
    readBlocks? none ((modules.flatMap Module.reportLines).map String.toList) =
      some (modules.map fun module => (module.name, module.imports)) := by
  induction modules with
  | nil => rfl
  | cons module modules ih =>
      rw [List.flatMap_cons, List.map_append, readBlocks?_reportLines, ih]
      rfl

/-- No name of a module or of an import holds a line feed. -/
def FeedFree (registry : Registry) : Prop :=
  ∀ module ∈ registry.modules, ∀ name ∈ module.name :: module.imports, '\n' ∉ name.toList

theorem report_eq_unlines (registry : Registry) :
    registry.report = Text.unlines (registry.modules.flatMap Module.reportLines) := by
  rw [report]
  induction registry.modules with
  | nil => rfl
  | cons module modules ih =>
      simp only [Text.unlines, List.map_cons, List.flatMap_cons, List.map_append,
        String.join_cons, String.join_append, Module.report] at ih ⊢
      rw [ih]

theorem FeedFree.not_mem_reportLines (hfree : registry.FeedFree) :
    ∀ line ∈ registry.modules.flatMap Module.reportLines, '\n' ∉ line.toList := by
  intro line hline
  obtain ⟨module, hmodule, hline⟩ := List.mem_flatMap.mp hline
  obtain ⟨hname, himports⟩ := List.forall_mem_cons.mp (hfree module hmodule)
  simp only [Module.reportLines, List.mem_append, List.mem_singleton, List.mem_map] at hline
  rcases hline with (rfl | ⟨imported, himported, rfl⟩) | rfl
  · simpa using hname
  · simpa using himports imported himported
  · decide

theorem ofReport?_report (hfree : registry.FeedFree) :
    ofReport? registry.report = some registry.declarations := by
  rw [ofReport?, report_eq_unlines, Text.endedLines?_unlines hfree.not_mem_reportLines]
  exact readBlocks?_flatMap registry.modules

/-- If no name holds a line feed, the declarations are read back from the report, in strictly
ascending order of names. So registries have the same report only if they declare the same modules
with the same imports. -/
theorem report_tells_declarations (first second : Registry) (hfirst : first.FeedFree)
    (hsecond : second.FeedFree) :
    ofReport? first.report = some first.declarations ∧
    (first.declarations.Pairwise fun lower upper => lower.1 < upper.1) ∧
    (first.report = second.report ↔ first.declarations = second.declarations) := by
  refine ⟨ofReport?_report hfirst, first.pairwise_declarations, ?_, ?_⟩
  · intro heq
    have hread := ofReport?_report hfirst
    rw [heq, ofReport?_report hsecond] at hread
    exact (Option.some.inj hread).symm
  · intro heq
    have hblocks : ∀ registry : Registry, registry.report = String.join
        (registry.declarations.map fun declared =>
          (Module.mk declared.1 declared.2 none).report) := by
      intro registry
      rw [report, declarations, List.map_map]
      rfl
    rw [hblocks first, hblocks second, heq]

/-- Names that look like headings, imports and separators. -/
def lookalikes : Registry where
  modules := [⟨"", [":", separator], none⟩, ⟨"\tA:", [], none⟩, ⟨separator, ["", "\tA"], none⟩]
  ascending := by decide

/-- The same names, with the imports of the last module moved to the one before it. -/
def movedLookalikes : Registry where
  modules := [⟨"", [":", separator], none⟩, ⟨"\tA:", ["", "\tA"], none⟩, ⟨separator, [], none⟩]
  ascending := by decide

theorem report_lookalikes : lookalikes.FeedFree ∧ movedLookalikes.FeedFree ∧
    ofReport? lookalikes.report =
      some [("", [":", separator]), ("\tA:", []), (separator, ["", "\tA"])] ∧
    lookalikes.report ≠ movedLookalikes.report := by
  have hfree : lookalikes.FeedFree := by unfold FeedFree; decide
  have hmoved : movedLookalikes.FeedFree := by unfold FeedFree; decide
  obtain ⟨hread, -, hsame⟩ := report_tells_declarations lookalikes movedLookalikes hfree hmoved
  exact ⟨hfree, hmoved, hread, fun heq => absurd (hsame.mp heq) (by decide)⟩

end Registry

end OberonImports
