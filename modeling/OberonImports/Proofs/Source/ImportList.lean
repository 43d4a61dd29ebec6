import OberonImports.Proofs.Text.Blank
import OberonImports.Proofs.Text.Cut
import OberonImports.Source.ImportList

/-!
# What an import list names

A list is cut at its commas into entries. An entry gives the text behind its first alias sign, or all
of its text if it has none; without the blanks around it, this is a name, and if it is all blank the
entry names nothing. Blanks around a list make no difference to what it names, and a comma parts a
list into two that are read each on its own.
-/

namespace OberonImports.Source

open Text

variable {entry target list front back name : List Char} {entries names : List (List Char)}

/-! ## Entries -/

/-- The text that an entry gives: what stands behind its first alias sign, or all of it. -/
inductive HasTarget : List Char → List Char → Prop
  | plain {entry : List Char} (hnone : ¬ aliasSign <:+: entry) : HasTarget entry entry
  | renamed {short target : List Char} (hfirst : ¬ aliasSign <:+: short) :
      HasTarget (short ++ aliasSign ++ target) target

theorem exists_hasTarget (entry : List Char) : ∃ target, HasTarget entry target := by
  cases hcut : cut? aliasSign entry with
  | none => exact ⟨entry, .plain ((cut?_eq_none (by decide)).mp hcut)⟩
  | some pieces =>
      rw [append_of_cut? hcut]
      exact ⟨pieces.2, .renamed (no_mark_of_cut? (by decide) hcut)⟩

/-- Neither character of the sign is blank, so trimming stops at the sign from both sides. -/
theorem trim_append_sign (short target : List Char) :
    trim (short ++ aliasSign ++ target) = trimFront short ++ aliasSign ++ trimBack target := by
  have hfront : trimFront (short ++ ':' :: '=' :: target) =
      trimFront short ++ ':' :: '=' :: target := trimFront_append_cons (by decide)
  have hback : trimBack (trimFront short ++ [':'] ++ '=' :: target) =
      trimFront short ++ [':'] ++ '=' :: trimBack target := trimBack_append_cons (by decide)
  simp only [List.append_assoc, List.cons_append, List.nil_append] at hback
  simp only [trim, aliasSign, List.append_assoc, List.cons_append, List.nil_append, hfront, hback]

/-- The name of an entry is the text that it gives, without the blanks around it. -/
theorem HasTarget.importedName_eq (htarget : HasTarget entry target) :
    importedName entry = trim target := by
  cases htarget with
  | plain hnone =>
      have hcut : cut? aliasSign (trim entry) = none :=
        (cut?_eq_none (by decide)).mpr fun hsign => hnone (hsign.trans trim_isInfix)
      rw [importedName, hcut]
  | @renamed short _ hfirst =>
      have hfront : ¬ aliasSign <:+: trimFront short :=
        fun hsign => hfirst (hsign.trans (List.dropWhile_suffix isBlank).isInfix)
      have hcut : cut? aliasSign (trimFront short ++ aliasSign ++ trimBack target) =
          some (trimFront short, trimBack target) :=
        cut?_append (by decide) ((pair_infix_concat (by decide)).not.mpr hfront)
      rw [importedName, trim_append_sign, hcut]
      exact trim_trimBack target

theorem importedName_blanks_append (hfront : ∀ c ∈ front, isBlank c = true)
    (hback : ∀ c ∈ back, isBlank c = true) :
    importedName (front ++ entry ++ back) = importedName entry := by
  rw [importedName, importedName, trim_blanks_append hfront hback]

/-- Neither character of the alias sign is blank, so blanks around a text put no sign together. -/
theorem aliasSign_isInfix_of_blanks_append (hfront : ∀ c ∈ front, isBlank c = true)
    (hback : ∀ c ∈ back, isBlank c = true) (hsign : aliasSign <:+: front ++ entry ++ back) :
    aliasSign <:+: entry := by
  have hcolon : ∀ blanks : List Char, (∀ c ∈ blanks, isBlank c = true) → ':' ∉ blanks :=
    fun _ hblank => not_mem_of_forall_isBlank hblank (by decide)
  rcases pair_infix_append.mp hsign with hinner | hbehind | ⟨-, hseam⟩
  · rcases pair_infix_append.mp hinner with hbefore | hentry | ⟨hseam, -⟩
    · exact absurd (hbefore.subset List.mem_cons_self) (hcolon front hfront)
    · exact hentry
    · exact absurd (List.mem_of_getLast? hseam) (hcolon front hfront)
  · exact absurd (hbehind.subset List.mem_cons_self) (hcolon back hback)
  · exact absurd (List.mem_of_head? hseam) (not_mem_of_forall_isBlank hback (by decide))

/-- What entries name, in their order. An entry that gives only blanks names nothing. -/
inductive EntriesName : List (List Char) → List (List Char) → Prop
  | nil : EntriesName [] []
  | blank {entry target : List Char} {entries names : List (List Char)}
      (htarget : HasTarget entry target) (hblank : ∀ c ∈ target, isBlank c = true)
      (hrest : EntriesName entries names) : EntriesName (entry :: entries) names
  | name {entry target name : List Char} {entries names : List (List Char)}
      (htarget : HasTarget entry target) (hcore : HasCore target name)
      (hrest : EntriesName entries names) : EntriesName (entry :: entries) (name :: names)

theorem entriesName_iff : EntriesName entries names ↔
    (entries.map importedName).filter (· ≠ []) = names := by
  constructor
  · intro hnames
    induction hnames with
    | nil => rfl
    | blank htarget hblank _ ih =>
        have hnone : importedName _ = [] :=
          htarget.importedName_eq.trans (trim_eq_nil_iff.mpr hblank)
        rw [List.map_cons, hnone, List.filter_cons_of_neg (by simp), ih]
    | name htarget hcore _ ih =>
        obtain ⟨htrim, hne⟩ := hasCore_iff.mp hcore
        have hname : importedName _ = _ := htarget.importedName_eq.trans htrim
        rw [List.map_cons, hname, List.filter_cons_of_pos (by simp [hne]), ih]
  · rintro rfl
    induction entries with
    | nil => exact .nil
    | cons entry entries ih =>
        obtain ⟨target, htarget⟩ := exists_hasTarget entry
        rw [List.map_cons, htarget.importedName_eq]
        by_cases hne : trim target = []
        · rw [List.filter_cons_of_neg (by simp [hne])]
          exact .blank htarget (trim_eq_nil_iff.mp hne) ih
        · rw [List.filter_cons_of_pos (by simp [hne])]
          exact .name htarget (hasCore_iff.mpr ⟨rfl, hne⟩) ih

/-! ## Lists -/

/-- What a list names: what the entries between its commas name. -/
def ListNames (list : List Char) (names : List (List Char)) : Prop :=
  ∃ entries, IsFields ',' list entries ∧ EntriesName entries names

theorem listNames_iff : ListNames list names ↔ importedNames list = names := by
  simp only [ListNames, isFields_iff, entriesName_iff, importedNames]
  simp

/-- A comma parts a list into two that are read each on its own. -/
theorem importedNames_append_comma (first second : List Char) :
    importedNames (first ++ ',' :: second) = importedNames first ++ importedNames second := by
  simp only [importedNames, fields_append, List.map_append, List.filter_append]

theorem fields_blanks (hblank : ∀ c ∈ front, isBlank c = true) : fields ',' front = [front] :=
  fields_of_not_mem fun hcomma => absurd (hblank ',' hcomma) (by decide)

/-- Blanks in front of a list stand before its first entry. -/
theorem importedNames_front_append (hfront : ∀ c ∈ front, isBlank c = true) :
    importedNames (front ++ list) = importedNames list := by
  obtain ⟨passed, last, first, others, hblanks, hlist, hboth⟩ := exists_fields_append ',' front list
  obtain ⟨rfl, rfl⟩ : passed = [] ∧ last = front := by
    rw [fields_blanks hfront] at hblanks
    simpa using List.append_eq_singleton_iff.mp hblanks.symm
  have hsame : importedName (last ++ first ++ []) = importedName first :=
    importedName_blanks_append hfront (by simp)
  rw [List.append_nil] at hsame
  simp only [importedNames, hboth, hlist, List.nil_append, List.map_cons, hsame]

/-- Blanks behind a list stand behind its last entry. -/
theorem importedNames_append_back (hback : ∀ c ∈ back, isBlank c = true) :
    importedNames (list ++ back) = importedNames list := by
  obtain ⟨passed, last, first, others, hlist, hblanks, hboth⟩ := exists_fields_append ',' list back
  obtain ⟨rfl, rfl⟩ : first = back ∧ others = [] := by
    rw [fields_blanks hback] at hblanks
    simpa [eq_comm] using hblanks
  have hsame : importedName ([] ++ last ++ first) = importedName last :=
    importedName_blanks_append (by simp) hback
  rw [List.nil_append] at hsame
  simp only [importedNames, hboth, hlist, List.map_append, List.map_cons, List.map_nil, hsame]

theorem importedNames_trim (list : List Char) : importedNames (trim list) = importedNames list := by
  obtain ⟨front, back, hlist, hfront, hback⟩ := exists_eq_append_trim list
  have hsame : importedNames (front ++ trim list ++ back) = importedNames (trim list) := by
    rw [importedNames_append_back hback, importedNames_front_append hfront]
  rw [← hsame, ← hlist]

end OberonImports.Source
