import OberonImports.Proofs.Source.Header
import OberonImports.Proofs.Source.LeftmostClause
import OberonImports.Scan.Extract

/-!
# The declared name

A source text declares a module if, without its comments, it has a module clause and the body of
the leftmost one is not all blanks. The name is then that body without the blanks around it. A later
clause does not make up for a leftmost one that names nothing.
-/

namespace OberonImports

open Source Text

namespace Source

/-- The expression `(?is)\bMODULE\s+([/.\w\s()*]+?)\s*;`. -/
def modulePattern : Pattern := clausePattern moduleWord isNameChar (.greedy isBlank)

theorem fits_modulePattern :
    Fits isNameChar isNameChar (.greedy isBlank) (fun run => ∀ c ∈ run, isBlank c = true) where
  captures_iff := by
    intro c
    have hsemicolon : isNameChar ';' = false := by decide
    refine ⟨fun hc => ⟨hc, ?_⟩, And.left⟩
    rintro rfl
    rw [hsemicolon] at hc
    cases hc
  admits_blank := by
    intro c hc
    simp [isNameChar, hc]
  accepts := Pattern.accepts_greedy
  gap_nil := by simp
  gap_blank := fun _ hrun => hrun

/-- The leftmost module clause of a text, without its comments, has this body. -/
def Declares (text : String) (body : List Char) : Prop :=
  ∃ position, IsLeftmostClause moduleWord isNameChar (stripComments text.toList) position body

end Source

/-- A file that can be read fails for want of a name exactly if its text declares no module. -/
theorem FileSystem.extract_eq_nameNotFound_iff {fs : FileSystem} {path : Path} {bytes : List UInt8}
    (hread : fs.read path = .ok bytes) :
    fs.extract path = .error .nameNotFound ↔ Module.ofBytes? bytes = none := by
  unfold extract
  rw [hread]
  cases hmodule : Module.ofBytes? bytes <;> simp [hmodule]

namespace Module

variable {text name : String} {body : List Char}

/-- The name is the trimmed body that the search finds, unless this is empty. -/
theorem map_name_ofText? (text : String) : (ofText? text).map Module.name =
    (((declaration? (stripComments text.toList)).map trim).filter (· ≠ [])).map String.ofList := by
  cases hfound : (declaration? (stripComments text.toList)).map trim with
  | none => simp [ofText?, hfound]
  | some found => cases found <;> simp [ofText?, hfound, Option.filter]

theorem declaration?_eq_some_iff :
    declaration? (stripComments text.toList) = some body ↔ Declares text body :=
  findClause?_eq_some_iff

theorem map_name_ofText?_eq_some_iff : (ofText? text).map Module.name = some name ↔
    ∃ body, Declares text body ∧ HasCore body name.toList := by
  simp only [map_name_ofText?, Option.map_eq_some_iff, Option.filter_eq_some_iff, hasCore_iff,
    ← declaration?_eq_some_iff, decide_eq_true_eq]
  constructor
  · rintro ⟨_, ⟨⟨body, hbody, rfl⟩, hne⟩, rfl⟩
    exact ⟨body, hbody, by simp [hne]⟩
  · rintro ⟨body, hbody, htrim, hne⟩
    exact ⟨name.toList, ⟨⟨body, hbody, htrim⟩, hne⟩, String.ofList_toList⟩

theorem ofText?_eq_none_iff : ofText? text = none ↔
    ∀ body, Declares text body → ∀ c ∈ body, isBlank c = true := by
  rw [← Option.map_eq_none_iff, map_name_ofText?]
  simp only [← trim_eq_nil_iff, ← declaration?_eq_some_iff]
  cases declaration? (stripComments text.toList) <;> simp

/-- A text yields a module exactly if the body of its leftmost declaration is not all blanks. Its
name is then that body without the blanks around it, and otherwise a file with this text fails for
want of a name. The name is also what the expression captures, trimmed, unless nothing is left. -/
theorem ofText?_declares (text : String) :
    ((ofText? text).isSome = true ↔ ∃ body, Declares text body ∧ ∃ c ∈ body, isBlank c = false) ∧
    (∀ name, (ofText? text).map Module.name = some name ↔
      ∃ body, Declares text body ∧ HasCore body name.toList) ∧
    (∀ (fs : FileSystem) path bytes,
      fs.read path = .ok bytes → String.ofList (Utf8.decodeLossy bytes) = text →
        (fs.extract path = .error .nameNotFound ↔
          ∀ body, Declares text body → ∀ c ∈ body, isBlank c = true)) ∧
    (ofText? text).map Module.name =
      (((modulePattern.capture? (stripComments text.toList)).map trim).filter (· ≠ [])).map
        String.ofList := by
  have hnone := @ofText?_eq_none_iff text
  refine ⟨?_, fun name => map_name_ofText?_eq_some_iff, ?_, ?_⟩
  · rw [Option.isSome_iff_ne_none, ne_eq, hnone]
    simp
  · rintro fs path bytes hread rfl
    rw [FileSystem.extract_eq_nameNotFound_iff hread, ← hnone, ofBytes?]
  · have hcapture : (modulePattern.capture? (stripComments text.toList)).map trim =
        (declaration? (stripComments text.toList)).map trim :=
      map_trim_capture?_clausePattern isKeyword_moduleWord fits_modulePattern
    rw [hcapture, map_name_ofText?]

-- One blank is too short for a body, so the search goes on, while two make a body without a name.
example : (ofText? "MODULE ; MODULE A;").map Module.name = some "A" ∧
    ofText? "MODULE  ; MODULE A;" = none := by decide +kernel

-- The repetition in front takes the blanks before the name, and the one behind those after it.
example : modulePattern.capture? "XMODULE Y; module \t A (B) \n;".toList = some "A (B)".toList := by
  decide +kernel

end Module

end OberonImports
