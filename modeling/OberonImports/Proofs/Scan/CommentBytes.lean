import OberonImports.Proofs.FileSystem.Leads
import OberonImports.Proofs.Scan.ErrorPolicy
import OberonImports.Proofs.Source.Comment
import OberonImports.Proofs.Text.LossyUtf8

/-!
# Bytes inside comments

A comment in a file is told by the bytes of its marks, whatever bytes stand around it: none of them
joins with a byte of a mark. So a comment of bytes is decoded to a comment, and what it holds has no
influence on what is extracted from the file, be it UTF-8 or not.
-/

namespace OberonImports.FileSystem

open Text.Utf8 (decodeLossy decodeLossy_append_of_ascii pair_infix_of_decodeLossy)

variable {fs other : FileSystem} {path otherPath : Path}
  {bytes left body otherBody right : List UInt8}

/-- The bytes of the mark that opens a comment. -/
def openBytes : List UInt8 := [0x28, 0x2A]

/-- The bytes of the mark that closes a comment. -/
def closeBytes : List UInt8 := [0x2A, 0x29]

/-- The comment with the given bytes inside. -/
def commentBytes (body : List UInt8) : List UInt8 := openBytes ++ body ++ closeBytes

/-- A comment is decoded apart from what stands around it, and its marks apart from what it
holds. -/
theorem decodeLossy_comment : decodeLossy (left ++ commentBytes body ++ right) =
    decodeLossy left ++ Source.comment (decodeLossy body) ++ decodeLossy right := by
  have hsplit : left ++ commentBytes body ++ right =
      left ++ 0x28 :: ([] ++ 0x2A :: (body ++ 0x2A :: ([] ++ 0x29 :: right))) := by
    simp [commentBytes, openBytes, closeBytes]
  rw [hsplit, decodeLossy_append_of_ascii (by decide), decodeLossy_append_of_ascii (by decide),
    decodeLossy_append_of_ascii (by decide), decodeLossy_append_of_ascii (by decide)]
  have hnil : decodeLossy [] = [] := rfl
  simp only [hnil, List.nil_append, Source.comment, List.append_assoc]
  rfl

theorem not_closeMark_isInfix (hbody : ¬ closeBytes <:+: body) :
    ¬ Source.closeMark <:+: decodeLossy body :=
  fun hclose => hbody (pair_infix_of_decodeLossy (by decide) (by decide) hclose)

/-- What the bytes of a file declare does not depend on the bytes inside a comment. -/
theorem ofBytes?_comment (hclosed : Source.Closed (decodeLossy left))
    (hbody : ¬ closeBytes <:+: body) (hother : ¬ closeBytes <:+: otherBody) :
    Module.ofBytes? (left ++ commentBytes body ++ right) =
      Module.ofBytes? (left ++ commentBytes otherBody ++ right) := by
  unfold Module.ofBytes?
  rw [decodeLossy_comment, decodeLossy_comment]
  apply Source.ofText?_congr
  rw [hclosed.stripComments_comment_append (not_closeMark_isInfix hbody),
    hclosed.stripComments_comment_append (not_closeMark_isInfix hother)]

/-- Bytes inside a comment never influence what is extracted from a file, be they UTF-8 or not. Two
files that differ in such bytes only yield the same module, each with its own path as the source, or
both name no module. Nothing else can go wrong with a file that can be read. -/
theorem extract_comment_bytes (hclosed : Source.Closed (decodeLossy left))
    (hbody : ¬ closeBytes <:+: body) (hother : ¬ closeBytes <:+: otherBody)
    (hread : fs.read path = .ok (left ++ commentBytes body ++ right))
    (hreadOther : other.read otherPath = .ok (left ++ commentBytes otherBody ++ right)) :
    other.extract otherPath =
      (fs.extract path).map (fun module => { module with source := some otherPath }) ∧
    (otherPath = path → other.extract otherPath = fs.extract path) ∧
    ((∃ module, fs.extract path = .ok module) ∨ fs.extract path = .error .nameNotFound) := by
  rw [extract_of_read hread, extract_of_read hreadOther, ofBytes?_comment hclosed hbody hother]
  cases Module.ofBytes? (left ++ commentBytes otherBody ++ right) with
  | none => exact ⟨rfl, fun _ => rfl, .inr rfl⟩
  | some module =>
      refine ⟨rfl, ?_, .inl ⟨_, rfl⟩⟩
      rintro rfl
      rfl

/-- A file system with a module file and nothing else. -/
def oneFile (bytes : List UInt8) : FileSystem where
  entries := [(["A.Mod"], .file bytes)]
  distinct := by simp
  cwd := []

theorem resolve_oneFile (bytes : List UInt8) :
    (oneFile bytes).resolve "/A.Mod" = .ok ["A.Mod"] ∧
    (oneFile bytes).resolve "A.Mod" = .ok ["A.Mod"] := by
  have hfollow : (oneFile bytes).followNames .find maxLinks [] ["A.Mod"] = .ok ["A.Mod"] := by
    have hstep : IsStep (Path.ofText "A.Mod") := by decide
    rw [followNames_down rfl hstep (by decide) rfl (by simp), followNames_nil]
    rfl
  constructor
  · rw [resolve_eq_followNames (by decide) (by decide) (by decide)]
    have hnames : pathNames "/A.Mod" = (["", "A.Mod"] : Location) := rfl
    rw [hnames]
    exact (followNames_stay rfl (.inl rfl)).trans hfollow
  · rw [resolve_eq_followNames (by decide) (by decide) (by decide)]
    exact hfollow

theorem read_oneFile (bytes : List UInt8) :
    (oneFile bytes).read "/A.Mod" = .ok bytes ∧ (oneFile bytes).read "A.Mod" = .ok bytes := by
  obtain ⟨habsolute, hrelative⟩ := resolve_oneFile bytes
  constructor
  · rw [read, habsolute]
    rfl
  · rw [read, hrelative]
    rfl

/-- The bytes of a module clause, and then the first byte of a character that is not complete. -/
def cutOffClause : List UInt8 := Text.Utf8.encode "MODULE A;" ++ [0xC3]

def importClause : List UInt8 := Text.Utf8.encode "IMPORT B;"

theorem extract_cutOffComments :
    Source.Closed (decodeLossy cutOffClause) ∧ ¬ closeBytes <:+: [0xE2, 0x82] ∧
    ¬ closeBytes <:+: [0x29, 0x2A, 0xFF, 0x28, 0x2A] ∧
    (oneFile (cutOffClause ++ commentBytes [0xE2, 0x82] ++ importClause)).extract "/A.Mod" =
      .ok ⟨"A", ["B"], some "/A.Mod"⟩ ∧
    (oneFile (cutOffClause ++ commentBytes [0x29, 0x2A, 0xFF, 0x28, 0x2A] ++
      importClause)).extract "A.Mod" = .ok ⟨"A", ["B"], some "A.Mod"⟩ := by
  have hclosed : Source.Closed (decodeLossy cutOffClause) := .segment (by decide +kernel)
  have hbody : ¬ closeBytes <:+: [0xE2, 0x82] := by decide
  have hother : ¬ closeBytes <:+: [0x29, 0x2A, 0xFF, 0x28, 0x2A] := by decide
  have hmodule : Module.ofBytes? (cutOffClause ++ commentBytes [0xE2, 0x82] ++ importClause) =
      some ⟨"A", ["B"], none⟩ := by decide +kernel
  have hread := (read_oneFile (cutOffClause ++ commentBytes [0xE2, 0x82] ++ importClause)).1
  have hreadOther := (read_oneFile (cutOffClause ++
    commentBytes [0x29, 0x2A, 0xFF, 0x28, 0x2A] ++ importClause)).2
  have hextract := extract_of_read hread
  rw [hmodule] at hextract
  refine ⟨hclosed, hbody, hother, hextract, ?_⟩
  rw [(extract_comment_bytes hclosed hbody hother hread hreadOther).1, hextract]
  rfl

end OberonImports.FileSystem
