import Mathlib.Data.List.Infix
import Mathlib.Data.List.Induction
import Mathlib.Tactic.SplitIfs
import OberonImports.Text.Utf8

/-!
# Ends of encoded texts

A character beyond ASCII is encoded by bytes beyond ASCII only. So ASCII characters end a text just if
their bytes end its bytes.
-/

namespace OberonImports.Text.Utf8

variable {c d : Char} {byte : UInt8} {bytes : List UInt8} {mark chars : List Char} {text : String}

theorem encode_eq (text : String) : encode text = text.toList.flatMap String.utf8EncodeChar := by
  have htext : text.toUTF8 = (text.toList.flatMap String.utf8EncodeChar).toByteArray :=
    String.utf8Encode_toList.symm
  rw [encode, htext, List.data_toByteArray]

theorem utf8EncodeChar_of_ascii (hc : c.toNat < 0x80) :
    String.utf8EncodeChar c = [UInt8.ofNat c.toNat] := by
  unfold String.utf8EncodeChar
  exact if_pos (Nat.le_of_lt_succ hc)

/-- If a character ends in an ASCII byte, it is the character of this byte. -/
theorem toNat_eq_of_utf8EncodeChar_concat (hbytes : String.utf8EncodeChar d = bytes ++ [byte])
    (hbyte : byte.toNat < 0x80) : d.toNat = byte.toNat := by
  have hcontinuation : ∀ code : Nat, (UInt8.ofNat (code % 64 + 128)).toNat = code % 64 + 128 :=
    fun code => by rw [UInt8.toNat_ofNat', Nat.mod_eq_of_lt (by omega)]
  have hlast := congrArg List.getLast? hbytes
  simp only [String.utf8EncodeChar, List.getLast?_concat] at hlast
  split_ifs at hlast with hascii <;>
    simp only [List.getLast?_cons_cons, List.getLast?_singleton, Option.some.injEq] at hlast <;>
    subst hlast
  · rw [UInt8.toNat_ofNat', Nat.mod_eq_of_lt (by omega)]
    rfl
  all_goals
    rw [hcontinuation] at hbyte
    omega

/-- By induction on the ASCII characters from their end. -/
theorem flatMap_suffix_iff (hascii : ∀ c ∈ mark, c.toNat < 0x80) :
    mark.flatMap String.utf8EncodeChar <:+ chars.flatMap String.utf8EncodeChar ↔
      mark <:+ chars := by
  constructor
  · intro hsuffix
    induction mark using List.reverseRecOn generalizing chars with
    | nil => exact List.nil_suffix
    | append_singleton mark c ih =>
        obtain ⟨hmark, hc⟩ := List.forall_mem_append.mp hascii
        have hc : c.toNat < 0x80 := hc c List.mem_cons_self
        have hbyte : (UInt8.ofNat c.toNat).toNat = c.toNat := by
          rw [UInt8.toNat_ofNat', Nat.mod_eq_of_lt (by omega)]
        rw [List.flatMap_append, List.flatMap_singleton, utf8EncodeChar_of_ascii hc] at hsuffix
        rcases List.eq_nil_or_concat' chars with rfl | ⟨init, d, rfl⟩
        · simp at hsuffix
        · obtain ⟨front, byte, hd⟩ : ∃ front byte, String.utf8EncodeChar d = front ++ [byte] :=
            (List.eq_nil_or_concat' _).resolve_left String.utf8EncodeChar_ne_nil
          rw [List.flatMap_append, List.flatMap_singleton, hd, ← List.append_assoc,
            List.suffix_concat_iff] at hsuffix
          obtain ⟨rest, heq, hrest⟩ := hsuffix.resolve_left (by simp)
          obtain ⟨rfl, hlast⟩ := List.append_inj' heq rfl
          obtain rfl := List.singleton_inj.mp hlast
          -- The last characters end in the same byte, and are the same.
          have hcode := toNat_eq_of_utf8EncodeChar_concat hd (hbyte.trans_lt hc)
          obtain rfl : d = c := Char.toNat_inj.mp (hcode.trans hbyte)
          rw [utf8EncodeChar_of_ascii hc] at hd
          obtain rfl : front = [] := by simpa using hd
          rw [List.append_nil] at hrest
          exact List.suffix_append_self_iff.mpr (ih hmark hrest)
  · rintro ⟨front, rfl⟩
    exact ⟨front.flatMap String.utf8EncodeChar, (List.flatMap_append ..).symm⟩

/-- ASCII characters end a text just if their bytes end its bytes. -/
theorem encode_suffix_iff {mark : String} (hascii : mark.toList.all (·.toNat < 0x80) = true) :
    encode mark <:+ encode text ↔ mark.toList <:+ text.toList := by
  rw [encode_eq, encode_eq, flatMap_suffix_iff fun c hc =>
    of_decide_eq_true (List.all_eq_true.mp hascii c hc)]

end OberonImports.Text.Utf8
