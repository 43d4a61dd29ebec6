import Mathlib.Data.List.Basic
import Mathlib.Tactic.SplitIfs
import OberonImports.Text.Utf8

/-!
# Lenient decoding around ASCII bytes

A byte below 128 is never part of a longer character: it cuts off a character that has begun, and
the bytes behind it are decoded afresh. The other way round, an ASCII character of the text stands
for one byte. So two ASCII characters meet in the text only where their bytes meet.
-/

namespace OberonImports.Text.Utf8

variable {begun : Option Pending} {decoder : Decoder} {byte : UInt8} {c d : Char}
  {bytes front back : List UInt8} {before after read : List (Option Char)}

/-- A begun character goes on with continuation bytes only, and when it is complete it lies beyond
ASCII. -/
structure Pending.IsLong (pending : Pending) : Prop where
  low : 0x80 ≤ pending.low
  code : 2 ≤ pending.code ∨ (2 ≤ pending.due ∧ (1 ≤ pending.code ∨ 0x82 ≤ pending.low))

/-- A character, other than NUL, that one byte stands for. -/
def IsAscii (c : Char) : Prop := 0 < c.toNat ∧ c.toNat < 0x80

instance : Decidable (IsAscii c) := inferInstanceAs (Decidable (_ ∧ _))

/-- The characters and ill-formed parts of a byte sequence behind what has begun. -/
def unitsBehind (begun : Option Pending) (bytes : List UInt8) : List (Option Char) :=
  (bytes.foldl Decoder.push ⟨[], begun⟩).finish

/-! ## One byte -/

theorem start_of_ascii {code : Nat} (hcode : code < 0x80) :
    Decoder.start read code = ⟨some (Char.ofNat code) :: read, none⟩ := by
  rw [Decoder.start, if_pos hcode]

/-- Any other byte is ill-formed by itself or begins a long character. -/
theorem start_of_not_ascii {code : Nat} (hcode : 0x80 ≤ code) :
    Decoder.start read code = ⟨none :: read, none⟩ ∨
      ∃ pending : Pending, pending.IsLong ∧ Decoder.start read code = ⟨read, some pending⟩ := by
  unfold Decoder.start
  rw [if_neg (Nat.not_lt.mpr hcode)]
  -- By the number of bytes that the first one announces.
  split
  next => exact .inl rfl
  next htwo =>
    split
    next =>
      refine .inr ⟨_, ⟨Nat.le_refl _, .inl ?_⟩, rfl⟩
      change 2 ≤ code - 0xC0
      omega
    next =>
      split
      next =>
        refine .inr ⟨_, ?_, rfl⟩
        constructor <;> simp only <;> split_ifs <;> omega
      next =>
        split
        next =>
          refine .inr ⟨_, ?_, rfl⟩
          constructor <;> simp only <;> split_ifs <;> omega
        next => exact .inl rfl

/-- What is put on a decoder depends on what has begun only. -/
theorem start_append {code : Nat} (more : List (Option Char)) :
    Decoder.start (more ++ read) code =
      ⟨(Decoder.start more code).units ++ read, (Decoder.start more code).pending⟩ := by
  unfold Decoder.start
  split_ifs <;> rfl

theorem push_eq : (⟨read, begun⟩ : Decoder).push byte =
    ⟨((⟨[], begun⟩ : Decoder).push byte).units ++ read,
      ((⟨[], begun⟩ : Decoder).push byte).pending⟩ := by
  cases begun with
  | none => exact start_append []
  | some pending =>
      simp only [Decoder.push]
      split_ifs
      · rfl
      · rfl
      · exact start_append [none]

/-- An ASCII byte ends what has begun. -/
theorem push_of_ascii (hlong : ∀ pending ∈ begun, pending.IsLong) (hbyte : byte.toNat < 0x80) :
    (⟨[], begun⟩ : Decoder).push byte =
      ⟨some (Char.ofNat byte.toNat) :: (unitsBehind begun []).reverse, none⟩ := by
  cases begun with
  | none => exact start_of_ascii hbyte
  | some pending =>
      have hlow := (hlong pending rfl).low
      simp only [Decoder.push]
      rw [if_neg (by omega), start_of_ascii hbyte]
      rfl

theorem toNat_ofNat_of_isValidChar {code : Nat} (hcode : code.isValidChar) :
    (Char.ofNat code).toNat = code := by
  rw [Char.ofNat, dif_pos hcode]
  rfl

theorem not_isAscii_ofNat {code : Nat} (hcode : 0x80 ≤ code) : ¬ IsAscii (Char.ofNat code) := by
  rintro ⟨hpos, hsmall⟩
  by_cases hvalid : code.isValidChar
  · rw [toNat_ofNat_of_isValidChar hvalid] at hsmall
    omega
  · rw [Char.ofNat, dif_neg hvalid] at hpos
    exact absurd hpos (by decide)

/-- Any other byte adds no ASCII character, and what it begins is long. -/
theorem push_of_not_ascii (hlong : ∀ pending ∈ begun, pending.IsLong)
    (hbyte : 0x80 ≤ byte.toNat) :
    (∀ pending ∈ ((⟨[], begun⟩ : Decoder).push byte).pending, pending.IsLong) ∧
      ∀ c, some c ∈ ((⟨[], begun⟩ : Decoder).push byte).units → ¬ IsAscii c := by
  have hstart : ∀ read : List (Option Char), (∀ c, some c ∈ read → ¬ IsAscii c) →
      (∀ pending ∈ (Decoder.start read byte.toNat).pending, pending.IsLong) ∧
        ∀ c, some c ∈ (Decoder.start read byte.toNat).units → ¬ IsAscii c := by
    intro read hread
    rcases @start_of_not_ascii read _ hbyte with heq | ⟨pending, hpending, heq⟩
    · simpa [heq] using hread
    · simpa [heq, hpending] using hread
  cases begun with
  | none => exact hstart [] (by simp)
  | some pending =>
      obtain ⟨hlow, hcode⟩ := hlong pending rfl
      simp only [Decoder.push]
      split_ifs with hbounds hlast
      · have hnot : ¬ IsAscii (Char.ofNat (pending.code * 64 + (byte.toNat - 0x80))) :=
          not_isAscii_ofNat (by omega)
        simpa using hnot
      · have hnext : Pending.IsLong
            ⟨pending.code * 64 + (byte.toNat - 0x80), pending.due - 1, 0x80, 0xBF⟩ :=
          ⟨Nat.le_refl _, .inl (by simp only; omega)⟩
        simpa using hnext
      · exact hstart [none] (by simp)

theorem push_isLong (hlong : ∀ pending ∈ begun, pending.IsLong) (byte : UInt8) :
    ∀ pending ∈ ((⟨[], begun⟩ : Decoder).push byte).pending, pending.IsLong := by
  by_cases hbyte : byte.toNat < 0x80
  · simp [push_of_ascii hlong hbyte]
  · exact (push_of_not_ascii hlong (Nat.not_lt.mp hbyte)).1

/-! ## Byte sequences -/

/-- What has been read comes first. -/
theorem finish_foldl (bytes : List UInt8) (read : List (Option Char)) (begun : Option Pending) :
    (bytes.foldl Decoder.push ⟨read, begun⟩).finish = read.reverse ++ unitsBehind begun bytes := by
  induction bytes generalizing read begun with
  | nil => cases begun <;> simp [unitsBehind, Decoder.finish]
  | cons byte bytes ih =>
      unfold unitsBehind
      rw [List.foldl_cons, List.foldl_cons, push_eq, ih, push_eq, ih]
      simp

theorem unitsBehind_cons : unitsBehind begun (byte :: bytes) =
    ((⟨[], begun⟩ : Decoder).push byte).units.reverse ++
      unitsBehind ((⟨[], begun⟩ : Decoder).push byte).pending bytes := by
  rw [← finish_foldl]
  rfl

theorem unitsBehind_cons_of_ascii (hlong : ∀ pending ∈ begun, pending.IsLong)
    (hbyte : byte.toNat < 0x80) : unitsBehind begun (byte :: bytes) =
      unitsBehind begun [] ++ some (Char.ofNat byte.toNat) :: unitsBehind none bytes := by
  rw [unitsBehind_cons, push_of_ascii hlong hbyte]
  simp

/-- An ASCII byte stands for its character, and the bytes on its two sides are decoded apart. -/
theorem unitsBehind_append_of_ascii (hlong : ∀ pending ∈ begun, pending.IsLong)
    (hbyte : byte.toNat < 0x80) : unitsBehind begun (front ++ byte :: back) =
      unitsBehind begun front ++ some (Char.ofNat byte.toNat) :: unitsBehind none back := by
  induction front generalizing begun with
  | nil => exact unitsBehind_cons_of_ascii hlong hbyte
  | cons first front ih =>
      rw [List.cons_append, unitsBehind_cons, ih (push_isLong hlong first), unitsBehind_cons,
        List.append_assoc]

theorem not_mem_unitsBehind_nil : some c ∉ unitsBehind begun [] := by
  cases begun <;> simp [unitsBehind, Decoder.finish]

/-- What does not stand in the first of two texts stands in the second. -/
theorem exists_before_of_not_mem {α : Type} {a : α} {first rest before after : List α}
    (hsplit : first ++ rest = before ++ a :: after) (hnot : a ∉ first) :
    ∃ between, before = first ++ between ∧ rest = between ++ a :: after := by
  rcases List.append_eq_append_iff.mp hsplit with ⟨between, rfl, hrest⟩ | ⟨more, rfl, hmore⟩
  · exact ⟨between, rfl, hrest⟩
  · cases more with
    | nil => exact ⟨[], by simp, hmore.symm⟩
    | cons head more =>
        obtain ⟨rfl, -⟩ := List.cons.inj hmore
        simp at hnot

/-- An ASCII character stands for a byte, and what is on its two sides for the bytes on the two
sides of this byte. -/
theorem exists_bytes_of_ascii (hlong : ∀ pending ∈ begun, pending.IsLong) (hascii : IsAscii c)
    (hunits : unitsBehind begun bytes = before ++ some c :: after) :
    ∃ front back, bytes = front ++ UInt8.ofNat c.toNat :: back ∧
      unitsBehind begun front = before ∧ unitsBehind none back = after := by
  induction bytes generalizing begun before with
  | nil =>
      have hmem : some c ∈ unitsBehind begun [] := by simp [hunits]
      exact absurd hmem not_mem_unitsBehind_nil
  | cons byte bytes ih =>
      by_cases hbyte : byte.toNat < 0x80
      · rw [unitsBehind_cons_of_ascii hlong hbyte] at hunits
        obtain ⟨between, rfl, hrest⟩ := exists_before_of_not_mem hunits not_mem_unitsBehind_nil
        cases between with
        | nil =>
            -- The first byte is the one of the character.
            obtain ⟨hhead, rfl⟩ := List.cons.inj hrest
            obtain rfl := Option.some.inj hhead
            refine ⟨[], bytes, ?_, by simp, rfl⟩
            rw [toNat_ofNat_of_isValidChar (.inl (by omega)), UInt8.ofNat_toNat, List.nil_append]
        | cons head between =>
            obtain ⟨rfl, hbehind⟩ := List.cons.inj hrest
            obtain ⟨front, back, rfl, hfront, hback⟩ := ih (by simp) hbehind
            refine ⟨byte :: front, back, rfl, ?_, hback⟩
            rw [unitsBehind_cons_of_ascii hlong hbyte, hfront]
      · obtain ⟨hnext, hnone⟩ := push_of_not_ascii hlong (Nat.not_lt.mp hbyte)
        rw [unitsBehind_cons] at hunits
        obtain ⟨between, rfl, hrest⟩ := exists_before_of_not_mem hunits fun hmem =>
          hnone c (List.mem_reverse.mp hmem) hascii
        obtain ⟨front, back, rfl, hfront, hback⟩ := ih hnext hrest
        exact ⟨byte :: front, back, rfl, by rw [unitsBehind_cons, hfront], hback⟩

/-- Every byte is read or begins a character. -/
theorem units_ne_nil_or_begun : ((⟨[], begun⟩ : Decoder).push byte).units ≠ [] ∨
    ((⟨[], begun⟩ : Decoder).push byte).pending ≠ none := by
  have hstart : ∀ read : List (Option Char), (Decoder.start read byte.toNat).units ≠ [] ∨
      (Decoder.start read byte.toNat).pending ≠ none := by
    intro read
    unfold Decoder.start
    split_ifs <;> simp
  cases begun with
  | none => exact hstart []
  | some pending =>
      simp only [Decoder.push]
      split_ifs
      · simp
      · simp
      · exact hstart [none]

theorem eq_nil_of_unitsBehind (hunits : unitsBehind begun bytes = []) :
    begun = none ∧ bytes = [] := by
  induction bytes generalizing begun with
  | nil => cases begun <;> simp [unitsBehind, Decoder.finish] at hunits ⊢
  | cons byte bytes ih =>
      rw [unitsBehind_cons, List.append_eq_nil_iff, List.reverse_eq_nil_iff] at hunits
      obtain ⟨hread, hbehind⟩ := hunits
      rcases units_ne_nil_or_begun with hne | hbegun
      · exact absurd hread hne
      · exact absurd (ih hbehind).1 hbegun

/-! ## Texts -/

theorem decodeLossy_append_of_ascii (hbyte : byte.toNat < 0x80) :
    decodeLossy (front ++ byte :: back) =
      decodeLossy front ++ Char.ofNat byte.toNat :: decodeLossy back := by
  have hunits : units (front ++ byte :: back) =
      units front ++ some (Char.ofNat byte.toNat) :: units back :=
    unitsBehind_append_of_ascii (by simp) hbyte
  simp [decodeLossy, hunits]

theorem getD_replacement_eq (hascii : IsAscii c) {unit : Option Char} :
    unit.getD replacement = c ↔ unit = some c := by
  cases unit with
  | some d => simp
  | none =>
      have hne : replacement ≠ c := by
        rintro rfl
        exact absurd hascii (by decide)
      simp [hne]

/-- Two ASCII characters that meet in the text stand for two bytes that meet. -/
theorem pair_infix_of_decodeLossy (hc : IsAscii c) (hd : IsAscii d)
    (hpair : [c, d] <:+: decodeLossy bytes) :
    [UInt8.ofNat c.toNat, UInt8.ofNat d.toNat] <:+: bytes := by
  obtain ⟨front, back, htext⟩ := hpair
  obtain ⟨before, rest, hunits, -, hrest⟩ := List.map_eq_append_iff.mp
    (htext.symm.trans (List.append_assoc front [c, d] back))
  obtain ⟨first, rest, rfl, hfirst, hrest⟩ := List.map_eq_cons_iff.mp hrest
  obtain ⟨second, after, rfl, hsecond, -⟩ := List.map_eq_cons_iff.mp hrest
  obtain rfl := (getD_replacement_eq hc).mp hfirst
  obtain rfl := (getD_replacement_eq hd).mp hsecond
  obtain ⟨start, behind, rfl, -, hbehind⟩ := exists_bytes_of_ascii (by simp) hc hunits
  rw [← List.nil_append (some d :: after)] at hbehind
  obtain ⟨between, last, rfl, hnone, -⟩ := exists_bytes_of_ascii (by simp) hd hbehind
  obtain ⟨-, rfl⟩ := eq_nil_of_unitsBehind hnone
  exact ⟨start, last, by simp⟩

end OberonImports.Text.Utf8
