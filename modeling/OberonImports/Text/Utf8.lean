/-!
# UTF-8

Bytes are decoded one at a time. A byte sequence that is not UTF-8 is cut into characters and
maximal ill-formed parts: a part holds a first byte and the continuation bytes that could still
follow it, and the next byte starts afresh. The lossy reading puts one replacement character for
each such part. The strict reading takes only what is UTF-8 throughout, and then the text has just
these bytes.
-/

namespace OberonImports.Text.Utf8

/-- A character whose first bytes have been read: the code so far, how many continuation bytes are
still due, and the bounds of the next one. -/
structure Pending where
  code : Nat
  due : Nat
  low : Nat
  high : Nat

/-- A decoder after some bytes. What has been read is kept newest first, with `none` for an
ill-formed part. -/
structure Decoder where
  units : List (Option Char)
  pending : Option Pending

/-- Read a byte that begins a character. -/
def Decoder.start (units : List (Option Char)) (byte : Nat) : Decoder :=
  if byte < 0x80 then ⟨some (Char.ofNat byte) :: units, none⟩
  else if byte < 0xC2 then ⟨none :: units, none⟩
  else if byte < 0xE0 then ⟨units, some ⟨byte - 0xC0, 1, 0x80, 0xBF⟩⟩
  else if byte < 0xF0 then
    ⟨units, some ⟨byte - 0xE0, 2, if byte = 0xE0 then 0xA0 else 0x80,
      if byte = 0xED then 0x9F else 0xBF⟩⟩
  else if byte < 0xF5 then
    ⟨units, some ⟨byte - 0xF0, 3, if byte = 0xF0 then 0x90 else 0x80,
      if byte = 0xF4 then 0x8F else 0xBF⟩⟩
  else ⟨none :: units, none⟩

def Decoder.push (decoder : Decoder) (byte : UInt8) : Decoder :=
  match decoder.pending with
  | none => .start decoder.units byte.toNat
  | some pending =>
      if pending.low ≤ byte.toNat ∧ byte.toNat ≤ pending.high then
        let code := pending.code * 64 + (byte.toNat - 0x80)
        if pending.due ≤ 1 then ⟨some (Char.ofNat code) :: decoder.units, none⟩
        else ⟨decoder.units, some ⟨code, pending.due - 1, 0x80, 0xBF⟩⟩
      else .start (none :: decoder.units) byte.toNat

/-- All that has been read, oldest first. A character that the end cuts off is ill-formed. -/
def Decoder.finish (decoder : Decoder) : List (Option Char) :=
  match decoder.pending with
  | none => decoder.units.reverse
  | some _ => (none :: decoder.units).reverse

/-- The characters and the ill-formed parts of a byte sequence. -/
def units (bytes : List UInt8) : List (Option Char) :=
  (bytes.foldl Decoder.push ⟨[], none⟩).finish

/-- The character that stands for an ill-formed part. -/
def replacement : Char := '\uFFFD'

/-- The text of a byte sequence, with the replacement character for each ill-formed part. -/
def decodeLossy (bytes : List UInt8) : List Char := (units bytes).map (·.getD replacement)

def encode (text : String) : List UInt8 := text.toUTF8.data.toList

/-- The text of a byte sequence that is UTF-8 throughout. -/
def decode? (bytes : List UInt8) : Option String := String.fromUTF8? ⟨bytes.toArray⟩

theorem decode?_eq_some {bytes : List UInt8} {text : String} :
    decode? bytes = some text ↔ encode text = bytes := by
  have hbytes : text.toByteArray = ⟨bytes.toArray⟩ ↔ encode text = bytes := by
    rw [encode, String.toUTF8, ByteArray.ext_iff, ← Array.toList_inj]
  rw [← hbytes, decode?, String.fromUTF8?]
  split
  next hvalid =>
    rw [Option.some.injEq, ← String.toByteArray_inj, eq_comm]
    rfl
  next hinvalid =>
    simp only [reduceCtorEq, false_iff]
    exact fun h => hinvalid (h ▸ text.isValidUTF8)

@[simp] theorem decode?_encode (text : String) : decode? (encode text) = some text :=
  decode?_eq_some.2 rfl

theorem encode_inj {first second : String} : encode first = encode second ↔ first = second := by
  rw [← decode?_eq_some, decode?_encode, Option.some.injEq, eq_comm]

@[simp] theorem encode_eq_nil {text : String} : encode text = [] ↔ text = "" :=
  @encode_inj text ""

end OberonImports.Text.Utf8
