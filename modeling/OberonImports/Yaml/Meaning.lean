import OberonImports.Number.Binary64
import OberonImports.Text.Literal
import OberonImports.Text.Utf8
import OberonImports.Yaml.Scalar.Quoted
import OberonImports.Yaml.Event.Basic

/-!
# What scalars mean

A plain scalar without a tag means a null, a truth value, an integer or a floating-point number if
it has the form of one, and else a text. A quoted scalar means a text. The tags of the core schema
ask for a kind, and the form must be of that kind.
-/

namespace OberonImports.Yaml

/-- How large an integer is: the bits that it takes with or without a sign. -/
inductive IntegerSize where
  | word
  | doubleUnsigned
  | doubleSigned
  deriving Repr, DecidableEq

/-- What a node was found to be. -/
inductive Found where
  | null
  | bool (value : Bool)
  | int (value : Int) (size : IntegerSize)
  | float (value : String)
  | text (value : String)
  | sequence
  | mapping
  deriving Repr, DecidableEq

def Found.description : Found → String
  | null => "unit value"
  | bool value => "boolean `" ++ (if value then "true" else "false") ++ "`"
  | int value .word => "integer `" ++ toString value ++ "`"
  | int value .doubleUnsigned => "integer `" ++ toString value ++ "` as u128"
  | int value .doubleSigned => "integer `" ++ toString value ++ "` as i128"
  | float value => "floating point `" ++ value ++ "`"
  | .text value => "string " ++ Text.literal value
  | sequence => "sequence"
  | mapping => "map"

def isNull (text : String) : Bool := ["null", "Null", "NULL", "~"].contains text

/-- The truth value that a text is. -/
def bool? (text : String) : Option Bool :=
  if ["true", "True", "TRUE"].contains text then some true
  else if ["false", "False", "FALSE"].contains text then some false
  else none

/-- The value of digits in a base up to 16. There has to be a digit. -/
def digits? (base : Nat) : List Char → Option Nat
  | [] => none
  | digits =>
      digits.foldlM
        (fun n c => (hexValue? c).bind fun d => if d < base then some (n * base + d) else none) 0

/-- Whether a text is a zero with more digits behind it, which makes it no number. -/
def isPadded (text : List Char) : Bool :=
  match (Number.signAndRest text).2 with
  | '0' :: c :: digits => (c :: digits).all Char.isDigit
  | _ => false

/-- The magnitude of an integer without a sign. A letter behind a zero gives the base. -/
def magnitude? (text : List Char) : Option Nat :=
  match text with
  | '0' :: 'x' :: digits => digits? 16 digits
  | '0' :: 'o' :: digits => digits? 8 digits
  | '0' :: 'b' :: digits => digits? 2 digits
  | _ => if isPadded text then none else digits? 10 text

/-- The integer that a text is. Integers that need more than 128 bits are none. -/
def integer? (text : List Char) : Option Found :=
  match text with
  | '-' :: text =>
      match magnitude? text with
      | none => none
      | some n =>
          if n ≤ Number.twoTo 63 then some (.int (-n) .word)
          else if n ≤ Number.twoTo 127 then some (.int (-n) .doubleSigned)
          else none
  | _ =>
      let text := match text with
        | '+' :: text => text
        | _ => text
      match magnitude? text with
      | none => none
      | some n =>
          if n < Number.twoTo 64 then some (.int n .word)
          else if n < Number.twoTo 128 then some (.int n .doubleUnsigned)
          else none

/-- The text of the floating-point number that a text is. -/
def float? (text : List Char) : Option Found :=
  let unsigned := match text with
    | '+' :: text => text
    | _ => text
  if [".inf", ".Inf", ".INF"].contains (String.ofList unsigned) then some (.float "inf")
  else if ["-.inf", "-.Inf", "-.INF"].contains (String.ofList text) then some (.float "-inf")
  else if [".nan", ".NaN", ".NAN"].contains (String.ofList text) then some (.float "NaN")
  else if unsigned ≠ text ∧ (unsigned.head?.any fun c => c = '+' || c = '-') then none
  else do
    let decimal ← Number.Decimal.ofText? unsigned
    let number ← Number.Binary64.ofDecimal? decimal.digits decimal.exponent
    some (.float (String.ofList (if decimal.negative then '-' :: number.text else number.text)))

/-- What a plain scalar without a tag means. -/
def meaningOfPlain (text : String) : Found :=
  if text.isEmpty || isNull text then .null
  else
    match bool? text with
    | some value => .bool value
    | none =>
        match integer? text.toList with
        | some integer => integer
        | none =>
            if isPadded text.toList then .text text
            else (float? text.toList).getD (.text text)

/-- A kind that a tag asks for but a scalar does not have. -/
structure TagMismatch where
  text : String
  expected : String
  deriving Repr, DecidableEq

/-- The tag of the core schema for a kind. -/
def coreTag (kind : String) : TagOctets := Text.Utf8.encode ("tag:yaml.org,2002:" ++ kind)

/-- What stands behind the exclamation mark of a local tag, unless the tag is another. -/
def localPart? : TagOctets → Option TagOctets
  | [] => none
  | octet :: octets => if Text.Utf8.encode "!" = [octet] then some octets else none

def Scalar.meaning (scalar : Scalar) : Except TagMismatch Found :=
  let text := scalar.text
  let asked (expected : String) (found : Option Found) : Except TagMismatch Found :=
    match found with
    | some found => .ok found
    | none => .error ⟨text, expected⟩
  match scalar.tag with
  | none => .ok (if scalar.style = .plain then meaningOfPlain text else .text text)
  | some tag =>
      if tag = coreTag "bool" then asked "a boolean" ((bool? text).map .bool)
      else if tag = coreTag "int" then asked "an integer" (integer? text.toList)
      else if tag = coreTag "float" then asked "a float" (float? text.toList)
      else if tag = coreTag "null" then asked "null" (if isNull text then some .null else none)
      else if scalar.style = .plain ∧ (localPart? tag).isSome then .ok (meaningOfPlain text)
      else .ok (.text text)

end OberonImports.Yaml
