/-!
# JSON texts

The values that the ranks of a graph are written with, and their text with two blanks of
indentation for each level. The fields of an object keep their order.
-/

namespace OberonImports

/-- A JSON value without fractions, truth values and nulls. -/
inductive Json where
  | num (n : Nat)
  | str (s : String)
  | arr (items : List Json)
  | obj (fields : List (String × Json))
  deriving Inhabited

namespace Json

def hexDigit (n : Nat) : Char :=
  if n < 10 then Char.ofNat (48 + n) else Char.ofNat (87 + n)

/-- One character of a string. Quotes, backslashes and control characters are escaped. -/
def escapeChar (c : Char) : List Char :=
  match c with
  | '"' => ['\\', '"']
  | '\\' => ['\\', '\\']
  | '\x08' => ['\\', 'b']
  | '\t' => ['\\', 't']
  | '\n' => ['\\', 'n']
  | '\x0c' => ['\\', 'f']
  | '\r' => ['\\', 'r']
  | _ =>
      if c.toNat < 0x20 then
        ['\\', 'u', '0', '0', hexDigit (c.toNat / 16), hexDigit (c.toNat % 16)]
      else [c]

def quote (s : String) : String :=
  String.ofList ('"' :: (s.toList.flatMap escapeChar ++ ['"']))

def indent (depth : Nat) : String := String.ofList (List.replicate (2 * depth) ' ')

mutual

/-- The text of a value whose last line is indented by `depth` levels. -/
def render (depth : Nat) : Json → String
  | num n => toString n
  | str s => quote s
  | arr [] => "[]"
  | arr (item :: items) =>
      "[\n" ++ renderItems (depth + 1) (item :: items) ++ "\n" ++ indent depth ++ "]"
  | obj [] => "\x7b\x7d"
  | obj (field :: fields) =>
      "\x7b\n" ++ renderFields (depth + 1) (field :: fields) ++ "\n" ++ indent depth ++ "\x7d"

/-- The items of an array, one a line. -/
def renderItems (depth : Nat) : List Json → String
  | [] => ""
  | [item] => indent depth ++ render depth item
  | item :: items => indent depth ++ render depth item ++ ",\n" ++ renderItems depth items

/-- The fields of an object, one a line. -/
def renderFields (depth : Nat) : List (String × Json) → String
  | [] => ""
  | [(key, value)] => indent depth ++ quote key ++ ": " ++ render depth value
  | (key, value) :: fields =>
      indent depth ++ quote key ++ ": " ++ render depth value ++ ",\n" ++ renderFields depth fields

end

def pretty (value : Json) : String := render 0 value

end Json

end OberonImports
