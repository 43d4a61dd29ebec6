import OberonImports.Proofs.Json.Leaf
import OberonImports.Proofs.Text.Cut

/-!
# Reading JSON texts

A value is told by its first character that is not blank. Blanks may stand around every sign, and
items and fields have commas between them. What is written is read back, whatever follows, if a
number is not followed by a digit. So different values have different texts.
-/

namespace OberonImports.Json

open Text (joinFields)

variable {α : Type} {rest blanks : List Char}

/-! ### The reader -/

def isBlank (c : Char) : Bool := c = ' ' || c = '\t' || c = '\n' || c = '\r'

/-- A text without the blanks at its front. -/
def skipBlanks (text : List Char) : List Char := text.dropWhile isBlank

/-- Items with commas between them, at most so many, up to the sign that closes the list. -/
def readList? (readOne? : List Char → Option (α × List Char)) (close : Char) :
    Nat → List Char → Option (List α × List Char)
  | 0, _ => none
  | fuel + 1, text => do
      let (item, rest) ← readOne? text
      match skipBlanks rest with
      | [] => none
      | c :: rest =>
          if c = close then some ([item], rest)
          else if c = ',' then
            (readList? readOne? close fuel rest).map fun (items, rest) => (item :: items, rest)
          else none

/-- A key, a colon and a value. -/
def readField? (readValue? : List Char → Option (Json × List Char)) (text : List Char) :
    Option ((String × Json) × List Char) :=
  match skipBlanks text with
  | '"' :: text => do
      let (key, rest) ← readString? text
      match skipBlanks rest with
      | ':' :: rest => (readValue? rest).map fun (value, rest) => ((key, value), rest)
      | _ => none
  | _ => none

/-- The value at the front of a text, and the text behind it. Values are nested at most so deep. -/
def read? : Nat → List Char → Option (Json × List Char)
  | 0, _ => none
  | fuel + 1, text =>
      match skipBlanks text with
      | '"' :: text => (readString? text).map fun (s, rest) => (.str s, rest)
      | '[' :: text =>
          match skipBlanks text with
          | ']' :: rest => some (.arr [], rest)
          | _ =>
              (readList? (read? fuel) ']' fuel text).map fun (items, rest) => (.arr items, rest)
      | '\x7b' :: text =>
          match skipBlanks text with
          | '\x7d' :: rest => some (.obj [], rest)
          | _ =>
              (readList? (readField? (read? fuel)) '\x7d' fuel text).map
                fun (fields, rest) => (.obj fields, rest)
      | text => (readNumber? text).map fun (n, rest) => (.num n, rest)

/-- The value that a text is. A text has enough characters for the depth of its values. -/
def ofText? (text : String) : Option Json :=
  match read? text.toList.length text.toList with
  | some (value, rest) => if skipBlanks rest = [] then some value else none
  | none => none

/-! ### Blanks -/

theorem skipBlanks_append (hblanks : ∀ c ∈ blanks, isBlank c = true) (text : List Char) :
    skipBlanks (blanks ++ text) = skipBlanks text :=
  List.dropWhile_append_of_pos hblanks

theorem skipBlanks_cons {c : Char} (hc : isBlank c = false) (text : List Char) :
    skipBlanks (c :: text) = c :: text := by
  rw [skipBlanks, List.dropWhile_cons, hc]
  rfl

/-- A value may have blanks in front. -/
theorem read?_append (hblanks : ∀ c ∈ blanks, isBlank c = true) (fuel : Nat) (text : List Char) :
    read? fuel (blanks ++ text) = read? fuel text := by
  cases fuel with
  | zero => rfl
  | succ fuel => rw [read?, read?, skipBlanks_append hblanks]

theorem readField?_append (hblanks : ∀ c ∈ blanks, isBlank c = true)
    (readValue? : List Char → Option (Json × List Char)) (text : List Char) :
    readField? readValue? (blanks ++ text) = readField? readValue? text := by
  rw [readField?, readField?, skipBlanks_append hblanks]

/-! ### Lists -/

/-- Items that are read back one by one, each before a comma or a blank, are read back from the list
with commas between them. -/
theorem readList?_joinFields {readOne? : List Char → Option (α × List Char)} (close : Char)
    {one : α → List Char} {items : List α} {item : α} {fuel : Nat}
    (hclose : isBlank close = false ∧ close ≠ ',')
    (hread : ∀ other ∈ item :: items, ∀ rest, EndsNumber rest →
      readOne? (one other ++ rest) = some (other, rest))
    (hblanks : ∀ c ∈ blanks, isBlank c = true)
    (hends : EndsNumber (blanks ++ close :: rest)) (hfuel : items.length < fuel) :
    readList? readOne? close fuel
        (joinFields ',' ((item :: items).map one) ++ (blanks ++ close :: rest)) =
      some (item :: items, rest) := by
  induction items generalizing item fuel with
  | nil =>
      obtain ⟨fuel, rfl⟩ := Nat.exists_eq_succ_of_ne_zero (Nat.ne_zero_of_lt hfuel)
      have hitem := hread item List.mem_cons_self _ hends
      simp only [List.map_cons, List.map_nil, joinFields]
      rw [readList?, hitem]
      simp [skipBlanks_append hblanks, skipBlanks_cons hclose.1]
  | cons next items ih =>
      obtain ⟨fuel, rfl⟩ := Nat.exists_eq_succ_of_ne_zero (Nat.ne_zero_of_lt hfuel)
      obtain ⟨hitem, hitems⟩ := List.forall_mem_cons.mp hread
      have hcomma : ∀ text, EndsNumber (',' :: text) := fun _ _ hc => Option.some.inj hc ▸ rfl
      have hbehind := ih hitems (Nat.lt_of_succ_lt_succ hfuel)
      have hlist : joinFields ',' ((item :: next :: items).map one) ++ (blanks ++ close :: rest) =
          one item ++ (',' :: (joinFields ',' ((next :: items).map one) ++
            (blanks ++ close :: rest))) := by
        simp [joinFields]
      rw [hlist, readList?, hitem _ (hcomma _)]
      simpa [skipBlanks_cons (show isBlank ',' = false from rfl), hclose.2.symm] using hbehind

/-! ### The lines of lists -/

/-- What stands before the first sign of a line, the end of the line before it included. -/
def lineStart (depth : Nat) : List Char := '\n' :: (indent depth).toList

def itemLine (depth : Nat) (item : Json) : List Char :=
  lineStart depth ++ (render depth item).toList

def fieldLine (depth : Nat) (field : String × Json) : List Char :=
  lineStart depth ++ ((quote field.1).toList ++ (':' :: ' ' :: (render depth field.2).toList))

theorem cons_toList_renderItems (depth : Nat) (item : Json) (items : List Json) :
    '\n' :: (renderItems depth (item :: items)).toList =
      joinFields ',' ((item :: items).map (itemLine depth)) := by
  induction items generalizing item with
  | nil => simp [renderItems, joinFields, itemLine, lineStart]
  | cons next items ih =>
      rw [List.map_cons, List.map_cons, joinFields, ← List.map_cons, ← ih]
      · simp [renderItems, itemLine, lineStart]
      · simp

theorem cons_toList_renderFields (depth : Nat) (field : String × Json)
    (fields : List (String × Json)) : '\n' :: (renderFields depth (field :: fields)).toList =
      joinFields ',' ((field :: fields).map (fieldLine depth)) := by
  induction fields generalizing field with
  | nil => simp [renderFields, joinFields, fieldLine, lineStart]
  | cons next fields ih =>
      rw [List.map_cons, List.map_cons, joinFields, ← List.map_cons, ← ih]
      · simp [renderFields, fieldLine, lineStart]
      · simp

theorem toList_render_arr (depth : Nat) (item : Json) (items : List Json) :
    (render depth (.arr (item :: items))).toList =
      '[' :: (joinFields ',' ((item :: items).map (itemLine (depth + 1))) ++
        (lineStart depth ++ [']'])) := by
  rw [← cons_toList_renderItems]
  simp [render, lineStart]

theorem toList_render_obj (depth : Nat) (field : String × Json) (fields : List (String × Json)) :
    (render depth (.obj (field :: fields))).toList =
      '\x7b' :: (joinFields ',' ((field :: fields).map (fieldLine (depth + 1))) ++
        (lineStart depth ++ ['\x7d'])) := by
  rw [← cons_toList_renderFields]
  simp [render, lineStart]

/-! ### Values -/

theorem isBlank_of_mem_lineStart (depth : Nat) : ∀ c ∈ lineStart depth, isBlank c = true := by
  intro c hc
  rw [lineStart, indent, String.toList_ofList, List.mem_cons] at hc
  rcases hc with rfl | hblank
  · decide
  · rw [List.eq_of_mem_replicate hblank]
    decide

theorem endsNumber_lineStart (depth : Nat) (text : List Char) :
    EndsNumber (lineStart depth ++ text) :=
  fun _ hc => Option.some.inj hc ▸ rfl

/-- There is a comma before each item but the first. -/
theorem length_le_length_joinFields (one : α → List Char) (items : List α) :
    items.length ≤ (joinFields ',' (items.map one)).length + 1 := by
  induction items with
  | nil => exact Nat.zero_le _
  | cons item items ih =>
      cases items with
      | nil => simp
      | cons next items =>
          simp only [List.map_cons, joinFields, List.length_append, List.length_cons] at ih ⊢
          omega

theorem length_le_of_mem {one : α → List Char} {items : List α} {item : α} (hitem : item ∈ items) :
    (one item).length ≤ (joinFields ',' (items.map one)).length := by
  induction items with
  | nil => cases hitem
  | cons first items ih =>
      cases items with
      | nil =>
          obtain rfl := List.mem_singleton.mp hitem
          rfl
      | cons next items =>
          simp only [List.map_cons, joinFields, List.length_append, List.length_cons] at ih ⊢
          rcases List.mem_cons.mp hitem with rfl | hrest
          · omega
          · have := ih hrest
            omega

/-- A value starts with a sign that is neither blank nor closes a list. -/
theorem exists_render_cons (depth : Nat) (value : Json) : ∃ c text,
    (render depth value).toList = c :: text ∧ isBlank c = false ∧ c ≠ ']' := by
  cases value with
  | num n =>
      obtain ⟨c, digits, hdigits⟩ :=
        List.exists_cons_of_ne_nil (Nat.toDigits_ne_nil : Nat.toDigits 10 n ≠ [])
      have hdigit : c.isDigit = true :=
        Nat.isDigit_of_mem_toDigits (by decide) (by decide) (hdigits ▸ List.mem_cons_self)
      refine ⟨c, digits, by simp [render, hdigits], ?_, ?_⟩
      · rw [isBlank]
        by_contra hblank
        simp only [Bool.not_eq_false, Bool.or_eq_true, decide_eq_true_eq] at hblank
        rcases hblank with ((rfl | rfl) | rfl) | rfl <;> cases hdigit
      · rintro rfl
        cases hdigit
  | str s => exact ⟨'"', _, by rw [render, toList_quote], by decide, by decide⟩
  | arr items =>
      cases items with
      | nil => exact ⟨'[', [']'], by simp [render], by decide, by decide⟩
      | cons item items => exact ⟨'[', _, toList_render_arr depth item items, by decide, by decide⟩
  | obj fields =>
      cases fields with
      | nil => exact ⟨'\x7b', ['\x7d'], by simp [render], by decide, by decide⟩
      | cons field fields =>
          exact ⟨'\x7b', _, toList_render_obj depth field fields, by decide, by decide⟩

/-- A list starts with the first sign of its first item. -/
theorem exists_skipBlanks_joinFields (one : α → List Char) (item : α) (items : List α) {c : Char}
    {text : List Char} (hone : one item = blanks ++ c :: text)
    (hblanks : ∀ c ∈ blanks, isBlank c = true) (hc : isBlank c = false) (rest : List Char) :
    ∃ behind, skipBlanks (joinFields ',' ((item :: items).map one) ++ rest) = c :: behind := by
  obtain ⟨others, hothers⟩ : ∃ others,
      joinFields ',' ((item :: items).map one) = one item ++ others :=
    Text.exists_joinFields_cons _
  refine ⟨text ++ others ++ rest, ?_⟩
  rw [hothers, hone, List.append_assoc, List.append_assoc, skipBlanks_append hblanks,
    List.cons_append, skipBlanks_cons hc, List.append_assoc]

theorem readField?_fieldLine {depth : Nat} {key : String} {value : Json}
    {readValue? : List Char → Option (Json × List Char)}
    (hread : readValue? (' ' :: ((render depth value).toList ++ rest)) = some (value, rest)) :
    readField? readValue? (fieldLine depth (key, value) ++ rest) = some ((key, value), rest) := by
  have hline : fieldLine depth (key, value) ++ rest = lineStart depth ++ '"' ::
      (key.toList.flatMap escapeChar ++ '"' :: ':' ::
        (' ' :: ((render depth value).toList ++ rest))) := by
    simp [fieldLine, toList_quote]
  rw [hline, readField?_append (isBlank_of_mem_lineStart depth), readField?,
    skipBlanks_cons (by decide)]
  simp [readString?_escaped, skipBlanks_cons (show isBlank ':' = false from rfl), hread]

/-- A value has a text, so to read it takes fuel. -/
theorem exists_fuel {value : Json} {depth fuel : Nat}
    (hfuel : (render depth value).toList.length ≤ fuel) : ∃ left, fuel = left + 1 := by
  obtain ⟨c, text, htext, -, -⟩ := exists_render_cons depth value
  rw [htext, List.length_cons] at hfuel
  exact ⟨fuel - 1, by omega⟩

theorem read?_num (n depth fuel : Nat) (hrest : EndsNumber rest) :
    read? (fuel + 1) ((render depth (.num n)).toList ++ rest) = some (.num n, rest) := by
  obtain ⟨c, text, htext, hblank, -⟩ := exists_render_cons depth (.num n)
  have hdigits : (render depth (.num n)).toList = Nat.toDigits 10 n := by simp [render]
  have hread := readNumber?_toDigits n hrest
  have hdigit : c.isDigit = true :=
    Nat.isDigit_of_mem_toDigits (by decide) (by decide) (hdigits ▸ htext ▸ List.mem_cons_self)
  rw [← hdigits, htext] at hread
  rw [htext, List.cons_append, read?, skipBlanks_cons hblank]
  -- A digit is none of the signs that other values start with.
  split
  next heq => cases (List.cons.inj heq).1 ▸ hdigit
  next heq => cases (List.cons.inj heq).1 ▸ hdigit
  next heq => cases (List.cons.inj heq).1 ▸ hdigit
  next => rw [← List.cons_append, hread]; rfl

/-- What stands behind a bracket is read as a list, unless it closes the list. -/
theorem read?_bracket {fuel : Nat} {items : List Json} {text : List Char}
    (hlist : readList? (read? fuel) ']' fuel text = some (items, rest))
    (hfirst : ∀ text', skipBlanks text ≠ ']' :: text') :
    read? (fuel + 1) ('[' :: text) = some (.arr items, rest) := by
  rw [read?, skipBlanks_cons (by decide)]
  split
  next heq => simp at heq
  next heq =>
    obtain rfl := (List.cons.inj heq).2
    split
    next heq' => exact absurd heq' (hfirst _)
    next => rw [hlist]; rfl
  next heq => simp at heq
  next hbracket _ => exact absurd rfl (hbracket text)

theorem read?_brace {fuel : Nat} {fields : List (String × Json)} {text : List Char}
    (hlist : readList? (readField? (read? fuel)) '\x7d' fuel text = some (fields, rest))
    (hfirst : ∀ text', skipBlanks text ≠ '\x7d' :: text') :
    read? (fuel + 1) ('\x7b' :: text) = some (.obj fields, rest) := by
  rw [read?, skipBlanks_cons (by decide)]
  split
  next heq => simp at heq
  next heq => simp at heq
  next heq =>
    obtain rfl := (List.cons.inj heq).2
    split
    next heq' => exact absurd heq' (hfirst _)
    next => rw [hlist]; rfl
  next hbrace => exact absurd rfl (hbrace text)

/-- A list is read back if its items are. -/
theorem read?_arr {fuel depth : Nat} {item : Json} {items : List Json}
    (hfuel : (render depth (.arr (item :: items))).toList.length ≤ fuel + 1)
    (hread : ∀ other ∈ item :: items, ∀ rest,
      (render (depth + 1) other).toList.length ≤ fuel → EndsNumber rest →
        read? fuel ((render (depth + 1) other).toList ++ rest) = some (other, rest)) :
    read? (fuel + 1) ((render depth (.arr (item :: items))).toList ++ rest) =
      some (.arr (item :: items), rest) := by
  rw [toList_render_arr] at hfuel ⊢
  simp only [List.length_cons, List.length_append] at hfuel
  have hitems : ∀ other ∈ item :: items, ∀ rest, EndsNumber rest →
      read? fuel (itemLine (depth + 1) other ++ rest) = some (other, rest) := by
    intro other hother rest hrest
    have hline : (itemLine (depth + 1) other).length ≤ _ := length_le_of_mem hother
    rw [itemLine, List.append_assoc, read?_append (isBlank_of_mem_lineStart _)]
    refine hread other hother rest ?_ hrest
    simp only [itemLine, List.length_append] at hline
    omega
  have hcount : items.length < fuel := by
    have hcommas := length_le_length_joinFields (itemLine (depth + 1)) (item :: items)
    rw [List.length_cons] at hcommas
    omega
  have hlist := readList?_joinFields ']' ⟨rfl, by decide⟩ hitems (isBlank_of_mem_lineStart depth)
    (endsNumber_lineStart depth (']' :: rest)) hcount
  obtain ⟨c, text, htext, hblank, hclose⟩ := exists_render_cons (depth + 1) item
  obtain ⟨behind, hbehind⟩ := exists_skipBlanks_joinFields (itemLine (depth + 1)) item items
    (by rw [itemLine, htext]) (isBlank_of_mem_lineStart _) hblank (lineStart depth ++ ']' :: rest)
  have hvalue := read?_bracket hlist fun text' heq => by
    rw [hbehind] at heq
    exact hclose (List.cons.inj heq).1
  simpa using hvalue

/-- An object is read back if its values are. -/
theorem read?_obj {fuel depth : Nat} {field : String × Json} {fields : List (String × Json)}
    (hfuel : (render depth (.obj (field :: fields))).toList.length ≤ fuel + 1)
    (hread : ∀ key value, (key, value) ∈ field :: fields → ∀ rest,
      (render (depth + 1) value).toList.length ≤ fuel → EndsNumber rest →
        read? fuel ((render (depth + 1) value).toList ++ rest) = some (value, rest)) :
    read? (fuel + 1) ((render depth (.obj (field :: fields))).toList ++ rest) =
      some (.obj (field :: fields), rest) := by
  rw [toList_render_obj] at hfuel ⊢
  simp only [List.length_cons, List.length_append] at hfuel
  have hfields : ∀ other ∈ field :: fields, ∀ rest, EndsNumber rest →
      readField? (read? fuel) (fieldLine (depth + 1) other ++ rest) = some (other, rest) := by
    intro (key, value) hother rest hrest
    have hline : (fieldLine (depth + 1) (key, value)).length ≤ _ := length_le_of_mem hother
    apply readField?_fieldLine
    rw [← List.singleton_append, read?_append (List.forall_mem_singleton.mpr rfl)]
    refine hread key value hother rest ?_ hrest
    simp only [fieldLine, List.length_append, List.length_cons] at hline
    omega
  have hcount : fields.length < fuel := by
    have hcommas := length_le_length_joinFields (fieldLine (depth + 1)) (field :: fields)
    rw [List.length_cons] at hcommas
    omega
  have hlist := readList?_joinFields '\x7d' ⟨rfl, by decide⟩ hfields
    (isBlank_of_mem_lineStart depth) (endsNumber_lineStart depth ('\x7d' :: rest)) hcount
  obtain ⟨behind, hbehind⟩ := exists_skipBlanks_joinFields (fieldLine (depth + 1)) field fields
    (by rw [fieldLine, toList_quote]; rfl) (isBlank_of_mem_lineStart _) (by decide)
    (lineStart depth ++ '\x7d' :: rest)
  have hvalue := read?_brace hlist fun text' heq => by
    rw [hbehind] at heq
    cases heq
  simpa using hvalue

/-- What holds of a list or an object may be shown from what holds of the values in it. -/
@[elab_as_elim]
theorem nestedInduction {motive : Json → Prop} (num : ∀ n, motive (.num n))
    (str : ∀ s, motive (.str s))
    (arr : ∀ items, (∀ item ∈ items, motive item) → motive (.arr items))
    (obj : ∀ fields, (∀ key value, (key, value) ∈ fields → motive value) → motive (.obj fields)) :
    ∀ value, motive value
  | .num n => num n
  | .str s => str s
  | .arr items => arr items fun item _ => nestedInduction num str arr obj item
  | .obj fields => obj fields fun key value _hfield => nestedInduction num str arr obj value
decreasing_by
  · have := List.sizeOf_lt_of_mem ‹item ∈ items›
    simp only [Json.arr.sizeOf_spec]
    omega
  · have := List.sizeOf_lt_of_mem _hfield
    simp only [Json.obj.sizeOf_spec, Prod.mk.sizeOf_spec] at this ⊢
    omega

/-- By induction on the value: whatever follows, it is read back. -/
theorem read?_render (value : Json) {depth fuel : Nat}
    (hfuel : (render depth value).toList.length ≤ fuel) (hrest : EndsNumber rest) :
    read? fuel ((render depth value).toList ++ rest) = some (value, rest) := by
  induction value using nestedInduction generalizing depth fuel rest with
  | num n =>
      obtain ⟨fuel, rfl⟩ := exists_fuel hfuel
      exact read?_num n depth fuel hrest
  | str s =>
      obtain ⟨fuel, rfl⟩ := exists_fuel hfuel
      rw [render, toList_quote, List.cons_append, List.append_assoc, List.singleton_append, read?,
        skipBlanks_cons (by decide)]
      simp [readString?_escaped]
  | arr items ih =>
      obtain ⟨fuel, rfl⟩ := exists_fuel hfuel
      cases items with
      | nil =>
          simp [render, read?, skipBlanks_cons (show isBlank '[' = false from rfl),
            skipBlanks_cons (show isBlank ']' = false from rfl)]
      | cons item items =>
          exact read?_arr hfuel fun other hother rest hshort hends => ih other hother hshort hends
  | obj fields ih =>
      obtain ⟨fuel, rfl⟩ := exists_fuel hfuel
      cases fields with
      | nil =>
          simp [render, read?, skipBlanks_cons (show isBlank '\x7b' = false from rfl),
            skipBlanks_cons (show isBlank '\x7d' = false from rfl)]
      | cons field fields =>
          exact read?_obj hfuel fun key value hfield rest hshort hends =>
            ih key value hfield hshort hends

/-- What is written is read back. -/
theorem ofText?_pretty (value : Json) : ofText? value.pretty = some value := by
  have hends : EndsNumber [] := fun _ hc => nomatch hc
  have hread : read? value.pretty.toList.length (value.pretty.toList ++ []) = some (value, []) :=
    read?_render value le_rfl hends
  rw [List.append_nil] at hread
  rw [ofText?, hread]
  rfl

end OberonImports.Json
