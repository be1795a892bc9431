import Veloxide.Library.Json

namespace Json.Text

open List

variable (n : Nat)

def hexDigit : Char := Nat.digitChar n

def escape (c : Char) : List Char := if c = '"' then ['\\', '"']
  else if c = '\\' then ['\\', '\\']
  else if c = '\n' then ['\\', 'n']
  else if c = '\r' then ['\\', 'r']
  else if c = '\t' then ['\\', 't']
  else if c = Char.ofNat 8 then ['\\', 'b']
  else if c = Char.ofNat 12 then ['\\', 'f']
  else if c.toNat < 32 then ['\\', 'u', '0', '0', hexDigit (c.toNat / 16), hexDigit (c.toNat % 16)]
  else [c]

variable (text : String)

def printString : List Char := '"' :: (text.toList.flatMap escape ++ ['"'])

def printNumber : JsonNumber → List Char
  | .posInt value => Nat.toDigits 10 value.toNat
  | .negInt predecessor => '-' :: Nat.toDigits 10 (predecessor.val + 1)
  | .float text => text.chars

mutual

def print : Json → List Char
  | .null => ['n', 'u', 'l', 'l']
  | .bool true => ['t', 'r', 'u', 'e']
  | .bool false => ['f', 'a', 'l', 's', 'e']
  | .number value => printNumber value
  | .string value => printString value
  | .array [] => ['[', ']']
  | .array (item :: items) => '[' :: (print item ++ printItems items)
  | .object [] => ['{', '}']
  | .object ((name, value) :: fields) =>
    '{' :: (printString name ++ ':' :: (print value ++ printFields fields))

def printItems : List Json → List Char
  | [] => [']']
  | item :: items => ',' :: (print item ++ printItems items)

def printFields : List (String × Json) → List Char
  | [] => ['}']
  | (name, value) :: fields => ',' :: (printString name ++ ':' :: (print value ++ printFields fields))

end

def hexValue (c : Char) : Option Nat := if c.isDigit then some (c.toNat - '0'.toNat)
  else if 'a' ≤ c ∧ c ≤ 'f' then some (c.toNat - 'a'.toNat + 10)
  else if 'A' ≤ c ∧ c ≤ 'F' then some (c.toNat - 'A'.toNat + 10)
  else none

def unescape : Char → Option Char
  | '"' => some '"'
  | '\\' => some '\\'
  | '/' => some '/'
  | 'n' => some '\n'
  | 'r' => some '\r'
  | 't' => some '\t'
  | 'b' => some (Char.ofNat 8)
  | 'f' => some (Char.ofNat 12)
  | _ => none

def codeUnit (a b c d : Char) : Option Char := do
  let a ← hexValue a
  let b ← hexValue b
  let c ← hexValue c
  let d ← hexValue d
  let code := ((a * 16 + b) * 16 + c) * 16 + d
  if 0xD800 ≤ code ∧ code ≤ 0xDFFF then none else some (Char.ofNat code)

def parseChars : List Char → Option (List Char × List Char)
  | [] => none
  | '"' :: rest => some ([], rest)
  | '\\' :: 'u' :: a :: b :: c :: d :: rest => do
    let head ← codeUnit a b c d
    let (tail, rest) ← parseChars rest
    return (head :: tail, rest)
  | '\\' :: e :: rest => do
    let head ← unescape e
    let (tail, rest) ← parseChars rest
    return (head :: tail, rest)
  | c :: rest => do
    if c.toNat < 32 then none
    let (tail, rest) ← parseChars rest
    return (c :: tail, rest)

def parseString : List Char → Option (String × List Char)
  | '"' :: rest => (parseChars rest).map fun (chars, rest) => (String.ofList chars, rest)
  | _ => none

def parseDigits (digits : List Char) : Option Nat :=
  if digits ≠ [] ∧ digits.all Char.isDigit then some (Nat.ofDigitChars 10 digits 0) else none

def negative (value : Nat) : Option JsonNumber :=
  if bound : 0 < value ∧ value - 1 < 2 ^ 63 then some (.negInt ⟨value - 1, bound.2⟩) else none

def positive (value : Nat) : Option JsonNumber := if value < 2 ^ 64 then some (.posInt (UInt64.ofNat value)) else none

def parseNumber (token : List Char) : Option JsonNumber := if fraction : token.any fractional = true then
    if digits : token.all numeric = true then some (.float ⟨token, fraction, digits⟩) else none
  else if token.head? = some '-' then (parseDigits token.tail).bind negative
  else (parseDigits token).bind positive

variable (value : Json)

def literal (word : List Char) (value : Json) (text : List Char) : Option (Json × List Char) :=
  if word.isPrefixOf text then some (value, text.drop word.length) else none

mutual

def parse : Nat → List Char → Option (Json × List Char)
  | 0, _ => none
  | _ + 1, [] => none
  | fuel + 1, c :: rest =>
    if c = '"' then (parseString (c :: rest)).map fun (text, rest) => (.string text, rest)
    else if c = '[' then
      if rest.head? = some ']' then some (.array [], rest.tail)
      else (parse fuel rest).bind fun (item, rest) =>
        (parseItems fuel rest).map fun (items, rest) => (.array (item :: items), rest)
    else if c = '{' then
      if rest.head? = some '}' then some (.object [], rest.tail)
      else (parseField fuel rest).bind fun (field, rest) =>
        (parseFields fuel rest).map fun (fields, rest) => (.object (field :: fields), rest)
    else if numeric c then
      (parseNumber ((c :: rest).takeWhile numeric)).map fun value =>
        (.number value, (c :: rest).dropWhile numeric)
    else if c = 'n' then literal ['n', 'u', 'l', 'l'] .null (c :: rest)
    else if c = 't' then literal ['t', 'r', 'u', 'e'] (.bool true) (c :: rest)
    else literal ['f', 'a', 'l', 's', 'e'] (.bool false) (c :: rest)

def parseItems : Nat → List Char → Option (List Json × List Char)
  | _ + 1, ']' :: rest => some ([], rest)
  | fuel + 1, ',' :: rest =>
    (parse fuel rest).bind fun (item, rest) =>
      (parseItems fuel rest).map fun (items, rest) => (item :: items, rest)
  | _, _ => none

def parseField : Nat → List Char → Option ((String × Json) × List Char)
  | 0, _ => none
  | fuel + 1, text =>
    (parseString text).bind fun (name, rest) =>
      if rest.head? = some ':' then
        (parse fuel rest.tail).map fun (value, rest) => ((name, value), rest)
      else none

def parseFields : Nat → List Char → Option (List (String × Json) × List Char)
  | _ + 1, '}' :: rest => some ([], rest)
  | fuel + 1, ',' :: rest =>
    (parseField fuel rest).bind fun (field, rest) =>
      (parseFields fuel rest).map fun (fields, rest) => (field :: fields, rest)
  | _, _ => none

end

variable (rest : List Char)

def Delimited : Prop := ∀ c ∈ rest.head?, numeric c = false

theorem hexValue_hexDigit : ∀ n < 16, hexValue (hexDigit n) = some n := by
  decide

theorem codeUnit_control (c : Char) (control : c.toNat < 32) :
    codeUnit '0' '0' (hexDigit (c.toNat / 16)) (hexDigit (c.toNat % 16)) = some c := by
  have zero : hexValue '0' = some 0 := by decide
  have high := hexValue_hexDigit (c.toNat / 16) (by omega)
  have low := hexValue_hexDigit (c.toNat % 16) (by omega)
  have code : c.toNat / 16 * 16 + c.toNat % 16 = c.toNat := by omega
  simp [codeUnit, zero, high, low, code]
  omega

theorem parseChars_escape (c : Char) (tail chars rest : List Char) (parsed : parseChars tail = some (chars, rest)) :
    parseChars (escape c ++ tail) = some (c :: chars, rest) := by
  unfold escape
  split_ifs with quote backslash newline return_ tab backspace formFeed control
  · simp [parseChars, unescape, parsed, quote]
  · simp [parseChars, unescape, parsed, backslash]
  · simp [parseChars, unescape, parsed, newline]
  · simp [parseChars, unescape, parsed, return_]
  · simp [parseChars, unescape, parsed, tab]
  · simp [parseChars, unescape, parsed, backspace]
  · simp [parseChars, unescape, parsed, formFeed]
  · simp [parseChars, parsed, codeUnit_control c control]
  · simp [parseChars, parsed, backslash, control]

theorem parseChars_print (text rest : List Char) :
    parseChars (text.flatMap escape ++ '"' :: rest) = some (text, rest) := by
  induction text with
  | nil => simp [parseChars]
  | cons c text ih =>
    rw [flatMap_cons, append_assoc]
    exact parseChars_escape c _ text rest ih

theorem parseString_print : parseString (printString text ++ rest) = some (text, rest) := by
  have hc := parseChars_print text.toList rest
  simp [printString, parseString, hc]

theorem parseDigits_print : parseDigits (Nat.toDigits 10 n) = some n := by
  have hd : (Nat.toDigits 10 n).all Char.isDigit = true := by
    rw [all_eq_true]
    exact fun c mem => Nat.isDigit_of_mem_toDigits (by decide) (by decide) mem
  rw [parseDigits, if_pos ⟨Nat.toDigits_ne_nil, hd⟩, Nat.ofDigitChars_ten_toDigits]

variable {c : Char}

theorem numeric_of_isDigit (hd : c.isDigit = true) : numeric c = true := by
  simp [numeric, hd]

theorem not_fractional_of_isDigit (hd : c.isDigit = true) : fractional c = false := by
  by_contra hf
  simp only [fractional, Bool.or_eq_true, beq_iff_eq, Bool.not_eq_false] at hf
  rcases hf with rfl | rfl <;> exact absurd hd (by decide)

theorem toDigits_not_fractional : (Nat.toDigits 10 n).any fractional = false := by
  rw [any_eq_false]
  intro c mem
  simp [not_fractional_of_isDigit (Nat.isDigit_of_mem_toDigits (by decide) (by decide) mem)]

theorem printNumber_numeric (value : JsonNumber) : ∀ c ∈ printNumber value, numeric c = true := by
  intro c mem
  cases value with
  | posInt value =>
    exact numeric_of_isDigit (Nat.isDigit_of_mem_toDigits (by decide) (by decide) mem)
  | negInt predecessor =>
    rcases mem_cons.mp mem with rfl | mem
    · decide
    · exact numeric_of_isDigit (Nat.isDigit_of_mem_toDigits (by decide) (by decide) mem)
  | float text => exact all_eq_true.mp text.digits c mem

theorem printNumber_ne_nil (value : JsonNumber) : printNumber value ≠ [] := by
  cases value with
  | posInt value => exact Nat.toDigits_ne_nil
  | negInt predecessor => exact cons_ne_nil _ _
  | float text =>
    intro he
    have hf := text.fraction
    rw [printNumber] at he
    simp [he] at hf

theorem parseNumber_print (value : JsonNumber) : parseNumber (printNumber value) = some value := by
  cases value with
  | posInt value =>
    have hu : (Nat.toDigits 10 value.toNat).head? ≠ some '-' := by
      intro hm
      have hd := Nat.isDigit_of_mem_toDigits (by decide) (by decide) (mem_of_mem_head? hm)
      exact absurd hd (by decide)
    simp [parseNumber, printNumber, toDigits_not_fractional, hu, parseDigits_print, positive]
    exact value.toNat_lt
  | negInt predecessor =>
    have hf : fractional '-' = false := by decide
    simp [parseNumber, printNumber, hf, toDigits_not_fractional, parseDigits_print, negative]
  | float text => simp [parseNumber, printNumber, text.fraction, text.digits]

theorem parse_printNumber (fuel : Nat) (value : JsonNumber) (rest : List Char) (hd : Delimited rest) :
    parse (fuel + 1) (printNumber value ++ rest) = some (.number value, rest) := by
  have run : (printNumber value ++ rest).takeWhile numeric = printNumber value := by
    rw [takeWhile_append_of_pos (printNumber_numeric value)]
    cases rest with
    | nil => simp
    | cons c rest => simp [hd c (by simp)]
  have hr : (printNumber value ++ rest).dropWhile numeric = rest := by
    rw [dropWhile_append_of_pos (printNumber_numeric value)]
    cases rest with
    | nil => rfl
    | cons c rest => simp [hd c (by simp)]
  obtain ⟨c, digits, hh⟩ := exists_cons_of_ne_nil (printNumber_ne_nil value)
  have head : numeric c = true := printNumber_numeric value c (by simp [hh])
  have ho : ∀ d, numeric d = false → c ≠ d := by
    intro d hs same
    simp [← same, head] at hs
  rw [hh, cons_append] at run hr ⊢
  rw [parse, if_neg (ho '"' (by decide)), if_neg (ho '[' (by decide)), if_neg (ho '{' (by decide)),
    if_pos head, run, hr, ← hh, parseNumber_print]
  rfl

def Parses : Prop := ∀ fuel rest, (print value).length ≤ fuel → Delimited rest →
    parse fuel (print value ++ rest) = some (value, rest)

variable (items : List Json)

theorem delimited_printItems (rest : List Char) : Delimited (printItems items ++ rest) := by
  cases items <;> simp [printItems, Delimited] <;> decide

variable (fields : List (String × Json))

theorem delimited_printFields (rest : List Char) : Delimited (printFields fields ++ rest) := by
  rcases fields with _ | ⟨⟨name, value⟩, fields⟩ <;> simp [printFields, Delimited] <;> decide

theorem parseItems_print (each : ∀ item ∈ items, Parses item) (fuel : Nat) (rest : List Char)
    (enough : (printItems items).length ≤ fuel) :
    parseItems fuel (printItems items ++ rest) = some (items, rest) := by
  induction items generalizing fuel with
  | nil =>
    obtain ⟨fuel, rfl⟩ := Nat.exists_eq_add_of_le' (show 1 ≤ fuel from enough)
    simp [printItems, parseItems]
  | cons item items ih =>
    simp only [printItems, length_cons, length_append] at enough
    obtain ⟨fuel, rfl⟩ := Nat.exists_eq_add_of_le' (show 1 ≤ fuel by omega)
    have first := each item mem_cons_self fuel _ (by omega) (delimited_printItems items rest)
    have others := ih (fun other member => each other (mem_cons_of_mem _ member)) fuel (by omega)
    simp [printItems, parseItems, append_assoc, first, others]

theorem parseField_print (name : String) (value : Json) (parses : Parses value) (fuel : Nat)
    (rest : List Char) (enough : (print value).length + 1 ≤ fuel) (delimited : Delimited rest) :
    parseField fuel (printString name ++ ':' :: (print value ++ rest)) = some ((name, value), rest) := by
  obtain ⟨fuel, rfl⟩ := Nat.exists_eq_add_of_le' (show 1 ≤ fuel by omega)
  have content := parses fuel rest (by omega) delimited
  simp [parseField, parseString_print, content]

theorem parseFields_print (each : ∀ field ∈ fields, Parses field.2) (fuel : Nat) (rest : List Char)
    (enough : (printFields fields).length ≤ fuel) :
    parseFields fuel (printFields fields ++ rest) = some (fields, rest) := by
  induction fields generalizing fuel with
  | nil =>
    obtain ⟨fuel, rfl⟩ := Nat.exists_eq_add_of_le' (show 1 ≤ fuel from enough)
    simp [printFields, parseFields]
  | cons field fields ih =>
    obtain ⟨name, value⟩ := field
    simp only [printFields, length_cons, length_append] at enough
    obtain ⟨fuel, rfl⟩ := Nat.exists_eq_add_of_le' (show 1 ≤ fuel by omega)
    have first := parseField_print name value (each (name, value) mem_cons_self) fuel _ (by omega)
      (delimited_printFields fields rest)
    have others := ih (fun other member => each other (mem_cons_of_mem _ member)) fuel (by omega)
    simp [printFields, parseFields, append_assoc, first, others]

theorem print_head : (print value ++ rest).head? ≠ some ']' := by
  cases value with
  | number value =>
    obtain ⟨c, digits, shape⟩ := exists_cons_of_ne_nil (printNumber_ne_nil value)
    have head : numeric c = true := printNumber_numeric value c (by simp [shape])
    intro bracket
    simp only [print, shape, cons_append, head?_cons, Option.some.injEq] at bracket
    subst bracket
    exact absurd head (by decide)
  | bool value => cases value <;> simp [print]
  | array items => cases items <;> simp [print]
  | object fields => rcases fields with _ | ⟨⟨name, value⟩, fields⟩ <;> simp [print]
  | _ => simp [print, printString]

theorem Parses.of_succ (positive : 0 < (print value).length)
    (parsed : ∀ fuel rest, (print value).length ≤ fuel + 1 → Delimited rest →
      parse (fuel + 1) (print value ++ rest) = some (value, rest)) : Parses value := by
  intro fuel rest enough delimited
  cases fuel with
  | zero => exact absurd enough (Nat.not_le.mpr positive)
  | succ fuel => exact parsed fuel rest enough delimited

theorem parses : Parses value := by
  induction value using Json.induct with
  | null =>
    refine .of_succ _ (by decide) fun fuel rest enough delimited => ?_
    simp [print, parse, literal, show numeric 'n' = false by decide]
  | bool value =>
    cases value with
    | false =>
      refine .of_succ _ (by decide) fun fuel rest enough delimited => ?_
      simp [print, parse, literal, show numeric 'f' = false by decide]
    | true =>
      refine .of_succ _ (by decide) fun fuel rest enough delimited => ?_
      simp [print, parse, literal, show numeric 't' = false by decide]
  | number value =>
    refine .of_succ _ (length_pos_of_ne_nil (printNumber_ne_nil value)) fun fuel rest enough delimited => ?_
    exact parse_printNumber fuel value rest delimited
  | string value =>
    refine .of_succ _ (by simp [print, printString]) fun fuel rest enough delimited => ?_
    have content := parseString_print value rest
    simp only [printString, cons_append] at content
    simp only [print, printString, cons_append, parse, if_pos, content, Option.map_some]
  | array items ih =>
    cases items with
    | nil =>
      refine .of_succ _ (by decide) fun fuel rest enough delimited => ?_
      simp [print, parse]
    | cons item items =>
      refine .of_succ _ (by simp [print]) fun fuel rest enough delimited => ?_
      simp only [print, length_cons, length_append] at enough
      have first := ih item mem_cons_self fuel _ (by omega) (delimited_printItems items rest)
      have others := parseItems_print items (fun other member => ih other (mem_cons_of_mem _ member))
        fuel rest (by omega)
      have head := print_head item (printItems items ++ rest)
      rw [print, cons_append, append_assoc, parse, if_neg (by decide), if_pos rfl, if_neg head, first]
      simp only [Option.bind_some, others, Option.map_some]
  | object fields ih =>
    rcases fields with _ | ⟨⟨name, value⟩, fields⟩
    · refine .of_succ _ (by decide) fun fuel rest enough delimited => ?_
      simp [print, parse]
    · refine .of_succ _ (by simp [print]) fun fuel rest enough delimited => ?_
      simp only [print, printString, length_cons, length_append] at enough
      have first := parseField_print name value (ih (name, value) mem_cons_self) fuel _ (by omega)
        (delimited_printFields fields rest)
      have others := parseFields_print fields (fun other member => ih other (mem_cons_of_mem _ member))
        fuel rest (by omega)
      have head : (printString name ++ ':' :: (print value ++ (printFields fields ++ rest))).head? ≠
          some '}' := by simp [printString]
      rw [print, cons_append, append_assoc, cons_append, append_assoc, parse,
        if_neg (by decide), if_neg (by decide), if_pos rfl, if_neg head, first]
      simp only [Option.bind_some, others, Option.map_some]

def toText : String := String.ofList (print value)

def ofText : Except String Json := match parse text.toList.length text.toList with
  | some (value, []) => .ok value
  | _ => .error "expected value"

theorem ofText_toText : ofText (toText value) = .ok value := by
  have parsed := parses value (print value).length [] (Nat.le_refl _) (by simp [Delimited])
  rw [append_nil] at parsed
  simp [ofText, toText, parsed]

section

theorem structural_of_numeric (number : numeric c = true) : structural c = true := by
  simp only [numeric, fractional, Bool.or_eq_true, beq_iff_eq] at number
  rcases number with ((digit | dot | exponent) | minus) | plus
  · simp [structural, Char.isAlphanum, digit]
  · rw [dot]
    decide
  · rw [exponent]
    decide
  · rw [minus]
    decide
  · rw [plus]
    decide

theorem structural_hexDigit : ∀ n < 16, structural (hexDigit n) = true := by
  decide

theorem structural_of_mem {chars : List Char} (member : c ∈ chars) (all : chars.all structural = true) :
    structural c = true := all_eq_true.mp all c member

theorem structural_escape (c : Char) : (escape c).all structural = true ∨ escape c = [c] := by
  rw [escape]
  split_ifs with quote backslash newline carriage tab backspace formFeed control
  on_goal 8 =>
    have high := structural_hexDigit (c.toNat / 16) (by omega)
    have low := structural_hexDigit (c.toNat % 16) (Nat.mod_lt _ (by decide))
    have rest : ['\\', 'u', '0', '0'].all structural = true := by decide
    exact .inl (by simp_all)
  on_goal 8 => exact .inr rfl
  all_goals exact .inl (by decide)

theorem structural_printString {text : String} (member : c ∈ printString text) :
    structural c = true ∨ c ∈ text.toList := by
  rcases mem_cons.mp member with rfl | member
  · exact .inl (by decide)
  rcases mem_append.mp member with inside | quote
  · obtain ⟨original, listed, escaped⟩ := mem_flatMap.mp inside
    rcases structural_escape original with plain | same
    · exact .inl (structural_of_mem escaped plain)
    · rw [same, mem_singleton] at escaped
      exact .inr (escaped ▸ listed)
  · rw [mem_singleton.mp quote]
    exact .inl (by decide)

def Spelled : Prop := ∀ c ∈ print value, structural c = true ∨ value.Mentions c

theorem spelled_items {items : List Json} (each : ∀ item ∈ items, Spelled item) (member : c ∈ printItems items) :
    structural c = true ∨ ∃ item ∈ items, item.Mentions c := by
  induction items with
  | nil =>
    rw [printItems, mem_singleton] at member
    exact .inl (member ▸ by decide)
  | cons item items ih =>
    rw [printItems] at member
    rcases mem_cons.mp member with rfl | member
    · exact .inl (by decide)
    rcases mem_append.mp member with first | rest
    · exact (each item mem_cons_self c first).imp_right fun inside => ⟨item, mem_cons_self, inside⟩
    · refine (ih (fun other listed => each other (mem_cons_of_mem _ listed)) rest).imp_right ?_
      intro found
      obtain ⟨other, listed, inside⟩ := found
      exact ⟨other, mem_cons_of_mem _ listed, inside⟩

theorem spelled_fields {fields : List (String × Json)} (each : ∀ field ∈ fields, Spelled field.2)
    (member : c ∈ printFields fields) :
    structural c = true ∨ ∃ field ∈ fields, c ∈ field.1.toList ∨ field.2.Mentions c := by
  induction fields with
  | nil =>
    rw [printFields, mem_singleton] at member
    exact .inl (member ▸ by decide)
  | cons field fields ih =>
    obtain ⟨name, value⟩ := field
    rw [printFields] at member
    rcases mem_cons.mp member with rfl | member
    · exact .inl (by decide)
    rcases mem_append.mp member with named | member
    · exact (structural_printString named).imp_right fun inside => ⟨(name, value), mem_cons_self, .inl inside⟩
    rcases mem_cons.mp member with rfl | member
    · exact .inl (by decide)
    rcases mem_append.mp member with first | rest
    · exact (each (name, value) mem_cons_self c first).imp_right fun inside =>
        ⟨(name, value), mem_cons_self, .inr inside⟩
    · refine (ih (fun other listed => each other (mem_cons_of_mem _ listed)) rest).imp_right ?_
      intro found
      obtain ⟨other, listed, inside⟩ := found
      exact ⟨other, mem_cons_of_mem _ listed, inside⟩

theorem spelled : Spelled value := by
  induction value using Json.induct with
  | null => exact fun c member => .inl (structural_of_mem member (by decide))
  | bool value =>
    intro c member
    cases value <;> exact .inl (structural_of_mem member (by decide))
  | number value => exact fun c member => .inl (structural_of_numeric (printNumber_numeric value c member))
  | string value => exact fun c member => (structural_printString member).imp_right Mentions.string
  | array items ih =>
    intro c member
    cases items with
    | nil => exact .inl (structural_of_mem member (by decide))
    | cons item items =>
      rcases mem_cons.mp member with rfl | member
      · exact .inl (by decide)
      refine (spelled_items ih (mem_cons_of_mem ',' member)).imp_right ?_
      intro found
      obtain ⟨other, listed, inside⟩ := found
      exact .item listed inside
  | object fields ih =>
    intro c member
    cases fields with
    | nil => exact .inl (structural_of_mem member (by decide))
    | cons field fields =>
      rcases mem_cons.mp member with rfl | member
      · exact .inl (by decide)
      refine (spelled_fields ih (mem_cons_of_mem ',' member)).imp_right ?_
      intro found
      obtain ⟨other, listed, inside | inside⟩ := found
      · exact .name listed inside
      · exact .field listed inside

end

@[reducible] def codec : JsonCodec where
  toText value := .ok (toText value)
  ofText := ofText
  ofText_toText value := ⟨toText value, value, rfl, ofText_toText value, .refl value⟩

theorem codec_structural : @JsonCodec.Structural codec := by
  refine @JsonCodec.Structural.mk codec ?_
  intro value text printed c member
  cases printed
  exact spelled value c (by rwa [toText, String.toList_ofList] at member)

theorem codec_refusesNul : @JsonCodec.RefusesNul codec := by
  refine @JsonCodec.RefusesNul.mk codec fun c chars nul => ?_
  have same : c = Char.ofNat 0 := Char.ext (UInt32.toNat_inj.mp nul)
  subst same
  refine ⟨"expected value", ?_⟩
  show ofText (String.ofList (Char.ofNat 0 :: chars)) = _
  rw [ofText, String.toList_ofList, length_cons, parse]
  rfl

section

theorem utf8Size_ascii (ascii : c.val ≤ 127) : c.utf8Size = 1 := by
  rw [Char.utf8Size]
  exact if_pos ascii

theorem utf8Size_hexDigit : ∀ n < 16, (hexDigit n).utf8Size = 1 := by decide

theorem utf8Len_escape (c : Char) : String.utf8Len (escape c) ≤ 6 * c.utf8Size := by
  have positive := c.utf8Size_pos
  have small : ∀ d ∈ ['\\', '"', 'n', 'r', 't', 'b', 'f', 'u', '0'], d.utf8Size = 1 := by simp [utf8Size_ascii]
  rw [escape]
  split_ifs with _ _ _ _ _ _ _ control
  iterate 7
    · simp [small]
      omega
  · have high := utf8Size_hexDigit (c.toNat / 16) (by omega)
    have low := utf8Size_hexDigit (c.toNat % 16) (by omega)
    simp [small, high, low]
    omega
  · simp
    omega

theorem utf8Len_flatMap_escape (chars : List Char) :
    String.utf8Len (chars.flatMap escape) ≤ 6 * String.utf8Len chars := by
  induction chars with
  | nil => simp
  | cons c chars ih =>
    have here := utf8Len_escape c
    simp only [flatMap_cons, String.utf8Len_append, String.utf8Len_cons]
    omega

theorem utf8Len_printString : String.utf8Len (printString text) ≤ 6 * (ByteCodec.utf8 text).length + 2 := by
  have hl := utf8Len_flatMap_escape text.toList
  have size : (ByteCodec.utf8 text).length = String.utf8Len text.toList := by
    rw [ByteCodec.length_utf8, ← String.utf8ByteSize_ofList, String.ofList_toList]
  have quote : '"'.utf8Size = 1 := utf8Size_ascii (by decide)
  simp only [printString, String.utf8Len_cons, String.utf8Len_append, String.utf8Len_nil, quote, size]
  omega

theorem utf8Len_printFields (fields : List (String × String)) :
    String.utf8Len (printFields (fields.map fun field => (field.1, .string field.2))) ≤ 1 + (fields.map fun field =>
        6 * (ByteCodec.utf8 field.1).length + 6 * (ByteCodec.utf8 field.2).length + 6).sum := by
  have punctuation : ∀ d ∈ [',', ':', '}'], d.utf8Size = 1 := by simp [utf8Size_ascii]
  induction fields with
  | nil => simp [printFields, punctuation]
  | cons field fields ih =>
    have name := utf8Len_printString field.1
    have value := utf8Len_printString field.2
    simp only [map_cons, printFields, print, String.utf8Len_cons, String.utf8Len_append, sum_cons,
      punctuation _ (mem_cons_self), punctuation ':' (by simp)]
    omega

theorem codec_shortStrings : @JsonCodec.ShortStrings codec := by
  refine @JsonCodec.ShortStrings.mk codec fun fields => ?_
  have printed : @JsonCodec.bytes codec (.object (fields.map fun field => (field.1, .string field.2))) =
      ByteCodec.utf8 (toText (.object (fields.map fun field => (field.1, .string field.2)))) := rfl
  have punctuation : ∀ d ∈ ['{', ':', '}'], d.utf8Size = 1 := by simp [utf8Size_ascii]
  rw [printed, ByteCodec.length_utf8, toText, String.utf8ByteSize_ofList]
  cases fields with
  | nil => simp [print, punctuation]
  | cons field fields =>
    have name := utf8Len_printString field.1
    have value := utf8Len_printString field.2
    have rest := utf8Len_printFields fields
    simp only [map_cons, print, String.utf8Len_cons, String.utf8Len_append, sum_cons,
      punctuation _ (mem_cons_self), punctuation ':' (by simp)]
    omega

end

def firstValue (bytes : ByteCodec.Bytes) : Except String Json := match ByteCodec.fromUtf8 bytes with
  | none => .error "invalid unicode code point"
  | some text =>
    match parse text.toList.length text.toList with
    | some (value, _) => .ok value
    | none => .error "expected value"

theorem firstValue_of_ofSlice {bytes : ByteCodec.Bytes} {value : Json}
    (read : @JsonCodec.ofSlice codec bytes = .ok value) : firstValue bytes = .ok value := by
  unfold JsonCodec.ofSlice at read
  rw [firstValue]
  cases hf : ByteCodec.fromUtf8 bytes with
  | none =>
    rw [hf] at read
    cases read
  | some text =>
    rw [hf] at read
    have hp : ofText text = .ok value := read
    rw [ofText] at hp
    split at hp
    · rename_i hw
      cases hp
      simp only [hw]
    · cases hp

@[reducible] def streaming : @JsonCodec.Streaming codec := @JsonCodec.Streaming.mk codec firstValue firstValue_of_ofSlice

end Json.Text
