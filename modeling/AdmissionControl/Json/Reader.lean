import AdmissionControl.Json.Basic

/-!
# Reading JSON

A reader takes characters from the front and hands on the rest.  Values may be nested as deep as they like:
of any two calls in a row one takes a character, so twice the number of characters bounds the run.
-/

namespace AdmissionControl
namespace Json

/-- The characters that may stand between the parts of a value. -/
def isSpace (c : Char) : Bool := c = ' ' || c = '\n' || c = '\t' || c = '\r'

/-- The rest after spaces. -/
def skipSpace (s : List Char) : List Char := s.dropWhile isSpace

/-! ## Strings -/

/-- The value of a hexadecimal digit. -/
def hexDigit? (c : Char) : Option Nat :=
  if '0' ≤ c ∧ c ≤ '9' then some (c.toNat - '0'.toNat)
  else if 'a' ≤ c ∧ c ≤ 'f' then some (c.toNat - 'a'.toNat + 10)
  else if 'A' ≤ c ∧ c ≤ 'F' then some (c.toNat - 'A'.toNat + 10)
  else none

/-- The number of four hexadecimal digits. -/
def hexUnit? (a b c d : Char) : Option Nat :=
  match hexDigit? a, hexDigit? b, hexDigit? c, hexDigit? d with
  | some a, some b, some c, some d => some (((a * 16 + b) * 16 + c) * 16 + d)
  | _, _, _, _ => none

/-- The character of an escape with one letter. -/
def escaped? : Char → Option Char
  | '"' => some '"'
  | '\\' => some '\\'
  | '/' => some '/'
  | 'b' => some '\x08'
  | 'f' => some '\x0c'
  | 'n' => some '\n'
  | 'r' => some '\r'
  | 't' => some '\t'
  | _ => none

/-- The code units of a string up to its closing quote, and the rest after it.  A character that is written
out counts as one unit. -/
def units? : List Char → Option (List Nat × List Char)
  | [] => none
  | '"' :: rest => some ([], rest)
  | '\\' :: 'u' :: a :: b :: c :: d :: rest =>
      match hexUnit? a b c d, units? rest with
      | some unit, some (units, rest) => some (unit :: units, rest)
      | _, _ => none
  | '\\' :: e :: rest =>
      match escaped? e, units? rest with
      | some c, some (units, rest) => some (c.toNat :: units, rest)
      | _, _ => none
  | c :: rest =>
      if c = '\\' ∨ c.toNat < 0x20 then none
      else (units? rest).map fun r => (c.toNat :: r.1, r.2)

/-- The characters of code units; nothing if half of a surrogate pair stands alone. -/
def join? : List Nat → Option (List Char)
  | [] => some []
  | high :: low :: rest =>
      if 0xD800 ≤ high ∧ high < 0xDC00 then
        if 0xDC00 ≤ low ∧ low < 0xE000 then
          (join? rest).map
            (Char.ofNat (0x10000 + (high - 0xD800) * 0x400 + (low - 0xDC00)) :: ·)
        else none
      else if 0xDC00 ≤ high ∧ high < 0xE000 then none
      else (join? (low :: rest)).map (Char.ofNat high :: ·)
  | [unit] => if 0xD800 ≤ unit ∧ unit < 0xE000 then none else some [Char.ofNat unit]

/-- A string after its opening quote, and the rest. -/
def string? (s : List Char) : Option (Option String × List Char) :=
  (units? s).map fun r => ((join? r.1).map String.ofList, r.2)

/-! ## Numbers -/

/-- Digits, at least one, and the rest. -/
def digits? (s : List Char) : Option (List Char × List Char) :=
  let digits := s.takeWhile Char.isDigit
  if digits.isEmpty then none else some (digits, s.dropWhile Char.isDigit)

/-- The digits before the point: no zero comes first unless it stands alone. -/
def whole? : List Char → Option (List Char × List Char)
  | '0' :: rest => if (rest.head?.any Char.isDigit) then none else some (['0'], rest)
  | s => digits? s

/-- The digits after a point, if there is a point. -/
def fraction? : List Char → Option (List Char × List Char)
  | '.' :: rest => digits? rest
  | s => some ([], s)

/-- An exponent, if there is one. -/
def exponent? : List Char → Option (Option Int × List Char)
  | c :: rest =>
      if c = 'e' ∨ c = 'E' then
        let (negative, rest) := Numeral.takeSign rest
        (digits? rest).map fun r =>
          let n : Int := Numeral.value r.1
          (some (if negative then -n else n), r.2)
      else some (none, c :: rest)
  | [] => some (none, [])

/-- A number and the rest. -/
def numeral? (s : List Char) : Option (Numeral × List Char) :=
  let (negative, s) :=
    match s with
    | '-' :: rest => (true, rest)
    | s => (false, s)
  match whole? s with
  | none => none
  | some (whole, s) =>
      match fraction? s with
      | none => none
      | some (fraction, s) =>
          (exponent? s).map fun r => (⟨negative, whole, fraction, r.1⟩, r.2)

/-! ## Values -/

mutual

/-- A value and the rest; spaces before the value do not count. -/
def value? : Nat → List Char → Option (Json × List Char)
  | 0, _ => none
  | n + 1, s =>
      match skipSpace s with
      | 'n' :: 'u' :: 'l' :: 'l' :: rest => some (null, rest)
      | 't' :: 'r' :: 'u' :: 'e' :: rest => some (bool true, rest)
      | 'f' :: 'a' :: 'l' :: 's' :: 'e' :: rest => some (bool false, rest)
      | '"' :: rest => (string? rest).map fun r => (string r.1, r.2)
      | '[' :: rest =>
          match skipSpace rest with
          | ']' :: rest => some (array [], rest)
          | rest => (items? n rest).map fun r => (array r.1, r.2)
      | '\x7b' :: rest =>
          match skipSpace rest with
          | '\x7d' :: rest => some (object [], rest)
          | rest => (members? n rest).map fun r => (object r.1, r.2)
      | rest => (numeral? rest).map fun r => (number r.1, r.2)

/-- The items of an array, at least one, up to its closing bracket. -/
def items? : Nat → List Char → Option (List Json × List Char)
  | 0, _ => none
  | n + 1, s =>
      match value? n s with
      | none => none
      | some (item, s) =>
          match skipSpace s with
          | ']' :: rest => some ([item], rest)
          | ',' :: rest => (items? n rest).map fun r => (item :: r.1, r.2)
          | _ => none

/-- The members of an object, at least one, up to its closing brace. -/
def members? : Nat → List Char → Option (List (Option String × Json) × List Char)
  | 0, _ => none
  | n + 1, s =>
      match skipSpace s with
      | '"' :: s =>
          match string? s with
          | none => none
          | some (name, s) =>
              match skipSpace s with
              | ':' :: s =>
                  match value? n s with
                  | none => none
                  | some (value, s) =>
                      match skipSpace s with
                      | '\x7d' :: rest => some ([(name, value)], rest)
                      | ',' :: rest => (members? n rest).map fun r => ((name, value) :: r.1, r.2)
                      | _ => none
              | _ => none
      | _ => none

end

/-- The value at the front of a text, and the rest. -/
def front? (s : List Char) : Option (Json × List Char) := value? (2 * s.length + 2) s

/-- The value that a text consists of, with nothing but spaces around it. -/
def read? (s : String) : Option Json :=
  match front? s.toList with
  | some (value, rest) => if (skipSpace rest).isEmpty then some value else none
  | none => none

end Json
end AdmissionControl
