import AdmissionControl.Json.Basic

/-!
# Writing JSON

Two layouts: the wide one of documents, with a line for each item and member and two spaces for each level,
and the narrow one of messages, on one line and in ASCII alone.
-/

namespace AdmissionControl
namespace Json

/-! ## Strings and numbers -/

/-- A hexadecimal digit. -/
def hexChar (n : Nat) : Char := Nat.digitChar (n % 16)

/-- A code unit as an escape with four digits. -/
def unitEscape (n : Nat) : List Char :=
  ['\\', 'u', hexChar (n / 4096), hexChar (n / 256), hexChar (n / 16), hexChar n]

/-- A character outside ASCII as one escape, or as two for a surrogate pair. -/
def wideEscape (c : Char) : List Char :=
  if c.toNat < 0x10000 then unitEscape c.toNat
  else
    let n := c.toNat - 0x10000
    unitEscape (0xD800 + n / 0x400) ++ unitEscape (0xDC00 + n % 0x400)

/-- One character inside quotes; outside ASCII it is written out or, for `ascii`, escaped. -/
def quotedChar (ascii : Bool) (c : Char) : List Char :=
  if c = '"' then ['\\', '"']
  else if c = '\\' then ['\\', '\\']
  else if c = '\x08' then ['\\', 'b']
  else if c = '\x0c' then ['\\', 'f']
  else if c = '\n' then ['\\', 'n']
  else if c = '\r' then ['\\', 'r']
  else if c = '\t' then ['\\', 't']
  else if c.toNat < 0x20 then unitEscape c.toNat
  else if ascii && 0x7E < c.toNat then wideEscape c
  else [c]

/-- A text in quotes. -/
def quoted (ascii : Bool) (s : String) : String :=
  String.ofList ('"' :: s.toList.flatMap (quotedChar ascii) ++ ['"'])

/-- The text of an exponent. -/
def exponentText : Option Int → List Char
  | none => []
  | some e =>
      if 0 ≤ e then 'e' :: '+' :: Nat.toDigits 10 e.natAbs
      else 'e' :: '-' :: Nat.toDigits 10 e.natAbs

/-- The text of a number. -/
def numeralText (n : Numeral) : String :=
  String.ofList ((if n.negative then ['-'] else []) ++ n.whole ++
    (if n.fraction.isEmpty then [] else '.' :: n.fraction) ++ exponentText n.exponent)

/-- The text of a string; an unreadable one leaves nothing to write. -/
def stringText (ascii : Bool) (s : Option String) : String := quoted ascii (s.getD "")

/-! ## The narrow layout -/

mutual

/-- The value on one line, in ASCII. -/
def compact : Json → String
  | null => "null"
  | bool true => "true"
  | bool false => "false"
  | number n => numeralText n
  | string s => stringText true s
  | array items => "[" ++ ",".intercalate (compactItems items) ++ "]"
  | object members => "\x7b" ++ ",".intercalate (compactMembers members) ++ "\x7d"

/-- The items of an array. -/
def compactItems : List Json → List String
  | [] => []
  | item :: rest => compact item :: compactItems rest

/-- The members of an object. -/
def compactMembers : List (Option String × Json) → List String
  | [] => []
  | (name, value) :: rest =>
      (stringText true name ++ ":" ++ compact value) :: compactMembers rest

end

/-! ## The wide layout -/

/-- A new line at a depth. -/
def newLine (depth : Nat) : String := "\n" ++ String.ofList (List.replicate (2 * depth) ' ')

mutual

/-- The value with a line for each item and member; its own parts are one level deeper than `depth`. -/
def prettyAt (depth : Nat) : Json → String
  | null => "null"
  | bool true => "true"
  | bool false => "false"
  | number n => numeralText n
  | string s => stringText false s
  | array [] => "[]"
  | array items =>
      "[" ++ ",".intercalate (prettyItems (depth + 1) items) ++ newLine depth ++ "]"
  | object [] => "\x7b\x7d"
  | object members =>
      "\x7b" ++ ",".intercalate (prettyMembers (depth + 1) members) ++ newLine depth ++ "\x7d"

/-- The items of an array, each on its own line. -/
def prettyItems (depth : Nat) : List Json → List String
  | [] => []
  | item :: rest => (newLine depth ++ prettyAt depth item) :: prettyItems depth rest

/-- The members of an object, each on its own line. -/
def prettyMembers (depth : Nat) : List (Option String × Json) → List String
  | [] => []
  | (name, value) :: rest =>
      (newLine depth ++ stringText false name ++ ": " ++ prettyAt depth value) ::
        prettyMembers depth rest

end

/-- The value in the layout of documents. -/
def pretty (j : Json) : String := prettyAt 0 j

end Json
end AdmissionControl
