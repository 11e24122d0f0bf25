import AdmissionControl.Decimal.Numeral

/-!
# JSON values

A JSON value keeps what was written: numbers as numerals, the members of an object in their order with all
repetitions.  A string may name half of a surrogate pair, which no text can hold; such a string is kept as
an unreadable one, so that it does no harm where nobody asks for it.
-/

namespace AdmissionControl

/-- A JSON value as it was written. -/
inductive Json
  /-- The value `null`. -/
  | null
  /-- A truth value. -/
  | bool (value : Bool)
  /-- A number. -/
  | number (numeral : Numeral)
  /-- A string, nothing if it is unreadable. -/
  | string (text : Option String)
  /-- An array. -/
  | array (items : List Json)
  /-- An object with its members in their order. -/
  | object (members : List (Option String × Json))
  deriving Repr

namespace Json

/-- The value of a text. -/
def ofString (s : String) : Json := string (some s)

/-- The value of a natural number. -/
def ofNat (n : Nat) : Json := number (.ofNat n)

/-- The value of a list of named members. -/
def ofMembers (members : List (String × Json)) : Json :=
  object (members.map fun m => (some m.1, m.2))

/-- The text of a readable string. -/
def text? : Json → Option String
  | string text => text
  | _ => none

/-- The natural number of a number that is nothing but digits. -/
def nat? : Json → Option Nat
  | number n => n.toNat?
  | _ => none

/-- The value of the last member of a name. -/
def member? (name : String) : Json → Option Json
  | object members => (members.reverse.find? fun m => m.1 == some name).map Prod.snd
  | _ => none

end Json
end AdmissionControl
