import AdmissionControl.Word

/-!
# Places in a document

What is said about a document may end in the place that it is about, as in `too long at line 3 column 14`.
Lines and columns are counted from one in machine words, so a place on line zero is nowhere in the document.
-/

namespace AdmissionControl
namespace Json

/-- A place in a document. -/
structure Place where
  /-- The number of the line; nowhere if it is zero. -/
  line : Nat
  /-- The number of the column. -/
  column : Nat
  deriving DecidableEq, Repr

namespace Place

/-- The words before the number of a line. -/
def lineWords : List Char := " at line ".toList

/-- The words between the number of a line and that of a column. -/
def columnWords : List Char := " column ".toList

/-- A place at the end of a text. -/
def chars (p : Place) : List Char :=
  lineWords ++ Nat.toDigits 10 p.line ++ columnWords ++ Nat.toDigits 10 p.column

/-- The number at the front of a reversed text, last digit first, and the rest. -/
def number? (reversed : List Char) : Option (Nat × List Char) :=
  let digits := reversed.takeWhile Char.isDigit
  let value := digits.foldr (fun c n => n * 10 + (c.toNat - '0'.toNat)) 0
  if digits.isEmpty || Word.max < value then none
  else some (value, reversed.dropWhile Char.isDigit)

/-- The rest of a reversed text that begins with the reversed words. -/
def after? (words reversed : List Char) : Option (List Char) :=
  if words.reverse.isPrefixOf reversed then some (reversed.drop words.length) else none

/-- A text that ends in a place, as what stands before the place and the place. -/
def split? (text : List Char) : Option (List Char × Place) :=
  match number? text.reverse with
  | none => none
  | some (column, rest) =>
      match (after? columnWords rest).bind number? with
      | none => none
      | some (line, rest) =>
          (after? lineWords rest).map fun rest => (rest.reverse, ⟨line, column⟩)

/-- A text with its place, if it names one, written in plain numbers; a place that is nowhere is left out. -/
def restate (text : String) : String :=
  match split? text.toList with
  | none => text
  | some (rest, place) => String.ofList (if place.line = 0 then rest else rest ++ place.chars)

end Place
end Json
end AdmissionControl
