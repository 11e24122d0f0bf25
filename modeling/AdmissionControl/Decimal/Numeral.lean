/-!
# Decimal numerals and the doubles they stand for

A numeral is a number as it was written: sign, digits before and after the point, and an exponent.  Two
readings of a numeral as a double are in use.

* `Numeral.toFloat?` is the quick reading of documents: as many digits as fit a word make a whole number,
  which is then multiplied or divided by a power of ten.  A number too large for a double is refused.
* `Numeral.nearest` is the exact reading: the double nearest to the number, infinite if it is too large.
-/

namespace AdmissionControl

/-- A number as it was written. -/
structure Numeral where
  /-- Whether a minus sign comes first. -/
  negative : Bool
  /-- The digits before the point. -/
  whole : List Char
  /-- The digits after the point, none if there is no point. -/
  fraction : List Char
  /-- The exponent, if one was written. -/
  exponent : Option Int
  deriving DecidableEq, Repr

namespace Numeral

/-- The value of a digit. -/
def digit (c : Char) : Nat := c.toNat - '0'.toNat

/-- The value of a row of digits. -/
def value (digits : List Char) : Nat := digits.foldl (fun n c => n * 10 + digit c) 0

/-- The numeral of a natural number. -/
def ofNat (n : Nat) : Numeral := ⟨false, Nat.toDigits 10 n, [], none⟩

/-- The natural number of a numeral that is nothing but digits. -/
def toNat? (n : Numeral) : Option Nat :=
  if n.negative = false ∧ n.fraction = [] ∧ n.exponent = none then some (value n.whole) else none

/-! ## The quick reading -/

/-- Takes digits as long as the number stays below `2 ^ 64`: the number, and the digits left. -/
def takeWord : List Char → Nat → Nat × List Char
  | [], n => (n, [])
  | c :: rest, n =>
      if n * 10 + digit c < UInt64.size then takeWord rest (n * 10 + digit c) else (n, c :: rest)

/-- A power of ten as a double. -/
def powerOfTen (e : Nat) : Float := Float.ofScientific 1 false e

/-- A double times a power of ten, by steps that stay in the range of doubles; nothing if the product is
too large.  Three steps are enough: after two steps down the double is zero. -/
def scale : Nat → Float → Int → Option Float
  | 0, f, _ => some f
  | n + 1, f, e =>
      if e.natAbs ≤ 308 then
        if 0 ≤ e then
          let g := f * powerOfTen e.natAbs
          if g.isInf then none else some g
        else some (f / powerOfTen e.natAbs)
      else if f == 0 then some f
      else if 0 ≤ e then none
      else scale n (f / powerOfTen 308) (e + 308)

/-- The quick reading: the digits after those that fit a word count for nothing but, before the point,
their number. -/
def toFloat? (n : Numeral) : Option Float :=
  let (significand, dropped) := takeWord n.whole 0
  let (significand, unread) := takeWord n.fraction significand
  let read := n.fraction.length - unread.length
  let e := (dropped.length : Int) - read + n.exponent.getD 0
  (scale 4 (Float.ofNat significand) e).map fun f => if n.negative then -f else f

/-! ## The exact reading -/

/-- The double nearest to a number. -/
def nearest (n : Numeral) : Float :=
  let significand := value (n.whole ++ n.fraction)
  let e := n.exponent.getD 0 - n.fraction.length
  -- no double reaches a number of more than 400 digits, or one whose first digit comes after 400 zeros
  let size := e + (Nat.toDigits 10 significand).length
  let magnitude : Float :=
    if significand = 0 ∨ size < -400 then 0
    else if 400 < size then 1 / 0
    else Float.ofScientific significand (e < 0) e.natAbs
  if n.negative then -magnitude else magnitude

/-! ## Reading a text -/

/-- Splits off the sign of a number. -/
def takeSign : List Char → Bool × List Char
  | '-' :: rest => (true, rest)
  | '+' :: rest => (false, rest)
  | s => (false, s)

/-- The number of a text that is nothing but an exponent's sign and digits. -/
def exponentOf? (s : List Char) : Option Int :=
  let (negative, digits) := takeSign s
  if digits.isEmpty || !digits.all Char.isDigit then none
  else some (if negative then -(value digits : Int) else value digits)

/-- The numeral of a text: a sign, digits with or without a point, at least one of them, and maybe an
exponent. -/
def ofChars? (s : List Char) : Option Numeral :=
  let (negative, s) := takeSign s
  let whole := s.takeWhile Char.isDigit
  let s := s.dropWhile Char.isDigit
  let (fraction, s) :=
    match s with
    | '.' :: rest => (rest.takeWhile Char.isDigit, rest.dropWhile Char.isDigit)
    | _ => ([], s)
  if whole.isEmpty && fraction.isEmpty then none
  else
    match s with
    | [] => some ⟨negative, whole, fraction, none⟩
    | c :: rest =>
        if c.toLower = 'e' then (exponentOf? rest).map fun e => ⟨negative, whole, fraction, some e⟩
        else none

end Numeral

namespace Decimal

/-- The double of a text: a numeral, or the words for what is infinite or no number, in any case. -/
def read? (s : String) : Option Float :=
  let (negative, word) := Numeral.takeSign (s.toList.map Char.toLower)
  let signed (x : Float) : Float := if negative then -x else x
  if word = ['n', 'a', 'n'] then some (signed (0 / 0))
  else if word = ['i', 'n', 'f'] ∨ word = ['i', 'n', 'f', 'i', 'n', 'i', 't', 'y'] then
    some (signed (1 / 0))
  else (Numeral.ofChars? s.toList).map Numeral.nearest

end Decimal
end AdmissionControl
