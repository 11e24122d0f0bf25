/-!
# The shortest decimal text of a double

A finite double stands for a binary fraction, and every real number close enough to it reads back as that
double.  The text of a double uses the coarsest decimal grid that has a point in this interval, and on
that grid the nearer of the two points around the value.  The value may lie in the middle between the two;
then a `Tie` decides.  How the digits are laid out is a separate matter: `Layout` says up to which size a
number is written without an exponent, whether a whole number keeps its point, and how ties are decided.
-/

namespace AdmissionControl
namespace Decimal

/-! ## The interval of a double -/

/-- A finite double without its sign: the number `mantissa · 2 ^ exponent`. -/
structure Binary where
  /-- The significand as a whole number. -/
  mantissa : Nat
  /-- The power of two. -/
  exponent : Int
  deriving DecidableEq, Repr

namespace Binary

/-- The leading bit of the significand of a normal double; it is not among the stored bits. -/
def leadingBit : Nat := 0x10000000000000

/-- The magnitude of a finite double. -/
def ofFloat (x : Float) : Binary :=
  let bits := x.toBits.toNat
  let fraction : Nat := bits % leadingBit
  let field : Nat := bits / leadingBit % 2048
  if field = 0 then ⟨fraction, -1074⟩ else ⟨fraction + leadingBit, (field : Int) - 1075⟩

/-- Whether the double below is only half as far away as the double above. -/
def isNarrowBelow (b : Binary) : Bool := b.mantissa = leadingBit && -1074 < b.exponent

/-- The value in quarters of its last binary place. -/
def quarters (b : Binary) : Nat := 4 * b.mantissa

/-- The lower end of the interval, in the same quarters. -/
def low (b : Binary) : Nat := b.quarters - if b.isNarrowBelow then 1 else 2

/-- The upper end of the interval, in the same quarters. -/
def high (b : Binary) : Nat := b.quarters + 2

/-- A quarter of the last binary place as a fraction: numerator and denominator. -/
def quarter (b : Binary) : Nat × Nat :=
  if 0 ≤ b.exponent then (Nat.pow 2 b.exponent.toNat, 4)
  else (1, 4 * Nat.pow 2 (-b.exponent).toNat)

end Binary

/-! ## Points of a decimal grid -/

/-- The number `digits · 10 ^ exponent`. -/
structure Scaled where
  /-- The digits as a whole number. -/
  digits : Nat
  /-- The power of ten. -/
  exponent : Int
  deriving DecidableEq, Repr

/-- A power of ten as a fraction: numerator and denominator. -/
def powerOfTen (e : Int) : Nat × Nat :=
  if 0 ≤ e then (Nat.pow 10 e.toNat, 1) else (1, Nat.pow 10 (-e).toNat)

/-- Whether `point · 10 ^ e` reads back as the double, given both in a common denominator: `ten` for one
step of the grid and `two` for a quarter.  The ends of the interval read back if the mantissa is even. -/
def readsBack (b : Binary) (ten two point : Nat) : Bool :=
  let value := point * ten
  if b.mantissa % 2 = 0 then b.low * two ≤ value && value ≤ b.high * two
  else b.low * two < value && value < b.high * two

/-- Which of two points stands for a value in the middle between them. -/
inductive Tie
  /-- The one whose last digit is even. -/
  | even
  /-- The one farther from zero. -/
  | up
  deriving DecidableEq, Repr

/-- Whether the lower of two points wins a tie. -/
def Tie.takesBelow (below : Nat) : Tie → Bool
  | even => below % 2 = 0
  | up => false

/-- The point of the grid of `10 ^ e` that stands for the double: of the two points around the value one
that reads back, the nearer if both do. -/
def pointAt? (tie : Tie) (b : Binary) (e : Int) : Option Nat :=
  let ten := (powerOfTen e).1 * b.quarter.2
  let two := b.quarter.1 * (powerOfTen e).2
  let value := b.quarters * two
  let below := value / ten
  let rest := 2 * (value % ten)
  let above := below + 1
  match decide (0 < below) && readsBack b ten two below, readsBack b ten two above with
  | true, true =>
      some (if rest < ten ∨ (rest = ten ∧ tie.takesBelow below) then below else above)
  | true, false => some below
  | false, true => some above
  | false, false => none

/-- The first point found on `n` grids, each ten times finer than the one before. -/
def firstPoint (tie : Tie) (b : Binary) : Nat → Int → Scaled
  | 0, e => ⟨b.quarters * b.quarter.1 * (powerOfTen e).2 / (b.quarter.2 * (powerOfTen e).1), e⟩
  | n + 1, e =>
      match pointAt? tie b e with
      | some point => ⟨point, e⟩
      | none => firstPoint tie b n (e - 1)

/-- The shortest decimal that reads back as a positive double.  No double reaches `10 ^ 309`, and on the
grid of `10 ^ -345` every double has a point. -/
def shortest (tie : Tie) (b : Binary) : Scaled := firstPoint tie b 654 309

/-! ## Layout -/

/-- How the digits of a number are laid out. -/
structure Layout where
  /-- The most digits before the point of a number without an exponent, if there is a bound. -/
  widest : Option Nat
  /-- The most zeros after the point of a number without an exponent, if there is a bound. -/
  deepest : Option Nat
  /-- Whether a whole number ends in a point and a zero. -/
  keepsPoint : Bool
  /-- How ties between two shortest texts are decided. -/
  tie : Tie
  deriving DecidableEq, Repr

namespace Layout

/-- Numbers in messages have no exponent, and whole numbers no point; ties go up. -/
def plain : Layout := ⟨none, none, false, .up⟩

/-- Numbers in documents have an exponent from `10 ^ 16` on, and whole numbers keep a point; ties go to the
even digit. -/
def document : Layout := ⟨some 16, some 4, true, .even⟩

/-- Whether a number with the point after `point` digits is written without an exponent. -/
def isPositional (l : Layout) (point : Int) : Bool :=
  l.widest.all (fun w => decide (point ≤ (w : Int))) &&
    l.deepest.all (fun d => decide (-(d : Int) ≤ point))

end Layout

/-- The text of an exponent. -/
def exponentText (e : Int) : List Char :=
  if 0 ≤ e then 'e' :: '+' :: Nat.toDigits 10 e.toNat else 'e' :: '-' :: Nat.toDigits 10 (-e).toNat

/-- The text of a positive number in a layout. -/
def Scaled.chars (l : Layout) (s : Scaled) : List Char :=
  let digits := Nat.toDigits 10 s.digits
  let point : Int := s.exponent + digits.length
  if l.isPositional point then
    if 0 ≤ s.exponent then
      digits ++ List.replicate s.exponent.toNat '0' ++ if l.keepsPoint then ['.', '0'] else []
    else if 0 < point then digits.take point.toNat ++ '.' :: digits.drop point.toNat
    else '0' :: '.' :: (List.replicate (-point).toNat '0' ++ digits)
  else
    match digits with
    | first :: second :: rest => first :: '.' :: second :: rest ++ exponentText (point - 1)
    | _ => digits ++ exponentText (point - 1)

/-- The bit of a negative double's sign. -/
def signBit : Nat := 0x8000000000000000

/-- The text of a double in a layout. -/
def text (l : Layout) (x : Float) : String :=
  if x.isNaN then "NaN"
  else
    let sign := if x.toBits.toNat < signBit then [] else ['-']
    let magnitude :=
      if x.isInf then ['i', 'n', 'f']
      else
        let b := Binary.ofFloat x
        if b.mantissa = 0 then '0' :: if l.keepsPoint then ['.', '0'] else []
        else (shortest l.tie b).chars l
    String.ofList (sign ++ magnitude)

end Decimal
end AdmissionControl
