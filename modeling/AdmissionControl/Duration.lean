/-!
# Lengths of time

A duration counts nanoseconds.  Most durations are whole milliseconds (`ofMillis`); the clock only ever
sees the whole milliseconds of one (`millis`).  In messages a duration is written in the largest unit
that has a whole part, with the fraction cut after its last non-zero digit.

* `millis_ofMillis`: whole milliseconds survive.
-/

namespace AdmissionControl

/-- A length of time in nanoseconds. -/
structure Duration where
  /-- The number of nanoseconds. -/
  nanos : Nat
  deriving DecidableEq, Repr

namespace Duration

/-- No time at all. -/
def zero : Duration := ⟨0⟩

/-- So many milliseconds. -/
def ofMillis (n : Nat) : Duration := ⟨n * 1000000⟩

/-- So many seconds and nanoseconds. -/
def ofParts (seconds nanos : Nat) : Duration := ⟨seconds * 1000000000 + nanos⟩

/-- The whole milliseconds of a duration. -/
def millis (d : Duration) : Nat := d.nanos / 1000000

/-- The milliseconds of a duration, a begun one counted as whole. -/
def ceilMillis (d : Duration) : Nat := (d.nanos + 999999) / 1000000

/-- The longer of two durations. -/
def max (a b : Duration) : Duration := if a.nanos ≤ b.nanos then b else a

@[simp] theorem millis_ofMillis (n : Nat) : (ofMillis n).millis = n :=
  Nat.mul_div_cancel n (by decide)

@[simp] theorem ceilMillis_ofMillis (n : Nat) : (ofMillis n).ceilMillis = n := by
  simp only [ofMillis, ceilMillis]
  omega

theorem max_eq_left {a b : Duration} (h : b.nanos < a.nanos) : a.max b = a :=
  if_neg (Nat.not_le.2 h)

/-! ## As text -/

/-- The digits after the point: `width` digits of `n`, without the zeros at the end. -/
def fraction (n width : Nat) : List Char :=
  let digits := Nat.toDigits 10 n
  ((List.replicate (width - digits.length) '0' ++ digits).reverse.dropWhile (· == '0')).reverse

/-- A whole part and a fraction of `width` digits, with the name of the unit. -/
def inUnit (whole part width : Nat) (unit : String) : String :=
  let whole := String.ofList (Nat.toDigits 10 whole)
  if part = 0 then whole ++ unit
  else whole ++ "." ++ String.ofList (fraction part width) ++ unit

/-- The text of a duration in messages: the largest of `s`, `ms`, `µs` and `ns` with a whole part. -/
def text (d : Duration) : String :=
  let n := d.nanos
  if 1000000000 ≤ n then inUnit (n / 1000000000) (n % 1000000000) 9 "s"
  else if 1000000 ≤ n then inUnit (n / 1000000) (n % 1000000) 6 "ms"
  else if 1000 ≤ n then inUnit (n / 1000) (n % 1000) 3 "µs"
  else inUnit n 0 0 "ns"

end Duration
end AdmissionControl
