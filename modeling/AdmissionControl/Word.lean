/-!
# Counters in a machine word

Times, counters and levels are natural numbers, but each of them is kept in a word of 64 bits.  Where a
sum can leave the word, the rule that applies is named here: it either stops at the largest word
(`saturate`) or starts again from zero (`wrap`).  Both are the identity below the bound.

Three kinds of counters have neither rule, since they start at zero or one and only one is added at a time: the
counts of the metrics, the version of the settings and the version of a slot.  They stay within the word for as
many events as a word counts, and the results about runs say so where they give their value.
-/

namespace AdmissionControl
namespace Word

/-- The largest number a word holds: sixty-four ones. -/
def max : Nat := 0xFFFFFFFFFFFFFFFF

/-- A sum that stops at the largest word. -/
def saturate (n : Nat) : Nat := min n max

/-- A sum that drops what does not fit the word. -/
def wrap (n : Nat) : Nat := n % (max + 1)

theorem saturate_le (n : Nat) : saturate n ≤ max := Nat.min_le_right ..

theorem saturate_le_self (n : Nat) : saturate n ≤ n := Nat.min_le_left ..

theorem saturate_of_le {n : Nat} (h : n ≤ max) : saturate n = n := Nat.min_eq_left h

theorem wrap_of_le {n : Nat} (h : n ≤ max) : wrap n = n := Nat.mod_eq_of_lt (Nat.lt_succ_of_le h)

end Word

theorem pos_max_one (n : Nat) : 0 < max n 1 := Nat.le_max_right n 1

end AdmissionControl
