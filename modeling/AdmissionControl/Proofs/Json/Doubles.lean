import AdmissionControl.Decimal.Shortest
import AdmissionControl.Proofs.Json.Scalars

/-!
# The numbers that doubles are written as

Documents demand that no needless zero stands at the front of a number.  The text of a double keeps to that, since the
shortest decimal of a double has a digit that is not zero, or else a place for it after the point.

* `Decimal.firstPoint_pos` — the decimal found for a double.
* `Decimal.Scaled.exists_whole` — its text, with or without an exponent, begins with a whole number.
* `Decimal.proper_of_text` — **what a double is written as is a proper number**, if it is a number at all.
-/

namespace AdmissionControl

/-! ## The decimal of a double -/

namespace Decimal

theorem pointAt?_pos {tie : Tie} {b : Binary} {e : Int} {point : Nat} (h : pointAt? tie b e = some point) :
    0 < point := by
  unfold pointAt? at h
  dsimp only at h
  split at h
  · rename_i hbelow _
    rw [Bool.and_eq_true] at hbelow
    have hpos := of_decide_eq_true hbelow.1
    obtain rfl := Option.some.inj h
    split <;> omega
  · rename_i hbelow _
    rw [Bool.and_eq_true] at hbelow
    have hpos := of_decide_eq_true hbelow.1
    obtain rfl := Option.some.inj h
    exact hpos
  · obtain rfl := Option.some.inj h
    exact Nat.succ_pos _
  · cases h

/-- The decimal found on some grid has a digit that is not zero; on the last grid, it need not. -/
theorem firstPoint_pos (tie : Tie) (b : Binary) (n : Nat) (e : Int) :
    0 < (firstPoint tie b n e).digits ∨ (firstPoint tie b n e).exponent = e - n := by
  induction n generalizing e with
  | zero =>
      right
      simp [firstPoint]
  | succ n ih =>
      rw [firstPoint]
      split
      · rename_i point hpoint
        exact .inl (pointAt?_pos hpoint)
      · have hrest := ih (e - 1)
        omega

/-- The shortest decimal of a double has a digit that is not zero, or a place for it after the point. -/
theorem shortest_pos (tie : Tie) (b : Binary) : 0 < (shortest tie b).digits ∨ (shortest tie b).exponent < 0 := by
  have hpoint := firstPoint_pos tie b 654 309
  rw [shortest]
  omega

/-! ## Its text -/

theorem whole_take {digits : List Char} (h : Numeral.Whole digits) {n : Nat} (hn : 0 < n) :
    Numeral.Whole (digits.take n) := by
  obtain ⟨n, rfl⟩ : ∃ k, n = k + 1 := ⟨n - 1, by omega⟩
  cases digits with
  | nil => exact absurd rfl h.ne_nil
  | cons c rest =>
      refine ⟨fun d hd => h.isDigit d (List.mem_of_mem_take hd), by simp, fun tail htail => ?_⟩
      rw [List.take_succ_cons, List.cons.injEq] at htail
      obtain ⟨rfl, rfl⟩ := htail
      simp [h.head_zero rest rfl]

theorem whole_append_zeros {digits : List Char} (h : Numeral.Whole digits) (hhead : digits.head? ≠ some '0') (n : Nat) :
    Numeral.Whole (digits ++ List.replicate n '0') := by
  cases digits with
  | nil => exact absurd rfl h.ne_nil
  | cons c rest =>
      refine ⟨fun d hd => ?_, by simp, fun tail htail => ?_⟩
      · rcases List.mem_append.1 hd with hd | hd
        · exact h.isDigit d hd
        · rw [List.eq_of_mem_replicate hd]
          rfl
      · rw [List.cons_append, List.cons.injEq] at htail
        exact absurd (congrArg some htail.1) hhead

theorem ends_cons {c : Char} (hc : c.isDigit = false) (s : List Char) : Json.Ends (c :: s) := by
  rintro _ ⟨⟩
  exact hc

theorem ends_exponentText (e : Int) : Json.Ends (exponentText e) := by
  unfold exponentText
  split <;> exact ends_cons (by decide) _

/-- The text of a decimal begins with a whole number. -/
theorem Scaled.exists_whole {s : Scaled} (hs : 0 < s.digits ∨ s.exponent < 0) :
    ∃ whole rest, s.chars .document = whole ++ rest ∧ Numeral.Whole whole ∧ Json.Ends rest := by
  have hdigits := Numeral.whole_toDigits s.digits
  unfold chars
  dsimp only
  split
  · split
    · rename_i hexponent
      refine ⟨_, ['.', '0'], rfl, ?_, ends_cons (by decide) _⟩
      apply whole_append_zeros hdigits
      apply Numeral.head?_toDigits
      omega
    · split
      · rename_i hpoint
        exact ⟨_, _, rfl, whole_take hdigits (by omega), ends_cons (by decide) _⟩
      · exact ⟨['0'], _, rfl, Numeral.whole_toDigits 0, ends_cons (by decide) _⟩
  · split
    · rename_i first second rest hfirst
      have hone := whole_take hdigits (n := 1) (by decide)
      rw [hfirst] at hone
      exact ⟨[first], _, rfl, hone, ends_cons (by decide) _⟩
    · exact ⟨_, _, rfl, hdigits, ends_exponentText _⟩

/-! ## The number of a text -/

/-- What is read as a number is a proper one if its digits before the point are. -/
theorem proper_of_ofChars? {s : List Char} {n : Numeral} (h : Numeral.ofChars? s = some n)
    (hwhole : Numeral.Whole ((Numeral.takeSign s).2.takeWhile Char.isDigit)) : n.Proper := by
  have hfraction : ∀ t : List Char, ∀ c ∈ t.takeWhile Char.isDigit, c.isDigit = true :=
    fun _ => List.all_eq_true.1 List.all_takeWhile
  unfold Numeral.ofChars? at h
  generalize Numeral.takeSign s = signed at h hwhole
  obtain ⟨negative, unsigned⟩ := signed
  dsimp only at h hwhole
  -- the first split asks for a point, and what is left does not depend on the answer
  split at h
  all_goals
    split at h
    · cases h
    · split at h
      · obtain rfl := Option.some.inj h
        exact ⟨hwhole, by first | exact hfraction _ | exact hfraction []⟩
      · split at h
        · obtain ⟨e, -, rfl⟩ := Option.map_eq_some_iff.1 h
          exact ⟨hwhole, by first | exact hfraction _ | exact hfraction []⟩
        · cases h

/-- With a sign or without, a text that begins with a whole number is read with this whole number. -/
theorem takeWhile_takeSign {whole rest : List Char} (hwhole : Numeral.Whole whole) (hrest : Json.Ends rest)
    {sign : List Char} (hsign : sign = [] ∨ sign = ['-']) :
    (Numeral.takeSign (sign ++ (whole ++ rest))).2.takeWhile Char.isDigit = whole := by
  have hunsigned : (Numeral.takeSign (sign ++ (whole ++ rest))).2 = whole ++ rest := by
    rcases hsign with rfl | rfl
    · cases whole with
      | nil => exact absurd rfl hwhole.ne_nil
      | cons c tail =>
          have hc := hwhole.isDigit c (by simp)
          show (Numeral.takeSign (c :: (tail ++ rest))).2 = _
          unfold Numeral.takeSign
          split
          · rename_i hminus
            rw [(List.cons.inj hminus).1] at hc
            cases hc
          · rename_i hplus
            rw [(List.cons.inj hplus).1] at hc
            cases hc
          · rfl
    · rfl
  rw [hunsigned, (Json.takeWhile_digits hwhole.isDigit hrest).1]

/-- The text of a double is a word, or it begins with a sign or none and a whole number. -/
theorem text_cases (x : Float) :
    (text .document x).toList = ['N', 'a', 'N'] ∨ ∃ sign magnitude,
      (text .document x).toList = sign ++ magnitude ∧ (sign = [] ∨ sign = ['-']) ∧
        (magnitude = ['i', 'n', 'f'] ∨
          ∃ whole rest, magnitude = whole ++ rest ∧ Numeral.Whole whole ∧ Json.Ends rest) := by
  by_cases hnan : x.isNaN = true
  · left
    rw [text, if_pos hnan]
    rfl
  · right
    unfold text
    rw [if_neg hnan]
    dsimp only
    rw [String.toList_ofList]
    refine ⟨_, _, rfl, ?_, ?_⟩
    · split <;> simp
    · split
      · exact .inl rfl
      · right
        split
        · exact ⟨['0'], ['.', '0'], rfl, Numeral.whole_toDigits 0, ends_cons (by decide) _⟩
        · exact Scaled.exists_whole (shortest_pos _ _)

/-- **What a double is written as is a proper number**, if it is a number at all. -/
theorem proper_of_text {x : Float} {n : Numeral} (h : Numeral.ofChars? (text .document x).toList = some n) :
    n.Proper := by
  rcases text_cases x with htext | ⟨sign, magnitude, htext, hsign, hmagnitude⟩
  · rw [htext] at h
    cases h
  · rw [htext] at h
    rcases hmagnitude with rfl | ⟨whole, rest, rfl, hwhole, hrest⟩
    · rcases hsign with rfl | rfl <;> cases h
    · apply proper_of_ofChars? h
      rw [takeWhile_takeSign hwhole hrest hsign]
      exact hwhole

end Decimal
end AdmissionControl
