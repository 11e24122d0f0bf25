import AdmissionControl.Json.Printer
import AdmissionControl.Json.Reader

/-!
# Strings and numbers, written and read back

What stands between quotes is read back character by character, since no character of a text is half of a surrogate
pair.  A number is read back if it was written as documents demand it, without needless zeros at the front, and if
nothing follows that could belong to it.

* `Json.string?_quoted` — **every text** is read back from its quotes.
* `Numeral.Proper`, `Json.numeral?_numeralText` — **every proper number** is read back.
-/

namespace AdmissionControl

/-! ## Strings -/

namespace Json

/-- A character is read back from an escape with one letter. -/
theorem units?_escape {e c : Char} (he : e ≠ 'u') (h : escaped? e = some c) (s : List Char) :
    units? ('\\' :: e :: s) = (units? s).map fun r => (c.toNat :: r.1, r.2) := by
  rw [units?]
  · rw [h]
    cases units? s <;> rfl
  · intro _ _ _ _ _ hu
    exact absurd hu he

/-- A character that is written out is read back. -/
theorem units?_cons {c : Char} (hquote : c ≠ '"') (hescape : c ≠ '\\') (h : ¬c.toNat < 0x20) (s : List Char) :
    units? (c :: s) = (units? s).map fun r => (c.toNat :: r.1, r.2) := by
  rw [units?]
  · rw [if_neg]
    rintro (hc | hc)
    · exact hescape hc
    · exact h hc
  · exact hquote
  · intro _ _ _ _ _ hc
    exact absurd hc hescape
  · intro _ _ hc
    exact absurd hc hescape

theorem hexDigit?_digitChar {n : Nat} (h : n < 16) : hexDigit? (Nat.digitChar n) = some n := by
  have hall : ∀ k : Fin 16, hexDigit? (Nat.digitChar k) = some k.val := by decide
  exact hall ⟨n, h⟩

/-- A code unit is read back from its escape. -/
theorem units?_unitEscape {n : Nat} (h : n < 0x10000) (s : List Char) :
    units? (unitEscape n ++ s) = (units? s).map fun r => (n :: r.1, r.2) := by
  have hdigit : ∀ m, hexDigit? (hexChar m) = some (m % 16) := fun m => hexDigit?_digitChar (Nat.mod_lt m (by decide))
  have hunit : hexUnit? (hexChar (n / 4096)) (hexChar (n / 256)) (hexChar (n / 16)) (hexChar n) = some n := by
    simp only [hexUnit?, hdigit, Option.some.injEq]
    omega
  simp only [unitEscape, List.cons_append, List.nil_append, units?, hunit]
  cases units? s <;> rfl

/-- Every character is read back from between quotes. -/
theorem units?_quotedChar (c : Char) (s : List Char) :
    units? (quotedChar false c ++ s) = (units? s).map fun r => (c.toNat :: r.1, r.2) := by
  unfold quotedChar
  -- seven characters have an escape with one letter
  iterate 7
    split
    · rename_i hc
      exact units?_escape (by decide) (by rw [hc]; rfl) s
  split
  · rename_i hc
    exact units?_unitEscape (Nat.lt_trans hc (by decide)) s
  · rename_i hquote hescape _ _ _ _ _ hwide
    exact units?_cons hquote hescape hwide s

theorem units?_quotedChars (l s : List Char) :
    units? (l.flatMap (quotedChar false) ++ '"' :: s) = some (l.map Char.toNat, s) := by
  induction l with
  | nil => rfl
  | cons c rest ih => simp [units?_quotedChar, ih]

/-- No character of a text is half of a surrogate pair. -/
theorem join?_toNat (l : List Char) : join? (l.map Char.toNat) = some l := by
  have hwhole : ∀ c : Char, ¬(0xD800 ≤ c.toNat ∧ c.toNat < 0xE000) := by
    intro c
    have hvalid : c.toNat < 0xD800 ∨ 0xDFFF < c.toNat ∧ c.toNat < 0x110000 := c.valid
    omega
  induction l with
  | nil => rfl
  | cons c rest ih =>
      cases rest with
      | nil =>
          simp only [List.map_cons, List.map_nil, join?]
          rw [if_neg (hwhole c), Char.ofNat_toNat]
      | cons d rest =>
          have hc := hwhole c
          rw [List.map_cons] at ih
          simp only [List.map_cons, join?]
          rw [if_neg (by omega), if_neg (by omega), ih, Char.ofNat_toNat]
          rfl

/-- **Every text is read back from its quotes.** -/
theorem string?_quoted (text : String) (s : List Char) :
    ∃ inner, (quoted false text).toList ++ s = '"' :: inner ∧ string? inner = some (some text, s) := by
  refine ⟨text.toList.flatMap (quotedChar false) ++ '"' :: s, ?_, ?_⟩
  · simp [quoted]
  · rw [string?, units?_quotedChars]
    simp [join?_toNat]

end Json

/-! ## Digits -/

namespace Numeral

theorem value_toDigits (n : Nat) : value (Nat.toDigits 10 n) = n := by
  have hfold : (fun (m : Nat) (c : Char) => m * 10 + digit c) = fun m c => 10 * m + (c.toNat - '0'.toNat) := by
    funext m c
    rw [digit, Nat.mul_comm]
  rw [value, hfold, ← Nat.ofDigitChars_eq_foldl, Nat.ofDigitChars_ten_toDigits]

/-- Digits as they stand before the point: at least one, and no zero at the front of others. -/
structure Whole (digits : List Char) : Prop where
  /-- They are digits. -/
  isDigit : ∀ c ∈ digits, c.isDigit = true
  /-- There are some. -/
  ne_nil : digits ≠ []
  /-- A zero at the front stands alone. -/
  head_zero : ∀ rest, digits = '0' :: rest → rest = []

theorem isDigit_toDigits (n : Nat) : ∀ c ∈ Nat.toDigits 10 n, c.isDigit = true :=
  fun _ hc => Nat.isDigit_of_mem_toDigits (by decide) (by decide) hc

theorem head?_toDigits {n : Nat} (h : 0 < n) : (Nat.toDigits 10 n).head? ≠ some '0' := by
  induction n using Nat.strongRecOn with
  | ind n ih =>
      rw [Nat.toDigits_eq_if (by decide)]
      split
      · rename_i hlt
        have hall : ∀ k : Fin 10, 0 < k.val → [Nat.digitChar k].head? ≠ some '0' := by decide
        exact hall ⟨n, hlt⟩ h
      · rename_i hge
        have hrest := ih (n / 10) (by omega) (by omega)
        cases hdigits : Nat.toDigits 10 (n / 10) with
        | nil => exact absurd hdigits Nat.toDigits_ne_nil
        | cons c rest =>
            rw [hdigits] at hrest
            exact hrest

theorem whole_toDigits (n : Nat) : Whole (Nat.toDigits 10 n) := by
  refine ⟨isDigit_toDigits n, Nat.toDigits_ne_nil, fun rest hzero => ?_⟩
  cases n with
  | zero =>
      rw [Nat.toDigits_of_lt_base (by decide)] at hzero
      exact (List.cons.inj hzero).2.symm
  | succ n =>
      have hhead := head?_toDigits (Nat.succ_pos n)
      rw [hzero] at hhead
      exact absurd rfl hhead

/-- A number as documents demand it. -/
structure Proper (n : Numeral) : Prop where
  /-- The digits before the point. -/
  whole : Whole n.whole
  /-- What stands after the point are digits. -/
  fraction : ∀ c ∈ n.fraction, c.isDigit = true

theorem proper_ofNat (n : Nat) : Proper (ofNat n) := ⟨whole_toDigits n, by simp [ofNat]⟩

end Numeral

/-! ## Numbers -/

namespace Json

/-- A text that goes on with nothing that could belong to a number. -/
def Stops (s : List Char) : Prop := ∀ c, s.head? = some c → c.isDigit = false ∧ c ≠ '.' ∧ c ≠ 'e' ∧ c ≠ 'E'

/-- A text that does not go on with a digit. -/
def Ends (s : List Char) : Prop := ∀ c, s.head? = some c → c.isDigit = false

theorem Stops.ends {s : List Char} (h : Stops s) : Ends s := fun c hc => (h c hc).1

theorem takeWhile_digits {digits s : List Char} (hdigits : ∀ c ∈ digits, c.isDigit = true) (hs : Ends s) :
    (digits ++ s).takeWhile Char.isDigit = digits ∧ (digits ++ s).dropWhile Char.isDigit = s := by
  have hstop : s.takeWhile Char.isDigit = [] ∧ s.dropWhile Char.isDigit = s := by
    cases s with
    | nil => exact ⟨rfl, rfl⟩
    | cons c rest => simp [hs c rfl]
  rw [List.takeWhile_append_of_pos hdigits, List.dropWhile_append_of_pos hdigits, hstop.1, hstop.2]
  simp

theorem digits?_append {digits s : List Char} (hdigits : ∀ c ∈ digits, c.isDigit = true) (hne : digits ≠ [])
    (hs : Ends s) : digits? (digits ++ s) = some (digits, s) := by
  obtain ⟨htake, hdrop⟩ := takeWhile_digits hdigits hs
  simp [digits?, htake, hdrop, hne]

theorem whole?_append {digits s : List Char} (h : Numeral.Whole digits) (hs : Ends s) :
    whole? (digits ++ s) = some (digits, s) := by
  cases digits with
  | nil => exact absurd rfl h.ne_nil
  | cons c rest =>
      by_cases hc : c = '0'
      · subst hc
        obtain rfl := h.head_zero rest rfl
        have hany : s.head?.any Char.isDigit = false := by
          cases s with
          | nil => rfl
          | cons c rest => exact hs c rfl
        simp [whole?, hany]
      · rw [List.cons_append, whole?]
        · exact digits?_append h.isDigit h.ne_nil hs
        · intro rest hzero
          exact absurd (List.cons.inj hzero).1 hc

theorem fraction?_append {digits s : List Char} (hdigits : ∀ c ∈ digits, c.isDigit = true) (hs : Ends s)
    (hpoint : s.head? ≠ some '.') :
    fraction? ((if digits.isEmpty then [] else '.' :: digits) ++ s) = some (digits, s) := by
  cases digits with
  | nil =>
      show fraction? s = some ([], s)
      rw [fraction?]
      rintro rest rfl
      exact hpoint rfl
  | cons c rest => exact digits?_append hdigits (by simp) hs

theorem exponent?_append (exponent : Option Int) {s : List Char} (hs : Stops s) :
    exponent? (exponentText exponent ++ s) = some (exponent, s) := by
  cases exponent with
  | none =>
      cases s with
      | nil => rfl
      | cons c rest =>
          obtain ⟨-, -, he, hE⟩ := hs c rfl
          show exponent? (c :: rest) = _
          simp [exponent?, he, hE]
  | some e =>
      have hdigits := digits?_append (Numeral.isDigit_toDigits e.natAbs) Nat.toDigits_ne_nil hs.ends
      unfold exponentText
      dsimp only
      split
      · have hvalue : ((e.natAbs : Nat) : Int) = e := by omega
        simp only [List.cons_append, exponent?, Numeral.takeSign, hdigits, Numeral.value_toDigits, hvalue, true_or,
          if_true, Bool.false_eq_true, if_false, Option.map_some]
      · have hvalue : -((e.natAbs : Nat) : Int) = e := by omega
        simp only [List.cons_append, exponent?, Numeral.takeSign, hdigits, Numeral.value_toDigits, hvalue, true_or,
          if_true, Option.map_some]

/-- Neither a point nor an exponent is a digit. -/
theorem ends_tail (n : Numeral) {s : List Char} (hs : Stops s) :
    Ends (exponentText n.exponent ++ s) ∧ (exponentText n.exponent ++ s).head? ≠ some '.' ∧
      Ends ((if n.fraction.isEmpty then [] else '.' :: n.fraction) ++ (exponentText n.exponent ++ s)) := by
  have hexponent : ∀ c, (exponentText n.exponent ++ s).head? = some c → c.isDigit = false ∧ c ≠ '.' := by
    intro c hc
    cases hn : n.exponent with
    | none =>
        rw [hn] at hc
        exact ⟨(hs c hc).1, (hs c hc).2.1⟩
    | some e =>
        have hhead : (exponentText (some e) ++ s).head? = some 'e' := by
          unfold exponentText
          dsimp only
          split <;> rfl
        rw [hn, hhead] at hc
        obtain rfl := Option.some.inj hc
        decide
  refine ⟨fun c hc => (hexponent c hc).1, fun hpoint => (hexponent '.' hpoint).2 rfl, fun c hc => ?_⟩
  split at hc
  · exact (hexponent c hc).1
  · obtain rfl := Option.some.inj hc
    decide

/-- **Every proper number is read back**, if nothing follows that could belong to it. -/
theorem numeral?_numeralText {n : Numeral} (hn : n.Proper) {s : List Char} (hs : Stops s) :
    numeral? ((numeralText n).toList ++ s) = some (n, s) := by
  obtain ⟨hends, hpoint, hwhole⟩ := ends_tail n hs
  have hread := whole?_append hn.whole hwhole
  have hfraction := fraction?_append hn.fraction hends hpoint
  have hexponent := exponent?_append n.exponent hs
  have hisDigit := hn.whole.isDigit
  have hne := hn.whole.ne_nil
  obtain ⟨negative, whole, fraction, exponent⟩ := n
  have htext : (numeralText ⟨negative, whole, fraction, exponent⟩).toList ++ s =
      (if negative then ['-'] else []) ++ (whole ++
        ((if fraction.isEmpty then [] else '.' :: fraction) ++ (exponentText exponent ++ s))) := by
    simp only [numeralText, String.toList_ofList, List.append_assoc]
  rw [htext]
  cases negative with
  | true =>
      show numeral? ('-' :: (whole ++ _)) = _
      simp only [numeral?, hread, hfraction, hexponent, Option.map_some]
  | false =>
      show numeral? (whole ++ _) = _
      cases whole with
      | nil => exact absurd rfl hne
      | cons c rest =>
          have hc : c ≠ '-' := by
            rintro rfl
            cases hisDigit '-' (by simp)
          rw [List.cons_append] at hread ⊢
          unfold numeral?
          split
          rename_i negative' s' hsign
          split at hsign
          · rename_i hminus
            exact absurd (List.cons.inj hminus).1 hc
          · obtain ⟨rfl, rfl⟩ := Prod.mk.inj hsign
            simp only [hread, hfraction, hexponent, Option.map_some]

end Json
end AdmissionControl
