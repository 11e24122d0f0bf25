import AdmissionControl.Proofs.Json.Scalars

/-!
# Values, written and read back

A document is written with a line for each item and member, and read by a reader that knows nothing of lines.  The
reader has fuel for two calls with each character, and every call that the writer makes it take is paid for by a
character of its own: a bracket, a comma or the first character of a value.

* `Json.Proper` — a value as documents demand it: its numbers are proper and its strings readable.
* `Json.ReadBack`, `Json.Proper.readBack` — each proper value is read back wherever it stands.
* `Json.read?_pretty` — **every proper value is read back** from its text.
-/

namespace AdmissionControl
namespace Json

/-! ## Spaces -/

/-- Nothing but characters that may stand between the parts of a value. -/
def Blank (s : List Char) : Prop := ∀ c ∈ s, isSpace c = true

theorem skipSpace_append {b : List Char} (hb : Blank b) (s : List Char) : skipSpace (b ++ s) = skipSpace s :=
  List.dropWhile_append_of_pos hb

theorem skipSpace_cons {c : Char} (hc : isSpace c = false) (s : List Char) : skipSpace (c :: s) = c :: s := by
  simp [skipSpace, hc]

theorem skipSpace_skipSpace (s : List Char) : skipSpace (skipSpace s) = skipSpace s := by
  induction s with
  | nil => rfl
  | cons c rest ih =>
      cases hc : isSpace c with
      | true => simpa [skipSpace, hc] using ih
      | false => simp [skipSpace, hc]

theorem blank_newLine (depth : Nat) : Blank (newLine depth).toList := by
  intro c hc
  simp [newLine] at hc
  rcases hc with rfl | ⟨-, rfl⟩ <;> rfl

/-- A new line stops a number. -/
theorem stops_newLine (depth : Nat) (s : List Char) : Stops ((newLine depth).toList ++ s) := by
  intro c hc
  simp [newLine] at hc
  rw [← hc]
  decide

theorem stops_comma (s : List Char) : Stops (',' :: s) := by
  rintro _ ⟨⟩
  decide

theorem value?_of_skipSpace {s t : List Char} (h : skipSpace s = skipSpace t) (n : Nat) : value? n s = value? n t := by
  cases n with
  | zero => simp only [value?]
  | succ n => simp only [value?, h]

theorem value?_space (n : Nat) (s : List Char) : value? n (' ' :: s) = value? n s :=
  value?_of_skipSpace (by simp [skipSpace, isSpace]) n

theorem items?_of_skipSpace {s t : List Char} (h : skipSpace s = skipSpace t) (n : Nat) : items? n s = items? n t := by
  cases n with
  | zero => simp only [items?]
  | succ n => simp only [items?, value?_of_skipSpace h n]

theorem members?_of_skipSpace {s t : List Char} (h : skipSpace s = skipSpace t) (n : Nat) :
    members? n s = members? n t := by
  cases n with
  | zero => simp only [members?]
  | succ n => simp only [members?, h]

/-! ## What the reader sees -/

variable {n : Nat} {s s' rest : List Char}

theorem value?_string {text : Option String} (h : string? s = some (text, rest)) :
    value? (n + 1) ('"' :: s) = some (string text, rest) := by
  simp [value?, skipSpace, isSpace, h]

/-- A number begins with a sign or with a digit. -/
theorem head_of_numeral? {number : Numeral} (h : numeral? s = some (number, rest)) :
    ∃ c tail, s = c :: tail ∧ (c = '-' ∨ c.isDigit = true) := by
  cases s with
  | nil => simp [numeral?, whole?, digits?] at h
  | cons c tail =>
      refine ⟨c, tail, rfl, ?_⟩
      by_cases hminus : c = '-'
      · exact .inl hminus
      · right
        have hwhole : whole? (c :: tail) ≠ none := by
          intro hnone
          simp [numeral?, hminus, hnone] at h
        by_cases hzero : c = '0'
        · rw [hzero]
          rfl
        · cases hdigit : c.isDigit with
          | true => rfl
          | false => simp [whole?, digits?, hzero, hdigit] at hwhole

theorem value?_number {numeral : Numeral} (h : numeral? s = some (numeral, rest)) :
    value? (n + 1) s = some (number numeral, rest) := by
  obtain ⟨c, tail, rfl, hc⟩ := head_of_numeral? h
  have hne : ∀ d, d ≠ '-' → d.isDigit = false → c ≠ d := by
    rintro d hminus hdigit rfl
    rcases hc with hc | hc
    · exact hminus hc
    · rw [hdigit] at hc
      cases hc
  have hspace : isSpace c = false := by
    simp [isSpace, hne ' ' (by decide) rfl, hne '\n' (by decide) rfl, hne '\t' (by decide) rfl,
      hne '\r' (by decide) rfl]
  simp only [value?, skipSpace_cons hspace]
  split
  case h_7 => rw [h, Option.map_some]
  all_goals
    rename_i hother
    exact absurd (List.cons.inj hother).1 (hne _ (by decide) rfl)

theorem value?_array {items : List Json} (h : items? n s = some (items, rest)) :
    value? (n + 1) ('[' :: s) = some (array items, rest) := by
  have hclose : ∀ t, skipSpace s ≠ ']' :: t := by
    intro t ht
    -- no item begins with a bracket that closes
    have hskip : items? n s = items? n (']' :: t) := items?_of_skipSpace (ht.trans (skipSpace_cons rfl t).symm) n
    rw [hskip] at h
    rcases n with - | - | n <;> simp [items?, value?, skipSpace, isSpace, numeral?, whole?, digits?] at h
  have hopen : skipSpace ('[' :: s) = '[' :: s := skipSpace_cons rfl s
  -- by `hclose` the array is not taken for an empty one
  simp only [value?, hopen, items?_of_skipSpace (skipSpace_skipSpace s) n, h]
  rfl

theorem value?_object {members : List (Option String × Json)} (h : members? n s = some (members, rest)) :
    value? (n + 1) ('\x7b' :: s) = some (object members, rest) := by
  have hclose : ∀ t, skipSpace s ≠ '\x7d' :: t := by
    intro t ht
    have hskip : members? n s = members? n ('\x7d' :: t) := members?_of_skipSpace (ht.trans (skipSpace_cons rfl t).symm) n
    rw [hskip] at h
    cases n <;> simp [members?, skipSpace, isSpace] at h
  have hopen : skipSpace ('\x7b' :: s) = '\x7b' :: s := skipSpace_cons rfl s
  simp only [value?, hopen, members?_of_skipSpace (skipSpace_skipSpace s) n, h]
  rfl

theorem items?_singleton {item : Json} (hitem : value? n s = some (item, s')) (hclose : skipSpace s' = ']' :: rest) :
    items? (n + 1) s = some ([item], rest) := by
  simp only [items?, hitem, hclose]

theorem items?_cons {item : Json} {items : List Json} (hitem : value? n s = some (item, ',' :: s'))
    (hitems : items? n s' = some (items, rest)) : items? (n + 1) s = some (item :: items, rest) := by
  have hcomma : skipSpace (',' :: s') = ',' :: s' := skipSpace_cons rfl s'
  simp only [items?, hitem, hcomma, hitems]
  rfl

/-- The name of a member is read up to its colon. -/
theorem exists_name {b : List Char} (hb : Blank b) (name : String) (s : List Char) :
    ∃ inner, skipSpace (b ++ ((quoted false name).toList ++ ':' :: s)) = '"' :: inner ∧
      string? inner = some (some name, ':' :: s) ∧ skipSpace (':' :: s) = ':' :: s := by
  obtain ⟨inner, hquoted, hname⟩ := string?_quoted name (':' :: s)
  refine ⟨inner, ?_, hname, skipSpace_cons rfl s⟩
  rw [skipSpace_append hb, hquoted, skipSpace_cons rfl]

theorem members?_singleton {b : List Char} (hb : Blank b) (name : String) {value : Json}
    (hvalue : value? n s = some (value, s')) (hclose : skipSpace s' = '\x7d' :: rest) :
    members? (n + 1) (b ++ ((quoted false name).toList ++ ':' :: s)) = some ([(some name, value)], rest) := by
  obtain ⟨inner, hskip, hname, hcolon⟩ := exists_name hb name s
  simp only [members?, hskip, hname, hcolon, hvalue, hclose]

theorem members?_cons {b : List Char} (hb : Blank b) (name : String) {value : Json}
    (hvalue : value? n s = some (value, ',' :: s')) {members : List (Option String × Json)}
    (hmembers : members? n s' = some (members, rest)) :
    members? (n + 1) (b ++ ((quoted false name).toList ++ ':' :: s)) = some ((some name, value) :: members, rest) := by
  obtain ⟨inner, hskip, hname, hcolon⟩ := exists_name hb name s
  have hcomma : skipSpace (',' :: s') = ',' :: s' := skipSpace_cons rfl s'
  simp only [members?, hskip, hname, hcolon, hvalue, hcomma, hmembers]
  rfl

/-! ## Values -/

/-- A value as documents demand it. -/
inductive Proper : Json → Prop
  /-- The value `null`. -/
  | null : Proper null
  /-- A truth value. -/
  | bool (value : Bool) : Proper (bool value)
  /-- A number as documents demand it. -/
  | number {numeral : Numeral} (h : numeral.Proper) : Proper (number numeral)
  /-- A readable string. -/
  | string (text : String) : Proper (string (some text))
  /-- An array of such values. -/
  | array {items : List Json} (h : ∀ item ∈ items, Proper item) : Proper (array items)
  /-- An object of such values under readable names. -/
  | object {members : List (String × Json)} (h : ∀ m ∈ members, Proper m.2) : Proper (ofMembers members)

/-- The value is read back from its text at a depth, if nothing follows that could belong to a number and there is fuel
for two calls with each character. -/
def ReadBack (depth : Nat) (j : Json) : Prop :=
  ∀ n rest, Stops rest → 2 * (prettyAt depth j).toList.length ≤ n →
    value? (n + 1) ((prettyAt depth j).toList ++ rest) = some (j, rest)

theorem ReadBack.value?_eq {depth : Nat} {j : Json} (h : ReadBack depth j) (hrest : Stops rest)
    (hn : 2 * (prettyAt depth j).toList.length < n) :
    value? n ((prettyAt depth j).toList ++ rest) = some (j, rest) := by
  obtain ⟨n, rfl⟩ : ∃ k, n = k + 1 := ⟨n - 1, by omega⟩
  exact h n rest hrest (by omega)

/-- What stands between the brackets of an array. -/
def itemsText (depth : Nat) (items : List Json) : List Char := (",".intercalate (prettyItems depth items)).toList

@[simp] theorem itemsText_singleton (depth : Nat) (item : Json) :
    itemsText depth [item] = (newLine depth).toList ++ (prettyAt depth item).toList := by
  simp [itemsText, prettyItems]

@[simp] theorem itemsText_cons_cons (depth : Nat) (item other : Json) (others : List Json) :
    itemsText depth (item :: other :: others) =
      (newLine depth).toList ++ (prettyAt depth item).toList ++ ',' :: itemsText depth (other :: others) := by
  simp [itemsText, prettyItems, String.intercalate_cons_cons]

/-- Items are read back one after another.  Each one leaves enough fuel for the next, since the comma pays for the step
from one to the other. -/
theorem items?_itemsText {depth : Nat} {item : Json} {items : List Json}
    (hitems : ∀ j ∈ item :: items, ReadBack depth j) {b : List Char} (hb : Blank b) (hstops : Stops (b ++ ']' :: rest))
    (hn : 2 * (itemsText depth (item :: items)).length + 1 ≤ n) :
    items? (n + 1) (itemsText depth (item :: items) ++ (b ++ ']' :: rest)) = some (item :: items, rest) := by
  induction items generalizing n item with
  | nil =>
      simp only [itemsText_singleton, List.append_assoc, List.length_append] at hn ⊢
      apply items?_singleton
      · rw [value?_of_skipSpace (skipSpace_append (blank_newLine depth) _)]
        apply (hitems item (by simp)).value?_eq hstops
        omega
      · rw [skipSpace_append hb, skipSpace_cons rfl]
  | cons other others ih =>
      obtain ⟨n, rfl⟩ : ∃ k, n = k + 1 := ⟨n - 1, by omega⟩
      simp only [itemsText_cons_cons, List.append_assoc, List.cons_append, List.length_append, List.length_cons] at hn ⊢
      apply items?_cons
      · rw [value?_of_skipSpace (skipSpace_append (blank_newLine depth) _)]
        apply (hitems item (by simp)).value?_eq (stops_comma _)
        omega
      · apply ih
        · exact (List.forall_mem_cons.1 hitems).2
        · omega

/-- What stands between the braces of an object. -/
def membersText (depth : Nat) (members : List (String × Json)) : List Char :=
  (",".intercalate (prettyMembers depth (members.map fun m => (some m.1, m.2)))).toList

@[simp] theorem membersText_singleton (depth : Nat) (m : String × Json) :
    membersText depth [m] =
      (newLine depth).toList ++ ((quoted false m.1).toList ++ ':' :: ' ' :: (prettyAt depth m.2).toList) := by
  simp [membersText, prettyMembers, stringText]

@[simp] theorem membersText_cons_cons (depth : Nat) (m other : String × Json) (others : List (String × Json)) :
    membersText depth (m :: other :: others) =
      (newLine depth).toList ++ ((quoted false m.1).toList ++ ':' :: ' ' :: (prettyAt depth m.2).toList) ++
        ',' :: membersText depth (other :: others) := by
  simp [membersText, prettyMembers, stringText, String.intercalate_cons_cons]

theorem members?_membersText {depth : Nat} {m : String × Json} {members : List (String × Json)}
    (hmembers : ∀ m' ∈ m :: members, ReadBack depth m'.2) {b : List Char} (hb : Blank b)
    (hstops : Stops (b ++ '\x7d' :: rest)) (hn : 2 * (membersText depth (m :: members)).length + 1 ≤ n) :
    members? (n + 1) (membersText depth (m :: members) ++ (b ++ '\x7d' :: rest)) =
      some ((m :: members).map fun m => (some m.1, m.2), rest) := by
  induction members generalizing n m with
  | nil =>
      simp only [membersText_singleton, List.append_assoc, List.cons_append, List.length_append, List.length_cons]
        at hn ⊢
      apply members?_singleton (blank_newLine depth)
      · rw [value?_space]
        apply (hmembers m (by simp)).value?_eq hstops
        omega
      · rw [skipSpace_append hb, skipSpace_cons rfl]
  | cons other others ih =>
      obtain ⟨n, rfl⟩ : ∃ k, n = k + 1 := ⟨n - 1, by omega⟩
      simp only [membersText_cons_cons, List.append_assoc, List.cons_append, List.length_append, List.length_cons]
        at hn ⊢
      apply members?_cons (blank_newLine depth)
      · rw [value?_space]
        apply (hmembers m (by simp)).value?_eq (stops_comma _)
        omega
      · apply ih
        · exact (List.forall_mem_cons.1 hmembers).2
        · omega

/-- **Each proper value is read back** wherever it stands. -/
theorem Proper.readBack {j : Json} (hj : Proper j) (depth : Nat) : ReadBack depth j := by
  induction hj generalizing depth with
  | null =>
      intro n rest _ hn
      simp [prettyAt, value?, skipSpace, isSpace]
  | bool value =>
      intro n rest _ hn
      cases value <;> simp [prettyAt, value?, skipSpace, isSpace]
  | number hnumeral =>
      intro n rest hrest hn
      simp only [prettyAt]
      exact value?_number (numeral?_numeralText hnumeral hrest)
  | string text =>
      intro n rest _ hn
      obtain ⟨inner, hquoted, hread⟩ := string?_quoted text rest
      simp only [prettyAt, stringText, Option.getD_some, hquoted]
      exact value?_string hread
  | array hitems ih =>
      rename_i items
      intro n rest _ hn
      cases items with
      | nil => simp [prettyAt, value?, skipSpace, isSpace]
      | cons item items =>
          have htext : (prettyAt depth (.array (item :: items))).toList =
              '[' :: (itemsText (depth + 1) (item :: items) ++ ((newLine depth).toList ++ [']'])) := by
            simp [prettyAt, itemsText]
          simp only [htext, List.length_cons, List.length_append, List.cons_append, List.append_assoc,
            List.nil_append] at hn ⊢
          obtain ⟨n, rfl⟩ : ∃ k, n = k + 1 := ⟨n - 1, by omega⟩
          apply value?_array
          apply items?_itemsText (fun j hj => ih j hj (depth + 1)) (blank_newLine depth) (stops_newLine depth _)
          omega
  | object hmembers ih =>
      rename_i members
      intro n rest _ hn
      cases members with
      | nil => simp [prettyAt, value?, skipSpace, isSpace, ofMembers]
      | cons m members =>
          have htext : (prettyAt depth (ofMembers (m :: members))).toList =
              '\x7b' :: (membersText (depth + 1) (m :: members) ++ ((newLine depth).toList ++ ['\x7d'])) := by
            simp [prettyAt, membersText, ofMembers]
          simp only [htext, List.length_cons, List.length_append, List.cons_append, List.append_assoc,
            List.nil_append] at hn ⊢
          obtain ⟨n, rfl⟩ : ∃ k, n = k + 1 := ⟨n - 1, by omega⟩
          apply value?_object
          apply members?_membersText (fun m hm => ih m hm (depth + 1)) (blank_newLine depth) (stops_newLine depth _)
          omega

/-- **Every proper value is read back** from its text. -/
theorem read?_pretty {j : Json} (hj : Proper j) : read? (pretty j) = some j := by
  have hfront : front? (pretty j).toList = some (j, []) := by
    have hread := hj.readBack 0 (2 * (pretty j).toList.length + 1) [] (by rintro _ ⟨⟩) (Nat.le_succ _)
    rw [List.append_nil] at hread
    exact hread
  simp only [read?, hfront]
  rfl

end Json
end AdmissionControl
