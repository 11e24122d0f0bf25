import AdmissionControl.Proofs.Rule.Invariants

/-!
# Where a refill keeps less than a look at the bucket promised

A look at a bucket (`Bucket.peek`) and a refill add the same tokens to those in the bucket.  But the look stops at the
largest word and the refill starts again from zero, so they agree as long as the sum stays in the word, and not one
token longer.

* `Bucket.due` — the tokens in the bucket with those that have come in since: both are readings of this number.
* `Bucket.predicted_iff`, `Bucket.tokens_le_refill_iff` — **a refill gives what the look said, and loses no token, if
  and only if what is due stays in the word.**
* `Algorithm.kept_run` — what every decision preserves of what a rule keeps, every run preserves.
* `Algorithm.tokenBucket_predicted_iff` — the same for the buckets that a run leads to, and which requests are turned
  away by a bucket that looked full.
* `Algorithm.tokenBucket_emptied_by_refill` — a bucket that a refill of two tokens empties.
-/

namespace AdmissionControl

/-- A sum of two words that does not fit loses one word and one. -/
theorem Word.wrap_add_of_over {m n : Nat} (hm : m ≤ max) (hn : n ≤ max) (hover : max < m + n) :
    wrap (m + n) + (max + 1) = m + n := by
  have hsmall : m + n - (max + 1) < max + 1 := by omega
  rw [wrap, Nat.mod_eq_sub_mod hover, Nat.mod_eq_of_lt hsmall]
  omega

namespace TokenBucket

variable {r : TokenBucket} {b : Bucket} {now rate window : Nat}

namespace Bucket

/-- The tokens in the bucket with those that have come in since its last refill. -/
def due (b : Bucket) (now rate window : Nat) : Nat :=
  b.tokens + Word.saturate (accrued (now - b.refilled) rate window)

theorem peek_eq_saturate : b.peek now rate window = Word.saturate (b.due now rate window) := rfl

theorem tokens_le_due : b.tokens ≤ b.due now rate window := Nat.le_add_right ..

/-- A refill keeps what is due, or if that does not fit, what is left of it in a new word; this is less than there was
before. -/
theorem tokens_refill_cases (hb : b.tokens ≤ Word.max) (now rate window : Nat) :
    (b.due now rate window ≤ Word.max ∧ (b.refill now rate window).2.tokens = b.due now rate window) ∨
      (Word.max < b.due now rate window ∧ (b.refill now rate window).2.tokens < b.tokens ∧
        (b.refill now rate window).2.tokens + (Word.max + 1) = b.due now rate window) := by
  have hcredit : Word.saturate (accrued (now - b.refilled) rate window) ≤ Word.max := Word.saturate_le _
  by_cases hfits : b.due now rate window ≤ Word.max
  · refine .inl ⟨hfits, ?_⟩
    rw [tokens_refill hfits, peek_eq_saturate, Word.saturate_of_le hfits]
  · have hover := Nat.not_le.1 hfits
    have hwrap := Word.wrap_add_of_over hb hcredit hover
    have hsome : 0 < accrued (now - b.refilled) rate window := by
      by_contra hnone
      rw [due, Nat.eq_zero_of_not_pos hnone] at hover
      exact absurd hb (Nat.not_le.2 hover)
    have htokens : (b.refill now rate window).2.tokens = Word.wrap (b.due now rate window) := by
      rw [refill]
      simp only [if_pos hsome]
      rfl
    rw [htokens]
    unfold due at hover ⊢
    exact .inr ⟨hover, by omega, hwrap⟩

/-- **A look tells what a refill gives** if and only if what is due stays in the word. -/
theorem predicted_iff (hb : b.tokens ≤ Word.max) :
    (b.refill now rate window).2.tokens = b.peek now rate window ↔ b.due now rate window ≤ Word.max := by
  rw [peek_eq_saturate]
  rcases tokens_refill_cases hb now rate window with ⟨hfits, htokens⟩ | ⟨hover, hless, -⟩
  · rw [htokens, Word.saturate_of_le hfits]
    exact iff_of_true rfl hfits
  · have hmax : Word.saturate (b.due now rate window) = Word.max := Nat.min_eq_right (Nat.le_of_lt hover)
    rw [hmax]
    exact iff_of_false (by omega) (Nat.not_le.2 hover)

/-- **A refill loses no token** if and only if what is due stays in the word. -/
theorem tokens_le_refill_iff (hb : b.tokens ≤ Word.max) :
    b.tokens ≤ (b.refill now rate window).2.tokens ↔ b.due now rate window ≤ Word.max := by
  rcases tokens_refill_cases hb now rate window with ⟨hfits, htokens⟩ | ⟨hover, hless, -⟩
  · rw [htokens]
    exact iff_of_true tokens_le_due hfits
  · exact iff_of_false (Nat.not_le.2 hless) (Nat.not_le.2 hover)

end Bucket

theorem isAllowed_decide_iff {kept : Option Bucket} :
    (r.decide rate now kept).1.isAllowed = true ↔
      0 < ((kept.getD ⟨r.capacity, now⟩).refill now rate r.window).2.tokens := by
  have htaken := tokens_decide r rate now kept
  constructor
  · intro hallowed
    rw [hallowed, Bool.toNat_true] at htaken
    omega
  · intro htoken
    rw [decide_of_token htoken]
    rfl

/-- A bucket in which a look finds tokens turns a request away if and only if the refill starts again from zero and
stays there. -/
theorem denied_after_peek_iff (hb : b.tokens ≤ Word.max) :
    (0 < b.peek now rate r.window ∧ (r.decide rate now (some b)).1.isAllowed = false) ↔
      b.due now rate r.window = Word.max + 1 := by
  rw [← Bool.not_eq_true, isAllowed_decide_iff, Option.getD_some, Bucket.peek_eq_saturate]
  rcases Bucket.tokens_refill_cases hb now rate r.window with ⟨hfits, htokens⟩ | ⟨hover, -, hleft⟩
  · rw [htokens, Word.saturate_of_le hfits]
    omega
  · have hmax : Word.saturate (b.due now rate r.window) = Word.max := Nat.min_eq_right (Nat.le_of_lt hover)
    have hpos : 0 < Word.max := Nat.succ_pos _
    rw [hmax]
    omega

/-- What is kept of a client, if anything, is a bucket that fits the word. -/
def InWord (kept : Option Bucket) : Prop := ∀ b ∈ kept, b.tokens ≤ Word.max

/-- A decision leaves a bucket that fits the word. -/
theorem tokens_decide_le (hcapacity : r.capacity ≤ Word.max) {kept : Option Bucket} (h : InWord kept) :
    (r.decide rate now kept).2.tokens ≤ Word.max := by
  have htaken := tokens_decide r rate now kept
  have hb : (kept.getD ⟨r.capacity, now⟩).tokens ≤ Word.max := by
    cases kept with
    | none => exact hcapacity
    | some b => exact h b rfl
  rcases Bucket.tokens_refill_cases hb now rate r.window with ⟨hfits, htokens⟩ | ⟨-, hless, -⟩ <;> omega

end TokenBucket

/-! ## After every run -/

namespace Algorithm

/-- **What every decision preserves of what a rule keeps of a client, every run preserves**, wherever its clock
goes. -/
theorem kept_run {rule : Rule} {P : Option rule.Kept → Prop} (hnone : P none)
    (hdecide : ∀ record now kept, P kept → P (rule.decide record now kept).2) {calls : List Call}
    {table : Table String rule.Kept} (hrun : (ofRule rule).run calls = ⟨rule, table⟩) (client : String) :
    P (table.get? client) := by
  -- over the calls that are still to come, from any table of which it holds
  suffices hkept : ∀ (calls : List Call) (start : Table String rule.Kept), (∀ client, P (start.get? client)) →
      (⟨rule, start⟩ : Algorithm).run calls = ⟨rule, table⟩ → ∀ client, P (table.get? client) from
    hkept calls Table.empty (fun _ => hnone) hrun client
  intro calls
  induction calls with
  | nil =>
      intro start hstart hrun
      cases hrun
      exact hstart
  | cons call rest ih =>
      intro start hstart hrun
      cases call with
      | decide record now =>
          refine ih _ (fun x => ?_) hrun
          rw [Table.get?_put]
          split
          · exact hdecide record now _ (hstart record.client.id)
          · exact hstart x
      | evict x =>
          refine ih _ (fun y => ?_) hrun
          rw [Table.get?_erase]
          split
          · exact hnone
          · exact hstart y

variable {r : TokenBucket} {calls : List Call} {table : Table String TokenBucket.Bucket} {record : Record}
  {rate : UInt32} {now : Nat}

/-- Every bucket fits the word, whatever has happened to it. -/
theorem tokens_le_of_run (hcapacity : r.capacity ≤ Word.max)
    (hrun : (ofRule (.tokenBucket r)).run calls = ⟨.tokenBucket r, table⟩) (client : String) :
    TokenBucket.InWord (table.get? client) := by
  refine @kept_run (.tokenBucket r) TokenBucket.InWord (by rintro b ⟨⟩) (fun record now kept h => ?_) _ _ hrun client
  refine Rule.meter_kept (P := TokenBucket.InWord) h ?_
  rintro rate - b ⟨⟩
  exact TokenBucket.tokens_decide_le hcapacity h

/-- A request that no estimate denies is denied if and only if one token more is due than the word holds. -/
theorem overlooked_iff (hcapacity : 1 ≤ r.capacity) (hpolicy : record.policy = .limited rate)
    (hkept : TokenBucket.InWord (table.get? record.client.id)) :
    ((⟨.tokenBucket r, table⟩ : Algorithm).estimate record now = none ∧
        ((⟨.tokenBucket r, table⟩ : Algorithm).decide record now).1.isAllowed = false) ↔
      ∃ b ∈ table.get? record.client.id, b.due now rate.toNat r.window = Word.max + 1 := by
  have hestimate : (⟨.tokenBucket r, table⟩ : Algorithm).estimate record now = none ↔
      r.estimate rate.toNat now (table.get? record.client.id) = none := by
    simp [Algorithm.estimate, Algorithm.get?, Rule.estimate, Rule.foresee, hpolicy, Policy.rate?]
  rw [hestimate, decide_metered (.tokenBucket r) r.decide (fun _ _ _ => rfl) hpolicy, Admission.isAllowed]
  cases hget : table.get? record.client.id with
  | none =>
      rw [TokenBucket.decide_none hcapacity]
      simp
  | some b =>
      have hpeek : r.estimate rate.toNat now (some b) = none ↔ 0 < b.peek now rate.toNat r.window := by
        simp [TokenBucket.estimate]
      rw [hpeek, TokenBucket.denied_after_peek_iff (hkept b hget)]
      simp

/-- **Exactly when a look predicts a refill.**  Whatever a bucket holds, a refill gives what a look said just before if
and only if the tokens in the bucket and those that have come in stay in the word together, and otherwise it loses
tokens.  In the buckets that a run leads to, the two differ in their answer to a request if and only if they add up to
one more than the word holds: no estimate denies the request then, and the decision does. -/
theorem tokenBucket_predicted_iff (b : TokenBucket.Bucket) (now rate window : Nat) (hb : b.tokens ≤ Word.max) :
    ((b.refill now rate window).2.tokens = b.peek now rate window ↔
        b.tokens + Word.saturate (TokenBucket.accrued (now - b.refilled) rate window) ≤ Word.max) ∧
      (b.tokens ≤ (b.refill now rate window).2.tokens ↔
        b.tokens + Word.saturate (TokenBucket.accrued (now - b.refilled) rate window) ≤ Word.max) ∧
      ∀ (r : TokenBucket) (calls : List Call) (record : Record) (limit : UInt32)
        (table : Table String TokenBucket.Bucket), 1 ≤ r.capacity → r.capacity ≤ Word.max →
        record.policy = .limited limit → (ofRule (.tokenBucket r)).run calls = ⟨.tokenBucket r, table⟩ →
          (∀ client, ∀ kept ∈ table.get? client, kept.tokens ≤ Word.max) ∧
            ((((ofRule (.tokenBucket r)).run calls).estimate record now = none ∧
                (((ofRule (.tokenBucket r)).run calls).decide record now).1.isAllowed = false) ↔
              ∃ kept ∈ table.get? record.client.id, kept.tokens +
                Word.saturate (TokenBucket.accrued (now - kept.refilled) limit.toNat r.window) = Word.max + 1) := by
  refine ⟨b.predicted_iff hb, b.tokens_le_refill_iff hb, ?_⟩
  intro r calls record limit table hpos hcapacity hpolicy hrun
  have hkept := tokens_le_of_run hcapacity hrun
  rw [hrun]
  exact ⟨hkept, overlooked_iff hpos hpolicy (hkept record.client.id)⟩

/-- A bucket with three tokens that gets two more holds five, as a look says, and a request takes one of them. -/
theorem tokenBucket_predicted_at_five :
    ((⟨3, 0⟩ : TokenBucket.Bucket).refill 1 2 1).2.tokens = (⟨3, 0⟩ : TokenBucket.Bucket).peek 1 2 1 ∧
      3 ≤ ((⟨3, 0⟩ : TokenBucket.Bucket).refill 1 2 1).2.tokens ∧
      ¬ (((ofRule (.tokenBucket (.ofMillis 4 1))).run
            [.decide (.fresh ⟨"c1", .standard⟩ (.limited 2) 0) 0]).estimate
              (.fresh ⟨"c1", .standard⟩ (.limited 2) 0) 1 = none ∧
        (((ofRule (.tokenBucket (.ofMillis 4 1))).run
            [.decide (.fresh ⟨"c1", .standard⟩ (.limited 2) 0) 0]).decide
              (.fresh ⟨"c1", .standard⟩ (.limited 2) 0) 1).1.isAllowed = false) := by
  obtain ⟨hpredicted, hloses, hruns⟩ := tokenBucket_predicted_iff ⟨3, 0⟩ 1 2 1 (by decide)
  obtain ⟨-, hoverlooked⟩ := hruns (.ofMillis 4 1) [.decide (.fresh ⟨"c1", .standard⟩ (.limited 2) 0) 0]
    (.fresh ⟨"c1", .standard⟩ (.limited 2) 0) 2 (Table.empty.put "c1" (some ⟨3, 0⟩)) (by decide) (by decide) rfl rfl
  refine ⟨hpredicted.2 (by decide), hloses.2 (by decide), fun hdiffer => ?_⟩
  obtain ⟨b, hb, hdue⟩ := hoverlooked.1 hdiffer
  obtain rfl : (⟨3, 0⟩ : TokenBucket.Bucket) = b := Option.some.inj hb
  exact absurd hdue (by decide)

/-- **A full bucket that a refill empties.**  A bucket starts with as many tokens as the word holds, and one is taken.
A millisecond later two more have come in.  A look finds the largest word of tokens, and no estimate denies; the
refill leaves none, and the request is turned away. -/
theorem tokenBucket_emptied_by_refill :
    ((ofRule (.tokenBucket (.ofMillis Word.max 1))).run
        [.decide (.fresh ⟨"c1", .standard⟩ (.limited 2) 0) 0]).kept.get? "c1" = some ⟨Word.max - 1, 0⟩ ∧
      (⟨Word.max - 1, 0⟩ : TokenBucket.Bucket).peek 1 2 1 = Word.max ∧
      ((⟨Word.max - 1, 0⟩ : TokenBucket.Bucket).refill 1 2 1).2.tokens = 0 ∧
      ((ofRule (.tokenBucket (.ofMillis Word.max 1))).run
        [.decide (.fresh ⟨"c1", .standard⟩ (.limited 2) 0) 0]).estimate
          (.fresh ⟨"c1", .standard⟩ (.limited 2) 0) 1 = none ∧
      (((ofRule (.tokenBucket (.ofMillis Word.max 1))).run
        [.decide (.fresh ⟨"c1", .standard⟩ (.limited 2) 0) 0]).decide
          (.fresh ⟨"c1", .standard⟩ (.limited 2) 0) 1).1.isAllowed = false := by
  exact ⟨rfl, by decide, by decide, rfl, by decide⟩

end Algorithm
end AdmissionControl
