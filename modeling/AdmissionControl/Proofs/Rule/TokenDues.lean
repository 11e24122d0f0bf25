import AdmissionControl.Proofs.Rule.TokenRate

/-!
# A token bucket keeps no token back

`Proofs.Rule.TokenRate` asks how much a client can get beyond its rate.  This file asks the opposite: whether
a client can get *less*.  A refill books whole tokens only, and the part of a token that has come in by then
has to wait for the next one.  It is never lost, since the clock of the bucket moves by no more than the booked
tokens took; so whoever is denied has had all that was due.

* `Bucket.income` — the tokens that come in, refill after refill.
* `Bucket.due_le_income` — **spreading the time over refills loses nothing**: what is due at any of them has come in.
* `admissions_add_tokens` — each token is taken or still there.
* `Algorithm.tokenBucket_pays_dues` — a denied client has had the capacity and what the time since its first
  request brings.
-/

namespace AdmissionControl

namespace TokenBucket

/-! ## What comes in -/

namespace Bucket

/-- The tokens that come in until the last of the given times, one refill after another.  They are counted in
full, where a refill credits no more than a word holds. -/
def income (rate window : Nat) : Bucket → List Nat → Nat
  | _, [] => 0
  | b, now :: rest =>
      accrued (now - b.refilled) rate window + income rate window (b.refill now rate window).2 rest

variable {rate window start credited : Nat} {b b' : Bucket}

/-- What comes in depends on the clock of the bucket, and not on its tokens. -/
theorem income_congr (h : b.refilled = b'.refilled) (times : List Nat) :
    b.income rate window times = b'.income rate window times := by
  induction times generalizing b b' with
  | nil => rfl
  | cons now rest ih => rw [income, income, h, ih (refilled_refill_congr h)]

/-- A refill moves the clock by no more than the tokens took. -/
theorem refilled_refill_le_add (b : Bucket) (now rate window : Nat) :
    (b.refill now rate window).2.refilled ≤
      b.refilled + timeOf (accrued (now - b.refilled) rate window) rate window := by
  simp only [refill]
  split
  · apply Nat.le_trans (Word.saturate_le_self _)
    exact Nat.add_le_add_left (Word.saturate_le_self _) _
  · exact Nat.le_add_right ..

/-- A refill loses nothing. -/
theorem covered_refill (hrate : 0 < rate) (hwindow : 0 < window)
    (h : Covered rate window start credited b.refilled) (now : Nat) :
    Covered rate window start (credited + accrued (now - b.refilled) rate window)
      (b.refill now rate window).2.refilled := by
  apply h.book _ (refilled_refill_le_add b now rate window)
  rw [timeOf_eq hrate hwindow]
  exact Nat.div_mul_le_self ..

/-- **Spreading the time over refills loses nothing**: what is due at any of the times was credited before or has
come in. -/
theorem due_le_income (hrate : 0 < rate) (hwindow : 0 < window) {times : List Nat}
    (h : Covered rate window start credited b.refilled) :
    ∀ t ∈ times, (t - start) * rate / window ≤ credited + b.income rate window times := by
  induction times generalizing b credited with
  | nil => simp
  | cons now rest ih =>
      intro t ht
      rw [income, ← Nat.add_assoc]
      rcases List.mem_cons.1 ht with rfl | ht
      · have hdue := h.due_le hwindow t
        rw [← accrued_eq hrate hwindow (t - b.refilled)] at hdue
        exact Nat.le_trans hdue (Nat.le_add_right ..)
      · exact ih (covered_refill hrate hwindow h now) t ht

theorem refill_fst (b : Bucket) (now rate window : Nat) :
    (b.refill now rate window).1 = Word.saturate (accrued (now - b.refilled) rate window) := by
  simp only [refill]
  split
  · rfl
  · rename_i hnone
    simp [Nat.eq_zero_of_not_pos hnone, Word.saturate]

variable (b rate window) in
/-- Refills credit what comes in, as far as a word holds it. -/
theorem saturate_income_le_credits (times : List Nat) :
    Word.saturate (b.income rate window times) ≤ b.credits rate window times := by
  induction times generalizing b with
  | nil => simp [income, Word.saturate]
  | cons now rest ih =>
      have hrest := ih (b.refill now rate window).2
      rw [income, credits, refill_fst]
      simp only [Word.saturate] at hrest ⊢
      omega

end Bucket

/-! ## What is taken -/

/-- The tokens that come in until the last of the given times, if a client's first request is at the first of
them. -/
def income (r : TokenBucket) (rate : Nat) (times : List Nat) : Nat :=
  Bucket.income rate r.window ⟨r.capacity, times.head?.getD 0⟩ times

variable {r : TokenBucket} {rate : Nat}

/-- **Each token is taken or still there**, as long as all tokens together stay in the word. -/
theorem admissions_add_tokens {b : Bucket} {times : List Nat}
    (hfits : b.tokens + b.income rate r.window times ≤ Word.max) :
    ∃ b', keptAfter (r.decide rate) times (some b) = some b' ∧
      admissions (r.decide rate) times (some b) + b'.tokens = b.tokens + b.income rate r.window times := by
  induction times generalizing b with
  | nil => exact ⟨b, rfl, by simp [admissions, Bucket.income]⟩
  | cons now rest ih =>
      have htaken := tokens_decide r rate now (some b)
      have hincome : (r.decide rate now (some b)).2.income rate r.window rest =
          (b.refill now rate r.window).2.income rate r.window rest :=
        Bucket.income_congr (refilled_decide r rate now (some b)) rest
      rw [Bucket.income] at hfits
      have hrefill : (b.refill now rate r.window).2.tokens =
          b.tokens + accrued (now - b.refilled) rate r.window := by
        have hcame : Word.saturate (accrued (now - b.refilled) rate r.window) =
            accrued (now - b.refilled) rate r.window := Word.saturate_of_le (by omega)
        rw [Bucket.tokens_refill (by omega), Bucket.peek, hcame]
        exact Word.saturate_of_le (by omega)
      rw [Option.getD_some] at htaken
      obtain ⟨b', hkept, hcount⟩ := ih (b := (r.decide rate now (some b)).2) (by omega)
      refine ⟨b', hkept, ?_⟩
      rw [admissions, Bucket.income]
      omega

/-- A denial leaves no token. -/
theorem tokens_of_denied {now : Nat} {kept : Option Bucket} (h : (r.decide rate now kept).1.isAllowed = false) :
    (r.decide rate now kept).2.tokens = 0 := by
  have htaken := tokens_decide r rate now kept
  by_cases hsome : 0 < ((kept.getD ⟨r.capacity, now⟩).refill now rate r.window).2.tokens
  · rw [decide_of_token hsome] at h
    simp at h
  · omega

/-- **Whoever is denied has had all that was due** since the first request, which made the bucket. -/
theorem due_le_admissions (hrate : 0 < rate) (hwindow : 0 < r.window) {times : List Nat} {now : Nat}
    (hfits : r.capacity + r.income rate (times ++ [now]) ≤ Word.max)
    (hdenied : (r.decide rate now (keptAfter (r.decide rate) times none)).1.isAllowed = false) :
    r.capacity + span (times ++ [now]) * rate / r.window ≤ admissions (r.decide rate) times none := by
  have hadmitted : admissions (r.decide rate) (times ++ [now]) none = admissions (r.decide rate) times none := by
    simp [admissions_append, admissions, hdenied]
  have hlast : keptAfter (r.decide rate) (times ++ [now]) none =
      some (r.decide rate now (keptAfter (r.decide rate) times none)).2 := keptAfter_append ..
  have hspan : span (times ++ [now]) = now - (times ++ [now]).head?.getD 0 := by simp [span]
  have hnow : now ∈ times ++ [now] := by simp
  rw [hspan, ← hadmitted]
  -- the first request makes the bucket, and is decided as if it had been there
  cases hall : times ++ [now] with
  | nil => simp at hall
  | cons first rest =>
      rw [hall] at hfits hlast hnow
      obtain ⟨b, hkept, hcount⟩ := admissions_add_tokens (b := ⟨r.capacity, first⟩) hfits
      have hempty : b.tokens = 0 := by
        obtain rfl : _ = b := Option.some.inj (hlast.symm.trans hkept)
        exact tokens_of_denied hdenied
      have hdue := Bucket.due_le_income (b := ⟨r.capacity, first⟩) hrate hwindow
        (Covered.opening rate r.window first) now hnow
      rw [Nat.zero_add] at hdue
      rw [hempty] at hcount
      calc r.capacity + (now - first) * rate / r.window
          ≤ r.capacity + r.income rate (first :: rest) := Nat.add_le_add_left hdue _
        _ = admissions (r.decide rate) (first :: rest) none := hcount.symm

end TokenBucket

/-! ## After every run -/

namespace Algorithm

/-- What comes before is steady as well. -/
theorem Steady.left {client : String} {rate : UInt32} {early late : List Call}
    (h : Steady client rate (early ++ late)) : Steady client rate early := by
  refine ⟨fun call hcall => h.request call (List.mem_append_left _ hcall), ?_⟩
  have hforward := h.forward
  simp only [times, List.filterMap_append] at hforward
  exact (List.pairwise_append.1 hforward).1

theorem admitted_append (a : Algorithm) (early late : List Call) :
    a.admitted (early ++ late) = a.admitted early + (a.run early).admitted late := by
  simp [admitted, replies_append]

/-- The last of some steady requests is answered as the client's own state says. -/
theorem isAllowed_decide_run (rule : Rule) {d : Nat → Nat → Option rule.Kept → Verdict × rule.Kept}
    (hd : ∀ record now kept, rule.decide record now kept = Rule.meter (d · now) record kept)
    {client : String} {rate : UInt32} {calls : List Call} {record : Record} {now : Nat}
    (h : Steady client rate (calls ++ [.decide record now])) :
    (((ofRule rule).run calls).decide record now).1.isAllowed =
      (d rate.toNat now (keptAfter (d rate.toNat) (times calls) none)).1.isAllowed := by
  have hbefore := admitted_eq_admissions rule hd h.left Table.empty
  have hafter := admitted_eq_admissions rule hd h Table.empty
  rw [admitted_append, hbefore, times_append_decide, admissions_append, admitted_cons_decide] at hafter
  have hlast : (((ofRule rule).run calls).decide record now).1.isAllowed.toNat =
      (d rate.toNat now (keptAfter (d rate.toNat) (times calls) none)).1.isAllowed.toNat :=
    Nat.add_left_cancel hafter
  apply Bool.eq_iff_iff.2
  rw [← Bool.toNat_eq_one, ← Bool.toNat_eq_one, hlast]

/-- **A token bucket pays all that is due.**  Whoever is denied, in a run of one client under one rate, was admitted
before as often as the capacity and the whole tokens of the time since its first request allow, unless the tokens
outgrow the word.  Behind it is that no refill loses a part of a token: at each of the times of some refills, one
refill over the whole time until then would have credited no more than they do. -/
theorem tokenBucket_pays_dues (capacity : Nat) {window : Nat} (hwindow : 1 ≤ window) {rate : UInt32}
    (hrate : 1 ≤ rate.toNat) :
    (∀ client calls record now, Steady client rate (calls ++ [.decide record now]) →
      capacity + (TokenBucket.ofMillis capacity window).income rate.toNat (times calls ++ [now]) ≤ Word.max →
      (((ofRule (.tokenBucket (.ofMillis capacity window))).run calls).decide record now).1.isAllowed = false →
        capacity + span (times calls ++ [now]) * rate.toNat / window ≤
          (ofRule (.tokenBucket (.ofMillis capacity window))).admitted calls) ∧
      ∀ (b : TokenBucket.Bucket) (refills : List Nat), ∀ now ∈ refills,
        (b.refill now rate.toNat window).1 ≤ b.credits rate.toNat window refills := by
  constructor
  · have hrule : TokenBucket.ofMillis capacity window = ⟨capacity, window⟩ := by
      rw [TokenBucket.ofMillis, Nat.max_eq_left hwindow]
    rw [hrule]
    intro client calls record now hsteady hfits hdenied
    rw [isAllowed_decide_run (.tokenBucket _) (d := TokenBucket.decide _) (fun _ _ _ => rfl) hsteady] at hdenied
    rw [ofRule, admitted_eq_admissions (.tokenBucket _) (d := TokenBucket.decide _) (fun _ _ _ => rfl) hsteady.left]
    exact TokenBucket.due_le_admissions (r := ⟨capacity, window⟩) hrate hwindow hfits hdenied
  · intro b refills now hnow
    have hdue := TokenBucket.Bucket.due_le_income hrate hwindow
      (Covered.opening rate.toNat window b.refilled) now hnow
    rw [Nat.zero_add, ← TokenBucket.Bucket.accrued_eq hrate hwindow] at hdue
    have hcredits := b.saturate_income_le_credits rate.toNat window refills
    rw [TokenBucket.Bucket.refill_fst]
    simp only [Word.saturate] at hcredits ⊢
    omega

/-- Three tokens a second for a bucket of one, which is asked at 200, 500 and 600 without a whole token to give.  The
denial at 666 comes after two admissions, at 0 and at 400: the second token has not come in for another millisecond. -/
theorem tokenBucket_pays_at_666 :
    (((ofRule (.tokenBucket (.ofMillis 1 1000))).run
        (requests (.fresh ⟨"c1", .standard⟩ (.limited 3) 0) [0, 200, 400, 500, 600])).decide
          (.fresh ⟨"c1", .standard⟩ (.limited 3) 0) 666).1.isAllowed = false ∧
      1 + span [0, 200, 400, 500, 600, 666] * 3 / 1000 ≤
        (ofRule (.tokenBucket (.ofMillis 1 1000))).admitted
          (requests (.fresh ⟨"c1", .standard⟩ (.limited 3) 0) [0, 200, 400, 500, 600]) := by
  have hsteady : Steady "c1" 3
      (requests (.fresh ⟨"c1", .standard⟩ (.limited 3) 0) [0, 200, 400, 500, 600, 666]) :=
    steady_requests (.fresh ⟨"c1", .standard⟩ (.limited 3) 0) rfl (by decide) (by decide)
  refine ⟨by decide, ?_⟩
  exact (tokenBucket_pays_dues 1 (by decide) (by decide)).1 "c1"
    (requests (.fresh ⟨"c1", .standard⟩ (.limited 3) 0) [0, 200, 400, 500, 600]) _ 666 hsteady (by decide) (by decide)

end Algorithm
end AdmissionControl
