import Mathlib.Data.List.Basic
import AdmissionControl.Proofs.Rule.Denials

/-!
# An estimate foresees exactly the denials

An estimate reads what is kept of a client and changes nothing; a decision books, counts and forgets.  The
two are computed in different ways — an estimate compares, where a decision refills, drains, increments and
takes back — and this file proves that they agree, in every state that a run can reach.

* `Rule.estimate_eq_some_iff_denied` — one client: what is estimated is what would be decided, and it is
  estimated exactly when it is a denial.
* `Algorithm.estimate_run_eq_some_iff` — **the same after every run**, over any clients, limits and times.

Two things have to be assumed of the rule and the moment.  The rule can admit somebody at all
(`Rule.CanAdmit`): a bucket without capacity denies a client of which nothing is kept, and an estimate never
speaks about such a client.  And a refill does not run out of the word (`Rule.RefillFits`): beyond it the
count of tokens starts again from zero, while the estimate stops at the largest word.
-/

namespace AdmissionControl

/-! ## Denials -/

/-- The verdict, if it is a denial. -/
def Verdict.denial? (v : Verdict) : Option Verdict := if v.isAllowed then none else some v

@[simp] theorem Verdict.denial?_allowed : Verdict.allowed.denial? = none := rfl

theorem Verdict.denial?_eq_some_iff {u v : Verdict} :
    u.denial? = some v ↔ u = v ∧ v.isAllowed = false := by
  cases u with
  | allowed =>
      refine ⟨fun h => absurd h (by simp), ?_⟩
      rintro ⟨rfl, h⟩
      exact absurd h (by simp)
  | denied hint =>
      refine ⟨fun h => ?_, fun h => by rw [← h.1]; rfl⟩
      obtain rfl : Verdict.denied hint = v := Option.some.inj h
      exact ⟨rfl, rfl⟩

/-! ## One client -/

theorem FixedWindow.estimate_eq_denial? {w : FixedWindow} {limit now : Nat}
    {kept : Option Counter} (hlimit : 0 < limit) (h : ∀ c ∈ kept, c.count ≤ Policy.maxRate) :
    w.estimate limit now kept = (w.decide limit now kept).1.denial? := by
  cases kept with
  | none => rw [decide_none hlimit]; rfl
  | some c =>
      have hc : c.count ≤ Policy.maxRate := h c rfl
      by_cases hfull : now - c.start < w.window ∧ limit ≤ c.count
      · rw [FixedWindow.estimate_eq_some_iff.2 ⟨hfull.1, hfull.2, rfl⟩,
          decide_of_full hc hfull.1 hfull.2]
        rfl
      · rw [decide_of_room hc (by omega)]
        refine Option.eq_none_iff_forall_ne_some.2 fun v hv => hfull ?_
        obtain ⟨hopen, hcount, -⟩ := FixedWindow.estimate_eq_some_iff.1 hv
        exact ⟨hopen, hcount⟩

theorem SlidingWindow.estimate_eq_denial? {w : SlidingWindow} {limit now : Nat}
    {kept : Option Log} (hlimit : 0 < limit) :
    w.estimate limit now kept = (w.decide limit now kept).1.denial? := by
  cases kept with
  | none => rw [decide_of_room (by rw [Option.getD_none, size_current_empty]; exact hlimit)]; rfl
  | some l =>
      by_cases hfull : limit ≤ (w.current l now).size
      · rw [SlidingWindow.estimate_eq_some_iff.2 ⟨hfull, rfl⟩, decide_of_full hfull]
        rfl
      · rw [decide_of_room (Nat.not_le.1 hfull)]
        refine Option.eq_none_iff_forall_ne_some.2 fun v hv => hfull ?_
        exact (SlidingWindow.estimate_eq_some_iff.1 hv).1

theorem TokenBucket.estimate_eq_denial? {r : TokenBucket} {rate now : Nat} {kept : Option Bucket}
    (hcapacity : 0 < r.capacity)
    (hfits : ∀ b ∈ kept,
      b.tokens + Word.saturate (accrued (now - b.refilled) rate r.window) ≤ Word.max) :
    r.estimate rate now kept = (r.decide rate now kept).1.denial? := by
  cases kept with
  | none => rw [decide_none hcapacity]; rfl
  | some b =>
      by_cases hdry : b.peek now rate r.window = 0
      · rw [TokenBucket.estimate_eq_some_iff.2 ⟨hdry, rfl⟩, decide_of_dry hdry]
        rfl
      · have htokens : 0 < (b.refill now rate r.window).2.tokens := by
          rw [Bucket.tokens_refill (hfits b rfl)]
          exact Nat.pos_of_ne_zero hdry
        have hallowed : (r.decide rate now (some b)).1 = .allowed := decide_of_token htokens
        rw [hallowed]
        refine Option.eq_none_iff_forall_ne_some.2 fun v hv => hdry ?_
        exact (TokenBucket.estimate_eq_some_iff.1 hv).1

theorem LeakyBucket.estimate_eq_denial? {r : LeakyBucket} {rate now : Nat} {kept : Option Bucket}
    (hcapacity : 0 < r.capacity) :
    r.estimate rate now kept = (r.decide rate now kept).1.denial? := by
  cases kept with
  | none => rw [decide_of_room (by rw [levelAt_none]; exact hcapacity)]; rfl
  | some b =>
      by_cases hfull : r.capacity ≤ b.projected now rate
      · rw [LeakyBucket.estimate_eq_some_iff.2 ⟨hfull, rfl⟩, decide_of_full hfull]
        rfl
      · rw [decide_of_room (Nat.not_le.1 hfull)]
        refine Option.eq_none_iff_forall_ne_some.2 fun v hv => hfull ?_
        exact (LeakyBucket.estimate_eq_some_iff.1 hv).1

theorem Quota.estimate_eq_some_iff_denied {q : Quota} {record : Record} {now : Nat}
    {a : Admission} (hlimit : 0 < q.limit) :
    q.estimate record now = some a ↔ q.decide record now = a ∧ a.isAllowed = false := by
  rw [Quota.estimate_eq_some_iff]
  constructor
  · rintro ⟨hrunning, hspent, rfl⟩
    exact ⟨decide_of_spent hrunning hspent, rfl⟩
  · rintro ⟨rfl, hdenied⟩
    by_cases hfull : now - record.lastReset < q.period ∧ q.limit ≤ record.quotaUsed
    · exact ⟨hfull.1, hfull.2, decide_of_spent hfull.1 hfull.2⟩
    · rw [Admission.isAllowed, decide_of_budget hlimit (by omega)] at hdenied
      exact absurd hdenied (by simp)

namespace Rule

/-- The rule admits a client of which nothing is kept: buckets and budgets are not empty. -/
def CanAdmit : Rule → Prop
  | tokenBucket r => 0 < r.capacity
  | leakyBucket r => 0 < r.capacity
  | quota q => 0 < q.limit
  | fixedWindow _ | slidingWindow _ => True

/-- The tokens that come in until `now` find room in the word. -/
def RefillFits : (rule : Rule) → Record → Nat → Option rule.Kept → Prop
  | tokenBucket r, record, now, kept =>
      ∀ b ∈ kept, ∀ rate ∈ record.policy.rate?,
        b.tokens + Word.saturate (TokenBucket.accrued (now - b.refilled) rate r.window) ≤ Word.max
  | fixedWindow _, _, _, _ | slidingWindow _, _, _, _ | leakyBucket _, _, _, _ => True
  | quota _, _, _, _ => True

/-- For a record with a rate, what holds of the verdicts of a metered rule holds of its admissions. -/
theorem foresee_eq_some_iff {σ : Type} {estimate : Nat → Option σ → Option Verdict}
    {decide : Nat → Option σ → Verdict × σ} {record : Record} {kept : Option σ} {rate : Nat}
    {a : Admission} (hrate : record.policy.rate? = some rate)
    (h : estimate rate kept = (decide rate kept).1.denial?) :
    foresee estimate record kept = some a ↔
      (meter decide record kept).1 = a ∧ a.isAllowed = false := by
  simp only [foresee, meter, hrate, h, Option.map_eq_some_iff, Verdict.denial?_eq_some_iff]
  constructor
  · rintro ⟨v, ⟨hv, hdenied⟩, rfl⟩
    exact ⟨by rw [hv], hdenied⟩
  · rintro ⟨rfl, hdenied⟩
    exact ⟨_, ⟨rfl, hdenied⟩, rfl⟩

theorem estimate_eq_some_iff_denied {rule : Rule} {record : Record} {now rate : Nat}
    {kept : Option rule.Kept} {a : Admission} (hrule : rule.CanAdmit)
    (hrate : record.policy.rate? = some rate) (hpos : 0 < rate) (hkept : rule.Sound kept)
    (hfits : rule.RefillFits record now kept) :
    rule.estimate record now kept = some a ↔
      (rule.decide record now kept).1 = a ∧ a.isAllowed = false := by
  cases rule with
  | fixedWindow w => exact foresee_eq_some_iff hrate (FixedWindow.estimate_eq_denial? hpos hkept)
  | slidingWindow w => exact foresee_eq_some_iff hrate (SlidingWindow.estimate_eq_denial? hpos)
  | tokenBucket r =>
      refine foresee_eq_some_iff hrate (TokenBucket.estimate_eq_denial? hrule ?_)
      intro b hb
      exact hfits b hb rate hrate
  | leakyBucket r => exact foresee_eq_some_iff hrate (LeakyBucket.estimate_eq_denial? hrule)
  | quota q => exact Quota.estimate_eq_some_iff_denied hrule

end Rule

/-! ## After every run -/

namespace Algorithm

/-- **Estimates agree with decisions.**  After any run — over any clients, under any limits, at times that
may also go back — an estimate for a record with a rate answers exactly when a decision on the same state
at the same time would deny, and then with the admission of that decision: the same verdict, hint and
record.  The estimate itself leaves no trace, since it gives back no algorithm. -/
theorem estimate_run_eq_some_iff (rule : Rule) (hrule : rule.CanAdmit) (calls : List Call)
    (record : Record) (rate : UInt32) (hpolicy : record.policy = .limited rate)
    (hrate : 1 ≤ rate.toNat) (now : Nat)
    (hfits : ((ofRule rule).run calls).rule.RefillFits record now
      (((ofRule rule).run calls).get? record.client.id)) (a : Admission) :
    ((ofRule rule).run calls).estimate record now = some a ↔
      (((ofRule rule).run calls).decide record now).1 = a ∧ a.isAllowed = false := by
  have hsound := sound_run (sound_ofRule rule) calls
  have hcan : ((ofRule rule).run calls).rule.CanAdmit := by
    rw [rule_run]
    exact hrule
  have hrate? : record.policy.rate? = some rate.toNat := by rw [hpolicy]; rfl
  exact Rule.estimate_eq_some_iff_denied hcan hrate? hrate (hsound record.client.id) hfits

/-- A bucket of one token, spent at 0 under a rate of two a second: at 100 the estimate foresees the denial
of the decision, with the 400 milliseconds that are missing of the next token. -/
theorem estimate_after_last_token :
    ((ofRule (.tokenBucket (.ofMillis 1 1000))).run
        [.decide (Record.fresh ⟨"c1", .standard⟩ (.limited 2) 0) 0]).estimate
      (Record.fresh ⟨"c1", .standard⟩ (.limited 2) 0) 100 =
      some ⟨.denyMillis 400, Record.fresh ⟨"c1", .standard⟩ (.limited 2) 0⟩ := by
  refine (estimate_run_eq_some_iff (.tokenBucket (.ofMillis 1 1000)) Nat.one_pos _ _ 2 rfl
    (by decide) 100 ?_ _).2 ⟨rfl, rfl⟩
  intro b hb rate hr
  obtain rfl : TokenBucket.Bucket.mk 0 0 = b := Option.some.inj hb
  obtain rfl : 2 = rate := Option.some.inj hr
  decide

end Algorithm
end AdmissionControl
