import Mathlib.Data.List.Basic
import AdmissionControl.Proofs.Rule.Denials

/-!
# Two algorithms that a client cannot tell apart

A limiter answers many denials from an estimate, which leaves no trace, where an algorithm that is asked
one request after another decides them.  The two then keep different things: a sliding window that decides
drops the times that have left it, and a leaky bucket without capacity books what has leaked.  No answer
shows the difference, as long as time goes forward.

* `Rule.Agree` — what two algorithms keep of a client may differ in that way, from a time on.
* `Rule.Agree.decide`, `Rule.Agree.estimate` — **the two steps of the simulation**: both algorithms decide,
  or one estimates a denial and the other decides.
* `Algorithm.SameFor`, `Algorithm.Agrees` — the same for whole algorithms and one of their clients.
-/

namespace AdmissionControl

/-! ## Denials that are decided instead of estimated -/

theorem FixedWindow.decide_of_estimate {w : FixedWindow} {limit now : Nat} {kept : Option Counter}
    {v : Verdict} (hsound : ∀ c ∈ kept, c.count ≤ Policy.maxRate)
    (h : w.estimate limit now kept = some v) :
    (w.decide limit now kept).1 = v ∧ kept = some (w.decide limit now kept).2 := by
  cases kept with
  | none => exact absurd h (by simp [FixedWindow.estimate])
  | some c =>
      obtain ⟨hopen, hfull, rfl⟩ := FixedWindow.estimate_eq_some_iff.1 h
      rw [decide_of_full (hsound c rfl) hopen hfull]
      exact ⟨rfl, rfl⟩

theorem TokenBucket.decide_of_estimate {r : TokenBucket} {rate now : Nat} {kept : Option Bucket}
    {v : Verdict} (h : r.estimate rate now kept = some v) :
    (r.decide rate now kept).1 = v ∧ kept = some (r.decide rate now kept).2 := by
  cases kept with
  | none => exact absurd h (by simp [TokenBucket.estimate])
  | some b =>
      obtain ⟨hdry, rfl⟩ := TokenBucket.estimate_eq_some_iff.1 h
      rw [decide_of_dry hdry]
      exact ⟨rfl, rfl⟩

/-- A log as it counts at one time counts the same at later times. -/
theorem SlidingWindow.current_current {w : SlidingWindow} {time now : Nat} (h : time ≤ now)
    (l : Log) : w.current (w.current l time) now = w.current l now := by
  by_cases htime : w.window ≤ time
  · have hnow : w.window ≤ now := Nat.le_trans htime h
    have hcutoff : time - w.window ≤ now - w.window := Nat.sub_le_sub_right h _
    simp only [current, if_pos htime, if_pos hnow, Log.live]
    congr 1
    induction l.times with
    | nil => rfl
    | cons t rest ih =>
        by_cases ht : t ≤ time - w.window
        · have hlater : t ≤ now - w.window := Nat.le_trans ht hcutoff
          simpa [List.dropWhile_cons, ht, hlater] using ih
        · simp [List.dropWhile_cons, ht]
  · have hlog : w.current l time = l := by simp only [current, if_neg htime]
    rw [hlog]

/-- A full bucket whose level leaves no room stays as it was. -/
theorem LeakyBucket.drain_of_full {r : LeakyBucket} {rate now : Nat} {b : Bucket}
    (hcapacity : 0 < r.capacity) (hlevel : b.level ≤ r.capacity)
    (hfull : r.capacity ≤ b.projected now rate) : b.drain now rate = b := by
  have hnone : leaked (now - b.drained) rate = 0 := by
    simp only [Bucket.projected] at hfull
    omega
  have hwet : b.level ≠ 0 := by
    simp only [Bucket.projected] at hfull
    omega
  simp only [Bucket.drain, hnone, Nat.sub_zero, if_neg hwet, Nat.lt_irrefl, if_false]

/-- Without capacity, every request is denied for the same time. -/
theorem LeakyBucket.decide_of_zero {r : LeakyBucket} {rate now : Nat} {kept : Option Bucket}
    (hzero : r.capacity = 0) (hsound : ∀ b ∈ kept, b.level ≤ r.capacity) :
    r.decide rate now kept =
      (.denyMillis (r.retryAfter 0 rate), (kept.getD (Bucket.fresh now)).drain now rate) := by
  have hdry : levelAt kept now rate = 0 := by
    cases kept with
    | none => exact levelAt_none
    | some b =>
        have hlevel : b.level ≤ r.capacity := hsound b rfl
        simp only [levelAt, Option.getD_some, Bucket.projected]
        omega
  rw [decide_of_full (by omega), hdry]

/-! ## One client -/

namespace Rule

/-- No answer from `time` on shows a difference between what is kept of a client. -/
def Alike : (rule : Rule) → Nat → Option rule.Kept → Option rule.Kept → Prop
  | slidingWindow w, time, kept, kept' => ∀ now, time ≤ now →
      w.current (kept.getD .empty) now = w.current (kept'.getD .empty) now
  | leakyBucket r, _, kept, kept' => 0 < r.capacity → kept = kept'
  | fixedWindow _, _, kept, kept' => kept = kept'
  | tokenBucket _, _, kept, kept' => kept = kept'
  | quota _, _, _, _ => True

/-- Both are in range, and no answer from `time` on shows a difference. -/
structure Agree (rule : Rule) (time : Nat) (kept kept' : Option rule.Kept) : Prop where
  /-- The one is in range. -/
  sound : rule.Sound kept
  /-- The other is in range. -/
  sound' : rule.Sound kept'
  /-- They answer alike. -/
  alike : rule.Alike time kept kept'

variable {rule : Rule} {time now : Nat} {record : Record} {kept kept' : Option rule.Kept}

theorem agree_none (rule : Rule) (time : Nat) : rule.Agree time none none := by
  refine ⟨rule.sound_none, rule.sound_none, ?_⟩
  cases rule with
  | slidingWindow w => exact fun _ _ => rfl
  | leakyBucket r => exact fun _ => rfl
  | fixedWindow w => rfl
  | tokenBucket r => rfl
  | quota q => trivial

theorem Agree.mono (h : rule.Agree time kept kept') (hnow : time ≤ now) :
    rule.Agree now kept kept' := by
  refine ⟨h.sound, h.sound', ?_⟩
  have halike := h.alike
  cases rule with
  | slidingWindow w => exact fun later hlater => halike later (Nat.le_trans hnow hlater)
  | leakyBucket r => exact halike
  | fixedWindow w => exact halike
  | tokenBucket r => exact halike
  | quota q => trivial

/-- A metered rule answers alike if its verdicts do. -/
theorem meter_alike {σ : Type} {P : Option σ → Option σ → Prop}
    {decide : Nat → Option σ → Verdict × σ} {kept kept' : Option σ} (h : P kept kept')
    (hdecide : ∀ rate, (decide rate kept).1 = (decide rate kept').1 ∧
      P (some (decide rate kept).2) (some (decide rate kept').2)) :
    (meter decide record kept).1 = (meter decide record kept').1 ∧
      P (meter decide record kept).2 (meter decide record kept').2 := by
  simp only [meter]
  cases record.policy.rate? with
  | none => exact ⟨rfl, h⟩
  | some rate =>
      obtain ⟨hverdict, hkept⟩ := hdecide rate
      exact ⟨congrArg (Admission.mk · record) hverdict, hkept⟩

/-- Where a metered rule estimates, another state answers alike if its verdict is the estimated one. -/
theorem foresee_alike {σ : Type} {P : Option σ → Option σ → Prop}
    {estimate : Nat → Option σ → Option Verdict} {decide : Nat → Option σ → Verdict × σ}
    {kept kept' : Option σ} {a : Admission} (h : foresee estimate record kept = some a)
    (hdecide : ∀ rate v, estimate rate kept = some v → (decide rate kept').1 = v ∧
      P kept (some (decide rate kept').2)) :
    (meter decide record kept').1 = a ∧ P kept (meter decide record kept').2 := by
  simp only [foresee, meter] at h ⊢
  cases hrate : record.policy.rate? with
  | none =>
      rw [hrate] at h
      exact absurd h (by simp)
  | some rate =>
      rw [hrate] at h
      obtain ⟨v, hv, rfl⟩ := Option.map_eq_some_iff.1 h
      obtain ⟨hverdict, hkept⟩ := hdecide rate v hv
      exact ⟨congrArg (Admission.mk · record) hverdict, hkept⟩

/-- **Both decide**: the answers are the same, and the states still agree. -/
theorem Agree.decide (h : rule.Agree time kept kept') (record : Record) (hnow : time ≤ now) :
    (rule.decide record now kept).1 = (rule.decide record now kept').1 ∧
      rule.Agree now (rule.decide record now kept).2 (rule.decide record now kept').2 := by
  suffices halike : (rule.decide record now kept).1 = (rule.decide record now kept').1 ∧
      rule.Alike now (rule.decide record now kept).2 (rule.decide record now kept').2 from
    ⟨halike.1, sound_decide h.sound, sound_decide h.sound', halike.2⟩
  have hmono := (h.mono hnow).alike
  cases rule with
  | fixedWindow w =>
      obtain rfl : kept = kept' := hmono
      exact ⟨rfl, rfl⟩
  | tokenBucket r =>
      obtain rfl : kept = kept' := hmono
      exact ⟨rfl, rfl⟩
  | quota q => exact ⟨rfl, trivial⟩
  | slidingWindow w =>
      refine meter_alike (P := (slidingWindow w).Alike now) hmono fun limit => ?_
      have hsame : w.decide limit now kept = w.decide limit now kept' := by
        rw [SlidingWindow.decide, SlidingWindow.decide, hmono now (Nat.le_refl now)]
      rw [hsame]
      exact ⟨rfl, fun _ _ => rfl⟩
  | leakyBucket r =>
      refine meter_alike (P := (leakyBucket r).Alike now) hmono fun rate => ?_
      rcases Nat.eq_zero_or_pos r.capacity with hzero | hpos
      · rw [LeakyBucket.decide_of_zero hzero h.sound, LeakyBucket.decide_of_zero hzero h.sound']
        exact ⟨rfl, fun hpos => absurd hpos (by omega)⟩
      · obtain rfl : kept = kept' := hmono hpos
        exact ⟨rfl, fun _ => rfl⟩

/-- **One estimates and the other decides**: the decision is the estimated denial, and the states still
agree. -/
theorem Agree.estimate (h : rule.Agree time kept kept') (hnow : time ≤ now) {a : Admission}
    (ha : rule.estimate record now kept = some a) :
    (rule.decide record now kept').1 = a ∧
      rule.Agree now kept (rule.decide record now kept').2 := by
  suffices halike : (rule.decide record now kept').1 = a ∧
      rule.Alike now kept (rule.decide record now kept').2 from
    ⟨halike.1, h.sound, sound_decide h.sound', halike.2⟩
  have hmono := (h.mono hnow).alike
  cases rule with
  | fixedWindow w =>
      obtain rfl : kept = kept' := hmono
      refine foresee_alike (P := (fixedWindow w).Alike now) ha fun limit v hv => ?_
      exact FixedWindow.decide_of_estimate h.sound hv
  | tokenBucket r =>
      obtain rfl : kept = kept' := hmono
      refine foresee_alike (P := (tokenBucket r).Alike now) ha fun rate v hv => ?_
      exact TokenBucket.decide_of_estimate hv
  | quota q =>
      have hq : q.estimate record now = some a := ha
      rw [Quota.estimate] at hq
      split at hq
      · exact absurd hq (by simp)
      · exact ⟨Option.some.inj hq, trivial⟩
  | slidingWindow w =>
      refine foresee_alike (P := (slidingWindow w).Alike now) ha fun limit v hv => ?_
      cases kept with
      | none => exact absurd hv (by simp [SlidingWindow.estimate])
      | some l =>
          obtain ⟨hfull, rfl⟩ := SlidingWindow.estimate_eq_some_iff.1 hv
          have hcurrent : w.current l now = w.current (kept'.getD .empty) now :=
            hmono now (Nat.le_refl now)
          rw [hcurrent] at hfull ⊢
          rw [SlidingWindow.decide_of_full hfull]
          refine ⟨rfl, fun later hlater => ?_⟩
          rw [Option.getD_some, Option.getD_some, SlidingWindow.current_current hlater]
          exact hmono later hlater
  | leakyBucket r =>
      refine foresee_alike (P := (leakyBucket r).Alike now) ha fun rate v hv => ?_
      cases kept with
      | none => exact absurd hv (by simp [LeakyBucket.estimate])
      | some b =>
          obtain ⟨hfull, rfl⟩ := LeakyBucket.estimate_eq_some_iff.1 hv
          rcases Nat.eq_zero_or_pos r.capacity with hzero | hpos
          · have hdry : b.projected now rate = 0 := by
              have hlevel : b.level ≤ r.capacity := h.sound b rfl
              simp only [LeakyBucket.Bucket.projected]
              omega
            rw [hdry, LeakyBucket.decide_of_zero hzero h.sound']
            exact ⟨rfl, fun hpos => absurd hpos (by omega)⟩
          · obtain rfl : some b = kept' := hmono hpos
            rw [LeakyBucket.decide_of_full hfull]
            refine ⟨rfl, fun _ => ?_⟩
            exact congrArg some (LeakyBucket.drain_of_full hpos (h.sound b rfl) hfull).symm

end Rule
/-! ## Whole algorithms -/

namespace Algorithm

/-- Two algorithms keep the same of a client. -/
inductive SameFor (client : String) : Algorithm → Algorithm → Prop
  /-- One rule, and tables that have the same under the client. -/
  | of_get? {rule : Rule} {kept kept' : Table String rule.Kept}
      (h : kept.get? client = kept'.get? client) : SameFor client ⟨rule, kept⟩ ⟨rule, kept'⟩

/-- No answer to a client from `time` on shows a difference between two algorithms. -/
inductive Agrees (time : Nat) (client : String) : Algorithm → Algorithm → Prop
  /-- One rule, and tables that agree on the client. -/
  | of_agree {rule : Rule} {kept kept' : Table String rule.Kept}
      (h : rule.Agree time (kept.get? client) (kept'.get? client)) :
      Agrees time client ⟨rule, kept⟩ ⟨rule, kept'⟩

variable {client : String} {a b c : Algorithm} {record : Record} {time now : Nat}

theorem SameFor.refl (client : String) (a : Algorithm) : SameFor client a a := .of_get? rfl

theorem SameFor.symm (h : SameFor client a b) : SameFor client b a := by
  obtain ⟨h⟩ := h
  exact .of_get? h.symm

theorem SameFor.trans (hab : SameFor client a b) (hbc : SameFor client b c) :
    SameFor client a c := by
  obtain ⟨hab⟩ := hab
  obtain ⟨hbc⟩ := hbc
  exact .of_get? (hab.trans hbc)

/-- A call leaves what is kept of the other clients. -/
theorem sameFor_after {call : Call} (h : call.client ≠ client) :
    SameFor client a (a.after call) := by
  obtain ⟨rule, kept⟩ := a
  cases call with
  | decide record now =>
      have hne : client ≠ record.client.id := Ne.symm h
      exact .of_get? ((Table.get?_put ..).trans (if_neg hne)).symm
  | evict x =>
      have hne : client ≠ x := Ne.symm h
      exact .of_get? ((Table.get?_erase ..).trans (if_neg hne)).symm

theorem sameFor_run {calls : List Call} (h : ∀ call ∈ calls, call.client ≠ client)
    (a : Algorithm) : SameFor client a (a.run calls) := by
  induction calls generalizing a with
  | nil => exact .refl client a
  | cons call rest ih =>
      have hrest := ih (fun c hc => h c (List.mem_cons_of_mem _ hc)) (a.after call)
      exact (sameFor_after (h call (List.mem_cons_self ..))).trans hrest

theorem SameFor.reply?_eq {call : Call} (h : SameFor call.client a b) :
    a.reply? call = b.reply? call := by
  obtain @⟨rule, kept, kept', h⟩ := h
  cases call with
  | decide record now =>
      have hkept : kept.get? record.client.id = kept'.get? record.client.id := h
      simp only [reply?, Algorithm.decide, get?, hkept]
  | evict client => rfl

theorem SameFor.after {call : Call} (h : SameFor client a b) (hclient : call.client = client) :
    SameFor client (a.after call) (b.after call) := by
  subst hclient
  obtain @⟨rule, kept, kept', h⟩ := h
  cases call with
  | decide record now =>
      have hkept : kept.get? record.client.id = kept'.get? record.client.id := h
      refine .of_get? ?_
      simp only [get?, Call.client, Table.get?_put, hkept]
  | evict client =>
      refine .of_get? ?_
      simp only [Call.client, Table.get?_erase, if_true]

theorem Agrees.mono (h : Agrees time client a b) (hnow : time ≤ now) : Agrees now client a b := by
  obtain ⟨h⟩ := h
  exact .of_agree (h.mono hnow)

theorem agrees_ofRule (rule : Rule) (time : Nat) (client : String) :
    Agrees time client (ofRule rule) (ofRule rule) :=
  .of_agree (rule.agree_none time)

/-- Agreement is about nothing but what is kept of the client. -/
theorem Agrees.congr {a' b' : Algorithm} (h : Agrees time client a b) (ha : SameFor client a a')
    (hb : SameFor client b b') : Agrees time client a' b' := by
  obtain ⟨h⟩ := h
  obtain ⟨ha⟩ := ha
  obtain ⟨hb⟩ := hb
  refine .of_agree ?_
  rw [← ha, ← hb]
  exact h

/-- Both decide for the client. -/
theorem Agrees.decide (h : Agrees time record.client.id a b) (hnow : time ≤ now) :
    (a.decide record now).1 = (b.decide record now).1 ∧
      Agrees now record.client.id (a.decide record now).2 (b.decide record now).2 := by
  obtain @⟨rule, kept, kept', h⟩ := h
  obtain ⟨hanswer, hagree⟩ := h.decide record hnow
  refine ⟨hanswer, .of_agree ?_⟩
  rw [Table.get?_put, Table.get?_put, if_pos rfl, if_pos rfl]
  exact hagree

/-- One estimates for the client, and the other decides. -/
theorem Agrees.estimate (h : Agrees time record.client.id a b) (hnow : time ≤ now)
    {answer : Admission} (hanswer : a.estimate record now = some answer) :
    (b.decide record now).1 = answer ∧ Agrees now record.client.id a (b.decide record now).2 := by
  obtain @⟨rule, kept, kept', h⟩ := h
  obtain ⟨hdecided, hagree⟩ := h.estimate hnow hanswer
  refine ⟨hdecided, .of_agree ?_⟩
  rw [Table.get?_put, if_pos rfl]
  exact hagree

/-- Both forget a client. -/
theorem Agrees.evict (h : Agrees time client a b) (x : String) :
    Agrees time client (a.evict x) (b.evict x) := by
  obtain @⟨rule, kept, kept', h⟩ := h
  refine .of_agree ?_
  rw [Table.get?_erase, Table.get?_erase]
  split
  · exact rule.agree_none time
  · exact h

end Algorithm
end AdmissionControl
