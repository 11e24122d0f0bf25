import AdmissionControl.Rule

/-!
# What a decision leaves of a record

* `Record.Alike` — a decision changes the quota of a record at most: whom it is about, its policy and its count
  of requests stay as they are.
* `Quota.Spends` — what an admission against a quota makes of a record: it uses one unit more, or the first one
  after a reset.
-/

namespace AdmissionControl

/-! ## Records -/

/-- Two records that differ in their quotas at most. -/
structure Record.Alike (r r' : Record) : Prop where
  /-- They are about the same client. -/
  client_eq : r'.client = r.client
  /-- The same policy applies. -/
  policy_eq : r'.policy = r.policy
  /-- The same number of requests was admitted. -/
  requests_eq : r'.requests = r.requests

theorem Record.Alike.refl (r : Record) : r.Alike r := ⟨rfl, rfl, rfl⟩

theorem Record.Alike.trans {r r' r'' : Record} (h : r.Alike r') (h' : r'.Alike r'') : r.Alike r'' :=
  ⟨h'.client_eq.trans h.client_eq, h'.policy_eq.trans h.policy_eq, h'.requests_eq.trans h.requests_eq⟩

/-- What an admission against a quota makes of a record: it uses one unit more in the same period, or the first
unit of a later one.  Either way there was a unit left. -/
structure Quota.Spends (limit : Nat) (r r' : Record) : Prop where
  /-- The quota is not exceeded. -/
  le_limit : r'.quotaUsed ≤ limit
  /-- One unit is used. -/
  uses : r'.lastReset = r.lastReset ∧ r'.quotaUsed = r.quotaUsed + 1 ∨
    r.lastReset < r'.lastReset ∧ r'.quotaUsed = 1

namespace Quota

variable {q : Quota} {record : Record} {now : Nat}

theorem alike_decide (q : Quota) (record : Record) (now : Nat) :
    record.Alike (q.decide record now).record := by
  have hcurrent : record.Alike (q.current record now) := by
    rw [current]
    split
    · exact ⟨rfl, rfl, rfl⟩
    · exact .refl record
  rw [decide]
  split
  · exact hcurrent
  · exact ⟨hcurrent.client_eq, hcurrent.policy_eq, hcurrent.requests_eq⟩

/-- An admission spends one unit. -/
theorem spends_decide (hlimit : q.limit ≤ Word.max) (hallowed : (q.decide record now).isAllowed = true) :
    Spends q.limit record (q.decide record now).record := by
  rw [decide] at hallowed ⊢
  split at hallowed
  · exact absurd hallowed Bool.false_ne_true
  · rename_i hleft
    rw [if_neg hleft]
    have hused : (q.current record now).useQuota.quotaUsed = (q.current record now).quotaUsed + 1 :=
      Word.saturate_of_le (by omega)
    refine ⟨by rw [hused]; omega, ?_⟩
    rw [hused]
    by_cases hover : q.isOver record now = true
    · -- a period is over, so time has passed since its beginning
      have hcurrent : q.current record now = record.resetQuota now := if_pos hover
      have hpassed : q.period ≤ now - record.lastReset := of_decide_eq_true hover
      have hpos := q.period_pos
      right
      rw [hcurrent]
      exact ⟨show record.lastReset < now by omega, rfl⟩
    · have hcurrent : q.current record now = record := if_neg hover
      left
      rw [hcurrent]
      exact ⟨rfl, rfl⟩

end Quota

/-! ## Rules -/

namespace Rule

variable {rule : Rule} {record : Record} {now : Nat} {kept : Option rule.Kept} {admission : Admission}

theorem record_meter {σ : Type} (decide : Nat → Option σ → Verdict × σ) (record : Record) (kept : Option σ) :
    (meter decide record kept).1.record = record := by
  rw [meter]
  split
  · rfl
  · rfl

theorem record_foresee {σ : Type} {estimate : Nat → Option σ → Option Verdict} {kept : Option σ}
    (h : foresee estimate record kept = some admission) : admission.record = record := by
  rw [foresee] at h
  split at h
  · obtain ⟨verdict, -, rfl⟩ := Option.map_eq_some_iff.1 h
    rfl
  · exact absurd h (by simp)

theorem alike_decide (rule : Rule) (record : Record) (now : Nat) (kept : Option rule.Kept) :
    record.Alike (rule.decide record now kept).1.record := by
  cases rule with
  | fixedWindow w =>
      rw [decide, record_meter]
      exact .refl record
  | slidingWindow w =>
      rw [decide, record_meter]
      exact .refl record
  | tokenBucket b =>
      rw [decide, record_meter]
      exact .refl record
  | leakyBucket b =>
      rw [decide, record_meter]
      exact .refl record
  | quota q => exact q.alike_decide record now

theorem alike_estimate (h : rule.estimate record now kept = some admission) : record.Alike admission.record := by
  cases rule with
  | fixedWindow w =>
      rw [record_foresee h]
      exact .refl record
  | slidingWindow w =>
      rw [record_foresee h]
      exact .refl record
  | tokenBucket b =>
      rw [record_foresee h]
      exact .refl record
  | leakyBucket b =>
      rw [record_foresee h]
      exact .refl record
  | quota q =>
      obtain ⟨-, -, rfl⟩ := Quota.estimate_eq_some_iff.1 h
      exact .refl record

end Rule

theorem Algorithm.decide_of_quota {a : Algorithm} {q : Quota} (h : a.rule = .quota q) (record : Record)
    (now : Nat) : (a.decide record now).1 = q.decide record now := by
  obtain ⟨rule, kept⟩ := a
  subst h
  rfl

theorem Algorithm.estimate_of_quota {a : Algorithm} {q : Quota} (h : a.rule = .quota q) (record : Record)
    (now : Nat) : a.estimate record now = q.estimate record now := by
  obtain ⟨rule, kept⟩ := a
  subst h
  rfl

end AdmissionControl
