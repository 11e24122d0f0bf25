import AdmissionControl.Proofs.Rule.Denials
import AdmissionControl.Proofs.Rule.Records

/-!
# The budget of a chain of records

A quota keeps nothing of its clients.  What a client has used stands in its record, and the record goes back and forth:
each request presents the one that the request before returned.  This file is about such a chain.  Its periods have no
fixed places, since each begins with the request that finds the one before over, so a stretch of time as long as a
period meets two of them.

* `Quota.chain`, `Quota.recordAfter`, `Quota.spentAt` — the answers of a chain, the record after it, and the times of
  its admissions.
* `Quota.decide_cases` — what a decision does: it resets, it spends, or it hands the record back.
* `Quota.Budget` — the invariant: the record counts the admissions of its period, and those before were not too many.
* `Quota.Budget.decide`, `Quota.Budget.run` — **one decision keeps it, and so does a chain.**
* `Quota.chain_within_budget` — what follows for the admissions, the denials, the resets and the records.
-/

namespace AdmissionControl

namespace Quota

variable {q : Quota} {record record' : Record} {now later : Nat} {past old new times : List Nat}

/-! ## Chains -/

/-- The answers to requests at the given times, each made with the record that the one before returned. -/
def chain (q : Quota) : Record → List Nat → List Admission
  | _, [] => []
  | record, now :: rest => q.decide record now :: q.chain (q.decide record now).record rest

/-- The record that the last of such requests returned. -/
def recordAfter (q : Quota) (record : Record) (times : List Nat) : Record :=
  times.foldl (fun record now => (q.decide record now).record) record

/-- The times of those that were admitted. -/
def spentAt (q : Quota) : Record → List Nat → List Nat
  | _, [] => []
  | record, now :: rest =>
      (if (q.decide record now).isAllowed = true then [now] else []) ++ q.spentAt (q.decide record now).record rest

/-- The times in the stretch of the length of a period that begins at `first`. -/
def stretch (q : Quota) (first : Nat) (times : List Nat) : List Nat :=
  times.filter fun t => first ≤ t ∧ t < first + q.period

/-- Two records of a chain are of one period, or a period lies between their resets. -/
def Apart (q : Quota) (r r' : Record) : Prop :=
  r'.lastReset = r.lastReset ∨ r.lastReset + q.period ≤ r'.lastReset

theorem Apart.trans {r r' r'' : Record} (h : q.Apart r r') (h' : q.Apart r' r'') : q.Apart r r'' := by
  unfold Apart at h h' ⊢
  omega

/-- What every decision does to its record, a chain does to all of its records. -/
theorem pairwise_chain {R : Record → Record → Prop} (htrans : ∀ {r r' r''}, R r r' → R r' r'' → R r r'')
    (hstep : ∀ record now, R record (q.decide record now).record) (record : Record) (times : List Nat) :
    (record :: (q.chain record times).map Admission.record).Pairwise R := by
  induction times generalizing record with
  | nil => exact List.pairwise_singleton R record
  | cons now rest ih =>
      have hrest := ih (q.decide record now).record
      refine List.pairwise_cons.2 ⟨fun r hr => ?_, hrest⟩
      rcases List.mem_cons.1 hr with rfl | hr
      · exact hstep record now
      · exact htrans (hstep record now) ((List.pairwise_cons.1 hrest).1 r hr)

theorem stretch_append (first : Nat) (early late : List Nat) :
    q.stretch first (early ++ late) = q.stretch first early ++ q.stretch first late :=
  List.filter_append ..

theorem stretch_eq_nil {first : Nat} (h : ∀ t ∈ times, t < first ∨ first + q.period ≤ t) :
    q.stretch first times = [] := by
  refine List.filter_eq_nil_iff.2 fun t ht => ?_
  have hout := h t ht
  simp only [decide_eq_true_eq, not_and, Nat.not_lt]
  omega

/-! ## One decision -/

/-- **What a decision does.**  If the period is over it resets the budget and spends a unit of it; if there is a unit
left it spends that; and otherwise it denies and hands the record back. -/
theorem decide_cases (hlimit : 0 < q.limit) (record : Record) (now : Nat) :
    (record.lastReset + q.period ≤ now ∧ q.decide record now = ⟨.allowed, (record.resetQuota now).useQuota⟩) ∨
    (now < record.lastReset + q.period ∧ record.quotaUsed < q.limit ∧
      q.decide record now = ⟨.allowed, record.useQuota⟩) ∨
    (now < record.lastReset + q.period ∧ q.limit ≤ record.quotaUsed ∧
      q.decide record now = ⟨.denyMillis (q.retryAfter record now), record⟩) := by
  have hpos := q.period_pos
  rcases Nat.lt_or_ge (now - record.lastReset) q.period with hrunning | hover
  · have hcurrent := current_of_running hrunning
    right
    rcases Nat.lt_or_ge record.quotaUsed q.limit with hleft | hspent
    · left
      refine ⟨by omega, hleft, ?_⟩
      rw [decide, hcurrent]
      exact if_neg (Nat.not_le.2 hleft)
    · right
      exact ⟨by omega, hspent, decide_of_spent hrunning hspent⟩
  · have hcurrent : q.current record now = record.resetQuota now := if_pos (decide_eq_true hover)
    left
    refine ⟨by omega, ?_⟩
    rw [decide, hcurrent]
    exact if_neg (Nat.not_le.2 hlimit)

theorem apart_decide (hlimit : 0 < q.limit) (record : Record) (now : Nat) :
    q.Apart record (q.decide record now).record := by
  rcases decide_cases hlimit record now with ⟨hover, h⟩ | ⟨-, -, h⟩ | ⟨-, -, h⟩
  · rw [h]
    exact .inr hover
  · rw [h]
    exact .inl rfl
  · rw [h]
    exact .inl rfl

/-! ## The budget -/

/-- The admissions of a client, divided by the last reset of its record. -/
structure Spending (q : Quota) (record : Record) (old new : List Nat) : Prop where
  /-- The new ones are counted. -/
  used_eq : record.quotaUsed = new.length
  /-- There are no more of them than the budget allows. -/
  used_le : record.quotaUsed ≤ q.limit
  /-- The old ones came before the reset. -/
  before : ∀ t ∈ old, t < record.lastReset
  /-- The new ones came in the period that began with it. -/
  since : ∀ t ∈ new, record.lastReset ≤ t ∧ t < record.lastReset + q.period
  /-- A stretch that goes beyond the reset holds no more of the old ones than one budget allows. -/
  few : ∀ first, record.lastReset < first + q.period → (q.stretch first old).length ≤ q.limit

/-- What a record says at a time about the admissions of its client. -/
structure Budget (q : Quota) (now : Nat) (past : List Nat) (record : Record) : Prop where
  /-- The last reset is not ahead of time. -/
  reset_le : record.lastReset ≤ now
  /-- No stretch as long as a period holds more admissions than two budgets allow. -/
  bounded : ∀ first, (q.stretch first past).length ≤ 2 * q.limit
  /-- The record counts the last of them. -/
  spending : ∃ old new, past = old ++ new ∧ q.Spending record old new

namespace Spending

/-- In the period of the reset all of the budget counts, and nothing from before. -/
theorem filter_since (h : q.Spending record old new) :
    (old ++ new).filter (fun t => record.lastReset ≤ t) = new := by
  have hold : old.filter (fun t => record.lastReset ≤ t) = [] :=
    List.filter_eq_nil_iff.2 fun t ht => by simpa using h.before t ht
  have hnew : new.filter (fun t => record.lastReset ≤ t) = new :=
    List.filter_eq_self.2 fun t ht => by simpa using (h.since t ht).1
  rw [List.filter_append, hold, hnew, List.nil_append]

/-- A request that finds the period over begins another one. -/
theorem reset (h : q.Spending record old new) (hlimit : 0 < q.limit) (hover : record.lastReset + q.period ≤ now) :
    q.Spending (record.resetQuota now).useQuota (old ++ new) [now] where
  used_eq := rfl
  used_le := hlimit
  before := by
    intro t ht
    have hpos := q.period_pos
    rcases List.mem_append.1 ht with ht | ht
    · have hbefore := h.before t ht
      show t < now
      omega
    · exact Nat.lt_of_lt_of_le (h.since t ht).2 hover
  since := by
    intro t ht
    obtain rfl := List.mem_singleton.1 ht
    exact ⟨Nat.le_refl t, Nat.lt_add_of_pos_right q.period_pos⟩
  few := by
    intro first hfirst
    have hbeyond : now < first + q.period := hfirst
    have hold : q.stretch first old = [] := by
      refine stretch_eq_nil fun t ht => .inl ?_
      have hbefore := h.before t ht
      omega
    rw [stretch_append, hold, List.nil_append]
    calc (q.stretch first new).length
        ≤ new.length := List.length_filter_le ..
      _ = record.quotaUsed := h.used_eq.symm
      _ ≤ q.limit := h.used_le

/-- A request that finds a unit left spends it. -/
theorem spend (h : q.Spending record old new) (hword : q.limit ≤ Word.max) (hleft : record.quotaUsed < q.limit)
    (hreset : record.lastReset ≤ now) (hrunning : now < record.lastReset + q.period) :
    q.Spending record.useQuota old (new ++ [now]) := by
  have hused : record.useQuota.quotaUsed = record.quotaUsed + 1 := Word.saturate_of_le (by omega)
  refine ⟨?_, ?_, h.before, ?_, h.few⟩
  · rw [hused, h.used_eq]
    simp
  · rw [hused]
    exact hleft
  · intro t ht
    rcases List.mem_append.1 ht with ht | ht
    · exact h.since t ht
    · obtain rfl := List.mem_singleton.1 ht
      exact ⟨hreset, hrunning⟩

end Spending

namespace Budget

/-- The record of a client that has asked for nothing yet. -/
theorem fresh (q : Quota) (client : Client) (policy : Policy) (start : Nat) :
    q.Budget start [] (.fresh client policy start) where
  reset_le := Nat.le_refl start
  bounded := fun first => Nat.zero_le _
  spending := ⟨[], [], rfl, rfl, Nat.zero_le _, by simp, by simp, fun first _ => Nat.zero_le _⟩

theorem mono (h : q.Budget now past record) (hlater : now ≤ later) : q.Budget later past record :=
  ⟨Nat.le_trans h.reset_le hlater, h.bounded, h.spending⟩

/-- One more admission, however it is counted, keeps all stretches within two budgets. -/
theorem snoc (h : q.Budget now past record) (hreset : record'.lastReset ≤ later) (heq : past ++ [later] = old ++ new)
    (hspending : q.Spending record' old new) : q.Budget later (past ++ [later]) record' where
  reset_le := hreset
  bounded := by
    intro first
    by_cases hfirst : later < first + q.period
    · have hold := hspending.few first (Nat.lt_of_le_of_lt hreset hfirst)
      have hnew : (q.stretch first new).length ≤ new.length := List.length_filter_le ..
      have hused := hspending.used_eq
      have hle := hspending.used_le
      rw [heq, stretch_append, List.length_append]
      omega
    · have hout : q.stretch first [later] = [] := stretch_eq_nil (by simpa using .inr (Nat.not_lt.1 hfirst))
      rw [stretch_append, hout, List.append_nil]
      exact h.bounded first
  spending := ⟨old, new, heq, hspending⟩

/-- **A decision keeps the budget.** -/
theorem decide (h : q.Budget now past record) (hlimit : 0 < q.limit) (hword : q.limit ≤ Word.max)
    (hlater : now ≤ later) :
    q.Budget later (past ++ if (q.decide record later).isAllowed = true then [later] else [])
      (q.decide record later).record := by
  have hreset : record.lastReset ≤ later := Nat.le_trans h.reset_le hlater
  obtain ⟨old, new, rfl, hspending⟩ := h.spending
  rcases decide_cases hlimit record later with ⟨hover, hdecide⟩ | ⟨hrunning, hleft, hdecide⟩ | ⟨-, -, hdecide⟩
  · rw [hdecide]
    exact h.snoc (Nat.le_refl later) rfl (hspending.reset hlimit hover)
  · rw [hdecide]
    exact h.snoc hreset (List.append_assoc ..) (hspending.spend hword hleft hreset hrunning)
  · rw [hdecide]
    simpa [Admission.isAllowed] using h.mono hlater

/-- **A chain keeps the budget.** -/
theorem run (h : q.Budget now past record) (hlimit : 0 < q.limit) (hword : q.limit ≤ Word.max)
    (hforward : (now :: times).Pairwise (· ≤ ·)) :
    ∃ last, q.Budget last (past ++ q.spentAt record times) (q.recordAfter record times) := by
  induction times generalizing now past record with
  | nil => exact ⟨now, by simpa [spentAt, recordAfter] using h⟩
  | cons later rest ih =>
      obtain ⟨hnow, hrest⟩ := List.pairwise_cons.1 hforward
      obtain ⟨last, hlast⟩ := ih (h.decide hlimit hword (hnow later List.mem_cons_self)) hrest
      rw [List.append_assoc] at hlast
      exact ⟨last, hlast⟩

/-- A denial comes when the whole budget is spent since the reset. -/
theorem spent_of_denied (h : q.Budget now past record) (hlimit : 0 < q.limit)
    (hdenied : (q.decide record later).isAllowed = false) :
    (past.filter fun t => record.lastReset ≤ t).length = q.limit ∧ (q.decide record later).record = record := by
  obtain ⟨old, new, rfl, hspending⟩ := h.spending
  rcases decide_cases hlimit record later with ⟨-, hdecide⟩ | ⟨-, -, hdecide⟩ | ⟨-, hspent, hdecide⟩
  · rw [hdecide] at hdenied
    cases hdenied
  · rw [hdecide] at hdenied
    cases hdenied
  · have hused := hspending.used_eq
    have hle := hspending.used_le
    rw [hspending.filter_since, hdecide]
    exact ⟨by omega, rfl⟩

end Budget

/-- **A chain of records keeps to its budget.**  From a fresh record on, at times that do not go back:

* no stretch of time as long as a period holds more admissions than two budgets allow;
* a request is denied only when as many were admitted since the last reset as the budget allows, and its record is
  handed back as it was;
* two resets are at least a period apart;
* nothing but the quota of a record changes. -/
theorem chain_within_budget (q : Quota) (hlimit : 1 ≤ q.limit) (hword : q.limit ≤ Word.max) (client : Client)
    (policy : Policy) (start : Nat) (times : List Nat) (hforward : (start :: times).Pairwise (· ≤ ·)) :
    (∀ first, (q.stretch first (q.spentAt (.fresh client policy start) times)).length ≤ 2 * q.limit) ∧
    (∀ early now late, times = early ++ now :: late →
      (q.decide (q.recordAfter (.fresh client policy start) early) now).isAllowed = false →
        ((q.spentAt (.fresh client policy start) early).filter fun t =>
          (q.recordAfter (.fresh client policy start) early).lastReset ≤ t).length = q.limit ∧
        (q.decide (q.recordAfter (.fresh client policy start) early) now).record =
          q.recordAfter (.fresh client policy start) early) ∧
    (.fresh client policy start :: (q.chain (.fresh client policy start) times).map Admission.record).Pairwise q.Apart ∧
    ∀ admission ∈ q.chain (.fresh client policy start) times,
      Record.Alike (.fresh client policy start) admission.record := by
  have hfresh := Budget.fresh q client policy start
  refine ⟨?_, ?_, pairwise_chain (R := q.Apart) Apart.trans (apart_decide hlimit) _ times, ?_⟩
  · obtain ⟨last, hlast⟩ := hfresh.run hlimit hword hforward
    exact hlast.bounded
  · rintro early now late rfl hdenied
    have hearly : (start :: early).Pairwise (· ≤ ·) :=
      hforward.sublist ((List.sublist_append_left early (now :: late)).cons_cons start)
    obtain ⟨last, hlast⟩ := hfresh.run hlimit hword hearly
    exact hlast.spent_of_denied hlimit hdenied
  · intro admission hmem
    have hall := pairwise_chain (R := Record.Alike) Record.Alike.trans q.alike_decide (.fresh client policy start) times
    exact (List.pairwise_cons.1 hall).1 _ (List.mem_map_of_mem hmem)

/-- Two requests a second, asked for at the end of one period and at the beginning of the next: four admissions in a
tenth of a second, and a denial at 1050, after two of them since the reset. -/
theorem chain_within_budget_at_1050 :
    (stretch ⟨2, 1000, by decide⟩ 900 (spentAt ⟨2, 1000, by decide⟩ (.fresh ⟨"c1", .standard⟩ (.limited 2) 0)
        [900, 900, 1000, 1000, 1050])).length ≤ 4 ∧
      ((spentAt ⟨2, 1000, by decide⟩ (.fresh ⟨"c1", .standard⟩ (.limited 2) 0) [900, 900, 1000, 1000]).filter
        fun t => 1000 ≤ t).length = 2 := by
  have hchain := chain_within_budget ⟨2, 1000, by decide⟩ (by decide) (by decide) ⟨"c1", .standard⟩ (.limited 2) 0
    [900, 900, 1000, 1000, 1050] (by decide)
  exact ⟨hchain.1 900, (hchain.2.1 [900, 900, 1000, 1000] 1050 [] rfl rfl).1⟩

end Quota
end AdmissionControl
