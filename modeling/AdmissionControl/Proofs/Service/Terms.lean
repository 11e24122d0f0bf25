import AdmissionControl.Proofs.Service.Decisions

/-!
# What a limiter asks of a record

A limiter asks a record who its client is and which policy applies.  Only a quota goes on to ask for the counts.  So
behind every other algorithm, records on the same terms get the same verdict, and leave the limiter and the breaker in
the same state.

* `Record.SameTerms` — two records that differ in their counts at most.
* `Rule.decide_of_sameTerms`, `Rule.estimate_of_sameTerms` — a rule that is no quota does not tell them apart.
* `Limiter.check_of_sameTerms`, `Limiters.check_of_sameTerms` — **nor does a limiter, nor a check on an endpoint**, as
  long as the endpoints have one algorithm.
-/

namespace AdmissionControl

/-- Two records of one client under one policy. -/
structure Record.SameTerms (r r' : Record) : Prop where
  /-- They are about the same client. -/
  client_eq : r'.client = r.client
  /-- The same policy applies. -/
  policy_eq : r'.policy = r.policy

theorem Record.sameTerms_retarget (r r' : Record) (client : Client) (policy : Policy) :
    (r.retarget client policy).SameTerms (r'.retarget client policy) := ⟨rfl, rfl⟩

/-! ## Rules -/

namespace Rule

variable {rule : Rule} {r r' : Record} {now : Nat}

theorem meter_of_sameTerms {σ : Type} (h : r.SameTerms r') (decide : Nat → Option σ → Verdict × σ)
    (kept : Option σ) : (meter decide r' kept).1.verdict = (meter decide r kept).1.verdict ∧
      (meter decide r' kept).2 = (meter decide r kept).2 := by
  unfold meter
  rw [h.policy_eq]
  cases r.policy.rate? with
  | none => exact ⟨rfl, rfl⟩
  | some rate => exact ⟨rfl, rfl⟩

theorem foresee_of_sameTerms {σ : Type} (h : r.SameTerms r') (estimate : Nat → Option σ → Option Verdict)
    (kept : Option σ) : (foresee estimate r' kept).map Admission.verdict =
      (foresee estimate r kept).map Admission.verdict := by
  unfold foresee
  rw [h.policy_eq]
  cases r.policy.rate? with
  | none => rfl
  | some rate =>
      dsimp only
      rw [Option.map_map, Option.map_map]
      rfl

/-- A rule that is no quota gives records on the same terms the same verdict, and keeps the same of their client. -/
theorem decide_of_sameTerms (h : r.SameTerms r') (hkind : rule.kind ≠ .quota) (now : Nat)
    (kept : Option rule.Kept) : (rule.decide r' now kept).1.verdict = (rule.decide r now kept).1.verdict ∧
      (rule.decide r' now kept).2 = (rule.decide r now kept).2 := by
  cases rule with
  | fixedWindow w => exact meter_of_sameTerms h _ kept
  | slidingWindow w => exact meter_of_sameTerms h _ kept
  | tokenBucket b => exact meter_of_sameTerms h _ kept
  | leakyBucket b => exact meter_of_sameTerms h _ kept
  | quota q => exact absurd rfl hkind

/-- A rule that is no quota foresees the same verdict for records on the same terms. -/
theorem estimate_of_sameTerms (h : r.SameTerms r') (hkind : rule.kind ≠ .quota) (now : Nat)
    (kept : Option rule.Kept) : (rule.estimate r' now kept).map Admission.verdict =
      (rule.estimate r now kept).map Admission.verdict := by
  cases rule with
  | fixedWindow w => exact foresee_of_sameTerms h _ kept
  | slidingWindow w => exact foresee_of_sameTerms h _ kept
  | tokenBucket b => exact foresee_of_sameTerms h _ kept
  | leakyBucket b => exact foresee_of_sameTerms h _ kept
  | quota q => exact absurd rfl hkind

end Rule

namespace Algorithm

variable {a : Algorithm} {r r' : Record}

theorem decide_of_sameTerms (h : r.SameTerms r') (hkind : a.kind ≠ .quota) (now : Nat) :
    (a.decide r' now).1.verdict = (a.decide r now).1.verdict ∧ (a.decide r' now).2 = (a.decide r now).2 := by
  obtain ⟨hverdict, hkept⟩ := Rule.decide_of_sameTerms h hkind now (a.get? r.client.id)
  unfold decide
  rw [h.client_eq]
  dsimp only
  rw [hkept]
  exact ⟨hverdict, rfl⟩

theorem estimate_of_sameTerms (h : r.SameTerms r') (hkind : a.kind ≠ .quota) (now : Nat) :
    (a.estimate r' now).map Admission.verdict = (a.estimate r now).map Admission.verdict := by
  unfold estimate
  rw [h.client_eq]
  exact Rule.estimate_of_sameTerms h hkind now (a.get? r.client.id)

end Algorithm

/-! ## Limiters -/

/-- The verdict of a gate that settles a check. -/
def Gate.verdict? : Gate → Option (Except Error Verdict)
  | settled outcome => some (outcome.map Admission.verdict)
  | limited => none

theorem gate_of_sameTerms {r r' : Record} (h : r.SameTerms r') (breaker : Breaker) (now : Nat) :
    (gate r' breaker now).1.verdict? = (gate r breaker now).1.verdict? ∧
      (gate r' breaker now).2 = (gate r breaker now).2 := by
  have hfault : r'.fault? = r.fault? := by
    unfold Record.fault?
    rw [h.client_eq, h.policy_eq]
  unfold gate
  rw [hfault, h.policy_eq]
  cases r.fault? with
  | some fault => exact ⟨rfl, rfl⟩
  | none =>
      dsimp only
      rcases breaker.query now with ⟨isThrough, breaker'⟩
      cases isThrough with
      | false => exact ⟨rfl, rfl⟩
      | true => cases r.policy.isUnrestricted <;> exact ⟨rfl, rfl⟩

namespace Limiter

variable {l : Limiter} {r r' : Record}

theorem glance_of_sameTerms (h : r.SameTerms r') (hkind : l.algorithm.kind ≠ .quota) (slot : Slot) (now : Nat) :
    (l.glance slot r' now).join.map Admission.verdict = (l.glance slot r now).join.map Admission.verdict := by
  unfold glance
  cases slot.isHeld with
  | true => rfl
  | false => exact Algorithm.estimate_of_sameTerms h hkind now

/-- Both come past the gate, and are answered by the same slot and the same algorithm. -/
theorem check_of_limited (h : r.SameTerms r') (hkind : l.algorithm.kind ≠ .quota) {breaker b : Breaker}
    {breakerNow : Nat} (hgate : gate r breaker breakerNow = (.limited, b))
    (hgate' : gate r' breaker breakerNow = (.limited, b)) (now : Nat) :
    (l.check breaker breakerNow now r').1.map Admission.verdict =
        (l.check breaker breakerNow now r).1.map Admission.verdict ∧
      (l.check breaker breakerNow now r').2 = (l.check breaker breakerNow now r).2 := by
  have hlooked : (l.look r.client.id now).2.algorithm.kind ≠ .quota := by
    rw [algorithm_look]
    exact hkind
  have hglance := glance_of_sameTerms h hlooked (l.look r.client.id now).1 now
  unfold check
  rw [hgate, hgate']
  dsimp only
  rw [h.client_eq]
  generalize ((l.look r.client.id now).2.glance (l.look r.client.id now).1 r' now).join = foreseen' at hglance ⊢
  generalize ((l.look r.client.id now).2.glance (l.look r.client.id now).1 r now).join = foreseen at hglance ⊢
  cases foreseen with
  | some admission =>
      cases foreseen' with
      | none => cases hglance
      | some admission' =>
          have hverdict : admission'.verdict = admission.verdict := Option.some.inj hglance
          dsimp only [Except.map]
          rw [hverdict, Admission.isAllowed, Admission.isAllowed, hverdict]
          exact ⟨rfl, rfl⟩
  | none =>
      cases foreseen' with
      | some admission' => cases hglance
      | none =>
          dsimp only
          cases henter : (l.look r.client.id now).2.enter r.client.id with
          | none => exact ⟨rfl, rfl⟩
          | some entered =>
              have halgorithm : entered.algorithm = (l.look r.client.id now).2.algorithm :=
                (isHeld_of_enter henter).2.2.2
              have hentered : entered.algorithm.kind ≠ .quota := by
                rw [halgorithm]
                exact hlooked
              obtain ⟨hverdict, hkept⟩ := Algorithm.decide_of_sameTerms h hentered now
              dsimp only [decide, Except.map]
              rw [hverdict, hkept, Admission.isAllowed, Admission.isAllowed, hverdict]
              exact ⟨rfl, rfl⟩

/-- **A limiter without a quota does not tell records on the same terms apart.** -/
theorem check_of_sameTerms (h : r.SameTerms r') (hkind : l.algorithm.kind ≠ .quota) (breaker : Breaker)
    (breakerNow now : Nat) :
    (l.check breaker breakerNow now r').1.map Admission.verdict =
        (l.check breaker breakerNow now r).1.map Admission.verdict ∧
      (l.check breaker breakerNow now r').2 = (l.check breaker breakerNow now r).2 := by
  obtain ⟨hsame, hbreaker⟩ := gate_of_sameTerms h breaker breakerNow
  rcases hgate : gate r breaker breakerNow with ⟨settles, b⟩
  rcases hgate' : gate r' breaker breakerNow with ⟨settles', b'⟩
  rw [hgate, hgate'] at hsame hbreaker
  obtain rfl : b' = b := hbreaker
  cases settles with
  | settled outcome =>
      cases settles' with
      | limited => cases hsame
      | settled outcome' =>
          unfold check
          rw [hgate, hgate']
          exact ⟨Option.some.inj hsame, rfl⟩
  | limited =>
      cases settles' with
      | settled outcome' => cases hsame
      | limited => exact check_of_limited h hkind hgate hgate' now

end Limiter

namespace Limiters

variable {ls : Limiters} {settings : Settings} {endpoint endpoint' : String} {r r' : Record}

theorem kind_of_obtain {kind : AlgorithmKind} {limiter : Limiter} {ls' : Limiters} (h : ls.MadeFrom settings)
    (hobtain : ls.obtain kind settings = .ok (limiter, ls')) : limiter.algorithm.kind = kind := by
  obtain ⟨⟨fresh, hfresh, hsame⟩, -⟩ := h.obtain hobtain
  rw [Algorithm.kind, hsame.rule_eq, rule_of_limiter hfresh, Settings.kind_rule]

/-- **Endpoints with one algorithm, which is no quota, are checked alike.** -/
theorem check_of_sameTerms (hmade : ls.MadeFrom settings) (h : r.SameTerms r')
    (halgorithm : settings.algorithmFor endpoint' = settings.algorithmFor endpoint)
    (hquota : settings.algorithmFor endpoint ≠ .quota) (exemptions : Exemptions) (breaker : Breaker)
    (breakerNow now : Nat) :
    (ls.check exemptions breaker breakerNow now endpoint' r' settings).1.map Admission.verdict =
        (ls.check exemptions breaker breakerNow now endpoint r settings).1.map Admission.verdict ∧
      (ls.check exemptions breaker breakerNow now endpoint' r' settings).2 =
        (ls.check exemptions breaker breakerNow now endpoint r settings).2 := by
  unfold check
  rw [h.client_eq, halgorithm]
  cases exemptions.contains r.client with
  | true => exact ⟨rfl, rfl⟩
  | false =>
      rw [if_neg Bool.false_ne_true, if_neg Bool.false_ne_true]
      dsimp only
      cases hobtain : ls.obtain (settings.algorithmFor endpoint) settings with
      | error error => exact ⟨rfl, rfl⟩
      | ok obtained =>
          obtain ⟨limiter, ls'⟩ := obtained
          have hkind : limiter.algorithm.kind ≠ .quota := by
            rw [kind_of_obtain hmade hobtain]
            exact hquota
          obtain ⟨hverdict, hstate⟩ := Limiter.check_of_sameTerms h hkind breaker breakerNow now
          have hlimiter := congrArg Prod.fst hstate
          have hbreaker := congrArg Prod.snd hstate
          dsimp only
          rw [hlimiter, hbreaker]
          exact ⟨hverdict, rfl⟩

end Limiters
end AdmissionControl
