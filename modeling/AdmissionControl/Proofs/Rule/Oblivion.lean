import Mathlib.Data.List.TakeWhile
import AdmissionControl.Proofs.Rule.Agreement

/-!
# When what is kept no longer counts

What a rule keeps of a client loses its effect with time: a window is over, a bucket has run dry.  From then on the
client is answered as if nothing were kept of it.

* `Rule.answer` — what a client is answered that nobody disturbs, and what is kept of it then: the estimate, or else
  the decision.
* `Rule.Agree.answer` — whom a rule cannot tell apart it gives the same answer.
* `Rule.Dated` — everything that is kept dates from a time at the latest.
* `Rule.Outlasts` — a time after which a rule's policy is no longer bound by what it keeps.
* `Rule.agree_of_passed` — **after that time, what is kept and nothing at all are answered alike**.
-/

namespace AdmissionControl

/-! ## What is over -/

namespace FixedWindow

variable {w : FixedWindow} {limit now : Nat} {kept : Option Counter}

theorem estimate_of_over (h : ∀ c ∈ kept, w.window ≤ now - c.start) : w.estimate limit now kept = none := by
  cases kept with
  | none => rfl
  | some c =>
      have hover : w.isOver c now = true := decide_eq_true (h c rfl)
      unfold FixedWindow.estimate
      dsimp only
      rw [hover, Bool.true_or, if_pos rfl]

/-- After its window is over, a client starts the next one. -/
theorem decide_of_over (hlimit : 0 < limit) (h : ∀ c ∈ kept, w.window ≤ now - c.start) :
    w.decide limit now kept = (.allowed, ⟨1, now⟩) := by
  cases kept with
  | none =>
      have hfits : (Counter.fresh now).increment.count ≤ limit := hlimit
      unfold FixedWindow.decide
      simp only [Option.getD_none, isOver_fresh, Bool.false_eq_true, if_false, if_pos hfits]
      rfl
  | some c =>
      have hover : w.isOver c now = true := decide_eq_true (h c rfl)
      unfold FixedWindow.decide
      simp only [Option.getD_some, hover, if_true]
      unfold Counter.roll
      rw [if_pos rfl]

/-- The window that a decision leaves has started by then. -/
theorem start_decide_le {time : Nat} (h : ∀ c ∈ kept, c.start ≤ time) (hnow : now ≤ time) :
    (w.decide limit now kept).2.start ≤ time := by
  have hstart : (kept.getD (Counter.fresh now)).start ≤ time := by
    cases kept with
    | none => exact hnow
    | some c => exact h c rfl
  unfold FixedWindow.decide
  dsimp only
  split
  · unfold Counter.roll
    rw [if_pos rfl]
    exact hnow
  · split
    · exact hstart
    · exact hstart

end FixedWindow

namespace SlidingWindow

variable {w : SlidingWindow} {limit now : Nat}

/-- A log whose entries have all left the window counts as none. -/
theorem current_of_over {l : Log} (h : ∀ t ∈ l.times, w.window ≤ now - t) : w.current l now = Log.empty := by
  have hpos := w.window_pos
  unfold current
  split
  · unfold Log.live Log.empty
    congr 1
    refine List.dropWhile_eq_nil_iff.2 ?_
    intro t ht
    have hpassed := h t ht
    exact decide_eq_true (by omega)
  · rename_i hearly
    obtain ⟨times⟩ := l
    cases times with
    | nil => rfl
    | cons t rest =>
        have hpassed := h t List.mem_cons_self
        omega

theorem estimate_of_over (hlimit : 0 < limit) {kept : Option Log}
    (h : w.current (kept.getD Log.empty) now = Log.empty) : w.estimate limit now kept = none := by
  cases kept with
  | none => rfl
  | some l =>
      rw [Option.getD_some] at h
      unfold SlidingWindow.estimate
      dsimp only
      rw [h]
      exact if_pos hlimit

end SlidingWindow

namespace LeakyBucket

variable {r : LeakyBucket} {rate now : Nat} {kept : Option Bucket}

/-- Buckets that have run dry are like new ones. -/
theorem drain_of_over (h : ∀ b ∈ kept, b.level ≤ leaked (now - b.drained) rate ∧ b.drained ≤ now) :
    (kept.getD (Bucket.fresh now)).drain now rate = Bucket.fresh now := by
  have hdry : (kept.getD (Bucket.fresh now)).level ≤
        leaked (now - (kept.getD (Bucket.fresh now)).drained) rate ∧
      (kept.getD (Bucket.fresh now)).drained ≤ now := by
    cases kept with
    | none => exact ⟨Nat.zero_le _, Nat.le_refl _⟩
    | some b => exact h b rfl
  unfold Bucket.drain
  dsimp only
  rw [if_pos (Nat.sub_eq_zero_of_le hdry.1), Nat.max_eq_left hdry.2]
  rfl

theorem estimate_of_over (hcapacity : 0 < r.capacity)
    (h : ∀ b ∈ kept, b.level ≤ leaked (now - b.drained) rate ∧ b.drained ≤ now) :
    r.estimate rate now kept = none := by
  cases kept with
  | none => rfl
  | some b =>
      have hdry : b.projected now rate = 0 := Nat.sub_eq_zero_of_le (h b rfl).1
      unfold LeakyBucket.estimate
      dsimp only
      rw [hdry]
      exact if_pos hcapacity

/-- In a time that is long enough for its capacity, a bucket runs dry. -/
theorem level_le_leaked {b : Bucket} {threshold : Nat} (hlevel : b.level ≤ r.capacity)
    (hlong : 1000 * r.capacity ≤ threshold * rate) (hpassed : threshold < now - b.drained) :
    b.level ≤ leaked (now - b.drained) rate := by
  have hrate : rate ≤ max rate 1 := Nat.le_max_left ..
  have hproduct : threshold * rate ≤ (now - b.drained) * max rate 1 :=
    Nat.mul_le_mul (Nat.le_of_lt hpassed) hrate
  unfold leaked
  rw [Nat.le_div_iff_mul_le (by decide)]
  omega

/-- The time up to which a bucket has leaked is never later than now. -/
theorem drained_drain_le {b : Bucket} {time : Nat} (hdrained : b.drained ≤ time) (hnow : now ≤ time) :
    (b.drain now rate).drained ≤ time := by
  unfold Bucket.drain
  dsimp only
  split
  · exact Nat.max_le.2 ⟨hnow, hdrained⟩
  · split
    · -- the time of the whole units is no longer than the time in which they leaked
      rename_i hsome
      have hunits : timeOf (leaked (now - b.drained) rate) rate ≤ now - b.drained := by
        have hrate : 0 < max rate 1 := pos_max_one rate
        unfold timeOf leaked
        refine Nat.div_le_of_le_mul ?_
        rw [Nat.mul_comm (max rate 1)]
        exact Nat.div_mul_le_self ..
      have hpassed : b.drained ≤ now := by
        by_contra hlater
        have hzero : now - b.drained = 0 := by omega
        rw [hzero] at hsome
        simp [leaked] at hsome
      have hsaturate := Word.saturate_le_self (timeOf (leaked (now - b.drained) rate) rate)
      exact Nat.le_trans (Word.saturate_le_self _) (by omega)
    · exact hdrained

theorem drained_decide_le {time : Nat} (h : ∀ b ∈ kept, b.drained ≤ time) (hnow : now ≤ time) :
    (r.decide rate now kept).2.drained ≤ time := by
  have hdrained : (kept.getD (Bucket.fresh now)).drained ≤ time := by
    cases kept with
    | none => exact hnow
    | some b => exact h b rfl
  have hdrain : ((kept.getD (Bucket.fresh now)).drain now rate).drained ≤ time := drained_drain_le hdrained hnow
  unfold LeakyBucket.decide Bucket.fill
  dsimp only
  split
  · exact hdrain
  · exact hdrain

end LeakyBucket

/-! ## Answers without others -/

namespace Rule

variable {rule : Rule} {record : Record} {time later now threshold : Nat} {kept kept' : Option rule.Kept}

/-- The answer to a client whom nobody disturbs, and what is kept of it then. -/
def answer (rule : Rule) (record : Record) (now : Nat) (kept : Option rule.Kept) :
    Admission × Option rule.Kept :=
  match rule.estimate record now kept with
  | some admission => (admission, kept)
  | none => rule.decide record now kept

theorem Agree.symm (h : rule.Agree time kept kept') : rule.Agree time kept' kept := by
  refine ⟨h.sound', h.sound, ?_⟩
  have halike := h.alike
  cases rule with
  | slidingWindow w => exact fun now hnow => (halike now hnow).symm
  | leakyBucket r => exact fun hpos => (halike hpos).symm
  | fixedWindow w => exact Eq.symm halike
  | tokenBucket r => exact Eq.symm halike
  | quota q => trivial

theorem Agree.self (h : rule.Sound kept) (time : Nat) : rule.Agree time kept kept := by
  refine ⟨h, h, ?_⟩
  cases rule with
  | slidingWindow w => exact fun _ _ => rfl
  | leakyBucket r => exact fun _ => rfl
  | fixedWindow w => exact rfl
  | tokenBucket r => exact rfl
  | quota q => trivial

/-- **Whom a rule cannot tell apart it gives the same answer**, whether it estimates or decides. -/
theorem Agree.answer (h : rule.Agree time kept kept') (record : Record) (hnow : time ≤ now) :
    (rule.answer record now kept).1 = (rule.answer record now kept').1 ∧
      rule.Agree now (rule.answer record now kept).2 (rule.answer record now kept').2 := by
  unfold Rule.answer
  cases hleft : rule.estimate record now kept with
  | none =>
      cases hright : rule.estimate record now kept' with
      | none => exact h.decide record hnow
      | some admission =>
          obtain ⟨hanswer, hagree⟩ := h.symm.estimate hnow hright
          exact ⟨hanswer, hagree.symm⟩
  | some admission =>
      obtain ⟨hanswer, hagree⟩ := h.estimate hnow hleft
      cases hright : rule.estimate record now kept' with
      | none => exact ⟨hanswer.symm, hagree⟩
      | some admission' =>
          -- both estimates are what the second one would decide
          obtain ⟨hanswer', -⟩ := (Agree.self h.sound' now).estimate (Nat.le_refl now) hright
          exact ⟨hanswer.symm.trans hanswer', h.mono hnow⟩

/-! ## Dates -/

/-- Everything that is kept of a client dates from a time at the latest. -/
def Dated : (rule : Rule) → Nat → Option rule.Kept → Prop
  | fixedWindow _, time, kept => ∀ c ∈ kept, c.start ≤ time
  | slidingWindow _, time, kept => ∀ l ∈ kept, ∀ t ∈ l.times, t ≤ time
  | leakyBucket _, time, kept => ∀ b ∈ kept, b.drained ≤ time
  | tokenBucket _, _, _ | quota _, _, _ => True

theorem dated_none (rule : Rule) (time : Nat) : rule.Dated time none := by
  cases rule with
  | fixedWindow w => intro c hc; exact absurd hc (by simp)
  | slidingWindow w => intro l hl; exact absurd hl (by simp)
  | leakyBucket r => intro b hb; exact absurd hb (by simp)
  | tokenBucket r => trivial
  | quota q => trivial

theorem Dated.mono (h : rule.Dated time kept) (hlater : time ≤ later) : rule.Dated later kept := by
  cases rule with
  | fixedWindow w => exact fun c hc => Nat.le_trans (h c hc) hlater
  | slidingWindow w => exact fun l hl t ht => Nat.le_trans (h l hl t ht) hlater
  | leakyBucket r => exact fun b hb => Nat.le_trans (h b hb) hlater
  | tokenBucket r => trivial
  | quota q => trivial

/-- A decision adds nothing that dates from later. -/
theorem Dated.decide (h : rule.Dated time kept) (record : Record) (hnow : now ≤ time) :
    rule.Dated time (rule.decide record now kept).2 := by
  cases rule with
  | tokenBucket r => trivial
  | quota q => trivial
  | fixedWindow w =>
      refine meter_kept (P := (fixedWindow w).Dated time) h ?_
      rintro limit - c ⟨⟩
      exact FixedWindow.start_decide_le h hnow
  | slidingWindow w =>
      refine meter_kept (P := (slidingWindow w).Dated time) h ?_
      rintro limit - l ⟨⟩
      have hcurrent : ∀ t ∈ (w.current (kept.getD .empty) now).times, t ≤ time := by
        intro t ht
        have hkept : t ∈ (kept.getD .empty).times := by
          unfold SlidingWindow.current at ht
          split at ht
          · exact List.dropWhile_subset _ ht
          · exact ht
        cases kept with
        | none => exact absurd hkept List.not_mem_nil
        | some l => exact h l rfl t hkept
      unfold SlidingWindow.decide
      dsimp only
      split
      · intro t ht
        rcases List.mem_append.1 ht with ht | ht
        · exact hcurrent t ht
        · rw [List.mem_singleton.1 ht]
          exact hnow
      · exact hcurrent
  | leakyBucket r =>
      refine meter_kept (P := (leakyBucket r).Dated time) h ?_
      rintro rate - b ⟨⟩
      exact LeakyBucket.drained_decide_le h hnow

theorem Dated.answer (h : rule.Dated time kept) (record : Record) (hlater : time ≤ later) (hnow : now ≤ later) :
    rule.Dated later (rule.answer record now kept).2 := by
  unfold Rule.answer
  split
  · exact h.mono hlater
  · exact (h.mono hlater).decide record hnow

/-! ## What a time outlasts -/

/-- A client with a policy that has not asked for longer than `threshold` is no longer bound by what is kept of
it: its window is over, or its bucket has run dry.  A token bucket is bound for as long as it is not full again, and
a quota keeps nothing. -/
def Outlasts : Rule → Nat → Policy → Prop
  | fixedWindow w, threshold, _ => w.window ≤ threshold
  | slidingWindow w, threshold, _ => w.window ≤ threshold
  | leakyBucket r, threshold, policy => ∀ rate ∈ policy.rate?, 1000 * r.capacity ≤ threshold * rate
  | tokenBucket _, _, _ => False
  | quota _, _, _ => True

theorem foresee_eq_none {σ : Type} {estimate : Nat → Option σ → Option Verdict} {kept : Option σ} {rate : Nat}
    (hrate : record.policy.rate? = some rate) (h : estimate rate kept = none) :
    foresee estimate record kept = none := by
  unfold foresee
  rw [hrate]
  show (estimate rate kept).map _ = none
  rw [h]
  rfl

theorem meter_congr {σ : Type} {decide : Nat → Option σ → Verdict × σ} {kept kept' : Option σ} {rate : Nat}
    (hrate : record.policy.rate? = some rate) (h : decide rate kept = decide rate kept') :
    meter decide record kept = meter decide record kept' := by
  unfold meter
  rw [hrate]
  dsimp only
  rw [h]

/-- Two states from which a rule only decides, and decides the same. -/
theorem agree_of_decide_eq (hsound : rule.Sound kept) (hleft : rule.estimate record now kept = none)
    (hright : rule.estimate record now kept' = none)
    (hdecide : rule.decide record now kept = rule.decide record now kept') :
    (rule.answer record now kept).1 = (rule.answer record now kept').1 ∧
      rule.Agree now (rule.answer record now kept).2 (rule.answer record now kept').2 := by
  unfold answer
  rw [hleft, hright]
  dsimp only
  rw [← hdecide]
  exact ⟨rfl, .self (sound_decide hsound) now⟩

/-- **After a time that outlasts what is kept, a client is answered as if nothing were kept.** -/
theorem agree_of_passed (hsound : rule.Sound kept) (hdated : rule.Dated time kept)
    (hpassed : threshold < now - time) (houtlasts : rule.Outlasts threshold record.policy) {rate : Nat}
    (hrate : record.policy.rate? = some rate) (hpos : 0 < rate) :
    (rule.answer record now kept).1 = (rule.answer record now none).1 ∧
      rule.Agree now (rule.answer record now kept).2 (rule.answer record now none).2 := by
  cases rule with
  | tokenBucket r => exact houtlasts.elim
  | quota q =>
      have hagree : (quota q).Agree now kept none := ⟨hsound, sound_none _, trivial⟩
      exact hagree.answer record (Nat.le_refl now)
  | fixedWindow w =>
      have hwindow : w.window ≤ threshold := houtlasts
      have hover : ∀ c ∈ kept, w.window ≤ now - c.start := by
        intro c hc
        have hstart : c.start ≤ time := hdated c hc
        omega
      have hdecide : meter (w.decide · now) record kept = meter (w.decide · now) record none := by
        refine meter_congr hrate ?_
        rw [FixedWindow.decide_of_over hpos hover, FixedWindow.decide_of_over hpos (by simp)]
      refine agree_of_decide_eq hsound (foresee_eq_none hrate ?_) (foresee_eq_none hrate rfl) hdecide
      exact FixedWindow.estimate_of_over hover
  | slidingWindow w =>
      have hwindow : w.window ≤ threshold := houtlasts
      have hover : w.current (kept.getD .empty) now = .empty := by
        refine SlidingWindow.current_of_over ?_
        intro t ht
        cases kept with
        | none => exact absurd ht List.not_mem_nil
        | some l =>
            have hentry : t ≤ time := hdated l rfl t ht
            omega
      have hempty : w.current .empty now = .empty :=
        SlidingWindow.current_of_over fun t ht => absurd ht List.not_mem_nil
      have hdecide : meter (w.decide · now) record kept = meter (w.decide · now) record none := by
        refine meter_congr hrate ?_
        unfold SlidingWindow.decide
        rw [Option.getD_none, hover, hempty]
      refine agree_of_decide_eq hsound (foresee_eq_none hrate ?_) (foresee_eq_none hrate rfl) hdecide
      exact SlidingWindow.estimate_of_over hpos hover
  | leakyBucket r =>
      rcases Nat.eq_zero_or_pos r.capacity with hzero | hcapacity
      · -- a bucket without capacity denies whatever it keeps
        have hagree : (leakyBucket r).Agree now kept none :=
          ⟨hsound, sound_none _, fun hcapacity => absurd hcapacity (by omega)⟩
        exact hagree.answer record (Nat.le_refl now)
      · have hlong : 1000 * r.capacity ≤ threshold * rate := houtlasts rate hrate
        have hover : ∀ b ∈ kept, b.level ≤ LeakyBucket.leaked (now - b.drained) rate ∧ b.drained ≤ now := by
          intro b hb
          have hdrained : b.drained ≤ time := hdated b hb
          exact ⟨LeakyBucket.level_le_leaked (hsound b hb) hlong (by omega), by omega⟩
        have hdecide : meter (r.decide · now) record kept = meter (r.decide · now) record none := by
          refine meter_congr hrate ?_
          unfold LeakyBucket.decide
          rw [LeakyBucket.drain_of_over hover, LeakyBucket.drain_of_over (by simp)]
        refine agree_of_decide_eq hsound (foresee_eq_none hrate ?_) (foresee_eq_none hrate rfl) hdecide
        exact LeakyBucket.estimate_of_over hcapacity hover

end Rule
end AdmissionControl
