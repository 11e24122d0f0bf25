import AdmissionControl.Proofs.Rule.Foresight
import AdmissionControl.Proofs.Rule.Invariants
import AdmissionControl.Proofs.Rule.Records

/-!
# A hint is the time until the next admission

A denial tells the client after which time it may ask again.  Each rule computes that time by a formula of its
own: what is left of a window, when the oldest entry of a log expires, how long the next token takes, when a
period is over.  This file holds the formulas against the decisions.

* `ExactHint` — what an exact hint says: a request that is repeated is denied until the hint is over, and no longer.
* `FixedWindow.exactHint`, `TokenBucket.exactHint`, `Quota.exactHint` — these hints are exact in every state of a
  clock that has not gone back.
* `SlidingWindow.refuses_of_denied`, `SlidingWindow.isAllowed_of_denied` — the hint of a sliding window is never too
  long, and it is long enough if and only if what is left of the log then leaves room.
* `SlidingWindow.exactHint` — so it is exact if the log has no more entries than the limit allows.
* `Algorithm.hint_exact` — **so the hints are exact after every run.**
-/

namespace AdmissionControl

/-! ## The time that a unit takes -/

/-- The time in which one unit comes in at `rate` units in each `window`, a begun millisecond counted as
whole. -/
def unitTime (rate window : Nat) : Nat := (window + rate - 1) / rate

/-- Something has come in as soon as one unit has. -/
theorem units_pos_iff {rate window elapsed : Nat} (hrate : 0 < rate) (hwindow : 0 < window) :
    0 < elapsed * rate / window ↔ unitTime rate window ≤ elapsed := by
  rw [unitTime, Nat.div_le_iff_le_mul_add_pred hrate, Nat.div_pos_iff, Nat.mul_comm elapsed]
  omega

theorem unitTime_le {rate window : Nat} (hrate : 0 < rate) : unitTime rate window ≤ window := by
  rw [unitTime, Nat.div_le_iff_le_mul_add_pred hrate]
  have hmul : window ≤ rate * window := Nat.le_mul_of_pos_left window hrate
  omega

theorem unitTime_pos {rate window : Nat} (hrate : 0 < rate) (hwindow : 0 < window) : 0 < unitTime rate window := by
  rw [unitTime, Nat.div_pos_iff]
  omega

/-! ## One request, over and over -/

section Repeated

variable {σ τ : Type}

/-- The verdicts on a request that is made over and over at the given times, each time on what the last time has
left. -/
def repeated (decide : Nat → σ → Verdict × σ) : List Nat → σ → List Verdict
  | [], _ => []
  | now :: rest, state => (decide now state).1 :: repeated decide rest (decide now state).2

/-- A hint that is given at `now` is exact: until it is over a repeated request is denied and changes nothing,
and then it is admitted. -/
structure ExactHint (decide : Nat → σ → Verdict × σ) (now : Nat) (hint : Duration) (state : σ) : Prop where
  /-- It is a number of milliseconds. -/
  whole : hint = .ofMillis hint.millis
  /-- It is not too long. -/
  refuses : ∀ t, now ≤ t → t < now + hint.millis → ∃ wait, decide t state = (.denyMillis wait, state)
  /-- It is long enough. -/
  admits : ∃ next, decide (now + hint.millis) state = (.allowed, next)

variable {decide : Nat → σ → Verdict × σ} {decide' : Nat → τ → Verdict × τ} {now : Nat} {hint : Duration} {state : σ}

/-- The same decisions on more of a state give hints that are as exact. -/
theorem ExactHint.map (h : ExactHint decide now hint state) (f : σ → τ)
    (hf : ∀ t, decide' t (f state) = ((decide t state).1, f (decide t state).2)) :
    ExactHint decide' now hint (f state) := by
  refine ⟨h.whole, fun t hnow ht => ?_, ?_⟩
  · obtain ⟨wait, hrefused⟩ := h.refuses t hnow ht
    exact ⟨wait, by rw [hf, hrefused]⟩
  · obtain ⟨next, hadmitted⟩ := h.admits
    exact ⟨f next, by rw [hf, hadmitted]⟩

/-- **Under an exact hint, repeating a request early is of no use and does no harm.** -/
theorem ExactHint.repeated_eq (h : ExactHint decide now hint state) {times : List Nat}
    (htimes : ∀ t ∈ times, now ≤ t ∧ t < now + hint.millis) :
    (repeated decide (times ++ [now + hint.millis]) state).map Verdict.isAllowed =
      List.replicate times.length false ++ [true] := by
  induction times with
  | nil =>
      obtain ⟨next, hadmitted⟩ := h.admits
      simp [repeated, hadmitted]
  | cons t rest ih =>
      obtain ⟨hnow, ht⟩ := htimes t List.mem_cons_self
      obtain ⟨wait, hrefused⟩ := h.refuses t hnow ht
      have hrest := ih fun t ht => htimes t (List.mem_cons_of_mem _ ht)
      simpa [repeated, hrefused, List.replicate_succ] using hrest

end Repeated

theorem Verdict.eq_allowed_of_isAllowed {v : Verdict} (h : v.isAllowed = true) : v = allowed := by
  cases v with
  | allowed => rfl
  | denied hint => exact absurd h Bool.false_ne_true

/-- A hint of at least a millisecond is handed out as it is. -/
theorem Verdict.eq_ofMillis_of_denyMillis {n : Nat} {hint : Duration} (hn : 1 ≤ n)
    (h : denied hint = denyMillis n) : hint = .ofMillis n := by
  rw [denyMillis_of_pos hn] at h
  exact Verdict.denied.inj h

theorem Policy.pos_of_isValid {p : Policy} {rate : UInt32} (hvalid : p.isValid = true) (h : p = .limited rate) :
    0 < rate.toNat := by
  subst h
  simpa [Policy.isValid, Nat.pos_iff_ne_zero, ← UInt32.toNat_inj] using hvalid

/-! ## The hints of the rules -/

namespace FixedWindow

variable {w : FixedWindow} {limit now : Nat} {kept : Option Counter} {hint : Duration}

/-- What is denied is denied by a full window that is not over, for as long as it lasts. -/
theorem exists_of_denied (hlimit : 0 < limit) (hsound : ∀ c ∈ kept, c.count ≤ Policy.maxRate)
    (h : (w.decide limit now kept).1 = .denied hint) :
    ∃ c, kept = some c ∧ now - c.start < w.window ∧ limit ≤ c.count ∧ hint = .ofMillis (w.remaining c now) := by
  have hestimate : w.estimate limit now kept = some (.denied hint) := by
    rw [estimate_eq_denial? hlimit hsound, h]
    rfl
  cases kept with
  | none => exact absurd hestimate (by simp [FixedWindow.estimate])
  | some c =>
      obtain ⟨hopen, hfull, hverdict⟩ := estimate_eq_some_iff.1 hestimate
      refine ⟨c, rfl, hopen, hfull, Verdict.eq_ofMillis_of_denyMillis ?_ hverdict⟩
      exact Nat.sub_pos_of_lt hopen

/-- **The hint of a fixed window is exact.** -/
theorem exactHint (hlimit : 0 < limit) (hkept : ∀ c ∈ kept, c.count ≤ Policy.maxRate ∧ c.start ≤ now)
    (h : (w.decide limit now kept).1 = .denied hint) :
    ExactHint (fun t c => w.decide limit t (some c)) now hint (w.decide limit now kept).2 := by
  obtain ⟨c, rfl, hopen, hfull, rfl⟩ := exists_of_denied hlimit (fun c hc => (hkept c hc).1) h
  obtain ⟨hcount, hstart⟩ := hkept c rfl
  have hend : now + w.remaining c now = c.start + w.window := by
    simp only [remaining]
    omega
  rw [decide_of_full hcount hopen hfull]
  show ExactHint _ now _ c
  refine ⟨by simp, fun t hnow ht => ?_, ?_⟩
  · rw [Duration.millis_ofMillis, hend] at ht
    exact ⟨_, decide_of_full hcount (by omega) hfull⟩
  · rw [Duration.millis_ofMillis, hend]
    exact ⟨_, Prod.ext (decide_of_room hcount (.inl (by omega))) rfl⟩

end FixedWindow

namespace SlidingWindow

variable {w : SlidingWindow} {limit now t : Nat} {past : List Nat} {kept : Option Log} {hint : Duration}

namespace Suffices

/-- A denial finds as many times in the window as the limit allows, keeps those, and hints at the first of them to
leave. -/
theorem exists_of_denied (h : w.Suffices now past kept) (hlimit : 0 < limit)
    (hdenied : (w.decide limit now kept).1 = .denied hint) :
    ∃ first rest, w.within now past = first :: rest ∧ limit ≤ (first :: rest).length ∧
      now + hint.millis = first + w.window ∧ hint = .ofMillis hint.millis ∧
      w.decide limit now kept = (.denied hint, ⟨first :: rest⟩) := by
  have hfull : limit ≤ (w.current (kept.getD Log.empty) now).size := by
    by_contra hroom
    rw [decide_of_room (Nat.not_le.1 hroom)] at hdenied
    cases hdenied
  have hdecide := decide_of_full hfull
  have htimes := h.times_current
  rw [Log.size, htimes] at hfull
  cases hwithin : w.within now past with
  | nil =>
      rw [hwithin] at hfull
      exact absurd hfull (Nat.not_le.2 hlimit)
  | cons first rest =>
      have hlog : w.current (kept.getD Log.empty) now = ⟨first :: rest⟩ := by
        rw [← hwithin, ← htimes]
      have hfirst : first ≤ now ∧ now < first + w.window := by
        have hmem : first ∈ w.within now past := hwithin ▸ List.mem_cons_self
        exact of_decide_eq_true (List.mem_filter.1 hmem).2
      have hretry : w.retryAfter ⟨first :: rest⟩ now = w.window - (now - first) := rfl
      rw [hlog, hretry] at hdecide
      rw [hdecide] at hdenied
      obtain rfl := Verdict.eq_ofMillis_of_denyMillis (by omega) hdenied.symm
      refine ⟨first, rest, rfl, hwithin ▸ hfull, ?_, by simp, hdenied ▸ hdecide⟩
      rw [Duration.millis_ofMillis]
      omega

/-- What is kept after a denial counts, later on, with the times that have not left the window by then. -/
theorem current_of_denied {log : Log} (h : w.Suffices now past kept)
    (hdenied : w.decide limit now kept = (.denied hint, log)) (hnow : now ≤ t) :
    w.current log t = ⟨(w.within now past).filter fun x => t < x + w.window⟩ := by
  have hafter : w.Suffices now past (some log) := by
    simpa [hdenied, Verdict.isAllowed] using h.decide limit
  have htimes := (hafter.mono hnow).times_current
  rw [Option.getD_some, within_later h.recent hnow] at htimes
  rw [← htimes]

end Suffices

/-- The times in the window that are later than the first one in it. -/
def afterFirst (w : SlidingWindow) (now : Nat) (past : List Nat) : List Nat :=
  match w.within now past with
  | [] => []
  | first :: rest => rest.filter (first < ·)

theorem length_afterFirst_le (w : SlidingWindow) (now : Nat) (past : List Nat) :
    (w.afterFirst now past).length ≤ (w.within now past).length - 1 := by
  unfold afterFirst
  split <;> simp [*, List.length_filter_le]

/-- **The hint of a sliding window is never too long**: until it is over, a repeated request is denied. -/
theorem refuses_of_denied (h : w.Suffices now past kept) (hlimit : 0 < limit)
    (hdenied : (w.decide limit now kept).1 = .denied hint) (hnow : now ≤ t) (ht : t < now + hint.millis) :
    ∃ wait, w.decide limit t (some (w.decide limit now kept).2) =
      (.denyMillis wait, (w.decide limit now kept).2) := by
  obtain ⟨first, rest, hwithin, hfull, hend, -, hdecide⟩ := h.exists_of_denied hlimit hdenied
  have hkeep : w.current ⟨first :: rest⟩ t = ⟨first :: rest⟩ := by
    rw [h.current_of_denied hdecide hnow, hwithin]
    congr 1
    refine List.filter_eq_self.2 fun x hx => decide_eq_true ?_
    have hsorted : (first :: rest).Pairwise (· ≤ ·) := by
      rw [← hwithin]
      exact h.forward.filter _
    rcases List.mem_cons.1 hx with rfl | hx
    · omega
    · have hle := (List.pairwise_cons.1 hsorted).1 x hx
      omega
  rw [hdecide]
  refine ⟨w.retryAfter ⟨first :: rest⟩ t, ?_⟩
  rw [decide_of_full (by rw [Option.getD_some, hkeep]; exact hfull), Option.getD_some, hkeep]

/-- **When the hint is over, only the times that are as old as the first one in the window have left.**  A repeated
request is admitted then if and only if the others leave room for it. -/
theorem isAllowed_of_denied (h : w.Suffices now past kept) (hlimit : 0 < limit)
    (hdenied : (w.decide limit now kept).1 = .denied hint) :
    (w.decide limit (now + hint.millis) (some (w.decide limit now kept).2)).1.isAllowed = true ↔
      (w.afterFirst now past).length < limit := by
  obtain ⟨first, rest, hwithin, -, hend, -, hdecide⟩ := h.exists_of_denied hlimit hdenied
  have hleft : w.current ⟨first :: rest⟩ (now + hint.millis) = ⟨w.afterFirst now past⟩ := by
    rw [h.current_of_denied hdecide (Nat.le_add_right ..), hend, afterFirst, hwithin]
    simp
  rw [hdecide, SlidingWindow.decide, Option.getD_some, hleft, Log.size]
  dsimp only
  split <;> simp [*]

/-- **The hint of a sliding window is exact** if its log has no more entries than the limit allows. -/
theorem exactHint (h : w.Suffices now past kept) (hlimit : 0 < limit) (hsize : (kept.getD Log.empty).size ≤ limit)
    (hdenied : (w.decide limit now kept).1 = .denied hint) :
    ExactHint (fun t l => w.decide limit t (some l)) now hint (w.decide limit now kept).2 := by
  have hwhole : hint = .ofMillis hint.millis := by
    obtain ⟨-, -, -, -, -, hwhole, -⟩ := h.exists_of_denied hlimit hdenied
    exact hwhole
  have hroom : (w.afterFirst now past).length < limit := by
    have hcurrent : (w.within now past).length ≤ (kept.getD Log.empty).size := by
      rw [← h.times_current]
      exact size_current_le w (kept.getD Log.empty) now
    have hothers := length_afterFirst_le w now past
    omega
  have hadmitted := (isAllowed_of_denied h hlimit hdenied).2 hroom
  refine ⟨hwhole, fun t hnow ht => refuses_of_denied h hlimit hdenied hnow ht, _, Prod.ext ?_ rfl⟩
  exact Verdict.eq_allowed_of_isAllowed hadmitted

end SlidingWindow

namespace TokenBucket

variable {r : TokenBucket} {rate now : Nat} {b : Bucket} {hint : Duration}

theorem accrued_pos_iff {elapsed window : Nat} :
    0 < accrued elapsed rate window ↔ unitTime (max rate 1) (max window 1) ≤ elapsed :=
  units_pos_iff (pos_max_one rate) (pos_max_one window)

/-- A denial finds no token, and none that has come in. -/
theorem peek_eq_zero_of_denied
    (hfits : b.tokens + Word.saturate (accrued (now - b.refilled) rate r.window) ≤ Word.max)
    (h : (r.decide rate now (some b)).1 = .denied hint) : b.peek now rate r.window = 0 := by
  by_contra hsome
  have htokens : 0 < (b.refill now rate r.window).2.tokens := by
    rw [Bucket.tokens_refill hfits]
    exact Nat.pos_of_ne_zero hsome
  have hallowed : (r.decide rate now (some b)).1 = .allowed := decide_of_token htokens
  rw [hallowed] at h
  cases h

/-- Before the next token has come in, what is missing of its time is the hint. -/
theorem Bucket.nextToken_eq {window : Nat} (hwindow : window ≤ Word.max)
    (h : now - b.refilled < unitTime (max rate 1) (max window 1)) :
    b.nextToken now rate window = unitTime (max rate 1) (max window 1) - (now - b.refilled) := by
  have hword : unitTime (max rate 1) (max window 1) ≤ Word.max :=
    Nat.le_trans (unitTime_le (pos_max_one rate)) (Nat.max_le.2 ⟨hwindow, by decide⟩)
  show Word.saturate (max (unitTime (max rate 1) (max window 1) - (now - b.refilled)) 1) = _
  rw [Nat.max_eq_left (by omega), Word.saturate_of_le (by omega)]

/-- A bucket without a token denies until the next one has come in, and admits then. -/
theorem exactHint_of_dry (hwindow : r.window ≤ Word.max) (hb : b.refilled ≤ now)
    (hdry : b.peek now rate r.window = 0) :
    ExactHint (fun t b => r.decide rate t (some b)) now (.ofMillis (b.nextToken now rate r.window)) b := by
  obtain ⟨htokens, hnone⟩ := Bucket.peek_eq_zero_iff.1 hdry
  have hearly : now - b.refilled < unitTime (max rate 1) (max r.window 1) :=
    Nat.not_le.1 fun hle => Nat.ne_of_gt (accrued_pos_iff.2 hle) hnone
  have hend : now + b.nextToken now rate r.window = b.refilled + unitTime (max rate 1) (max r.window 1) := by
    rw [Bucket.nextToken_eq hwindow hearly]
    omega
  refine ⟨by simp, fun t hnow ht => ?_, ?_⟩
  · rw [Duration.millis_ofMillis, hend] at ht
    have hnone' : accrued (t - b.refilled) rate r.window = 0 := by
      by_contra hsome
      have hunit := accrued_pos_iff.1 (Nat.pos_of_ne_zero hsome)
      omega
    exact ⟨_, decide_of_dry (Bucket.peek_eq_zero_iff.2 ⟨htokens, hnone'⟩)⟩
  · rw [Duration.millis_ofMillis, hend]
    have hsome : 0 < accrued (b.refilled + unitTime (max rate 1) (max r.window 1) - b.refilled) rate r.window :=
      accrued_pos_iff.2 (by omega)
    have hfits : b.tokens + Word.saturate (accrued (b.refilled + unitTime (max rate 1) (max r.window 1) -
        b.refilled) rate r.window) ≤ Word.max := by
      rw [htokens, Nat.zero_add]
      exact Word.saturate_le _
    refine ⟨_, Prod.ext (decide_of_token ?_) rfl⟩
    rw [Option.getD_some, Bucket.tokens_refill hfits]
    refine Nat.pos_of_ne_zero fun hzero => ?_
    exact Nat.ne_of_gt hsome (Bucket.peek_eq_zero_iff.1 hzero).2

/-- **The hint of a token bucket is exact**, as long as its tokens stay in the word. -/
theorem exactHint (hwindow : r.window ≤ Word.max) {kept : Option Bucket} (hkept : ∀ b ∈ kept, b.refilled ≤ now)
    (hfits : ∀ b ∈ kept, b.tokens + Word.saturate (accrued (now - b.refilled) rate r.window) ≤ Word.max)
    (h : (r.decide rate now kept).1 = .denied hint) :
    ExactHint (fun t b => r.decide rate t (some b)) now hint (r.decide rate now kept).2 := by
  -- the bucket of a new client is decided on as if it had been there
  obtain ⟨b, hsame, hb, hfits⟩ : ∃ b, r.decide rate now kept = r.decide rate now (some b) ∧ b.refilled ≤ now ∧
      b.tokens + Word.saturate (accrued (now - b.refilled) rate r.window) ≤ Word.max := by
    cases kept with
    | none =>
        have hempty : r.capacity = 0 := by
          by_contra hcapacity
          rw [decide_none (Nat.pos_of_ne_zero hcapacity)] at h
          cases h
        exact ⟨⟨r.capacity, now⟩, rfl, Nat.le_refl now, by simp [accrued, Word.saturate, hempty]⟩
    | some b => exact ⟨b, rfl, hkept b rfl, hfits b rfl⟩
  rw [hsame] at h ⊢
  have hdry := peek_eq_zero_of_denied hfits h
  have hexact := exactHint_of_dry hwindow hb hdry
  rw [decide_of_dry hdry] at h ⊢
  have hpos : 1 ≤ b.nextToken now rate r.window := by
    show 1 ≤ Word.saturate (max _ 1)
    exact Nat.le_min.2 ⟨pos_max_one _, by decide⟩
  rw [Verdict.eq_ofMillis_of_denyMillis hpos h.symm]
  exact hexact

end TokenBucket

namespace Quota

variable {q : Quota} {record : Record} {now : Nat} {hint : Duration}

/-- **The hint of a quota is exact**, as long as the end of its period is in the word. -/
theorem exactHint (hlimit : 0 < q.limit) (hword : record.lastReset + q.period ≤ Word.max)
    (h : (q.decide record now).verdict = .denied hint) :
    ExactHint (fun t r => ((q.decide r t).verdict, (q.decide r t).record)) now hint (q.decide record now).record := by
  have hdenied : (q.decide record now).isAllowed = false := by
    rw [Admission.isAllowed, h]
    rfl
  obtain ⟨hrunning, hspent, hanswer⟩ :=
    estimate_eq_some_iff.1 ((estimate_eq_some_iff_denied hlimit).2 ⟨rfl, hdenied⟩)
  have hend : now + q.retryAfter record now = record.lastReset + q.period := by
    rw [retryAfter, Word.saturate_of_le hword]
    omega
  rw [hanswer] at h ⊢
  obtain rfl := Verdict.eq_ofMillis_of_denyMillis (by omega) h.symm
  show ExactHint _ now _ record
  refine ⟨by simp, fun t hnow ht => ?_, ?_⟩
  · rw [Duration.millis_ofMillis, hend] at ht
    rw [decide_of_spent (by omega) hspent]
    exact ⟨_, rfl⟩
  · rw [Duration.millis_ofMillis, hend]
    exact ⟨_, Prod.ext (decide_of_budget hlimit (.inl (by omega))) rfl⟩

end Quota

/-! ## After every run -/

namespace Rule

/-- A request to a rule, with what is kept of the client: the verdict, the record that is handed back, and what is
kept then. -/
def serve (rule : Rule) (now : Nat) (state : Record × Option rule.Kept) : Verdict × Record × Option rule.Kept :=
  ((rule.decide state.1 now state.2).1.verdict, (rule.decide state.1 now state.2).1.record,
    (rule.decide state.1 now state.2).2)

/-- When the hints of a rule are exact.  A window has to admit somebody, and a sliding window answers for the limit
that the client has had all along, or a larger one; a token bucket and a quota count in the word. -/
def TellsExactly : (rule : Rule) → Record → List Algorithm.Call → Nat → Option rule.Kept → Prop
  | fixedWindow _, record, _, _, _ => record.policy.isValid = true
  | slidingWindow _, record, calls, _, _ =>
      record.policy.isValid = true ∧ ∀ rate ∈ record.policy.rate?, Algorithm.AsksAt record.client.id (· ≤ rate) calls
  | tokenBucket r, record, _, now, kept => r.window ≤ Word.max ∧ (tokenBucket r).RefillFits record now kept
  | leakyBucket _, _, _, _, _ => False
  | quota q, record, _, _, _ => 0 < q.limit ∧ record.lastReset + q.period ≤ Word.max

variable {rule : Rule} {d : Nat → Nat → Option rule.Kept → Verdict × rule.Kept} {record : Record} {now : Nat}
  {kept : Option rule.Kept} {hint : Duration}

/-- A metered rule denies nobody but a client with a limit, and in the words of its meter. -/
theorem exists_rate_of_denied (h : (rule.decide record now kept).1.verdict = .denied hint)
    (d : Nat → Nat → Option rule.Kept → Verdict × rule.Kept)
    (hd : ∀ record now kept, rule.decide record now kept = meter (d · now) record kept) :
    ∃ rate, record.policy = .limited rate ∧ (d rate.toNat now kept).1 = .denied hint := by
  rw [hd] at h
  cases hpolicy : record.policy with
  | unrestricted =>
      rw [meter_unrestricted hpolicy] at h
      cases h
  | limited rate =>
      rw [meter_limited hpolicy] at h
      exact ⟨rate, rfl, h⟩

/-- The hints of a metered rule are as exact as those of its meter. -/
theorem exactHint_of_meter {rate : UInt32} (hpolicy : record.policy = .limited rate)
    (h : ExactHint (fun t s => d rate.toNat t (some s)) now hint (d rate.toNat now kept).2)
    (hd : ∀ record now kept, rule.decide record now kept = meter (d · now) record kept) :
    ExactHint rule.serve now hint (rule.serve now (record, kept)).2 := by
  have hserve : ∀ t kept, rule.serve t (record, kept) =
      ((d rate.toNat t kept).1, record, some (d rate.toNat t kept).2) := by
    intro t kept
    simp only [serve, hd, meter_limited hpolicy]
  rw [hserve]
  exact h.map (fun s => (record, some s)) fun t => hserve t _

end Rule

namespace Algorithm

/-- The verdicts on a request that is made over and over at the given times, each time with the record that the
last time has handed back. -/
def asks : Algorithm → Record → List Nat → List Verdict
  | _, _, [] => []
  | a, record, now :: rest =>
      (a.decide record now).1.verdict :: (a.decide record now).2.asks (a.decide record now).1.record rest

/-- It does not matter what is kept of the other clients. -/
theorem asks_eq_repeated (rule : Rule) (table : Table String rule.Kept) (record : Record) (times : List Nat) :
    (⟨rule, table⟩ : Algorithm).asks record times =
      repeated rule.serve times (record, table.get? record.client.id) := by
  induction times generalizing table record with
  | nil => rfl
  | cons now rest ih =>
      have hclient : (rule.decide record now (table.get? record.client.id)).1.record.client.id = record.client.id := by
        rw [(rule.alike_decide record now _).client_eq]
      have hnext := ih (table.put record.client.id (rule.decide record now (table.get? record.client.id)).2)
        (rule.decide record now (table.get? record.client.id)).1.record
      rw [hclient, Table.get?_put, if_pos rfl] at hnext
      exact congrArg (_ :: ·) hnext

/-- After a run, what a rule denies it denies with an exact hint. -/
theorem exactHint_run (rule : Rule) (calls : List Call) (record : Record) (now : Nat) (hint : Duration)
    (hforward : (times calls ++ [now]).Pairwise (· ≤ ·)) {table : Table String rule.Kept}
    (hrun : (ofRule rule).run calls = ⟨rule, table⟩)
    (htells : rule.TellsExactly record calls now (table.get? record.client.id))
    (hdenied : (rule.decide record now (table.get? record.client.id)).1.verdict = .denied hint) :
    ExactHint rule.serve now hint (rule.serve now (record, table.get? record.client.id)).2 := by
  cases rule with
  | fixedWindow w =>
      obtain ⟨rate, hpolicy, hdenied⟩ := Rule.exists_rate_of_denied hdenied w.decide fun _ _ _ => rfl
      have hkept := w.invariant_inRange.of_run hrun (fun _ _ _ => rfl)
        (asksAt_le_maxRate record.client.id calls) hforward
      have hexact := FixedWindow.exactHint (Policy.pos_of_isValid htells hpolicy) hkept hdenied
      exact Rule.exactHint_of_meter hpolicy hexact fun _ _ _ => rfl
  | slidingWindow w =>
      obtain ⟨rate, hpolicy, hdenied⟩ := Rule.exists_rate_of_denied hdenied w.decide fun _ _ _ => rfl
      obtain ⟨hvalid, hlimits⟩ := htells
      have hlimits : AsksAt record.client.id (· ≤ rate.toNat) calls := hlimits _ (by rw [hpolicy]; rfl)
      obtain ⟨hsuffices, hsize⟩ :=
        (w.invariant_bounded rate.toNat).of_run hrun (fun _ _ _ => rfl) hlimits hforward
      have hexact := SlidingWindow.exactHint hsuffices (Policy.pos_of_isValid hvalid hpolicy) hsize hdenied
      exact Rule.exactHint_of_meter hpolicy hexact fun _ _ _ => rfl
  | tokenBucket r =>
      obtain ⟨rate, hpolicy, hdenied⟩ := Rule.exists_rate_of_denied hdenied r.decide fun _ _ _ => rfl
      have hrates : AsksAt record.client.id (fun _ => True) calls := fun _ _ _ _ _ _ => trivial
      have hkept := r.invariant_refilled.of_run hrun (fun _ _ _ => rfl) hrates hforward
      obtain ⟨hwindow, hfits⟩ := htells
      have hexact := TokenBucket.exactHint hwindow hkept
        (fun b hb => hfits b hb rate.toNat (by rw [hpolicy]; rfl)) hdenied
      exact Rule.exactHint_of_meter hpolicy hexact fun _ _ _ => rfl
  | leakyBucket r => exact htells.elim
  | quota q =>
      obtain ⟨hlimit, hword⟩ := htells
      exact (Quota.exactHint hlimit hword hdenied).map (fun r => (r, table.get? record.client.id)) fun _ => rfl

/-- **Hints are exact**, but for those of leaky buckets.  After any run of a clock that does not go back — over any
clients, under any limits, with evictions — a denied request that is repeated is denied until the hint is over, and
admitted then, however often and in whatever order it was repeated in the meantime. -/
theorem hint_exact (rule : Rule) (calls : List Call) (record : Record) (now : Nat) (hint : Duration)
    (hforward : (times calls ++ [now]).Pairwise (· ≤ ·))
    (htells : ((ofRule rule).run calls).rule.TellsExactly record calls now
      (((ofRule rule).run calls).get? record.client.id))
    (hdenied : (((ofRule rule).run calls).decide record now).1.verdict = .denied hint) :
    hint = .ofMillis hint.millis ∧
      ∀ repeats : List Nat, (∀ t ∈ repeats, now ≤ t ∧ t < now + hint.millis) →
        (((ofRule rule).run calls).asks record (now :: repeats ++ [now + hint.millis])).map Verdict.isAllowed =
          List.replicate (repeats.length + 1) false ++ [true] := by
  obtain ⟨table, hrun⟩ := exists_run_eq rule calls
  rw [hrun] at htells hdenied ⊢
  have hexact := exactHint_run rule calls record now hint hforward hrun htells hdenied
  refine ⟨hexact.whole, fun repeats hrepeats => ?_⟩
  have hfirst : (rule.serve now (record, table.get? record.client.id)).1 = .denied hint := hdenied
  have hrest := hexact.repeated_eq hrepeats
  rw [asks_eq_repeated, List.cons_append, repeated, List.map_cons, hrest, hfirst, List.replicate_succ]
  rfl

/-- Three tokens a second, the only one taken at 0: the next is there at 334 and not before, whether or not it is
asked for on the way.  Two visits in ten milliseconds at 0 and 4: there is room for another at 10. -/
theorem hint_exact_of_thirds :
    (((ofRule (.tokenBucket (.ofMillis 1 1000))).run
        (requests (.fresh ⟨"c1", .standard⟩ (.limited 3) 0) [0])).asks
        (.fresh ⟨"c1", .standard⟩ (.limited 3) 0) [100, 333, 100, 334]).map Verdict.isAllowed =
      [false, false, false, true] ∧
    (((ofRule (.slidingWindow (.ofMillis 10))).run
        (requests (.fresh ⟨"c1", .standard⟩ (.limited 2) 0) [0, 4])).asks
        (.fresh ⟨"c1", .standard⟩ (.limited 2) 0) [7, 9, 10]).map Verdict.isAllowed =
      [false, false, true] := by
  constructor
  · have hexact := hint_exact (.tokenBucket (.ofMillis 1 1000))
      (requests (.fresh ⟨"c1", .standard⟩ (.limited 3) 0) [0]) (.fresh ⟨"c1", .standard⟩ (.limited 3) 0) 100
      (.ofMillis 234) (by decide) ⟨by decide, ?_⟩ rfl
    · exact hexact.2 [333, 100] (by decide)
    · intro b hb rate hrate
      obtain rfl : TokenBucket.Bucket.mk 0 0 = b := Option.some.inj hb
      obtain rfl : 3 = rate := Option.some.inj hrate
      decide
  · have hexact := hint_exact (.slidingWindow (.ofMillis 10))
      (requests (.fresh ⟨"c1", .standard⟩ (.limited 2) 0) [0, 4]) (.fresh ⟨"c1", .standard⟩ (.limited 2) 0) 7
      (.ofMillis 3) (by decide) ⟨rfl, ?_⟩ rfl
    · exact hexact.2 [9] (by decide)
    · rintro _ ⟨⟩
      exact asksAt_requests rfl (Nat.le_refl 2) _ _

end Algorithm
end AdmissionControl
