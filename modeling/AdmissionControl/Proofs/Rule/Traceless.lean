import Mathlib.Logic.Function.Basic
import AdmissionControl.Proofs.Rule.Foresight
import AdmissionControl.Proofs.Rule.Hints
import AdmissionControl.Proofs.Rule.Oblivion
import AdmissionControl.Proofs.Rule.Records

/-!
# A denial leaves no trace

A denial writes: a window counts the request and takes it back, a log drops what is stale, a bucket is refilled or
drained.  So two runs that differ in a denied request do not keep the same of its client.  This file shows that nobody
ever finds out, whatever is asked later, and under whichever limits: a run goes on as if the request had not been
made.

* `Rule.estimate_of_denied`, `Rule.record_of_denied` — a denial could have been estimated, and hands the record back.
* `Algorithm.agrees_of_denied` — nobody can tell what a denial leaves from what it found.
* `Algorithm.replies_congr` — **algorithms that nobody can tell apart answer every run alike.**
* `Algorithm.chained` — the calls of clients that hold records, and present what the call before returned.
* `Algorithm.denials_leave_no_trace` — **a denied request can be taken out of a run**, of calls that are given and of
  calls that are chained.
-/

namespace AdmissionControl

/-! ## One denial -/

@[simp] theorem Record.client_retarget (r : Record) (client : Client) (policy : Policy) :
    (r.retarget client policy).client = client := rfl

@[simp] theorem Record.retarget_retarget (r : Record) (client client' : Client) (policy policy' : Policy) :
    (r.retarget client policy).retarget client' policy' = r.retarget client' policy' := rfl

namespace Rule

variable {rule : Rule} {record : Record} {now : Nat} {kept : Option rule.Kept}

theorem isAllowed_meter_unrestricted {σ : Type} (decide : Nat → Option σ → Verdict × σ)
    (h : record.policy = .unrestricted) (kept : Option σ) : (meter decide record kept).1.isAllowed = true := by
  rw [meter_unrestricted h]
  rfl

/-- What is denied can be estimated. -/
theorem estimate_of_denied (hrule : rule.CanAdmit) (hvalid : record.policy.isValid = true) (hkept : rule.Sound kept)
    (hfits : rule.RefillFits record now kept) (hdenied : (rule.decide record now kept).1.isAllowed = false) :
    rule.estimate record now kept = some (rule.decide record now kept).1 := by
  cases hpolicy : record.policy with
  | limited rate =>
      have hrate : record.policy.rate? = some rate.toNat := by rw [hpolicy]; rfl
      have hpos : 0 < rate.toNat := Policy.pos_of_isValid hvalid hpolicy
      exact (estimate_eq_some_iff_denied hrule hrate hpos hkept hfits).2 ⟨rfl, hdenied⟩
  | unrestricted =>
      -- without a limit only a quota denies
      cases rule with
      | fixedWindow w => simp [decide, isAllowed_meter_unrestricted _ hpolicy] at hdenied
      | slidingWindow w => simp [decide, isAllowed_meter_unrestricted _ hpolicy] at hdenied
      | tokenBucket r => simp [decide, isAllowed_meter_unrestricted _ hpolicy] at hdenied
      | leakyBucket r => simp [decide, isAllowed_meter_unrestricted _ hpolicy] at hdenied
      | quota q => exact (Quota.estimate_eq_some_iff_denied hrule).2 ⟨rfl, hdenied⟩

/-- A denial hands the record back. -/
theorem record_of_denied (hrule : rule.CanAdmit) (hdenied : (rule.decide record now kept).1.isAllowed = false) :
    (rule.decide record now kept).1.record = record := by
  cases rule with
  | fixedWindow w => exact record_meter _ record kept
  | slidingWindow w => exact record_meter _ record kept
  | tokenBucket r => exact record_meter _ record kept
  | leakyBucket r => exact record_meter _ record kept
  | quota q =>
      have hestimate := (Quota.estimate_eq_some_iff_denied hrule).2 ⟨rfl, hdenied⟩
      obtain ⟨-, -, hadmission⟩ := Quota.estimate_eq_some_iff.1 hestimate
      exact congrArg Admission.record hadmission

end Rule

namespace Algorithm

variable {a b : Algorithm} {record : Record} {call : Call} {calls : List Call} {time now i : Nat}
  {held held' : String → Record}

/-! ## Runs of algorithms that nobody can tell apart -/

theorem agrees_self (h : a.Sound) (time : Nat) (client : String) : Agrees time client a a := by
  obtain ⟨rule, kept⟩ := a
  exact .of_agree (.self (h client) time)

/-- One call is answered alike, and nobody can tell the algorithms apart after it. -/
theorem Agrees.after (h : ∀ client, Agrees time client a b) (hcall : ∀ t ∈ call.time?, time ≤ t) :
    a.reply? call = b.reply? call ∧
      ∀ client, Agrees (call.time?.getD time) client (a.after call) (b.after call) := by
  cases call with
  | evict x => exact ⟨rfl, fun client => (h client).evict x⟩
  | decide record now =>
      have hnow : time ≤ now := hcall now rfl
      obtain ⟨hanswer, hagree⟩ := (h record.client.id).decide hnow
      refine ⟨congrArg some hanswer, fun client => ?_⟩
      by_cases hclient : client = record.client.id
      · rw [hclient]
        exact hagree
      · have hother : (Call.decide record now).client ≠ client := Ne.symm hclient
        exact ((h client).mono hnow).congr (sameFor_after hother) (sameFor_after hother)

theorem forward_cons (h : (time :: times (call :: calls)).Pairwise (· ≤ ·)) :
    (∀ t ∈ call.time?, time ≤ t) ∧ (call.time?.getD time :: times calls).Pairwise (· ≤ ·) := by
  cases call with
  | evict x => exact ⟨by rintro t ⟨⟩, h⟩
  | decide record now =>
      obtain ⟨hhead, htail⟩ := List.pairwise_cons.1 h
      refine ⟨?_, htail⟩
      rintro t ⟨⟩
      exact hhead now List.mem_cons_self

/-- **Algorithms that nobody can tell apart answer every run alike**, as long as the clock does not go back. -/
theorem replies_congr (h : ∀ client, Agrees time client a b) (hforward : (time :: times calls).Pairwise (· ≤ ·)) :
    a.replies calls = b.replies calls := by
  induction calls generalizing a b time with
  | nil => rfl
  | cons call rest ih =>
      obtain ⟨hlater, hrest⟩ := forward_cons hforward
      obtain ⟨hanswer, hagree⟩ := Agrees.after h hlater
      rw [replies, replies, hanswer, ih hagree hrest]

/-- What a denial leaves, nobody can tell from what it found. -/
theorem agrees_of_denied (hrule : a.rule.CanAdmit) (hsound : a.Sound) (hvalid : record.policy.isValid = true)
    (hfits : a.rule.RefillFits record now (a.get? record.client.id))
    (hdenied : (a.decide record now).1.isAllowed = false) (client : String) :
    Agrees now client a (a.decide record now).2 := by
  have hself := agrees_self hsound now
  by_cases hclient : client = record.client.id
  · rw [hclient]
    exact ((hself record.client.id).estimate (Nat.le_refl now)
      (Rule.estimate_of_denied hrule hvalid (hsound record.client.id) hfits hdenied)).2
  · have hother : (Call.decide record now).client ≠ client := Ne.symm hclient
    exact (hself client).congr (.refl client a) (sameFor_after hother)

/-! ## A run without one of its denials -/

/-- Every policy that is asked for can be enforced. -/
def Enforceable (calls : List Call) : Prop :=
  ∀ record now, Call.decide record now ∈ calls → record.policy.isValid = true

/-- The tokens that come in find room in the word, whenever a request is decided. -/
def RefillsFit : Algorithm → List Call → Prop
  | _, [] => True
  | a, .decide record now :: rest =>
      a.rule.RefillFits record now (a.get? record.client.id) ∧ (a.decide record now).2.RefillsFit rest
  | a, .evict client :: rest => (a.evict client).RefillsFit rest

/-- The call at a place of the run is a request, and it is denied. -/
def DeniesAt (a : Algorithm) (calls : List Call) (i : Nat) : Prop :=
  ∃ admission, (a.replies calls)[i]? = some (some admission) ∧ admission.isAllowed = false

theorem Enforceable.tail (h : Enforceable (call :: calls)) : Enforceable calls :=
  fun record now hmem => h record now (List.mem_cons_of_mem _ hmem)

theorem RefillsFit.tail (h : a.RefillsFit (call :: calls)) : (a.after call).RefillsFit calls := by
  cases call with
  | decide record now => exact h.2
  | evict client => exact h

theorem deniesAt_cons_zero (h : a.DeniesAt (call :: calls) 0) :
    ∃ record now, call = .decide record now ∧ (a.decide record now).1.isAllowed = false := by
  obtain ⟨admission, hreply, hdenied⟩ := h
  cases call with
  | decide record now =>
      obtain rfl : (a.decide record now).1 = admission := Option.some.inj (Option.some.inj hreply)
      exact ⟨record, now, rfl, hdenied⟩
  | evict client => cases Option.some.inj hreply

theorem times_tail_forward (h : (times (call :: calls)).Pairwise (· ≤ ·)) : (times calls).Pairwise (· ≤ ·) :=
  h.sublist ((List.sublist_cons_self call calls).filterMap _)

/-- **A denied call can be taken out of a run.** -/
theorem replies_eraseIdx (hrule : a.rule.CanAdmit) (hsound : a.Sound) (hvalid : Enforceable calls)
    (hforward : (times calls).Pairwise (· ≤ ·)) (hfits : a.RefillsFit calls) (hdenied : a.DeniesAt calls i) :
    a.replies (calls.eraseIdx i) = (a.replies calls).eraseIdx i := by
  induction calls generalizing a i with
  | nil => rfl
  | cons call rest ih =>
      cases i with
      | zero =>
          obtain ⟨record, now, rfl, hanswer⟩ := deniesAt_cons_zero hdenied
          -- the calls that come after the denial cannot tell whether it was made
          have hagree := agrees_of_denied hrule hsound (hvalid record now List.mem_cons_self) hfits.1 hanswer
          exact replies_congr hagree hforward
      | succ i =>
          have hcan : (a.after call).rule.CanAdmit := by
            rw [rule_after]
            exact hrule
          have hrest := ih hcan (sound_after hsound call) hvalid.tail (times_tail_forward hforward) hfits.tail hdenied
          simp [replies, hrest]

/-! ## Chained calls -/

/-- The call that is made when the clients hold these records: the one who asks presents its record, under the policy
that it asks for. -/
def presented (held : String → Record) : Call → Call
  | .decide record now => .decide ((held record.client.id).retarget record.client record.policy) now
  | .evict client => .evict client

/-- What the clients hold after a call: whoever has asked holds the record of the answer. -/
def holdings (a : Algorithm) (held : String → Record) : Call → String → Record
  | .decide record now => Function.update held record.client.id (a.decide record now).1.record
  | .evict _ => held

/-- The calls that are made when each client presents the record that its request before returned. -/
def chained : Algorithm → (String → Record) → List Call → List Call
  | _, _, [] => []
  | a, held, call :: rest =>
      presented held call ::
        (a.after (presented held call)).chained (a.holdings held (presented held call)) rest

theorem time?_presented (held : String → Record) (call : Call) : (presented held call).time? = call.time? := by
  cases call with
  | decide record now => rfl
  | evict client => rfl

/-- A chain asks at the same times. -/
@[simp] theorem times_chained (a : Algorithm) (held : String → Record) (calls : List Call) :
    times (a.chained held calls) = times calls := by
  induction calls generalizing a held with
  | nil => rfl
  | cons call rest ih =>
      have hrest := ih (a.after (presented held call)) (a.holdings held (presented held call))
      rw [times] at hrest ⊢
      rw [chained, times, List.filterMap_cons, List.filterMap_cons, time?_presented, hrest]
      rfl

/-- A chain asks for the same policies. -/
theorem Enforceable.chained (h : Enforceable calls) (a : Algorithm) (held : String → Record) :
    Enforceable (a.chained held calls) := by
  induction calls generalizing a held with
  | nil => exact h
  | cons call rest ih =>
      intro record now hmem
      rcases List.mem_cons.1 hmem with hcall | hmem
      · cases call with
        | evict client => cases hcall
        | decide asked t =>
            obtain ⟨rfl, rfl⟩ := Call.decide.inj hcall
            exact h asked now List.mem_cons_self
      · exact ih h.tail _ _ record now hmem

/-- Holdings that are presented alike are so after the same answer. -/
theorem presented_holdings_congr (hheld : ∀ call, presented held call = presented held' call)
    (hanswer : a.reply? call = b.reply? call) (other : Call) :
    presented (a.holdings held call) other = presented (b.holdings held' call) other := by
  cases call with
  | evict client => exact hheld other
  | decide record now =>
      have hrecord : (a.decide record now).1 = (b.decide record now).1 := Option.some.inj hanswer
      cases other with
      | evict client => rfl
      | decide asked t =>
          have hasked := hheld (.decide asked t)
          by_cases hclient : asked.client.id = record.client.id
          · simp [presented, holdings, hclient, hrecord]
          · simpa [presented, holdings, hclient] using hasked

/-- Clients that cannot tell the algorithms apart, and hold what is presented alike, make the same calls. -/
theorem chained_congr (h : ∀ client, Agrees time client a b)
    (hheld : ∀ call, presented held call = presented held' call)
    (hforward : (time :: times calls).Pairwise (· ≤ ·)) : a.chained held calls = b.chained held' calls := by
  induction calls generalizing a b held held' time with
  | nil => rfl
  | cons call rest ih =>
      obtain ⟨hlater, hrest⟩ := forward_cons hforward
      rw [← time?_presented held call] at hlater hrest
      obtain ⟨hanswer, hagree⟩ := Agrees.after h hlater
      rw [chained, chained, ← hheld call, ih hagree (presented_holdings_congr hheld hanswer) hrest]

/-- A denial changes nothing about what its client presents. -/
theorem presented_of_denied {asked : Record} (hrule : a.rule.CanAdmit)
    (hdenied : (a.decide ((held asked.client.id).retarget asked.client asked.policy) now).1.isAllowed = false)
    (other : Call) :
    presented held other = presented (a.holdings held (presented held (.decide asked now))) other := by
  have hrecord : (a.decide ((held asked.client.id).retarget asked.client asked.policy) now).1.record =
      (held asked.client.id).retarget asked.client asked.policy := Rule.record_of_denied hrule hdenied
  cases other with
  | evict client => rfl
  | decide later t =>
      by_cases hclient : later.client.id = asked.client.id
      · simp only [presented, holdings, hrecord, Record.client_retarget, hclient, Function.update_self,
          Record.retarget_retarget]
      · simp only [presented, holdings, Record.client_retarget, Function.update_of_ne hclient]

/-- A denied call can be taken out of a chain: the others make the same calls. -/
theorem chained_eraseIdx (hrule : a.rule.CanAdmit) (hsound : a.Sound) (hvalid : Enforceable calls)
    (hforward : (times calls).Pairwise (· ≤ ·)) (hfits : a.RefillsFit (a.chained held calls))
    (hdenied : a.DeniesAt (a.chained held calls) i) :
    a.chained held (calls.eraseIdx i) = (a.chained held calls).eraseIdx i := by
  induction calls generalizing a held i with
  | nil => rfl
  | cons call rest ih =>
      cases i with
      | zero =>
          obtain ⟨record, now, hcall, hanswer⟩ := deniesAt_cons_zero hdenied
          cases call with
          | evict client => cases hcall
          | decide asked t =>
              obtain ⟨rfl, rfl⟩ := Call.decide.inj hcall
              have hpolicy : ((held asked.client.id).retarget asked.client asked.policy).policy.isValid = true :=
                hvalid asked t List.mem_cons_self
              have hagree := agrees_of_denied hrule hsound hpolicy hfits.1 hanswer
              exact chained_congr hagree (presented_of_denied hrule hanswer) hforward
      | succ i =>
          have hcan : (a.after (presented held call)).rule.CanAdmit := by
            rw [rule_after]
            exact hrule
          have hrest := ih hcan (sound_after hsound _) hvalid.tail (times_tail_forward hforward) hfits.tail hdenied
          simp [chained, hrest]

/-- **A denial leaves no trace.**  In any run of a clock that does not go back — over any clients, under any limits that
can be enforced, with evictions — a denied request can be left out, and every other call is answered as before: with the
same verdict, hint and record.  So it is for calls that are given, and for chains, in which each client presents the
record that it was handed last. -/
theorem denials_leave_no_trace (rule : Rule) (hrule : rule.CanAdmit) (calls : List Call)
    (hforward : (times calls).Pairwise (· ≤ ·)) (hvalid : Enforceable calls) :
    ((ofRule rule).RefillsFit calls → ∀ i, (ofRule rule).DeniesAt calls i →
      (ofRule rule).replies (calls.eraseIdx i) = ((ofRule rule).replies calls).eraseIdx i) ∧
    ∀ held, (ofRule rule).RefillsFit ((ofRule rule).chained held calls) →
      ∀ i, (ofRule rule).DeniesAt ((ofRule rule).chained held calls) i →
        (ofRule rule).replies ((ofRule rule).chained held (calls.eraseIdx i)) =
          ((ofRule rule).replies ((ofRule rule).chained held calls)).eraseIdx i := by
  have hsound := sound_ofRule rule
  refine ⟨fun hfits i hdenied => replies_eraseIdx hrule hsound hvalid hforward hfits hdenied, ?_⟩
  intro held hfits i hdenied
  rw [chained_eraseIdx hrule hsound hvalid hforward hfits hdenied]
  refine replies_eraseIdx hrule hsound (hvalid.chained _ held) ?_ hfits hdenied
  rw [times_chained]
  exact hforward

theorem enforceable_requests (h : record.policy.isValid = true) (ts : List Nat) : Enforceable (requests record ts) := by
  intro record' now hmem
  obtain ⟨t, -, hcall⟩ := List.mem_map.1 hmem
  obtain ⟨rfl, rfl⟩ := Call.decide.inj hcall
  exact h

/-- A leaky bucket of one unit that denies at 400, and a quota of one request a second that does so too: without that
request everything is answered as before. -/
theorem denial_at_400_leaves_no_trace :
    ((ofRule (.leakyBucket ⟨1⟩)).DeniesAt (requests (.fresh ⟨"c1", .standard⟩ (.limited 2) 0) [0, 400, 500]) 1 ∧
      (ofRule (.leakyBucket ⟨1⟩)).replies (requests (.fresh ⟨"c1", .standard⟩ (.limited 2) 0) [0, 500]) =
        ((ofRule (.leakyBucket ⟨1⟩)).replies
          (requests (.fresh ⟨"c1", .standard⟩ (.limited 2) 0) [0, 400, 500])).eraseIdx 1) ∧
    (ofRule (.quota ⟨1, 1000, by decide⟩)).DeniesAt
        ((ofRule (.quota ⟨1, 1000, by decide⟩)).chained (fun _ => .fresh ⟨"c1", .standard⟩ (.limited 2) 0)
          (requests (.fresh ⟨"c1", .standard⟩ (.limited 2) 0) [0, 400, 1000])) 1 ∧
      (ofRule (.quota ⟨1, 1000, by decide⟩)).replies
          ((ofRule (.quota ⟨1, 1000, by decide⟩)).chained (fun _ => .fresh ⟨"c1", .standard⟩ (.limited 2) 0)
            (requests (.fresh ⟨"c1", .standard⟩ (.limited 2) 0) [0, 1000])) =
        ((ofRule (.quota ⟨1, 1000, by decide⟩)).replies
          ((ofRule (.quota ⟨1, 1000, by decide⟩)).chained (fun _ => .fresh ⟨"c1", .standard⟩ (.limited 2) 0)
            (requests (.fresh ⟨"c1", .standard⟩ (.limited 2) 0) [0, 400, 1000]))).eraseIdx 1 := by
  have hleaky : (ofRule (.leakyBucket ⟨1⟩)).DeniesAt
      (requests (.fresh ⟨"c1", .standard⟩ (.limited 2) 0) [0, 400, 500]) 1 := ⟨_, rfl, rfl⟩
  have hquota : (ofRule (.quota ⟨1, 1000, by decide⟩)).DeniesAt
      ((ofRule (.quota ⟨1, 1000, by decide⟩)).chained (fun _ => .fresh ⟨"c1", .standard⟩ (.limited 2) 0)
        (requests (.fresh ⟨"c1", .standard⟩ (.limited 2) 0) [0, 400, 1000])) 1 := ⟨_, rfl, rfl⟩
  refine ⟨⟨hleaky, ?_⟩, hquota, ?_⟩
  · exact (denials_leave_no_trace (.leakyBucket ⟨1⟩) Nat.one_pos
      (requests (.fresh ⟨"c1", .standard⟩ (.limited 2) 0) [0, 400, 500]) (by decide) (enforceable_requests rfl _)).1
      ⟨trivial, trivial, trivial, trivial⟩ 1 hleaky
  · exact (denials_leave_no_trace (.quota ⟨1, 1000, by decide⟩) Nat.one_pos
      (requests (.fresh ⟨"c1", .standard⟩ (.limited 2) 0) [0, 400, 1000]) (by decide) (enforceable_requests rfl _)).2
      (fun _ => .fresh ⟨"c1", .standard⟩ (.limited 2) 0) ⟨trivial, trivial, trivial, trivial⟩ 1 hquota

end Algorithm
end AdmissionControl
