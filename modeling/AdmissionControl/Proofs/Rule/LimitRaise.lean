import AdmissionControl.Proofs.Rule.WindowBound

/-!
# A higher limit never costs an admission

The same calls are made twice, and one client asks under a lower limit in the first run and under a higher one in the
second.  The runs admit different requests, and what they keep of the client differs.  Still every request that the
lower limit admits is admitted under the higher one, so at no point is the first run ahead.

* `Rule.Outdoes` — a relation between what the two runs keep, under which the higher limit admits whatever the lower
  one does.
* `Rule.Outdoes.run` — **every run of a clock that does not go back keeps it**, whatever the other clients do.
* `FixedWindow.outdoes`, `SlidingWindow.outdoes` — windows start together; a log has no more additional entries in the
  window than the limits are apart.
* `Algorithm.raised_limit_admits` — **raising a limit costs no request its admission.**
-/

namespace AdmissionControl

/-- A record under another limit. -/
def Record.under (record : Record) (rate : UInt32) : Record := { record with policy := .limited rate }

namespace Algorithm

/-- The same call, made under another limit if it is a request of the client. -/
def Call.relimit (client : String) (rate : UInt32) : Call → Call
  | .decide record now => .decide (if record.client.id = client then record.under rate else record) now
  | .evict x => .evict x

/-- Whether a call is a request of the client that is admitted. -/
def grants (a : Algorithm) (client : String) : Call → Bool
  | .decide record now => record.client.id == client && (a.decide record now).1.isAllowed
  | .evict _ => false

/-- The number of a client's requests that are admitted. -/
def granted : Algorithm → String → List Call → Nat
  | _, _, [] => 0
  | a, client, call :: rest => (a.grants client call).toNat + (a.after call).granted client rest

theorem granted_append (a : Algorithm) (client : String) (early late : List Call) :
    a.granted client (early ++ late) = a.granted client early + (a.run early).granted client late := by
  induction early generalizing a with
  | nil => exact (Nat.zero_add _).symm
  | cons call rest ih => rw [List.cons_append, granted, granted, ih, run_cons, Nat.add_assoc]

end Algorithm

/-! ## Two runs side by side -/

namespace Rule

/-- A relation between what a metered rule keeps of a client under a lower and under a higher limit.  Requests under
both limits keep it, and where it holds the higher limit admits whatever the lower one does. -/
structure Outdoes {σ : Type} (decide : Nat → Nat → Option σ → Verdict × σ) (low high : Nat)
    (P : Nat → Option σ → Option σ → Prop) : Prop where
  /-- It holds of a client of which nothing is kept. -/
  start : ∀ now, P now none none
  /-- Time does not break it. -/
  later : ∀ {now later lower higher}, P now lower higher → now ≤ later → P later lower higher
  /-- A request that the lower limit admits is admitted under the higher one. -/
  admits : ∀ {now lower higher}, P now lower higher → (decide low now lower).1.isAllowed = true →
    (decide high now higher).1.isAllowed = true
  /-- A request under both limits keeps it. -/
  decides : ∀ {now lower higher}, P now lower higher →
    P now (some (decide low now lower).2) (some (decide high now higher).2)

namespace Outdoes

variable {rule : Rule} {d : Nat → Nat → Option rule.Kept → Verdict × rule.Kept} {low high : UInt32}
  {P : Nat → Option rule.Kept → Option rule.Kept → Prop} {client : String} {lower higher : Table String rule.Kept}
  {now : Nat} {calls : List Algorithm.Call}

open Algorithm

/-- One call keeps the relation, of whichever client it is. -/
theorem after (h : Outdoes d low.toNat high.toNat P)
    (hd : ∀ record now kept, rule.decide record now kept = meter (d · now) record kept) {call : Call}
    (htime : ∀ t ∈ call.time?, t = now) (hP : P now (lower.get? client) (higher.get? client)) :
    ∃ lower' higher', (⟨rule, lower⟩ : Algorithm).after (call.relimit client low) = ⟨rule, lower'⟩ ∧
      (⟨rule, higher⟩ : Algorithm).after (call.relimit client high) = ⟨rule, higher'⟩ ∧
      P now (lower'.get? client) (higher'.get? client) := by
  cases call with
  | decide record time =>
      obtain rfl : time = now := htime time rfl
      by_cases hclient : record.client.id = client
      · subst hclient
        simp only [Call.relimit, if_true, Algorithm.after]
        rw [decide_metered rule d hd rfl, decide_metered rule d hd rfl]
        refine ⟨_, _, rfl, rfl, ?_⟩
        simp only [Record.under, Table.get?_put, if_true]
        exact h.decides hP
      · simp only [Call.relimit, if_neg hclient]
        refine ⟨_, _, rfl, rfl, ?_⟩
        rw [Table.get?_put, if_neg (Ne.symm hclient), Table.get?_put, if_neg (Ne.symm hclient)]
        exact hP
  | evict x =>
      refine ⟨lower.erase x, higher.erase x, rfl, rfl, ?_⟩
      rw [Table.get?_erase, Table.get?_erase]
      by_cases hx : client = x
      · rw [if_pos hx, if_pos hx]
        exact h.start now
      · rw [if_neg hx, if_neg hx]
        exact hP

/-- **Every run of a clock that does not go back keeps the relation.** -/
theorem run (h : Outdoes d low.toNat high.toNat P)
    (hd : ∀ record now kept, rule.decide record now kept = meter (d · now) record kept) (client : String)
    (hforward : (times calls ++ [now]).Pairwise (· ≤ ·)) :
    ∃ lower higher, (ofRule rule).run (calls.map (.relimit client low)) = ⟨rule, lower⟩ ∧
      (ofRule rule).run (calls.map (.relimit client high)) = ⟨rule, higher⟩ ∧
      P now (lower.get? client) (higher.get? client) := by
  -- from the end: the last call is made at the time up to which the relation holds
  induction calls using List.reverseRecOn generalizing now with
  | nil => exact ⟨Table.empty, Table.empty, rfl, rfl, h.start now⟩
  | append_singleton calls call ih =>
      simp only [List.map_append, List.map_cons, List.map_nil, run_append, run_cons, run_nil]
      cases call with
      | decide record time =>
          rw [times_append_decide] at hforward
          obtain ⟨hearly, -, hlast⟩ := List.pairwise_append.1 hforward
          have htime : time ≤ now := hlast time (by simp) now (List.mem_singleton_self now)
          obtain ⟨lower, higher, hlower, hhigher, hP⟩ := ih hearly
          have hone : ∀ t ∈ (Call.decide record time).time?, t = time := by rintro t ⟨⟩; rfl
          obtain ⟨lower', higher', hlower', hhigher', hP'⟩ := h.after hd hone hP
          exact ⟨lower', higher', hlower ▸ hlower', hhigher ▸ hhigher', h.later hP' htime⟩
      | evict x =>
          have htimes : times (calls ++ [.evict x]) = times calls := by simp [times, Call.time?]
          rw [htimes] at hforward
          obtain ⟨lower, higher, hlower, hhigher, hP⟩ := ih hforward
          have hnone : ∀ t ∈ (Call.evict x).time?, t = now := by rintro t ⟨⟩
          obtain ⟨lower', higher', hlower', hhigher', hP'⟩ := h.after hd hnone hP
          exact ⟨lower', higher', hlower ▸ hlower', hhigher ▸ hhigher', hP'⟩

/-- After every run, a request that the lower limit admits is admitted under the higher one. -/
theorem isAllowed (h : Outdoes d low.toNat high.toNat P)
    (hd : ∀ record now kept, rule.decide record now kept = meter (d · now) record kept) {record : Record}
    (hforward : (times calls ++ [now]).Pairwise (· ≤ ·))
    (hallowed : (((ofRule rule).run (calls.map (.relimit record.client.id low))).decide
      (record.under low) now).1.isAllowed = true) :
    (((ofRule rule).run (calls.map (.relimit record.client.id high))).decide
      (record.under high) now).1.isAllowed = true := by
  obtain ⟨lower, higher, hlower, hhigher, hP⟩ := h.run hd record.client.id hforward
  rw [hlower, decide_metered rule d hd rfl] at hallowed
  rw [hhigher, decide_metered rule d hd rfl]
  exact h.admits hP hallowed

/-- At the end of every run, the higher limit has admitted as many requests of the client as the lower one. -/
theorem granted_le (h : Outdoes d low.toNat high.toNat P)
    (hd : ∀ record now kept, rule.decide record now kept = meter (d · now) record kept)
    (hforward : (times calls).Pairwise (· ≤ ·)) :
    (ofRule rule).granted client (calls.map (.relimit client low)) ≤
      (ofRule rule).granted client (calls.map (.relimit client high)) := by
  induction calls using List.reverseRecOn with
  | nil => exact Nat.le_refl 0
  | append_singleton calls call ih =>
      have hearly : (times calls).Pairwise (· ≤ ·) := by
        rw [times, List.filterMap_append] at hforward
        exact (List.pairwise_append.1 hforward).1
      have hfewer := ih hearly
      simp only [List.map_append, List.map_cons, List.map_nil, granted_append, granted, Nat.add_zero]
      refine Nat.add_le_add hfewer (Bool.toNat_le_toNat ?_)
      cases call with
      | decide record now =>
          by_cases hclient : record.client.id = client
          · subst hclient
            simp only [Call.relimit, if_true, grants, Record.under, beq_self_eq_true, Bool.true_and]
            exact h.isAllowed hd (forward_until hforward)
          · simp only [Call.relimit, if_neg hclient, grants, beq_false_of_ne hclient, Bool.false_and]
            exact Bool.le_refl _
      | evict x => exact Bool.le_refl _

end Outdoes
end Rule

/-! ## Fixed windows -/

namespace FixedWindow

variable {low high : Nat} {lower higher : Option Counter}

/-- The windows of both limits start together, and the lower limit counts the requests that the higher one counts up
to itself. -/
def Together (low high : Nat) : Option Counter → Option Counter → Prop
  | none, none => True
  | some c, some c' => c.start = c'.start ∧ c'.count ≤ high ∧ c.count = min c'.count low
  | _, _ => False

/-- Where the windows start together, either both are over or both run. -/
theorem Together.cases (h : Together low high lower higher) (w : FixedWindow) (now : Nat) :
    ((∀ c ∈ lower, w.window ≤ now - c.start) ∧ ∀ c ∈ higher, w.window ≤ now - c.start) ∨
      ∃ c c', lower = some c ∧ higher = some c' ∧ now - c.start < w.window ∧ now - c'.start < w.window ∧
        Together low high (some c) (some c') := by
  match lower, higher, h with
  | none, none, _ => exact .inl (by simp)
  | some c, some c', h =>
      by_cases hover : w.window ≤ now - c.start
      · exact .inl ⟨by rintro _ ⟨⟩; exact hover, by rintro _ ⟨⟩; rw [← h.1]; exact hover⟩
      · have hopen := Nat.not_le.1 hover
        exact .inr ⟨c, c', rfl, rfl, hopen, h.1 ▸ hopen, h⟩

theorem outdoes (w : FixedWindow) (hlow : 0 < low) (hraise : low ≤ high) (hmax : high ≤ Policy.maxRate) :
    Rule.Outdoes w.decide low high fun _ => Together low high where
  start _ := trivial
  later h _ := h
  admits := by
    intro now lower higher h hallowed
    obtain ⟨-, hover⟩ | ⟨c, c', rfl, rfl, hopen, hopen', -, hcount', hcount⟩ := h.cases w now
    · rw [decide_of_over (Nat.lt_of_lt_of_le hlow hraise) hover]
      rfl
    · have hroom : c.count < low := by
        by_contra hfull
        rw [decide_of_full (by omega) hopen (Nat.not_lt.1 hfull)] at hallowed
        exact absurd hallowed (by simp)
      rw [decide_of_open (by omega) hopen' (by omega)]
      rfl
  decides := by
    intro now lower higher h
    obtain ⟨hover, hover'⟩ | ⟨c, c', rfl, rfl, hopen, hopen', hstart, hcount', hcount⟩ := h.cases w now
    · rw [decide_of_over hlow hover, decide_of_over (Nat.lt_of_lt_of_le hlow hraise) hover']
      exact ⟨rfl, Nat.le_trans hlow hraise, (Nat.min_eq_left hlow).symm⟩
    · have hrange : c.count ≤ Policy.maxRate := by omega
      have hrange' : c'.count ≤ Policy.maxRate := by omega
      by_cases hroom' : c'.count < high
      · rw [decide_of_open hrange' hopen' hroom']
        by_cases hroom : c.count < low
        · rw [decide_of_open hrange hopen hroom]
          exact ⟨hstart, hroom', by dsimp only; omega⟩
        · rw [decide_of_full hrange hopen (Nat.not_lt.1 hroom)]
          exact ⟨hstart, hroom', by dsimp only; omega⟩
      · rw [decide_of_full hrange' hopen' (Nat.not_lt.1 hroom'),
          decide_of_full hrange hopen (by omega)]
        exact ⟨hstart, hcount', hcount⟩

end FixedWindow

/-! ## Sliding windows -/

namespace SlidingWindow

variable {w : SlidingWindow} {low high now later : Nat} {past past' : List Nat} {lower higher : Option Log}

/-- A filter drops at least as much of a list as of a part of it. -/
theorem length_filter_add_le {part whole : List Nat} (h : part.Sublist whole) (p : Nat → Bool) :
    (whole.filter p).length + part.length ≤ whole.length + (part.filter p).length := by
  have hdropped : (part.filter (!p ·)).length ≤ (whole.filter (!p ·)).length := (h.filter _).length_le
  have hpart := part.length_eq_length_filter_add p
  have hwhole := whole.length_eq_length_filter_add p
  omega

/-- What the two runs have admitted, and what they keep of it. -/
structure Leads (w : SlidingWindow) (low high now : Nat) (past past' : List Nat) (lower higher : Option Log) :
    Prop where
  /-- What is kept under the lower limit suffices. -/
  lower : w.Suffices now past lower
  /-- What is kept under the higher limit suffices. -/
  higher : w.Suffices now past' higher
  /-- What the lower limit has admitted, the higher one has admitted too. -/
  sublist : past.Sublist past'
  /-- No window that ends now or later holds more additional admissions than the limits are apart. -/
  gap : ∀ later, now ≤ later → (w.within later past').length + low ≤ (w.within later past).length + high

namespace Leads

theorem mono (h : w.Leads low high now past past' lower higher) (hle : now ≤ later) :
    w.Leads low high later past past' lower higher :=
  ⟨h.lower.mono hle, h.higher.mono hle, h.sublist, fun t ht => h.gap t (Nat.le_trans hle ht)⟩

/-- The additional admissions in a window that ends later are among those in the window that ends now. -/
theorem additional_le (h : w.Leads low high now past past' lower higher) (hle : now ≤ later) :
    (w.within later past').length + (w.within now past).length ≤
      (w.within now past').length + (w.within later past).length := by
  rw [within_later h.lower.recent hle, within_later h.higher.recent hle]
  exact length_filter_add_le (h.sublist.filter _) _

/-- A request for which the lower limit has room finds room under the higher one. -/
theorem room (h : w.Leads low high now past past' lower higher) (hroom : (w.within now past).length < low) :
    (w.within now past').length < high := by
  have hgap := h.gap now (Nat.le_refl now)
  omega

/-- A request that only the higher limit admits is one more additional admission, and there was room for it. -/
theorem gap_snoc (h : w.Leads low high now past past' lower higher) (hfull : low ≤ (w.within now past).length)
    (hroom : (w.within now past').length < high) (hle : now ≤ later) :
    (w.within later (past' ++ [now])).length + low ≤ (w.within later past).length + high := by
  have hadditional := h.additional_le hle
  have hone : (w.within later [now]).length ≤ 1 := List.length_filter_le ..
  rw [within_append, List.length_append]
  omega

/-- A request under both limits is admitted by both, or by the higher one only, or by none. -/
theorem decide (h : w.Leads low high now past past' lower higher) :
    ∃ past past', w.Leads low high now past past' (some (w.decide low now lower).2)
      (some (w.decide high now higher).2) := by
  have hlower := h.lower.decide low
  have hhigher := h.higher.decide high
  by_cases hroom' : (w.within now past').length < high
  · rw [if_pos ((h.higher.isAllowed_decide high).2 hroom')] at hhigher
    by_cases hroom : (w.within now past).length < low
    · rw [if_pos ((h.lower.isAllowed_decide low).2 hroom)] at hlower
      refine ⟨_, _, hlower, hhigher, h.sublist.append_right [now], fun later hle => ?_⟩
      have hgap := h.gap later hle
      simp only [within_append, List.length_append]
      omega
    · rw [if_neg (mt (h.lower.isAllowed_decide low).1 hroom)] at hlower
      exact ⟨_, _, hlower, hhigher, h.sublist.trans (List.sublist_append_left ..),
        fun later hle => h.gap_snoc (Nat.not_lt.1 hroom) hroom' hle⟩
  · have hroom : ¬ (w.within now past).length < low := mt h.room hroom'
    rw [if_neg (mt (h.higher.isAllowed_decide high).1 hroom')] at hhigher
    rw [if_neg (mt (h.lower.isAllowed_decide low).1 hroom)] at hlower
    exact ⟨_, _, hlower, hhigher, h.sublist, h.gap⟩

end Leads

theorem outdoes (w : SlidingWindow) (hraise : low ≤ high) :
    Rule.Outdoes w.decide low high fun now lower higher =>
      ∃ past past', w.Leads low high now past past' lower higher where
  start now := ⟨[], [], .nil w now, .nil w now, List.Sublist.refl [], fun _ _ => by simpa [within] using hraise⟩
  later := fun ⟨past, past', h⟩ hle => ⟨past, past', h.mono hle⟩
  admits := fun ⟨_, _, h⟩ hallowed =>
    (h.higher.isAllowed_decide high).2 (h.room ((h.lower.isAllowed_decide low).1 hallowed))
  decides := fun ⟨_, _, h⟩ => h.decide

end SlidingWindow

/-! ## Raising a limit -/

namespace Algorithm

variable {low high : UInt32}

/-- Both rules of windows have a relation that puts the higher limit ahead. -/
theorem exists_outdoes {rule : Rule} (hrule : rule.kind = .fixedWindow ∨ rule.kind = .slidingWindow)
    (hlow : 1 ≤ low.toNat) (hraise : low ≤ high) :
    ∃ (d : Nat → Nat → Option rule.Kept → Verdict × rule.Kept) (P : Nat → Option rule.Kept → Option rule.Kept → Prop),
      (∀ record now kept, rule.decide record now kept = Rule.meter (d · now) record kept) ∧
        Rule.Outdoes d low.toNat high.toNat P := by
  have hraise' : low.toNat ≤ high.toNat := UInt32.le_iff_toNat_le.1 hraise
  match rule, hrule with
  | .fixedWindow w, _ =>
      exact ⟨w.decide, _, fun _ _ _ => rfl, w.outdoes hlow hraise' (Nat.le_of_lt_succ high.toNat_lt)⟩
  | .slidingWindow w, _ => exact ⟨w.decide, _, fun _ _ _ => rfl, w.outdoes hraise'⟩

/-- **Raising a limit never costs an admission.**  In every run of a clock that does not go back, over any clients and
with evictions, a request that a fixed or a sliding window admits under a lower limit of its client is admitted under a
higher one too; so at every point of the run, at least as many requests of the client have been admitted under the
higher limit. -/
theorem raised_limit_admits (rule : Rule) (hrule : rule.kind = .fixedWindow ∨ rule.kind = .slidingWindow)
    (client : String) (hlow : 1 ≤ low.toNat) (hraise : low ≤ high) (calls : List Call)
    (hforward : (times calls).Pairwise (· ≤ ·)) :
    (∀ early record now late, calls = early ++ .decide record now :: late → record.client.id = client →
        (((ofRule rule).run (early.map (.relimit client low))).decide (record.under low) now).1.isAllowed = true →
          (((ofRule rule).run (early.map (.relimit client high))).decide (record.under high) now).1.isAllowed =
            true) ∧
      ∀ n, (ofRule rule).granted client ((calls.take n).map (.relimit client low)) ≤
        (ofRule rule).granted client ((calls.take n).map (.relimit client high)) := by
  obtain ⟨d, P, hd, houtdoes⟩ := exists_outdoes hrule hlow hraise
  constructor
  · rintro early record now late rfl rfl
    exact houtdoes.isAllowed hd (forward_until hforward)
  · intro n
    refine houtdoes.granted_le hd (hforward.sublist ?_)
    exact (List.take_sublist n calls).filterMap _

/-- Two clients come and go; the limit of "c1" is set in each run. -/
def comings : List Call :=
  [.decide (.fresh ⟨"c1", .standard⟩ .unrestricted 0) 0,
    .decide (.fresh ⟨"c2", .premium⟩ (.limited 1) 0) 2,
    .decide (.fresh ⟨"c1", .standard⟩ .unrestricted 0) 4,
    .decide (.fresh ⟨"c1", .standard⟩ .unrestricted 0) 9,
    .evict "c2",
    .decide (.fresh ⟨"c1", .standard⟩ .unrestricted 0) 11]

/-- At a sliding window of ten, a limit of one lets "c1" in at 0 and at 11, and a limit of two at 4 besides.  In fixed
windows it is the same. -/
theorem comings_of_raised_limit :
    (times comings).Pairwise (· ≤ ·) ∧
      (((ofRule (.slidingWindow (.ofMillis 10))).run ((comings.take 5).map (.relimit "c1" 1))).decide
        (.fresh ⟨"c1", .standard⟩ (.limited 1) 0) 11).1.isAllowed = true ∧
      (((ofRule (.slidingWindow (.ofMillis 10))).run ((comings.take 5).map (.relimit "c1" 2))).decide
        (.fresh ⟨"c1", .standard⟩ (.limited 2) 0) 11).1.isAllowed = true ∧
      (ofRule (.slidingWindow (.ofMillis 10))).granted "c1" ((comings.take 6).map (.relimit "c1" 1)) = 2 ∧
      2 ≤ (ofRule (.slidingWindow (.ofMillis 10))).granted "c1" ((comings.take 6).map (.relimit "c1" 2)) ∧
      (ofRule (.fixedWindow (.ofMillis 10))).granted "c1" ((comings.take 4).map (.relimit "c1" 1)) = 1 ∧
      1 ≤ (ofRule (.fixedWindow (.ofMillis 10))).granted "c1" ((comings.take 4).map (.relimit "c1" 2)) := by
  have hforward : (times comings).Pairwise (· ≤ ·) := by decide
  have hlow : 1 ≤ (1 : UInt32).toNat := Nat.le_refl 1
  have hraise : (1 : UInt32) ≤ 2 := by decide
  obtain ⟨hrequests, hcounts⟩ :=
    raised_limit_admits (.slidingWindow (.ofMillis 10)) (.inr rfl) "c1" hlow hraise comings hforward
  obtain ⟨-, hcounts'⟩ :=
    raised_limit_admits (.fixedWindow (.ofMillis 10)) (.inl rfl) "c1" hlow hraise comings hforward
  have hadmitted : (((ofRule (.slidingWindow (.ofMillis 10))).run ((comings.take 5).map (.relimit "c1" 1))).decide
      (.fresh ⟨"c1", .standard⟩ (.limited 1) 0) 11).1.isAllowed = true := by decide
  have htwo : (ofRule (.slidingWindow (.ofMillis 10))).granted "c1" ((comings.take 6).map (.relimit "c1" 1)) = 2 := by
    decide
  have hone : (ofRule (.fixedWindow (.ofMillis 10))).granted "c1" ((comings.take 4).map (.relimit "c1" 1)) = 1 := by
    decide
  refine ⟨hforward, hadmitted, ?_, htwo, ?_, hone, ?_⟩
  · exact hrequests (comings.take 5) (.fresh ⟨"c1", .standard⟩ .unrestricted 0) 11 [] rfl rfl hadmitted
  · exact htwo ▸ hcounts 6
  · exact hone ▸ hcounts' 4

end Algorithm
end AdmissionControl
