import AdmissionControl.Proofs.Rule.Oblivion
import AdmissionControl.Proofs.Rule.TokenRate
import AdmissionControl.Proofs.Rule.WindowLog

/-!
# Invariants of one client over a run

A run mixes the calls of many clients, and a client may be forgotten on the way.  Of one client it is enough to
say what holds when nothing is kept of it, that time does not break it, and that its own decisions keep it.

* `Rule.Invariant` — these three facts about a property of a client's state and of its full log.
* `Rule.Invariant.run` — **every run of a clock that does not go back keeps an invariant.**
* `FixedWindow.invariant_inRange`, `SlidingWindow.invariant_bounded`, `TokenBucket.invariant_refilled`,
  `LeakyBucket.invariant_inRange` — what each rule keeps is in range and dates from now at the latest.
-/

namespace AdmissionControl

/-- The rates at which a client asks in a run. -/
def Algorithm.AsksAt (client : String) (rates : Nat → Prop) (calls : List Call) : Prop :=
  ∀ record now, Call.decide record now ∈ calls → record.client.id = client →
    ∀ rate ∈ record.policy.rate?, rates rate

namespace Rule

/-- A property of what a metered rule keeps of a client at a time, and of the client's full log, that no decision
at the given rates breaks. -/
structure Invariant {σ : Type} (decide : Nat → Nat → Option σ → Verdict × σ) (rates : Nat → Prop)
    (P : Nat → List Nat → Option σ → Prop) : Prop where
  /-- It holds of a client of which nothing is kept. -/
  start : ∀ now, P now [] none
  /-- Time does not break it. -/
  later : ∀ {now later past kept}, P now past kept → now ≤ later → P later past kept
  /-- A decision keeps it, whether the request is admitted or denied. -/
  decides : ∀ {rate now past kept}, rates rate → P now past kept →
    P now (if (decide rate now kept).1.isAllowed = true then past ++ [now] else past)
      (some (decide rate now kept).2)

namespace Invariant

variable {rule : Rule} {d : Nat → Nat → Option rule.Kept → Verdict × rule.Kept} {rates : Nat → Prop}
  {P : Nat → List Nat → Option rule.Kept → Prop} {client : String} {table : Table String rule.Kept}
  {past : List Nat} {now : Nat}

open Algorithm

/-- A request of the client keeps the invariant. -/
theorem decide (h : Invariant d rates P)
    (hd : ∀ record now kept, rule.decide record now kept = meter (d · now) record kept) (record : Record)
    (hrates : ∀ rate ∈ record.policy.rate?, rates rate) (hP : P now past (table.get? record.client.id)) :
    P now ((⟨rule, table⟩ : Algorithm).noted record.client.id past (.decide record now))
      ((rule.decide record now (table.get? record.client.id)).2) := by
  cases hpolicy : record.policy with
  | unrestricted =>
      have hmeter : meter (d · now) record (table.get? record.client.id) =
          (Admission.pass record, table.get? record.client.id) := meter_unrestricted hpolicy
      simpa [noted, hpolicy, Policy.isUnrestricted, hd, hmeter] using hP
  | limited rate =>
      have hmeter : meter (d · now) record (table.get? record.client.id) =
          (⟨(d rate.toNat now (table.get? record.client.id)).1, record⟩,
            some (d rate.toNat now (table.get? record.client.id)).2) := meter_limited hpolicy
      have hrate : rates rate.toNat := hrates _ (by rw [hpolicy]; rfl)
      have hnext := h.decides hrate hP
      simpa [noted, hpolicy, Policy.isUnrestricted, Algorithm.decide, Algorithm.get?, Admission.isAllowed, hd,
        hmeter] using hnext

/-- **One call keeps an invariant**, of whichever client it is. -/
theorem after (h : Invariant d rates P)
    (hd : ∀ record now kept, rule.decide record now kept = meter (d · now) record kept) {call : Call}
    (hrates : AsksAt client rates [call]) (htime : ∀ t ∈ call.time?, t = now)
    (hP : P now past (table.get? client)) :
    ∃ table', (⟨rule, table⟩ : Algorithm).after call = ⟨rule, table'⟩ ∧
      P now ((⟨rule, table⟩ : Algorithm).noted client past call) (table'.get? client) := by
  cases call with
  | decide record time =>
      obtain rfl : time = now := htime time rfl
      refine ⟨table.put record.client.id (rule.decide record time (table.get? record.client.id)).2, rfl, ?_⟩
      by_cases hclient : record.client.id = client
      · subst hclient
        rw [Table.get?_put, if_pos rfl]
        exact h.decide hd record (hrates record time (List.mem_singleton_self _) rfl) hP
      · have hcall : (Call.decide record time).client ≠ client := hclient
        rw [noted_of_ne _ hcall, Table.get?_put, if_neg (Ne.symm hclient)]
        exact hP
  | evict x =>
      refine ⟨table.erase x, rfl, ?_⟩
      by_cases hx : x = client
      · simpa [noted, hx] using h.start now
      · have hother : client ≠ x := Ne.symm hx
        simpa [noted, hx, hother] using hP

/-- **Every run of a clock that does not go back keeps an invariant.** -/
theorem run (h : Invariant d rates P)
    (hd : ∀ record now kept, rule.decide record now kept = meter (d · now) record kept) {calls : List Call}
    (hrates : AsksAt client rates calls) (hforward : (times calls ++ [now]).Pairwise (· ≤ ·)) :
    ∃ table, (ofRule rule).run calls = ⟨rule, table⟩ ∧
      P now ((ofRule rule).admittedSince client [] calls) (table.get? client) := by
  -- over the calls that are still to come, from any state and any time up to which the invariant holds
  suffices hrun : ∀ (calls : List Call) (start : Nat) (table : Table String rule.Kept) (past : List Nat),
      AsksAt client rates calls → (start :: times calls ++ [now]).Pairwise (· ≤ ·) →
      P start past (table.get? client) →
      ∃ table', (⟨rule, table⟩ : Algorithm).run calls = ⟨rule, table'⟩ ∧
        P now ((⟨rule, table⟩ : Algorithm).admittedSince client past calls) (table'.get? client) by
    refine hrun calls 0 Table.empty [] hrates ?_ (h.start 0)
    exact List.pairwise_cons.2 ⟨fun t _ => Nat.zero_le t, hforward⟩
  intro calls
  induction calls with
  | nil =>
      intro start table past _ hforward hP
      refine ⟨table, rfl, h.later hP ?_⟩
      exact (List.pairwise_cons.1 hforward).1 now (List.mem_singleton_self now)
  | cons call rest ih =>
      intro start table past hrates hforward hP
      have hone : AsksAt client rates [call] := fun record t hmem =>
        hrates record t (List.mem_singleton.1 hmem ▸ List.mem_cons_self)
      have hrest : AsksAt client rates rest := fun record t hmem =>
        hrates record t (List.mem_cons_of_mem _ hmem)
      cases call with
      | decide record time =>
          obtain ⟨hstart, htail⟩ := List.pairwise_cons.1 hforward
          have hpast := h.later hP (hstart time List.mem_cons_self)
          obtain ⟨table', hafter, hP'⟩ := h.after hd hone (by rintro t ⟨⟩; rfl) hpast
          have hnext := ih time table' _ hrest htail hP'
          rw [run_cons, admittedSince, hafter]
          exact hnext
      | evict x =>
          obtain ⟨table', hafter, hP'⟩ := h.after hd hone (by rintro t ⟨⟩) hP
          have hnext := ih start table' _ hrest hforward hP'
          rw [run_cons, admittedSince, hafter]
          exact hnext

/-- The same for a run that is known to have led to this table. -/
theorem of_run (h : Invariant d rates P) {calls : List Call}
    (hrun : (ofRule rule).run calls = ⟨rule, table⟩)
    (hd : ∀ record now kept, rule.decide record now kept = meter (d · now) record kept)
    (hrates : AsksAt client rates calls) (hforward : (times calls ++ [now]).Pairwise (· ≤ ·)) :
    P now ((ofRule rule).admittedSince client [] calls) (table.get? client) := by
  obtain ⟨table', hrun', hP⟩ := h.run hd hrates hforward
  obtain rfl : table = table' := by
    rw [hrun] at hrun'
    cases hrun'
    rfl
  exact hP

end Invariant
end Rule

/-- A run leaves the rule as it is. -/
theorem Algorithm.exists_run_eq (rule : Rule) (calls : List Call) :
    ∃ table, (ofRule rule).run calls = ⟨rule, table⟩ := by
  generalize hrun : (ofRule rule).run calls = a
  obtain ⟨rule', table⟩ := a
  obtain rfl : rule' = rule := by
    have hrule := rule_run (ofRule rule) calls
    rwa [hrun] at hrule
  exact ⟨table, rfl⟩

/-- No client asks at more than a policy can set. -/
theorem Algorithm.asksAt_le_maxRate (client : String) (calls : List Call) :
    AsksAt client (· ≤ Policy.maxRate) calls :=
  fun _ _ _ _ _ hrate => Policy.rate?_le hrate

theorem Algorithm.asksAt_requests {record : Record} {rate : UInt32} (hpolicy : record.policy = .limited rate)
    {rates : Nat → Prop} (h : rates rate.toNat) (client : String) (ts : List Nat) :
    AsksAt client rates (requests record ts) := by
  intro record' now hmem _ limit hlimit
  obtain ⟨t, -, hrequest⟩ := List.mem_map.1 hmem
  obtain ⟨rfl, rfl⟩ := Algorithm.Call.decide.inj hrequest
  rw [hpolicy] at hlimit
  exact Option.some.inj hlimit ▸ h

theorem Algorithm.UnderLimit.asksAt {client : String} {rate : UInt32} {calls : List Call}
    (h : UnderLimit client rate calls) : AsksAt client (· = rate.toNat) calls := by
  intro record now hmem hclient limit hlimit
  obtain ⟨record', now', hcall, hpolicy⟩ := h _ hmem hclient
  obtain ⟨rfl, rfl⟩ := Algorithm.Call.decide.inj hcall
  rw [hpolicy] at hlimit
  exact (Option.some.inj hlimit).symm

/-! ## What each rule keeps -/

namespace FixedWindow

theorem invariant_inRange (w : FixedWindow) :
    Rule.Invariant w.decide (· ≤ Policy.maxRate)
      fun now _ kept => ∀ c ∈ kept, c.count ≤ Policy.maxRate ∧ c.start ≤ now where
  start := by simp
  later h hle c hc := ⟨(h c hc).1, Nat.le_trans (h c hc).2 hle⟩
  decides := by
    rintro limit now - kept hlimit h c ⟨⟩
    exact ⟨count_decide_le hlimit fun c hc => (h c hc).1, start_decide_le (fun c hc => (h c hc).2) (Nat.le_refl now)⟩

end FixedWindow

namespace SlidingWindow

theorem size_current_le (w : SlidingWindow) (l : Log) (now : Nat) : (w.current l now).size ≤ l.size := by
  obtain ⟨stale, hsplit, -⟩ := exists_stale w l now
  simp [Log.size, hsplit]

/-- A log of which no limit was larger than `bound` has no more than `bound` entries. -/
theorem invariant_bounded (w : SlidingWindow) (bound : Nat) :
    Rule.Invariant w.decide (· ≤ bound)
      fun now past kept => w.Suffices now past kept ∧ (kept.getD Log.empty).size ≤ bound where
  start now := ⟨.nil w now, Nat.zero_le _⟩
  later h hle := ⟨h.1.mono hle, h.2⟩
  decides := by
    rintro limit now past kept hlimit ⟨hsuffices, hsize⟩
    refine ⟨hsuffices.decide limit, ?_⟩
    by_cases hroom : (w.current (kept.getD Log.empty) now).size < limit
    · rw [Option.getD_some, SlidingWindow.decide, if_pos hroom]
      simp only [Log.push, Log.size, List.length_append, List.length_singleton] at hroom ⊢
      omega
    · rw [Option.getD_some, decide_of_full (Nat.not_lt.1 hroom)]
      exact Nat.le_trans (w.size_current_le _ now) hsize

end SlidingWindow

namespace TokenBucket

variable {r : TokenBucket} {rate now : Nat} {kept : Option Bucket}

/-- A refill does not move the clock of a bucket beyond now. -/
theorem Bucket.refilled_refill_le {b : Bucket} {window : Nat} (h : b.refilled ≤ now) :
    (b.refill now rate window).2.refilled ≤ now := by
  have htook : timeOf (accrued (now - b.refilled) rate window) rate window ≤ now - b.refilled :=
    Ledger.took_le (Nat.div_mul_le_self ..)
  unfold Bucket.refill
  dsimp only
  split
  · have htime := Word.saturate_le_self (timeOf (accrued (now - b.refilled) rate window) rate window)
    exact Nat.le_trans (Word.saturate_le_self _) (by omega)
  · exact h

theorem invariant_refilled (r : TokenBucket) :
    Rule.Invariant r.decide (fun _ => True) fun now _ kept => ∀ b ∈ kept, b.refilled ≤ now where
  start := by simp
  later h hle b hb := Nat.le_trans (h b hb) hle
  decides := by
    rintro rate now - kept - h b ⟨⟩
    rw [refilled_decide]
    apply Bucket.refilled_refill_le
    cases kept with
    | none => exact Nat.le_refl now
    | some b => exact h b rfl

end TokenBucket

namespace LeakyBucket

theorem invariant_inRange (r : LeakyBucket) :
    Rule.Invariant r.decide (fun _ => True)
      fun now _ kept => ∀ b ∈ kept, b.level ≤ r.capacity ∧ b.drained ≤ now where
  start := by simp
  later h hle b hb := ⟨(h b hb).1, Nat.le_trans (h b hb).2 hle⟩
  decides := by
    rintro rate now - kept - h b ⟨⟩
    exact ⟨level_decide_le fun b hb => (h b hb).1, drained_decide_le (fun b hb => (h b hb).2) (Nat.le_refl now)⟩

end LeakyBucket
end AdmissionControl
