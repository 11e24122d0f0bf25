import Mathlib.Data.List.Basic
import AdmissionControl.Rule

/-!
# Calls on an algorithm, one after another

The rules are stated for one decision.  This file is about runs: a list of calls (`Algorithm.Call`) is
handed to an algorithm call by call, whatever the clients, the limits and the times are, and whether or
not the times go forward.

* `Algorithm.run`, `Algorithm.replies` — the algorithm after a run, and what it answered.
* `Algorithm.sound_run` — **the invariant of every run**: a window never counts more requests than a
  rate can ask for, and a leaky bucket never holds more than its capacity.
* `admissions`, `keptAfter` — the same for the requests of one client under one rate, told by nothing
  but their times.  `Algorithm.admitted_eq_admissions` says that this is what the algorithm does.
-/

namespace AdmissionControl

/-! ## Runs -/

namespace Algorithm

/-- One call on an algorithm. -/
inductive Call
  /-- A request is decided. -/
  | decide (record : Record) (now : Nat)
  /-- A client is forgotten. -/
  | evict (client : String)
  deriving DecidableEq, Repr

/-- The client that a call is about. -/
def Call.client : Call → String
  | .decide record _ => record.client.id
  | .evict client => client

/-- The algorithm after a call. -/
def after (a : Algorithm) : Call → Algorithm
  | .decide record now => (a.decide record now).2
  | .evict client => a.evict client

/-- What a call is answered: an eviction has no answer. -/
def reply? (a : Algorithm) : Call → Option Admission
  | .decide record now => some (a.decide record now).1
  | .evict _ => none

/-- The algorithm after calls one after another. -/
def run (a : Algorithm) (calls : List Call) : Algorithm := calls.foldl after a

/-- What each of the calls is answered. -/
def replies : Algorithm → List Call → List (Option Admission)
  | _, [] => []
  | a, call :: rest => a.reply? call :: (a.after call).replies rest

/-- The number of calls that are answered with an admission. -/
def admitted (a : Algorithm) (calls : List Call) : Nat :=
  (a.replies calls).countP fun reply => reply.any Admission.isAllowed

@[simp] theorem run_nil (a : Algorithm) : a.run [] = a := rfl

@[simp] theorem run_cons (a : Algorithm) (call : Call) (rest : List Call) :
    a.run (call :: rest) = (a.after call).run rest := rfl

theorem run_append (a : Algorithm) (early late : List Call) :
    a.run (early ++ late) = (a.run early).run late :=
  List.foldl_append

theorem replies_append (a : Algorithm) (early late : List Call) :
    a.replies (early ++ late) = a.replies early ++ (a.run early).replies late := by
  induction early generalizing a with
  | nil => rfl
  | cons call rest ih =>
      rw [List.cons_append, replies, replies, ih, run_cons, List.cons_append]

@[simp] theorem rule_after (a : Algorithm) (call : Call) : (a.after call).rule = a.rule := by
  cases call <;> rfl

@[simp] theorem rule_run (a : Algorithm) (calls : List Call) : (a.run calls).rule = a.rule := by
  induction calls generalizing a with
  | nil => rfl
  | cons call rest ih => rw [run_cons, ih, rule_after]

end Algorithm

/-! ## Requests of one client -/

/-- How many of the requests that come at the given times are admitted. -/
def admissions {σ : Type} (decide : Nat → Option σ → Verdict × σ) : List Nat → Option σ → Nat
  | [], _ => 0
  | now :: rest, kept =>
      (decide now kept).1.isAllowed.toNat + admissions decide rest (some (decide now kept).2)

/-- What is kept of a client after its requests at the given times. -/
def keptAfter {σ : Type} (decide : Nat → Option σ → Verdict × σ) (times : List Nat)
    (kept : Option σ) : Option σ :=
  times.foldl (fun kept now => some (decide now kept).2) kept

theorem admissions_append {σ : Type} (decide : Nat → Option σ → Verdict × σ) (early late : List Nat)
    (kept : Option σ) :
    admissions decide (early ++ late) kept =
      admissions decide early kept + admissions decide late (keptAfter decide early kept) := by
  induction early generalizing kept with
  | nil => simp [admissions, keptAfter]
  | cons now rest ih =>
      rw [List.cons_append, admissions, admissions, ih, keptAfter, keptAfter, List.foldl_cons,
        Nat.add_assoc]

theorem keptAfter_append {σ : Type} (decide : Nat → Option σ → Verdict × σ) (early late : List Nat)
    (kept : Option σ) :
    keptAfter decide (early ++ late) kept = keptAfter decide late (keptAfter decide early kept) :=
  List.foldl_append

/-- The time from the first to the last of some times. -/
def span (times : List Nat) : Nat := times.getLast?.getD 0 - times.head?.getD 0

theorem span_cons (first : Nat) (rest : List Nat) :
    span (first :: rest) = (first :: rest).getLast?.getD first - first := by
  rw [span, List.head?_cons, List.getLast?_cons, Option.getD_some, Option.getD_some,
    Option.getD_some]

theorem forward_cons_self {first : Nat} {rest : List Nat}
    (h : (first :: rest).Pairwise (· ≤ ·)) : (first :: first :: rest).Pairwise (· ≤ ·) := by
  refine List.pairwise_cons.2 ⟨fun t ht => ?_, h⟩
  rcases List.mem_cons.1 ht with rfl | ht
  · exact Nat.le_refl _
  · exact (List.pairwise_cons.1 h).1 t ht

/-- One more time that is not later than now. -/
theorem recent_snoc {past : List Nat} {now : Nat} (h : ∀ t ∈ past, t ≤ now) : ∀ t ∈ past ++ [now], t ≤ now := by
  intro t ht
  rcases List.mem_append.1 ht with ht | ht
  · exact h t ht
  · exact Nat.le_of_eq (List.mem_singleton.1 ht)

namespace Algorithm

/-- The time of a request. -/
def Call.time? : Call → Option Nat
  | .decide _ now => some now
  | .evict _ => none

/-- The times of the requests among some calls. -/
def times (calls : List Call) : List Nat := calls.filterMap Call.time?

theorem times_append_decide (early late : List Call) (record : Record) (now : Nat) :
    times (early ++ .decide record now :: late) = times early ++ now :: times late := by
  rw [times, List.filterMap_append]
  rfl

/-- No request is later than one that comes after it. -/
theorem forward_until {early late : List Call} {record : Record} {now : Nat}
    (h : (times (early ++ .decide record now :: late)).Pairwise (· ≤ ·)) :
    (times early ++ [now]).Pairwise (· ≤ ·) := by
  rw [times_append_decide, List.append_cons] at h
  exact (List.pairwise_append.1 h).1

/-- The calls are requests of one client under one rate, at times of the machine word that do not go
back. -/
structure Steady (client : String) (rate : UInt32) (calls : List Call) : Prop where
  /-- Every call is such a request. -/
  request : ∀ call ∈ calls, ∃ record now, call = .decide record now ∧
    record.client.id = client ∧ record.policy = .limited rate ∧ now ≤ Word.max
  /-- No request is earlier than one before it. -/
  forward : (times calls).Pairwise (· ≤ ·)

theorem admitted_cons_decide (a : Algorithm) (record : Record) (now : Nat) (rest : List Call) :
    a.admitted (.decide record now :: rest) =
      (a.decide record now).1.isAllowed.toNat + (a.decide record now).2.admitted rest := by
  simp only [admitted, replies, List.countP_cons, reply?, after, Option.any_some]
  by_cases h : (a.decide record now).1.isAllowed = true
  · simp [h, Nat.add_comm]
  · simp [h]

theorem Steady.tail {client : String} {rate : UInt32} {call : Call} {rest : List Call}
    (h : Steady client rate (call :: rest)) : Steady client rate rest := by
  refine ⟨fun c hc => h.request c (List.mem_cons_of_mem _ hc), ?_⟩
  refine h.forward.sublist ?_
  exact (List.sublist_cons_self call rest).filterMap _

theorem Steady.times_le {client : String} {rate : UInt32} {calls : List Call}
    (h : Steady client rate calls) : ∀ now ∈ times calls, now ≤ Word.max := by
  intro now hnow
  obtain ⟨call, hcall, htime⟩ := List.mem_filterMap.1 hnow
  obtain ⟨record, now', rfl, -, -, hle⟩ := h.request call hcall
  obtain rfl : now' = now := Option.some.inj htime
  exact hle

/-- Requests for one record at the given times. -/
def requests (record : Record) (times : List Nat) : List Call := times.map (.decide record ·)

theorem times_requests (record : Record) (ts : List Nat) : times (requests record ts) = ts := by
  simp only [times, requests, List.filterMap_map]
  exact List.filterMap_some

theorem steady_requests (record : Record) {rate : UInt32} (hpolicy : record.policy = .limited rate)
    {ts : List Nat} (hforward : ts.Pairwise (· ≤ ·)) (hword : ∀ t ∈ ts, t ≤ Word.max) :
    Steady record.client.id rate (requests record ts) := by
  refine ⟨fun call hcall => ?_, by rw [times_requests]; exact hforward⟩
  obtain ⟨now, hnow, rfl⟩ := List.mem_map.1 hcall
  exact ⟨record, now, rfl, rfl, hpolicy, hword now hnow⟩

/-- **One client at a time.**  What a metered algorithm admits of a client's steady requests is told by
the client's own state and the times. -/
theorem admitted_eq_admissions (rule : Rule) {d : Nat → Nat → Option rule.Kept → Verdict × rule.Kept}
    (hd : ∀ record now kept, rule.decide record now kept = Rule.meter (d · now) record kept)
    {client : String} {rate : UInt32} {calls : List Call} (h : Steady client rate calls)
    (table : Table String rule.Kept) :
    (⟨rule, table⟩ : Algorithm).admitted calls =
      admissions (d rate.toNat) (times calls) (table.get? client) := by
  induction calls generalizing table with
  | nil => rfl
  | cons call rest ih =>
      obtain ⟨record, now, rfl, rfl, hpolicy, -⟩ := h.request call (List.mem_cons_self ..)
      have hdecide : rule.decide record now (table.get? record.client.id) =
          (⟨(d rate.toNat now (table.get? record.client.id)).1, record⟩,
            some (d rate.toNat now (table.get? record.client.id)).2) := by
        rw [hd, Rule.meter, hpolicy]
        rfl
      have hnext : (⟨rule, table⟩ : Algorithm).decide record now =
          (⟨(d rate.toNat now (table.get? record.client.id)).1, record⟩,
            ⟨rule, table.put record.client.id
              (some (d rate.toNat now (table.get? record.client.id)).2)⟩) := by
        simp only [Algorithm.decide, Algorithm.get?, hdecide]
      rw [admitted_cons_decide, hnext, ih h.tail, Table.get?_put, if_pos rfl]
      rfl

end Algorithm

/-! ## What holds after every run -/

/-- The largest rate that a policy can set. -/
def Policy.maxRate : Nat := 0xFFFFFFFF

theorem Policy.rate?_le {p : Policy} {rate : Nat} (h : p.rate? = some rate) : rate ≤ maxRate := by
  cases p with
  | limited r =>
      obtain rfl : r.toNat = rate := Option.some.inj h
      exact Nat.le_of_lt_succ r.toNat_lt
  | unrestricted => exact absurd h (by simp [Policy.rate?])

namespace Rule

/-- What is kept of a client is in range: a window counts no more requests than a rate can ask for,
and a leaky bucket holds no more than its capacity. -/
def Sound : (rule : Rule) → Option rule.Kept → Prop
  | fixedWindow _, kept => ∀ c ∈ kept, c.count ≤ Policy.maxRate
  | leakyBucket r, kept => ∀ b ∈ kept, b.level ≤ r.capacity
  | slidingWindow _, _ | tokenBucket _, _ | quota _, _ => True

end Rule

/-- An admitted request is counted, and a denied one leaves the count as it was. -/
theorem FixedWindow.count_decide_le {w : FixedWindow} {limit now : Nat} {kept : Option Counter}
    (hlimit : limit ≤ Policy.maxRate) (h : ∀ c ∈ kept, c.count ≤ Policy.maxRate) :
    (w.decide limit now kept).2.count ≤ Policy.maxRate := by
  have hc : (kept.getD (Counter.fresh now)).count ≤ Policy.maxRate := by
    cases kept with
    | none => exact Nat.zero_le _
    | some c => exact h c rfl
  simp only [FixedWindow.decide]
  split
  · simp only [Counter.roll, if_true]
    decide
  · split
    · rename_i hle
      exact Nat.le_trans hle hlimit
    · -- the count was in range, so adding one did not wrap and taking it away restores the count
      have hwrap : Word.wrap ((kept.getD (Counter.fresh now)).count + 1) =
          (kept.getD (Counter.fresh now)).count + 1 :=
        Word.wrap_of_le (Nat.le_trans (Nat.succ_le_succ hc) (by decide))
      simpa [Counter.decrement, Counter.increment, hwrap] using hc

theorem LeakyBucket.level_decide_le {r : LeakyBucket} {rate now : Nat} {kept : Option Bucket}
    (h : ∀ b ∈ kept, b.level ≤ r.capacity) : (r.decide rate now kept).2.level ≤ r.capacity := by
  have hb : (kept.getD (Bucket.fresh now)).level ≤ r.capacity := by
    cases kept with
    | none => exact Nat.zero_le _
    | some b => exact h b rfl
  have hdrain : ((kept.getD (Bucket.fresh now)).drain now rate).level ≤ r.capacity := by
    rw [Bucket.drain_level]
    exact Nat.le_trans (Nat.sub_le ..) hb
  have hfill := Bucket.fill_le hdrain
  simp only [LeakyBucket.decide]
  split <;> exact hfill

namespace Rule

theorem sound_none (rule : Rule) : rule.Sound none := by
  cases rule with
  | fixedWindow w => intro c hc; exact absurd hc (by simp)
  | leakyBucket r => intro b hb; exact absurd hb (by simp)
  | slidingWindow w => trivial
  | tokenBucket r => trivial
  | quota q => trivial

/-- A metered rule keeps what each of its decisions keeps. -/
theorem meter_kept {σ : Type} {P : Option σ → Prop} {decide : Nat → Option σ → Verdict × σ}
    {record : Record} {kept : Option σ} (h : P kept)
    (hdecide : ∀ rate ≤ Policy.maxRate, P (some (decide rate kept).2)) :
    P (meter decide record kept).2 := by
  simp only [meter]
  cases hr : record.policy.rate? with
  | none => exact h
  | some rate => exact hdecide rate (Policy.rate?_le hr)

theorem sound_decide {rule : Rule} {record : Record} {now : Nat} {kept : Option rule.Kept}
    (h : rule.Sound kept) : rule.Sound (rule.decide record now kept).2 := by
  cases rule with
  | fixedWindow w =>
      refine meter_kept (P := (fixedWindow w).Sound) h ?_
      rintro rate hrate c ⟨⟩
      exact FixedWindow.count_decide_le hrate h
  | leakyBucket r =>
      refine meter_kept (P := (leakyBucket r).Sound) h ?_
      rintro rate _ b ⟨⟩
      exact LeakyBucket.level_decide_le h
  | slidingWindow w => trivial
  | tokenBucket r => trivial
  | quota q => trivial

end Rule

namespace Algorithm

/-- What is kept of every client is in range. -/
def Sound (a : Algorithm) : Prop := ∀ client, a.rule.Sound (a.get? client)

theorem sound_ofRule (rule : Rule) : (ofRule rule).Sound := fun _ => rule.sound_none

theorem sound_decide {a : Algorithm} (h : a.Sound) (record : Record) (now : Nat) :
    (a.decide record now).2.Sound := by
  intro client
  by_cases hc : client = record.client.id
  · rw [hc, get?_decide_self]
    exact Rule.sound_decide (h record.client.id)
  · rw [get?_decide_of_ne hc]
    exact h client

theorem sound_evict {a : Algorithm} (h : a.Sound) (client : String) : (a.evict client).Sound := by
  intro x
  rw [get?_evict]
  split
  · exact Rule.sound_none _
  · exact h x

theorem sound_after {a : Algorithm} (h : a.Sound) (call : Call) : (a.after call).Sound := by
  cases call with
  | decide record now => exact sound_decide h record now
  | evict client => exact sound_evict h client

/-- **Every run keeps the algorithm in range.** -/
theorem sound_run {a : Algorithm} (h : a.Sound) (calls : List Call) : (a.run calls).Sound := by
  induction calls generalizing a with
  | nil => exact h
  | cons call rest ih => exact ih (sound_after h call)

end Algorithm
end AdmissionControl
