import Mathlib.Data.List.Induction
import AdmissionControl.Proofs.Rule.Calls

/-!
# A sliding window answers as the full log would

The log that a sliding window keeps of a client forgets: each decision drops the times that have left the
window by then, and nothing is dropped before the clock has passed one window.  The full log
(`Algorithm.admittedSince`) forgets nothing but the clients that are evicted.

* `SlidingWindow.Suffices` — the invariant: what is kept is the end of the full log, and all that is
  missing has left the window.
* `Algorithm.suffices_run` — **every run of a clock that does not go back keeps it**, over any clients and
  limits.
* `Algorithm.slidingWindow_eq_fullLog` — a request is admitted if and only if the full log has fewer entries
  in the window than the limit, so no stretch of time as long as the window holds more admissions than one
  limit allows.
-/

namespace AdmissionControl

/-! ## The window of a list of times -/

namespace SlidingWindow

variable {w : SlidingWindow} {now later : Nat} {past : List Nat}

/-- The times in the window that ends at `now`. -/
def within (w : SlidingWindow) (now : Nat) (times : List Nat) : List Nat :=
  times.filter fun t => t ≤ now ∧ now < t + w.window

theorem within_append (early late : List Nat) :
    w.within now (early ++ late) = w.within now early ++ w.within now late :=
  List.filter_append ..

theorem length_within_le_append (early late : List Nat) :
    (w.within now late).length ≤ (w.within now (early ++ late)).length := by
  rw [within_append, List.length_append]
  exact Nat.le_add_left ..

theorem within_eq_self {times : List Nat} (h : ∀ t ∈ times, t ≤ now ∧ now < t + w.window) :
    w.within now times = times :=
  List.filter_eq_self.2 fun t ht => decide_eq_true (h t ht)

theorem within_of_left {times : List Nat} (h : ∀ t ∈ times, t + w.window ≤ now) :
    w.within now times = [] := by
  refine List.filter_eq_nil_iff.2 fun t ht => ?_
  have hleft := h t ht
  simp only [decide_eq_true_eq, not_and, Nat.not_lt]
  omega

/-- Of the times up to `now`, a window that ends later holds those that have not left by then. -/
theorem within_later {times : List Nat} (hpast : ∀ t ∈ times, t ≤ now) (h : now ≤ later) :
    w.within later times = (w.within now times).filter fun t => later < t + w.window := by
  rw [within, within, List.filter_filter]
  refine List.filter_congr fun t ht => ?_
  have hle := hpast t ht
  rw [← Bool.decide_and, decide_eq_decide]
  omega

/-- A window that ends later holds no more of the times up to `now`. -/
theorem length_within_mono {times : List Nat} (hpast : ∀ t ∈ times, t ≤ now) (h : now ≤ later) :
    (w.within later times).length ≤ (w.within now times).length := by
  rw [within_later hpast h]
  exact List.length_filter_le ..

/-- One more time at the end leaves every window within a bound, if the window that ends there has room for
it. -/
theorem length_within_snoc_le {times : List Nat} {bound t : Nat} (hpast : ∀ t ∈ times, t ≤ now)
    (hroom : (w.within now times).length < bound) (h : (w.within t times).length ≤ bound) :
    (w.within t (times ++ [now])).length ≤ bound := by
  rw [within_append, List.length_append]
  by_cases hin : now ≤ t ∧ t < now + w.window
  · have hmono := length_within_mono (w := w) hpast hin.1
    have hone : (w.within t [now]).length ≤ 1 := List.length_filter_le ..
    omega
  · have hnone : w.within t [now] = [] := by
      refine List.filter_eq_nil_iff.2 fun x hx => ?_
      rw [List.mem_singleton.1 hx, decide_eq_true_eq]
      omega
    rw [hnone]
    exact h

/-! ## What a log keeps -/

/-- What the front of a log loses by `now` has left the window. -/
theorem exists_stale (w : SlidingWindow) (l : Log) (now : Nat) :
    ∃ stale, l.times = stale ++ (w.current l now).times ∧ ∀ t ∈ stale, t + w.window ≤ now := by
  by_cases hwindow : w.window ≤ now
  · refine ⟨l.times.takeWhile (· ≤ now - w.window), ?_, fun t ht => ?_⟩
    · rw [current, if_pos hwindow, Log.live, List.takeWhile_append_dropWhile]
    · have hle := List.all_eq_true.1 List.all_takeWhile t ht
      rw [decide_eq_true_eq] at hle
      omega
  · exact ⟨[], by rw [current, if_neg hwindow, List.nil_append], fun t ht => absurd ht (by simp)⟩

/-- In a log without descents all entries from the first one after the cutoff on are after it. -/
theorem Log.lt_of_mem_live {l : Log} (hforward : l.times.Pairwise (· ≤ ·)) {cutoff t : Nat}
    (ht : t ∈ (l.live cutoff).times) : cutoff < t := by
  obtain ⟨times⟩ := l
  simp only [live] at hforward ht
  induction times with
  | nil => exact absurd ht List.not_mem_nil
  | cons first rest ih =>
      obtain ⟨hfirst, hrest⟩ := List.pairwise_cons.1 hforward
      by_cases hstale : first ≤ cutoff
      · rw [List.dropWhile_cons_of_pos (by simpa using hstale)] at ht
        exact ih hrest ht
      · rw [List.dropWhile_cons_of_neg (by simpa using hstale)] at ht
        rcases List.mem_cons.1 ht with rfl | ht
        · exact Nat.not_le.1 hstale
        · exact Nat.lt_of_lt_of_le (Nat.not_le.1 hstale) (hfirst t ht)

theorem lt_of_mem_current {l : Log} (hforward : l.times.Pairwise (· ≤ ·)) {t : Nat}
    (ht : t ∈ (w.current l now).times) : now < t + w.window := by
  by_cases hwindow : w.window ≤ now
  · rw [current, if_pos hwindow] at ht
    have hcutoff := Log.lt_of_mem_live hforward ht
    omega
  · omega

/-- What is kept of a client suffices to answer from `now` on: it is the end of the full log, and all that
is missing has left the window. -/
structure Suffices (w : SlidingWindow) (now : Nat) (past : List Nat) (kept : Option Log) : Prop where
  /-- The full log has no descents. -/
  forward : past.Pairwise (· ≤ ·)
  /-- Nothing in it is later than `now`. -/
  recent : ∀ t ∈ past, t ≤ now
  /-- What is missing has left the window. -/
  suffix : ∃ gone, past = gone ++ (kept.getD Log.empty).times ∧ ∀ t ∈ gone, t + w.window ≤ now

namespace Suffices

variable {kept : Option Log}

theorem nil (w : SlidingWindow) (now : Nat) : w.Suffices now [] none :=
  ⟨.nil, by simp, [], rfl, by simp⟩

theorem mono (h : w.Suffices now past kept) (hle : now ≤ later) : w.Suffices later past kept := by
  obtain ⟨gone, hpast, hgone⟩ := h.suffix
  refine ⟨h.forward, fun t ht => Nat.le_trans (h.recent t ht) hle, gone, hpast, fun t ht => ?_⟩
  exact Nat.le_trans (hgone t ht) hle

/-- The entries that count are those of the full log in the window. -/
theorem times_current (h : w.Suffices now past kept) :
    (w.current (kept.getD Log.empty) now).times = w.within now past := by
  obtain ⟨gone, hpast, hgone⟩ := h.suffix
  obtain ⟨stale, hstale, hleft⟩ := exists_stale w (kept.getD Log.empty) now
  have hforward : (kept.getD Log.empty).times.Pairwise (· ≤ ·) := by
    have hsorted := h.forward
    rw [hpast] at hsorted
    exact (List.pairwise_append.1 hsorted).2.1
  have hall : w.within now (w.current (kept.getD Log.empty) now).times =
      (w.current (kept.getD Log.empty) now).times := by
    refine within_eq_self fun t ht => ?_
    have hmem : t ∈ past := by
      rw [hpast, hstale]
      exact List.mem_append_right _ (List.mem_append_right _ ht)
    exact ⟨h.recent t hmem, lt_of_mem_current hforward ht⟩
  calc (w.current (kept.getD Log.empty) now).times
      = w.within now (w.current (kept.getD Log.empty) now).times := hall.symm
    _ = w.within now (kept.getD Log.empty).times := by
        rw [hstale, within_append, within_of_left hleft, List.nil_append]
    _ = w.within now past := by
        rw [hpast, within_append, within_of_left hgone, List.nil_append]

/-- The log as it counts at `now` suffices as well. -/
theorem current (h : w.Suffices now past kept) :
    w.Suffices now past (some (w.current (kept.getD Log.empty) now)) := by
  obtain ⟨gone, hpast, hgone⟩ := h.suffix
  obtain ⟨stale, hstale, hleft⟩ := exists_stale w (kept.getD Log.empty) now
  refine ⟨h.forward, h.recent, gone ++ stale, ?_, fun t ht => ?_⟩
  · rw [Option.getD_some, List.append_assoc, ← hstale]
    exact hpast
  · exact (List.mem_append.1 ht).elim (hgone t) (hleft t)

theorem push {l : Log} (h : w.Suffices now past (some l)) :
    w.Suffices now (past ++ [now]) (some (l.push now)) := by
  obtain ⟨gone, hpast, hgone⟩ := h.suffix
  refine ⟨?_, recent_snoc h.recent, gone, ?_, hgone⟩
  · refine List.pairwise_append.2 ⟨h.forward, List.pairwise_singleton .., fun t ht t' ht' => ?_⟩
    rw [List.mem_singleton.1 ht']
    exact h.recent t ht
  · rw [hpast, List.append_assoc]
    rfl

/-- A request is admitted if and only if the full log leaves room for it. -/
theorem isAllowed_decide (h : w.Suffices now past kept) (limit : Nat) :
    (w.decide limit now kept).1.isAllowed = true ↔ (w.within now past).length < limit := by
  rw [← h.times_current, ← Log.size]
  by_cases hroom : (w.current (kept.getD Log.empty) now).size < limit
  · exact iff_of_true (by rw [SlidingWindow.decide, if_pos hroom]; rfl) hroom
  · exact iff_of_false (by rw [SlidingWindow.decide, if_neg hroom]; simp) hroom

/-- A decision keeps what suffices for the full log with the request in it, if it was admitted. -/
theorem decide (h : w.Suffices now past kept) (limit : Nat) :
    w.Suffices now (if (w.decide limit now kept).1.isAllowed then past ++ [now] else past)
      (some (w.decide limit now kept).2) := by
  by_cases hroom : (w.current (kept.getD Log.empty) now).size < limit
  · rw [SlidingWindow.decide, if_pos hroom]
    exact h.current.push
  · rw [SlidingWindow.decide, if_neg hroom]
    exact h.current

end Suffices
end SlidingWindow

/-! ## The full log of a run -/

theorem Rule.meter_limited {σ : Type} {decide : Nat → Option σ → Verdict × σ} {record : Record}
    {kept : Option σ} {rate : UInt32} (h : record.policy = .limited rate) :
    meter decide record kept =
      (⟨(decide rate.toNat kept).1, record⟩, some (decide rate.toNat kept).2) := by
  simp only [meter, h, Policy.rate?]

theorem Rule.meter_unrestricted {σ : Type} {decide : Nat → Option σ → Verdict × σ}
    {record : Record} {kept : Option σ} (h : record.policy = .unrestricted) :
    meter decide record kept = (Admission.pass record, kept) := by
  simp only [meter, h, Policy.rate?]

namespace Algorithm

/-- The full log of a client after one more call: an eviction empties it, and an admission under a limit
adds its time. -/
def noted (a : Algorithm) (client : String) (past : List Nat) : Call → List Nat
  | .decide record now =>
      if record.client.id = client ∧ record.policy.isUnrestricted = false ∧
          (a.decide record now).1.isAllowed = true then past ++ [now]
      else past
  | .evict x => if x = client then [] else past

/-- The full log of a client after some calls: the times of its admissions under a limit, since it was
evicted last, after those in `past`. -/
def admittedSince : Algorithm → String → List Nat → List Call → List Nat
  | _, _, past, [] => past
  | a, client, past, call :: rest =>
      (a.after call).admittedSince client (a.noted client past call) rest

variable {w : SlidingWindow} {client : String} {now : Nat} {past : List Nat} {calls : List Call}

/-- A call about another client leaves the full log as it is. -/
theorem noted_of_ne (a : Algorithm) {call : Call} (h : call.client ≠ client) :
    a.noted client past call = past := by
  cases call with
  | decide record now => exact if_neg fun hnoted => h hnoted.1
  | evict x => exact if_neg h

theorem admittedSince_append (a : Algorithm) (client : String) (past : List Nat)
    (early late : List Call) :
    a.admittedSince client past (early ++ late) =
      (a.run early).admittedSince client (a.admittedSince client past early) late := by
  induction early generalizing a past with
  | nil => rfl
  | cons call rest ih => exact ih (a.after call) (a.noted client past call)

/-- Without an eviction of the client the full log only grows. -/
theorem admittedSince_eq_append (a : Algorithm) (past : List Nat)
    (h : ∀ call ∈ calls, call ≠ .evict client) :
    a.admittedSince client past calls = past ++ a.admittedSince client [] calls := by
  have hnoted : ∀ (a : Algorithm) (past : List Nat) (call : Call), call ≠ .evict client →
      a.noted client past call = past ++ a.noted client [] call := by
    intro a past call hcall
    cases call with
    | decide record now =>
        simp only [noted]
        split
        · rfl
        · exact (List.append_nil past).symm
    | evict x =>
        have hx : x ≠ client := fun hx => hcall (congrArg Call.evict hx)
        simp only [noted, if_neg hx, List.append_nil]
  induction calls generalizing a past with
  | nil => exact (List.append_nil past).symm
  | cons call rest ih =>
      have hrest : ∀ c ∈ rest, c ≠ .evict client := fun c hc => h c (List.mem_cons_of_mem _ hc)
      calc a.admittedSince client past (call :: rest)
          = a.noted client past call ++ (a.after call).admittedSince client [] rest :=
            ih (a.after call) _ hrest
        _ = past ++ (a.noted client [] call ++ (a.after call).admittedSince client [] rest) := by
            rw [hnoted a past call (h call (List.mem_cons_self ..)), List.append_assoc]
        _ = past ++ a.admittedSince client [] (call :: rest) :=
            congrArg (past ++ ·) (ih (a.after call) _ hrest).symm

/-- What the algorithm of a sliding window keeps of a client suffices for its full log. -/
def Suffices (w : SlidingWindow) (a : Algorithm) (client : String) (now : Nat)
    (past : List Nat) : Prop :=
  ∃ table, a = ⟨.slidingWindow w, table⟩ ∧ w.Suffices now past (table.get? client)

theorem suffices_ofRule (w : SlidingWindow) (client : String) (now : Nat) :
    Suffices w (ofRule (.slidingWindow w)) client now [] :=
  ⟨Table.empty, rfl, .nil w now⟩

/-- A decision of a metered rule for a record with a limit. -/
theorem decide_metered (rule : Rule) (d : Nat → Nat → Option rule.Kept → Verdict × rule.Kept)
    (hd : ∀ record now kept, rule.decide record now kept = Rule.meter (d · now) record kept)
    {table : Table String rule.Kept} {record : Record} {rate : UInt32}
    (hpolicy : record.policy = .limited rate) (now : Nat) :
    (⟨rule, table⟩ : Algorithm).decide record now =
      (⟨(d rate.toNat now (table.get? record.client.id)).1, record⟩,
        ⟨rule, table.put record.client.id
          (some (d rate.toNat now (table.get? record.client.id)).2)⟩) := by
  simp only [Algorithm.decide, Algorithm.get?, hd, Rule.meter_limited hpolicy]

theorem decide_slidingWindow {table : Table String SlidingWindow.Log} {record : Record}
    {rate : UInt32} (hpolicy : record.policy = .limited rate) (now : Nat) :
    (⟨.slidingWindow w, table⟩ : Algorithm).decide record now =
      (⟨(w.decide rate.toNat now (table.get? record.client.id)).1, record⟩,
        ⟨.slidingWindow w, table.put record.client.id
          (some (w.decide rate.toNat now (table.get? record.client.id)).2)⟩) :=
  decide_metered (.slidingWindow w) w.decide (fun _ _ _ => rfl) hpolicy now

namespace Suffices

variable {a : Algorithm} {record : Record} {rate : UInt32} {later : Nat}

theorem isAllowed_decide (h : Suffices w a record.client.id now past)
    (hpolicy : record.policy = .limited rate) :
    (a.decide record now).1.isAllowed = true ↔ (w.within now past).length < rate.toNat := by
  obtain ⟨table, rfl, h⟩ := h
  rw [decide_slidingWindow hpolicy]
  exact h.isAllowed_decide rate.toNat

theorem le_of_mem (h : Suffices w a client now past) : ∀ t ∈ past, t ≤ now := by
  obtain ⟨table, rfl, h⟩ := h
  exact h.recent

theorem mono (h : Suffices w a client now past) (hle : now ≤ later) :
    Suffices w a client later past := by
  obtain ⟨table, rfl, h⟩ := h
  exact ⟨table, rfl, h.mono hle⟩

/-- A decision leaves what suffices for the full log with that decision in it. -/
theorem decide (h : Suffices w a client now past) (record : Record) :
    Suffices w (a.decide record now).2 client now (a.noted client past (.decide record now)) := by
  obtain ⟨table, rfl, h⟩ := h
  by_cases hclient : record.client.id = client
  · subst hclient
    cases hpolicy : record.policy with
    | unrestricted =>
        have hmeter : Rule.meter (w.decide · now) record (table.get? record.client.id) =
            (Admission.pass record, table.get? record.client.id) :=
          Rule.meter_unrestricted hpolicy
        refine ⟨table.put record.client.id (table.get? record.client.id), ?_, ?_⟩
        · simp only [Algorithm.decide, Algorithm.get?, Rule.decide, hmeter]
        · simp only [noted, hpolicy, Policy.isUnrestricted, Bool.true_eq_false, false_and,
            and_false, if_false, Table.get?_put, if_true]
          exact h
    | limited rate =>
        simp only [noted, decide_slidingWindow hpolicy]
        refine ⟨_, rfl, ?_⟩
        simp only [hpolicy, Policy.isUnrestricted, true_and, Table.get?_put, if_true]
        exact h.decide rate.toNat
  · have hcall : (Call.decide record now).client ≠ client := hclient
    rw [noted_of_ne _ hcall]
    refine ⟨_, rfl, ?_⟩
    rw [Table.get?_put, if_neg (Ne.symm hclient)]
    exact h

theorem evict (h : Suffices w a client now past) (x : String) :
    Suffices w (a.evict x) client now (a.noted client past (.evict x)) := by
  obtain ⟨table, rfl, h⟩ := h
  refine ⟨table.erase x, rfl, ?_⟩
  simp only [noted, Table.get?_erase]
  by_cases hx : x = client
  · rw [if_pos hx, if_pos hx.symm]
    exact .nil w now
  · rw [if_neg hx, if_neg (Ne.symm hx)]
    exact h

end Suffices

/-- **Every run keeps what suffices**, as long as the clock does not go back. -/
theorem suffices_run {a : Algorithm} {later : Nat} (h : Suffices w a client now past)
    (hforward : (now :: times calls).Pairwise (· ≤ ·)) (hlater : ∀ t ∈ now :: times calls, t ≤ later) :
    Suffices w (a.run calls) client later (a.admittedSince client past calls) := by
  induction calls generalizing a now past with
  | nil => exact h.mono (hlater now (List.mem_cons_self ..))
  | cons call rest ih =>
      cases call with
      | decide record time =>
          obtain ⟨hnow, hrest⟩ := List.pairwise_cons.1 hforward
          have htime : now ≤ time := hnow time (List.mem_cons_self ..)
          exact ih ((h.mono htime).decide record) hrest
            (fun t ht => hlater t (List.mem_cons_of_mem _ ht))
      | evict x => exact ih (h.evict x) hforward hlater

/-! ## Answers from the full log -/

/-- What suffices after a run of a clock that does not go back. -/
theorem suffices_of_forward (w : SlidingWindow) (client : String) (calls : List Call)
    (hforward : (times calls ++ [now]).Pairwise (· ≤ ·)) :
    Suffices w ((ofRule (.slidingWindow w)).run calls) client now
      ((ofRule (.slidingWindow w)).admittedSince client [] calls) := by
  obtain ⟨hcalls, -, hlast⟩ := List.pairwise_append.1 hforward
  refine suffices_run (suffices_ofRule w client 0)
    (List.pairwise_cons.2 ⟨fun t _ => Nat.zero_le t, hcalls⟩) fun t ht => ?_
  rcases List.mem_cons.1 ht with rfl | ht
  · exact Nat.zero_le now
  · exact hlast t ht now (List.mem_singleton_self now)

/-- What suffices at a request of such a run. -/
theorem suffices_of_eq_append {record : Record} {early late : List Call} (w : SlidingWindow)
    (client : String) (hforward : (times calls).Pairwise (· ≤ ·))
    (hcalls : calls = early ++ .decide record now :: late) :
    Suffices w ((ofRule (.slidingWindow w)).run early) client now
      ((ofRule (.slidingWindow w)).admittedSince client [] early) :=
  suffices_of_forward w client early (forward_until (hcalls ▸ hforward))

/-- The requests that a client makes under one limit, without being evicted in between. -/
def UnderLimit (client : String) (rate : UInt32) (stretch : List Call) : Prop :=
  ∀ call ∈ stretch, call.client = client →
    ∃ record now, call = .decide record now ∧ record.policy = .limited rate

theorem UnderLimit.ne_evict {rate : UInt32} {stretch : List Call}
    (h : UnderLimit client rate stretch) : ∀ call ∈ stretch, call ≠ .evict client := by
  rintro call hcall rfl
  obtain ⟨record, now, hdecide, -⟩ := h _ hcall rfl
  cases hdecide

/-- No window holds more admissions of such a stretch than the limit allows. -/
theorem length_within_le_of_underLimit {early stretch late : List Call} {rate : UInt32}
    (w : SlidingWindow) (hforward : (times calls).Pairwise (· ≤ ·))
    (hcalls : calls = early ++ stretch ++ late) (h : UnderLimit client rate stretch) (t : Nat) :
    (w.within t (((ofRule (.slidingWindow w)).run early).admittedSince client [] stretch)).length ≤
      rate.toNat := by
  -- from the end: the last admission was decided on the window that holds all others of the stretch
  induction stretch using List.reverseRecOn generalizing late with
  | nil => exact Nat.zero_le _
  | append_singleton stretch call ih =>
      have hstretch : UnderLimit client rate stretch :=
        fun c hc => h c (List.mem_append_left _ hc)
      have hrest : calls = early ++ stretch ++ (call :: late) := by
        rw [hcalls]
        simp
      have hfewer := ih hrest hstretch
      rw [admittedSince_append]
      show (w.within t (Algorithm.noted _ client _ call)).length ≤ _
      by_cases hclient : call.client = client
      · obtain ⟨record, now, rfl, hpolicy⟩ :=
          h call (List.mem_append_right _ (List.mem_singleton_self call)) hclient
        obtain rfl : record.client.id = client := hclient
        simp only [noted]
        split
        · rename_i hadmitted
          have hsuffices := suffices_of_eq_append w record.client.id hforward hrest
          rw [admittedSince_append, run_append] at hsuffices
          have hroom := (hsuffices.isAllowed_decide hpolicy).1 hadmitted.2.2
          have hrecent := hsuffices.le_of_mem
          rw [admittedSince_eq_append _ _ hstretch.ne_evict] at hroom hrecent
          exact SlidingWindow.length_within_snoc_le
            (fun x hx => hrecent x (List.mem_append_right _ hx))
            (Nat.lt_of_le_of_lt (SlidingWindow.length_within_le_append ..) hroom) hfewer
        · exact hfewer
      · rw [noted_of_ne _ hclient]
        exact hfewer

/-- **A sliding window answers as the full log would.**  In every run over any clients and limits, with
evictions, and with a clock that does not go back, a request under a limit is admitted if and only if the
client has had fewer admissions than that in the window that ends now, since it was evicted last.  So where a
client asks under one limit and is not evicted, no window, wherever it ends, holds more of its admissions. -/
theorem slidingWindow_eq_fullLog (w : SlidingWindow) (calls : List Call)
    (hforward : (times calls).Pairwise (· ≤ ·)) :
    (∀ early record now late rate, calls = early ++ .decide record now :: late →
        record.policy = .limited rate →
        ((((ofRule (.slidingWindow w)).run early).decide record now).1.isAllowed = true ↔
          (w.within now
            ((ofRule (.slidingWindow w)).admittedSince record.client.id [] early)).length <
              rate.toNat)) ∧
      ∀ early stretch late client rate, calls = early ++ stretch ++ late →
        UnderLimit client rate stretch → ∀ t,
          (w.within t
            (((ofRule (.slidingWindow w)).run early).admittedSince client [] stretch)).length ≤
              rate.toNat := by
  refine ⟨fun early record now late rate hcalls hpolicy => ?_, ?_⟩
  · exact (suffices_of_eq_append w record.client.id hforward hcalls).isAllowed_decide hpolicy
  · intro early stretch late client rate hcalls hlimit t
    exact length_within_le_of_underLimit w hforward hcalls hlimit t

/-- A client with a limit of two, later of one, at a window of ten: an entry leaves the window after ten
milliseconds, a lower limit finds more in the log than it allows, and an eviction empties the log. -/
def visits : List Call :=
  [.decide (.fresh ⟨"c1", .standard⟩ (.limited 2) 0) 0,
    .decide (.fresh ⟨"c1", .standard⟩ (.limited 2) 0) 4,
    .decide (.fresh ⟨"c1", .standard⟩ (.limited 2) 0) 9,
    .decide (.fresh ⟨"c1", .standard⟩ (.limited 2) 0) 10,
    .decide (.fresh ⟨"c1", .standard⟩ (.limited 1) 0) 14,
    .evict "c1",
    .decide (.fresh ⟨"c1", .standard⟩ (.limited 1) 0) 14]

/-- The third visit is denied and the fourth admitted, and the first four leave at most two admissions in the
window that ends at 12. -/
theorem fullLog_of_visits :
    (times visits).Pairwise (· ≤ ·) ∧
      (((ofRule (.slidingWindow (.ofMillis 10))).run (visits.take 2)).decide
        (.fresh ⟨"c1", .standard⟩ (.limited 2) 0) 9).1.isAllowed = false ∧
      (((ofRule (.slidingWindow (.ofMillis 10))).run (visits.take 3)).decide
        (.fresh ⟨"c1", .standard⟩ (.limited 2) 0) 10).1.isAllowed = true ∧
      ((SlidingWindow.ofMillis 10).within 12
        ((ofRule (.slidingWindow (.ofMillis 10))).admittedSince "c1" [] (visits.take 4))).length ≤ 2 := by
  have hforward : (times visits).Pairwise (· ≤ ·) := by decide
  obtain ⟨hanswers, hwindows⟩ := slidingWindow_eq_fullLog (.ofMillis 10) visits hforward
  refine ⟨hforward, ?_, ?_, ?_⟩
  · rw [← Bool.not_eq_true, hanswers (visits.take 2) _ 9 (visits.drop 3) 2 rfl rfl]
    decide
  · rw [hanswers (visits.take 3) _ 10 (visits.drop 4) 2 rfl rfl]
    decide
  · refine hwindows [] (visits.take 4) (visits.drop 4) "c1" 2 rfl ?_ 12
    intro call hcall _
    simp only [visits, List.take_succ_cons, List.take_zero, List.mem_cons, List.not_mem_nil,
      or_false] at hcall
    obtain rfl | rfl | rfl | rfl := hcall <;> exact ⟨_, _, rfl, rfl⟩

end Algorithm
end AdmissionControl
