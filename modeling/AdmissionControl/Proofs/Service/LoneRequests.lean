import AdmissionControl.Proofs.Service.Progress

/-!
# A request that is alone gets its answer

A check is served in rounds, and the number of rounds is bounded.  The bound is never reached: while no other request
is under way, each round brings the request closer to its answer, and if it waits on the timer, the timer moves to the
end of its wait or to the interrupt.  This holds for every way of keeping callers waiting, whether or not the
repository lets others go first, and with every interrupt.

* `Carried` — what stays true of a service and of the one request in it.
* `patience` — how many rounds a request still takes, at most; each round takes one off (`Carried.rounds`).
* `Carried.check` — **a check has an answer**, and what was carried along is true of it.
-/

namespace AdmissionControl
namespace Service

variable {P : Service → Request → Prop} {s s' : Service} {r r' : Request} {interruptAt : Option Nat}

/-- Something that stays true of a service and of the one request that is under way in it. -/
structure Carried (P : Service → Request → Prop) : Prop where
  /-- It stays true when the request moves. -/
  advance : ∀ {s r r' s'}, P s r → Advance s r r' s' → P s' r'
  /-- It does not depend on the waiting room. -/
  room : ∀ {s r} room, P s r → P { s with room := room } r
  /-- It stays true when idle clients are forgotten. -/
  sweep : ∀ {s r}, P s r → P s.sweep r
  /-- A request that stands in line has its turn. -/
  holds : ∀ {s r client ticket}, P s r → r.stage = .queued client ticket → s.locks.holds ticket = true

/-! ## One round -/

theorem rest_poll_le (n : Nat) (s : Service) (r : Request) : (s.poll n r).1.rest ≤ r.rest := by
  induction n generalizing s r with
  | zero => exact Nat.le_refl _
  | succ n ih =>
      unfold poll
      cases hadvance : s.advance r with
      | none => exact Nat.le_refl _
      | some moved =>
          obtain ⟨r', s'⟩ := moved
          have hlt := (advance_of_eq_some hadvance).rest_lt
          dsimp only
          split
          · exact Nat.le_of_lt hlt
          · exact Nat.le_trans (ih s' r') (Nat.le_of_lt hlt)

/-- A request that can move at all comes closer to its answer. -/
theorem rest_poll_lt (n : Nat) (h : s.advance r ≠ none) : (s.poll (n + 1) r).1.rest < r.rest := by
  obtain ⟨⟨r', s'⟩, hadvance⟩ := Option.ne_none_iff_exists'.1 h
  have hlt := (advance_of_eq_some hadvance).rest_lt
  simp only [poll, hadvance]
  split
  · exact hlt
  · exact Nat.lt_of_le_of_lt (rest_poll_le n s' r') hlt

theorem poll_of_none (n : Nat) (h : s.advance r = none) : s.poll n r = (r, s) := by
  cases n with
  | zero => rfl
  | succ n => simp [poll, h]

theorem Carried.poll (hP : Carried P) (n : Nat) (h : P s r) : P (s.poll n r).2 (s.poll n r).1 := by
  induction n generalizing s r with
  | zero => exact h
  | succ n ih =>
      unfold Service.poll
      cases hadvance : s.advance r with
      | none => exact h
      | some moved =>
          obtain ⟨r', s'⟩ := moved
          have hmoved : P s' r' := hP.advance h (advance_of_eq_some hadvance)
          dsimp only
          split
          · exact hmoved
          · exact ih hmoved

/-! ## Between rounds -/

theorem Carried.catchUp (hP : Carried P) (h : P s r) (limit : Nat) : P (s.catchUp limit) r := by
  unfold Service.catchUp
  dsimp only
  split
  · apply hP.sweep
    exact hP.room _ h
  · exact hP.room _ h

theorem Carried.waitUntil (hP : Carried P) (h : P s r) (target : Nat) : P (s.waitUntil target) r := by
  unfold Service.waitUntil
  dsimp only
  split
  · apply hP.sweep
    exact hP.room _ h
  · exact hP.room _ h

theorem Carried.idle (hP : Carried P) (h : P s r) (interruptAt : Option Nat) : P (s.idle [r] interruptAt) r := by
  have hcaught := hP.catchUp h (s.time + 1)
  unfold Service.idle
  dsimp only
  split
  · exact hcaught
  · split
    · exact hP.waitUntil hcaught _
    · exact hcaught

theorem room_catchUp (s : Service) (limit : Nat) :
    (s.catchUp limit).room = { s.room with timer := (s.room.timer.catchUp limit).2 } := by
  unfold catchUp
  dsimp only
  split <;> rfl

theorem room_waitUntil (s : Service) (target : Nat) :
    (s.waitUntil target).room = { s.room with timer := (s.room.timer.waitUntil target).2 } := by
  unfold waitUntil
  dsimp only
  split <;> rfl

/-- What an unanswered request that cannot move is doing: it waits on the timer. -/
theorem Carried.exists_waiting (hP : Carried P) (h : P s r) (hstuck : s.advance r = none) (hanswer : r.answer? = none) :
    ∃ deadline hint, r.stage = .waiting deadline hint ∧ s.room.leave? deadline hint = none := by
  rcases advance_eq_none_iff.1 hstuck with ⟨client, ticket, hstage, hheld⟩ | hwaits | ⟨answer, hstage⟩
  · rw [hP.holds h hstage] at hheld
    cases hheld
  · exact hwaits
  · simp [Request.answer?, hstage] at hanswer

/-! ## How long it takes -/

/-- The number of rounds that a lone request takes at most until it has its answer. -/
def patience (s : Service) (r : Request) (interruptAt : Option Nat) : Nat :=
  match r.stage with
  | .waiting deadline hint =>
      if (s.room.leave? deadline hint).isSome then 1
      else if interruptAt.any (· ≤ s.time) then 2
      else 3
  | _ => r.rest + 2

theorem patience_pos (s : Service) (r : Request) (interruptAt : Option Nat) : 0 < s.patience r interruptAt := by
  unfold patience
  split
  · split
    · decide
    · split <;> decide
  · exact Nat.succ_pos _

theorem patience_le (s : Service) (r : Request) (interruptAt : Option Nat) :
    s.patience r interruptAt ≤ r.rest + 2 := by
  unfold patience
  split
  · rename_i hstage
    simp only [Request.rest, hstage]
    split
    · decide
    · split <;> decide
  · exact Nat.le_refl _

/-- A request that is to move twice or more does not wait on the timer yet. -/
theorem patience_eq (s : Service) (interruptAt : Option Nat) (h : 1 < r.rest) :
    s.patience r interruptAt = r.rest + 2 := by
  unfold patience
  split
  · rename_i hstage
    simp [Request.rest, hstage] at h
  · rfl

theorem rest_pos (h : r.answer? = none) : 0 < r.rest := by
  cases hstage : r.stage <;> simp [Request.rest, Request.answer?, hstage] at h ⊢

section Waiting

variable {deadline : Nat} {hint : Duration}

theorem isInterrupted_eq_false {room : WaitingRoom} (h : room.leave? deadline hint = none) :
    room.isInterrupted = false := by
  unfold WaitingRoom.leave? at h
  split at h
  · cases h
  · simpa using ‹¬room.isInterrupted = true›

/-- Once the interrupt is raised, a caller that waits leaves in the next round. -/
theorem patience_interrupt (s : Service) (hstage : r.stage = .waiting deadline hint) :
    s.interrupt.patience r none = 1 := by
  simp [patience, hstage, interrupt, WaitingRoom.interrupt, WaitingRoom.leave?]

/-- When nothing but a wait is left, the timer moves to its end or to the interrupt, whichever comes first. -/
theorem idle_of_waiting (hstage : r.stage = .waiting deadline hint) (hstuck : s.room.leave? deadline hint = none)
    (interruptAt : Option Nat) :
    s.idle [r] interruptAt = (s.catchUp (s.time + 1)).waitUntil ((interruptAt.map (min deadline)).getD deadline) := by
  have hquiet : (s.catchUp (s.time + 1)).room.isInterrupted = false := by
    rw [room_catchUp]
    exact isInterrupted_eq_false hstuck
  have hanswer : r.answer? = none := by simp [Request.answer?, hstage]
  have hdeadline : r.deadline? = some deadline := by simp [Request.deadline?, hstage]
  unfold idle
  cases interruptAt with
  | none => simp [hquiet, hanswer, hdeadline]
  | some time => simp [hquiet, hanswer, hdeadline]

/-- After the timer has moved, the wait is over or the interrupt has come. -/
theorem patience_idle_lt (hstage : r.stage = .waiting deadline hint) (hstuck : s.room.leave? deadline hint = none)
    (hearly : interruptAt.any (· ≤ s.time) = false) :
    (s.idle [r] interruptAt).patience r interruptAt < s.patience r interruptAt := by
  have hbefore : s.patience r interruptAt = 3 := by simp [patience, hstage, hstuck, hearly]
  have hquiet := isInterrupted_eq_false hstuck
  have htime : (s.idle [r] interruptAt).room.timer.now =
      max s.room.timer.now ((interruptAt.map (min deadline)).getD deadline) := by
    rw [idle_of_waiting hstage hstuck, room_waitUntil, room_catchUp]
    rfl
  have hroom : (s.idle [r] interruptAt).room.isInterrupted = false := by
    rw [idle_of_waiting hstage hstuck, room_waitUntil, room_catchUp]
    exact hquiet
  rw [hbefore]
  by_cases hover : deadline ≤ (s.idle [r] interruptAt).room.timer.now
  · simp [patience, hstage, WaitingRoom.leave?, hroom, hover]
  · have hinterrupt : interruptAt.any (· ≤ (s.idle [r] interruptAt).time) = true := by
      cases interruptAt with
      | none =>
          rw [htime] at hover
          exact absurd (Nat.le_max_right ..) hover
      | some time =>
          have hle : time ≤ (s.idle [r] (some time)).room.timer.now := by
            rw [htime] at hover ⊢
            simp only [Option.map_some, Option.getD_some] at hover ⊢
            omega
          exact decide_eq_true hle
    simp only [patience, hstage, hinterrupt, if_true]
    split <;> decide

end Waiting

/-! ## The answer -/

/-- A round that leaves the request without its answer takes something off its patience, whatever comes after it. -/
theorem Carried.patience_lt (hP : Carried P) (h : P s r) (hanswer : (s.poll pollBound r).1.answer? = none)
    (interruptAt : Option Nat) :
    (interruptAt.any (· ≤ (s.poll pollBound r).2.time) = true →
        (s.poll pollBound r).2.interrupt.patience (s.poll pollBound r).1 none < s.patience r interruptAt) ∧
      (interruptAt.any (· ≤ (s.poll pollBound r).2.time) = false →
        ((s.poll pollBound r).2.idle [(s.poll pollBound r).1] interruptAt).patience (s.poll pollBound r).1 interruptAt <
          s.patience r interruptAt) := by
  by_cases hstuck : s.advance r = none
  · rw [poll_of_none _ hstuck] at hanswer ⊢
    obtain ⟨deadline, hint, hstage, hwaits⟩ := hP.exists_waiting h hstuck hanswer
    refine ⟨fun hdue => ?_, patience_idle_lt hstage hwaits⟩
    rw [patience_interrupt s hstage]
    simp [patience, hstage, hwaits, hdue]
  · have hlt : (s.poll pollBound r).1.rest < r.rest := rest_poll_lt _ hstuck
    have hpos := rest_pos hanswer
    rw [patience_eq s interruptAt (by omega)]
    refine ⟨fun _ => ?_, fun _ => ?_⟩
    · exact Nat.lt_of_le_of_lt (patience_le ..) (by omega)
    · exact Nat.lt_of_le_of_lt (patience_le ..) (by omega)

/-- A lone request has its answer after as many rounds as its patience allows. -/
theorem Carried.rounds (hP : Carried P) {n : Nat} (h : P s r) (hn : s.patience r interruptAt ≤ n) :
    ∃ r' s' answer, rounds n s [r] interruptAt = ([r'], s') ∧ P s' r' ∧ r'.answer? = some answer := by
  induction n generalizing s r interruptAt with
  | zero => exact absurd (patience_pos s r interruptAt) (by omega)
  | succ n ih =>
      have hpolled : P (s.poll pollBound r).2 (s.poll pollBound r).1 := hP.poll pollBound h
      have hround : s.round [r] = ([(s.poll pollBound r).1], (s.poll pollBound r).2) := rfl
      unfold Service.rounds
      rw [hround]
      cases hanswer : (s.poll pollBound r).1.answer? with
      | some answer =>
          refine ⟨_, _, answer, ?_, hpolled, hanswer⟩
          simp [hanswer]
      | none =>
          obtain ⟨hinterrupt, hidle⟩ := hP.patience_lt h hanswer interruptAt
          simp only [List.all_cons, List.all_nil, hanswer, Option.isSome_none, Bool.and_true, Bool.false_eq_true,
            if_false]
          cases hearly : interruptAt.any (· ≤ (s.poll pollBound r).2.time) with
          | true =>
              have hlt := hinterrupt hearly
              apply ih
              · exact hP.room _ hpolled
              · omega
          | false =>
              have hlt := hidle hearly
              apply ih
              · exact hP.idle hpolled interruptAt
              · omega

/-- **A check has an answer**, and what was carried along is true of it. -/
theorem Carried.check (hP : Carried P) {endpoint client : String} (h : P s (.fresh endpoint client))
    (interruptAfter : Option Duration) :
    ∃ r', P (s.check endpoint client interruptAfter).2 r' ∧
      r'.answer? = some (s.check endpoint client interruptAfter).1 := by
  have hn : s.patience (.fresh endpoint client) (interruptAfter.map s.room.timer.deadline) ≤ roundBound 1 :=
    Nat.le_trans (patience_le ..) (Nat.le_of_ble_eq_true rfl)
  obtain ⟨r', s', answer, hrounds, hcarried, hanswer⟩ := hP.rounds h hn
  have hcheck : s.check endpoint client interruptAfter = (answer, s') := by
    simp [Service.check, burst, hrounds, hanswer]
  rw [hcheck]
  exact ⟨r', hcarried, hanswer⟩

end Service
end AdmissionControl
