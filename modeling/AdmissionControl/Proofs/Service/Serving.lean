import AdmissionControl.Proofs.Service.Coherence
import AdmissionControl.Proofs.Service.Progress

/-!
# Requests that are served one at a time

A request that comes while no other is under way holds the lock of its record at once, and meets nobody.  What it comes
to is then one decision, and what that decision leaves: the limiters, the breaker and the record of the request.

* `Request.decision?` — what was decided about a request, whatever its throttling has made of it.
* `bare` — what decisions depend on beside records.
* `push` — a request goes as far as it can; `Serves`, `push_of_arriving` — **what that comes to**, one lemma for each
  outcome of the decision.
* `Turn`, `Traffic.turns` — runs in which requests are served one at a time, and anything may happen in between.
-/

namespace AdmissionControl

/-! ## Locks that nobody uses -/

namespace RecordLocks

variable {l : RecordLocks}

/-- Nobody uses the locks. -/
structure Idle (l : RecordLocks) : Prop where
  /-- There is no lease. -/
  leases : l.leases = []
  /-- Nobody stands in line. -/
  line : l.line = []

theorem idle_empty : Idle empty := ⟨rfl, rfl⟩

theorem Idle.sound (h : Idle l) : Sound l := by
  refine ⟨?_, ?_, ?_, ?_⟩
  · rw [h.leases]
    exact List.nodup_nil
  · rw [h.leases]
    exact List.forall_mem_nil _
  · rw [h.leases]
    exact List.forall_mem_nil _
  · rw [h.line]
    exact List.forall_mem_nil _

/-- Who comes alone holds the lock at once. -/
theorem Idle.holds_join (h : Idle l) (key : RecordKey) :
    ((l.lease key).2.ask (l.lease key).1.ticket).holds (l.lease key).1.ticket = true := by
  have hfind := (find?_ask (l.lease key).2 (l.lease key).1.ticket _).trans (h.sound.find?_lease_self key)
  rw [holds_iff_of_find? hfind, holder?, h.sound.line_join, h.line, List.nil_append, List.find?_singleton, mutex?,
    hfind]
  simp

/-- When who came alone has gone, nobody uses the locks. -/
theorem Idle.drop_join (h : Idle l) (key : RecordKey) :
    Idle (((l.lease key).2.ask (l.lease key).1.ticket).drop (l.lease key).1.ticket) := by
  have hsound := (h.sound.lease key).ask (l.lease key).1.ticket
  refine ⟨?_, ?_⟩
  · rw [hsound.leases_drop, leases_ask, leases_lease, h.leases]
    simp
  · rw [hsound.line_drop, h.sound.line_join, h.line]
    simp

end RecordLocks

namespace Service

variable {s s' : Service} {r r' : Request}

/-! ## What was decided -/

/-- What an answer says about the decision behind it: who was turned away, or not kept to the end, was denied. -/
def decisionOf : Except Error Verdict → Except Error Verdict
  | .error (.rejected _ _ hint) => .ok (.denied hint)
  | .error (.interrupted _ _ hint) => .ok (.denied hint)
  | answer => answer

/-- What was decided about a request, once it is decided. -/
def Request.decision? (r : Request) : Option (Except Error Verdict) :=
  match r.stage with
  | .arriving | .queued .. | .loading .. => none
  | .saving _ _ admission _ => some (.ok admission.verdict)
  | .throttling verdict _ => some (.ok verdict)
  | .waiting _ hint => some (.ok (.denied hint))
  | .done answer => some (decisionOf answer)

/-- What becomes of a caller that was denied: whatever it is told, it is told the hint of the denial. -/
theorem enter_denied (room : WaitingRoom) (strategy : Strategy) (hint : Duration) :
    (room.enter (strategy.plan (.denied hint))).1 = .leaves none ∨
      (room.enter (strategy.plan (.denied hint))).1 = .leaves (some (.rejected hint)) ∨
        (room.enter (strategy.plan (.denied hint))).1 = .leaves (some (.interrupted hint)) ∨
          ∃ deadline, (room.enter (strategy.plan (.denied hint))).1 = .waits deadline hint := by
  have hwait : ∀ time, (room.enter (.wait time hint)).1 = .leaves none ∨
      (room.enter (.wait time hint)).1 = .leaves (some (.interrupted hint)) ∨
        ∃ deadline, (room.enter (.wait time hint)).1 = .waits deadline hint := by
    intro time
    unfold WaitingRoom.enter
    cases room.isInterrupted with
    | true => exact .inr (.inl rfl)
    | false =>
        cases room.sleeper with
        | tracking => exact .inl rfl
        | instant => exact .inl rfl
        | timer => exact .inr (.inr ⟨_, rfl⟩)
  cases strategy with
  | reject => exact .inr (.inl rfl)
  | delay => exact (hwait hint).imp_right .inr
  | backoff initial multiplier => exact (hwait _).imp_right .inr

/-- A caller that does not have to wait is told what was decided. -/
theorem decision?_of_enter {room : WaitingRoom} {verdict : Verdict} {strategy : Strategy}
    {fault : Option ThrottleFault} (r : Request)
    (hseat : (room.enter (strategy.plan verdict)).1 = .leaves fault) :
    (r.leave verdict fault).decision? = some (.ok verdict) := by
  cases verdict with
  | allowed =>
      obtain rfl := WaitingRoom.Seat.leaves.inj hseat
      rfl
  | denied hint =>
      rcases enter_denied room strategy hint with h | h | h | ⟨deadline, h⟩
      · obtain rfl := WaitingRoom.Seat.leaves.inj (h.symm.trans hseat)
        rfl
      · obtain rfl := WaitingRoom.Seat.leaves.inj (h.symm.trans hseat)
        rfl
      · obtain rfl := WaitingRoom.Seat.leaves.inj (h.symm.trans hseat)
        rfl
      · cases h.symm.trans hseat

/-- A caller that has to wait was denied with the hint that it keeps. -/
theorem eq_denied_of_waits {room : WaitingRoom} {verdict : Verdict} {strategy : Strategy} {deadline : Nat}
    {hint : Duration} (hseat : (room.enter (strategy.plan verdict)).1 = .waits deadline hint) :
    verdict = .denied hint := by
  cases verdict with
  | allowed => cases hseat
  | denied given =>
      rcases enter_denied room strategy given with h | h | h | ⟨deadline', h⟩
      · cases h.symm.trans hseat
      · cases h.symm.trans hseat
      · cases h.symm.trans hseat
      · rw [(WaitingRoom.Seat.waits.inj (h.symm.trans hseat)).2]

/-- A caller whose wait is over hears that it was denied. -/
theorem decision?_of_leave {room : WaitingRoom} {deadline : Nat} {hint : Duration} {fault : Option ThrottleFault}
    (r : Request) (hfault : room.leave? deadline hint = some fault) :
    (r.leave (.denied hint) fault).decision? = some (.ok (.denied hint)) := by
  unfold WaitingRoom.leave? at hfault
  split at hfault
  · obtain rfl := Option.some.inj hfault
    rfl
  · split at hfault
    · obtain rfl := Option.some.inj hfault
      rfl
    · cases hfault

/-! ## One request at a time -/

/-- Moves a request as far as it can go, but not past `n` stages. -/
def push : Nat → Service → Request → Request × Service
  | 0, s, r => (r, s)
  | n + 1, s, r =>
      match s.advance r with
      | none => (r, s)
      | some (r, s) => push n s r

theorem push_of_none (n : Nat) (h : s.advance r = none) : s.push n r = (r, s) := by
  cases n with
  | zero => rfl
  | succ n => rw [push, h]

/-- A settled request can still leave the waiting room, which changes nothing else. -/
theorem Advance.of_settled (h : Advance s r r' s') (hsettled : r.isSettled = true) :
    s' = s ∧ r'.isSettled = true ∧ r'.decision? = r.decision? := by
  have hunsettled : ∀ stage, r.stage = stage → (Request.atStage r stage).isSettled = true := by
    rintro stage rfl
    exact hsettled
  cases h with
  | joins hstage => exact absurd (hunsettled _ hstage) Bool.false_ne_true
  | enters hstage hholds => exact absurd (hunsettled _ hstage) Bool.false_ne_true
  | fails hstage hdecision => exact absurd (hunsettled _ hstage) Bool.false_ne_true
  | admits hstage hdecision hallowed => exact absurd (hunsettled _ hstage) Bool.false_ne_true
  | denies hstage hdecision hdenied => exact absurd (hunsettled _ hstage) Bool.false_ne_true
  | saves hstage => exact absurd (hunsettled _ hstage) Bool.false_ne_true
  | leaves hstage hseat => exact absurd (hunsettled _ hstage) Bool.false_ne_true
  | waits hstage hseat => exact absurd (hunsettled _ hstage) Bool.false_ne_true
  | @wakes deadline hint fault hstage hfault =>
      have hdecision : r.decision? = some (.ok (.denied hint)) := by
        unfold Request.decision?
        rw [hstage]
      refine ⟨rfl, ?_, (decision?_of_leave r hfault).trans hdecision.symm⟩
      cases fault with
      | none => rfl
      | some fault => rfl

theorem push_of_settled (n : Nat) (s : Service) (hsettled : r.isSettled = true) :
    (s.push n r).2 = s ∧ (s.push n r).1.key = r.key ∧ (s.push n r).1.isSettled = true ∧
      (s.push n r).1.decision? = r.decision? := by
  induction n generalizing r with
  | zero => exact ⟨rfl, rfl, hsettled, rfl⟩
  | succ n ih =>
      unfold push
      cases hadvance : s.advance r with
      | none => exact ⟨rfl, rfl, hsettled, rfl⟩
      | some moved =>
          obtain ⟨r', s'⟩ := moved
          have hmove := advance_of_eq_some hadvance
          obtain ⟨rfl, hsettled', hdecision⟩ := hmove.of_settled hsettled
          obtain ⟨hservice, hkey, hstill, hsame⟩ := ih hsettled'
          exact ⟨hservice, hkey.trans hmove.key_eq, hstill, hsame.trans hdecision⟩

/-- A service without its records, its strategies and what belongs to requests under way. -/
def bare (s : Service) : Service :=
  { s with
    strategies := .empty
    room := .start .instant
    locks := .empty
    stores := { s.stores with repository := .empty, metrics := .empty } }

/-- What the throttling of a decided request comes to. -/
structure Throttled (s : Service) (r : Request) (verdict : Verdict) (r' : Request) (s' : Service) : Prop where
  /-- Nothing changes but the waiting room. -/
  bare_eq : s'.bare = s.bare
  /-- The locks are as they were. -/
  locks_eq : s'.locks = s.locks
  /-- The stores are as they were. -/
  stores_eq : s'.stores = s.stores
  /-- The request is for the same record. -/
  key_eq : r'.key = r.key
  /-- It is settled. -/
  settled : r'.isSettled = true
  /-- It was decided with the verdict. -/
  decision?_eq : r'.decision? = some (.ok verdict)

theorem throttled_throttle (s : Service) (r : Request) (verdict : Verdict) (strategy : Strategy) :
    Throttled s r verdict (s.throttle r verdict strategy).1 (s.throttle r verdict strategy).2 := by
  unfold throttle
  rcases hseat : s.room.enter (strategy.plan verdict) with ⟨seat, room⟩
  cases seat with
  | leaves fault =>
      have hdecision := decision?_of_enter r (congrArg Prod.fst hseat)
      refine ⟨rfl, rfl, rfl, ?_, ?_, hdecision⟩
      · cases fault <;> rfl
      · cases fault <;> rfl
  | waits deadline hint =>
      obtain rfl := eq_denied_of_waits (congrArg Prod.fst hseat)
      exact ⟨rfl, rfl, rfl, rfl, rfl, rfl⟩

/-- A decided request is settled by its throttling. -/
theorem push_of_throttling (n : Nat) (s : Service) {verdict : Verdict} {strategy : Strategy}
    (hstage : r.stage = .throttling verdict strategy) :
    Throttled s r verdict (s.push (n + 1) r).1 (s.push (n + 1) r).2 := by
  have hadvance : s.advance r = some (s.throttle r verdict strategy) := by
    unfold advance
    rw [hstage]
  have hthrottled := throttled_throttle s r verdict strategy
  obtain ⟨hservice, hkey, hsettled, hdecision⟩ :=
    push_of_settled n (s.throttle r verdict strategy).2 hthrottled.settled
  unfold push
  rw [hadvance]
  dsimp only
  rw [hservice]
  exact ⟨hthrottled.bare_eq, hthrottled.locks_eq, hthrottled.stores_eq, hkey.trans hthrottled.key_eq, hsettled,
    hdecision.trans hthrottled.decision?_eq⟩

theorem push_of_finish (n : Nat) (s : Service) (r : Request) (client : Client) (ticket : Nat) (verdict : Verdict)
    (strategy : Strategy) :
    Throttled (s.finish r client ticket verdict strategy).2 r verdict
      ((s.finish r client ticket verdict strategy).2.push (n + 1) (s.finish r client ticket verdict strategy).1).1
      ((s.finish r client ticket verdict strategy).2.push (n + 1) (s.finish r client ticket verdict strategy).1).2 := by
  have hstage : (s.finish r client ticket verdict strategy).1.stage = .throttling verdict strategy := rfl
  have h := push_of_throttling n (s.finish r client ticket verdict strategy).2 hstage
  exact ⟨h.bare_eq, h.locks_eq, h.stores_eq, h.key_eq, h.settled, h.decision?_eq⟩

/-- The client as whom a request is identified. -/
def identified (s : Service) (r : Request) : Client := (s.stores.directory.identify r.client).1

theorem identified_id (s : Service) (r : Request) : (s.identified r).id = r.client := by
  unfold identified Directory.identify
  split <;> rfl

/-- The service when a request stands before its record. -/
def greet (s : Service) (r : Request) : Service :=
  { s with
    locks := (s.locks.lease r.key).2.ask (s.locks.lease r.key).1.ticket
    stores := { s.stores with directory := (s.stores.directory.identify r.client).2 } }

/-- The decision about a request that stands before its record. -/
def trial (s : Service) (r : Request) : Except Error (Admission × Strategy) × Service :=
  ((s.greet r).load r.key).decide r.endpoint (s.identified r) ((s.greet r).record r.key)

/-- The record that is kept of a request after the decision about it. -/
def keptRecord (s : Service) (r : Request) : Record :=
  match (s.trial r).1.map Prod.fst with
  | .ok admission => if admission.isAllowed then admission.record.countRequest else (s.greet r).record r.key
  | .error _ => (s.greet r).record r.key

/-- The mark of the lease with which a request stands before its record. -/
def ticketOf (s : Service) (r : Request) : Nat := (s.locks.lease r.key).1.ticket

/-- What it comes to when a request is served while no other is under way: the decision about it, and nothing but its
record beside what the decision left. -/
structure Serves (s : Service) (r : Request) (r' : Request) (s' : Service) : Prop where
  /-- The service is as the decision left it. -/
  bare_eq : s'.bare = (s.trial r).2.bare
  /-- Nobody uses the locks. -/
  idle : s'.locks.Idle
  /-- The record of the request is stored, and the others stay. -/
  stored?_eq : ∀ key, s'.stored? key = if key = r.key then some (s.keptRecord r) else s.stored? key
  /-- The request is for the same record. -/
  key_eq : r'.key = r.key
  /-- It is settled. -/
  settled : r'.isSettled = true
  /-- It was decided as it is told. -/
  decision?_eq : r'.decision? = some (decisionOf ((s.trial r).1.map (·.1.verdict)))

/-- Who comes alone stands before its record at once. -/
theorem push_of_idle (n : Nat) (hstage : r.stage = .arriving) (hidle : s.locks.Idle) :
    s.push (n + 2) r = (s.greet r).push n (r.atStage (.loading (s.identified r) (s.ticketOf r))) := by
  have hjoins : s.advance r = some (r.atStage (.queued (s.identified r) (s.ticketOf r)), s.greet r) := by
    unfold advance
    rw [hstage]
    rfl
  have henters : (s.greet r).advance (r.atStage (.queued (s.identified r) (s.ticketOf r))) =
      some (r.atStage (.loading (s.identified r) (s.ticketOf r)), s.greet r) :=
    if_pos (hidle.holds_join r.key)
  rw [push, hjoins]
  dsimp only
  rw [push, henters]

section Trials

variable {s₁ : Service} {outcome : Except Error (Admission × Strategy)} {admission : Admission} {strategy : Strategy}
  {error : Error}

/-- The decision leaves the lock with the request. -/
theorem idle_drop_of_trial (htrial : s.trial r = (outcome, s₁)) (hidle : s.locks.Idle) :
    (s₁.locks.drop (s.ticketOf r)).Idle := by
  rw [(decision_of_eq htrial).frame.1]
  exact hidle.drop_join r.key

/-- The decision leaves the record of the request as it was loaded. -/
theorem stored?_of_trial (htrial : s.trial r = (outcome, s₁)) (key : RecordKey) :
    s₁.stored? key = if key = r.key then some ((s.greet r).record r.key) else s.stored? key := by
  rw [stored?, (decision_of_eq htrial).frame.2.1]
  exact stored?_load (s.greet r) r.key key

theorem advance_of_failed (htrial : s.trial r = (.error error, s₁)) :
    (s.greet r).advance (r.atStage (.loading (s.identified r) (s.ticketOf r))) =
      some (r.atStage (.done (.error error)), { s₁ with locks := s₁.locks.drop (s.ticketOf r) }) := by
  unfold advance Request.atStage
  dsimp only
  split
  · rename_i heq
    cases heq.symm.trans htrial
    rfl
  · rename_i heq
    cases heq.symm.trans htrial

theorem advance_of_admitted (htrial : s.trial r = (.ok (admission, strategy), s₁))
    (hallowed : admission.isAllowed = true) :
    (s.greet r).advance (r.atStage (.loading (s.identified r) (s.ticketOf r))) =
      some (r.atStage (.saving (s.identified r) (s.ticketOf r) admission strategy), s₁) := by
  unfold advance Request.atStage
  dsimp only
  split
  · rename_i heq
    cases heq.symm.trans htrial
  · rename_i heq
    cases heq.symm.trans htrial
    exact if_pos hallowed

theorem advance_of_denied (htrial : s.trial r = (.ok (admission, strategy), s₁))
    (hdenied : admission.isAllowed = false) :
    (s.greet r).advance (r.atStage (.loading (s.identified r) (s.ticketOf r))) =
      some (s₁.finish r (s.identified r) (s.ticketOf r) admission.verdict strategy) := by
  unfold advance Request.atStage
  dsimp only
  split
  · rename_i heq
    cases heq.symm.trans htrial
  · rename_i heq
    cases heq.symm.trans htrial
    rw [hdenied]
    rfl

/-- Nothing can be decided about the request. -/
theorem serves_of_failed (htrial : s.trial r = (.error error, s₁)) (hidle : s.locks.Idle) (n : Nat) :
    Serves s r ((s.greet r).push (n + 1) (r.atStage (.loading (s.identified r) (s.ticketOf r)))).1
      ((s.greet r).push (n + 1) (r.atStage (.loading (s.identified r) (s.ticketOf r)))).2 := by
  have hkept : s.keptRecord r = (s.greet r).record r.key := by
    unfold keptRecord
    rw [htrial]
    rfl
  rw [push, advance_of_failed htrial]
  dsimp only
  rw [push_of_none n rfl]
  refine ⟨?_, idle_drop_of_trial htrial hidle, ?_, rfl, rfl, ?_⟩
  · rw [htrial]
    rfl
  · intro key
    rw [hkept]
    exact stored?_of_trial htrial key
  · rw [htrial]
    rfl

/-- The request is admitted, and its record is saved. -/
theorem serves_of_admitted (htrial : s.trial r = (.ok (admission, strategy), s₁))
    (hallowed : admission.isAllowed = true) (hidle : s.locks.Idle) (n : Nat) :
    Serves s r ((s.greet r).push (n + 3) (r.atStage (.loading (s.identified r) (s.ticketOf r)))).1
      ((s.greet r).push (n + 3) (r.atStage (.loading (s.identified r) (s.ticketOf r)))).2 := by
  have hsaves : s₁.advance (r.atStage (.saving (s.identified r) (s.ticketOf r) admission strategy)) =
      some ((s₁.save r.key admission.record.countRequest).finish r (s.identified r) (s.ticketOf r)
        admission.verdict strategy) := rfl
  have hkept : s.keptRecord r = admission.record.countRequest := by
    unfold keptRecord
    rw [htrial]
    exact if_pos hallowed
  rw [push, advance_of_admitted htrial hallowed]
  dsimp only
  rw [push, hsaves]
  dsimp only
  have hthrottled := (s₁.save r.key admission.record.countRequest).push_of_finish n r (s.identified r) (s.ticketOf r)
    admission.verdict strategy
  refine ⟨hthrottled.bare_eq.trans ?_, ?_, ?_, hthrottled.key_eq, hthrottled.settled,
    hthrottled.decision?_eq.trans ?_⟩
  · rw [htrial]
    rfl
  · rw [hthrottled.locks_eq]
    show (s₁.locks.drop (s.ticketOf r)).Idle
    exact idle_drop_of_trial htrial hidle
  · intro key
    refine (congrArg (·.repository.records.get? key) hthrottled.stores_eq).trans ?_
    refine (stored?_save s₁ r.key key admission.record.countRequest).trans ?_
    rw [hkept, stored?_of_trial htrial key]
    by_cases hkey : key = r.key
    · rw [if_pos hkey, if_pos hkey]
    · rw [if_neg hkey, if_neg hkey, if_neg hkey]
  · rw [htrial]
    rfl

/-- The request is denied, and its record stays. -/
theorem serves_of_denied (htrial : s.trial r = (.ok (admission, strategy), s₁))
    (hdenied : admission.isAllowed = false) (hidle : s.locks.Idle) (n : Nat) :
    Serves s r ((s.greet r).push (n + 2) (r.atStage (.loading (s.identified r) (s.ticketOf r)))).1
      ((s.greet r).push (n + 2) (r.atStage (.loading (s.identified r) (s.ticketOf r)))).2 := by
  have hkept : s.keptRecord r = (s.greet r).record r.key := by
    unfold keptRecord
    rw [htrial]
    exact if_neg (by rw [hdenied]; exact Bool.false_ne_true)
  rw [push, advance_of_denied htrial hdenied]
  dsimp only
  have hthrottled := s₁.push_of_finish n r (s.identified r) (s.ticketOf r) admission.verdict strategy
  refine ⟨hthrottled.bare_eq.trans ?_, ?_, ?_, hthrottled.key_eq, hthrottled.settled,
    hthrottled.decision?_eq.trans ?_⟩
  · rw [htrial]
    rfl
  · rw [hthrottled.locks_eq]
    show (s₁.locks.drop (s.ticketOf r)).Idle
    exact idle_drop_of_trial htrial hidle
  · intro key
    rw [hkept]
    exact (congrArg (·.repository.records.get? key) hthrottled.stores_eq).trans (stored?_of_trial htrial key)
  · rw [htrial]
    rfl

end Trials

/-- **A request that is served while no other is under way** has five stages at most before it is settled. -/
theorem push_of_arriving (hstage : r.stage = .arriving) (hidle : s.locks.Idle) :
    Serves s r (s.push 5 r).1 (s.push 5 r).2 := by
  rw [push_of_idle 3 hstage hidle]
  rcases htrial : s.trial r with ⟨outcome, s₁⟩
  cases outcome with
  | error error => exact serves_of_failed htrial hidle 2
  | ok decided =>
      obtain ⟨admission, strategy⟩ := decided
      cases hallowed : admission.isAllowed with
      | true => exact serves_of_admitted htrial hallowed hidle 0
      | false => exact serves_of_denied htrial hallowed hidle 1

namespace Traffic

variable {t : Traffic} {i : Nat}

/-! ## Turns -/

/-- A turn of a run in which requests are served one at a time. -/
inductive Turn
  /-- The request with an index goes as far as it can.  If it has been served before, it may leave the waiting room. -/
  | serve (index : Nat)
  /-- Something else happens. -/
  | happen (event : Event)

/-- The moves of a turn. -/
def Turn.moves : Turn → List Move
  | serve index => List.replicate 5 (.advance index)
  | happen event => [.happen event]

/-- Whether the settings change in a turn. -/
def Turn.isUpdate : Turn → Bool
  | happen (.update _) => true
  | happen _ | serve _ => false

/-- The traffic after turns one after another. -/
def turns (t : Traffic) (ts : List Turn) : Traffic := t.moves (ts.flatMap Turn.moves)

theorem turns_cons (t : Traffic) (turn : Turn) (ts : List Turn) :
    t.turns (turn :: ts) = (t.moves turn.moves).turns ts := by
  unfold turns
  rw [List.flatMap_cons, moves_append]

/-- Moves of one request bring it as far as it can go. -/
theorem moves_replicate (hr : t.requests[i]? = some r) (n : Nat) :
    t.moves (List.replicate n (.advance i)) =
      ⟨(t.service.push n r).2, t.requests.set i (t.service.push n r).1⟩ := by
  have hlt : i < t.requests.length := (List.getElem?_eq_some_iff.1 hr).1
  have hsame : t.requests.set i r = t.requests := by
    rw [← (List.getElem?_eq_some_iff.1 hr).2, List.set_getElem_self]
  induction n generalizing t r with
  | zero =>
      rw [push, hsame]
      rfl
  | succ n ih =>
      rw [List.replicate_succ, moves_cons]
      cases hadvance : t.service.advance r with
      | none =>
          have hmove : t.move (.advance i) = t := by
            rw [move, step, hr]
            dsimp only
            rw [hadvance]
          rw [hmove, ih hr hlt hsame, push_of_none n hadvance, push_of_none (n + 1) hadvance]
      | some moved =>
          obtain ⟨r', s'⟩ := moved
          have hmove : t.move (.advance i) = ⟨s', t.requests.set i r'⟩ := by
            rw [move, step, hr]
            dsimp only
            rw [hadvance]
          have hr' : (t.requests.set i r')[i]? = some r' := List.getElem?_set_self hlt
          have hlt' : i < (t.requests.set i r').length := (List.getElem?_eq_some_iff.1 hr').1
          rw [hmove, ih hr' hlt' (List.set_set ..), push, hadvance]
          dsimp only
          rw [List.set_set]

theorem moves_replicate_of_none (hr : t.requests[i]? = none) (n : Nat) :
    t.moves (List.replicate n (.advance i)) = t := by
  induction n with
  | zero => rfl
  | succ n ih =>
      have hmove : t.move (.advance i) = t := by
        rw [move, step, hr]
      rw [List.replicate_succ, moves_cons, hmove, ih]

theorem isUpdate_of_mem_moves {turn : Turn} (h : turn.isUpdate = false) : ∀ m ∈ turn.moves, m.isUpdate = false := by
  intro m hm
  cases turn with
  | serve index =>
      rw [List.eq_of_mem_replicate hm]
      rfl
  | happen event =>
      rw [List.mem_singleton.1 hm]
      cases event with
      | update other => exact h
      | _ => rfl

end Traffic
end Service
end AdmissionControl
