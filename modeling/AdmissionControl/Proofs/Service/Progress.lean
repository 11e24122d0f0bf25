import AdmissionControl.Proofs.Service.Exclusion
import AdmissionControl.Proofs.Service.Turns

/-!
# Requests get on

A request can be kept waiting in two places: in the line for its record, and in the waiting room.  In the line it
never waits for nothing, since the request that holds the record can go on.

* `advance_eq_none_iff` — what keeps a request from moving.
* `Staffed` — the invariant: those who stand in line for a record are the requests that have asked for it.
* `Traffic.exists_advance` — **there is always a move**: while a request is neither answered nor in the waiting room,
  it or the one that it waits for can move.
* `Traffic.exists_settled` — so some moves of requests, and nothing else, bring it to its answer or to the waiting
  room.
-/

namespace AdmissionControl

/-- Who has just leased a record goes to the end of the line. -/
theorem RecordLocks.Sound.line_join {l : RecordLocks} (h : l.Sound) (key : RecordKey) :
    ((l.lease key).2.ask (l.lease key).1.ticket).line = l.line ++ [(l.lease key).1.ticket] := by
  have hnew : (l.lease key).1.ticket ∉ l.line := by
    intro hstands
    obtain ⟨lease, hmem, hticket⟩ := h.line_leased _ hstands
    have hlt := h.ticket_lt lease hmem
    rw [hticket, ticket_lease] at hlt
    exact Nat.lt_irrefl _ hlt
  rw [RecordLocks.ask, if_neg, line_lease]
  rw [h.find?_lease_self, line_lease]
  rintro (hnone | hstands)
  · cases hnone
  · exact hnew hstands

namespace Service

variable {s s' : Service} {r r' : Request}

/-! ## What keeps a request from moving -/

/-- A request waits in line, waits in the waiting room or has its answer, or else it can move. -/
theorem advance_eq_none_iff : s.advance r = none ↔
    (∃ client ticket, r.stage = .queued client ticket ∧ s.locks.holds ticket = false) ∨
      (∃ deadline hint, r.stage = .waiting deadline hint ∧ s.room.leave? deadline hint = none) ∨
        ∃ answer, r.stage = .done answer := by
  rw [advance]
  cases hstage : r.stage with
  | arriving => simp
  | queued client ticket => cases hholds : s.locks.holds ticket <;> simp [hholds]
  | loading client ticket =>
      dsimp only
      split
      · simp
      · split <;> simp
  | saving client ticket admission strategy => simp
  | throttling verdict strategy => simp
  | waiting deadline hint => cases hleave : s.room.leave? deadline hint <;> simp [hleave]
  | done answer => simp

namespace Request

/-- Whether a request has its answer or waits in the waiting room. -/
def isSettled (r : Request) : Bool := r.answer?.isSome || r.deadline?.isSome

/-- The number of moves after which a request surely has its answer. -/
def rest (r : Request) : Nat :=
  match r.stage with
  | .arriving => 6
  | .queued .. => 5
  | .loading .. => 4
  | .saving .. => 3
  | .throttling .. => 2
  | .waiting .. => 1
  | .done _ => 0

theorem rest_leave (r : Request) (verdict : Verdict) (fault : Option ThrottleFault) :
    (r.leave verdict fault).rest = 0 := by
  cases fault <;> rfl

end Request

/-- A move brings a request closer to its answer. -/
theorem Advance.rest_lt (h : Advance s r r' s') : r'.rest < r.rest := by
  cases h with
  | joins hstage => simp [Request.rest, Request.atStage, hstage]
  | enters hstage hholds => simp [Request.rest, Request.atStage, hstage]
  | fails hstage hdecision => simp [Request.rest, Request.atStage, hstage]
  | admits hstage hdecision hallowed => simp [Request.rest, Request.atStage, hstage]
  | denies hstage hdecision hdenied => simp [Request.rest, Request.atStage, finish, hstage]
  | saves hstage => simp [Request.rest, Request.atStage, finish, hstage]
  | waits hstage hseat => simp [Request.rest, Request.atStage, hstage]
  | leaves hstage hseat =>
      rw [Request.rest_leave]
      simp [Request.rest, hstage]
  | wakes hstage hfault =>
      rw [Request.rest_leave]
      simp [Request.rest, hstage]

namespace Traffic

variable {t t' : Traffic} {i : Nat}

/-! ## Who stands in line -/

/-- Those who stand in line are the requests that have asked. -/
structure Staffed (t : Traffic) : Prop where
  /-- A request with a ticket stands in line. -/
  in_line : ∀ (j : Nat) (r : Request) (ticket : Nat), t.requests[j]? = some r → r.ticket? = some ticket →
    ticket ∈ t.service.locks.line
  /-- Who stands in line is a request. -/
  owned : ∀ ticket ∈ t.service.locks.line, ∃ (j : Nat) (r : Request), t.requests[j]? = some r ∧
    r.ticket? = some ticket

theorem staffed_start (hlocks : s.locks = RecordLocks.empty) (requests : List (String × String)) :
    Staffed (start s requests) := by
  refine ⟨?_, ?_⟩
  · intro j r ticket hr hticket
    obtain ⟨request, -, rfl⟩ := List.mem_map.1 (List.mem_of_getElem? hr)
    exact absurd hticket (by simp [Request.ticket?, Request.fresh])
  · intro ticket hline
    rw [start, hlocks] at hline
    exact absurd hline (List.not_mem_nil)

/-- A request moves, and with it only its own ticket may leave the line or join it. -/
theorem Staffed.set (h : Staffed t) (horderly : Orderly t) (hr : t.requests[i]? = some r)
    (hline : ∀ ticket, ticket ∈ s'.locks.line ↔
      r'.ticket? = some ticket ∨ ticket ∈ t.service.locks.line ∧ r.ticket? ≠ some ticket) :
    Staffed ⟨s', t.requests.set i r'⟩ := by
  have hlt : i < t.requests.length := (List.getElem?_eq_some_iff.1 hr).1
  refine ⟨?_, ?_⟩
  · intro j x ticket hx hticket
    rcases getElem?_set_cases hx with ⟨-, rfl⟩ | ⟨hj, hold⟩
    · exact (hline ticket).2 (.inl hticket)
    · refine (hline ticket).2 (.inr ⟨h.in_line j x ticket hold hticket, fun hsame => hj ?_⟩)
      exact horderly.distinct j i x r ticket hold hr hticket hsame
  · intro ticket hstands
    rcases (hline ticket).1 hstands with hself | ⟨hold, hother⟩
    · exact ⟨i, r', List.getElem?_set_self hlt, hself⟩
    · obtain ⟨j, x, hx, hticket⟩ := h.owned ticket hold
      have hij : i ≠ j := by
        rintro rfl
        obtain rfl := Option.some.inj (hr.symm.trans hx)
        exact hother hticket
      refine ⟨j, x, ?_, hticket⟩
      rw [List.getElem?_set_ne hij]
      exact hx

/-- A request moves on with its ticket, or without one as before. -/
theorem Staffed.set_of_same (h : Staffed t) (horderly : Orderly t) (hr : t.requests[i]? = some r)
    (hlocks : s'.locks = t.service.locks) (hticket : r'.ticket? = r.ticket?) :
    Staffed ⟨s', t.requests.set i r'⟩ := by
  refine h.set horderly hr fun ticket => ?_
  rw [hlocks, hticket]
  constructor
  · intro hstands
    by_cases hself : r.ticket? = some ticket
    · exact .inl hself
    · exact .inr ⟨hstands, hself⟩
  · rintro (hself | ⟨hstands, -⟩)
    · exact h.in_line i r ticket hr hself
    · exact hstands

/-- A request gives its ticket back. -/
theorem Staffed.set_of_drop (h : Staffed t) (horderly : Orderly t) (hr : t.requests[i]? = some r) {ticket : Nat}
    (hticket : r.ticket? = some ticket) (hlocks : s'.locks = t.service.locks.drop ticket)
    (hnone : r'.ticket? = none) : Staffed ⟨s', t.requests.set i r'⟩ := by
  refine h.set horderly hr fun other => ?_
  rw [hlocks, horderly.sound.line_drop, List.mem_filter, bne_iff_ne, hnone, hticket]
  constructor
  · rintro ⟨hstands, hne⟩
    exact .inr ⟨hstands, fun hsame => hne (Option.some.inj hsame).symm⟩
  · rintro (hself | ⟨hstands, hne⟩)
    · cases hself
    · exact ⟨hstands, fun hsame => hne (congrArg some hsame.symm)⟩

theorem Staffed.advance (h : Staffed t) (horderly : Orderly t) (hr : t.requests[i]? = some r)
    (hadvance : Advance t.service r r' s') : Staffed ⟨s', t.requests.set i r'⟩ := by
  cases hadvance with
  | joins hstage =>
      have hnone : r.ticket? = none := by rw [Request.ticket?, hstage]
      refine h.set horderly hr fun ticket => ?_
      rw [hnone, horderly.sound.line_join, List.mem_append, List.mem_singleton]
      constructor
      · rintro (hstands | rfl)
        · exact .inr ⟨hstands, by simp⟩
        · exact .inl rfl
      · rintro (hself | ⟨hstands, -⟩)
        · exact .inr (Option.some.inj hself).symm
        · exact .inl hstands
  | enters hstage hholds => exact h.set_of_same horderly hr rfl (by simp [Request.ticket?, Request.atStage, hstage])
  | admits hstage hdecision hallowed =>
      exact h.set_of_same horderly hr hdecision.frame.1 (by simp [Request.ticket?, Request.atStage, hstage])
  | @fails client ticket error s'' hstage hdecision =>
      have hticket : r.ticket? = some ticket := by rw [Request.ticket?, hstage]
      exact h.set_of_drop horderly hr hticket (congrArg (RecordLocks.drop · ticket) hdecision.frame.1) rfl
  | @denies client ticket admission strategy s'' hstage hdecision hdenied =>
      have hticket : r.ticket? = some ticket := by rw [Request.ticket?, hstage]
      exact h.set_of_drop horderly hr hticket (congrArg (RecordLocks.drop · ticket) hdecision.frame.1) rfl
  | @saves client ticket admission strategy hstage =>
      have hticket : r.ticket? = some ticket := by rw [Request.ticket?, hstage]
      exact h.set_of_drop horderly hr hticket rfl rfl
  | leaves hstage hseat =>
      refine h.set_of_same horderly hr rfl ?_
      rw [ticket?_leave, Request.ticket?, hstage]
  | waits hstage hseat => exact h.set_of_same horderly hr rfl (by simp [Request.ticket?, Request.atStage, hstage])
  | wakes hstage hfault =>
      refine h.set_of_same horderly hr rfl ?_
      rw [ticket?_leave, Request.ticket?, hstage]

theorem Staffed.moved {m : Move} (h : Staffed t) (horderly : Orderly t) (hmoved : Moved t m t') : Staffed t' := by
  cases hmoved with
  | stays => exact h
  | advances hr hadvance => exact h.advance horderly hr hadvance
  | @happens event =>
      refine ⟨?_, ?_⟩
      · rw [t.service.locks_happen event]
        exact h.in_line
      · rw [t.service.locks_happen event]
        exact h.owned

theorem staffed_moves (h : Staffed t) (horderly : Orderly t) (ms : List Move) : Staffed (t.moves ms) := by
  induction ms generalizing t with
  | nil => exact h
  | cons m rest ih => exact ih (h.moved horderly (moved_move t m)) (horderly.moved (moved_move t m))

/-! ## There is always a move -/

/-- **There is always a move.**  While a request is not settled, it can move, or one that holds its record can. -/
theorem exists_advance (h : Staffed t) (horderly : Orderly t) (hr : t.requests[i]? = some r)
    (hsettled : r.isSettled = false) :
    ∃ (j : Nat) (r' : Request), t.requests[j]? = some r' ∧ t.service.advance r' ≠ none := by
  by_cases hstuck : t.service.advance r = none
  · rcases advance_eq_none_iff.1 hstuck with ⟨client, ticket, hstage, -⟩ | ⟨deadline, hint, hstage, -⟩ |
      ⟨answer, hstage⟩
    · have hticket : r.ticket? = some ticket := by rw [Request.ticket?, hstage]
      obtain ⟨lease, hfind, -⟩ := horderly.leased i r ticket hr hticket
      obtain ⟨hlease, rfl⟩ := horderly.sound.find?_eq_some_iff.1 hfind
      obtain ⟨holder, hmem, -, hholds⟩ :=
        horderly.sound.exists_holds hlease (h.in_line i r lease.ticket hr hticket)
      obtain ⟨j, r', hr', howner⟩ := h.owned holder.ticket (horderly.sound.mem_line_of_holds hmem hholds)
      refine ⟨j, r', hr', fun hnone => ?_⟩
      -- the holder is not in line any more, or enters now
      rcases advance_eq_none_iff.1 hnone with ⟨client', ticket', hstage', hheld⟩ | ⟨deadline, hint, hstage', -⟩ |
        ⟨answer, hstage'⟩
      · rw [Request.ticket?, hstage'] at howner
        rw [Option.some.inj howner, hholds] at hheld
        cases hheld
      · rw [Request.ticket?, hstage'] at howner
        cases howner
      · rw [Request.ticket?, hstage'] at howner
        cases howner
    · rw [Request.isSettled, Request.deadline?, hstage] at hsettled
      simp at hsettled
    · rw [Request.isSettled, Request.answer?, hstage] at hsettled
      simp at hsettled
  · exact ⟨i, r, hr, hstuck⟩

/-- The number of moves after which all these requests surely have their answers. -/
def restOf (requests : List Request) : Nat := requests.foldr (fun r n => r.rest + n) 0

/-- The number of moves after which all requests surely have their answers. -/
def rest (t : Traffic) : Nat := restOf t.requests

theorem restOf_set_lt {l : List Request} {j : Nat} {x y : Request} (hx : l[j]? = some x) (hlt : y.rest < x.rest) :
    restOf (l.set j y) < restOf l := by
  induction l generalizing j with
  | nil => cases hx
  | cons z l ih =>
      cases j with
      | zero =>
          obtain rfl := Option.some.inj hx
          rw [List.set_cons_zero, restOf, restOf, List.foldr_cons, List.foldr_cons]
          exact Nat.add_lt_add_right hlt _
      | succ j =>
          rw [List.set_cons_succ, restOf, restOf, List.foldr_cons, List.foldr_cons]
          exact Nat.add_lt_add_left (ih hx) _

/-- A request that can move leaves less to do. -/
theorem rest_move_lt {j : Nat} (hr : t.requests[j]? = some r) (hadvance : t.service.advance r ≠ none) :
    (t.move (.advance j)).rest < t.rest := by
  obtain ⟨⟨r', s'⟩, hmoves⟩ := Option.ne_none_iff_exists'.1 hadvance
  have hmove : t.move (.advance j) = ⟨s', t.requests.set j r'⟩ := by
    rw [move, step, hr]
    dsimp only
    rw [hmoves]
  rw [hmove]
  exact restOf_set_lt hr (advance_of_eq_some hmoves).rest_lt

theorem length_requests_move (t : Traffic) (m : Move) : (t.move m).requests.length = t.requests.length := by
  have hmoved := moved_move t m
  generalize t.move m = t' at hmoved
  cases hmoved with
  | stays hstays => rfl
  | advances hr hadvance => exact List.length_set
  | happens => rfl

/-- **Every request gets on.**  Some moves of requests, and nothing else, bring a request to its answer or to the
waiting room. -/
theorem exists_settled (h : Staffed t) (horderly : Orderly t) (hr : t.requests[i]? = some r) :
    ∃ indices : List Nat, ∃ r', (t.moves (indices.map .advance)).requests[i]? = some r' ∧ r'.isSettled = true := by
  induction hrest : t.rest using Nat.strongRecOn generalizing t r with
  | ind n ih =>
      cases hsettled : r.isSettled with
      | true => exact ⟨[], r, hr, hsettled⟩
      | false =>
          obtain ⟨j, x, hx, hadvance⟩ := exists_advance h horderly hr hsettled
          have hmoved := moved_move t (.advance j)
          have hlt : i < (t.move (.advance j)).requests.length := by
            rw [length_requests_move]
            exact (List.getElem?_eq_some_iff.1 hr).1
          obtain ⟨indices, r', hr', hsettled'⟩ :=
            ih _ (hrest ▸ rest_move_lt hx hadvance) (h.moved horderly hmoved) (horderly.moved hmoved)
              (List.getElem?_eq_getElem hlt) rfl
          exact ⟨j :: indices, r', hr', hsettled'⟩

end Traffic
end Service
end AdmissionControl
