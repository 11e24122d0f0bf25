import AdmissionControl.Service

/-!
# Many requests at a time

A burst of requests is served in rounds.  In each round every request that has no answer yet goes as far as it
can, in the order in which the requests came in.  After a round the sweepers that are due go.  When all that
is left waits, the timer moves on to the next moment at which something happens: the end of a wait, or the
interrupt that was set for this burst.  A wait that ends at the moment of the interrupt ends in time; the
others hear of the interrupt at once, before any sweeper goes.

For single moves in any order see `step`.
-/

namespace AdmissionControl
namespace Service

/-- A service with the requests on their way. -/
structure Traffic where
  /-- The service. -/
  service : Service
  /-- The requests in the order in which they came in. -/
  requests : List Request

namespace Traffic

/-- Moves one of the requests by one stage, if it can move. -/
def step (t : Traffic) (index : Nat) : Traffic :=
  match t.requests[index]? with
  | none => t
  | some r =>
      match t.service.advance r with
      | some (r', s) => ⟨s, t.requests.set index r'⟩
      | none => t

/-- Moves requests one after another. -/
def run (t : Traffic) (moves : List Nat) : Traffic := moves.foldl step t

end Traffic

/-! ## Rounds -/

/-- Moves a request as far as it can go, but not past `n` stages.  Before each access to the repository others
go first if the repository wants it so. -/
def poll : Nat → Service → Request → Request × Service
  | 0, s, r => (r, s)
  | n + 1, s, r =>
      match s.advance r with
      | none => (r, s)
      | some (r, s) =>
          if s.fittings.yields && r.isAtRepository then (r, s) else poll n s r

/-- The number of moves after which a request surely has its answer or waits. -/
def pollBound : Nat := 8

/-- One round: every request goes as far as it can. -/
def round (s : Service) : List Request → List Request × Service
  | [] => ([], s)
  | r :: rest =>
      let (r, s) := s.poll pollBound r
      let (rest, s) := round s rest
      (r :: rest, s)

/-- The time of the timer. -/
def time (s : Service) : Nat := s.room.timer.now

/-- Starts a sweeper. -/
def spawn (s : Service) (interval : Duration) : Service :=
  { s with room := { s.room with timer := s.room.timer.spawn interval } }

/-- Serves the sweepers that fall due before `limit`. -/
def catchUp (s : Service) (limit : Nat) : Service :=
  let (due, timer) := s.room.timer.catchUp limit
  let s := { s with room := { s.room with timer := timer } }
  if due then s.sweep else s

/-- Waits on the timer until `target`. -/
def waitUntil (s : Service) (target : Nat) : Service :=
  let (due, timer) := s.room.timer.waitUntil target
  let s := { s with room := { s.room with timer := timer } }
  if due then s.sweep else s

/-- What happens after a round that left some requests without an answer.  Sweepers that are due go first.
If all these requests wait, and go on waiting, the timer moves to the end of the first wait or to the
interrupt, whichever comes first. -/
def idle (s : Service) (requests : List Request) (interruptAt : Option Nat) : Service :=
  let unanswered := requests.filter fun r => r.answer?.isNone
  let deadlines := unanswered.filterMap Request.deadline?
  let s := s.catchUp (s.time + 1)
  if s.room.isInterrupted || deadlines.length < unanswered.length then s
  else
    match (deadlines ++ interruptAt.toList).min? with
    | some target => s.waitUntil target
    | none => s

/-- Raises the interrupt. -/
def interrupt (s : Service) : Service := { s with room := s.room.interrupt }

/-- Rounds until every request has its answer, but not more than `n`.  When the time of the interrupt has
come, it is raised, and the next round follows at once. -/
def rounds : Nat → Service → List Request → Option Nat → List Request × Service
  | 0, s, requests, _ => (requests, s)
  | n + 1, s, requests, interruptAt =>
      let (requests, s) := s.round requests
      if requests.all (·.answer?.isSome) then (requests, s)
      else if interruptAt.any (· ≤ s.time) then rounds n s.interrupt requests none
      else rounds n (s.idle requests interruptAt) requests interruptAt

/-- A number of rounds after which so many requests surely have their answers. -/
def roundBound (n : Nat) : Nat := 8 * n + 9

/-- Answers a burst of requests that come in together, with an interrupt after a while if one is set. -/
def burst (s : Service) (requests : List Request) (interruptAfter : Option Duration) :
    List Request × Service :=
  rounds (roundBound requests.length) s requests (interruptAfter.map s.room.timer.deadline)

/-- Answers one request. -/
def check (s : Service) (endpoint client : String) (interruptAfter : Option Duration) :
    Except Error Verdict × Service :=
  match s.burst [Request.fresh endpoint client] interruptAfter with
  | (r :: _, s) => (r.answer?.getD (.error (.invalid (.other "no answer"))), s)
  | ([], s) => (.error (.invalid (.other "no answer")), s)

end Service
end AdmissionControl
