import AdmissionControl.Service.Traffic

/-!
# Moves of a service

Between two moves of a request anything else may happen to the service: the clock moves, settings change,
clients are swept, exempted or promoted.  A run is a list of such moves in any order.

* `Decision`, `decision_of_eq` — what a decision about a stored record can come to.
* `Advance`, `advance_of_eq_some` — what one move of a request can be, case by case.  Later proofs look at these
  cases and not at the machine.
* `Event`, `happen` — what else can happen.
* `Traffic.moves` — a run of moves.
-/

namespace AdmissionControl
namespace Service

/-! ## Decisions -/

variable {s s' : Service} {r r' : Request}

/-- What a decision about a client with a stored record can come to. -/
inductive Decision (s : Service) (endpoint : String) (client : Client) (stored : Record) :
    Except Error (Admission × Strategy) → Service → Prop
  /-- There is no policy for the client. -/
  | unresolved {error : Error}
      (hpolicy : s.fittings.resolver.resolve endpoint client.tier s.fittings.timeRange
        s.live.current.settings = .error error) :
      Decision s endpoint client stored (.error error) s
  /-- The limiter cannot be made, or fails. -/
  | failed {policy : Policy} {error : Error} {limiters : Limiters} {breaker : Breaker}
      (hpolicy : s.fittings.resolver.resolve endpoint client.tier s.fittings.timeRange
        s.live.current.settings = .ok policy)
      (hcheck : s.limiters.check s.stores.exemptions s.breaker s.breakerNow s.now endpoint
        (stored.retarget client policy) s.live.current.settings = (.error error, limiters, breaker)) :
      Decision s endpoint client stored (.error error) { s with limiters := limiters, breaker := breaker }
  /-- The limiter answers. -/
  | answered {policy : Policy} {admission : Admission} {limiters : Limiters} {breaker : Breaker}
      (hpolicy : s.fittings.resolver.resolve endpoint client.tier s.fittings.timeRange
        s.live.current.settings = .ok policy)
      (hcheck : s.limiters.check s.stores.exemptions s.breaker s.breakerNow s.now endpoint
        (stored.retarget client policy) s.live.current.settings = (.ok admission, limiters, breaker)) :
      Decision s endpoint client stored
        (.ok (admission, (s.strategies.obtain endpoint client.tier s.live.current.settings).1))
        { s with
          limiters := limiters
          breaker := breaker
          strategies := (s.strategies.obtain endpoint client.tier s.live.current.settings).2 }

theorem decision_decide (s : Service) (endpoint : String) (client : Client) (stored : Record) :
    Decision s endpoint client stored (s.decide endpoint client stored).1
      (s.decide endpoint client stored).2 := by
  rw [decide]
  dsimp only
  cases hpolicy : s.fittings.resolver.resolve endpoint client.tier s.fittings.timeRange
      s.live.current.settings with
  | error error => exact .unresolved hpolicy
  | ok policy =>
      dsimp only
      rcases hcheck : s.limiters.check s.stores.exemptions s.breaker s.breakerNow s.now endpoint
        (stored.retarget client policy) s.live.current.settings with ⟨outcome, limiters, breaker⟩
      cases outcome with
      | error error => exact .failed hpolicy hcheck
      | ok admission => exact .answered hpolicy hcheck

theorem decision_of_eq {endpoint : String} {client : Client} {stored : Record}
    {outcome : Except Error (Admission × Strategy)} (h : s.decide endpoint client stored = (outcome, s')) :
    Decision s endpoint client stored outcome s' := by
  have hdecision := decision_decide s endpoint client stored
  rwa [h] at hdecision

/-- A decision touches no lock and no store. -/
theorem Decision.frame {endpoint : String} {client : Client} {stored : Record}
    {outcome : Except Error (Admission × Strategy)} (h : Decision s endpoint client stored outcome s') :
    s'.locks = s.locks ∧ s'.stores = s.stores ∧ s'.live = s.live := by
  cases h with
  | unresolved hpolicy => exact ⟨rfl, rfl, rfl⟩
  | failed hpolicy hcheck => exact ⟨rfl, rfl, rfl⟩
  | answered hpolicy hcheck => exact ⟨rfl, rfl, rfl⟩

/-- A decision touches neither the fittings nor the waiting room. -/
theorem Decision.premises {endpoint : String} {client : Client} {stored : Record}
    {outcome : Except Error (Admission × Strategy)} (h : Decision s endpoint client stored outcome s') :
    s'.fittings = s.fittings ∧ s'.room = s.room := by
  cases h with
  | unresolved hpolicy => exact ⟨rfl, rfl⟩
  | failed hpolicy hcheck => exact ⟨rfl, rfl⟩
  | answered hpolicy hcheck => exact ⟨rfl, rfl⟩

/-! ## One move of a request -/

/-- What the repository has under a key. -/
def stored? (s : Service) (key : RecordKey) : Option Record := s.stores.repository.records.get? key

/-- The record that a load brings. -/
def record (s : Service) (key : RecordKey) : Record := (s.stores.repository.load key s.clock.now).1

/-- The service after a load. -/
def load (s : Service) (key : RecordKey) : Service :=
  { s with stores := { s.stores with repository := (s.stores.repository.load key s.clock.now).2 } }

/-- The service after a save. -/
def save (s : Service) (key : RecordKey) (record : Record) : Service :=
  { s with stores := { s.stores with repository := s.stores.repository.save key record } }

/-- What one move of a request can be. -/
inductive Advance (s : Service) (r : Request) : Request → Service → Prop
  /-- Its client is identified, and it asks for its record. -/
  | joins (hstage : r.stage = .arriving) :
      Advance s r
        (r.atStage (.queued (s.stores.directory.identify r.client).1 (s.locks.lease r.key).1.ticket))
        { s with
          locks := (s.locks.lease r.key).2.ask (s.locks.lease r.key).1.ticket
          stores := { s.stores with directory := (s.stores.directory.identify r.client).2 } }
  /-- Its turn has come. -/
  | enters {client : Client} {ticket : Nat} (hstage : r.stage = .queued client ticket)
      (hholds : s.locks.holds ticket = true) :
      Advance s r (r.atStage (.loading client ticket)) s
  /-- Its record is loaded, and the decision fails. -/
  | fails {client : Client} {ticket : Nat} {error : Error} {s' : Service}
      (hstage : r.stage = .loading client ticket)
      (hdecision : Decision (s.load r.key) r.endpoint client (s.record r.key) (.error error) s') :
      Advance s r (r.atStage (.done (.error error))) { s' with locks := s'.locks.drop ticket }
  /-- Its record is loaded, and it is admitted. -/
  | admits {client : Client} {ticket : Nat} {admission : Admission} {strategy : Strategy} {s' : Service}
      (hstage : r.stage = .loading client ticket)
      (hdecision : Decision (s.load r.key) r.endpoint client (s.record r.key) (.ok (admission, strategy)) s')
      (hallowed : admission.isAllowed = true) :
      Advance s r (r.atStage (.saving client ticket admission strategy)) s'
  /-- Its record is loaded, and it is denied. -/
  | denies {client : Client} {ticket : Nat} {admission : Admission} {strategy : Strategy} {s' : Service}
      (hstage : r.stage = .loading client ticket)
      (hdecision : Decision (s.load r.key) r.endpoint client (s.record r.key) (.ok (admission, strategy)) s')
      (hdenied : admission.isAllowed = false) :
      Advance s r (s'.finish r client ticket admission.verdict strategy).1
        (s'.finish r client ticket admission.verdict strategy).2
  /-- Its record is saved. -/
  | saves {client : Client} {ticket : Nat} {admission : Admission} {strategy : Strategy}
      (hstage : r.stage = .saving client ticket admission strategy) :
      Advance s r
        ((s.save r.key admission.record.countRequest).finish r client ticket admission.verdict strategy).1
        ((s.save r.key admission.record.countRequest).finish r client ticket admission.verdict strategy).2
  /-- It does not have to wait. -/
  | leaves {verdict : Verdict} {strategy : Strategy} {fault : Option ThrottleFault}
      (hstage : r.stage = .throttling verdict strategy)
      (hseat : (s.room.enter (strategy.plan verdict)).1 = .leaves fault) :
      Advance s r (r.leave verdict fault) { s with room := (s.room.enter (strategy.plan verdict)).2 }
  /-- It takes a seat in the waiting room. -/
  | waits {verdict : Verdict} {strategy : Strategy} {deadline : Nat} {hint : Duration}
      (hstage : r.stage = .throttling verdict strategy)
      (hseat : (s.room.enter (strategy.plan verdict)).1 = .waits deadline hint) :
      Advance s r (r.atStage (.waiting deadline hint))
        { s with room := (s.room.enter (strategy.plan verdict)).2 }
  /-- Its wait is over. -/
  | wakes {deadline : Nat} {hint : Duration} {fault : Option ThrottleFault}
      (hstage : r.stage = .waiting deadline hint) (hfault : s.room.leave? deadline hint = some fault) :
      Advance s r (r.leave (.denied hint) fault) s

/-- **A request that moves makes one of these moves.** -/
theorem advance_of_eq_some (h : s.advance r = some (r', s')) : Advance s r r' s' := by
  rw [advance] at h
  cases hstage : r.stage with
  | arriving =>
      rw [hstage] at h
      obtain ⟨rfl, rfl⟩ := Prod.mk.inj (Option.some.inj h)
      exact .joins hstage
  | queued client ticket =>
      rw [hstage] at h
      dsimp only at h
      split at h
      · rename_i hholds
        obtain ⟨rfl, rfl⟩ := Prod.mk.inj (Option.some.inj h)
        exact .enters hstage hholds
      · exact absurd h (by simp)
  | loading client ticket =>
      rw [hstage] at h
      dsimp only at h
      split at h
      · rename_i error s'' hresult
        obtain ⟨rfl, rfl⟩ := Prod.mk.inj (Option.some.inj h)
        exact .fails hstage (decision_of_eq hresult)
      · rename_i admission strategy s'' hresult
        have hdecision : Decision (s.load r.key) r.endpoint client (s.record r.key)
            (.ok (admission, strategy)) s'' := decision_of_eq hresult
        split at h
        · rename_i hallowed
          obtain ⟨rfl, rfl⟩ := Prod.mk.inj (Option.some.inj h)
          exact .admits hstage hdecision hallowed
        · rename_i hdenied
          obtain ⟨rfl, rfl⟩ := Prod.mk.inj (Option.some.inj h)
          exact .denies hstage hdecision (Bool.not_eq_true _ ▸ hdenied)
  | saving client ticket admission strategy =>
      rw [hstage] at h
      obtain ⟨rfl, rfl⟩ := Prod.mk.inj (Option.some.inj h)
      exact .saves hstage
  | throttling verdict strategy =>
      rw [hstage] at h
      dsimp only [throttle] at h
      rcases hseat : s.room.enter (strategy.plan verdict) with ⟨seat, room⟩
      rw [hseat] at h
      obtain rfl : (s.room.enter (strategy.plan verdict)).2 = room := congrArg Prod.snd hseat
      cases seat with
      | leaves fault =>
          obtain ⟨rfl, rfl⟩ := Prod.mk.inj (Option.some.inj h)
          exact .leaves hstage (congrArg Prod.fst hseat)
      | waits deadline hint =>
          obtain ⟨rfl, rfl⟩ := Prod.mk.inj (Option.some.inj h)
          exact .waits hstage (congrArg Prod.fst hseat)
  | waiting deadline hint =>
      rw [hstage] at h
      obtain ⟨fault, hfault, hmove⟩ := Option.map_eq_some_iff.1 h
      obtain ⟨rfl, rfl⟩ := Prod.mk.inj hmove
      exact .wakes hstage hfault
  | done answer =>
      rw [hstage] at h
      exact absurd h (by simp)

/-- A request stays a request for the same record. -/
theorem Advance.key_eq (h : Advance s r r' s') : r'.key = r.key := by
  cases h with
  | @leaves verdict strategy fault hstage hseat => cases fault <;> rfl
  | @wakes deadline hint fault hstage hfault => cases fault <;> rfl
  | joins hstage => rfl
  | enters hstage hholds => rfl
  | fails hstage hdecision => rfl
  | admits hstage hdecision hallowed => rfl
  | denies hstage hdecision hdenied => rfl
  | saves hstage => rfl
  | waits hstage hseat => rfl

/-- A move of a request leaves what the service is made of. -/
theorem Advance.fittings_eq (h : Advance s r r' s') : s'.fittings = s.fittings := by
  cases h with
  | fails hstage hdecision => exact (hdecision.premises.1 :)
  | admits hstage hdecision hallowed => exact (hdecision.premises.1 :)
  | denies hstage hdecision hdenied => exact (hdecision.premises.1 :)
  | joins hstage => rfl
  | enters hstage hholds => rfl
  | saves hstage => rfl
  | leaves hstage hseat => rfl
  | waits hstage hseat => rfl
  | wakes hstage hfault => rfl

/-! ## What else can happen -/

/-- What can happen to a service beside the moves of requests. -/
inductive Event
  /-- The clock moves. -/
  | move (move : Clock.Move)
  /-- Idle clients are forgotten. -/
  | sweep
  /-- New settings are to go live. -/
  | update (settings : Settings)
  /-- Something happens to the breaker. -/
  | breaker (event : Breaker.Event)
  /-- The waiting room changes: its timer moves, or its waits are interrupted or no longer. -/
  | room (room : WaitingRoom)
  /-- Clients change their tiers or are forgotten. -/
  | directory (directory : Directory)
  /-- Clients become exempt or are no longer. -/
  | exemptions (exemptions : Exemptions)

/-- The service after an event.  Settings that are refused change nothing. -/
def happen (s : Service) : Event → Service
  | .move move => { s with clock := s.clock.move move }
  | .sweep => s.sweep
  | .update settings =>
      match s.update settings with
      | .ok (_, s') => s'
      | .error _ => s
  | .breaker event => { s with breaker := (s.breaker.react s.breakerNow event).2 }
  | .room room => { s with room := room }
  | .directory directory => { s with stores := { s.stores with directory := directory } }
  | .exemptions exemptions => { s with stores := { s.stores with exemptions := exemptions } }

/-- A change of settings leaves everything but the settings, the breaker and what was made from the old
settings. -/
theorem frame_update {settings : Settings} {change : Update} (h : s.update settings = .ok (change, s')) :
    s'.locks = s.locks ∧ s'.stores = s.stores ∧ s'.limiters = Limiters.empty := by
  rw [update] at h
  split at h
  · exact absurd h (by simp)
  · obtain ⟨-, rfl⟩ := Prod.mk.inj (Except.ok.inj h)
    exact ⟨rfl, rfl, rfl⟩

/-- A change of settings leaves the fittings and the waiting room. -/
theorem premises_update {settings : Settings} {change : Update} (h : s.update settings = .ok (change, s')) :
    s'.fittings = s.fittings ∧ s'.room = s.room := by
  rw [update] at h
  split at h
  · exact absurd h (by simp)
  · obtain ⟨-, rfl⟩ := Prod.mk.inj (Except.ok.inj h)
    exact ⟨rfl, rfl⟩

theorem locks_happen (s : Service) (e : Event) : (s.happen e).locks = s.locks := by
  cases e with
  | update settings =>
      rw [happen]
      split
      · rename_i change s' hupdate
        exact (frame_update hupdate).1
      · rfl
  | move move => rfl
  | sweep => rfl
  | breaker event => rfl
  | room room => rfl
  | directory directory => rfl
  | exemptions exemptions => rfl

theorem stored?_happen (s : Service) (e : Event) (key : RecordKey) :
    (s.happen e).stored? key = s.stored? key := by
  cases e with
  | update settings =>
      rw [happen]
      split
      · rename_i change s' hupdate
        rw [stored?, (frame_update hupdate).2.1, stored?]
      · rfl
  | move move => rfl
  | sweep => rfl
  | breaker event => rfl
  | room room => rfl
  | directory directory => rfl
  | exemptions exemptions => rfl

theorem fittings_happen (s : Service) (e : Event) : (s.happen e).fittings = s.fittings := by
  cases e with
  | update settings =>
      rw [happen]
      split
      · rename_i change s' hupdate
        exact (premises_update hupdate).1
      · rfl
  | move move => rfl
  | sweep => rfl
  | breaker event => rfl
  | room room => rfl
  | directory directory => rfl
  | exemptions exemptions => rfl

/-! ## Runs -/

namespace Traffic

/-- A move of one of the requests, or something else that happens. -/
inductive Move
  /-- The request with an index goes one stage further, if it can. -/
  | advance (index : Nat)
  /-- Something else happens. -/
  | happen (event : Event)

/-- The traffic after a move. -/
def move (t : Traffic) : Move → Traffic
  | .advance index => t.step index
  | .happen event => { t with service := t.service.happen event }

/-- The traffic after moves one after another. -/
def moves (t : Traffic) (ms : List Move) : Traffic := ms.foldl move t

/-- Requests come to a service, each at the time of its first move. -/
def start (s : Service) (requests : List (String × String)) : Traffic :=
  ⟨s, requests.map fun r => .fresh r.1 r.2⟩

@[simp] theorem moves_nil (t : Traffic) : t.moves [] = t := rfl

@[simp] theorem moves_cons (t : Traffic) (m : Move) (rest : List Move) :
    t.moves (m :: rest) = (t.move m).moves rest := rfl

/-- What one move of the traffic can be. -/
inductive Moved (t : Traffic) : Move → Traffic → Prop
  /-- There is no such request, or it has to wait, or it has its answer. -/
  | stays {index : Nat} (hstays : ∀ r, t.requests[index]? = some r → t.service.advance r = none) :
      Moved t (.advance index) t
  /-- A request goes one stage further. -/
  | advances {index : Nat} {r r' : Request} {s' : Service} (hr : t.requests[index]? = some r)
      (hadvance : Advance t.service r r' s') :
      Moved t (.advance index) ⟨s', t.requests.set index r'⟩
  /-- Something else happens. -/
  | happens {event : Event} : Moved t (.happen event) ⟨t.service.happen event, t.requests⟩

theorem moved_move (t : Traffic) (m : Move) : Moved t m (t.move m) := by
  cases m with
  | happen event => exact .happens
  | advance index =>
      rw [move, step]
      cases hr : t.requests[index]? with
      | none => exact .stays fun r hr' => absurd (hr.symm.trans hr') (by simp)
      | some r =>
          dsimp only
          split
          · rename_i r' s' hadvance
            exact .advances hr (advance_of_eq_some hadvance)
          · rename_i hnone
            refine .stays fun r' hr' => ?_
            obtain rfl := Option.some.inj (hr.symm.trans hr')
            exact hnone

/-! ## What a service is made of -/

/-- A service has the fittings with which it is built. -/
theorem fittings_build {settings : Settings} {fittings : Fittings} {sleeper : Sleeper} {given : Option Breaker}
    {stores : Stores} {clock : Clock} {s : Service}
    (h : Service.build settings fittings sleeper given stores clock = .ok s) : s.fittings = fittings := by
  rw [Service.build] at h
  split at h
  · cases h
  · split at h
    · cases h
    · obtain rfl := Except.ok.inj h
      rfl

/-- What a service is made of beside its settings never changes. -/
theorem Moved.fittings_eq {t t' : Traffic} {m : Move} (h : Moved t m t') :
    t'.service.fittings = t.service.fittings := by
  cases h with
  | stays hstays => rfl
  | advances hr hadvance => exact hadvance.fittings_eq
  | happens => exact fittings_happen ..

theorem fittings_moves (t : Traffic) (ms : List Move) : (t.moves ms).service.fittings = t.service.fittings := by
  induction ms generalizing t with
  | nil => rfl
  | cons m rest ih => exact (ih (t.move m)).trans (moved_move t m).fittings_eq

end Traffic
end Service
end AdmissionControl
