import AdmissionControl.Proofs.Service.Serving
import AdmissionControl.Proofs.Service.Terms

/-!
# One limit for all endpoints of an algorithm

Which endpoint a request is for decides under which key its record is kept, which lock it takes, which strategy waits
for it, and which limiter decides.  Of these only the limiter says whether the request is allowed, and it is the same
for all endpoints with the same algorithm.

Two runs are compared that differ in the endpoints of requests.  Requests are served one at a time; between them the
clock moves, clients are swept, and whatever else happens is the same in both.

* `decide_of_bare`, `decide_of_sameTerms` — services with the same limiters, breaker and so on decide alike.
* `Twin` — two services that differ in nothing that a decision depends on; serving a request keeps it (`Twin.push`).
* `Traffic.Paired`, `Traffic.paired_turns` — the invariant of the two runs.
* `Traffic.endpoints_share_limit` — **no decision depends on which endpoint of an algorithm is asked for**.
-/

namespace AdmissionControl
namespace Service

variable {s s' : Service} {r r' : Request}

/-! ## What decisions depend on -/

/-- A check of a record by the limiters of a service. -/
def inquire (s : Service) (endpoint : String) (record : Record) : Except Error Admission × Limiters × Breaker :=
  s.limiters.check s.stores.exemptions s.breaker s.breakerNow s.now endpoint record s.live.current.settings

theorem inquire_of_bare (h : s'.bare = s.bare) : s'.inquire = s.inquire := by
  show s'.bare.inquire = s.bare.inquire
  rw [h]

/-- Without a policy there is nothing to decide. -/
theorem decide_of_error {client : Client} {error : Error} (hresolver : s.fittings.resolver = .settings)
    (hpolicy : s.live.current.settings.policyFor client.tier = .error error) (endpoint : String) (stored : Record) :
    s.decide endpoint client stored = (.error error, s) := by
  have hresolve : s.fittings.resolver.resolve endpoint client.tier s.fittings.timeRange s.live.current.settings =
      .error error := by
    rw [hresolver]
    exact hpolicy
  unfold decide
  dsimp only
  rw [hresolve]

/-- A decision is what the limiters say of a record under its policy. -/
theorem decide_of_ok {client : Client} {policy : Policy} (hresolver : s.fittings.resolver = .settings)
    (hpolicy : s.live.current.settings.policyFor client.tier = .ok policy) (endpoint : String) (stored : Record) :
    (s.decide endpoint client stored).1.map Prod.fst = (s.inquire endpoint (stored.retarget client policy)).1 ∧
      (s.decide endpoint client stored).2.bare =
        { s.bare with
          limiters := (s.inquire endpoint (stored.retarget client policy)).2.1
          breaker := (s.inquire endpoint (stored.retarget client policy)).2.2 } := by
  have hresolve : s.fittings.resolver.resolve endpoint client.tier s.fittings.timeRange s.live.current.settings =
      .ok policy := by
    rw [hresolver]
    exact hpolicy
  unfold decide
  dsimp only
  rw [hresolve]
  dsimp only
  rcases hinquire : s.inquire endpoint (stored.retarget client policy) with ⟨outcome, limiters, breaker⟩
  unfold inquire at hinquire
  rw [hinquire]
  cases outcome with
  | error error => exact ⟨rfl, rfl⟩
  | ok admission => exact ⟨rfl, rfl⟩

/-- Services with the same basis decide alike about the same record. -/
theorem decide_of_bare (h : s'.bare = s.bare) (hresolver : s.fittings.resolver = .settings) (endpoint : String)
    (client : Client) (stored : Record) :
    (s'.decide endpoint client stored).1.map Prod.fst = (s.decide endpoint client stored).1.map Prod.fst ∧
      (s'.decide endpoint client stored).2.bare = (s.decide endpoint client stored).2.bare := by
  have hresolver' : s'.fittings.resolver = .settings := by
    rw [← hresolver]
    exact congrArg (·.fittings.resolver) h
  have hsettings : s'.live.current.settings = s.live.current.settings := congrArg (·.live.current.settings) h
  cases hpolicy : s.live.current.settings.policyFor client.tier with
  | error error =>
      have hpolicy' := hsettings ▸ hpolicy
      rw [decide_of_error hresolver hpolicy, decide_of_error hresolver' hpolicy']
      exact ⟨rfl, h⟩
  | ok policy =>
      have hpolicy' := hsettings ▸ hpolicy
      obtain ⟨houtcome, hstate⟩ := decide_of_ok hresolver hpolicy endpoint stored
      obtain ⟨houtcome', hstate'⟩ := decide_of_ok hresolver' hpolicy' endpoint stored
      rw [houtcome, hstate, houtcome', hstate', inquire_of_bare h, h]
      exact ⟨rfl, rfl⟩

theorem map_verdict (outcome : Except Error (Admission × Strategy)) :
    outcome.map (·.1.verdict) = (outcome.map Prod.fst).map Admission.verdict := by
  cases outcome with
  | error error => rfl
  | ok decided => rfl

/-- They decide alike about records of one client on endpoints with one algorithm, unless that is a quota. -/
theorem decide_of_sameTerms (h : s'.bare = s.bare) (hresolver : s.fittings.resolver = .settings)
    (hcoherent : s.Coherent) {endpoint endpoint' : String}
    (halgorithm : s.live.current.settings.algorithmFor endpoint' = s.live.current.settings.algorithmFor endpoint)
    (hquota : s.live.current.settings.algorithmFor endpoint ≠ .quota) (client : Client) (stored stored' : Record) :
    (s'.decide endpoint' client stored').1.map (·.1.verdict) =
        (s.decide endpoint client stored).1.map (·.1.verdict) ∧
      (s'.decide endpoint' client stored').2.bare = (s.decide endpoint client stored).2.bare := by
  obtain ⟨houtcome', hstate'⟩ := decide_of_bare h hresolver endpoint' client stored'
  rw [map_verdict, map_verdict, houtcome', hstate']
  cases hpolicy : s.live.current.settings.policyFor client.tier with
  | error error =>
      rw [decide_of_error hresolver hpolicy, decide_of_error hresolver hpolicy]
      exact ⟨rfl, rfl⟩
  | ok policy =>
      obtain ⟨houtcome, hstate⟩ := decide_of_ok hresolver hpolicy endpoint stored
      obtain ⟨houtcome', hstate'⟩ := decide_of_ok hresolver hpolicy endpoint' stored'
      obtain ⟨halike, hsame⟩ := Limiters.check_of_sameTerms hcoherent
        (stored.sameTerms_retarget stored' client policy) halgorithm hquota s.stores.exemptions s.breaker
        s.breakerNow s.now
      rw [houtcome, hstate, houtcome', hstate']
      unfold inquire
      rw [hsame]
      exact ⟨halike, rfl⟩

/-! ## Twins -/

variable {settings : Settings}

/-- Two services that differ in nothing that a decision depends on. -/
structure Twin (settings : Settings) (s s' : Service) : Prop where
  /-- They have the same limiters, the same breaker, and so on. -/
  bare_eq : s'.bare = s.bare
  /-- They keep the same records where a quota counts in them. -/
  stored_eq : ∀ key, settings.algorithmFor key.endpoint = .quota → s'.stored? key = s.stored? key

/-- A service runs under settings: policies come from them, and so do limiters. -/
structure Under (settings : Settings) (s : Service) : Prop where
  /-- Policies come from the settings. -/
  resolver_eq : s.fittings.resolver = .settings
  /-- The settings are live. -/
  settings_eq : s.live.current.settings = settings
  /-- Every limiter was made from them. -/
  coherent : s.Coherent

/-- Two requests of one client for endpoints with one algorithm.  A quota is counted for each endpoint, so there the
endpoint is the same. -/
structure Request.SameDemand (settings : Settings) (r r' : Request) : Prop where
  /-- The client is the same. -/
  client_eq : r'.client = r.client
  /-- The endpoint is the same, or another one with the same algorithm. -/
  endpoint : r'.endpoint = r.endpoint ∨
    settings.algorithmFor r'.endpoint = settings.algorithmFor r.endpoint ∧
      settings.algorithmFor r.endpoint ≠ .quota

theorem Request.SameDemand.of_key_eq {x x' : Request} (h : r.SameDemand settings r') (hkey : x.key = r.key)
    (hkey' : x'.key = r'.key) : x.SameDemand settings x' := by
  have hclient : x.client = r.client := congrArg RecordKey.client hkey
  have hendpoint : x.endpoint = r.endpoint := congrArg RecordKey.endpoint hkey
  have hclient' : x'.client = r'.client := congrArg RecordKey.client hkey'
  have hendpoint' : x'.endpoint = r'.endpoint := congrArg RecordKey.endpoint hkey'
  refine ⟨?_, ?_⟩
  · rw [hclient, hclient', h.client_eq]
  · rw [hendpoint, hendpoint']
    exact h.endpoint

theorem Twin.identified_eq (h : Twin settings s s') (hdemand : r.SameDemand settings r') :
    s'.identified r' = s.identified r := by
  have hdirectory := congrArg (fun b : Service => (b.stores.directory.identify r.client).1) h.bare_eq
  unfold identified
  rw [hdemand.client_eq]
  exact hdirectory

theorem Twin.bare_load (h : Twin settings s s') (hdemand : r.SameDemand settings r') :
    ((s'.greet r').load r'.key).bare = ((s.greet r).load r.key).bare := by
  show { s'.bare with
      stores := { s'.bare.stores with directory := (s'.bare.stores.directory.identify r'.client).2 } } =
    { s.bare with
      stores := { s.bare.stores with directory := (s.bare.stores.directory.identify r.client).2 } }
  rw [h.bare_eq, hdemand.client_eq]

/-- Where a quota counts, the two requests are for the same record, and the decisions about them are the same. -/
theorem Twin.trial_of_quota (h : Twin settings s s') (hs : s.Under settings) (hdemand : r.SameDemand settings r')
    (hquota : settings.algorithmFor r.endpoint = .quota) :
    (s'.trial r').1.map Prod.fst = (s.trial r).1.map Prod.fst ∧ (s'.trial r').2.bare = (s.trial r).2.bare ∧
      r'.key = r.key ∧ s'.keptRecord r' = s.keptRecord r := by
  have hendpoint : r'.endpoint = r.endpoint := hdemand.endpoint.resolve_right fun hother => hother.2 hquota
  have hkey : r'.key = r.key := by
    unfold Request.key
    rw [hdemand.client_eq, hendpoint]
  have hclock : s'.clock = s.clock := congrArg (·.clock) h.bare_eq
  have hrecord : (s'.greet r').record r'.key = (s.greet r).record r.key := by
    rw [record_eq, record_eq, hkey]
    show (s'.stored? r.key).getD (Repository.standardRecord _ s'.clock.now) =
      (s.stored? r.key).getD (Repository.standardRecord _ s.clock.now)
    rw [h.stored_eq r.key hquota, hclock]
  have htrial : s'.trial r' =
      ((s'.greet r').load r'.key).decide r.endpoint (s.identified r) ((s.greet r).record r.key) := by
    unfold trial
    rw [h.identified_eq hdemand, hrecord, hendpoint]
  obtain ⟨houtcome, hstate⟩ := decide_of_bare (h.bare_load hdemand) hs.resolver_eq r.endpoint (s.identified r)
    ((s.greet r).record r.key)
  rw [← htrial] at houtcome hstate
  refine ⟨houtcome, hstate, hkey, ?_⟩
  unfold keptRecord
  rw [houtcome, hrecord]
  rfl

/-- The decisions about two such requests: the same verdict, and the same limits after it. -/
theorem Twin.trial (h : Twin settings s s') (hs : s.Under settings) (hdemand : r.SameDemand settings r') :
    (s'.trial r').1.map (·.1.verdict) = (s.trial r).1.map (·.1.verdict) ∧
      (s'.trial r').2.bare = (s.trial r).2.bare := by
  by_cases hquota : settings.algorithmFor r.endpoint = .quota
  · obtain ⟨houtcome, hstate, -⟩ := h.trial_of_quota hs hdemand hquota
    rw [map_verdict, map_verdict, houtcome]
    exact ⟨rfl, hstate⟩
  · have halgorithm : settings.algorithmFor r'.endpoint = settings.algorithmFor r.endpoint := by
      rcases hdemand.endpoint with hsame | ⟨hsame, -⟩
      · rw [hsame]
      · exact hsame
    unfold Service.trial
    rw [h.identified_eq hdemand]
    exact decide_of_sameTerms (h.bare_load hdemand) hs.resolver_eq hs.coherent (hs.settings_eq ▸ halgorithm)
      (hs.settings_eq ▸ hquota) (s.identified r) ((s.greet r).record r.key) ((s'.greet r').record r'.key)

/-- Twins that serve such requests stay twins, and decide the same. -/
theorem Twin.push (h : Twin settings s s') (hs : s.Under settings) (hidle : s.locks.Idle) (hidle' : s'.locks.Idle)
    (hdemand : r.SameDemand settings r') (hstage : r.stage = .arriving) (hstage' : r'.stage = .arriving) :
    Twin settings (s.push 5 r).2 (s'.push 5 r').2 ∧
      (s'.push 5 r').1.decision? = (s.push 5 r).1.decision? := by
  obtain ⟨houtcome, hstate⟩ := h.trial hs hdemand
  have hserves := push_of_arriving hstage hidle
  have hserves' := push_of_arriving hstage' hidle'
  refine ⟨⟨?_, ?_⟩, ?_⟩
  · rw [hserves.bare_eq, hserves'.bare_eq, hstate]
  · intro key hquota
    rw [hserves.stored?_eq, hserves'.stored?_eq, h.stored_eq key hquota]
    by_cases hcounted : settings.algorithmFor r.endpoint = .quota
    · obtain ⟨-, -, hkey, hrecord⟩ := h.trial_of_quota hs hdemand hcounted
      rw [hkey, hrecord]
    · -- neither request is for a record in which a quota counts
      have hkey : key ≠ r.key := by
        rintro rfl
        exact hcounted hquota
      have hkey' : key ≠ r'.key := by
        rintro rfl
        rcases hdemand.endpoint with hsame | ⟨hsame, -⟩
        · exact hcounted (hsame ▸ hquota)
        · exact hcounted (hsame.symm.trans hquota)
      rw [if_neg hkey, if_neg hkey']
  · rw [hserves.decision?_eq, hserves'.decision?_eq, houtcome]

/-- Twins to which the same happens stay twins. -/
theorem Twin.happen (h : Twin settings s s') {e : Event} (he : ∀ other, e ≠ .update other) :
    Twin settings (s.happen e) (s'.happen e) := by
  have hbare : ∀ u : Service, (u.happen e).bare = (u.bare.happen e).bare := by
    intro u
    cases e with
    | update other => exact absurd rfl (he other)
    | move move => rfl
    | sweep => rfl
    | breaker event => rfl
    | room room => rfl
    | directory directory => rfl
    | exemptions exemptions => rfl
  refine ⟨?_, ?_⟩
  · rw [hbare s, hbare s', h.bare_eq]
  · intro key hquota
    rw [stored?_happen, stored?_happen]
    exact h.stored_eq key hquota

namespace Traffic

variable {t t' : Traffic} {i : Nat}

/-! ## Two runs -/

/-- Two runs that differ in the endpoints of their requests.  Each request waits for its turn in both, or was served in
both with the same decision. -/
structure Paired (settings : Settings) (t t' : Traffic) : Prop where
  /-- The first service runs under the settings. -/
  under : t.service.Under settings
  /-- So does the second, which differs in nothing that a decision depends on. -/
  twin : Twin settings t.service t'.service
  /-- Nobody uses the locks of the first. -/
  idle : t.service.locks.Idle
  /-- Nor those of the second. -/
  idle' : t'.service.locks.Idle
  /-- There are as many requests. -/
  length_eq : t'.requests.length = t.requests.length
  /-- Requests in one place are for endpoints with one algorithm, and have come equally far. -/
  alike : ∀ (i : Nat) (r r' : Request), t.requests[i]? = some r → t'.requests[i]? = some r' →
    r.SameDemand settings r' ∧ (r.stage = .arriving ∧ r'.stage = .arriving ∨
      r.isSettled = true ∧ r'.isSettled = true ∧ r'.decision? = r.decision?)

theorem under_move (h : t.service.Under settings) {m : Move} (hm : m.isUpdate = false) :
    (t.move m).service.Under settings := by
  have hmoved := moved_move t m
  refine ⟨?_, ?_, hmoved.coherent h.coherent⟩
  · rw [hmoved.fittings_eq]
    exact h.resolver_eq
  · rw [live_of_moved hmoved hm]
    exact h.settings_eq

theorem under_moves (h : t.service.Under settings) {ms : List Move} (hms : ∀ m ∈ ms, m.isUpdate = false) :
    (t.moves ms).service.Under settings := by
  induction ms generalizing t with
  | nil => exact h
  | cons m rest ih =>
      obtain ⟨hm, hrest⟩ := List.forall_mem_cons.1 hms
      exact ih (under_move h hm) hrest

/-- A request has its turn in both runs: what it comes to, for the services and for the requests in its place. -/
theorem Paired.push (h : Paired settings t t') (hr : t.requests[i]? = some r) (hr' : t'.requests[i]? = some r') :
    Twin settings (t.service.push 5 r).2 (t'.service.push 5 r').2 ∧
      (t.service.push 5 r).2.locks.Idle ∧ (t'.service.push 5 r').2.locks.Idle ∧
      (t.service.push 5 r).1.SameDemand settings (t'.service.push 5 r').1 ∧
      (t.service.push 5 r).1.isSettled = true ∧ (t'.service.push 5 r').1.isSettled = true ∧
      (t'.service.push 5 r').1.decision? = (t.service.push 5 r).1.decision? := by
  obtain ⟨hdemand, ⟨hstage, hstage'⟩ | ⟨hsettled, hsettled', hdecision⟩⟩ := h.alike i r r' hr hr'
  · obtain ⟨htwin, hsame⟩ := h.twin.push h.under h.idle h.idle' hdemand hstage hstage'
    have hserves := push_of_arriving hstage h.idle
    have hserves' := push_of_arriving hstage' h.idle'
    exact ⟨htwin, hserves.idle, hserves'.idle, hdemand.of_key_eq hserves.key_eq hserves'.key_eq, hserves.settled,
      hserves'.settled, hsame⟩
  · obtain ⟨hservice, hkey, hserved, hsame⟩ := push_of_settled 5 t.service hsettled
    obtain ⟨hservice', hkey', hserved', hsame'⟩ := push_of_settled 5 t'.service hsettled'
    rw [hservice, hservice', hsame, hsame']
    exact ⟨h.twin, h.idle, h.idle', hdemand.of_key_eq hkey hkey', hserved, hserved', hdecision⟩

theorem Paired.serve (h : Paired settings t t') (i : Nat) :
    Paired settings (t.moves (Turn.serve i).moves) (t'.moves (Turn.serve i).moves) := by
  have hunder : (t.moves (Turn.serve i).moves).service.Under settings :=
    under_moves h.under (isUpdate_of_mem_moves rfl)
  unfold Turn.moves at hunder ⊢
  dsimp only at hunder ⊢
  cases hr : t.requests[i]? with
  | none =>
      have hr' : t'.requests[i]? = none := by
        rw [List.getElem?_eq_none_iff, h.length_eq]
        exact List.getElem?_eq_none_iff.1 hr
      rw [moves_replicate_of_none hr, moves_replicate_of_none hr']
      exact h
  | some r =>
      have hlt : i < t'.requests.length := by
        rw [h.length_eq]
        exact (List.getElem?_eq_some_iff.1 hr).1
      have hr' := List.getElem?_eq_getElem hlt
      obtain ⟨htwin, hidle, hidle', hdemand, hsettled, hsettled', hdecision⟩ := h.push hr hr'
      rw [moves_replicate hr] at hunder ⊢
      rw [moves_replicate hr']
      refine ⟨hunder, htwin, hidle, hidle', ?_, ?_⟩
      · rw [List.length_set, List.length_set, h.length_eq]
      · intro j x x' hx hx'
        rcases getElem?_set_cases hx with ⟨hj, rfl⟩ | ⟨hj, hold⟩
        · rcases getElem?_set_cases hx' with ⟨-, rfl⟩ | ⟨hj', -⟩
          · exact ⟨hdemand, .inr ⟨hsettled, hsettled', hdecision⟩⟩
          · exact absurd hj hj'
        · rcases getElem?_set_cases hx' with ⟨hj', -⟩ | ⟨-, hold'⟩
          · exact absurd hj' hj
          · exact h.alike j x x' hold hold'

/-- Something else happens in both runs. -/
theorem Paired.happen (h : Paired settings t t') {e : Event} (he : (Turn.happen e).isUpdate = false) :
    Paired settings (t.moves (Turn.happen e).moves) (t'.moves (Turn.happen e).moves) := by
  have hupdate : ∀ other, e ≠ .update other := by
    rintro other rfl
    cases he
  refine ⟨under_moves h.under (isUpdate_of_mem_moves he), h.twin.happen hupdate, ?_, ?_, h.length_eq, h.alike⟩
  · show (t.service.happen e).locks.Idle
    rw [locks_happen]
    exact h.idle
  · show (t'.service.happen e).locks.Idle
    rw [locks_happen]
    exact h.idle'

theorem Paired.turn (h : Paired settings t t') {turn : Turn} (hturn : turn.isUpdate = false) :
    Paired settings (t.moves turn.moves) (t'.moves turn.moves) := by
  cases turn with
  | serve i => exact h.serve i
  | happen e => exact h.happen hturn

/-- **Turn by turn the two runs stay paired.** -/
theorem paired_turns (h : Paired settings t t') {ts : List Turn} (hts : ∀ turn ∈ ts, turn.isUpdate = false) :
    Paired settings (t.turns ts) (t'.turns ts) := by
  induction ts generalizing t t' with
  | nil => exact h
  | cons turn rest ih =>
      obtain ⟨hturn, hrest⟩ := List.forall_mem_cons.1 hts
      rw [turns_cons, turns_cons]
      exact ih (h.turn hturn) hrest

/-! ### Whoever had a turn is decided -/

theorem Paired.isSettled_serve (h : Paired settings t t') (hi : i < t.requests.length) :
    ∃ r, (t.moves (Turn.serve i).moves).requests[i]? = some r ∧ r.isSettled = true := by
  have hi' : i < t'.requests.length := h.length_eq ▸ hi
  obtain ⟨-, -, -, -, hsettled, -⟩ := h.push (List.getElem?_eq_getElem hi) (List.getElem?_eq_getElem hi')
  refine ⟨_, ?_, hsettled⟩
  unfold Turn.moves
  dsimp only
  rw [moves_replicate (List.getElem?_eq_getElem hi)]
  exact List.getElem?_set_self hi

/-- Whoever is settled stays settled in the turns of others, and in its own. -/
theorem Paired.isSettled_turn (h : Paired settings t t') (hr : t.requests[i]? = some r) (hsettled : r.isSettled = true)
    (turn : Turn) : ∃ r', (t.moves turn.moves).requests[i]? = some r' ∧ r'.isSettled = true := by
  cases turn with
  | happen event => exact ⟨r, hr, hsettled⟩
  | serve j =>
      by_cases hij : j = i
      · subst hij
        exact h.isSettled_serve (List.getElem?_eq_some_iff.1 hr).1
      · refine ⟨r, ?_, hsettled⟩
        unfold Turn.moves
        dsimp only
        cases hother : t.requests[j]? with
        | none =>
            rw [moves_replicate_of_none hother]
            exact hr
        | some x =>
            rw [moves_replicate hother]
            exact (List.getElem?_set_ne hij).trans hr

theorem Paired.isSettled_turns (h : Paired settings t t') (hr : t.requests[i]? = some r)
    (hsettled : r.isSettled = true) {ts : List Turn} (hts : ∀ turn ∈ ts, turn.isUpdate = false) :
    ∃ r', (t.turns ts).requests[i]? = some r' ∧ r'.isSettled = true := by
  induction ts generalizing t t' r with
  | nil => exact ⟨r, hr, hsettled⟩
  | cons turn rest ih =>
      obtain ⟨hturn, hrest⟩ := List.forall_mem_cons.1 hts
      obtain ⟨r', hr', hsettled'⟩ := h.isSettled_turn hr hsettled turn
      rw [turns_cons]
      exact ih (h.turn hturn) hr' hsettled' hrest

theorem Paired.isSettled_of_served (h : Paired settings t t') (hi : i < t.requests.length) {ts : List Turn}
    (hts : ∀ turn ∈ ts, turn.isUpdate = false) (hserved : .serve i ∈ ts) :
    ∃ r, (t.turns ts).requests[i]? = some r ∧ r.isSettled = true := by
  induction ts generalizing t t' with
  | nil => cases hserved
  | cons turn rest ih =>
      obtain ⟨hturn, hrest⟩ := List.forall_mem_cons.1 hts
      rw [turns_cons]
      rcases List.mem_cons.1 hserved with rfl | hlater
      · obtain ⟨r, hr, hsettled⟩ := h.isSettled_serve hi
        exact (h.turn hturn).isSettled_turns hr hsettled hrest
      · refine ih (h.turn hturn) ?_ hrest hlater
        cases turn with
        | happen event => exact hi
        | serve j =>
            cases hother : t.requests[j]? with
            | none =>
                unfold Turn.moves
                dsimp only
                rw [moves_replicate_of_none hother]
                exact hi
            | some x =>
                unfold Turn.moves
                dsimp only
                rw [moves_replicate hother, List.length_set]
                exact hi

theorem exists_decision_of_isSettled (h : r.isSettled = true) : ∃ decision, r.decision? = some decision := by
  unfold Request.decision?
  cases hstage : r.stage with
  | waiting deadline hint => exact ⟨_, rfl⟩
  | done answer => exact ⟨_, rfl⟩
  | saving client ticket admission strategy => exact ⟨_, rfl⟩
  | throttling verdict strategy => exact ⟨_, rfl⟩
  | _ => simp [Request.isSettled, Request.answer?, Request.deadline?, hstage] at h

/-! ### Endpoints with one algorithm -/

theorem settings_build {fittings : Fittings} {sleeper : Sleeper} {given : Option Breaker} {stores : Stores}
    {clock : Clock} (h : Service.build settings fittings sleeper given stores clock = .ok s) :
    s.live.current.settings = settings := by
  unfold Service.build LiveSettings.start LiveSettings.accept at h
  split at h
  · cases h
  · split at h
    · cases h
    · rename_i hstart
      obtain rfl := Except.ok.inj h
      split at hstart
      · cases hstart
      · rename_i haccept
        split at haccept
        · cases haccept
        · rename_i hvalidate
          split at haccept
          · cases haccept
          · obtain ⟨rfl, -⟩ := Prod.mk.inj (Except.ok.inj haccept)
            obtain ⟨rfl, -⟩ := Prod.mk.inj (Except.ok.inj hstart)
            exact (Settings.validate_eq_ok_iff.1 hvalidate).2

/-- Requests that are for endpoints with one algorithm, come to one service. -/
theorem paired_start {fittings : Fittings} {sleeper : Sleeper} {given : Option Breaker} {stores : Stores}
    {clock : Clock} (hbuild : Service.build settings fittings sleeper given stores clock = .ok s)
    (hresolver : fittings.resolver = .settings) {requests requests' : List (String × String)}
    (hrequests : List.Forall₂ (fun a b => b.2 = a.2 ∧ (b.1 = a.1 ∨
      settings.algorithmFor b.1 = settings.algorithmFor a.1 ∧ settings.algorithmFor a.1 ≠ .quota)) requests requests') :
    Paired settings (start s requests) (start s requests') := by
  obtain ⟨hlocks, hcoherent⟩ := frame_build hbuild
  have hidle : s.locks.Idle := hlocks ▸ RecordLocks.idle_empty
  have hunder : s.Under settings :=
    ⟨(congrArg Fittings.resolver (fittings_build hbuild)).trans hresolver, settings_build hbuild, hcoherent⟩
  obtain ⟨hlength, halike⟩ := List.forall₂_iff_get.1 hrequests
  refine ⟨hunder, ⟨rfl, fun _ _ => rfl⟩, hidle, hidle, ?_, ?_⟩
  · simp [start, hlength]
  · intro i r r' hr hr'
    unfold start at hr hr'
    rw [List.getElem?_map] at hr hr'
    obtain ⟨a, ha, rfl⟩ := Option.map_eq_some_iff.1 hr
    obtain ⟨b, hb, rfl⟩ := Option.map_eq_some_iff.1 hr'
    obtain ⟨hi, rfl⟩ := List.getElem?_eq_some_iff.1 ha
    obtain ⟨hi', rfl⟩ := List.getElem?_eq_some_iff.1 hb
    obtain ⟨hclient, hendpoint⟩ := halike i hi hi'
    exact ⟨⟨hclient, hendpoint⟩, .inl ⟨rfl, rfl⟩⟩

/-- **A limit is shared by all endpoints of an algorithm.**  Requests come to a service with fixed settings, which are
also where policies come from, and are served one at a time; between them the clock moves, clients are swept, exempted
and promoted, callers go on waiting or no longer, and whatever else may happen.  If some of the requests are for other
endpoints instead, which have the same algorithm, and that is no quota, then

* every decision is the same, with the hint of a denial;
* so are the breaker and all limiters, at any time;
* and every request that has had its turn is decided. -/
theorem endpoints_share_limit {fittings : Fittings} {sleeper : Sleeper} {given : Option Breaker} {stores : Stores}
    {clock : Clock} (hbuild : Service.build settings fittings sleeper given stores clock = .ok s)
    (hresolver : fittings.resolver = .settings) {requests requests' : List (String × String)}
    (hrequests : List.Forall₂ (fun a b => b.2 = a.2 ∧ (b.1 = a.1 ∨
      settings.algorithmFor b.1 = settings.algorithmFor a.1 ∧ settings.algorithmFor a.1 ≠ .quota)) requests requests')
    (ts : List Turn) (hts : ∀ turn ∈ ts, turn.isUpdate = false) :
    let t := (start s requests).turns ts
    let t' := (start s requests').turns ts
    t'.requests.map Request.decision? = t.requests.map Request.decision? ∧
      t'.service.breaker = t.service.breaker ∧ t'.service.limiters = t.service.limiters ∧
      ∀ i < requests.length, .serve i ∈ ts →
        ∃ r decision, t.requests[i]? = some r ∧ r.decision? = some decision := by
  intro t t'
  have hstart := paired_start hbuild hresolver hrequests
  have hpaired : Paired settings t t' := paired_turns hstart hts
  refine ⟨?decisions, ?breaker, ?limiters, ?decided⟩
  case breaker => exact congrArg (·.breaker) hpaired.twin.bare_eq
  case limiters => exact congrArg (·.limiters) hpaired.twin.bare_eq
  case decisions =>
    refine List.ext_getElem (by simp [hpaired.length_eq]) ?_
    intro i hi' hi
    rw [List.length_map] at hi hi'
    rw [List.getElem_map, List.getElem_map]
    obtain ⟨-, ⟨hstage, hstage'⟩ | ⟨-, -, hdecision⟩⟩ :=
      hpaired.alike i _ _ (List.getElem?_eq_getElem hi) (List.getElem?_eq_getElem hi')
    · unfold Request.decision?
      rw [hstage, hstage']
    · exact hdecision
  case decided =>
    intro i hi hserved
    have hlength : i < (start s requests).requests.length := by
      simp [start, hi]
    obtain ⟨r, hr, hsettled⟩ := hstart.isSettled_of_served hlength hts hserved
    obtain ⟨decision, hdecision⟩ := exists_decision_of_isSettled hsettled
    exact ⟨r, decision, hr, hdecision⟩

/-- The press opens.  There is one window for all endpoints. -/
def printing : Service := { opening with live := ⟨⟨1, press⟩, []⟩ }

/-- Ann asks for a paper twice, and Bob does. -/
def readers : List (String × String) := [("paper", "ann"), ("paper", "ann"), ("paper", "bob")]

/-- The same, but in the end both ask for a ticket. -/
def travellers : List (String × String) := [("paper", "ann"), ("ticket", "ann"), ("ticket", "bob")]

/-- One after another, with a sweep in between. -/
def queue : List Turn := [.serve 0, .happen (.move (.advance (.ofMillis 10))), .serve 1, .happen .sweep, .serve 2]

/-- Ann's paper counts against her ticket, as it does against a second paper. -/
theorem paper_counts_against_ticket :
    ((start printing travellers).turns queue).requests.map Request.decision? =
        [some (.ok .allowed), some (.ok (.denied (.ofMillis 990))), some (.ok .allowed)] ∧
      ((start printing travellers).turns queue).service.breaker.failures = 0 := by
  have hbuild : Service.build press .standard .tracking none .empty ⟨1000⟩ = .ok printing := rfl
  have hrequests : List.Forall₂ (fun a b => b.2 = a.2 ∧ (b.1 = a.1 ∨
      press.algorithmFor b.1 = press.algorithmFor a.1 ∧ press.algorithmFor a.1 ≠ .quota)) readers travellers :=
    .cons ⟨rfl, .inl rfl⟩ (.cons ⟨rfl, .inr (by decide)⟩ (.cons ⟨rfl, .inr (by decide)⟩ .nil))
  obtain ⟨hdecisions, hbreaker, -⟩ := endpoints_share_limit hbuild rfl hrequests queue (by decide)
  rw [hdecisions, hbreaker]
  exact ⟨rfl, rfl⟩

end Traffic
end Service
end AdmissionControl
