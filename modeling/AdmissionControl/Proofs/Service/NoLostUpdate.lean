import AdmissionControl.Proofs.Service.Decisions
import AdmissionControl.Proofs.Service.SavedRecords

/-!
# No update is lost

What the chain of saved records says about the numbers in them.

* `Kept.requests_eq` — the count of requests grows by one with each save.
* `Kept.quotaUsed_eq`, `Kept.countP_le` — along a chain of admissions against a quota, the record has used as
  much as was saved since its last reset, and between two resets no more is saved than the quota allows.
* `Traffic.accounts_balance` — **in every run of a service**, whatever requests meet and whatever happens in
  between: requests for one record take turns, its count grows by the number of requests that were allowed, and
  its quota is spent by them one unit each.
-/

namespace AdmissionControl
namespace Service

/-! ## Numbers along a chain -/

/-- The number of requests that a stored record counts. -/
def requestsOf (stored : Option Record) : Nat := stored.elim 0 Record.requests

/-- What a stored record has used since the given reset. -/
def usedSince (stored : Option Record) (reset : Nat) : Nat :=
  match stored with
  | some record => if record.lastReset = reset then record.quotaUsed else 0
  | none => 0

/-- The number of saves in the period that began with the given reset. -/
def savedSince (saves : List Record) (reset : Nat) : Nat :=
  saves.countP fun record => record.lastReset = reset

namespace Kept

variable {follows : Record → Record → Prop} {client : String} {before after : Option Record}
  {saves : List Record} {limit : Nat}

/-- **The count of a record grows by one with each save**, up to the largest word. -/
theorem requests_eq (h : Kept follows client before saves after)
    (hfollows : ∀ stored admitted, follows stored admitted → admitted.requests = stored.requests)
    (hword : requestsOf before ≤ Word.max) :
    requestsOf after = Word.saturate (requestsOf before + saves.length) := by
  induction h with
  | nil stored => exact (Word.saturate_of_le hword).symm
  | made time h ih => exact ih (Nat.zero_le _)
  | @saved stored admitted saves last hlink h ih =>
      have hcount : requestsOf (some admitted.countRequest) = Word.saturate (stored.requests + 1) :=
        congrArg (fun n => Word.saturate (n + 1)) (hfollows stored admitted hlink)
      rw [ih (hcount ▸ Word.saturate_le _), hcount, List.length_cons]
      show Word.saturate (Word.saturate (stored.requests + 1) + saves.length) =
        Word.saturate (stored.requests + (saves.length + 1))
      simp only [Word.saturate]
      omega

/-- Along a chain of admissions against a quota, resets come later and later. -/
theorem lastReset_le (h : Kept follows client before saves after)
    (hspends : ∀ stored admitted, follows stored admitted → Quota.Spends limit stored admitted) :
    ∀ stored ∈ before, (∀ saved ∈ saves, stored.lastReset ≤ saved.lastReset) ∧
      ∀ record ∈ after, stored.lastReset ≤ record.lastReset := by
  induction h with
  | nil stored =>
      intro record hrecord
      refine ⟨List.forall_mem_nil _, ?_⟩
      intro other hother
      exact Nat.le_of_eq (congrArg Record.lastReset (Option.mem_unique hrecord hother))
  | made time h ih =>
      intro record hrecord
      exact absurd hrecord (by simp)
  | @saved stored admitted saves last hlink h ih =>
      intro record hrecord
      obtain rfl := Option.some.inj hrecord
      obtain ⟨hsaves, hlast⟩ := ih admitted.countRequest rfl
      have hstep : stored.lastReset ≤ admitted.countRequest.lastReset := by
        rcases (hspends stored admitted hlink).uses with ⟨hsame, -⟩ | ⟨hlater, -⟩
        · exact Nat.le_of_eq hsame.symm
        · exact Nat.le_of_lt hlater
      refine ⟨?_, ?_⟩
      · intro saved hsaved
        rcases List.mem_cons.1 hsaved with rfl | hrest
        · exact hstep
        · exact Nat.le_trans hstep (hsaves saved hrest)
      · intro record hrecord
        exact Nat.le_trans hstep (hlast record hrecord)

theorem pairwise_lastReset (h : Kept follows client before saves after)
    (hspends : ∀ stored admitted, follows stored admitted → Quota.Spends limit stored admitted) :
    (saves.map Record.lastReset).Pairwise (· ≤ ·) := by
  induction h with
  | nil stored => exact .nil
  | made time h ih => exact ih
  | @saved stored admitted saves last hlink h ih =>
      refine List.Pairwise.cons ?_ ih
      intro reset hreset
      obtain ⟨saved, hsaved, rfl⟩ := List.mem_map.1 hreset
      exact (h.lastReset_le hspends _ rfl).1 saved hsaved

theorem savedSince_cons (record : Record) (saves : List Record) (reset : Nat) :
    savedSince (record :: saves) reset = savedSince saves reset + if record.lastReset = reset then 1 else 0 := by
  rw [savedSince, List.countP_cons, savedSince]
  simp only [decide_eq_true_eq]

/-- What a record has used and what is saved next add up to what the next record has used. -/
theorem usedSince_add_one {stored admitted : Record} (h : Quota.Spends limit stored admitted) {reset : Nat}
    (hlate : admitted.lastReset ≤ reset) :
    usedSince (some stored) reset + (if admitted.lastReset = reset then 1 else 0) =
      usedSince (some admitted.countRequest) reset := by
  show (if stored.lastReset = reset then stored.quotaUsed else 0) + _ =
    if admitted.lastReset = reset then admitted.quotaUsed else 0
  rcases h.uses with ⟨hsame, hused⟩ | ⟨hlater, hused⟩
  · rw [hsame, hused]
    split
    · rfl
    · rfl
  · rw [if_neg (Nat.ne_of_lt (Nat.lt_of_lt_of_le hlater hlate)), hused, Nat.zero_add]

/-- **A record has used as much of its quota as was saved since its last reset.** -/
theorem quotaUsed_eq (h : Kept follows client before saves after)
    (hspends : ∀ stored admitted, follows stored admitted → Quota.Spends limit stored admitted) :
    ∀ record ∈ after, record.quotaUsed = usedSince before record.lastReset + savedSince saves record.lastReset := by
  induction h with
  | nil stored =>
      intro record hrecord
      obtain rfl : stored = some record := hrecord
      exact (if_pos rfl).symm
  | made time h ih =>
      intro record hrecord
      rw [ih record hrecord]
      -- a new record has used nothing
      show (if time = record.lastReset then 0 else 0) + _ = 0 + _
      rw [ite_self]
  | @saved stored admitted saves last hlink h ih =>
      intro record hrecord
      have hlate := (h.lastReset_le hspends _ rfl).2 record hrecord
      rw [ih record hrecord, ← usedSince_add_one (hspends stored admitted hlink) hlate, savedSince_cons,
        Nat.add_assoc, Nat.add_comm (savedSince saves record.lastReset)]
      rfl

/-- **Between two resets no more is saved than the quota has left.** -/
theorem savedSince_le (h : Kept follows client before saves after)
    (hspends : ∀ stored admitted, follows stored admitted → Quota.Spends limit stored admitted) (reset : Nat) :
    savedSince saves reset ≤ limit - usedSince before reset := by
  induction h with
  | nil stored => exact Nat.zero_le _
  | made time h ih =>
      refine Nat.le_trans ih (Nat.le_of_eq ?_)
      show limit - (if time = reset then 0 else 0) = limit - 0
      rw [ite_self]
  | @saved stored admitted saves last hlink h ih =>
      rw [savedSince_cons]
      have hspend := hspends stored admitted hlink
      have hle := hspend.le_limit
      by_cases hlate : admitted.lastReset ≤ reset
      · have hsum := usedSince_add_one hspend hlate
        change savedSince saves reset + (if admitted.lastReset = reset then 1 else 0) ≤ _
        have hused : usedSince (some admitted.countRequest) reset ≤ limit := by
          show (if admitted.lastReset = reset then admitted.quotaUsed else 0) ≤ limit
          split
          · exact hle
          · exact Nat.zero_le _
        omega
      · -- the period was over before the first save
        have hnone : savedSince saves reset = 0 := by
          rw [savedSince, List.countP_eq_zero]
          intro saved hsaved
          have hlater := (h.lastReset_le hspends _ rfl).1 saved hsaved
          rw [decide_eq_true_eq]
          rintro rfl
          exact hlate hlater
        have hother : admitted.countRequest.lastReset ≠ reset := by
          rintro rfl
          exact hlate (Nat.le_refl _)
        rw [hnone, if_neg hother]
        exact Nat.zero_le _

end Kept

/-! ## Before and after a run -/

/-- Whether a request has been answered that it may go on. -/
def Request.isAllowed (r : Request) : Bool :=
  match r.answer? with
  | some (.ok verdict) => verdict.isAllowed
  | some (.error _) | none => false

theorem Request.exists_done {r : Request} (h : r.answer?.isSome = true) : ∃ answer, r.stage = .done answer := by
  rw [Request.answer?] at h
  split at h
  · rename_i answer hstage
    exact ⟨answer, hstage⟩
  · exact absurd h Bool.false_ne_true

/-- A request that has its answer was admitted if and only if the answer says so. -/
theorem isAdmitted_of_answered {r : Request} (h : r.answer?.isSome = true) : r.isAdmitted = r.isAllowed := by
  obtain ⟨answer, hstage⟩ := Request.exists_done h
  rw [Request.isAdmitted, Request.isAllowed, Request.answer?, hstage]
  cases answer with
  | ok verdict => rfl
  | error error => rfl

namespace Traffic

variable {t : Traffic} {m : Move} {ms : List Move} {key : RecordKey}

/-- Every request has its answer. -/
def Quiescent (t : Traffic) : Prop := ∀ r ∈ t.requests, r.answer?.isSome = true

instance (t : Traffic) : Decidable t.Quiescent :=
  inferInstanceAs (Decidable (∀ r ∈ t.requests, r.answer?.isSome = true))

/-- The number of requests for a record that have been answered that they may go on. -/
def allowed (t : Traffic) (key : RecordKey) : Nat :=
  t.requests.countP fun r => r.key = key && r.isAllowed

theorem admitted_of_quiescent (h : t.Quiescent) (key : RecordKey) : t.admitted key = t.allowed key := by
  rw [admitted, allowed]
  refine List.countP_congr ?_
  intro r hr
  rw [isAdmitted_of_answered (h r hr)]

theorem request_of_start {s : Service} {requests : List (String × String)} {i : Nat} {r : Request}
    (hr : (start s requests).requests[i]? = some r) : r.stage = .arriving := by
  obtain ⟨request, -, rfl⟩ := List.mem_map.1 (List.mem_of_getElem? hr)
  rfl

theorem admitted_start (s : Service) (requests : List (String × String)) (key : RecordKey) :
    (start s requests).admitted key = 0 := by
  rw [admitted, List.countP_eq_zero]
  intro r hr
  obtain ⟨request, -, rfl⟩ := List.mem_map.1 hr
  rw [Bool.and_eq_true]
  rintro ⟨-, hadmitted⟩
  exact Bool.false_ne_true hadmitted

/-- At the start nothing is about to be saved. -/
theorem faithful_start (follows : RecordKey → Record → Record → Prop) (s : Service)
    (requests : List (String × String)) : Faithful follows (start s requests) := by
  intro i r admission hr hpending
  rw [Request.pending?, request_of_start hr] at hpending
  exact absurd hpending.symm (Option.some_ne_none admission)

/-- Where no request is between load and save of a record, there is nothing to be said of this record. -/
theorem Faithful.of_idle {follows : RecordKey → Record → Record → Prop} {spends : Record → Record → Prop}
    (h : Faithful follows t) (hidle : ∀ r ∈ t.requests, r.key = key → r.isAtRepository = false) :
    Faithful (fun k stored admitted => k = key → spends stored admitted) t := by
  intro i r admission hr hpending
  obtain ⟨hallowed, stored, hstored, -⟩ := h i r admission hr hpending
  refine ⟨hallowed, stored, hstored, ?_⟩
  intro hkey
  have houtside := hidle r (List.mem_of_getElem? hr) hkey
  exact absurd (houtside.symm.trans (isAtRepository_of_pending? hpending)) Bool.false_ne_true

/-! ## Decisions along a run -/

/-- A decision counts no request by itself. -/
theorem decidesAlong_requests (t : Traffic) (ms : List Move) :
    DecidesAlong (fun _ stored admitted => admitted.requests = stored.requests) t ms := by
  induction ms generalizing t with
  | nil => trivial
  | cons m rest ih =>
      refine ⟨?_, ih (t.move m)⟩
      intro i r client ticket admission strategy s' _ _ _ hdecision _
      exact hdecision.requests_eq

/-- Whether a move changes the settings. -/
def Move.isUpdate : Move → Bool
  | .happen (.update _) => true
  | .happen _ | .advance _ => false

theorem live_of_moved {t' : Traffic} (h : Moved t m t') (hupdate : m.isUpdate = false) :
    t'.service.live = t.service.live := by
  cases h with
  | stays hstays => rfl
  | advances hr hadvance =>
      cases hadvance with
      | fails hstage hdecision => exact hdecision.frame.2.2
      | admits hstage hdecision hallowed => exact hdecision.frame.2.2
      | denies hstage hdecision hdenied => exact hdecision.frame.2.2
      | joins hstage => rfl
      | enters hstage hholds => rfl
      | saves hstage => rfl
      | leaves hstage hseat => rfl
      | waits hstage hseat => rfl
      | wakes hstage hfault => rfl
  | @happens event =>
      cases event with
      | update settings => exact absurd hupdate.symm Bool.false_ne_true
      | move move => rfl
      | sweep => rfl
      | breaker event => rfl
      | room room => rfl
      | directory directory => rfl
      | exemptions exemptions => rfl

/-- Whether the client of a request for a record has a limit when a move decides the request. -/
def meters (t : Traffic) (key : RecordKey) : Move → Bool
  | .advance index =>
      match t.requests[index]? with
      | none => true
      | some r =>
          match r.stage with
          | .loading client _ => r.key != key || t.service.limits r.endpoint client
          | .arriving | .queued .. | .saving .. | .throttling .. | .waiting .. | .done .. => true
  | .happen _ => true

/-- Whether all decisions about a record along a run are about a client with a limit. -/
def metersAlong (key : RecordKey) : Traffic → List Move → Bool
  | _, [] => true
  | t, m :: rest => t.meters key m && metersAlong key (t.move m) rest

/-- On an endpoint with a quota, the decisions along a run spend from the quota. -/
theorem decidesAlong_spends {settings : Settings} (ht : t.service.Coherent)
    (hlive : t.service.live.current.settings = settings) (hquota : settings.algorithmFor key.endpoint = .quota)
    (hfixed : ∀ m ∈ ms, m.isUpdate = false) (hmeters : t.metersAlong key ms = true) :
    DecidesAlong (fun k stored admitted => k = key →
      Quota.Spends settings.quotaLimit.toNat stored admitted) t ms := by
  induction ms generalizing t with
  | nil => trivial
  | cons m rest ih =>
      obtain ⟨hm, hrest⟩ := List.forall_mem_cons.1 hfixed
      rw [metersAlong, Bool.and_eq_true] at hmeters
      have hmoved := moved_move t m
      refine ⟨?_, ih (hmoved.coherent ht) ?_ hrest hmeters.2⟩
      · intro i r client ticket admission strategy s' hmove hr hstage hdecision hallowed hkey
        subst hkey
        have hlimits : t.service.limits r.endpoint client = true := by
          have hmetered := hmeters.1
          rw [hmove, meters, hr] at hmetered
          dsimp only at hmetered
          rw [hstage] at hmetered
          rcases Bool.or_eq_true_iff.1 hmetered with hother | hlimits
          · exact absurd rfl (bne_iff_ne.1 hother)
          · exact hlimits
        subst hlive
        exact hdecision.spends ht hquota hlimits hallowed
      · rw [live_of_moved hmoved hm, hlive]

/-! ## Accounts -/

/-- A new service holds no locks and has made no limiters. -/
theorem frame_build {settings : Settings} {fittings : Fittings} {sleeper : Sleeper} {given : Option Breaker}
    {stores : Stores} {clock : Clock} {s : Service}
    (h : Service.build settings fittings sleeper given stores clock = .ok s) :
    s.locks = RecordLocks.empty ∧ s.Coherent := by
  rw [Service.build] at h
  split at h
  · exact absurd h (by simp)
  · split at h
    · exact absurd h (by simp)
    · obtain rfl := Except.ok.inj h
      exact ⟨rfl, Limiters.madeFrom_empty _⟩

/-- **No update is lost.**  Requests come to a service, with any settings and any stores, and move in any order,
with anything else happening in between.  Then, for each record:

* at any time at most one request is between load and save;
* its count, a word of sixty-four bits that stops at the largest one, has grown by the number of requests that
  were admitted, and by exactly this number as long as it fits the word; once all requests have their answers,
  these are the requests that were allowed;
* from any time at which nobody is between load and save of the record, while the settings stay as they are and
  its endpoint has a quota under them, and as long as the requests for it are decided for a client that has a
  limit: one request is admitted for each save; the quota that the record has used is the number of saves since
  its last reset, together with what it had used since then before; resets come later and later; and between
  two of them no more is saved than the quota had left. -/
theorem accounts_balance {settings : Settings} {fittings : Fittings} {sleeper : Sleeper}
    {given : Option Breaker} {stores : Stores} {clock : Clock} {s : Service}
    (hbuild : Service.build settings fittings sleeper given stores clock = .ok s)
    (requests : List (String × String)) (early late : List Move) (key : RecordKey) :
    let t := (start s requests).moves early
    let last := t.moves late
    let quota := t.service.live.current.settings.quotaLimit.toNat
    (∀ (i j : Nat) (r r' : Request), t.requests[i]? = some r → t.requests[j]? = some r' →
      r.isAtRepository = true → r'.isAtRepository = true → r.key = r'.key → i = j) ∧
    (requestsOf (s.stored? key) ≤ Word.max →
      requestsOf (t.service.stored? key) = Word.saturate (requestsOf (s.stored? key) + t.admitted key)) ∧
    (requestsOf (s.stored? key) + t.admitted key ≤ Word.max →
      requestsOf (t.service.stored? key) = requestsOf (s.stored? key) + t.admitted key) ∧
    (t.Quiescent → t.admitted key = t.allowed key) ∧
    (t.service.live.current.settings.algorithmFor key.endpoint = .quota →
      (∀ r ∈ t.requests, r.key = key → r.isAtRepository = false) →
      (∀ m ∈ late, m.isUpdate = false) →
      t.metersAlong key late = true →
      last.admitted key = t.admitted key + (t.saves key late).length ∧
        (last.Quiescent → last.admitted key = last.allowed key) ∧
        (∀ record ∈ last.service.stored? key,
          record.quotaUsed = usedSince (t.service.stored? key) record.lastReset +
            savedSince (t.saves key late) record.lastReset) ∧
        ((t.saves key late).map Record.lastReset).Pairwise (· ≤ ·) ∧
        ∀ reset, savedSince (t.saves key late) reset ≤ quota - usedSince (t.service.stored? key) reset) := by
  intro t last quota
  obtain ⟨hlocks, hcoherent⟩ := frame_build hbuild
  have horderly := orderly_moves (orderly_start hlocks requests) early
  have hrequests := decidesAlong_requests (start s requests) early
  have hstart := faithful_start (fun _ stored admitted => admitted.requests = stored.requests) s requests
  have hfaithful := faithful_moves hstart (orderly_start hlocks requests) hrequests
  have hadmitted := admitted_moves hstart (orderly_start hlocks requests) hrequests key
  rw [admitted_start, Nat.zero_add] at hadmitted
  have hcount : requestsOf (s.stored? key) ≤ Word.max →
      requestsOf (t.service.stored? key) = Word.saturate (requestsOf (s.stored? key) + t.admitted key) := by
    intro hword
    have hkept := kept_moves hstart (orderly_start hlocks requests) hrequests key
    rw [hadmitted]
    exact hkept.requests_eq (fun _ _ hfollows => hfollows) hword
  refine ⟨?_, hcount, ?_, ?_, ?_⟩
  · intro i j r r' hr hr' hinside hinside' hkey
    exact horderly.eq_of_inside hr hr' hinside hinside' hkey
  · intro hword
    rw [hcount (Nat.le_trans (Nat.le_add_right _ _) hword)]
    exact Word.saturate_of_le hword
  · intro hquiescent
    exact admitted_of_quiescent hquiescent key
  · intro hquota hidle hfixed hmeters
    have hspends := decidesAlong_spends (coherent_moves hcoherent early) rfl hquota hfixed hmeters
    have hready : Faithful (fun k stored admitted => k = key → Quota.Spends quota stored admitted) t :=
      hfaithful.of_idle hidle
    have hkept := kept_moves hready horderly hspends key
    have hlink : ∀ stored admitted, (key = key → Quota.Spends quota stored admitted) →
        Quota.Spends quota stored admitted := fun stored admitted h => h rfl
    refine ⟨admitted_moves hready horderly hspends key, ?_, ?_, ?_, ?_⟩
    · intro hquiescent
      exact admitted_of_quiescent hquiescent key
    · exact hkept.quotaUsed_eq hlink
    · exact hkept.pairwise_lastReset hlink
    · exact hkept.savedSince_le hlink

/-- Two requests a day. -/
def kiosk : Settings := { Settings.standard with defaultAlgorithm := .quota, quotaLimit := 2 }

/-- The service of the kiosk when it opens. -/
def opening : Service where
  fittings := .standard
  live := ⟨⟨1, kiosk⟩, []⟩
  breaker := .fresh ⟨5, .ofMillis 30000⟩
  hasGivenBreaker := false
  limiters := .empty
  strategies := .empty
  room := .start .tracking
  locks := .empty
  stores := .empty
  clock := ⟨1000⟩

/-- Ann asks for a paper four times, and once for a ticket. -/
def callers : List (String × String) :=
  [("paper", "ann"), ("paper", "ann"), ("paper", "ann"), ("paper", "ann"), ("ticket", "ann")]

/-- Three requests for a paper meet.  While the first one is between load and save, the others wait, and the
ticket is loaded and saved.  The third one is denied; the last one comes a day later. -/
def bustle : List Move :=
  ([0, 1, 2, 4, 0, 1, 4, 0, 4, 1, 0, 1, 2, 1, 4, 1, 2, 2, 2].map .advance) ++
    [.happen (.move (.advance Quota.day))] ++ ([3, 3, 3, 3, 3, 0, 1, 4].map .advance)

/-- Ann gets two papers on the first day and one on the next: three requests are counted, and one unit of the
new day's quota is used. -/
theorem papers_balance :
    let key : RecordKey := ⟨"ann", "paper"⟩
    let last := (start opening callers).moves bustle
    last.Quiescent ∧ last.allowed key = 3 ∧ requestsOf (last.service.stored? key) = 3 ∧
      ((start opening callers).saves key bustle).map Record.lastReset = [1000, 1000, 86401000] ∧
      (∀ record ∈ last.service.stored? key, record.lastReset = 86401000 → record.quotaUsed = 1) ∧
      savedSince ((start opening callers).saves key bustle) 1000 ≤ 2 := by
  intro key last
  have hbuild : Service.build kiosk .standard .tracking none .empty ⟨1000⟩ = .ok opening := rfl
  obtain ⟨-, -, hcount, hallowed, -⟩ := accounts_balance hbuild callers bustle [] key
  obtain ⟨-, -, -, -, hquota⟩ := accounts_balance hbuild callers [] bustle key
  obtain ⟨-, -, hused, -, hbound⟩ := hquota rfl (by decide +kernel) (by decide +kernel) (by decide +kernel)
  have hquiescent : last.Quiescent := by decide +kernel
  have hthree : last.allowed key = 3 := by decide +kernel
  rw [hallowed hquiescent, hthree] at hcount
  have hsaves : ((start opening callers).saves key bustle).map Record.lastReset = [1000, 1000, 86401000] := by
    decide +kernel
  refine ⟨hquiescent, hthree, hcount (by decide), hsaves, ?_, hbound 1000⟩
  intro record hrecord hreset
  rw [hused record hrecord, hreset]
  decide +kernel

end Traffic
end Service
end AdmissionControl
