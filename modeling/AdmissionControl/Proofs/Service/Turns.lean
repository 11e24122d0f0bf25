import AdmissionControl.Proofs.Service.Leases
import AdmissionControl.Proofs.Service.Moves

/-!
# Requests for one record take turns

Between the move with which a request takes the lock of its record and the one with which it gives it back, no
other request for this record does the same, whatever else happens in between.

* `Orderly` — the invariant: a request on its way has a lease of its own on its own record, and holds the lock
  from loading to saving.
* `Orderly.moved`, `orderly_moves` — every move keeps it, and so does every run.
* `Orderly.eq_of_inside` — **one request at a time** is between load and save of a record.
-/

namespace AdmissionControl
namespace Service

/-- The ticket of a request that has one. -/
def Request.ticket? (r : Request) : Option Nat :=
  match r.stage with
  | .queued _ ticket => some ticket
  | .loading _ ticket => some ticket
  | .saving _ ticket _ _ => some ticket
  | .arriving | .throttling .. | .waiting .. | .done .. => none

namespace Traffic

/-- Requests take turns. -/
structure Orderly (t : Traffic) : Prop where
  /-- The locks are in order. -/
  sound : t.service.locks.Sound
  /-- A ticket stands for a lease on the record of its request. -/
  leased : ∀ (i : Nat) (r : Request) (ticket : Nat), t.requests[i]? = some r → r.ticket? = some ticket →
    ∃ lease, t.service.locks.find? ticket = some lease ∧ lease.key = r.key
  /-- No two requests have the same ticket. -/
  distinct : ∀ (i j : Nat) (r r' : Request) (ticket : Nat), t.requests[i]? = some r → t.requests[j]? = some r' →
    r.ticket? = some ticket → r'.ticket? = some ticket → i = j
  /-- From loading to saving a request holds the lock. -/
  held : ∀ (i : Nat) (r : Request) (ticket : Nat), t.requests[i]? = some r → r.ticket? = some ticket →
    r.isAtRepository = true → t.service.locks.holds ticket = true

variable {t t' : Traffic} {i j : Nat} {r r' : Request} {s' : Service}

/-- Between load and save a request is about to do the one or the other. -/
theorem stage_of_isAtRepository (h : r.isAtRepository = true) :
    (∃ client ticket, r.stage = .loading client ticket) ∨
      ∃ client ticket admission strategy, r.stage = .saving client ticket admission strategy := by
  rw [Request.isAtRepository] at h
  split at h
  · rename_i client ticket hstage
    exact .inl ⟨client, ticket, hstage⟩
  · rename_i client ticket admission strategy hstage
    exact .inr ⟨client, ticket, admission, strategy, hstage⟩
  · exact absurd h Bool.false_ne_true

theorem ticket?_of_isAtRepository (h : r.isAtRepository = true) : ∃ ticket, r.ticket? = some ticket := by
  rw [Request.ticket?]
  rcases stage_of_isAtRepository h with ⟨client, ticket, hstage⟩ | ⟨client, ticket, admission, strategy, hstage⟩
  · rw [hstage]
    exact ⟨ticket, rfl⟩
  · rw [hstage]
    exact ⟨ticket, rfl⟩

/-- **One request at a time** is between load and save of a record. -/
theorem Orderly.eq_of_inside (h : Orderly t) (hi : t.requests[i]? = some r) (hj : t.requests[j]? = some r')
    (hr : r.isAtRepository = true) (hr' : r'.isAtRepository = true) (hkey : r.key = r'.key) : i = j := by
  obtain ⟨ticket, hticket⟩ := ticket?_of_isAtRepository hr
  obtain ⟨ticket', hticket'⟩ := ticket?_of_isAtRepository hr'
  obtain ⟨lease, hlease, hleasekey⟩ := h.leased i r ticket hi hticket
  obtain ⟨lease', hlease', hleasekey'⟩ := h.leased j r' ticket' hj hticket'
  have hsame : ticket = ticket' := by
    refine h.sound.eq_of_holds hlease hlease' ?_ (h.held i r ticket hi hticket hr)
      (h.held j r' ticket' hj hticket' hr')
    rw [hleasekey, hleasekey', hkey]
  exact h.distinct i j r r' ticket' hi hj (hsame ▸ hticket) hticket'

/-- Before anything has happened, requests take turns. -/
theorem orderly_start {s : Service} (hlocks : s.locks = RecordLocks.empty) (requests : List (String × String)) :
    Orderly (start s requests) := by
  have harriving : ∀ (i : Nat) (r : Request), (start s requests).requests[i]? = some r → r.ticket? = none := by
    intro i r hr
    obtain ⟨request, -, rfl⟩ := List.mem_map.1 (List.mem_of_getElem? hr)
    rfl
  refine ⟨?_, ?_, ?_, ?_⟩
  · rw [start, hlocks]
    exact RecordLocks.sound_empty
  · intro i r ticket hr hticket
    exact absurd (harriving i r hr ▸ hticket) (by simp)
  · intro i j r r' ticket hr _ hticket
    exact absurd (harriving i r hr ▸ hticket) (by simp)
  · intro i r ticket hr hticket
    exact absurd (harriving i r hr ▸ hticket) (by simp)

/-! ## One move -/

/-- What is found in place of a request. -/
theorem getElem?_set_cases {l : List Request} {x y : Request} (h : (l.set i x)[j]? = some y) :
    j = i ∧ y = x ∨ j ≠ i ∧ l[j]? = some y := by
  rw [List.getElem?_set] at h
  by_cases hij : i = j
  · rw [if_pos hij] at h
    split at h
    · exact .inl ⟨hij.symm, (Option.some.inj h).symm⟩
    · exact absurd h (by simp)
  · rw [if_neg hij] at h
    exact .inr ⟨Ne.symm hij, h⟩

/-- A request moves, and the locks are kept for everybody else.  What remains to be said is about its own
ticket. -/
theorem Orderly.set (h : Orderly t) (hr : t.requests[i]? = some r) {gone : Option Nat}
    (hkeeps : t.service.locks.Keeps s'.locks gone)
    (hgone : ∀ ticket : Nat, gone = some ticket → r.ticket? = some ticket)
    (hleased : ∀ ticket, r'.ticket? = some ticket →
      ∃ lease, s'.locks.find? ticket = some lease ∧ lease.key = r'.key)
    (hdistinct : ∀ ticket, r'.ticket? = some ticket → ∀ (j : Nat) (r'' : Request), j ≠ i →
      t.requests[j]? = some r'' → r''.ticket? ≠ some ticket)
    (hheld : ∀ ticket, r'.ticket? = some ticket → r'.isAtRepository = true → s'.locks.holds ticket = true) :
    Orderly ⟨s', t.requests.set i r'⟩ := by
  -- nobody else has the ticket that is given back
  have hother : ∀ (j : Nat) (r'' : Request) (ticket : Nat), j ≠ i → t.requests[j]? = some r'' →
      r''.ticket? = some ticket → gone ≠ some ticket := by
    intro j r'' ticket hj hr'' hticket hgive
    exact hj (h.distinct j i r'' r ticket hr'' hr hticket (hgone ticket hgive))
  refine ⟨hkeeps.sound, ?_, ?_, ?_⟩
  · intro j r'' ticket hr'' hticket
    rcases getElem?_set_cases hr'' with ⟨-, rfl⟩ | ⟨hj, hold⟩
    · exact hleased ticket hticket
    · obtain ⟨lease, hlease, hkey⟩ := h.leased j r'' ticket hold hticket
      exact ⟨lease, hkeeps.find? ticket lease (hother j r'' ticket hj hold hticket) hlease, hkey⟩
  · intro j k r₁ r₂ ticket hr₁ hr₂ hticket₁ hticket₂
    rcases getElem?_set_cases hr₁ with ⟨rfl, rfl⟩ | ⟨hj, hold₁⟩
    · rcases getElem?_set_cases hr₂ with ⟨rfl, -⟩ | ⟨hk, hold₂⟩
      · rfl
      · exact absurd hticket₂ (hdistinct ticket hticket₁ k r₂ hk hold₂)
    · rcases getElem?_set_cases hr₂ with ⟨rfl, rfl⟩ | ⟨-, hold₂⟩
      · exact absurd hticket₁ (hdistinct ticket hticket₂ j r₁ hj hold₁)
      · exact h.distinct j k r₁ r₂ ticket hold₁ hold₂ hticket₁ hticket₂
  · intro j r'' ticket hr'' hticket hinside
    rcases getElem?_set_cases hr'' with ⟨-, rfl⟩ | ⟨hj, hold⟩
    · exact hheld ticket hticket hinside
    · obtain ⟨lease, hlease, -⟩ := h.leased j r'' ticket hold hticket
      exact hkeeps.holds ticket lease (hother j r'' ticket hj hold hticket) hlease
        (h.held j r'' ticket hold hticket hinside)

/-- A request moves on without a ticket. -/
theorem Orderly.set_of_none (h : Orderly t) (hr : t.requests[i]? = some r) {gone : Option Nat}
    (hkeeps : t.service.locks.Keeps s'.locks gone)
    (hgone : ∀ ticket : Nat, gone = some ticket → r.ticket? = some ticket)
    (hnone : r'.ticket? = none) : Orderly ⟨s', t.requests.set i r'⟩ := by
  refine h.set hr hkeeps hgone ?_ ?_ ?_
  · intro ticket hticket
    exact absurd (hnone ▸ hticket) (by simp)
  · intro ticket hticket
    exact absurd (hnone ▸ hticket) (by simp)
  · intro ticket hticket
    exact absurd (hnone ▸ hticket) (by simp)

/-- A request gives its ticket back. -/
theorem Orderly.set_of_drop (h : Orderly t) (hr : t.requests[i]? = some r) {ticket : Nat}
    (hticket : r.ticket? = some ticket) (hlocks : s'.locks = t.service.locks.drop ticket)
    (hnone : r'.ticket? = none) : Orderly ⟨s', t.requests.set i r'⟩ := by
  have hkeeps : t.service.locks.Keeps s'.locks (some ticket) := by
    rw [hlocks]
    exact h.sound.keeps_drop ticket
  refine h.set_of_none hr hkeeps ?_ hnone
  intro given hgiven
  obtain rfl := Option.some.inj hgiven
  exact hticket

/-- A request moves on with the ticket that it has. -/
theorem Orderly.set_of_same (h : Orderly t) (hr : t.requests[i]? = some r) (hlocks : s'.locks = t.service.locks)
    (hkey : r'.key = r.key) {ticket : Nat} (hticket : r.ticket? = some ticket) (hsame : r'.ticket? = some ticket)
    (hholds : t.service.locks.holds ticket = true) : Orderly ⟨s', t.requests.set i r'⟩ := by
  have hkeeps : t.service.locks.Keeps s'.locks none := by
    rw [hlocks]
    exact h.sound.keeps_refl
  refine h.set hr hkeeps (fun _ hnone => absurd hnone (by simp)) ?_ ?_ ?_
  · intro other hother
    obtain rfl := Option.some.inj (hsame.symm.trans hother)
    rw [hlocks, hkey]
    exact h.leased i r ticket hr hticket
  · intro other hother j r'' hj hr'' hticket''
    obtain rfl := Option.some.inj (hsame.symm.trans hother)
    exact hj (h.distinct j i r'' r ticket hr'' hr hticket'' hticket)
  · intro other hother _
    obtain rfl := Option.some.inj (hsame.symm.trans hother)
    rw [hlocks]
    exact hholds

theorem ticket?_leave (r : Request) (verdict : Verdict) (fault : Option ThrottleFault) :
    (r.leave verdict fault).ticket? = none := by
  cases fault <;> rfl

/-- Every move of a request keeps the turns. -/
theorem Orderly.advance (h : Orderly t) (hr : t.requests[i]? = some r) (hadvance : Advance t.service r r' s') :
    Orderly ⟨s', t.requests.set i r'⟩ := by
  have hnothing : ∀ ticket, (none : Option Nat) = some ticket → r.ticket? = some ticket :=
    fun _ hnone => absurd hnone (by simp)
  cases hadvance with
  | joins hstage =>
      have hnew := h.sound.find?_lease_self r.key
      refine h.set hr (h.sound.keeps_join r.key _) hnothing ?_ ?_ ?_
      · intro ticket hticket
        obtain rfl := Option.some.inj hticket
        exact ⟨_, (RecordLocks.find?_ask ..).trans hnew, RecordLocks.key_lease _ r.key⟩
      · intro ticket hticket j r'' _ hr'' hticket''
        obtain rfl := Option.some.inj hticket
        obtain ⟨lease, hlease, -⟩ := h.leased j r'' _ hr'' hticket''
        have hlt := h.sound.lt_of_find? hlease
        rw [RecordLocks.ticket_lease] at hlt
        exact Nat.lt_irrefl _ hlt
      · intro ticket _ hinside
        exact absurd hinside Bool.false_ne_true
  | @enters client ticket hstage hholds =>
      have hticket : r.ticket? = some ticket := by rw [Request.ticket?, hstage]
      exact h.set_of_same hr rfl rfl hticket rfl hholds
  | @fails client ticket error s'' hstage hdecision =>
      have hticket : r.ticket? = some ticket := by rw [Request.ticket?, hstage]
      exact h.set_of_drop hr hticket (congrArg (RecordLocks.drop · ticket) hdecision.frame.1) rfl
  | @admits client ticket admission strategy s'' hstage hdecision hallowed =>
      have hticket : r.ticket? = some ticket := by rw [Request.ticket?, hstage]
      have hinside : r.isAtRepository = true := by rw [Request.isAtRepository, hstage]
      exact h.set_of_same hr hdecision.frame.1 rfl hticket rfl (h.held i r ticket hr hticket hinside)
  | @denies client ticket admission strategy s'' hstage hdecision hdenied =>
      have hticket : r.ticket? = some ticket := by rw [Request.ticket?, hstage]
      exact h.set_of_drop hr hticket (congrArg (RecordLocks.drop · ticket) hdecision.frame.1) rfl
  | @saves client ticket admission strategy hstage =>
      have hticket : r.ticket? = some ticket := by rw [Request.ticket?, hstage]
      exact h.set_of_drop hr hticket rfl rfl
  | leaves hstage hseat => exact h.set_of_none hr h.sound.keeps_refl hnothing (ticket?_leave ..)
  | waits hstage hseat => exact h.set_of_none hr h.sound.keeps_refl hnothing rfl
  | wakes hstage hfault => exact h.set_of_none hr h.sound.keeps_refl hnothing (ticket?_leave ..)

/-- Every move keeps the turns. -/
theorem Orderly.moved {m : Move} (h : Orderly t) (hmoved : Moved t m t') : Orderly t' := by
  cases hmoved with
  | stays => exact h
  | advances hr hadvance => exact h.advance hr hadvance
  | @happens event =>
      have hlocks := t.service.locks_happen event
      refine ⟨?_, ?_, h.distinct, ?_⟩
      · rw [hlocks]
        exact h.sound
      · intro i r ticket hr hticket
        rw [hlocks]
        exact h.leased i r ticket hr hticket
      · intro i r ticket hr hticket hinside
        rw [hlocks]
        exact h.held i r ticket hr hticket hinside

/-- **Requests take turns in every run.** -/
theorem orderly_moves (h : Orderly t) (ms : List Move) : Orderly (t.moves ms) := by
  induction ms generalizing t with
  | nil => exact h
  | cons m rest ih => exact ih (h.moved (moved_move t m))

end Traffic
end Service
end AdmissionControl
