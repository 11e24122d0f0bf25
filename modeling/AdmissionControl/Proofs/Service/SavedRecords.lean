import AdmissionControl.Proofs.Service.Turns

/-!
# Every admission is saved, and none is lost

Since requests for one record take turns, what a request saves was made from what is stored at this moment: no
other request has saved in between.  So the records that a run saves under one key form a chain, and each
admitted request has one of its own there.

* `Faithful` — the invariant: what is about to be saved was made from what is stored.
* `saves` — the records that a run saves under a key.
* `Kept`, `kept_moves` — **the chain of saved records**, from what was stored before a run to what is stored
  after it.
* `admitted_moves` — **as many requests are admitted as records are saved**.
-/

namespace AdmissionControl
namespace Service

/-! ## What a move does to the repository -/

variable {s s' : Service} {r r' : Request} {key : RecordKey}

/-- The record that a request puts into the repository with its next move. -/
def written? (s : Service) (r : Request) : Option Record :=
  match r.stage with
  | .loading .. => some (s.record r.key)
  | .saving _ _ admission _ => some admission.record.countRequest
  | .arriving | .queued .. | .throttling .. | .waiting .. | .done .. => none

theorem stored?_load (s : Service) (k key : RecordKey) :
    (s.load k).stored? key = if key = k then some (s.record k) else s.stored? key := by
  rw [load, stored?, stored?, record, Repository.load]
  cases hstored : s.stores.repository.records.get? k with
  | some record =>
      by_cases hkey : key = k
      · rw [if_pos hkey, hkey]
        exact hstored
      · rw [if_neg hkey]
  | none => exact Table.get?_set ..

theorem stored?_save (s : Service) (k key : RecordKey) (record : Record) :
    (s.save k record).stored? key = if key = k then some record else s.stored? key :=
  Table.get?_set ..

/-- A load brings what is stored, or a new record. -/
theorem record_eq (s : Service) (key : RecordKey) :
    s.record key = (s.stored? key).getD (Repository.standardRecord key.client s.clock.now) := by
  rw [record, stored?, Repository.load]
  cases s.stores.repository.records.get? key with
  | some record => rfl
  | none => rfl

/-- A move of a request writes under its own key only. -/
theorem Advance.stored?_eq (h : Advance s r r' s') (key : RecordKey) :
    s'.stored? key = if key = r.key then (s.written? r).or (s.stored? key) else s.stored? key := by
  have hload : ∀ {s'' : Service}, s''.stores = (s.load r.key).stores → ∀ {client : Client} {ticket : Nat},
      r.stage = .loading client ticket →
      s''.stored? key = if key = r.key then (s.written? r).or (s.stored? key) else s.stored? key := by
    intro s'' hstores client ticket hstage
    rw [written?, hstage, Option.some_or, ← stored?_load, stored?, hstores]
    rfl
  have hnone : s.written? r = none → s.stored? key =
      if key = r.key then (s.written? r).or (s.stored? key) else s.stored? key := by
    intro hwritten
    rw [hwritten, Option.none_or, ite_self]
  cases h with
  | joins hstage => exact hnone (by rw [written?, hstage])
  | enters hstage hholds => exact hnone (by rw [written?, hstage])
  | fails hstage hdecision => exact hload hdecision.frame.2.1 hstage
  | admits hstage hdecision hallowed => exact hload hdecision.frame.2.1 hstage
  | @denies client ticket admission strategy s'' hstage hdecision hdenied =>
      have hstored : s''.stored? key =
          if key = r.key then (s.written? r).or (s.stored? key) else s.stored? key :=
        hload hdecision.frame.2.1 hstage
      exact hstored
  | saves hstage =>
      rw [written?, hstage, Option.some_or]
      exact stored?_save ..
  | leaves hstage hseat => exact hnone (by rw [written?, hstage])
  | waits hstage hseat => exact hnone (by rw [written?, hstage])
  | wakes hstage hfault => exact hnone (by rw [written?, hstage])

/-! ## What is about to be saved -/

/-- The admission that is about to be saved at a stage. -/
def Stage.pending? : Stage → Option Admission
  | saving _ _ admission _ => some admission
  | arriving | queued .. | loading .. | throttling .. | waiting .. | done .. => none

/-- The admission that a request is about to save. -/
def Request.pending? (r : Request) : Option Admission := r.stage.pending?

theorem Stage.eq_saving_of_pending? {stage : Stage} {admission : Admission}
    (h : stage.pending? = some admission) :
    ∃ client ticket strategy, stage = saving client ticket admission strategy := by
  cases stage with
  | saving client ticket admission' strategy =>
      obtain rfl := Option.some.inj h
      exact ⟨client, ticket, strategy, rfl⟩
  | arriving => exact absurd h.symm (Option.some_ne_none admission)
  | queued client ticket => exact absurd h.symm (Option.some_ne_none admission)
  | loading client ticket => exact absurd h.symm (Option.some_ne_none admission)
  | throttling verdict strategy => exact absurd h.symm (Option.some_ne_none admission)
  | waiting deadline hint => exact absurd h.symm (Option.some_ne_none admission)
  | done answer => exact absurd h.symm (Option.some_ne_none admission)

/-- Only an admission leads to a save. -/
theorem Advance.pending?_eq_some {admission : Admission} (h : Advance s r r' s')
    (hpending : r'.pending? = some admission) :
    ∃ client ticket strategy, r.stage = .loading client ticket ∧
      Decision (s.load r.key) r.endpoint client (s.record r.key) (.ok (admission, strategy)) s' ∧
      admission.isAllowed = true := by
  have hother : r'.pending? ≠ none := by
    rw [hpending]
    exact Option.some_ne_none admission
  cases h with
  | @admits client ticket admission' strategy s'' hstage hdecision hallowed =>
      obtain rfl := Option.some.inj hpending
      exact ⟨client, ticket, strategy, hstage, hdecision, hallowed⟩
  | joins hstage => exact absurd rfl hother
  | enters hstage hholds => exact absurd rfl hother
  | fails hstage hdecision => exact absurd rfl hother
  | denies hstage hdecision hdenied => exact absurd rfl hother
  | saves hstage => exact absurd rfl hother
  | @leaves verdict strategy fault hstage hseat =>
      cases fault with
      | none => exact absurd rfl hother
      | some fault => exact absurd rfl hother
  | waits hstage hseat => exact absurd rfl hother
  | @wakes deadline hint fault hstage hfault =>
      cases fault with
      | none => exact absurd rfl hother
      | some fault => exact absurd rfl hother

namespace Traffic

variable {t t' : Traffic} {m : Move} {ms : List Move} {i j : Nat}

section

variable {follows : RecordKey → Record → Record → Prop}

/-- What is about to be saved was made from what is stored. -/
def Faithful (follows : RecordKey → Record → Record → Prop) (t : Traffic) : Prop :=
  ∀ (i : Nat) (r : Request) (admission : Admission), t.requests[i]? = some r → r.pending? = some admission →
    admission.isAllowed = true ∧
      ∃ stored, t.service.stored? r.key = some stored ∧ follows r.key stored admission.record

/-- A move that decides a request makes the record of an admission from the one that was loaded. -/
def Decides (follows : RecordKey → Record → Record → Prop) (t : Traffic) (m : Move) : Prop :=
  ∀ (i : Nat) (r : Request) (client : Client) (ticket : Nat) (admission : Admission) (strategy : Strategy)
    (s' : Service), m = .advance i → t.requests[i]? = some r → r.stage = .loading client ticket →
    Decision (t.service.load r.key) r.endpoint client (t.service.record r.key)
      (.ok (admission, strategy)) s' →
    admission.isAllowed = true → follows r.key (t.service.record r.key) admission.record

theorem isAtRepository_of_pending? {r : Request} {admission : Admission} (h : r.pending? = some admission) :
    r.isAtRepository = true := by
  obtain ⟨client, ticket, strategy, hstage⟩ := Stage.eq_saving_of_pending? h
  rw [Request.isAtRepository, hstage]

theorem written?_of_not_isAtRepository {s : Service} {r : Request} (h : r.isAtRepository = false) :
    s.written? r = none := by
  rw [Request.isAtRepository] at h
  rw [written?]
  cases hstage : r.stage with
  | loading client ticket =>
      rw [hstage] at h
      exact absurd h.symm Bool.false_ne_true
  | saving client ticket admission strategy =>
      rw [hstage] at h
      exact absurd h.symm Bool.false_ne_true
  | arriving => rfl
  | queued client ticket => rfl
  | throttling verdict strategy => rfl
  | waiting deadline hint => rfl
  | done answer => rfl

theorem Faithful.moved (h : Faithful follows t) (horderly : Orderly t) (hmoved : Moved t m t')
    (hdecides : Decides follows t m) : Faithful follows t' := by
  cases hmoved with
  | stays hstays => exact h
  | @happens event =>
      intro i r admission hr hpending
      obtain ⟨hallowed, stored, hstored, hfollows⟩ := h i r admission hr hpending
      exact ⟨hallowed, stored, (t.service.stored?_happen event r.key).trans hstored, hfollows⟩
  | @advances index r r' s' hr hadvance =>
      intro j r'' admission hr'' hpending
      rcases getElem?_set_cases hr'' with ⟨-, rfl⟩ | ⟨hj, hold⟩
      · -- the request itself has just been admitted
        obtain ⟨client, ticket, strategy, hstage, hdecision, hallowed⟩ := hadvance.pending?_eq_some hpending
        have hfollows := hdecides index r client ticket admission strategy s' rfl hr hstage hdecision hallowed
        refine ⟨hallowed, t.service.record r.key, ?_, ?_⟩
        · rw [hadvance.stored?_eq, if_pos hadvance.key_eq, written?, hstage, Option.some_or]
        · rw [hadvance.key_eq]
          exact hfollows
      · obtain ⟨hallowed, stored, hstored, hfollows⟩ := h j r'' admission hold hpending
        refine ⟨hallowed, stored, ?_, hfollows⟩
        rw [hadvance.stored?_eq]
        by_cases hkey : r''.key = r.key
        · -- the other request is between load and save, so this one is not
          have houtside : r.isAtRepository = false := by
            by_contra hinside
            rw [Bool.not_eq_false] at hinside
            exact hj (horderly.eq_of_inside hold hr (isAtRepository_of_pending? hpending) hinside hkey)
          rw [if_pos hkey, written?_of_not_isAtRepository houtside, Option.none_or]
          exact hstored
        · rw [if_neg hkey]
          exact hstored

/-! ## The chain of saved records -/

/-- The record that a move saves under a key. -/
def saved? (t : Traffic) (key : RecordKey) : Move → Option Record
  | .advance index =>
      (t.requests[index]?).bind fun r =>
        if r.key = key then r.pending?.map fun admission => admission.record.countRequest else none
  | .happen _ => none

theorem saved?_of_getElem? {index : Nat} {r : Request} (hr : t.requests[index]? = some r) (key : RecordKey) :
    t.saved? key (.advance index) =
      if r.key = key then r.pending?.map fun admission => admission.record.countRequest else none := by
  rw [saved?, hr, Option.bind_some]

/-- What is about to be saved does not have to wait. -/
theorem saved?_of_stays {index : Nat} {key : RecordKey}
    (hstays : ∀ r, t.requests[index]? = some r → t.service.advance r = none) :
    t.saved? key (.advance index) = none := by
  rw [saved?, Option.bind_eq_none_iff]
  intro r hr
  rw [ite_eq_right_iff]
  intro _
  rw [Option.map_eq_none_iff, Option.eq_none_iff_forall_ne_some]
  intro admission hpending
  obtain ⟨client, ticket, strategy, hstage⟩ := Stage.eq_saving_of_pending? hpending
  have hwaits := hstays r hr
  rw [advance, hstage] at hwaits
  exact absurd hwaits (by simp)

/-- The records that a run saves under a key, in order. -/
def saves (key : RecordKey) : Traffic → List Move → List Record
  | _, [] => []
  | t, m :: rest => (t.saved? key m).toList ++ saves key (t.move m) rest

end

end Traffic

/-- What becomes of a stored record: it is made when it is loaded for the first time, and from then on each
record that is saved is made from the one before. -/
inductive Kept (follows : Record → Record → Prop) (client : String) :
    Option Record → List Record → Option Record → Prop
  /-- Nothing is saved. -/
  | nil (stored : Option Record) : Kept follows client stored [] stored
  /-- The record is made. -/
  | made {saves : List Record} {last : Option Record} (time : Nat)
      (h : Kept follows client (some (Repository.standardRecord client time)) saves last) :
      Kept follows client none saves last
  /-- A record is saved that was made from the one before. -/
  | saved {stored admitted : Record} {saves : List Record} {last : Option Record}
      (hfollows : follows stored admitted) (h : Kept follows client (some admitted.countRequest) saves last) :
      Kept follows client (some stored) (admitted.countRequest :: saves) last

namespace Traffic

variable {t t' : Traffic} {m : Move} {ms : List Move} {follows : RecordKey → Record → Record → Prop}

/-- What a request does to the chain of its record at the repository: a load makes the record if it must, and a
save adds a link. -/
theorem kept_repository {i : Nat} {r : Request} (h : Faithful follows t) (hr : t.requests[i]? = some r)
    (hinside : r.isAtRepository = true) {saves : List Record} {last : Option Record}
    (hrest : Kept (follows r.key) r.key.client
      ((t.service.written? r).or (t.service.stored? r.key)) saves last) :
    Kept (follows r.key) r.key.client (t.service.stored? r.key)
      ((r.pending?.map fun admission => admission.record.countRequest).toList ++ saves) last := by
  rcases stage_of_isAtRepository hinside with
    ⟨client, ticket, hstage⟩ | ⟨client, ticket, admission, strategy, hstage⟩
  · rw [written?, hstage, Option.some_or, record_eq] at hrest
    rw [Request.pending?, hstage, Stage.pending?]
    cases hstored : t.service.stored? r.key with
    | none =>
        rw [hstored] at hrest
        exact .made t.service.clock.now hrest
    | some stored =>
        rw [hstored] at hrest
        exact hrest
  · have hpending : r.pending? = some admission := by rw [Request.pending?, hstage, Stage.pending?]
    obtain ⟨-, stored, hstored, hfollows⟩ := h i r admission hr hpending
    rw [written?, hstage, Option.some_or] at hrest
    rw [hpending, hstored]
    exact .saved hfollows hrest

/-- One move puts one link to the chain, or none. -/
theorem kept_move (h : Faithful follows t) (hmoved : Moved t m t') (key : RecordKey) {saves : List Record}
    {last : Option Record} (hrest : Kept (follows key) key.client (t'.service.stored? key) saves last) :
    Kept (follows key) key.client (t.service.stored? key) ((t.saved? key m).toList ++ saves) last := by
  cases hmoved with
  | @stays index hstays =>
      rw [saved?_of_stays hstays]
      exact hrest
  | @happens event =>
      rw [← t.service.stored?_happen event key]
      exact hrest
  | @advances index r r' s' hr hadvance =>
      rw [hadvance.stored?_eq] at hrest
      rw [saved?_of_getElem? hr]
      by_cases hkey : key = r.key
      · subst hkey
        rw [if_pos rfl] at hrest ⊢
        by_cases hinside : r.isAtRepository = true
        · exact kept_repository h hr hinside hrest
        · have houtside : r.isAtRepository = false := Bool.not_eq_true _ ▸ hinside
          have hnone : r.pending? = none := by
            rw [Option.eq_none_iff_forall_ne_some]
            intro admission hpending
            exact hinside (isAtRepository_of_pending? hpending)
          rw [written?_of_not_isAtRepository houtside, Option.none_or] at hrest
          rw [hnone]
          exact hrest
      · rw [if_neg hkey] at hrest
        rw [if_neg (Ne.symm hkey)]
        exact hrest

/-- Every decision along a run makes the record of an admission from the one that was loaded. -/
def DecidesAlong (follows : RecordKey → Record → Record → Prop) : Traffic → List Move → Prop
  | _, [] => True
  | t, m :: rest => Decides follows t m ∧ DecidesAlong follows (t.move m) rest

theorem faithful_moves (h : Faithful follows t) (horderly : Orderly t) (hdecides : DecidesAlong follows t ms) :
    Faithful follows (t.moves ms) := by
  induction ms generalizing t with
  | nil => exact h
  | cons m rest ih =>
      have hmoved := moved_move t m
      exact ih (h.moved horderly hmoved hdecides.1) (horderly.moved hmoved) hdecides.2

/-- **The records that a run saves form a chain.** -/
theorem kept_moves (h : Faithful follows t) (horderly : Orderly t) (hdecides : DecidesAlong follows t ms)
    (key : RecordKey) :
    Kept (follows key) key.client (t.service.stored? key) (t.saves key ms)
      ((t.moves ms).service.stored? key) := by
  induction ms generalizing t with
  | nil => exact .nil _
  | cons m rest ih =>
      have hmoved := moved_move t m
      have hrest := ih (h.moved horderly hmoved hdecides.1) (horderly.moved hmoved) hdecides.2
      exact kept_move h hmoved key hrest

end Traffic

/-! ## Admitted requests -/

/-- Whether a request at a stage has been admitted and saved. -/
def Stage.isAdmitted : Stage → Bool
  | throttling verdict _ => verdict.isAllowed
  | done (.ok verdict) => verdict.isAllowed
  | done (.error _) | arriving | queued .. | loading .. | saving .. | waiting .. => false

/-- Whether a request has been admitted and saved. -/
def Request.isAdmitted (r : Request) : Bool := r.stage.isAdmitted

theorem isAdmitted_leave (r : Request) (verdict : Verdict) (fault : Option ThrottleFault) :
    (r.leave verdict fault).isAdmitted = (fault.isNone && verdict.isAllowed) := by
  cases fault <;> rfl

/-- An allowed request never comes to harm in the waiting room. -/
theorem enter_plan_of_isAllowed {w : WaitingRoom} {strategy : Strategy} {verdict : Verdict}
    (h : verdict.isAllowed = true) : (w.enter (strategy.plan verdict)).1 = .leaves none := by
  cases verdict with
  | allowed => rfl
  | denied hint => exact absurd h Bool.false_ne_true

/-- A request is admitted with its save, and stays admitted. -/
theorem Advance.isAdmitted_eq (h : Advance s r r' s')
    (hallowed : ∀ admission, r.pending? = some admission → admission.isAllowed = true) :
    r'.isAdmitted = (r.isAdmitted || r.pending?.isSome) := by
  show r'.isAdmitted = (r.stage.isAdmitted || r.stage.pending?.isSome)
  cases h with
  | joins hstage =>
      rw [hstage]
      rfl
  | enters hstage hholds =>
      rw [hstage]
      rfl
  | fails hstage hdecision =>
      rw [hstage]
      rfl
  | admits hstage hdecision hadmitted =>
      rw [hstage]
      rfl
  | denies hstage hdecision hdenied =>
      rw [hstage]
      exact hdenied
  | @saves client ticket admission strategy hstage =>
      rw [hstage]
      refine hallowed admission ?_
      rw [Request.pending?, hstage]
      rfl
  | @leaves verdict strategy fault hstage hseat =>
      rw [isAdmitted_leave, hstage]
      show (fault.isNone && verdict.isAllowed) = (verdict.isAllowed || false)
      rw [Bool.or_false]
      cases hverdict : verdict.isAllowed with
      | false => exact Bool.and_false _
      | true =>
          rw [enter_plan_of_isAllowed hverdict] at hseat
          obtain rfl := WaitingRoom.Seat.leaves.inj hseat
          rfl
  | @waits verdict strategy deadline hint hstage hseat =>
      rw [hstage]
      show false = (verdict.isAllowed || false)
      rw [Bool.or_false]
      cases hverdict : verdict.isAllowed with
      | false => rfl
      | true =>
          rw [enter_plan_of_isAllowed hverdict] at hseat
          exact WaitingRoom.Seat.noConfusion hseat
  | wakes hstage hfault =>
      rw [isAdmitted_leave, hstage]
      exact Bool.and_false _

namespace Traffic

variable {t t' : Traffic} {m : Move} {ms : List Move} {follows : RecordKey → Record → Record → Prop}

/-- The number of requests for a record that have been admitted and saved. -/
def admitted (t : Traffic) (key : RecordKey) : Nat :=
  t.requests.countP fun r => r.key = key && r.isAdmitted

/-- What one request more or less does to a count. -/
theorem countP_set_add {α : Type} {p : α → Bool} {l : List α} {i : Nat} {a b : α} (h : l[i]? = some a) :
    (l.set i b).countP p + (if p a then 1 else 0) = l.countP p + (if p b then 1 else 0) := by
  obtain ⟨hi, rfl⟩ := List.getElem?_eq_some_iff.1 h
  have hcount := List.countP_set (p := p) (a := b) hi
  by_cases hp : p l[i] = true
  · have hpos : 0 < l.countP p := List.countP_pos_iff.2 ⟨l[i], List.getElem_mem hi, hp⟩
    rw [if_pos hp] at hcount ⊢
    omega
  · rw [if_neg hp] at hcount ⊢
    omega

theorem admitted_move (h : Faithful follows t) (hmoved : Moved t m t') (key : RecordKey) :
    t'.admitted key = t.admitted key + (t.saved? key m).toList.length := by
  cases hmoved with
  | happens => rfl
  | @stays index hstays =>
      rw [saved?_of_stays hstays]
      rfl
  | @advances index r r' s' hr hadvance =>
      have hcount := countP_set_add (p := fun r => r.key = key && r.isAdmitted) (b := r') hr
      have hadmitted := hadvance.isAdmitted_eq fun admission hpending => (h index r admission hr hpending).1
      rw [hadvance.key_eq, hadmitted] at hcount
      rw [saved?_of_getElem? hr, admitted, admitted]
      by_cases hkey : r.key = key
      · simp only [hkey, decide_true, Bool.true_and] at hcount
        rw [if_pos hkey]
        cases hpending : r.pending? with
        | none =>
            rw [hpending, Option.isSome_none, Bool.or_false] at hcount
            exact Nat.add_right_cancel hcount
        | some admission =>
            obtain ⟨client, ticket, strategy, hstage⟩ := Stage.eq_saving_of_pending? hpending
            have hbefore : r.isAdmitted = false := by
              rw [Request.isAdmitted, hstage, Stage.isAdmitted]
            rw [hpending, hbefore] at hcount
            exact hcount
      · simp only [hkey, decide_false, Bool.false_and] at hcount
        rw [if_neg hkey]
        exact Nat.add_right_cancel hcount

/-- **As many requests are admitted in a run as records are saved.** -/
theorem admitted_moves (h : Faithful follows t) (horderly : Orderly t) (hdecides : DecidesAlong follows t ms)
    (key : RecordKey) : (t.moves ms).admitted key = t.admitted key + (t.saves key ms).length := by
  induction ms generalizing t with
  | nil => rfl
  | cons m rest ih =>
      have hmoved := moved_move t m
      rw [moves_cons, ih (h.moved horderly hmoved hdecides.1) (horderly.moved hmoved) hdecides.2,
        admitted_move h hmoved, saves, List.length_append, Nat.add_assoc]

end Traffic
end Service
end AdmissionControl
