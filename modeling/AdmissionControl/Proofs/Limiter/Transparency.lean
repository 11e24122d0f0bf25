import AdmissionControl.Proofs.Limiter.OpenBreaker
import AdmissionControl.Proofs.Limiter.Replay
import AdmissionControl.Proofs.Limiter.Stations
import AdmissionControl.Proofs.Rule.Oblivion

/-!
# Nobody notices that the idle are forgotten

Two runs of the same checks, clock and breaker steps, of which one is swept at some points and the other never.  The
swept one keeps less: of a client that has not asked for longer than the limiter's time it keeps nothing.  If that
time outlasts what the rule keeps, no answer shows the difference.

* `run_check_alone` — what a check does that nobody disturbs.
* `Twins` — what the two runs keep of a client: they agree, and what is kept dates from the client's last stamp; or
  the swept run has forgotten the client, and what the other one keeps no longer counts.
* `Mirrors`, `Mirrors.sweep`, `Mirrors.check` — the same for all clients, which every step of the two runs keeps.
* `sweeps_transparent` — **where sweeps are put in changes no answer and no breaker**.
-/

namespace AdmissionControl

/-! ## Answers of an algorithm -/

namespace Algorithm

/-- The answer to a client whom nobody disturbs, and the algorithm after it. -/
def answer (a : Algorithm) (record : Record) (now : Nat) : Admission × Algorithm :=
  match a.estimate record now with
  | some admission => (admission, a)
  | none => a.decide record now

/-- An answer is that of the rule, and changes what is kept of the client as the rule does. -/
theorem answer_eq {rule : Rule} (kept : Table String rule.Kept) (record : Record) (now : Nat) :
    ∃ kept' : Table String rule.Kept,
      (⟨rule, kept⟩ : Algorithm).answer record now =
        ((rule.answer record now (kept.get? record.client.id)).1, ⟨rule, kept'⟩) ∧
      kept'.get? record.client.id = (rule.answer record now (kept.get? record.client.id)).2 ∧
      ∀ client, client ≠ record.client.id → kept'.get? client = kept.get? client := by
  unfold answer Rule.answer
  have hestimate : (⟨rule, kept⟩ : Algorithm).estimate record now =
    rule.estimate record now (kept.get? record.client.id) := rfl
  rw [hestimate]
  cases rule.estimate record now (kept.get? record.client.id) with
  | some admission => exact ⟨kept, rfl, rfl, fun _ _ => rfl⟩
  | none =>
      refine ⟨_, rfl, ?_, ?_⟩
      · exact (Table.get?_put ..).trans (if_pos rfl)
      · intro client hne
        exact (Table.get?_put ..).trans (if_neg hne)

end Algorithm

namespace Limiter

/-! ## Checks that nobody disturbs -/

/-- A record that comes past the gate has a rate. -/
theorem PassesGate.exists_rate {record : Record} {b : Breaker} {now : Nat} (h : PassesGate record b now) :
    ∃ rate, record.policy.rate? = some rate ∧ 0 < rate := by
  obtain ⟨hsound, -, hlimited⟩ := h
  cases hpolicy : record.policy with
  | unrestricted =>
      rw [hpolicy] at hlimited
      exact absurd hlimited.symm Bool.false_ne_true
  | limited rate =>
      refine ⟨rate.toNat, rfl, ?_⟩
      unfold Record.fault? at hsound
      rw [hpolicy] at hsound
      split at hsound
      · exact absurd hsound (by simp)
      · split at hsound
        · rename_i hvalid
          apply Nat.pos_of_ne_zero
          intro hzero
          have hrate : rate = 0 := UInt32.toNat_inj.1 hzero
          rw [hrate] at hvalid
          exact absurd hvalid (by decide)
        · exact absurd hsound (by simp)

/-- A limiter after a check that nobody disturbed: the algorithm has given its answer, the client's slot is stamped
and its lock free, and the slots of the others are as they were. -/
structure Asked (l : Limiter) (record : Record) (now : Nat) (l' : Limiter) : Prop where
  /-- The algorithm has answered. -/
  algorithm_eq : l'.algorithm = (l.algorithm.answer record now).2
  /-- Slots are forgotten after the same time. -/
  threshold_eq : l'.threshold = l.threshold
  /-- The client has a slot with a free lock, stamped now or later. -/
  slot : ∃ slot, l'.slots.get? record.client.id = some slot ∧ slot.isHeld = false ∧ now ≤ slot.lastAccess ∧
    ∀ old, l.slots.get? record.client.id = some old → old.lastAccess ≤ slot.lastAccess
  /-- Its stamp is the one it got when the client asked. -/
  stamped : (l'.slots.get? record.client.id).map Slot.lastAccess = some (l.look record.client.id now).1.lastAccess
  /-- The slots of the others stay. -/
  others : ∀ client, client ≠ record.client.id → l'.slots.get? client = l.slots.get? client

/-- A lock that was free is free after a check that nobody disturbed. -/
theorem Asked.free {l l' : Limiter} {record : Record} {now : Nat} (h : Asked l record now l')
    (hfree : ∀ client, l.isHeld client = false) (client : String) : l'.isHeld client = false := by
  unfold isHeld
  by_cases hclient : client = record.client.id
  · obtain ⟨slot, hslot, hunheld, -⟩ := h.slot
    rw [hclient, hslot]
    exact hunheld
  · rw [h.others client hclient]
    exact hfree client

section Alone

variable {l : Limiter} {record : Record} {now : Nat}

/-- The slot of a client that asks while its lock is free. -/
theorem slot_look (hfree : l.isHeld record.client.id = false) :
    (l.look record.client.id now).1.isHeld = false ∧ now ≤ (l.look record.client.id now).1.lastAccess ∧
      ∀ old, l.slots.get? record.client.id = some old →
        old.lastAccess ≤ (l.look record.client.id now).1.lastAccess := by
  unfold isHeld at hfree
  unfold look
  cases hslot : l.slots.get? record.client.id with
  | none =>
      refine ⟨rfl, Nat.le_refl _, ?_⟩
      intro old hold
      exact absurd hold (by simp)
  | some slot =>
      rw [hslot] at hfree
      refine ⟨hfree, Nat.le_max_right .., ?_⟩
      intro old hold
      obtain rfl := Option.some.inj hold
      exact Nat.le_max_left ..

theorem asked_of_estimate (hfree : l.isHeld record.client.id = false) {admission : Admission}
    (h : l.algorithm.estimate record now = some admission) :
    Asked l record now (l.look record.client.id now).2 where
  algorithm_eq := by
    unfold Algorithm.answer
    rw [h, algorithm_look]
  threshold_eq := (stable_threshold l.threshold).look rfl ..
  slot := ⟨_, get?_look l record.client.id now, slot_look hfree⟩
  stamped := congrArg (Option.map Slot.lastAccess) (get?_look l record.client.id now)
  others := fun _ hne => slots_look_of_ne hne now

theorem asked_of_decide (hfree : l.isHeld record.client.id = false) (h : l.algorithm.estimate record now = none)
    {entered : Limiter} (henter : (l.look record.client.id now).2.enter record.client.id = some entered) :
    Asked l record now ((entered.decide record now).2.leave record.client.id) := by
  obtain ⟨hunheld, hnow, hlater⟩ := @slot_look l record now hfree
  obtain ⟨slot, hslot, -, rfl⟩ := slots_of_enter henter
  obtain rfl := Option.some.inj ((get?_look l record.client.id now).symm.trans hslot)
  have hothers : ∀ client, client ≠ record.client.id →
      ((l.look record.client.id now).2.slots.set record.client.id (l.look record.client.id now).1.stamp).get? client =
        l.slots.get? client := by
    intro client hne
    exact (Table.get?_set ..).trans ((if_neg hne).trans (slots_look_of_ne hne now))
  generalize hdecided : (({ (l.look record.client.id now).2 with
    slots := (l.look record.client.id now).2.slots.set record.client.id
      (l.look record.client.id now).1.stamp } : Limiter).decide record now).2 = decided
  have hslots : decided.slots = (l.look record.client.id now).2.slots.set record.client.id
      (l.look record.client.id now).1.stamp := by
    rw [← hdecided]
    rfl
  have hstamped : decided.slots.get? record.client.id = some (l.look record.client.id now).1.stamp := by
    rw [hslots]
    exact (Table.get?_set ..).trans (if_pos rfl)
  -- the slot was stamped when the lock was taken, and is stamped again when it is given back
  have hleave : decided.leave record.client.id =
      { decided with
        slots := decided.slots.set record.client.id (l.look record.client.id now).1.stamp.stamp } := by
    unfold leave
    rw [hstamped]
  have hleft : (decided.leave record.client.id).slots.get? record.client.id =
      some (l.look record.client.id now).1.stamp.stamp := by
    rw [hleave]
    exact (Table.get?_set ..).trans (if_pos rfl)
  refine ⟨?_, ?_, ?_, ?_, ?_⟩
  · rw [algorithm_leave, ← hdecided]
    show ((l.look record.client.id now).2.algorithm.decide record now).2 = _
    unfold Algorithm.answer
    rw [h, algorithm_look]
  · have hthreshold : decided.threshold = l.threshold := by
      rw [← hdecided]
      exact (stable_threshold l.threshold).look rfl ..
    exact (stable_threshold l.threshold).leave hthreshold record.client.id
  · refine ⟨_, hleft, ?_, hnow, hlater⟩
    rw [Slot.isHeld_stamp, Slot.isHeld_stamp, hunheld]
    rfl
  · rw [hleft]
    rfl
  · intro client hne
    rw [slots_leave_of_ne hne, hslots]
    exact hothers client hne

theorem run_check_settled {s : Station} {subject : Subject} {keeps : Bool} {inside within : List Step}
    {outcome : Except Error Admission} (hsubject : subject.resolve s.book = .ok record)
    (hgate : (gate record s.breaker s.clock.now).1 = .settled outcome) :
    (Step.check subject keeps inside within).run s =
      .check .settled outcome none none
        (s.settle (gate record s.breaker s.clock.now).2 subject keeps outcome) := by
  have hgate' : gate record s.breaker s.clock.now = (.settled outcome, (gate record s.breaker s.clock.now).2) :=
    Prod.ext hgate rfl
  rw [Step.run, hsubject]
  dsimp only
  rw [hgate']

/-- **A check that comes past the gate and that nobody disturbs is answered by the algorithm**, by its estimate or
its decision. -/
theorem run_check_alone {s : Station} {subject : Subject} (keeps : Bool)
    (hsubject : subject.resolve s.book = .ok record)
    (hgate : (gate record s.breaker s.clock.now).1 = .limited) (hfree : s.limiter.isHeld record.client.id = false) :
    ∃ route inside within l,
      (Step.check subject keeps [] []).run s =
        .check route (.ok (s.limiter.algorithm.answer record s.clock.now).1) inside within
          (({ s.pastGate record with limiter := l } : Station).conclude subject keeps
            (s.limiter.algorithm.answer record s.clock.now).1) ∧
      ((Step.check subject keeps [] []).run s).moments =
        [.decision record s.clock.now (s.limiter.algorithm.answer record s.clock.now).1] ∧
      Asked s.limiter record s.clock.now l := by
  have hunheld : (s.limiter.look record.client.id s.clock.now).1.isHeld = false := (slot_look hfree).1
  have hglance : (s.limiter.look record.client.id s.clock.now).2.glance
      (s.limiter.look record.client.id s.clock.now).1 record s.clock.now =
        some (s.limiter.algorithm.estimate record s.clock.now) := by
    unfold glance
    rw [if_neg (by rw [hunheld]; exact Bool.false_ne_true), algorithm_look]
  have hgate' : gate record s.breaker s.clock.now = (.limited, (gate record s.breaker s.clock.now).2) :=
    Prod.ext hgate rfl
  rw [Step.run, hsubject]
  dsimp only
  rw [hgate']
  dsimp only
  rw [hglance, Option.isSome_some, if_pos rfl]
  cases hestimate : s.limiter.algorithm.estimate record s.clock.now with
  | some admission =>
      have hanswer : s.limiter.algorithm.answer record s.clock.now = (admission, s.limiter.algorithm) := by
        unfold Algorithm.answer
        rw [hestimate]
      simp only [runAll, Option.join_some, accepts_look]
      rw [hanswer]
      exact ⟨_, _, _, _, rfl, rfl, asked_of_estimate hfree hestimate⟩
  | none =>
      have hanswer : s.limiter.algorithm.answer record s.clock.now =
          s.limiter.algorithm.decide record s.clock.now := by
        unfold Algorithm.answer
        rw [hestimate]
      have hdecide : ∀ entered, (s.limiter.look record.client.id s.clock.now).2.enter record.client.id =
          some entered → (entered.decide record s.clock.now).1 =
            (s.limiter.algorithm.decide record s.clock.now).1 := by
        intro entered henter
        have halgorithm : entered.algorithm = s.limiter.algorithm :=
          (isHeld_of_enter henter).2.2.2.trans (algorithm_look ..)
        show (entered.algorithm.decide record s.clock.now).1 = _
        rw [halgorithm]
      have hheld : (s.limiter.look record.client.id s.clock.now).2.isHeld record.client.id = false := by
        rw [isHeld_look]
        exact hfree
      simp only [runAll, Option.join_some, renew_look]
      cases henter : (s.limiter.look record.client.id s.clock.now).2.enter record.client.id with
      | none =>
          have hslot := hasSlot_of_get? (get?_look s.limiter record.client.id s.clock.now)
          exact absurd (hheld.symm.trans (isHeld_of_enter_eq_none hslot henter)) Bool.false_ne_true
      | some entered =>
          dsimp only
          rw [hanswer, hdecide entered henter]
          exact ⟨_, _, _, _, rfl, rfl, asked_of_decide hfree hestimate henter⟩

end Alone

/-! ## What two runs keep of a client -/

/-- What a run that is never swept and one that is keep of a client, with its slot in the swept run. -/
inductive Twins (rule : Rule) (threshold now : Nat) (client : String) : Algorithm → Algorithm → Option Slot → Prop
  /-- The client has a slot: both runs answer it alike, and nothing that is kept dates from after its stamp. -/
  | live {kept kept' : Table String rule.Kept} {slot : Slot}
      (hagree : rule.Agree now (kept.get? client) (kept'.get? client))
      (hdated : rule.Dated slot.lastAccess (kept.get? client)) :
      Twins rule threshold now client ⟨rule, kept⟩ ⟨rule, kept'⟩ (some slot)
  /-- The client has no slot: the swept run keeps nothing of it, and what the other one keeps is old. -/
  | gone {kept kept' : Table String rule.Kept} (hnone : kept'.get? client = none)
      (hsound : rule.Sound (kept.get? client))
      (hpassed : kept.get? client = none ∨
        ∃ time, rule.Dated time (kept.get? client) ∧ threshold < now - time) :
      Twins rule threshold now client ⟨rule, kept⟩ ⟨rule, kept'⟩ none

namespace Twins

variable {rule : Rule} {threshold now later : Nat} {client : String} {a a' : Algorithm} {slot? : Option Slot}

theorem mono (h : Twins rule threshold now client a a' slot?) (hlater : now ≤ later) :
    Twins rule threshold later client a a' slot? := by
  cases h with
  | live hagree hdated => exact .live (hagree.mono hlater) hdated
  | gone hnone hsound hpassed =>
      refine .gone hnone hsound ?_
      rcases hpassed with hempty | ⟨time, hdated, hpassed⟩
      · exact Or.inl hempty
      · exact Or.inr ⟨time, hdated, by omega⟩

/-- The swept run forgets clients, this one only if it was stamped long ago. -/
theorem sweep (h : Twins rule threshold now client a a' slot?) {clients : List String}
    (hidle : client ∈ clients → ∀ slot, slot? = some slot → threshold < now - slot.lastAccess) :
    Twins rule threshold now client a (clients.foldl Algorithm.evict a')
      (if client ∈ clients then none else slot?) := by
  cases h with
  | @live kept kept' slot hagree hdated =>
      obtain ⟨kept'', hevictions, hkept⟩ := Algorithm.evictions_eq clients kept'
      rw [hevictions]
      by_cases hmem : client ∈ clients
      · rw [if_pos hmem]
        refine .gone ?_ hagree.sound (Or.inr ⟨_, hdated, hidle hmem slot rfl⟩)
        rw [hkept, if_pos hmem]
      · rw [if_neg hmem]
        refine .live ?_ hdated
        rw [hkept, if_neg hmem]
        exact hagree
  | @gone kept kept' hnone hsound hpassed =>
      obtain ⟨kept'', hevictions, hkept⟩ := Algorithm.evictions_eq clients kept'
      rw [hevictions, ite_self]
      refine .gone ?_ hsound hpassed
      rw [hkept, hnone, ite_self]

/-- Both runs answer another client. -/
theorem answer_of_ne {record : Record} (h : Twins rule threshold now client a a' slot?)
    (hne : client ≠ record.client.id) :
    Twins rule threshold now client (a.answer record now).2 (a'.answer record now).2 slot? := by
  cases h with
  | @live kept kept' slot hagree hdated =>
      obtain ⟨after, hanswer, -, hothers⟩ := Algorithm.answer_eq kept record now
      obtain ⟨after', hanswer', -, hothers'⟩ := Algorithm.answer_eq kept' record now
      rw [hanswer, hanswer']
      rw [← hothers client hne, ← hothers' client hne] at hagree
      rw [← hothers client hne] at hdated
      exact .live hagree hdated
  | @gone kept kept' hnone hsound hpassed =>
      obtain ⟨after, hanswer, -, hothers⟩ := Algorithm.answer_eq kept record now
      obtain ⟨after', hanswer', -, hothers'⟩ := Algorithm.answer_eq kept' record now
      rw [hanswer, hanswer']
      rw [← hothers' client hne] at hnone
      rw [← hothers client hne] at hsound hpassed
      exact .gone hnone hsound hpassed

/-- **Both runs answer the client, and give the same answer.** -/
theorem answer {record : Record} {slot : Slot} (h : Twins rule threshold now record.client.id a a' slot?)
    (houtlasts : rule.Outlasts threshold record.policy) {rate : Nat} (hrate : record.policy.rate? = some rate)
    (hpos : 0 < rate) (hnow : now ≤ slot.lastAccess)
    (hlater : ∀ old, slot? = some old → old.lastAccess ≤ slot.lastAccess) :
    (a.answer record now).1 = (a'.answer record now).1 ∧
      Twins rule threshold now record.client.id (a.answer record now).2 (a'.answer record now).2 (some slot) := by
  cases h with
  | @live kept kept' old hagree hdated =>
      obtain ⟨after, hanswer, hself, -⟩ := Algorithm.answer_eq kept record now
      obtain ⟨after', hanswer', hself', -⟩ := Algorithm.answer_eq kept' record now
      obtain ⟨hsame, hafter⟩ := hagree.answer record (Nat.le_refl now)
      rw [hanswer, hanswer']
      refine ⟨hsame, .live ?_ ?_⟩
      · rw [hself, hself']
        exact hafter
      · rw [hself]
        exact hdated.answer record (hlater old rfl) hnow
  | @gone kept kept' hnone hsound hpassed =>
      obtain ⟨after, hanswer, hself, -⟩ := Algorithm.answer_eq kept record now
      obtain ⟨after', hanswer', hself', -⟩ := Algorithm.answer_eq kept' record now
      rw [hanswer, hanswer', hnone]
      rw [hnone] at hself'
      rcases hpassed with hempty | ⟨time, hdated, hpassed⟩
      · obtain ⟨hsame, hafter⟩ := (rule.agree_none now).answer record (Nat.le_refl now)
        rw [hempty] at hself ⊢
        refine ⟨hsame, .live ?_ ?_⟩
        · rw [hself, hself']
          exact hafter
        · rw [hself]
          exact (rule.dated_none now).answer record hnow hnow
      · obtain ⟨hsame, hafter⟩ := Rule.agree_of_passed hsound hdated hpassed houtlasts hrate hpos
        refine ⟨hsame, .live ?_ ?_⟩
        · rw [hself, hself']
          exact hafter
        · rw [hself]
          exact hdated.answer record (by omega) hnow

end Twins

/-! ## Two runs -/

/-- A station of a run that is never swept, and one of a run that is: nothing shows the difference. -/
structure Mirrors (rule : Rule) (threshold : Nat) (s s' : Station) : Prop where
  /-- Their clocks show the same. -/
  clock_eq : s'.clock = s.clock
  /-- Their breakers are the same. -/
  breaker_eq : s'.breaker = s.breaker
  /-- Their records are the same. -/
  book_eq : s'.book = s.book
  /-- The swept one forgets clients after the given time. -/
  threshold_eq : s'.limiter.threshold = threshold
  /-- Nobody holds a lock here. -/
  free : ∀ client, s.limiter.isHeld client = false
  /-- Nobody holds a lock there. -/
  free' : ∀ client, s'.limiter.isHeld client = false
  /-- They answer every client alike. -/
  twins : ∀ client, Twins rule threshold s.clock.now client s.limiter.algorithm s'.limiter.algorithm
    (s'.limiter.slots.get? client)

namespace Mirrors

variable {rule : Rule} {threshold : Nat} {s s' : Station}

theorem sweep (h : Mirrors rule threshold s s') :
    Mirrors rule threshold s { s' with limiter := s'.limiter.sweep s'.clock.now } where
  clock_eq := h.clock_eq
  breaker_eq := h.breaker_eq
  book_eq := h.book_eq
  threshold_eq := h.threshold_eq
  free := h.free
  free' := by
    intro client
    rw [isHeld_sweep]
    exact h.free' client
  twins := by
    intro client
    show Twins rule threshold s.clock.now client s.limiter.algorithm
      ((s'.limiter.idleClients s'.clock.now).foldl Algorithm.evict s'.limiter.algorithm)
      ((s'.limiter.sweep s'.clock.now).slots.get? client)
    rw [slots_sweep]
    refine (h.twins client).sweep ?_
    intro hidle slot hslot
    obtain ⟨slot', hslot', hidle⟩ := mem_idleClients_iff.1 hidle
    obtain rfl := Option.some.inj (hslot.symm.trans hslot')
    unfold Slot.isIdle at hidle
    rw [Bool.and_eq_true, decide_eq_true_iff, h.threshold_eq, h.clock_eq] at hidle
    exact hidle.1

theorem move (h : Mirrors rule threshold s s') (m : Clock.Move) (hforward : s.clock.now ≤ (s.clock.move m).now) :
    Mirrors rule threshold { s with clock := s.clock.move m } { s' with clock := s'.clock.move m } where
  clock_eq := congrArg (·.move m) h.clock_eq
  breaker_eq := h.breaker_eq
  book_eq := h.book_eq
  threshold_eq := h.threshold_eq
  free := h.free
  free' := h.free'
  twins := fun client => (h.twins client).mono hforward

/-- The algorithm answers the same check in both runs. -/
theorem asked {record : Record} (h : Mirrors rule threshold s s') {l l' : Limiter}
    (houtlasts : rule.Outlasts threshold record.policy)
    (hpasses : PassesGate record s.breaker s.clock.now) (hl : Asked s.limiter record s.clock.now l)
    (hl' : Asked s'.limiter record s.clock.now l') (subject : Subject) (keeps : Bool) :
    (s.limiter.algorithm.answer record s.clock.now).1 = (s'.limiter.algorithm.answer record s.clock.now).1 ∧
      Mirrors rule threshold
        (({ s.pastGate record with limiter := l } : Station).conclude subject keeps
          (s.limiter.algorithm.answer record s.clock.now).1)
        (({ s'.pastGate record with limiter := l' } : Station).conclude subject keeps
          (s'.limiter.algorithm.answer record s.clock.now).1) := by
  obtain ⟨rate, hrate, hpos⟩ := hpasses.exists_rate
  obtain ⟨slot, hslot, -, hnow, hlater⟩ := hl'.slot
  obtain ⟨hsame, htwins⟩ := (h.twins record.client.id).answer houtlasts hrate hpos hnow hlater
  refine ⟨hsame, ?_⟩
  rw [hsame]
  refine ⟨h.clock_eq, ?_, ?_, ?_, hl.free h.free, hl'.free h.free', ?_⟩
  · show (gate record s'.breaker s'.clock.now).2.observe _ s'.clock.now =
      (gate record s.breaker s.clock.now).2.observe _ s.clock.now
    rw [h.breaker_eq, h.clock_eq]
  · show (if keeps then subject.putBack s'.book _ else s'.book) = if keeps then subject.putBack s.book _ else s.book
    rw [h.book_eq]
  · exact hl'.threshold_eq.trans h.threshold_eq
  · intro client
    show Twins rule threshold s.clock.now client l.algorithm l'.algorithm (l'.slots.get? client)
    rw [hl.algorithm_eq, hl'.algorithm_eq]
    by_cases hclient : client = record.client.id
    · subst hclient
      rw [hslot]
      exact htwins
    · rw [hl'.others client hclient]
      exact (h.twins client).answer_of_ne hclient

/-- The gate settles the same check in both runs. -/
theorem settled {record : Record} (h : Mirrors rule threshold s s') (subject : Subject) (keeps : Bool)
    (outcome : Except Error Admission) :
    Mirrors rule threshold (s.settle (gate record s.breaker s.clock.now).2 subject keeps outcome)
      (s'.settle (gate record s.breaker s.clock.now).2 subject keeps outcome) := by
  cases outcome with
  | error error => exact ⟨h.clock_eq, rfl, h.book_eq, h.threshold_eq, h.free, h.free', h.twins⟩
  | ok admission =>
      refine ⟨h.clock_eq, rfl, ?_, h.threshold_eq, h.free, h.free', h.twins⟩
      show (if keeps then subject.putBack s'.book admission else s'.book) =
        if keeps then subject.putBack s.book admission else s.book
      rw [h.book_eq]

/-- **The same check in both runs**: it has the same outcome, and the stations after it mirror each other. -/
theorem check (h : Mirrors rule threshold s s') (subject : Subject) (keeps : Bool)
    (houtlasts : ∀ record time admission, .decision record time admission ∈
      ((Step.check subject keeps [] []).run s).moments → rule.Outlasts threshold record.policy) :
    ((Step.check subject keeps [] []).run s).outcome? = ((Step.check subject keeps [] []).run s').outcome? ∧
      Mirrors rule threshold ((Step.check subject keeps [] []).run s).after
        ((Step.check subject keeps [] []).run s').after := by
  have hbook := h.book_eq
  have hbreaker := h.breaker_eq
  have hclock := h.clock_eq
  cases hsubject : subject.resolve s.book with
  | error error =>
      have hsubject' : subject.resolve s'.book = .error error := by rw [hbook, hsubject]
      rw [Step.run, Step.run, hsubject, hsubject']
      exact ⟨rfl, h⟩
  | ok record =>
      have hsubject' : subject.resolve s'.book = .ok record := by rw [hbook, hsubject]
      cases hgate : (gate record s.breaker s.clock.now).1 with
      | settled outcome =>
          have hgate' : (gate record s'.breaker s'.clock.now).1 = .settled outcome := by
            rw [hbreaker, hclock, hgate]
          rw [run_check_settled hsubject hgate, run_check_settled hsubject' hgate', hbreaker, hclock]
          exact ⟨rfl, h.settled subject keeps outcome⟩
      | limited =>
          have hgate' : (gate record s'.breaker s'.clock.now).1 = .limited := by
            rw [hbreaker, hclock, hgate]
          obtain ⟨route, inside, within, l, hrun, hmoments, hl⟩ :=
            run_check_alone keeps hsubject hgate (h.free record.client.id)
          obtain ⟨route', inside', within', l', hrun', -, hl'⟩ :=
            run_check_alone keeps hsubject' hgate' (h.free' record.client.id)
          have hcovers : rule.Outlasts threshold record.policy := by
            refine houtlasts record s.clock.now (s.limiter.algorithm.answer record s.clock.now).1 ?_
            rw [hmoments]
            exact List.mem_singleton_self _
          rw [hclock] at hrun' hl'
          obtain ⟨hsame, hafter⟩ := h.asked hcovers (gate_eq_limited_iff.1 hgate) hl hl' subject keeps
          rw [hrun, hrun']
          exact ⟨congrArg (fun admission => some (Except.ok admission)) hsame, hafter⟩

end Mirrors

/-! ## Where sweeps are put in -/

/-- Whether nothing runs inside a step. -/
def Step.isPlain : Step → Bool
  | check _ _ inside within => inside.isEmpty && within.isEmpty
  | sweep | move _ | breaker _ => true

/-- Whether a step forgets idle clients. -/
def Step.isSweep : Step → Bool
  | sweep => true
  | check .. | move _ | breaker _ => false

/-- Steps without the sweeps among them. -/
def withoutSweeps (steps : List Step) : List Step := steps.filter (!·.isSweep)

/-- What a report tells, if it is not of a sweep: the outcome of a check, and the breaker after the step. -/
def Report.tale? : Report → Option (Option (Except Error Admission) × Breaker)
  | sweep .. => none
  | report => some (report.outcome?, report.after.breaker)

/-- What reports tell, sweeps apart. -/
def tales (reports : List Report) : List (Option (Except Error Admission) × Breaker) :=
  reports.filterMap Report.tale?

theorem tale?_run_check (subject : Subject) (keeps : Bool) (inside within : List Step) (s : Station) :
    ((Step.check subject keeps inside within).run s).tale? =
      some (((Step.check subject keeps inside within).run s).outcome?,
        ((Step.check subject keeps inside within).run s).after.breaker) := by
  have hchecks := checks_run subject keeps inside within s
  generalize (Step.check subject keeps inside within).run s = report at hchecks
  cases hchecks with
  | unresolved hsubject => rfl
  | settled hsubject hgate => rfl
  | estimated hsubject hgate hreading haccepts => rfl
  | timedOut hsubject hgate henter => rfl
  | decided hsubject hgate henter hwithin => rfl

/-- **The same step in both runs**: it tells the same, and the stations after it mirror each other. -/
theorem Mirrors.run {rule : Rule} {threshold : Nat} {s s' : Station} (h : Mirrors rule threshold s s') {step : Step}
    (hplain : step.isPlain = true) (hsweep : step.isSweep = false)
    (hforward : Forward s.clock.now (step.run s).moments)
    (houtlasts : ∀ record time admission, .decision record time admission ∈ (step.run s).moments →
      rule.Outlasts threshold record.policy) :
    (step.run s).tale? = (step.run s').tale? ∧ Mirrors rule threshold (step.run s).after (step.run s').after := by
  cases step with
  | sweep => exact absurd hsweep.symm Bool.false_ne_true
  | move m =>
      rw [Step.run] at hforward
      rw [Step.run, Step.run]
      have hclock : s.clock.now ≤ (s.clock.move m).now :=
        hforward.le (List.mem_cons_of_mem _ List.mem_cons_self)
      refine ⟨?_, h.move m hclock⟩
      exact congrArg (fun breaker => some (none, breaker)) h.breaker_eq.symm
  | breaker event =>
      rw [Step.run, Step.run, h.breaker_eq, h.clock_eq]
      rcases s.breaker.react s.clock.now event with ⟨reply, breaker⟩
      exact ⟨rfl, rfl, rfl, h.book_eq, h.threshold_eq, h.free, h.free', h.twins⟩
  | check subject keeps inside within =>
      obtain ⟨hinside, hwithin⟩ := (Bool.and_eq_true ..).mp hplain
      obtain rfl := List.isEmpty_iff.1 hinside
      obtain rfl := List.isEmpty_iff.1 hwithin
      obtain ⟨houtcome, hafter⟩ := h.check subject keeps houtlasts
      refine ⟨?_, hafter⟩
      rw [tale?_run_check, tale?_run_check, houtcome, hafter.breaker_eq]

/-- **A run that is swept and one that is not tell the same.** -/
theorem Mirrors.runAll {rule : Rule} {threshold : Nat} {s s' : Station} (h : Mirrors rule threshold s s')
    {steps : List Step} (hplain : ∀ step ∈ steps, step.isPlain = true)
    (hforward : Forward s.clock.now (momentsOf (Limiter.runAll (withoutSweeps steps) s).1))
    (houtlasts : ∀ record time admission, .decision record time admission ∈
      momentsOf (Limiter.runAll (withoutSweeps steps) s).1 → rule.Outlasts threshold record.policy) :
    tales (Limiter.runAll (withoutSweeps steps) s).1 = tales (Limiter.runAll steps s').1 ∧
      Mirrors rule threshold (Limiter.runAll (withoutSweeps steps) s).2 (Limiter.runAll steps s').2 := by
  induction steps generalizing s s' with
  | nil => exact ⟨rfl, h⟩
  | cons step rest ih =>
      obtain ⟨hstep, hrest⟩ := List.forall_mem_cons.1 hplain
      cases hsweep : step.isSweep with
      | true =>
          cases step with
          | sweep =>
              have hswept := ih h.sweep hrest hforward houtlasts
              rw [Limiter.runAll, Step.run]
              exact hswept
          | check subject keeps inside within => exact absurd hsweep Bool.false_ne_true
          | move m => exact absurd hsweep Bool.false_ne_true
          | breaker event => exact absurd hsweep Bool.false_ne_true
      | false =>
          have hkept : withoutSweeps (step :: rest) = step :: withoutSweeps rest :=
            List.filter_cons_of_pos (by rw [hsweep]; rfl)
          rw [hkept] at hforward houtlasts ⊢
          rw [Limiter.runAll, momentsOf] at hforward houtlasts
          rw [Limiter.runAll, Limiter.runAll]
          obtain ⟨htale, hafter⟩ := h.run hstep hsweep hforward.left
            fun record time admission hm => houtlasts record time admission (List.mem_append_left _ hm)
          obtain ⟨htales, hend⟩ := ih hafter hrest (hforward.right (step.history s).clock_mem)
            fun record time admission hm => houtlasts record time admission (List.mem_append_right _ hm)
          refine ⟨?_, hend⟩
          unfold tales at htales ⊢
          rw [List.filterMap_cons, List.filterMap_cons, htale, htales]

theorem mirrors_self (rule : Rule) (locking : Locking) (inactivity : Duration) (breaker : Breaker) (clock : Clock)
    (book : Table String Record) :
    Mirrors rule (ofRule rule locking inactivity).threshold ⟨ofRule rule locking inactivity, breaker, clock, book⟩
      ⟨ofRule rule locking inactivity, breaker, clock, book⟩ :=
  ⟨rfl, rfl, rfl, rfl, fun _ => rfl, fun _ => rfl, fun _ => .gone rfl rule.sound_none (Or.inl rfl)⟩

/-- **Where sweeps are put in changes no answer and no breaker.**  Of two runs of the same checks, clock and breaker
steps, nothing inside any of them, with sweeps at any points: if the clock never goes back, and the limiter's time
outlasts what the rule keeps under every policy for which it was asked, then every check has the same outcome in both
runs and every step leaves the same breaker, and so do the runs. -/
theorem sweeps_transparent (rule : Rule) (locking : Locking) (inactivity : Duration) (breaker : Breaker)
    (clock : Clock) (book : Table String Record) (steps steps' : List Step)
    (hplain : ∀ step ∈ steps, step.isPlain = true) (hplain' : ∀ step ∈ steps', step.isPlain = true)
    (hsame : withoutSweeps steps' = withoutSweeps steps) :
    let s : Station := ⟨ofRule rule locking inactivity, breaker, clock, book⟩
    Forward clock.now (momentsOf (runAll (withoutSweeps steps) s).1) →
    (∀ record time admission, .decision record time admission ∈ momentsOf (runAll (withoutSweeps steps) s).1 →
      rule.Outlasts (ofRule rule locking inactivity).threshold record.policy) →
    tales (runAll steps' s).1 = tales (runAll steps s).1 ∧
      (runAll steps' s).2.breaker = (runAll steps s).2.breaker ∧
      (runAll steps' s).2.book = (runAll steps s).2.book := by
  intro s hforward houtlasts
  have hself : Mirrors rule (ofRule rule locking inactivity).threshold s s := mirrors_self ..
  obtain ⟨htales, hmirrors⟩ := hself.runAll hplain hforward houtlasts
  rw [← hsame] at hforward houtlasts
  obtain ⟨htales', hmirrors'⟩ := hself.runAll hplain' hforward houtlasts
  rw [hsame] at htales' hmirrors'
  refine ⟨htales'.symm.trans htales, ?_, ?_⟩
  · exact hmirrors'.breaker_eq.trans hmirrors.breaker_eq.symm
  · exact hmirrors'.book_eq.trans hmirrors.book_eq.symm

/-- Ann, who may ask a hundred times a second. -/
def ann : Record := .fresh ⟨"ann", .standard⟩ (.limited 100) 0

/-- Ann asks three times, the second time too soon, and other steps run before the third time. -/
def threeTimes (before : List Step) : List Step :=
  [.check (.given ann) true [] [], .move (.set 5), .check (.given ann) true [] [], .move (.set 16)] ++ before ++
    [.check (.given ann) true [] []]

/-- A bucket for one request that leaks in the ten milliseconds after which clients are forgotten. -/
def office : Station :=
  ⟨ofRule (.leakyBucket ⟨1⟩) .standard (.ofMillis 10), .fresh ⟨5, .ofMillis 1000⟩, ⟨0⟩, Table.empty⟩

/-- Ann is forgotten, or not, before she asks for the third time; she is told the same. -/
theorem ann_unaware_of_sweep :
    ((runAll ((threeTimes [.sweep]).take 5) office).2.limiter.hasState "ann" = false ∧
      (runAll ((threeTimes []).take 4) office).2.limiter.hasState "ann" = true) ∧
    (tales (runAll (threeTimes []) office).1).map (·.1) =
      [some (.ok ⟨.allowed, ann⟩), none, some (.ok ⟨.denyMillis 10, ann⟩), none, some (.ok ⟨.allowed, ann⟩)] ∧
    tales (runAll (threeTimes [.sweep]) office).1 = tales (runAll (threeTimes []) office).1 := by
  have hmoments : momentsOf (runAll (threeTimes []) office).1 =
      [.decision ann 0 ⟨.allowed, ann⟩, .tick 5, .decision ann 5 ⟨.denyMillis 10, ann⟩, .tick 16,
        .decision ann 16 ⟨.allowed, ann⟩] := by decide +kernel
  have htransparent := sweeps_transparent (.leakyBucket ⟨1⟩) .standard (.ofMillis 10)
    (.fresh ⟨5, .ofMillis 1000⟩) ⟨0⟩ Table.empty (threeTimes []) (threeTimes [.sweep]) (by decide) (by decide) rfl
  refine ⟨by decide +kernel, by decide +kernel, (htransparent ?_ ?_).1⟩
  · show Forward 0 (momentsOf (runAll (threeTimes []) office).1)
    decide +kernel
  · intro record time admission hdecision
    change _ ∈ momentsOf (runAll (threeTimes []) office).1 at hdecision
    have hrecord : record = ann := by
      rw [hmoments] at hdecision
      simp only [List.mem_cons, Moment.decision.injEq, reduceCtorEq, false_or, List.not_mem_nil, or_false]
        at hdecision
      rcases hdecision with h | h | h <;> exact h.1
    rw [hrecord]
    show ∀ rate ∈ ann.policy.rate?, 1000 * 1 ≤ (ofRule (.leakyBucket ⟨1⟩) .standard (.ofMillis 10)).threshold * rate
    decide

end Limiter
end AdmissionControl
