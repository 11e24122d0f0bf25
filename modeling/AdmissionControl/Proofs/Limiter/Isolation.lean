import AdmissionControl.Proofs.Limiter.Calm
import AdmissionControl.Proofs.Rule.Records

/-!
# Clients do not hear of each other

All clients of a limiter share what the algorithm keeps, the slots, the sweeps and the book of records.  Two runs are
compared, one of which has lost the checks of all clients but one: that one client is told the same in both.  Only
the breaker carries news from one client to the next, so it has to stay closed.

* `Algorithm.SameFor.respond`, `Algorithm.sameFor_respond` — what an algorithm answers a client depends on what it
  keeps of this client, and no other client changes that.
* `SameView` — two stations that look the same to a client.
* `sameView_of_other`, `SameView.own` — **the two sides of the comparison**: a check of another client leaves the view
  of this one, and its own check is answered from its view.
* `clients_isolated` — **without the others, every client is told the same**, by an algorithm and by a limiter.
-/

namespace AdmissionControl

/-! ## Algorithms -/

namespace Algorithm

/-- One use of an algorithm. -/
inductive Use
  /-- A request is decided, or a client is forgotten. -/
  | call (call : Call)
  /-- A request is answered without the lock, if it can be. -/
  | estimate (record : Record) (now : Nat)
  deriving DecidableEq, Repr

/-- The client that a use is about. -/
def Use.client : Use → String
  | call made => made.client
  | estimate record _ => record.client.id

/-- What a use is answered, and the algorithm after it. -/
def respond (a : Algorithm) : Use → Option Admission × Algorithm
  | .call made => (a.reply? made, a.after made)
  | .estimate record now => (a.estimate record now, a)

/-- What a client is answered when an algorithm is used by many: an eviction has no answer, nor has an estimate that
cannot be made. -/
def answersTo (client : String) : Algorithm → List Use → List (Option Admission)
  | _, [] => []
  | a, use :: rest =>
      if use.client = client then (a.respond use).1 :: answersTo client (a.respond use).2 rest
      else answersTo client (a.respond use).2 rest

variable {client : String} {a b : Algorithm} {record : Record} {use : Use} {now : Nat}

theorem SameFor.estimate_eq (h : SameFor record.client.id a b) (now : Nat) :
    a.estimate record now = b.estimate record now := by
  obtain @⟨rule, kept, kept', h⟩ := h
  exact congrArg (rule.estimate record now) h

/-- A use is answered from what is kept of its client. -/
theorem SameFor.respond (h : SameFor use.client a b) :
    (a.respond use).1 = (b.respond use).1 ∧ SameFor use.client (a.respond use).2 (b.respond use).2 := by
  cases use with
  | call made => exact ⟨h.reply?_eq, h.after rfl⟩
  | estimate record now => exact ⟨h.estimate_eq now, h⟩

/-- A use leaves what is kept of the other clients. -/
theorem sameFor_respond (hne : use.client ≠ client) : SameFor client a (a.respond use).2 := by
  cases use with
  | call made => exact sameFor_after hne
  | estimate record now => exact .refl client a

/-- Two algorithms that keep the same of a client answer it alike, though only one of them is used by others. -/
theorem SameFor.answersTo_eq (h : SameFor client a b) (uses : List Use) :
    b.answersTo client (uses.filter (·.client == client)) = a.answersTo client uses := by
  induction uses generalizing a b with
  | nil => rfl
  | cons use rest ih =>
      by_cases hclient : use.client = client
      · subst hclient
        obtain ⟨hanswer, hafter⟩ := h.respond
        have hkept : (use :: rest).filter (·.client == use.client) = use :: rest.filter (·.client == use.client) :=
          List.filter_cons_of_pos (beq_self_eq_true use.client)
        rw [hkept, answersTo, answersTo, if_pos rfl, if_pos rfl, hanswer, ih hafter]
      · have hdropped : (use :: rest).filter (·.client == client) = rest.filter (·.client == client) :=
          List.filter_cons_of_neg fun hkept => hclient (beq_iff_eq.1 hkept)
        rw [hdropped, answersTo, if_neg hclient]
        exact ih ((sameFor_respond hclient).symm.trans h)

/-- A client that nobody disturbs is answered from what is kept of it. -/
theorem SameFor.answer (h : SameFor record.client.id a b) (now : Nat) :
    (a.answer record now).1 = (b.answer record now).1 ∧
      SameFor record.client.id (a.answer record now).2 (b.answer record now).2 := by
  unfold Algorithm.answer
  rw [h.estimate_eq now]
  cases b.estimate record now with
  | some admission => exact ⟨rfl, h⟩
  | none =>
      have hreply : a.reply? (.decide record now) = b.reply? (.decide record now) := SameFor.reply?_eq h
      have hafter : SameFor record.client.id (a.after (.decide record now)) (b.after (.decide record now)) :=
        h.after rfl
      exact ⟨Option.some.inj hreply, hafter⟩

/-- An answer leaves what is kept of the other clients. -/
theorem sameFor_answer (hne : client ≠ record.client.id) : SameFor client a (a.answer record now).2 := by
  unfold Algorithm.answer
  cases a.estimate record now with
  | some admission => exact .refl client a
  | none =>
      have hother : (Call.decide record now).client ≠ client := hne.symm
      exact sameFor_after hother

/-- An answer is about the client that asked. -/
theorem client_answer (a : Algorithm) (record : Record) (now : Nat) :
    (a.answer record now).1.record.client = record.client := by
  unfold Algorithm.answer
  cases hestimate : a.estimate record now with
  | some admission => exact (Rule.alike_estimate hestimate).client_eq
  | none => exact (Rule.alike_decide ..).client_eq

/-- What is kept of a client that both forget, or that neither forgets, stays the same. -/
theorem SameFor.evictions (h : SameFor client a b) {clients clients' : List String}
    (hsame : client ∈ clients ↔ client ∈ clients') :
    SameFor client (clients.foldl evict a) (clients'.foldl evict b) := by
  obtain @⟨rule, kept, kept', h⟩ := h
  obtain ⟨after, hevictions, hafter⟩ := evictions_eq clients kept
  obtain ⟨after', hevictions', hafter'⟩ := evictions_eq clients' kept'
  rw [hevictions, hevictions']
  refine .of_get? ?_
  rw [hafter, hafter', h]
  simp only [hsame]

end Algorithm

namespace Limiter

/-! ## Steps and their clients -/

/-- The client that a check is about, if there is a record for it. -/
def Subject.client? (book : Table String Record) (subject : Subject) : Option String :=
  (subject.resolve book).toOption.map (·.client.id)

/-- The client that a step is about: only checks are about one. -/
def Step.client? (book : Table String Record) : Step → Option String
  | check subject _ _ _ => subject.client? book
  | sweep | move _ | breaker _ => none

/-- Steps without the checks of other clients.  A check for which there is no record is nobody's, and stays. -/
def withoutOthers (client : String) (book : Table String Record) (steps : List Step) : List Step :=
  steps.filter fun step => (step.client? book).all (· == client)

/-- What a client is told in the course of a run.  The book says whose the names are. -/
def answersTo (client : String) (book : Table String Record) (steps : List Step) (s : Station) :
    List (Except Error Admission) :=
  (steps.zip (runAll steps s).1).filterMap fun told =>
    if told.1.client? book = some client then told.2.outcome? else none

section Names

variable {client : String} {book book' : Table String Record} {subject x : Subject} {record : Record}
  {admission : Admission} {step : Step} {rest : List Step} {s : Station}

theorem answersTo_cons_of_own {outcome : Except Error Admission} (hown : step.client? book = some client)
    (houtcome : (step.run s).outcome? = some outcome) :
    answersTo client book (step :: rest) s = outcome :: answersTo client book rest (step.run s).after := by
  unfold answersTo
  rw [runAll]
  refine List.filterMap_cons_some ?_
  rw [if_pos hown]
  exact houtcome

theorem answersTo_cons_of_ne (hne : step.client? book ≠ some client) :
    answersTo client book (step :: rest) s = answersTo client book rest (step.run s).after := by
  unfold answersTo
  rw [runAll]
  exact List.filterMap_cons_none (if_neg hne)

theorem client?_of_resolve (h : subject.resolve book = .ok record) : subject.client? book = some record.client.id := by
  unfold Subject.client?
  rw [h]
  rfl

theorem resolve_of_client? (h : subject.client? book = some client) :
    ∃ record, subject.resolve book = .ok record ∧ record.client.id = client := by
  unfold Subject.client? at h
  cases hresolve : subject.resolve book with
  | error error =>
      rw [hresolve] at h
      cases h
  | ok record =>
      rw [hresolve] at h
      exact ⟨record, rfl, Option.some.inj h⟩

theorem resolve_of_client?_eq_none (h : subject.client? book = none) :
    ∃ error, subject.resolve book = .error error := by
  cases hresolve : subject.resolve book with
  | error error => exact ⟨error, rfl⟩
  | ok record => cases (client?_of_resolve hresolve).symm.trans h

/-- Only the record that an admission is about may change in the book. -/
theorem resolve_putBack_of_ne (hne : x ≠ subject) : x.resolve (subject.putBack book admission) = x.resolve book := by
  cases subject with
  | given record => rfl
  | unsound error => rfl
  | named name =>
      cases x with
      | given record => rfl
      | unsound error => rfl
      | named other =>
          have hother : other ≠ name := fun h => hne (congrArg Subject.named h)
          have hget : (book.set name admission.record).get? other = book.get? other :=
            (Table.get?_set ..).trans (if_neg hother)
          unfold Subject.resolve Subject.putBack
          dsimp only
          rw [hget]

theorem resolve_putBack_named {name : String} :
    (Subject.named name).resolve ((Subject.named name).putBack book admission) = .ok admission.record := by
  have hget : (book.set name admission.record).get? name = some admission.record :=
    (Table.get?_set ..).trans (if_pos rfl)
  unfold Subject.resolve Subject.putBack
  dsimp only
  rw [hget]

/-- An admission that is about the client of its record leaves every name with its client. -/
theorem client?_putBack (hsubject : subject.resolve book = .ok record)
    (hclient : admission.record.client = record.client) (x : Subject) :
    x.client? (subject.putBack book admission) = x.client? book := by
  by_cases hx : x = subject
  · subst hx
    cases x with
    | given given => rfl
    | unsound error => rfl
    | named name =>
        rw [client?_of_resolve resolve_putBack_named, client?_of_resolve hsubject, hclient]
  · unfold Subject.client?
    rw [resolve_putBack_of_ne hx]

/-- The same admission leaves the same under what stood for the same record before. -/
theorem resolve_putBack_congr (h : x.resolve book' = x.resolve book) :
    x.resolve (subject.putBack book' admission) = x.resolve (subject.putBack book admission) := by
  by_cases hx : x = subject
  · subst hx
    cases x with
    | given given => rfl
    | unsound error => rfl
    | named name => rw [resolve_putBack_named, resolve_putBack_named]
  · rw [resolve_putBack_of_ne hx, resolve_putBack_of_ne hx, h]

end Names

/-! ## What a client sees of a station -/

/-- When a client last asked, if it has a slot. -/
def access? (l : Limiter) (client : String) : Option Nat := (l.slots.get? client).map Slot.lastAccess

/-- The names of two books stand for the same clients. -/
def SameNames (book book' : Table String Record) : Prop :=
  ∀ subject : Subject, subject.client? book' = subject.client? book

/-- Two stations that look the same to a client.  The book says whose the names are. -/
structure SameView (client : String) (book : Table String Record) (s s' : Station) : Prop where
  /-- Their clocks show the same. -/
  clock_eq : s'.clock = s.clock
  /-- They forget clients after the same time. -/
  threshold_eq : s'.limiter.threshold = s.limiter.threshold
  /-- Their algorithms keep the same of the client. -/
  kept : Algorithm.SameFor client s.limiter.algorithm s'.limiter.algorithm
  /-- The client last asked at the same time. -/
  access_eq : s'.limiter.access? client = s.limiter.access? client
  /-- The client's names stand for the same records. -/
  records : ∀ subject : Subject, subject.client? book = some client →
    subject.resolve s'.book = subject.resolve s.book

section Accesses

variable {l l' : Limiter} {client : String} {record : Record} {now : Nat}

theorem lastAccess_look (l : Limiter) (client : String) (now : Nat) :
    (l.look client now).1.lastAccess = (l.access? client).elim now (max · now) := by
  unfold look access?
  cases l.slots.get? client with
  | none => rfl
  | some slot => rfl

theorem Asked.access? (h : Asked l record now l') :
    l'.access? record.client.id = some ((l.access? record.client.id).elim now (max · now)) := by
  rw [← lastAccess_look]
  exact h.stamped

theorem Asked.access?_of_ne (h : Asked l record now l') (hne : client ≠ record.client.id) :
    l'.access? client = l.access? client :=
  congrArg (Option.map Slot.lastAccess) (h.others client hne)

/-- A client whose lock is free is forgotten for nothing but the time at which it last asked. -/
theorem mem_idleClients_of_free (hfree : l.isHeld client = false) :
    client ∈ l.idleClients now ↔ ∃ time, l.access? client = some time ∧ l.threshold < now - time := by
  rw [mem_idleClients_iff]
  unfold Limiter.access?
  unfold isHeld at hfree
  cases hslot : l.slots.get? client with
  | none => simp
  | some slot =>
      rw [hslot] at hfree
      have hunheld : slot.isHeld = false := hfree
      simp [Slot.isIdle, hunheld]

theorem access?_sweep (l : Limiter) (now : Nat) (client : String) :
    (l.sweep now).access? client = if client ∈ l.idleClients now then none else l.access? client := by
  unfold Limiter.access?
  rw [slots_sweep]
  split
  · rfl
  · rfl

end Accesses

section Views

variable {client : String} {book : Table String Record} {s s' t t' : Station} {first : Step} {rest : List Step}
  {subject : Subject} {keeps : Bool} {record : Record} {outcome outcome' : Except Error Admission}

namespace SameView

theorem refl (client : String) (book : Table String Record) (s : Station) : SameView client book s s :=
  ⟨rfl, rfl, .refl client s.limiter.algorithm, rfl, fun _ _ => rfl⟩

theorem symm (h : SameView client book s s') : SameView client book s' s where
  clock_eq := h.clock_eq.symm
  threshold_eq := h.threshold_eq.symm
  kept := h.kept.symm
  access_eq := h.access_eq.symm
  records := fun subject hown => (h.records subject hown).symm

theorem trans (h : SameView client book s s') (h' : SameView client book s' t) : SameView client book s t where
  clock_eq := h'.clock_eq.trans h.clock_eq
  threshold_eq := h'.threshold_eq.trans h.threshold_eq
  kept := h.kept.trans h'.kept
  access_eq := h'.access_eq.trans h.access_eq
  records := fun subject hown => (h'.records subject hown).trans (h.records subject hown)

theorem sweep (h : SameView client book s s') (hfree : s.limiter.isHeld client = false)
    (hfree' : s'.limiter.isHeld client = false) :
    SameView client book (Step.sweep.run s).after (Step.sweep.run s').after := by
  rw [Step.run, Step.run]
  have hidle : client ∈ s.limiter.idleClients s.clock.now ↔ client ∈ s'.limiter.idleClients s'.clock.now := by
    rw [mem_idleClients_of_free hfree, mem_idleClients_of_free hfree', h.access_eq, h.threshold_eq, h.clock_eq]
  refine ⟨h.clock_eq, h.threshold_eq, h.kept.evictions hidle, ?_, h.records⟩
  show (s'.limiter.sweep s'.clock.now).access? client = (s.limiter.sweep s.clock.now).access? client
  rw [access?_sweep, access?_sweep, h.access_eq]
  simp only [hidle]

theorem move (h : SameView client book s s') (m : Clock.Move) :
    SameView client book ((Step.move m).run s).after ((Step.move m).run s').after := by
  rw [Step.run, Step.run]
  exact ⟨congrArg (·.move m) h.clock_eq, h.threshold_eq, h.kept, h.access_eq, h.records⟩

/-- The client itself is answered by both algorithms. -/
theorem asked {l l' : Limiter} (h : SameView record.client.id book s s')
    (hasked : Asked s.limiter record s.clock.now l) (hasked' : Asked s'.limiter record s'.clock.now l') :
    (s'.limiter.algorithm.answer record s'.clock.now).1 = (s.limiter.algorithm.answer record s.clock.now).1 ∧
      SameView record.client.id book { s with limiter := l } { s' with limiter := l' } := by
  rw [h.clock_eq] at hasked' ⊢
  obtain ⟨hanswer, hkept⟩ := h.kept.answer s.clock.now
  refine ⟨hanswer.symm, rfl, ?_, ?_, ?_, h.records⟩
  · exact hasked'.threshold_eq.trans (h.threshold_eq.trans hasked.threshold_eq.symm)
  · rw [hasked.algorithm_eq, hasked'.algorithm_eq]
    exact hkept
  · dsimp only
    rw [hasked.access?, hasked'.access?, h.access_eq]

theorem conclude (h : SameView client book s s') (subject : Subject) (keeps : Bool) (admission : Admission) :
    SameView client book (s.conclude subject keeps admission) (s'.conclude subject keeps admission) := by
  refine ⟨h.clock_eq, h.threshold_eq, h.kept, h.access_eq, ?_⟩
  intro x hown
  cases keeps with
  | false => exact h.records x hown
  | true => exact resolve_putBack_congr (h.records x hown)

/-- **Its own check is answered from the client's view**, and leaves the two stations looking the same to it. -/
theorem alone (h : SameView record.client.id book s s') (halone : Alone s subject keeps record outcome t)
    (halone' : Alone s' subject keeps record outcome' t') :
    outcome' = outcome ∧ SameView record.client.id book t t' := by
  cases halone with
  | settled hgate =>
      cases halone' with
      | settled hgate' => exact ⟨Gate.settled.inj (hgate'.symm.trans hgate), h⟩
      | answered hgate' hasked' => cases hgate.symm.trans hgate'
  | answered hgate hasked =>
      cases halone' with
      | settled hgate' => cases hgate.symm.trans hgate'
      | answered hgate' hasked' =>
          obtain ⟨hanswer, hview⟩ := h.asked hasked hasked'
          rw [hanswer]
          exact ⟨rfl, hview.conclude subject keeps _⟩

end SameView

namespace Alone

/-- A check leaves every name with its client. -/
theorem sameNames (h : Alone s subject keeps record outcome t) (hsubject : subject.resolve s.book = .ok record)
    (hnames : SameNames book s.book) : SameNames book t.book := by
  cases h with
  | settled hgate => exact hnames
  | answered hgate hasked =>
      intro x
      unfold Station.conclude
      dsimp only
      cases keeps with
      | false => exact hnames x
      | true => exact (client?_putBack hsubject (Algorithm.client_answer ..) x).trans (hnames x)

/-- **The check of another client leaves what this one sees.** -/
theorem sameView (h : Alone s subject keeps record outcome t) (hsubject : subject.resolve s.book = .ok record)
    (hnames : SameNames book s.book) (hne : record.client.id ≠ client) : SameView client book s t := by
  cases h with
  | settled hgate => exact .refl client book s
  | @answered l hgate hasked =>
      have hanswered : SameView client book s { s with limiter := l } := by
        refine ⟨rfl, hasked.threshold_eq, ?_, hasked.access?_of_ne hne.symm, fun _ _ => rfl⟩
        rw [hasked.algorithm_eq]
        exact Algorithm.sameFor_answer hne.symm
      refine hanswered.trans ⟨rfl, rfl, .refl .., rfl, ?_⟩
      intro x hown
      -- a name of this client is not the one that the check was about
      have hother : x ≠ subject := by
        rintro rfl
        have hclient := (hnames x).symm.trans (client?_of_resolve hsubject)
        exact hne (Option.some.inj (hclient.symm.trans hown))
      cases keeps with
      | false => rfl
      | true => exact resolve_putBack_of_ne hother

end Alone

/-! ## Two runs -/

theorem SameNames.step (hnames : SameNames book s.book) (hcalm : Calm (first :: rest) s) :
    SameNames book (first.run s).after.book := by
  cases first with
  | sweep =>
      rw [Step.run]
      exact hnames
  | move m =>
      rw [Step.run]
      exact hnames
  | breaker event => exact absurd (List.forall_mem_cons.1 hcalm.quiet).1.symm Bool.false_ne_true
  | check subject keeps inside within =>
      cases hsubject : subject.resolve s.book with
      | error error =>
          rw [Step.run, hsubject]
          exact hnames
      | ok record =>
          obtain ⟨outcome, -, halone⟩ := hcalm.alone hsubject
          exact halone.sameNames hsubject hnames

/-- One run does the check of another client, and the other run does nothing. -/
theorem sameView_of_other (hcalm : Calm (first :: rest) s) (hnames : SameNames book s.book) {other : String}
    (hother : first.client? book = some other) (hne : other ≠ client) :
    SameView client book s (first.run s).after := by
  cases first with
  | sweep => cases hother
  | move m => cases hother
  | breaker event => cases hother
  | check subject keeps inside within =>
      obtain ⟨record, hsubject, rfl⟩ := resolve_of_client? ((hnames subject).trans hother)
      obtain ⟨outcome, -, halone⟩ := hcalm.alone hsubject
      exact halone.sameView hsubject hnames hne

namespace SameView

/-- Both runs do a check of the client. -/
theorem own (h : SameView client book s s') (hcalm : Calm (first :: rest) s) (hcalm' : Calm (first :: rest) s')
    (hnames : SameNames book s.book) (hown : first.client? book = some client) :
    ∃ outcome, (first.run s).outcome? = some outcome ∧ (first.run s').outcome? = some outcome ∧
      SameView client book (first.run s).after (first.run s').after := by
  cases first with
  | sweep => cases hown
  | move m => cases hown
  | breaker event => cases hown
  | check subject keeps inside within =>
      obtain ⟨record, hsubject, rfl⟩ := resolve_of_client? ((hnames subject).trans hown)
      have hsubject' : subject.resolve s'.book = .ok record := (h.records subject hown).trans hsubject
      obtain ⟨outcome, houtcome, halone⟩ := hcalm.alone hsubject
      obtain ⟨outcome', houtcome', halone'⟩ := hcalm'.alone hsubject'
      obtain ⟨rfl, hview⟩ := h.alone halone halone'
      exact ⟨outcome', houtcome, houtcome', hview⟩

/-- Both runs do a step that is about no client. -/
theorem common (h : SameView client book s s') (hcalm : Calm (first :: rest) s) (hcalm' : Calm (first :: rest) s')
    (hnames : SameNames book s.book) (hnames' : SameNames book s'.book) (hnobody : first.client? book = none) :
    SameView client book (first.run s).after (first.run s').after := by
  cases first with
  | sweep => exact h.sweep (hcalm.free client) (hcalm'.free client)
  | move m => exact h.move m
  | breaker event => exact absurd (List.forall_mem_cons.1 hcalm.quiet).1.symm Bool.false_ne_true
  | check subject keeps inside within =>
      obtain ⟨error, hsubject⟩ := resolve_of_client?_eq_none ((hnames subject).trans hnobody)
      obtain ⟨error', hsubject'⟩ := resolve_of_client?_eq_none ((hnames' subject).trans hnobody)
      rw [Step.run, Step.run, hsubject, hsubject']
      exact h

/-- **A run and the same run without the checks of the others tell the client the same**, from stations that look the
same to it. -/
theorem answersTo_eq {steps : List Step} (h : SameView client book s s') (hcalm : Calm steps s)
    (hcalm' : Calm steps s') (hnames : SameNames book s.book) (hnames' : SameNames book s'.book) :
    answersTo client book (withoutOthers client book steps) s' = answersTo client book steps s := by
  induction steps generalizing s s' with
  | nil => rfl
  | cons first rest ih =>
      have hrest := hnames.step hcalm
      have hrest' := hnames'.step hcalm'
      cases hclient : first.client? book with
      | none =>
          have hkept : withoutOthers client book (first :: rest) = first :: withoutOthers client book rest :=
            List.filter_cons_of_pos (by rw [hclient]; rfl)
          have hnobody : first.client? book ≠ some client := by
            rw [hclient]
            exact (Option.some_ne_none client).symm
          rw [hkept, answersTo_cons_of_ne hnobody, answersTo_cons_of_ne hnobody]
          exact ih (h.common hcalm hcalm' hnames hnames' hclient) hcalm.step hcalm'.step hrest hrest'
      | some other =>
          by_cases hother : other = client
          · subst hother
            have hkept : withoutOthers other book (first :: rest) = first :: withoutOthers other book rest :=
              List.filter_cons_of_pos (by rw [hclient]; exact beq_self_eq_true other)
            obtain ⟨outcome, houtcome, houtcome', hview⟩ := h.own hcalm hcalm' hnames hclient
            rw [hkept, answersTo_cons_of_own hclient houtcome, answersTo_cons_of_own hclient houtcome',
              ih hview hcalm.step hcalm'.step hrest hrest']
          · have hdropped : withoutOthers client book (first :: rest) = withoutOthers client book rest :=
              List.filter_cons_of_neg (by rw [hclient]; exact fun hkept => hother (beq_iff_eq.1 hkept))
            have hne : first.client? book ≠ some client := by
              rw [hclient]
              exact fun hsame => hother (Option.some.inj hsame)
            rw [hdropped, answersTo_cons_of_ne hne]
            exact ih ((sameView_of_other hcalm hnames hclient hother).symm.trans h) hcalm.step hcalm'.tail hrest
              hnames'

end SameView
end Views

/-- **Without the others, every client is told the same.**  An algorithm of any kind, used in any way by many clients,
answers a client as if the uses of the others had not been made.  So does a limiter, whatever the others ask and
wherever the clock goes: if the steps run one after another, and the breaker has room for a failure of every check, then
the client is told the same when all checks of other clients are left out. -/
theorem clients_isolated (client : String) :
    (∀ (a : Algorithm) (uses : List Algorithm.Use),
      a.answersTo client (uses.filter (·.client == client)) = a.answersTo client uses) ∧
    ∀ (s : Station) (steps : List Step), Calm steps s →
      answersTo client s.book (withoutOthers client s.book steps) s = answersTo client s.book steps s := by
  constructor
  · intro a uses
    exact (Algorithm.SameFor.refl client a).answersTo_eq uses
  · intro s steps hcalm
    have hnames : SameNames s.book s.book := fun _ => rfl
    exact (SameView.refl client s.book s).answersTo_eq hcalm hcalm hnames hnames

/-- A visitor who may come once in each window. -/
def visitor (name : String) : Record := .fresh ⟨name, .standard⟩ (.limited 1) 0

/-- A house with windows of ten milliseconds that forgets a visitor after eight; Ann and Bob stand in its book. -/
def house : Station :=
  ⟨ofRule (.fixedWindow (.ofMillis 10)) .standard (.ofMillis 8), .fresh ⟨8, .ofMillis 1000⟩, ⟨0⟩,
    Table.ofList [("ann", visitor "ann"), ("bob", visitor "bob")]⟩

/-- A visitor comes, and the book is kept. -/
def visit (name : String) : Step := .check (.named name) true [] []

/-- Ann comes three times, and Bob comes four times in between. -/
def visits : List Step :=
  [visit "ann", visit "bob", visit "bob", .move (.set 5), visit "ann", visit "bob", .move (.set 16), .sweep,
    visit "bob", visit "ann"]

/-- A bucket of one token is used by both: Ann asks, Bob is decided and forgotten, and Ann asks again. -/
def sharing : List Algorithm.Use :=
  [.call (.decide (visitor "ann") 0), .call (.decide (visitor "bob") 1), .call (.evict "bob"),
    .estimate (visitor "ann") 2]

/-- Ann is told the same whether Bob comes or not. -/
theorem ann_unaware_of_bob :
    (Algorithm.ofRule (.tokenBucket ⟨1, 1000⟩)).answersTo "ann" (sharing.filter (·.client == "ann")) =
        (Algorithm.ofRule (.tokenBucket ⟨1, 1000⟩)).answersTo "ann" sharing ∧
      (Calm visits house ∧ checkCount (withoutOthers "ann" house.book visits) = 3) ∧
      answersTo "ann" house.book visits house =
        [.ok ⟨.allowed, visitor "ann"⟩, .ok ⟨.denyMillis 5, visitor "ann"⟩, .ok ⟨.allowed, visitor "ann"⟩] ∧
      answersTo "ann" house.book (withoutOthers "ann" house.book visits) house =
        answersTo "ann" house.book visits house := by
  have hcalm : Calm visits house := calm_of_fresh _ _ _ _ _ (by decide) (by decide) (by decide)
  refine ⟨(clients_isolated "ann").1 _ sharing, ⟨hcalm, by decide +kernel⟩, by decide +kernel, ?_⟩
  exact (clients_isolated "ann").2 house visits hcalm

end Limiter
end AdmissionControl
