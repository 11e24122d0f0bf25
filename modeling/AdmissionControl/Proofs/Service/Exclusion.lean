import Mathlib.Data.List.Perm.Subperm
import AdmissionControl.Proofs.Service.Leases

/-!
# Mutual exclusion of records

Whoever leases, asks, leaves the line and gives back, in whatever order: the locks of records keep requests for one
record apart, and when the last of them is gone nothing is left of it.

Which leases are outstanding, and who has asked, is told by the steps themselves, without a look at the locks: what the
locks have written down about it is part of what has to be right.

* `Usage` — what is outstanding after some steps, counted from the steps alone.
* `Tidy` — the invariant of the locks: the table has an entry only for a record that is leased, and the mutexes in it
  are distinct and were all made before the next one.
* `Recorded` — the invariant between the two: the locks have written down what the steps tell.
* `Tidy.step`, `Recorded.step` — every step keeps them, and `Tidy.run`, `Recorded.run` every run.
* `Exclusive`, `exclusive_run` — **mutual exclusion, and nothing left behind**: what users of the locks rely on holds
  after every run.
-/

namespace AdmissionControl
namespace RecordLocks

/-- The locks after some steps. -/
def run (l : RecordLocks) (steps : List Step) : RecordLocks := steps.foldl step l

/-- The locks are in order, and there is nothing in the table that nobody uses. -/
structure Tidy (l : RecordLocks) : Prop where
  /-- Every lease is on the mutex of its record. -/
  sound : Sound l
  /-- A record with a mutex is leased. -/
  used : ∀ key mutex, l.entries.get? key = some mutex → ∃ lease ∈ l.leases, lease.key = key
  /-- Mutexes are made one after another. -/
  mutex_lt : ∀ key mutex, l.entries.get? key = some mutex → mutex < l.nextMutex
  /-- No two records have the same mutex. -/
  apart : ∀ key other mutex, l.entries.get? key = some mutex → l.entries.get? other = some mutex → key = other

theorem tidy_empty : Tidy empty := by
  refine ⟨sound_empty, ?_, ?_, ?_⟩
  · intro key mutex hentry
    cases hentry
  · intro key mutex hentry
    cases hentry
  · intro key other mutex hentry _
    cases hentry

variable {l : RecordLocks} {a b : Lease} {t u : Nat}

/-! ## One step -/

/-- The mutex of a new lease is the one that its record has, or one that no record has. -/
theorem mutex_lease (l : RecordLocks) (key : RecordKey) :
    l.entries.get? key = some (l.lease key).1.mutex ∧ (l.lease key).2.nextMutex = l.nextMutex ∨
      l.entries.get? key = none ∧ (l.lease key).1.mutex = l.nextMutex ∧
        (l.lease key).2.nextMutex = l.nextMutex + 1 := by
  rw [lease]
  cases hentry : l.entries.get? key with
  | some mutex => exact .inl ⟨rfl, rfl⟩
  | none => exact .inr ⟨rfl, rfl, rfl⟩

/-- The mutex of a new lease is that of no other record. -/
theorem Tidy.mutex_lease_ne (h : Tidy l) {key x : RecordKey} {mutex : Nat} (hx : x ≠ key)
    (hentry : l.entries.get? x = some mutex) : (l.lease key).1.mutex ≠ mutex := by
  rintro rfl
  rcases l.mutex_lease key with ⟨hold, -⟩ | ⟨-, hmutex, -⟩
  · exact hx (h.apart x key _ hentry hold)
  · exact absurd (h.mutex_lt x _ hentry) (by rw [hmutex]; exact Nat.lt_irrefl _)

theorem Tidy.lease (h : Tidy l) (key : RecordKey) : Tidy (l.lease key).2 := by
  refine ⟨h.sound.lease key, ?_, ?_, ?_⟩
  · intro x mutex hentry
    rw [leases_lease]
    rw [get?_entries_lease] at hentry
    by_cases hx : x = key
    · refine ⟨(l.lease key).1, List.mem_append_right _ (List.mem_singleton.2 rfl), ?_⟩
      rw [key_lease, hx]
    · rw [if_neg hx] at hentry
      obtain ⟨lease, hmem, hlease⟩ := h.used x mutex hentry
      exact ⟨lease, List.mem_append_left _ hmem, hlease⟩
  · intro x mutex hentry
    rw [get?_entries_lease] at hentry
    rcases l.mutex_lease key with ⟨hold, hnext⟩ | ⟨-, hmutex, hnext⟩
    · rw [hnext]
      split at hentry
      · exact h.mutex_lt key mutex (hold.trans hentry)
      · exact h.mutex_lt x mutex hentry
    · rw [hnext]
      split at hentry
      · rw [← Option.some.inj hentry, hmutex]
        exact Nat.lt_succ_self _
      · exact Nat.lt_succ_of_lt (h.mutex_lt x mutex hentry)
  · intro x y mutex hx hy
    rw [get?_entries_lease] at hx hy
    by_cases hxk : x = key
    · by_cases hyk : y = key
      · rw [hxk, hyk]
      · rw [if_pos hxk] at hx
        rw [if_neg hyk] at hy
        exact absurd (Option.some.inj hx) (h.mutex_lease_ne hyk hy)
    · by_cases hyk : y = key
      · rw [if_neg hxk] at hx
        rw [if_pos hyk] at hy
        exact absurd (Option.some.inj hy) (h.mutex_lease_ne hxk hx)
      · rw [if_neg hxk] at hx
        rw [if_neg hyk] at hy
        exact h.apart x y mutex hx hy

theorem leases_ask (l : RecordLocks) (t : Nat) : (l.ask t).leases = l.leases := by
  rw [ask]
  split
  · rfl
  · rfl

theorem entries_ask (l : RecordLocks) (t : Nat) : (l.ask t).entries = l.entries := by
  rw [ask]
  split
  · rfl
  · rfl

theorem nextMutex_ask (l : RecordLocks) (t : Nat) : (l.ask t).nextMutex = l.nextMutex := by
  rw [ask]
  split
  · rfl
  · rfl

theorem Tidy.ask (h : Tidy l) (t : Nat) : Tidy (l.ask t) := by
  refine ⟨h.sound.ask t, ?_, ?_, ?_⟩
  · rw [entries_ask, leases_ask]
    exact h.used
  · rw [entries_ask, nextMutex_ask]
    exact h.mutex_lt
  · rw [entries_ask]
    exact h.apart

theorem Sound.release (h : Sound l) (t : Nat) : Sound (l.release t) := by
  refine ⟨h.tickets_distinct, h.ticket_lt, h.entry_eq, ?_⟩
  intro ticket hticket
  exact h.line_leased ticket (List.mem_of_mem_filter hticket)

theorem Tidy.release (h : Tidy l) (t : Nat) : Tidy (l.release t) :=
  ⟨h.sound.release t, h.used, h.mutex_lt, h.apart⟩

/-- The leases that are left when one is given back. -/
theorem Sound.leases_drop (h : Sound l) (t : Nat) : (l.drop t).leases = l.leases.filter (·.ticket != t) := by
  rw [RecordLocks.drop]
  cases hfind : l.find? t with
  | some lease => rfl
  | none =>
      refine (List.filter_eq_self.2 fun lease hmem => ?_).symm
      rw [bne_iff_ne]
      intro hticket
      have hfound := h.find?_eq_some_iff.2 ⟨hmem, hticket⟩
      rw [hfind] at hfound
      cases hfound

theorem nextMutex_drop (l : RecordLocks) (t : Nat) : (l.drop t).nextMutex = l.nextMutex := by
  rw [drop]
  cases l.find? t with
  | none => rfl
  | some lease => rfl

/-- Giving a lease back takes entries out, and puts none in. -/
theorem get?_of_get?_drop {key : RecordKey} {mutex : Nat} (hentry : (l.drop t).entries.get? key = some mutex) :
    l.entries.get? key = some mutex := by
  rw [drop] at hentry
  cases hfind : l.find? t with
  | none =>
      rw [hfind] at hentry
      exact hentry
  | some lease =>
      rw [hfind] at hentry
      dsimp only at hentry
      split at hentry
      · rw [Table.get?_erase] at hentry
        split at hentry
        · cases hentry
        · exact hentry
      · exact hentry

/-- A mutex with another count than one has another lease. -/
theorem Sound.exists_other (h : Sound l) (ha : a ∈ l.leases) (hcount : l.leaseCount a.mutex ≠ 1) :
    ∃ b ∈ l.leases, b.mutex = a.mutex ∧ b ≠ a := by
  by_contra hnone
  have honly : ∀ b ∈ l.leases.filter (fun lease => lease.mutex == a.mutex), b ∈ [a] := by
    intro b hb
    obtain ⟨hmem, hmutex⟩ := List.mem_filter.1 hb
    by_contra hne
    exact hnone ⟨b, hmem, beq_iff_eq.1 hmutex, fun heq => hne (List.mem_singleton.2 heq)⟩
  have hnodup : (l.leases.filter (fun lease => lease.mutex == a.mutex)).Nodup :=
    (List.Nodup.of_map _ h.tickets_distinct).filter _
  have hle : l.leaseCount a.mutex ≤ 1 := (hnodup.subperm honly).length_le
  have hpos : 0 < l.leaseCount a.mutex :=
    List.length_pos_of_mem (List.mem_filter.2 ⟨ha, beq_self_eq_true a.mutex⟩)
  omega

theorem Tidy.drop (h : Tidy l) (t : Nat) : Tidy (l.drop t) := by
  refine ⟨h.sound.drop t, ?_, ?_, ?_⟩
  · intro key mutex hentry
    obtain ⟨b, hb, hkey⟩ := h.used key mutex (get?_of_get?_drop hentry)
    by_cases hticket : b.ticket = t
    · -- the lease that goes is one of the record, which keeps its entry because there is another
      have hfind : l.find? t = some b := h.sound.find?_eq_some_iff.2 ⟨hb, hticket⟩
      have hcount : l.leaseCount b.mutex ≠ 1 := by
        intro hone
        have hold : l.entries.get? key = some b.mutex := hkey ▸ h.sound.entry_eq b hb
        rw [RecordLocks.drop, hfind] at hentry
        simp [hone, hkey, hold] at hentry
      obtain ⟨c, hc, hmutex, hne⟩ := h.sound.exists_other hb hcount
      have hc' : c ∈ (l.drop t).leases := by
        rw [h.sound.leases_drop]
        refine List.mem_filter.2 ⟨hc, bne_iff_ne.2 fun hsame => hne ?_⟩
        exact List.inj_on_of_nodup_map h.sound.tickets_distinct hc hb (hsame.trans hticket.symm)
      refine ⟨c, hc', ?_⟩
      rw [← hkey]
      exact h.apart c.key b.key c.mutex (h.sound.entry_eq c hc) (hmutex ▸ h.sound.entry_eq b hb)
    · refine ⟨b, ?_, hkey⟩
      rw [h.sound.leases_drop]
      exact List.mem_filter.2 ⟨hb, bne_iff_ne.2 hticket⟩
  · intro key mutex hentry
    rw [nextMutex_drop]
    exact h.mutex_lt key mutex (get?_of_get?_drop hentry)
  · intro key other mutex hentry hother
    exact h.apart key other mutex (get?_of_get?_drop hentry) (get?_of_get?_drop hother)

/-! ## Runs -/

theorem Tidy.step (h : Tidy l) (s : Step) : Tidy (l.step s) := by
  cases s with
  | lease key => exact h.lease key
  | ask ticket => exact h.ask ticket
  | release ticket => exact h.release ticket
  | drop ticket => exact h.drop ticket

theorem Tidy.run (h : Tidy l) (steps : List Step) : Tidy (l.run steps) := by
  induction steps generalizing l with
  | nil => exact h
  | cons s steps ih => exact ih (h.step s)

/-! ## A holder holds on -/

/-- A lease stays what it is until it is given back. -/
theorem Sound.find?_step (h : Sound l) (hfind : l.find? t = some a) {s : Step} (hdrop : s ≠ .drop t) :
    (l.step s).find? t = some a := by
  cases s with
  | lease key => exact (find?_lease_of_ne (Nat.ne_of_lt (h.lt_of_find? hfind))).trans hfind
  | ask ticket => exact (l.find?_ask ticket t).trans hfind
  | release ticket => exact hfind
  | drop ticket =>
      have hne : t ≠ ticket := fun heq => hdrop (heq ▸ rfl)
      rw [RecordLocks.step, find?_drop, if_neg hne]
      exact hfind

theorem Tidy.find?_run (h : Tidy l) (hfind : l.find? t = some a) {steps : List Step} (hdrop : .drop t ∉ steps) :
    (l.run steps).find? t = some a := by
  induction steps generalizing l with
  | nil => exact hfind
  | cons s steps ih =>
      obtain ⟨hdrop', hdrop⟩ := not_or.1 (List.mem_cons.not.1 hdrop)
      exact ih (h.step s) (h.sound.find?_step hfind (Ne.symm hdrop')) hdrop

/-- A holder holds on when another leaves the line. -/
theorem holds_release (hfind : l.find? t = some a) (hholds : l.holds t = true) (hne : t ≠ u) :
    (l.release u).holds t = true := by
  have hfind' : (l.release u).find? t = some a := hfind
  rw [holds_iff_of_find? hfind']
  exact holder?_of_filter rfl hne (fun _ _ => rfl) ((holds_iff_of_find? hfind).1 hholds)

/-- A holder holds on in every step that is not its own leaving. -/
theorem Sound.holds_step (h : Sound l) (hfind : l.find? t = some a) (hholds : l.holds t = true) {s : Step}
    (hrelease : s ≠ .release t) (hdrop : s ≠ .drop t) : (l.step s).holds t = true := by
  cases s with
  | lease key => exact h.holds_lease hfind hholds key
  | ask ticket => exact holds_ask hfind hholds ticket
  | release ticket =>
      have hne : t ≠ ticket := fun heq => hrelease (heq ▸ rfl)
      exact holds_release hfind hholds hne
  | drop ticket =>
      have hne : t ≠ ticket := fun heq => hdrop (heq ▸ rfl)
      exact h.holds_drop hfind hholds hne

/-- A holder holds on until it leaves. -/
theorem Tidy.holds_run (h : Tidy l) (hfind : l.find? t = some a) (hholds : l.holds t = true)
    {steps : List Step} (hrelease : .release t ∉ steps) (hdrop : .drop t ∉ steps) :
    (l.run steps).holds t = true := by
  induction steps generalizing l with
  | nil => exact hholds
  | cons s steps ih =>
      obtain ⟨hrelease', hrelease⟩ := not_or.1 (List.mem_cons.not.1 hrelease)
      obtain ⟨hdrop', hdrop⟩ := not_or.1 (List.mem_cons.not.1 hdrop)
      have hfind' := h.sound.find?_step hfind (Ne.symm hdrop')
      have hholds' := h.sound.holds_step hfind hholds (Ne.symm hrelease') (Ne.symm hdrop')
      exact ih (h.step s) hfind' hholds' hrelease hdrop

/-- Who holds a mutex stands in line. -/
theorem Sound.mem_line_of_holds (h : Sound l) (ha : a ∈ l.leases) (hholds : l.holds a.ticket = true) :
    a.ticket ∈ l.line := by
  have hfind : l.find? a.ticket = some a := h.find?_eq_some_iff.2 ⟨ha, rfl⟩
  exact List.mem_of_find?_eq_some ((holds_iff_of_find? hfind).1 hholds)

/-- Somebody holds a mutex that somebody stands in line for. -/
theorem Sound.exists_holds (h : Sound l) (ha : a ∈ l.leases) (hline : a.ticket ∈ l.line) :
    ∃ b ∈ l.leases, b.mutex = a.mutex ∧ l.holds b.ticket = true := by
  have hfind : l.find? a.ticket = some a := h.find?_eq_some_iff.2 ⟨ha, rfl⟩
  have hsome : (l.holder? a.mutex).isSome = true := by
    rw [holder?, List.find?_isSome]
    refine ⟨a.ticket, hline, ?_⟩
    rw [mutex?, hfind]
    exact beq_self_eq_true _
  obtain ⟨ticket, hholder⟩ := Option.isSome_iff_exists.1 hsome
  obtain ⟨hmutex, -⟩ := holder?_eq_some_iff.1 hholder
  obtain ⟨b, hb, hsame⟩ := Option.map_eq_some_iff.1 hmutex
  obtain ⟨hmem, rfl⟩ := h.find?_eq_some_iff.1 hb
  refine ⟨b, hmem, hsame, (holds_iff_of_find? hb).2 ?_⟩
  rw [hsame]
  exact hholder

/-! ## Mutexes and records -/

/-- Leases are on one mutex if they are of one record, and only then. -/
theorem Tidy.mutex_eq_iff (h : Tidy l) (ha : a ∈ l.leases) (hb : b ∈ l.leases) : a.mutex = b.mutex ↔ a.key = b.key := by
  have hentrya := h.sound.entry_eq a ha
  have hentryb := h.sound.entry_eq b hb
  constructor
  · intro hmutex
    rw [hmutex] at hentrya
    exact h.apart a.key b.key b.mutex hentrya hentryb
  · intro hkey
    rw [hkey, hentryb] at hentrya
    exact (Option.some.inj hentrya).symm

/-- The tickets that are on the mutex of a lease are those of the leases of its record. -/
theorem Tidy.mutex?_eq_iff (h : Tidy l) (ha : a ∈ l.leases) :
    l.mutex? t = some a.mutex ↔ ∃ b, l.find? t = some b ∧ b.key = a.key := by
  rw [mutex?, Option.map_eq_some_iff]
  refine exists_congr fun b => and_congr_right fun hfind => ?_
  exact h.mutex_eq_iff (h.sound.find?_eq_some_iff.1 hfind).1 ha

/-! ## What the steps tell -/

/-- What is outstanding after some steps.  Only the steps tell it, and not what the locks make of them. -/
structure Usage where
  /-- The number of leases that were ever taken, which is the ticket of the next one. -/
  taken : Nat
  /-- The tickets that have not been given back, with the records that they were taken for. -/
  leased : List (Nat × RecordKey)
  /-- The tickets that have asked, in the order in which they did, but for those that have left the line since. -/
  asked : List Nat
  deriving DecidableEq, Repr

namespace Usage

/-- Nobody has done anything. -/
def empty : Usage := ⟨0, [], []⟩

/-- What is outstanding after another step. -/
def step (u : Usage) : Step → Usage
  | .lease key => { u with taken := u.taken + 1, leased := u.leased ++ [(u.taken, key)] }
  | .ask t => if t ∈ u.leased.map Prod.fst ∧ t ∉ u.asked then { u with asked := u.asked ++ [t] } else u
  | .release t => { u with asked := u.asked.filter (· != t) }
  | .drop t => { u with leased := u.leased.filter (·.1 != t), asked := u.asked.filter (· != t) }

/-- What is outstanding after more steps. -/
def run (u : Usage) (steps : List Step) : Usage := steps.foldl step u

end Usage

/-- The locks have written down what the steps tell. -/
structure Recorded (u : Usage) (l : RecordLocks) : Prop where
  /-- The next ticket. -/
  nextTicket : l.nextTicket = u.taken
  /-- The leases that are out. -/
  leases : l.leases.map (fun a => (a.ticket, a.key)) = u.leased
  /-- The line. -/
  line : l.line = u.asked

variable {usage : Usage} {key other : RecordKey}

theorem recorded_empty : Recorded .empty empty := ⟨rfl, rfl, rfl⟩

theorem Recorded.lease (h : Recorded usage l) (key : RecordKey) :
    Recorded (usage.step (.lease key)) (l.lease key).2 := by
  refine ⟨?_, ?_, ?_⟩
  · rw [nextTicket_lease, h.nextTicket]
    rfl
  · rw [leases_lease, List.map_append, h.leases, List.map_singleton, ticket_lease, key_lease, h.nextTicket]
    rfl
  · rw [line_lease, h.line]
    rfl

/-- A ticket is found if it has not been given back. -/
theorem Recorded.isNone_find?_iff (h : Recorded usage l) (t : Nat) :
    (l.find? t).isNone = true ↔ t ∉ usage.leased.map Prod.fst := by
  rw [← h.leases, List.map_map, find?, Option.isNone_iff_eq_none, List.find?_eq_none]
  constructor
  · intro hnone hmem
    obtain ⟨a, ha, rfl⟩ := List.mem_map.1 hmem
    exact hnone a ha (beq_self_eq_true a.ticket)
  · intro hmem a ha hticket
    exact hmem (List.mem_map.2 ⟨a, ha, beq_iff_eq.1 hticket⟩)

theorem Recorded.ask (h : Recorded usage l) (t : Nat) : Recorded (usage.step (.ask t)) (l.ask t) := by
  rw [RecordLocks.ask, Usage.step]
  by_cases hout : t ∈ usage.leased.map Prod.fst
  · have hfound : ¬(l.find? t).isNone = true := fun hnone => (h.isNone_find?_iff t).1 hnone hout
    by_cases hasked : t ∈ usage.asked
    · rw [if_neg fun hnew => hnew.2 hasked, if_pos (.inr (h.line ▸ hasked))]
      exact h
    · have hwaits : ¬((l.find? t).isNone = true ∨ t ∈ l.line) := not_or.2 ⟨hfound, h.line ▸ hasked⟩
      rw [if_pos ⟨hout, hasked⟩, if_neg hwaits]
      exact ⟨h.nextTicket, h.leases, congrArg (· ++ [t]) h.line⟩
  · rw [if_neg fun hnew => hout hnew.1, if_pos (.inl ((h.isNone_find?_iff t).2 hout))]
    exact h

theorem Recorded.release (h : Recorded usage l) (t : Nat) : Recorded (usage.step (.release t)) (l.release t) :=
  ⟨h.nextTicket, h.leases, congrArg (List.filter (· != t)) h.line⟩

theorem nextTicket_drop (l : RecordLocks) (t : Nat) : (l.drop t).nextTicket = l.nextTicket := by
  rw [drop]
  cases l.find? t with
  | none => rfl
  | some lease => rfl

theorem Recorded.drop (h : Recorded usage l) (hsound : Sound l) (t : Nat) :
    Recorded (usage.step (.drop t)) (l.drop t) := by
  refine ⟨?_, ?_, ?_⟩
  · rw [nextTicket_drop]
    exact h.nextTicket
  · rw [hsound.leases_drop, Usage.step, ← h.leases, List.filter_map]
    rfl
  · rw [hsound.line_drop, h.line]
    rfl

/-- **What the locks write down is what the steps tell**, step by step. -/
theorem Recorded.step (h : Recorded usage l) (hsound : Sound l) (s : Step) :
    Recorded (usage.step s) (l.step s) := by
  cases s with
  | lease key => exact h.lease key
  | ask ticket => exact h.ask ticket
  | release ticket => exact h.release ticket
  | drop ticket => exact h.drop hsound ticket

theorem Recorded.run (h : Recorded usage l) (htidy : Tidy l) (steps : List Step) :
    Recorded (usage.run steps) (l.run steps) := by
  induction steps generalizing usage l with
  | nil => exact h
  | cons s steps ih => exact ih (h.step htidy.sound s) (htidy.step s)

/-- The tickets that are out are those that the locks know, with their records. -/
theorem Recorded.mem_leased_iff (h : Recorded usage l) (hsound : Sound l) :
    (t, key) ∈ usage.leased ↔ ∃ a, l.find? t = some a ∧ a.key = key := by
  rw [← h.leases, List.mem_map]
  refine exists_congr fun a => ?_
  rw [hsound.find?_eq_some_iff, Prod.mk.injEq, and_assoc]

/-! ## Mutual exclusion -/

/-- What users of the locks rely on, in terms of what they have done themselves. -/
structure Exclusive (usage : Usage) (l : RecordLocks) : Prop where
  /-- The next lease has the next ticket, and the mutex that it is told is the one of this ticket from then on. -/
  next_lease : ∀ key, ∃ mutex,
    (l.lease key).1 = ⟨usage.taken, key, mutex⟩ ∧ (l.lease key).2.mutex? usage.taken = some mutex
  /-- Every lease is on the mutex that the table has for its record. -/
  on_table : ∀ t key, (t, key) ∈ usage.leased → ∃ mutex, l.mutex? t = some mutex ∧ l.entries.get? key = some mutex
  /-- Every lease stays on its mutex, whatever is done, until it is given back. -/
  keeps_mutex : ∀ t key, (t, key) ∈ usage.leased → ∀ steps, .drop t ∉ steps → (l.run steps).mutex? t = l.mutex? t
  /-- The leases of a record are on one mutex, and those of two records on two. -/
  one_mutex : ∀ t key, (t, key) ∈ usage.leased → ∀ u other, (u, other) ∈ usage.leased →
    (key = other ↔ l.mutex? t = l.mutex? u)
  /-- Only a lease holds a mutex. -/
  holds_leased : ∀ t, l.holds t = true → ∃ key, (t, key) ∈ usage.leased
  /-- A lease holds its mutex exactly when, of those of its record that have asked, it asked first. -/
  first_come : ∀ t key, (t, key) ∈ usage.leased →
    (l.holds t = true ↔ ∃ ahead behind, usage.asked = ahead ++ t :: behind ∧ ∀ u ∈ ahead, (u, key) ∉ usage.leased)
  /-- Of the leases of a record, at most one holds its mutex. -/
  one_holder : ∀ key t, (t, key) ∈ usage.leased → ∀ u, (u, key) ∈ usage.leased →
    l.holds t = true → l.holds u = true → t = u
  /-- Nobody waits for a mutex that nobody holds. -/
  no_idle_mutex : ∀ t key, (t, key) ∈ usage.leased → t ∈ usage.asked → ∃ u, (u, key) ∈ usage.leased ∧ l.holds u = true
  /-- A holder holds on, whatever is done, until it leaves the line or gives its lease back. -/
  holds_on : ∀ t, l.holds t = true → ∀ steps, .release t ∉ steps → .drop t ∉ steps → (l.run steps).holds t = true
  /-- The records with an entry are those that are leased. -/
  contains_iff : ∀ key, l.entries.contains key = true ↔ ∃ t, (t, key) ∈ usage.leased
  /-- When nothing is leased, nothing is in the table. -/
  nothing_left : usage.leased = [] → l.entries.keys = []
  /-- When a lease is given back, all the others keep their mutexes, and their records the entries. -/
  drop_spares : ∀ t key, (t, key) ∈ usage.leased → ∀ u, u ≠ t →
    (l.drop u).mutex? t = l.mutex? t ∧ (l.drop u).entries.get? key = l.entries.get? key

section Outstanding

variable (h : Recorded usage l) (htidy : Tidy l)

include h htidy

theorem Recorded.next_lease (key : RecordKey) : ∃ mutex,
    (l.lease key).1 = ⟨usage.taken, key, mutex⟩ ∧ (l.lease key).2.mutex? usage.taken = some mutex := by
  have hticket : (l.lease key).1.ticket = usage.taken := (l.ticket_lease key).trans h.nextTicket
  refine ⟨(l.lease key).1.mutex, ?_, ?_⟩
  · rw [← hticket]
    exact congrArg (Lease.mk _ · _) (l.key_lease key)
  · rw [← hticket, mutex?, htidy.sound.find?_lease_self]
    rfl

/-- A lease is on the mutex of its record. -/
theorem Recorded.on_table (hmem : (t, key) ∈ usage.leased) :
    ∃ mutex, l.mutex? t = some mutex ∧ l.entries.get? key = some mutex := by
  obtain ⟨a, hfind, rfl⟩ := (h.mem_leased_iff htidy.sound).1 hmem
  refine ⟨a.mutex, ?_, htidy.sound.entry_eq a (htidy.sound.find?_eq_some_iff.1 hfind).1⟩
  rw [mutex?, hfind]
  rfl

/-- The leases of a record are those that are on the mutex of one of them. -/
theorem Recorded.mutex?_eq_iff (hmem : (t, key) ∈ usage.leased) :
    l.mutex? u = l.mutex? t ↔ (u, key) ∈ usage.leased := by
  obtain ⟨a, hfind, rfl⟩ := (h.mem_leased_iff htidy.sound).1 hmem
  have hmutex : l.mutex? t = some a.mutex := congrArg (Option.map _) hfind
  rw [hmutex, htidy.mutex?_eq_iff (htidy.sound.find?_eq_some_iff.1 hfind).1, h.mem_leased_iff htidy.sound]

/-- A ticket is out for one record. -/
theorem Recorded.key_unique (hmem : (t, key) ∈ usage.leased) (hother : (t, other) ∈ usage.leased) : key = other := by
  obtain ⟨a, hfind, rfl⟩ := (h.mem_leased_iff htidy.sound).1 hmem
  obtain ⟨b, hfind', rfl⟩ := (h.mem_leased_iff htidy.sound).1 hother
  rw [Option.some.inj (hfind.symm.trans hfind')]

theorem Recorded.keeps_mutex (hmem : (t, key) ∈ usage.leased) {steps : List Step} (hdrop : .drop t ∉ steps) :
    (l.run steps).mutex? t = l.mutex? t := by
  obtain ⟨a, hfind, rfl⟩ := (h.mem_leased_iff htidy.sound).1 hmem
  rw [mutex?, htidy.find?_run hfind hdrop, mutex?, hfind]

theorem Recorded.first_come (hmem : (t, key) ∈ usage.leased) :
    l.holds t = true ↔
      ∃ ahead behind, usage.asked = ahead ++ t :: behind ∧ ∀ u ∈ ahead, (u, key) ∉ usage.leased := by
  obtain ⟨mutex, hmutex, -⟩ := h.on_table htidy hmem
  have hsame : ∀ u, l.mutex? u = some mutex ↔ (u, key) ∈ usage.leased := by
    intro u
    rw [← hmutex]
    exact h.mutex?_eq_iff htidy hmem
  have hholder : l.holds t = true ↔ l.holder? mutex = some t := by
    rw [holds, hmutex]
    exact beq_iff_eq
  simp only [hholder, holder?_eq_some_iff, hmutex, h.line, true_and, ne_eq, hsame]

theorem Recorded.one_holder (ht : (t, key) ∈ usage.leased) (hu : (u, key) ∈ usage.leased)
    (hholdst : l.holds t = true) (hholdsu : l.holds u = true) : t = u := by
  obtain ⟨a, ha, rfl⟩ := (h.mem_leased_iff htidy.sound).1 ht
  obtain ⟨b, hb, hkey⟩ := (h.mem_leased_iff htidy.sound).1 hu
  exact htidy.sound.eq_of_holds ha hb hkey.symm hholdst hholdsu

theorem Recorded.no_idle_mutex (hmem : (t, key) ∈ usage.leased) (hasked : t ∈ usage.asked) :
    ∃ u, (u, key) ∈ usage.leased ∧ l.holds u = true := by
  obtain ⟨a, hfind, rfl⟩ := (h.mem_leased_iff htidy.sound).1 hmem
  obtain ⟨ha, rfl⟩ := htidy.sound.find?_eq_some_iff.1 hfind
  obtain ⟨b, hb, hmutex, hholds⟩ := htidy.sound.exists_holds ha (h.line ▸ hasked)
  have hfind' : l.find? b.ticket = some b := htidy.sound.find?_eq_some_iff.2 ⟨hb, rfl⟩
  exact ⟨b.ticket, (h.mem_leased_iff htidy.sound).2 ⟨b, hfind', (htidy.mutex_eq_iff hb ha).1 hmutex⟩, hholds⟩

theorem Recorded.contains_iff (key : RecordKey) :
    l.entries.contains key = true ↔ ∃ t, (t, key) ∈ usage.leased := by
  rw [Table.contains, Option.isSome_iff_exists]
  constructor
  · rintro ⟨mutex, hentry⟩
    obtain ⟨a, ha, hkey⟩ := htidy.used key mutex hentry
    have hfind : l.find? a.ticket = some a := htidy.sound.find?_eq_some_iff.2 ⟨ha, rfl⟩
    exact ⟨a.ticket, (h.mem_leased_iff htidy.sound).2 ⟨a, hfind, hkey⟩⟩
  · rintro ⟨t, hmem⟩
    obtain ⟨mutex, -, hentry⟩ := h.on_table htidy hmem
    exact ⟨mutex, hentry⟩

theorem Recorded.drop_spares (hmem : (t, key) ∈ usage.leased) (hne : u ≠ t) :
    (l.drop u).mutex? t = l.mutex? t ∧ (l.drop u).entries.get? key = l.entries.get? key := by
  have hstays : (t, key) ∈ (usage.step (.drop u)).leased := List.mem_filter.2 ⟨hmem, bne_iff_ne.2 hne.symm⟩
  obtain ⟨mutex, hmutex, hentry⟩ := h.on_table htidy hmem
  obtain ⟨mutex', hmutex', hentry'⟩ := (h.drop htidy.sound u).on_table (htidy.drop u) hstays
  have hsame : (l.drop u).mutex? t = l.mutex? t := by
    rw [mutex?, find?_drop, if_neg hne.symm, mutex?]
  obtain rfl : mutex' = mutex := Option.some.inj (hmutex'.symm.trans (hsame.trans hmutex))
  exact ⟨hsame, hentry'.trans hentry.symm⟩

end Outstanding

/-- Who holds a mutex has a lease. -/
theorem exists_find?_of_holds (hholds : l.holds t = true) : ∃ a, l.find? t = some a := by
  rw [holds, mutex?] at hholds
  cases hfind : l.find? t with
  | some a => exact ⟨a, rfl⟩
  | none =>
      rw [hfind] at hholds
      cases hholds

theorem Tidy.exclusive (htidy : Tidy l) (h : Recorded usage l) : Exclusive usage l where
  next_lease := h.next_lease htidy
  on_table _ _ := h.on_table htidy
  keeps_mutex _ _ hmem _ := h.keeps_mutex htidy hmem
  one_mutex t key ht u other hu := by
    rw [eq_comm (a := l.mutex? t), h.mutex?_eq_iff htidy ht]
    constructor
    · rintro rfl
      exact hu
    · intro hu'
      exact h.key_unique htidy hu' hu
  holds_leased t hholds := by
    obtain ⟨a, hfind⟩ := exists_find?_of_holds hholds
    exact ⟨a.key, (h.mem_leased_iff htidy.sound).2 ⟨a, hfind, rfl⟩⟩
  first_come _ _ := h.first_come htidy
  one_holder _ _ ht _ hu := h.one_holder htidy ht hu
  no_idle_mutex _ _ := h.no_idle_mutex htidy
  holds_on t hholds steps hrelease hdrop := by
    obtain ⟨a, hfind⟩ := exists_find?_of_holds hholds
    exact htidy.holds_run hfind hholds hrelease hdrop
  contains_iff := h.contains_iff htidy
  nothing_left hnone := by
    refine List.eq_nil_iff_forall_not_mem.2 fun key hkey => ?_
    obtain ⟨⟨key, mutex⟩, hentry, rfl⟩ := List.mem_map.1 hkey
    have hcontains : l.entries.contains key = true :=
      Option.isSome_iff_exists.2 ⟨mutex, (l.entries.mem_entries_iff key mutex).1 hentry⟩
    obtain ⟨t, hmem⟩ := (h.contains_iff htidy key).1 hcontains
    rw [hnone] at hmem
    cases hmem
  drop_spares _ _ hmem _ := h.drop_spares htidy hmem

/-- **Mutual exclusion, and nothing left behind.**  After every run of leasing, asking, leaving the line and giving
back, the leases of a record that the steps have left outstanding are on one mutex of its own, and of those that have
asked for it the first one holds it; the table has an entry for exactly the records that are leased; and giving a lease
back takes no entry from another lease. -/
theorem exclusive_run (steps : List Step) : Exclusive (Usage.empty.run steps) (empty.run steps) :=
  (tidy_empty.run steps).exclusive (recorded_empty.run tidy_empty steps)

/-- Ann's first request holds her record, and her second waits for it and gives up, while the kiosk leases another. -/
def queue : List Step :=
  [.lease ⟨"ann", "/a"⟩, .ask 0, .lease ⟨"ann", "/a"⟩, .ask 1, .lease ⟨"kiosk", "/a"⟩, .drop 1]

/-- Ann's first request goes on holding.  When it is done too, her record has no entry, though the one of the kiosk has;
and when the kiosk is done, nothing is left. -/
theorem queue_exclusive :
    (Usage.empty.run queue).leased = [(0, ⟨"ann", "/a"⟩), (2, ⟨"kiosk", "/a"⟩)] ∧
      (∀ steps, .release 0 ∉ steps → .drop 0 ∉ steps → ((empty.run queue).run steps).holds 0 = true) ∧
      (empty.run (queue ++ [.drop 0])).entries.contains ⟨"ann", "/a"⟩ = false ∧
      (empty.run (queue ++ [.drop 0])).entries.contains ⟨"kiosk", "/a"⟩ = true ∧
      (empty.run (queue ++ [.drop 0, .drop 2])).entries.keys = [] := by
  have hann : (Usage.empty.run (queue ++ [.drop 0])).leased = [(2, ⟨"kiosk", "/a"⟩)] := by decide
  have hfirst : (empty.run queue).holds 0 = true := by
    refine ((exclusive_run queue).first_come 0 ⟨"ann", "/a"⟩ (by decide)).2 ⟨[], [], by decide, ?_⟩
    exact List.forall_mem_nil _
  refine ⟨by decide, (exclusive_run queue).holds_on 0 hfirst, ?_, ?_, ?_⟩
  · rw [Bool.eq_false_iff]
    intro hcontains
    obtain ⟨t, hmem⟩ := ((exclusive_run (queue ++ [.drop 0])).contains_iff _).1 hcontains
    rw [hann] at hmem
    simp at hmem
  · refine ((exclusive_run (queue ++ [.drop 0])).contains_iff _).2 ⟨2, ?_⟩
    rw [hann]
    exact List.mem_singleton.2 rfl
  · exact (exclusive_run (queue ++ [.drop 0, .drop 2])).nothing_left (by decide)

end RecordLocks
end AdmissionControl
