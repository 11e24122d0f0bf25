import Mathlib.Data.List.Nodup
import AdmissionControl.Service.RecordLocks

/-!
# Leases of records

Requests for one record lease the same mutex, and the one that asked for it first holds it.  Who holds a mutex
goes on holding it, whatever others do, until it gives its lease back itself.

* `Sound` — the invariant of the locks: tickets tell leases apart, and the mutex of a lease is the one that the
  table has for its record.
* `Sound.lease`, `Sound.ask`, `Sound.drop` — every step of a request keeps it.
* `holds_lease`, `holds_ask`, `holds_drop` — **a holder holds on**; `Keeps` says the same of any such step.
* `Sound.eq_of_holds` — **one at a time**: two leases of one record that hold it are the same lease.
-/

namespace AdmissionControl
namespace RecordLocks

/-- The locks of records are in order. -/
structure Sound (l : RecordLocks) : Prop where
  /-- No ticket stands for two leases. -/
  tickets_distinct : (l.leases.map Lease.ticket).Nodup
  /-- Tickets are given out one after another. -/
  ticket_lt : ∀ lease ∈ l.leases, lease.ticket < l.nextTicket
  /-- A lease is on the mutex that its record has. -/
  entry_eq : ∀ lease ∈ l.leases, l.entries.get? lease.key = some lease.mutex
  /-- Only leases stand in line. -/
  line_leased : ∀ ticket ∈ l.line, ∃ lease ∈ l.leases, lease.ticket = ticket

theorem sound_empty : Sound empty :=
  ⟨List.nodup_nil, List.forall_mem_nil _, List.forall_mem_nil _, List.forall_mem_nil _⟩

variable {l : RecordLocks} {key : RecordKey} {t u : Nat} {a b : Lease}

/-! ## Tickets -/

theorem Sound.find?_eq_some_iff (h : Sound l) : l.find? t = some a ↔ a ∈ l.leases ∧ a.ticket = t := by
  constructor
  · intro hfind
    exact ⟨List.mem_of_find?_eq_some hfind, by simpa using List.find?_some hfind⟩
  · rintro ⟨hmem, rfl⟩
    cases hfind : l.find? a.ticket with
    | none =>
        exact absurd (beq_self_eq_true a.ticket) (List.find?_eq_none.1 hfind a hmem)
    | some lease =>
        have hticket : lease.ticket = a.ticket := by simpa using List.find?_some hfind
        have hsame := List.inj_on_of_nodup_map h.tickets_distinct (List.mem_of_find?_eq_some hfind) hmem hticket
        rw [hsame]

theorem Sound.exists_find? (h : Sound l) (ht : t ∈ l.line) : ∃ lease, l.find? t = some lease := by
  obtain ⟨lease, hmem, hticket⟩ := h.line_leased t ht
  exact ⟨lease, h.find?_eq_some_iff.2 ⟨hmem, hticket⟩⟩

theorem Sound.lt_of_find? (h : Sound l) (hfind : l.find? t = some a) : t < l.nextTicket := by
  obtain ⟨hmem, rfl⟩ := h.find?_eq_some_iff.1 hfind
  exact h.ticket_lt a hmem

/-! ## A new lease -/

theorem ticket_lease (l : RecordLocks) (key : RecordKey) : (l.lease key).1.ticket = l.nextTicket := by
  rw [lease]
  cases l.entries.get? key <;> rfl

theorem key_lease (l : RecordLocks) (key : RecordKey) : (l.lease key).1.key = key := by
  rw [lease]
  cases l.entries.get? key <;> rfl

theorem leases_lease (l : RecordLocks) (key : RecordKey) :
    (l.lease key).2.leases = l.leases ++ [(l.lease key).1] := by
  rw [lease]
  cases l.entries.get? key <;> rfl

theorem line_lease (l : RecordLocks) (key : RecordKey) : (l.lease key).2.line = l.line := by
  rw [lease]
  cases l.entries.get? key <;> rfl

theorem nextTicket_lease (l : RecordLocks) (key : RecordKey) :
    (l.lease key).2.nextTicket = l.nextTicket + 1 := by
  rw [lease]
  cases l.entries.get? key <;> rfl

theorem get?_entries_lease (l : RecordLocks) (key x : RecordKey) :
    (l.lease key).2.entries.get? x = if x = key then some (l.lease key).1.mutex else l.entries.get? x := by
  rw [lease]
  cases hentry : l.entries.get? key with
  | some mutex =>
      by_cases hx : x = key
      · rw [if_pos hx, hx]
        exact hentry
      · rw [if_neg hx]
  | none => exact l.entries.get?_set key x l.nextMutex

/-- The other tickets stand for what they stood for. -/
theorem find?_lease_of_ne (ht : t ≠ l.nextTicket) : (l.lease key).2.find? t = l.find? t := by
  have hother : ((l.lease key).1.ticket == t) = false := by
    rw [ticket_lease]
    exact beq_eq_false_iff_ne.2 ht.symm
  rw [find?, leases_lease, List.find?_append, List.find?_cons, hother, List.find?_nil, Option.or_none]
  rfl

theorem Sound.lease (h : Sound l) (key : RecordKey) : Sound (l.lease key).2 := by
  refine ⟨?_, ?_, ?_, ?_⟩
  · rw [leases_lease, List.map_append, List.nodup_append]
    refine ⟨h.tickets_distinct, List.nodup_singleton _, ?_⟩
    intro ticket hticket other hother
    obtain ⟨lease, hmem, rfl⟩ := List.mem_map.1 hticket
    rw [List.map_singleton, List.mem_singleton, ticket_lease] at hother
    rw [hother]
    exact Nat.ne_of_lt (h.ticket_lt lease hmem)
  · intro lease hmem
    rw [nextTicket_lease]
    rw [leases_lease, List.mem_append, List.mem_singleton] at hmem
    rcases hmem with hold | rfl
    · exact Nat.lt_succ_of_lt (h.ticket_lt lease hold)
    · rw [ticket_lease]
      exact Nat.lt_succ_self l.nextTicket
  · intro lease hmem
    rw [get?_entries_lease]
    rw [leases_lease, List.mem_append, List.mem_singleton] at hmem
    rcases hmem with hold | rfl
    · by_cases hkey : lease.key = key
      · -- the record has a mutex already, and the new lease is on it
        have hentry := h.entry_eq lease hold
        rw [hkey] at hentry
        rw [if_pos hkey, RecordLocks.lease, hentry]
      · rw [if_neg hkey]
        exact h.entry_eq lease hold
    · rw [if_pos (l.key_lease key)]
  · intro ticket hticket
    rw [line_lease] at hticket
    obtain ⟨lease, hmem, hlease⟩ := h.line_leased ticket hticket
    rw [leases_lease]
    exact ⟨lease, List.mem_append_left _ hmem, hlease⟩

/-- The new lease is found under its ticket. -/
theorem Sound.find?_lease_self (h : Sound l) (key : RecordKey) :
    (l.lease key).2.find? (l.lease key).1.ticket = some (l.lease key).1 := by
  refine (h.lease key).find?_eq_some_iff.2 ⟨?_, rfl⟩
  rw [leases_lease]
  exact List.mem_append_right _ (List.mem_singleton.2 rfl)

/-! ## Asking -/

theorem find?_ask (l : RecordLocks) (u t : Nat) : (l.ask u).find? t = l.find? t := by
  rw [ask]
  split
  · rfl
  · rfl

theorem Sound.ask (h : Sound l) (u : Nat) : Sound (l.ask u) := by
  rw [RecordLocks.ask]
  split
  · exact h
  · rename_i hnew
    obtain ⟨hfind, -⟩ := not_or.1 hnew
    obtain ⟨lease, hlease⟩ := Option.ne_none_iff_exists'.1 fun hnone => hfind (Option.isNone_iff_eq_none.2 hnone)
    refine ⟨h.tickets_distinct, h.ticket_lt, h.entry_eq, ?_⟩
    intro ticket hticket
    rw [List.mem_append, List.mem_singleton] at hticket
    rcases hticket with hold | rfl
    · exact h.line_leased ticket hold
    · exact ⟨lease, h.find?_eq_some_iff.1 hlease⟩

/-! ## Giving back -/

theorem find?_drop (l : RecordLocks) (u t : Nat) :
    (l.drop u).find? t = if t = u then none else l.find? t := by
  rw [drop]
  cases hfind : l.find? u with
  | none =>
      by_cases ht : t = u
      · rw [if_pos ht, ht]
        exact hfind
      · rw [if_neg ht]
  | some lease =>
      dsimp only
      rw [find?, List.find?_filter]
      by_cases ht : t = u
      · rw [if_pos ht, List.find?_eq_none]
        intro x _
        simp [ht]
      · have hticket : ∀ x : Lease, decide ((x.ticket != u) = true ∧ (x.ticket == t) = true) =
            (x.ticket == t) := by
          intro x
          by_cases hx : x.ticket = t
          · simp [hx, ht]
          · simp [hx]
        simp only [hticket, if_neg ht]
        rfl

theorem Sound.line_drop (h : Sound l) (u : Nat) : (l.drop u).line = l.line.filter (· != u) := by
  rw [RecordLocks.drop]
  cases hfind : l.find? u with
  | some lease => rfl
  | none =>
      refine (List.filter_eq_self.2 fun ticket hticket => ?_).symm
      rw [bne_iff_ne]
      rintro rfl
      obtain ⟨lease, hlease⟩ := h.exists_find? hticket
      exact absurd (hfind.symm.trans hlease) (by simp)

/-- The last lease on a mutex is the only one of its record. -/
theorem Sound.eq_of_leaseCount (h : Sound l) (ha : a ∈ l.leases) (hb : b ∈ l.leases) (hkey : b.key = a.key)
    (hcount : l.leaseCount a.mutex = 1) : b = a := by
  have hmutex : b.mutex = a.mutex := by
    have hentry := h.entry_eq b hb
    rw [hkey] at hentry
    exact Option.some.inj (hentry.symm.trans (h.entry_eq a ha))
  obtain ⟨only, honly⟩ := List.length_eq_one_iff.1 hcount
  have hmem : ∀ lease ∈ l.leases, lease.mutex = a.mutex → lease = only := by
    intro lease hlease hsame
    have hfilter : lease ∈ l.leases.filter (fun lease => lease.mutex == a.mutex) :=
      List.mem_filter.2 ⟨hlease, beq_iff_eq.2 hsame⟩
    rw [honly] at hfilter
    exact List.mem_singleton.1 hfilter
  rw [hmem b hb hmutex, hmem a ha rfl]

theorem Sound.drop (h : Sound l) (u : Nat) : Sound (l.drop u) := by
  have hline := h.line_drop u
  rw [RecordLocks.drop] at hline ⊢
  cases hfind : l.find? u with
  | none => exact h
  | some lease =>
      rw [hfind] at hline
      obtain ⟨hlease, hticket⟩ := h.find?_eq_some_iff.1 hfind
      refine ⟨?_, ?_, ?_, ?_⟩
      · exact h.tickets_distinct.sublist (List.filter_sublist.map Lease.ticket)
      · intro other hother
        exact h.ticket_lt other (List.mem_of_mem_filter hother)
      · intro other hother
        obtain ⟨hmem, hne⟩ := List.mem_filter.1 hother
        dsimp only
        split
        · rename_i hlast
          rw [Bool.and_eq_true, beq_iff_eq, beq_iff_eq] at hlast
          rw [Table.get?_erase]
          by_cases hkey : other.key = lease.key
          · -- the other lease would have been counted
            obtain rfl := h.eq_of_leaseCount hlease hmem hkey hlast.2
            exact absurd hticket (bne_iff_ne.1 hne)
          · rw [if_neg hkey]
            exact h.entry_eq other hmem
        · exact h.entry_eq other hmem
      · intro ticket hstands
        rw [hline, List.mem_filter] at hstands
        obtain ⟨other, hother, hsame⟩ := h.line_leased ticket hstands.1
        refine ⟨other, List.mem_filter.2 ⟨hother, ?_⟩, hsame⟩
        rw [hsame]
        exact hstands.2

/-! ## A holder holds on -/

theorem holds_iff_of_find? (hfind : l.find? t = some a) :
    l.holds t = true ↔ l.holder? a.mutex = some t := by
  rw [holds, mutex?, hfind]
  exact beq_iff_eq

/-- The holder of a mutex is in line for it, and nobody ahead of it is. -/
theorem holder?_eq_some_iff {mutex : Nat} :
    l.holder? mutex = some t ↔ l.mutex? t = some mutex ∧
      ∃ ahead behind, l.line = ahead ++ t :: behind ∧ ∀ ticket ∈ ahead, l.mutex? ticket ≠ some mutex := by
  rw [holder?, List.find?_eq_some_iff_append]
  simp only [beq_iff_eq, Bool.not_eq_true', beq_eq_false_iff_ne]

/-- Somebody who holds a mutex holds it in locks with a longer line, if those in line stand for what they stood
for. -/
theorem holder?_of_append {l' : RecordLocks} {late : List Nat} {mutex : Nat}
    (hline : l'.line = l.line ++ late) (hfind : ∀ ticket ∈ l.line, l'.find? ticket = l.find? ticket)
    (h : l.holder? mutex = some t) : l'.holder? mutex = some t := by
  obtain ⟨hmutex, ahead, behind, hplace, hahead⟩ := holder?_eq_some_iff.1 h
  have hsame : ∀ ticket ∈ l.line, l'.mutex? ticket = l.mutex? ticket := by
    intro ticket hticket
    rw [mutex?, hfind ticket hticket, mutex?]
  rw [hplace] at hsame hline
  refine holder?_eq_some_iff.2 ⟨?_, ahead, behind ++ late, ?_, ?_⟩
  · rw [hsame t (List.mem_append_right _ List.mem_cons_self)]
    exact hmutex
  · rw [hline, List.append_assoc, List.cons_append]
  · intro ticket hticket
    rw [hsame ticket (List.mem_append_left _ hticket)]
    exact hahead ticket hticket

/-- Somebody who holds a mutex holds it in locks where another has left the line, if the rest stand for what they stood
for. -/
theorem holder?_of_filter {l' : RecordLocks} {mutex : Nat} (hline : l'.line = l.line.filter (· != u)) (hne : t ≠ u)
    (hfind : ∀ ticket, ticket ≠ u → l'.find? ticket = l.find? ticket) (h : l.holder? mutex = some t) :
    l'.holder? mutex = some t := by
  obtain ⟨hmutex, ahead, behind, hplace, hahead⟩ := holder?_eq_some_iff.1 h
  refine holder?_eq_some_iff.2 ⟨?_, ahead.filter (· != u), behind.filter (· != u), ?_, ?_⟩
  · rw [mutex?, hfind t hne]
    exact hmutex
  · rw [hline, hplace, List.filter_append]
    exact congrArg _ (List.filter_cons_of_pos (bne_iff_ne.2 hne))
  · intro ticket hticket
    obtain ⟨hmem, hother⟩ := List.mem_filter.1 hticket
    rw [mutex?, hfind ticket (bne_iff_ne.1 hother)]
    exact hahead ticket hmem

/-- A holder holds on when another lease is taken. -/
theorem Sound.holds_lease (h : Sound l) (hfind : l.find? t = some a) (hholds : l.holds t = true)
    (key : RecordKey) : (l.lease key).2.holds t = true := by
  have hstands : ∀ {ticket lease}, l.find? ticket = some lease →
      (l.lease key).2.find? ticket = l.find? ticket := by
    intro ticket lease hticket
    exact find?_lease_of_ne (Nat.ne_of_lt (h.lt_of_find? hticket))
  have hline : (l.lease key).2.line = l.line ++ [] := by
    rw [line_lease, List.append_nil]
  rw [holds_iff_of_find? ((hstands hfind).trans hfind)]
  refine holder?_of_append hline ?_ ((holds_iff_of_find? hfind).1 hholds)
  intro ticket hticket
  obtain ⟨lease, hlease⟩ := h.exists_find? hticket
  exact hstands hlease

/-- A holder holds on when somebody asks. -/
theorem holds_ask (hfind : l.find? t = some a) (hholds : l.holds t = true) (u : Nat) :
    (l.ask u).holds t = true := by
  rw [holds_iff_of_find? ((l.find?_ask u t).trans hfind)]
  have hholder := (holds_iff_of_find? hfind).1 hholds
  rw [ask]
  split
  · exact hholder
  · exact holder?_of_append rfl (fun _ _ => rfl) hholder

/-- A holder holds on when another lease is given back. -/
theorem Sound.holds_drop (h : Sound l) (hfind : l.find? t = some a) (hholds : l.holds t = true)
    (hne : t ≠ u) : (l.drop u).holds t = true := by
  have hstands : ∀ ticket, ticket ≠ u → (l.drop u).find? ticket = l.find? ticket := by
    intro ticket hother
    rw [find?_drop, if_neg hother]
  rw [holds_iff_of_find? ((hstands t hne).trans hfind)]
  exact holder?_of_filter (h.line_drop u) hne hstands ((holds_iff_of_find? hfind).1 hholds)

/-- Locks after a step of somebody else: everybody keeps its lease, and what it holds, except for the owner of the
ticket that was given back, if any. -/
structure Keeps (l l' : RecordLocks) (gone : Option Nat) : Prop where
  /-- The locks are in order. -/
  sound : Sound l'
  /-- The leases are the same. -/
  find? : ∀ t lease, gone ≠ some t → l.find? t = some lease → l'.find? t = some lease
  /-- A holder holds on. -/
  holds : ∀ t lease, gone ≠ some t → l.find? t = some lease → l.holds t = true → l'.holds t = true

theorem Sound.keeps_refl (h : Sound l) : Keeps l l none := by
  refine ⟨h, ?_, ?_⟩
  · intro ticket lease _ hfind
    exact hfind
  · intro ticket lease _ _ hholds
    exact hholds

/-- Somebody leases a mutex and asks for it. -/
theorem Sound.keeps_join (h : Sound l) (key : RecordKey) (u : Nat) :
    Keeps l ((l.lease key).2.ask u) none := by
  have hstands : ∀ ticket lease, l.find? ticket = some lease → (l.lease key).2.find? ticket = some lease := by
    intro ticket lease hfind
    exact (find?_lease_of_ne (Nat.ne_of_lt (h.lt_of_find? hfind))).trans hfind
  refine ⟨(h.lease key).ask u, ?_, ?_⟩
  · intro ticket lease _ hfind
    rw [find?_ask]
    exact hstands ticket lease hfind
  · intro ticket lease _ hfind hholds
    exact holds_ask (hstands ticket lease hfind) (h.holds_lease hfind hholds key) u

/-- Somebody gives a lease back. -/
theorem Sound.keeps_drop (h : Sound l) (u : Nat) : Keeps l (l.drop u) (some u) := by
  refine ⟨h.drop u, ?_, ?_⟩
  · intro ticket lease hne hfind
    have hother : ticket ≠ u := fun heq => hne (congrArg some heq.symm)
    rw [find?_drop, if_neg hother]
    exact hfind
  · intro ticket lease hne hfind hholds
    have hother : ticket ≠ u := fun heq => hne (congrArg some heq.symm)
    exact h.holds_drop hfind hholds hother

/-- **One at a time.**  Two leases of one record that both hold it are the same. -/
theorem Sound.eq_of_holds (h : Sound l) (ha : l.find? t = some a) (hb : l.find? u = some b)
    (hkey : a.key = b.key) (hholdsa : l.holds t = true) (hholdsb : l.holds u = true) : t = u := by
  have hmutex : b.mutex = a.mutex := by
    have hentry := h.entry_eq b (h.find?_eq_some_iff.1 hb).1
    rw [← hkey, h.entry_eq a (h.find?_eq_some_iff.1 ha).1] at hentry
    exact (Option.some.inj hentry).symm
  have ht : l.mutex? t = some a.mutex := by
    rw [mutex?, ha]
    rfl
  have hu : l.mutex? u = some a.mutex := by
    rw [mutex?, hb, Option.map_some, hmutex]
  exact holds_unique ht hu hholdsa hholdsb

end RecordLocks
end AdmissionControl
