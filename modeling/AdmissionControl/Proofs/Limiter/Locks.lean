import AdmissionControl.Proofs.Limiter.History
import AdmissionControl.Proofs.Rule.Agreement

/-!
# What a lock protects

While a client's lock is held, others may ask, sweep, move the clock and decide for other clients.  None of
this reaches the client: its lock stays held, what the algorithm keeps of it stays the same, and nothing
that happens is about it.

* `isHeld_look`, `isHeld_of_enter`, `isHeld_leave_of_ne`, `isHeld_sweep` — whose locks each move of a limiter
  takes and gives back.
* `History.frame` — **the frame of a held lock**, over every history.
-/

namespace AdmissionControl
namespace Limiter

variable {l l' : Limiter} {client x : String} {now : Nat}

/-! ## Locks, move by move -/

@[simp] theorem algorithm_look (l : Limiter) (client : String) (now : Nat) :
    (l.look client now).2.algorithm = l.algorithm := by
  rw [look]
  cases l.slots.get? client with
  | some slot => rfl
  | none => rfl

/-- A client that asks for its slot takes no lock. -/
@[simp] theorem isHeld_look (l : Limiter) (client : String) (now : Nat) (x : String) :
    (l.look client now).2.isHeld x = l.isHeld x := by
  simp only [isHeld, look]
  by_cases hx : x = client
  · subst hx
    cases hslot : l.slots.get? x with
    | some slot => simp [Slot.isHeld, Slot.touch]
    | none => simp [Slot.isHeld]
  · cases l.slots.get? client with
    | some slot => simp [hx]
    | none => simp [hx]

theorem isHeld_set (l : Limiter) (client : String) (slot : Slot) (x : String) :
    ({ l with slots := l.slots.set client slot } : Limiter).isHeld x =
      if x = client then slot.isHeld else l.isHeld x := by
  simp only [isHeld, Table.get?_set]
  split
  · rfl
  · rfl

/-- Who enters found the lock free and holds it now; other locks and the algorithm stay as they were. -/
theorem isHeld_of_enter (h : l.enter client = some l') :
    l.isHeld client = false ∧ l'.isHeld client = true ∧
      (∀ x, x ≠ client → l'.isHeld x = l.isHeld x) ∧ l'.algorithm = l.algorithm := by
  rw [enter] at h
  cases hslot : l.slots.get? client with
  | none =>
      rw [hslot] at h
      exact absurd h (by simp)
  | some slot =>
      rw [hslot] at h
      simp only at h
      by_cases hheld : slot.isHeld = true
      · rw [if_pos hheld] at h
        exact absurd h (by simp)
      · rw [if_neg hheld] at h
        obtain rfl := Option.some.inj h
        have hfree : slot.isHeld = false := Bool.not_eq_true _ ▸ hheld
        refine ⟨?_, ?_, fun x hx => ?_, rfl⟩
        · rw [isHeld, hslot]
          exact hfree
        · rw [isHeld_set, if_pos rfl, Slot.isHeld_stamp, hfree]
          rfl
        · rw [isHeld_set, if_neg hx]

@[simp] theorem algorithm_leave (l : Limiter) (client : String) :
    (l.leave client).algorithm = l.algorithm := by
  rw [leave]
  cases l.slots.get? client with
  | some slot => rfl
  | none => rfl

theorem isHeld_leave_of_ne (hx : x ≠ client) : (l.leave client).isHeld x = l.isHeld x := by
  rw [leave]
  cases l.slots.get? client with
  | some slot => exact (isHeld_set ..).trans (if_neg hx)
  | none => rfl

theorem isHeld_eq_false_of_mem_idleClients (h : client ∈ l.idleClients now) :
    l.isHeld client = false := by
  obtain ⟨⟨x, slot⟩, hmem, rfl⟩ := List.mem_map.1 h
  obtain ⟨hentry, hidle⟩ := List.mem_filter.1 hmem
  have hslot : l.slots.get? x = some slot := (l.slots.mem_entries_iff x slot).1 hentry
  simp only [Slot.isIdle, Bool.and_eq_true, Bool.not_eq_true'] at hidle
  show (l.slots.get? x).any Slot.isHeld = false
  rw [hslot]
  exact hidle.2

/-- A sweep takes no slot away whose lock is held. -/
@[simp] theorem isHeld_sweep (l : Limiter) (now : Nat) (x : String) :
    (l.sweep now).isHeld x = l.isHeld x := by
  simp only [isHeld, sweep, Table.get?_filter]
  cases l.slots.get? x with
  | none => rfl
  | some slot =>
      simp only [Option.filter, Option.any_some]
      by_cases hheld : slot.isHeld = true
      · simp [Slot.isIdle, hheld]
      · split
        · rfl
        · exact (Bool.not_eq_true _ ▸ hheld).symm

theorem calls_evictions (clients : List String) :
    calls (clients.map Moment.eviction) = clients.map Algorithm.Call.evict := by
  rw [calls, List.filterMap_map]
  exact congrFun (List.filterMap_eq_map (f := Algorithm.Call.evict)) clients

/-- A sweep evicts the idle clients one after another. -/
theorem algorithm_sweep (l : Limiter) (now : Nat) :
    (l.sweep now).algorithm =
      l.algorithm.run (calls ((l.idleClients now).map Moment.eviction)) := by
  rw [calls_evictions, Algorithm.run, List.foldl_map]
  rfl

/-! ## The frame -/

theorem calls_append (early late : List Moment) :
    calls (early ++ late) = calls early ++ calls late :=
  List.filterMap_append

theorem client_ne_of_not_concerns {moments : List Moment}
    (h : ∀ m ∈ moments, m.concerns client = false) : ∀ call ∈ calls moments, call.client ≠ client := by
  intro call hcall hclient
  obtain ⟨m, hm, hcall⟩ := List.mem_filterMap.1 hcall
  have hconcerns : m.concerns client = true := by
    rw [Moment.concerns, hcall]
    exact decide_eq_true hclient
  rw [h m hm] at hconcerns
  exact Bool.false_ne_true hconcerns

/-- **Nothing reaches a client whose lock is held**: the lock stays held, what the algorithm keeps of the
client stays the same, and no moment is about it. -/
theorem History.frame {s s' : Station} {moments : List Moment} (h : History s moments s')
    (hheld : s.limiter.isHeld client = true) :
    s'.limiter.isHeld client = true ∧
      Algorithm.SameFor client s.limiter.algorithm s'.limiter.algorithm ∧
      ∀ m ∈ moments, m.concerns client = false := by
  induction h with
  | quiet hlimiter hclock =>
      rw [hlimiter]
      exact ⟨hheld, .refl .., fun m hm => absurd hm List.not_mem_nil⟩
  | seq h h' ih ih' =>
      obtain ⟨hmid, hsame, hearly⟩ := ih hheld
      obtain ⟨hend, hsame', hlate⟩ := ih' hmid
      refine ⟨hend, hsame.trans hsame', fun m hm => ?_⟩
      exact (List.mem_append.1 hm).elim (hearly m) (hlate m)
  | look s x =>
      refine ⟨?_, ?_, fun m hm => absurd hm List.not_mem_nil⟩
      · rw [isHeld_look]
        exact hheld
      · rw [algorithm_look]
        exact .refl ..
  | sweep s =>
      have hidle : ∀ m ∈ (s.limiter.idleClients s.clock.now).map Moment.eviction,
          m.concerns client = false := by
        intro m hm
        obtain ⟨x, hx, rfl⟩ := List.mem_map.1 hm
        refine decide_eq_false ?_
        rintro rfl
        exact Bool.false_ne_true ((isHeld_eq_false_of_mem_idleClients hx).symm.trans hheld)
      refine ⟨?_, ?_, hidle⟩
      · rw [isHeld_sweep]
        exact hheld
      · rw [algorithm_sweep]
        exact Algorithm.sameFor_run (client_ne_of_not_concerns hidle) _
  | move s m =>
      refine ⟨hheld, .refl .., fun m' hm => ?_⟩
      rw [List.mem_singleton.1 hm]
      rfl
  | @estimate s record admission hfree hestimate =>
      refine ⟨hheld, .refl .., fun m hm => ?_⟩
      rw [List.mem_singleton.1 hm]
      refine decide_eq_false ?_
      rintro rfl
      exact Bool.false_ne_true (hfree.symm.trans hheld)
  | @locked s s' record l moments henter h ih =>
      obtain ⟨hfree, -, hothers, halgorithm⟩ := isHeld_of_enter henter
      have hne : client ≠ record.client.id := by
        rintro rfl
        exact Bool.false_ne_true (hfree.symm.trans hheld)
      obtain ⟨hmid, hsame, hwithin⟩ := ih (by rw [hothers client hne]; exact hheld)
      refine ⟨?_, ?_, fun m hm => ?_⟩
      · rw [isHeld_leave_of_ne hne]
        exact hmid
      · rw [algorithm_leave, ← halgorithm]
        have hcall : (Algorithm.Call.decide record s.clock.now).client ≠ client := Ne.symm hne
        exact hsame.trans (Algorithm.sameFor_after hcall)
      · rcases List.mem_append.1 hm with hm | hm
        · exact hwithin m hm
        · rw [List.mem_singleton.1 hm]
          exact decide_eq_false (Ne.symm hne)

end Limiter
end AdmissionControl
