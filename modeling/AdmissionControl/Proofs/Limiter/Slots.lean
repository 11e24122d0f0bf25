import AdmissionControl.Proofs.Limiter.Locks

/-!
# Slots and state, move by move

A limiter has two things of a client: a slot, which is made when the client asks, and state of the algorithm,
which is made when the algorithm decides.  Only a sweep takes anything away.

* `hasSlot_look`, `hasState_decide_self` and their neighbours — what each move of a limiter makes.
* `mem_idleClients_iff`, `slots_sweep`, `sameFor_sweep`, `hasState_sweep_of_mem` — **what a sweep takes and what it
  leaves**.
-/

namespace AdmissionControl

/-! ## State of a rule -/

namespace Rule

variable {rule : Rule} {record : Record} {now : Nat} {kept : Option rule.Kept}

theorem isSome_meter {σ : Type} (decide : Nat → Option σ → Verdict × σ) (kept : Option σ)
    (h : record.policy.isUnrestricted = false) : (meter decide record kept).2.isSome = true := by
  unfold meter
  cases hpolicy : record.policy with
  | limited rate => rfl
  | unrestricted =>
      rw [hpolicy] at h
      exact absurd h.symm Bool.false_ne_true

theorem isSome_meter_of_isSome {σ : Type} (decide : Nat → Option σ → Verdict × σ) {kept : Option σ}
    (h : kept.isSome = true) : (meter decide record kept).2.isSome = true := by
  unfold meter
  cases record.policy.rate? with
  | some rate => rfl
  | none => exact h

/-- Every rule but a quota keeps something of a client for which it has decided under a limit. -/
theorem isSome_decide (hkind : rule.kind ≠ .quota) (h : record.policy.isUnrestricted = false) :
    (rule.decide record now kept).2.isSome = true := by
  cases rule with
  | fixedWindow w => exact isSome_meter _ _ h
  | slidingWindow w => exact isSome_meter _ _ h
  | tokenBucket r => exact isSome_meter _ _ h
  | leakyBucket r => exact isSome_meter _ _ h
  | quota q => exact absurd rfl hkind

theorem isSome_decide_of_isSome (h : kept.isSome = true) : (rule.decide record now kept).2.isSome = true := by
  cases rule with
  | fixedWindow w => exact isSome_meter_of_isSome _ h
  | slidingWindow w => exact isSome_meter_of_isSome _ h
  | tokenBucket r => exact isSome_meter_of_isSome _ h
  | leakyBucket r => exact isSome_meter_of_isSome _ h
  | quota q => exact h

/-- Of a client about which a rule knows nothing, nothing can be foreseen. -/
theorem foresee_none {σ : Type} {estimate : Nat → Option σ → Option Verdict}
    (h : ∀ rate, estimate rate none = none) : foresee estimate record none = none := by
  unfold foresee
  cases record.policy.rate? with
  | some rate =>
      show (estimate rate none).map _ = none
      rw [h]
      rfl
  | none => rfl

/-- Every rule but a quota estimates from what it keeps. -/
theorem isSome_of_estimate (hkind : rule.kind ≠ .quota) {admission : Admission}
    (h : rule.estimate record now kept = some admission) : kept.isSome = true := by
  cases kept with
  | some kept => rfl
  | none =>
      have hnone : rule.estimate record now none = none := by
        cases rule with
        | fixedWindow w => exact foresee_none fun _ => rfl
        | slidingWindow w => exact foresee_none fun _ => rfl
        | tokenBucket r => exact foresee_none fun _ => rfl
        | leakyBucket r => exact foresee_none fun _ => rfl
        | quota q => exact absurd rfl hkind
      exact absurd (hnone.symm.trans h) (by simp)

end Rule

namespace Algorithm

/-- Evictions leave the rule and take clients out of the table. -/
theorem evictions_eq {rule : Rule} (clients : List String) (kept : Table String rule.Kept) :
    ∃ kept' : Table String rule.Kept, clients.foldl evict ⟨rule, kept⟩ = ⟨rule, kept'⟩ ∧
      ∀ client, kept'.get? client = if client ∈ clients then none else kept.get? client := by
  induction clients generalizing kept with
  | nil => exact ⟨kept, rfl, fun _ => rfl⟩
  | cons x rest ih =>
      obtain ⟨kept', hrest, hkept⟩ := ih (kept.erase x)
      refine ⟨kept', hrest, fun client => ?_⟩
      rw [hkept, Table.get?_erase]
      by_cases hx : client = x
      · simp [hx]
      · simp [hx]

/-- Who is among the forgotten clients is forgotten, and the others are kept. -/
theorem contains_evictions (clients : List String) (a : Algorithm) (client : String) :
    (clients.foldl evict a).kept.contains client = (!clients.contains client && a.kept.contains client) := by
  obtain ⟨rule, kept⟩ := a
  obtain ⟨kept', hevictions, hkept⟩ := evictions_eq clients kept
  rw [hevictions]
  show (kept'.get? client).isSome = (!clients.contains client && (kept.get? client).isSome)
  rw [hkept]
  by_cases hclient : client ∈ clients
  · simp [hclient]
  · simp [hclient]

end Algorithm

namespace Limiter

variable {l l' : Limiter} {client x : String} {now : Nat} {record : Record}

/-- Whether a client has a slot. -/
def hasSlot (l : Limiter) (client : String) : Bool := l.slots.contains client

/-- Whether the algorithm keeps something of a client. -/
def hasState (l : Limiter) (client : String) : Bool := l.algorithm.kept.contains client

theorem hasSlot_of_get? {slot : Slot} (h : l.slots.get? client = some slot) : l.hasSlot client = true := by
  unfold hasSlot Table.contains
  rw [h]
  rfl

theorem hasSlot_eq_true_iff : l.hasSlot client = true ↔ ∃ slot, l.slots.get? client = some slot :=
  Option.isSome_iff_exists

/-- Whoever holds a lock has a slot. -/
theorem hasSlot_of_isHeld (h : l.isHeld client = true) : l.hasSlot client = true := by
  obtain ⟨slot, hslot, -⟩ := (Option.any_eq_true ..).1 h
  exact hasSlot_of_get? hslot

theorem hasState_congr (h : l'.algorithm = l.algorithm) (client : String) :
    l'.hasState client = l.hasState client := by
  unfold hasState
  rw [h]

/-! ## Asking for a slot -/

theorem slots_look_of_ne (h : x ≠ client) (now : Nat) :
    (l.look client now).2.slots.get? x = l.slots.get? x := by
  unfold look
  split
  · exact (Table.get?_set ..).trans (if_neg h)
  · exact (Table.get?_set ..).trans (if_neg h)

/-- Who asks has a slot then; the others have what they had. -/
theorem hasSlot_look (l : Limiter) (client : String) (now : Nat) (x : String) :
    (l.look client now).2.hasSlot x = (x == client || l.hasSlot x) := by
  by_cases hx : x = client
  · rw [hx, hasSlot_of_get? (get?_look l client now), beq_self_eq_true, Bool.true_or]
  · unfold hasSlot Table.contains
    rw [slots_look_of_ne hx, beq_eq_false_iff_ne.2 hx, Bool.false_or]

theorem nextSlot_le_look (l : Limiter) (client : String) (now : Nat) :
    l.nextSlot ≤ (l.look client now).2.nextSlot := by
  unfold look
  split
  · exact Nat.le_refl _
  · exact Nat.le_succ _

/-- The slots after a client has asked have their old marks, or the next one. -/
theorem id_look {slot : Slot} (h : (l.look client now).2.slots.get? x = some slot) :
    (∃ old, l.slots.get? x = some old ∧ slot.id = old.id) ∨
      slot.id = l.nextSlot ∧ (l.look client now).2.nextSlot = l.nextSlot + 1 := by
  by_cases hx : x = client
  · subst hx
    rw [get?_look] at h
    obtain rfl := Option.some.inj h
    unfold look
    split
    · rename_i old hold
      exact Or.inl ⟨old, hold, rfl⟩
    · exact Or.inr ⟨rfl, rfl⟩
  · rw [slots_look_of_ne hx] at h
    exact Or.inl ⟨slot, h, rfl⟩

theorem hasState_look (l : Limiter) (client : String) (now : Nat) (x : String) :
    (l.look client now).2.hasState x = l.hasState x :=
  hasState_congr (algorithm_look l client now) x

theorem isLive_iff {slot : Slot} :
    l.isLive client slot = true ↔ ∃ live, l.slots.get? client = some live ∧ live.id = slot.id := by
  unfold isLive
  rw [Option.any_eq_true]
  simp only [beq_iff_eq]

/-- A check that has renewed its slot has a live one. -/
theorem hasSlot_renew_self (l : Limiter) (client : String) (slot : Slot) (now : Nat) :
    (l.renew client slot now).hasSlot client = true := by
  unfold renew
  split
  · rename_i hlive
    obtain ⟨live, hslot, -⟩ := isLive_iff.1 hlive
    exact hasSlot_of_get? hslot
  · rw [hasSlot_look, beq_self_eq_true, Bool.true_or]

theorem isHeld_renew (l : Limiter) (client : String) (slot : Slot) (now : Nat) (x : String) :
    (l.renew client slot now).isHeld x = l.isHeld x := by
  unfold renew
  split
  · rfl
  · exact isHeld_look l client now x

/-! ## Locks -/

/-- Whoever gets a lock stamps its slot and leaves the rest. -/
theorem slots_of_enter (h : l.enter client = some l') :
    ∃ slot, l.slots.get? client = some slot ∧ slot.isHeld = false ∧
      l' = { l with slots := l.slots.set client slot.stamp } := by
  unfold enter at h
  split at h
  · rename_i slot hslot
    split at h
    · exact absurd h (by simp)
    · rename_i hfree
      exact ⟨slot, hslot, Bool.not_eq_true _ ▸ hfree, (Option.some.inj h).symm⟩
  · exact absurd h (by simp)

/-- Whoever gives a lock back stamps its slot and leaves the rest. -/
theorem leave_eq (l : Limiter) (client : String) :
    l.leave client = l ∨
      ∃ slot, l.slots.get? client = some slot ∧
        l.leave client = { l with slots := l.slots.set client slot.stamp } := by
  unfold leave
  split
  · rename_i slot hslot
    exact Or.inr ⟨slot, hslot, rfl⟩
  · exact Or.inl rfl

/-- The lock of a client with a slot can be had, unless somebody holds it. -/
theorem isHeld_of_enter_eq_none (hslot : l.hasSlot client = true) (h : l.enter client = none) :
    l.isHeld client = true := by
  obtain ⟨slot, hslot⟩ := hasSlot_eq_true_iff.1 hslot
  unfold enter at h
  rw [hslot] at h
  dsimp only at h
  split at h
  · rename_i hheld
    unfold isHeld
    rw [hslot]
    exact hheld
  · exact absurd h (by simp)

theorem hasSlot_of_enter (h : l.enter client = some l') (x : String) : l'.hasSlot x = l.hasSlot x := by
  obtain ⟨slot, hslot, -, rfl⟩ := slots_of_enter h
  show ((l.slots.set client slot.stamp).get? x).isSome = (l.slots.get? x).isSome
  rw [Table.get?_set]
  split
  · rename_i hx
    rw [hx, hslot]
    rfl
  · rfl

theorem slots_leave_of_ne (h : x ≠ client) : (l.leave client).slots.get? x = l.slots.get? x := by
  unfold leave
  split
  · exact (Table.get?_set ..).trans (if_neg h)
  · rfl

theorem hasSlot_leave (l : Limiter) (client x : String) : (l.leave client).hasSlot x = l.hasSlot x := by
  unfold leave
  split
  · rename_i slot hslot
    show ((l.slots.set client slot.stamp).get? x).isSome = (l.slots.get? x).isSome
    rw [Table.get?_set]
    split
    · rename_i hx
      rw [hx, hslot]
      rfl
    · rfl
  · rfl

theorem hasState_leave (l : Limiter) (client x : String) : (l.leave client).hasState x = l.hasState x :=
  hasState_congr (algorithm_leave l client) x

/-- A lock that is held is free when it has been given back. -/
theorem isHeld_leave_self (h : l.isHeld client = true) : (l.leave client).isHeld client = false := by
  obtain ⟨slot, hslot, hheld⟩ := (Option.any_eq_true ..).1 h
  have hleave : l.leave client = { l with slots := l.slots.set client slot.stamp } := by
    unfold leave
    rw [hslot]
  rw [hleave, isHeld_set, if_pos rfl, Slot.isHeld_stamp, hheld]
  rfl

/-! ## Deciding -/

theorem hasState_decide_of_ne (h : x ≠ record.client.id) :
    (l.decide record now).2.hasState x = l.hasState x := by
  show ((l.algorithm.decide record now).2.get? x).isSome = (l.algorithm.get? x).isSome
  rw [Algorithm.get?_decide_of_ne h]
  rfl

theorem hasState_decide_self (hkind : l.algorithm.rule.kind ≠ .quota)
    (h : record.policy.isUnrestricted = false) :
    (l.decide record now).2.hasState record.client.id = true := by
  show ((l.algorithm.decide record now).2.get? record.client.id).isSome = true
  rw [Algorithm.get?_decide_self]
  exact Rule.isSome_decide hkind h

/-- A decision takes nothing away. -/
theorem hasState_decide (h : l.hasState x = true) : (l.decide record now).2.hasState x = true := by
  by_cases hx : x = record.client.id
  · subst hx
    show ((l.algorithm.decide record now).2.get? record.client.id).isSome = true
    rw [Algorithm.get?_decide_self]
    exact Rule.isSome_decide_of_isSome h
  · rw [hasState_decide_of_ne hx]
    exact h

/-! ## Sweeping -/

theorem mem_idleClients_iff :
    client ∈ l.idleClients now ↔
      ∃ slot, l.slots.get? client = some slot ∧ slot.isIdle l.threshold now = true := by
  unfold idleClients
  rw [List.mem_map]
  constructor
  · rintro ⟨⟨x, slot⟩, hmem, rfl⟩
    obtain ⟨hentry, hidle⟩ := List.mem_filter.1 hmem
    exact ⟨slot, (l.slots.mem_entries_iff x slot).1 hentry, hidle⟩
  · rintro ⟨slot, hslot, hidle⟩
    have hentry := (l.slots.mem_entries_iff client slot).2 hslot
    exact ⟨(client, slot), List.mem_filter.2 ⟨hentry, hidle⟩, rfl⟩

theorem nodup_idleClients (l : Limiter) (now : Nat) : (l.idleClients now).Nodup :=
  l.slots.distinct.sublist (List.filter_sublist.map Prod.fst)

/-- The slots of the idle clients go, and the others stay. -/
theorem slots_sweep (l : Limiter) (now : Nat) (client : String) :
    (l.sweep now).slots.get? client =
      if client ∈ l.idleClients now then none else l.slots.get? client := by
  have hfilter : (l.sweep now).slots.get? client =
      (l.slots.get? client).filter fun slot => !slot.isIdle l.threshold now := Table.get?_filter ..
  rw [hfilter]
  cases hslot : l.slots.get? client with
  | none => split <;> rfl
  | some slot =>
      have hiff : client ∈ l.idleClients now ↔ slot.isIdle l.threshold now = true := by
        rw [mem_idleClients_iff, hslot]
        simp
      cases hidle : slot.isIdle l.threshold now with
      | true =>
          rw [if_pos (hiff.2 hidle), Option.filter_some, hidle]
          rfl
      | false =>
          have hstays : client ∉ l.idleClients now := by
            rw [hiff, hidle]
            exact Bool.false_ne_true
          rw [if_neg hstays, Option.filter_some, hidle]
          rfl

/-- What the algorithm keeps of the other clients stays. -/
theorem sameFor_sweep (h : client ∉ l.idleClients now) :
    Algorithm.SameFor client l.algorithm (l.sweep now).algorithm := by
  rw [algorithm_sweep, calls_evictions]
  refine Algorithm.sameFor_run ?_ l.algorithm
  intro call hcall
  obtain ⟨x, hx, rfl⟩ := List.mem_map.1 hcall
  show x ≠ client
  rintro rfl
  exact h hx

theorem hasState_sweep (l : Limiter) (now : Nat) (client : String) :
    (l.sweep now).hasState client = (!(l.idleClients now).contains client && l.hasState client) :=
  Algorithm.contains_evictions (l.idleClients now) l.algorithm client

theorem hasState_sweep_iff :
    (l.sweep now).hasState client = true ↔ client ∉ l.idleClients now ∧ l.hasState client = true := by
  rw [hasState_sweep, Bool.and_eq_true, Bool.not_eq_true', List.contains_eq_mem, decide_eq_false_iff_not]

theorem hasState_sweep_of_mem (h : client ∈ l.idleClients now) : (l.sweep now).hasState client = false := by
  rw [hasState_sweep, List.contains_iff_mem.2 h]
  rfl

/-- As many slots go as there are idle clients. -/
theorem tracked_sweep (l : Limiter) (now : Nat) :
    (l.sweep now).tracked + (l.idleClients now).length = l.tracked := by
  have hsplit := List.length_eq_length_filter_add (l := l.slots.entries)
    fun e : String × Slot => e.2.isIdle l.threshold now
  unfold tracked Table.size idleClients sweep Table.filter
  rw [List.length_map, Nat.add_comm]
  exact hsplit.symm

end Limiter
end AdmissionControl
