/-!
# Tables

A table keeps one value for each of finitely many keys, in the order in which the keys came in.  That no
key stands twice is part of the type, so a table is determined by its look-ups up to order.

* `get?_set`, `get?_erase`, `get?_map`: what a look-up sees after a change.
* `set_of_get?`: to set the value that is there changes nothing.
* `mem_entries_iff`: the entries are exactly what a look-up finds.
-/

namespace AdmissionControl

/-- Finitely many keys, each with its value. -/
structure Table (κ α : Type) where
  /-- The keys with their values, in the order in which the keys came in. -/
  entries : List (κ × α)
  /-- No key stands twice. -/
  distinct : (entries.map Prod.fst).Nodup
  deriving DecidableEq, Repr

namespace Table

variable {κ α : Type}

/-- The keys in the order in which they came in. -/
def keys (t : Table κ α) : List κ := t.entries.map Prod.fst

/-- The number of keys. -/
def size (t : Table κ α) : Nat := t.entries.length

/-- The table without keys. -/
def empty : Table κ α := ⟨[], List.nodup_nil⟩

instance : EmptyCollection (Table κ α) := ⟨empty⟩

instance : Inhabited (Table κ α) := ⟨empty⟩

/-- The table with every value changed. -/
def map {β : Type} (t : Table κ α) (f : α → β) : Table κ β :=
  ⟨t.entries.map fun e => (e.1, f e.2), by
    rw [List.map_map]
    exact t.distinct⟩

variable [DecidableEq κ]

/-- The value under a key. -/
def get? (t : Table κ α) (k : κ) : Option α := t.entries.lookup k

/-- Whether a key stands in the table. -/
def contains (t : Table κ α) (k : κ) : Bool := (t.get? k).isSome

theorem lookup_cons_eq {x k : κ} {v : α} {l : List (κ × α)} :
    ((k, v) :: l).lookup x = if x = k then some v else l.lookup x := by
  by_cases h : x = k
  · simp [h]
  · simp [List.lookup_cons, h, beq_eq_false_iff_ne.2 h]

/-! ## Changing one entry of a list -/

/-- The entries with `v` under `k`: in the place of the old value, or at the end. -/
def setEntry (k : κ) (v : α) : List (κ × α) → List (κ × α)
  | [] => [(k, v)]
  | e :: rest => if e.1 = k then (k, v) :: rest else e :: setEntry k v rest

theorem mem_keys_setEntry {k x : κ} {v : α} : ∀ {l : List (κ × α)},
    x ∈ (setEntry k v l).map Prod.fst ↔ x = k ∨ x ∈ l.map Prod.fst
  | [] => by simp [setEntry]
  | e :: rest => by
      have ih := mem_keys_setEntry (k := k) (x := x) (v := v) (l := rest)
      by_cases h : e.1 = k
      · simp [setEntry, h]
      · simp only [setEntry, if_neg h, List.map_cons, List.mem_cons, ih]
        grind

theorem nodup_setEntry {k : κ} {v : α} : ∀ {l : List (κ × α)}, (l.map Prod.fst).Nodup →
    ((setEntry k v l).map Prod.fst).Nodup
  | [], _ => by simp [setEntry]
  | e :: rest, h => by
      simp only [List.map_cons, List.nodup_cons] at h
      by_cases hk : e.1 = k
      · simp only [setEntry, if_pos hk, List.map_cons, List.nodup_cons]
        exact ⟨hk ▸ h.1, h.2⟩
      · simp only [setEntry, if_neg hk, List.map_cons, List.nodup_cons]
        refine ⟨fun hm => ?_, nodup_setEntry h.2⟩
        rcases mem_keys_setEntry.1 hm with hm | hm
        · exact hk hm
        · exact h.1 hm

theorem lookup_setEntry {k x : κ} {v : α} : ∀ {l : List (κ × α)},
    (setEntry k v l).lookup x = if x = k then some v else l.lookup x
  | [] => by simp only [setEntry, lookup_cons_eq]
  | (e, w) :: rest => by
      have ih := lookup_setEntry (k := k) (x := x) (v := v) (l := rest)
      by_cases hk : e = k
      · simp only [setEntry, hk, if_true, lookup_cons_eq]
        by_cases hx : x = k <;> simp [hx]
      · simp only [setEntry, if_neg hk, lookup_cons_eq, ih]
        by_cases hx : x = e
        · simp [hx, hk]
        · simp [hx]

/-! ## Tables -/

/-- The table with `v` under `k`. -/
def set (t : Table κ α) (k : κ) (v : α) : Table κ α :=
  ⟨setEntry k v t.entries, nodup_setEntry t.distinct⟩

/-- The table without the keys that fail `keep`. -/
def filter (t : Table κ α) (keep : κ → α → Bool) : Table κ α :=
  ⟨t.entries.filter fun e => keep e.1 e.2,
    t.distinct.sublist (List.filter_sublist.map Prod.fst)⟩

/-- The table without `k`. -/
def erase (t : Table κ α) (k : κ) : Table κ α := t.filter fun x _ => x ≠ k

/-- The table with `v?` under `k`: no value takes the key out. -/
def put (t : Table κ α) (k : κ) : Option α → Table κ α
  | some v => t.set k v
  | none => t.erase k

/-- The table of a list of entries, a later entry winning over an earlier one of the same key. -/
def ofList (l : List (κ × α)) : Table κ α := l.foldl (fun t e => t.set e.1 e.2) empty

theorem setEntry_of_lookup {k : κ} {v : α} : ∀ {l : List (κ × α)}, l.lookup k = some v →
    setEntry k v l = l
  | [], h => by simp at h
  | (e, w) :: rest, h => by
      rw [lookup_cons_eq] at h
      rw [setEntry]
      by_cases hk : k = e
      · rw [if_pos hk] at h
        obtain rfl := Option.some.inj h
        rw [if_pos hk.symm, hk]
      · rw [if_neg hk] at h
        rw [if_neg (Ne.symm hk), setEntry_of_lookup h]

/-- A value that is there already is set without a change. -/
theorem set_of_get? {t : Table κ α} {k : κ} {v : α} (h : t.get? k = some v) : t.set k v = t := by
  obtain ⟨entries, distinct⟩ := t
  simp only [set, mk.injEq]
  exact setEntry_of_lookup h

theorem lookup_map {β : Type} (f : α → β) (k : κ) : ∀ l : List (κ × α),
    (l.map fun e => (e.1, f e.2)).lookup k = (l.lookup k).map f
  | [] => rfl
  | (x, v) :: rest => by
      rw [List.map_cons, lookup_cons_eq, lookup_cons_eq, lookup_map f k rest]
      split
      · rfl
      · rfl

theorem get?_map {β : Type} (t : Table κ α) (f : α → β) (k : κ) :
    (t.map f).get? k = (t.get? k).map f :=
  lookup_map f k t.entries

@[simp] theorem get?_empty (k : κ) : (empty : Table κ α).get? k = none := rfl

@[simp] theorem get?_set (t : Table κ α) (k x : κ) (v : α) :
    (t.set k v).get? x = if x = k then some v else t.get? x :=
  lookup_setEntry

theorem lookup_eq_none_of_not_mem {x : κ} : ∀ {l : List (κ × α)}, x ∉ l.map Prod.fst →
    l.lookup x = none
  | [], _ => rfl
  | (e, w) :: rest, h => by
      simp only [List.map_cons, List.mem_cons, not_or] at h
      rw [lookup_cons_eq, if_neg h.1, lookup_eq_none_of_not_mem h.2]

theorem lookup_filter {keep : κ → α → Bool} {x : κ} : ∀ {l : List (κ × α)},
    (l.map Prod.fst).Nodup →
    (l.filter fun e => keep e.1 e.2).lookup x = (l.lookup x).filter (keep x)
  | [], _ => rfl
  | (e, w) :: rest, h => by
      simp only [List.map_cons, List.nodup_cons] at h
      have ih : (rest.filter fun e => keep e.1 e.2).lookup x = (rest.lookup x).filter (keep x) :=
        lookup_filter h.2
      by_cases hw : keep e w
      · by_cases hx : x = e
        · subst hx; simp [hw, Option.filter]
        · simp [lookup_cons_eq, hw, hx, ih]
      · by_cases hx : x = e
        · subst hx
          simp [hw, ih, lookup_eq_none_of_not_mem h.1, Option.filter]
        · simp [lookup_cons_eq, hw, hx, ih]

theorem get?_filter (t : Table κ α) (keep : κ → α → Bool) (x : κ) :
    (t.filter keep).get? x = (t.get? x).filter (keep x) :=
  lookup_filter t.distinct

@[simp] theorem get?_erase (t : Table κ α) (k x : κ) :
    (t.erase k).get? x = if x = k then none else t.get? x := by
  rw [erase, get?_filter]
  by_cases h : x = k
  · cases t.get? x <;> simp [h, Option.filter]
  · cases t.get? x <;> simp [h, Option.filter]

@[simp] theorem get?_put (t : Table κ α) (k x : κ) (v? : Option α) :
    (t.put k v?).get? x = if x = k then v? else t.get? x := by
  cases v? with
  | none => exact t.get?_erase k x
  | some v => exact t.get?_set k x v

theorem lookup_eq_some_iff_mem {x : κ} {v : α} : ∀ {l : List (κ × α)}, (l.map Prod.fst).Nodup →
    (l.lookup x = some v ↔ (x, v) ∈ l)
  | [], _ => by simp
  | (e, w) :: rest, h => by
      simp only [List.map_cons, List.nodup_cons] at h
      have ih := lookup_eq_some_iff_mem (x := x) (v := v) h.2
      by_cases hx : x = e
      · subst hx
        have hno : (x, v) ∉ rest := fun hm => h.1 (List.mem_map.2 ⟨(x, v), hm, rfl⟩)
        simp [hno, eq_comm]
      · simp [lookup_cons_eq, hx, ih]

theorem mem_entries_iff (t : Table κ α) (k : κ) (v : α) :
    (k, v) ∈ t.entries ↔ t.get? k = some v :=
  (lookup_eq_some_iff_mem t.distinct).symm

end Table
end AdmissionControl
