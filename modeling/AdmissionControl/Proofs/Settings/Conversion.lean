import AdmissionControl.Settings.Wire
import Mathlib.Data.List.Basic
import Mathlib.Data.List.Induction

/-!
# What the names of a document stand for

A wire form is turned into settings entry by entry, and each entry for itself.  So what the settings hold can be told
from the entries without their order, as long as no two entries are about the same thing.

* `Table.entries_ofList`, `TierTable.mem_of_get?_ofList` — the tables that entries make, read back.
* `Wire.readAll_eq_ok_iff` — every entry is read, each for itself.
* `Wire.toSettings_eq_ok_iff` — the parts of the settings of a wire form.
* `Wire.Names`, `Wire.names_of_toSettings` — the strategies that a wire form names, and those of its settings.
-/

namespace AdmissionControl

/-! ## Tables from entries -/

namespace Table

variable {κ α : Type} [DecidableEq κ]

theorem setEntry_of_not_mem {k : κ} {v : α} {l : List (κ × α)} (h : k ∉ l.map Prod.fst) :
    setEntry k v l = l ++ [(k, v)] := by
  induction l with
  | nil => rfl
  | cons e rest ih =>
      simp only [List.map_cons, List.mem_cons, not_or] at h
      rw [setEntry, if_neg (Ne.symm h.1), ih h.2, List.cons_append]

/-- Entries with distinct keys make a table with just these entries. -/
theorem entries_ofList {l : List (κ × α)} (h : (l.map Prod.fst).Nodup) : (ofList l).entries = l := by
  induction l using List.reverseRecOn with
  | nil => rfl
  | append_singleton rest e ih =>
      rw [List.map_append, List.nodup_append] at h
      obtain ⟨hrest, -, hnew⟩ := h
      have hset : ofList (rest ++ [e]) = (ofList rest).set e.1 e.2 := by simp [ofList]
      rw [hset]
      show setEntry e.1 e.2 (ofList rest).entries = rest ++ [e]
      rw [ih hrest]
      apply setEntry_of_not_mem
      intro hold
      exact hnew e.1 hold e.1 (by simp) rfl

theorem get?_ofList_eq_some_iff {l : List (κ × α)} (h : (l.map Prod.fst).Nodup) {k : κ} {v : α} :
    (ofList l).get? k = some v ↔ (k, v) ∈ l := by
  rw [← mem_entries_iff, entries_ofList h]

/-- A table is made of its entries. -/
theorem ofList_entries (t : Table κ α) : ofList t.entries = t := by
  have hentries := entries_ofList t.distinct
  cases hmade : ofList t.entries with
  | mk entries distinct =>
      rw [hmade] at hentries
      obtain rfl : entries = t.entries := hentries
      rfl

end Table

namespace TierTable

variable {α : Type}

theorem ofList_append_singleton (l : List (Tier × α)) (e : Tier × α) : ofList (l ++ [e]) = (ofList l).set e.1 e.2 := by
  simp [ofList]

/-- The value of a tier is that of one of its entries. -/
theorem mem_of_get?_ofList {l : List (Tier × α)} {tier : Tier} {v : α} (h : (ofList l).get? tier = some v) :
    (tier, v) ∈ l := by
  induction l using List.reverseRecOn with
  | nil => cases tier <;> cases h
  | append_singleton rest e ih =>
      rw [ofList_append_singleton, get?_set] at h
      apply List.mem_append.2
      split at h
      · rename_i htier
        obtain rfl := Option.some.inj h
        right
        simp [htier]
      · exact .inl (ih h)

/-- A tier with an entry has a value. -/
theorem get?_ofList_ne_none {l : List (Tier × α)} {tier : Tier} {v : α} (h : (tier, v) ∈ l) :
    (ofList l).get? tier ≠ none := by
  induction l using List.reverseRecOn with
  | nil => cases h
  | append_singleton rest e ih =>
      rw [ofList_append_singleton, get?_set]
      split
      · exact Option.some_ne_none _
      · rename_i htier
        apply ih
        rcases List.mem_append.1 h with hrest | hlast
        · exact hrest
        · obtain rfl := List.mem_singleton.1 hlast
          exact absurd rfl htier

end TierTable

namespace Wire

/-! ## Entry by entry -/

section Entries

variable {α β : Type} {read : α → Except Error β} {l : List α} {bs : List β}

theorem readAll_eq_ok_iff : readAll read l = .ok bs ↔ l.map read = bs.map .ok := by
  induction l generalizing bs with
  | nil => cases bs <;> simp [readAll]
  | cons a rest ih =>
      cases hread : read a with
      | error error => cases bs <;> simp [readAll, hread]
      | ok b =>
          cases hrest : readAll read rest with
          | error error =>
              cases bs with
              | nil => simp [readAll, hread, hrest]
              | cons b' bs =>
                  have hne : ¬rest.map read = bs.map .ok := by
                    rw [← ih, hrest]
                    simp
                  simp [readAll, hread, hrest, hne]
          | ok bs' =>
              have hall := ih.1 hrest
              cases bs with
              | nil => simp [readAll, hread, hrest]
              | cons b' bs =>
                  have hinj : bs'.map (Except.ok (ε := Error)) = bs.map .ok ↔ bs' = bs :=
                    (List.map_injective_iff.2 fun _ _ => Except.ok.inj).eq_iff
                  simp [readAll, hread, hrest, hall, hinj]

/-- What is read back entry by entry is read back. -/
theorem readAll_map {f : β → α} (h : ∀ b, read (f b) = .ok b) (bs : List β) : readAll read (bs.map f) = .ok bs := by
  rw [readAll_eq_ok_iff, List.map_map]
  apply List.map_congr_left
  intro b _
  exact h b

theorem exists_readAll_iff : (∃ bs, readAll read l = .ok bs) ↔ ∀ a ∈ l, ∃ b, read a = .ok b := by
  induction l with
  | nil => simp [readAll]
  | cons a rest ih =>
      rw [List.forall_mem_cons, ← ih]
      cases hread : read a with
      | error error => simp [readAll, hread]
      | ok b => cases hrest : readAll read rest <;> simp [readAll, hread, hrest]

/-- What was read are the readings of the entries. -/
theorem mem_of_readAll (h : readAll read l = .ok bs) (b : β) : b ∈ bs ↔ ∃ a ∈ l, read a = .ok b := by
  have hmem : Except.ok (ε := Error) b ∈ bs.map .ok ↔ b ∈ bs := by simp
  rw [← hmem, ← readAll_eq_ok_iff.1 h, List.mem_map]

/-- Entries that are read keep what they are about. -/
theorem keys_of_readAll {κ : Type} {key : α → κ} {key' : β → κ} (hkey : ∀ a b, read a = .ok b → key' b = key a)
    (h : readAll read l = .ok bs) : bs.map key' = l.map key := by
  have hmap := readAll_eq_ok_iff.1 h
  clear h
  induction l generalizing bs with
  | nil =>
      have hbs : bs = [] := by simpa using hmap.symm
      rw [hbs]
      rfl
  | cons a rest ih =>
      cases bs with
      | nil => simp at hmap
      | cons b bs =>
          rw [List.map_cons, List.map_cons, List.cons.injEq] at hmap
          rw [List.map_cons, List.map_cons, hkey a b hmap.1, ih hmap.2]

end Entries

section Readings

variable {rates : List (Tier × UInt32)} {algorithms : List (String × AlgorithmKind)}
  {strategies : List (String × TierTable StrategyKind)} {endpoint : String} {tier : Tier} {kind : StrategyKind}

theorem readRate_eq_ok_iff {e : String × UInt32} {b : Tier × UInt32} :
    readRate e = .ok b ↔ Tier.read e.1 = .ok b.1 ∧ b.2 = e.2 := by
  obtain ⟨tier, rate⟩ := b
  unfold readRate
  cases Tier.read e.1 <;> simp [Except.map, eq_comm]

theorem readAlgorithm_eq_ok_iff {e : String × String} {b : String × AlgorithmKind} :
    readAlgorithm e = .ok b ↔ b.1 = e.1 ∧ AlgorithmKind.read e.2 = .ok b.2 := by
  obtain ⟨endpoint, algorithm⟩ := b
  unfold readAlgorithm
  cases AlgorithmKind.read e.2 <;> simp [Except.map, eq_comm]

theorem readStrategy_eq_ok_iff {e : String × String} {b : Tier × StrategyKind} :
    readStrategy e = .ok b ↔ Tier.read e.1 = .ok b.1 ∧ StrategyKind.read e.2 = .ok b.2 := by
  obtain ⟨tier, strategy⟩ := b
  unfold readStrategy
  cases Tier.read e.1 with
  | error error => simp
  | ok read => cases StrategyKind.read e.2 <;> simp [Except.map]

theorem readStrategies_eq_ok_iff {e : String × Table String String} {b : String × TierTable StrategyKind} :
    readStrategies e = .ok b ↔
      b.1 = e.1 ∧ ∃ entries, readAll readStrategy e.2.entries = .ok entries ∧ b.2 = .ofList entries := by
  obtain ⟨endpoint, table⟩ := b
  unfold readStrategies
  cases readAll readStrategy e.2.entries <;> simp [Except.map, eq_comm]

theorem get?_algorithms {t : Table String String} (h : readAll readAlgorithm t.entries = .ok algorithms)
    {algorithm : AlgorithmKind} :
    (Table.ofList algorithms).get? endpoint = some algorithm ↔
      ∃ name, t.get? endpoint = some name ∧ AlgorithmKind.read name = .ok algorithm := by
  have hkeys : algorithms.map Prod.fst = t.entries.map Prod.fst :=
    keys_of_readAll (fun _ _ hread => (readAlgorithm_eq_ok_iff.1 hread).1) h
  have hdistinct : (algorithms.map Prod.fst).Nodup := by
    rw [hkeys]
    exact t.distinct
  rw [Table.get?_ofList_eq_some_iff hdistinct, mem_of_readAll h]
  constructor
  · rintro ⟨⟨endpoint', name⟩, hentry, hread⟩
    obtain ⟨rfl, hname⟩ := readAlgorithm_eq_ok_iff.1 hread
    exact ⟨name, (t.mem_entries_iff _ _).1 hentry, hname⟩
  · rintro ⟨name, hentry, hname⟩
    exact ⟨(endpoint, name), (t.mem_entries_iff _ _).2 hentry, readAlgorithm_eq_ok_iff.2 ⟨rfl, hname⟩⟩

theorem get?_strategies {t : Table String (Table String String)}
    (h : readAll readStrategies t.entries = .ok strategies) {table : TierTable StrategyKind} :
    (Table.ofList strategies).get? endpoint = some table ↔
      ∃ names entries, t.get? endpoint = some names ∧ readAll readStrategy names.entries = .ok entries ∧
        table = .ofList entries := by
  have hkeys : strategies.map Prod.fst = t.entries.map Prod.fst :=
    keys_of_readAll (fun _ _ hread => (readStrategies_eq_ok_iff.1 hread).1) h
  have hdistinct : (strategies.map Prod.fst).Nodup := by
    rw [hkeys]
    exact t.distinct
  rw [Table.get?_ofList_eq_some_iff hdistinct, mem_of_readAll h]
  constructor
  · rintro ⟨⟨endpoint', names⟩, hentry, hread⟩
    obtain ⟨rfl, entries, hentries, htable⟩ := readStrategies_eq_ok_iff.1 hread
    exact ⟨names, entries, (t.mem_entries_iff _ _).1 hentry, hentries, htable⟩
  · rintro ⟨names, entries, hentry, hentries, htable⟩
    refine ⟨(endpoint, names), (t.mem_entries_iff _ _).2 hentry, ?_⟩
    exact readStrategies_eq_ok_iff.2 ⟨rfl, entries, hentries, htable⟩

/-- The endpoints with strategies are those with names of strategies. -/
theorem contains_strategies {t : Table String (Table String String)}
    (h : readAll readStrategies t.entries = .ok strategies) (endpoint : String) :
    (Table.ofList strategies).contains endpoint = t.contains endpoint := by
  rw [Table.contains, Table.contains, Bool.eq_iff_iff, Option.isSome_iff_exists, Option.isSome_iff_exists]
  constructor
  · rintro ⟨table, htable⟩
    obtain ⟨names, entries, hnames, -, -⟩ := (get?_strategies h).1 htable
    exact ⟨names, hnames⟩
  · rintro ⟨names, hnames⟩
    obtain ⟨b, hread⟩ := exists_readAll_iff.1 ⟨strategies, h⟩ (endpoint, names) ((t.mem_entries_iff _ _).2 hnames)
    obtain ⟨-, entries, hentries, -⟩ := readStrategies_eq_ok_iff.1 hread
    exact ⟨.ofList entries, (get?_strategies h).2 ⟨names, entries, hnames, hentries, rfl⟩⟩

end Readings

/-! ## The settings of a wire form -/

/-- The settings with the names that were read, and with the numbers as they stand. -/
def assemble (w : Wire) (rates : List (Tier × UInt32)) (algorithms : List (String × AlgorithmKind))
    (strategies : List (String × TierTable StrategyKind)) (defaultAlgorithm : AlgorithmKind)
    (defaultStrategy : StrategyKind) : Settings where
  rates := .ofList rates
  defaultAlgorithm := defaultAlgorithm
  algorithms := .ofList algorithms
  slidingWindow := w.slidingWindow
  bucketCapacity := w.bucketCapacity
  refillRate := w.refillRate
  timeWindow := w.timeWindow
  breakerThreshold := w.breakerThreshold
  breakerReset := w.breakerReset
  backoffInitial := w.backoffInitial
  backoffMultiplier := w.backoffMultiplier
  strategies := .ofList strategies
  defaultStrategy := defaultStrategy
  quotaLimit := w.quotaLimit
  clientInactivity := w.clientInactivity
  lockRetries := w.lockRetries
  lockTimeout := w.lockTimeout

variable {w : Wire} {s : Settings} {endpoint : String} {tier : Tier} {kind : StrategyKind}

/-- A wire form has settings exactly if all its names can be read. -/
theorem toSettings_eq_ok_iff : w.toSettings = .ok s ↔
    ∃ rates algorithms strategies defaultAlgorithm defaultStrategy,
      readAll readRate w.sortedRates = .ok rates ∧ readAll readAlgorithm w.algorithms.entries = .ok algorithms ∧
        readAll readStrategies w.strategies.entries = .ok strategies ∧
        AlgorithmKind.read w.defaultAlgorithm = .ok defaultAlgorithm ∧
        StrategyKind.read w.defaultStrategy = .ok defaultStrategy ∧
        s = w.assemble rates algorithms strategies defaultAlgorithm defaultStrategy := by
  unfold toSettings
  cases readAll readRate w.sortedRates with
  | error error => simp
  | ok rates =>
      cases readAll readAlgorithm w.algorithms.entries with
      | error error => simp
      | ok algorithms =>
          cases readAll readStrategies w.strategies.entries with
          | error error => simp
          | ok strategies =>
              cases AlgorithmKind.read w.defaultAlgorithm with
              | error error => simp
              | ok defaultAlgorithm =>
                  cases StrategyKind.read w.defaultStrategy with
                  | error error => simp
                  | ok defaultStrategy => simp [assemble, eq_comm]

/-! ## The strategies that a wire form names -/

/-- Some entry of the wire form names this strategy for a tier on an endpoint. -/
def Names (w : Wire) (endpoint : String) (tier : Tier) (kind : StrategyKind) : Prop :=
  ∃ names name text, w.strategies.get? endpoint = some names ∧ names.get? name = some text ∧
    Tier.read name = .ok tier ∧ StrategyKind.read text = .ok kind

/-- The settings have a strategy for a tier on an endpoint exactly if one is named, and then it is one that is. -/
theorem names_of_toSettings (h : w.toSettings = .ok s) {table : TierTable StrategyKind}
    (htable : s.strategies.get? endpoint = some table) (tier : Tier) :
    (∀ kind, table.get? tier = some kind → w.Names endpoint tier kind) ∧
      ∀ kind, w.Names endpoint tier kind → table.get? tier ≠ none := by
  obtain ⟨rates, algorithms, strategies, defaultAlgorithm, defaultStrategy, -, -, hstrategies, -, -, rfl⟩ :=
    toSettings_eq_ok_iff.1 h
  obtain ⟨names, entries, hnames, hentries, rfl⟩ := (get?_strategies hstrategies).1 htable
  constructor
  · intro kind hkind
    obtain ⟨⟨name, text⟩, hentry, hread⟩ := (mem_of_readAll hentries _).1 (TierTable.mem_of_get?_ofList hkind)
    obtain ⟨hname, htext⟩ := readStrategy_eq_ok_iff.1 hread
    exact ⟨names, name, text, hnames, (names.mem_entries_iff _ _).1 hentry, hname, htext⟩
  · rintro kind ⟨names', name, text, hnames', hentry, hname, htext⟩
    obtain rfl := Option.some.inj (hnames.symm.trans hnames')
    apply TierTable.get?_ofList_ne_none (v := kind)
    rw [mem_of_readAll hentries]
    exact ⟨(name, text), (names.mem_entries_iff _ _).2 hentry, readStrategy_eq_ok_iff.2 ⟨hname, htext⟩⟩

end Wire
end AdmissionControl
