import AdmissionControl.Proofs.Settings.Conversion
import Mathlib.Data.List.Nodup

/-!
# Documents and the order of their tables

Nobody promises an order in which the tables of a document are gone through.  Two wire forms that differ in the order of
their tables alone are one document, and should be one configuration.  They are, but for strategies: the names of tiers
are spelled loosely, so two entries of a table can be about the same tier, and then the later one counts.

* `Table.Alike`, `Wire.Alike`, `Settings.Alike` — what is the same but for the order of tables.
* `Wire.Alike.exists_settings` — with one order or another, a document has settings or has none, and these are the same
  everywhere but in their strategies.
* `Wire.exists_order` — every strategy that an entry names is the one that counts under some order.
* `Wire.orders_agree_iff` — so **a document is one configuration exactly if its names agree** about each tier.
-/

namespace AdmissionControl

/-! ## The same but for the order -/

namespace Table

variable {κ α : Type} [DecidableEq κ] {t u v : Table κ α}

/-- Two tables with the same look-ups.  At most they differ in the order of their entries. -/
def Alike (t u : Table κ α) : Prop := ∀ k, t.get? k = u.get? k

theorem Alike.refl (t : Table κ α) : t.Alike t := fun _ => rfl

theorem Alike.symm (h : t.Alike u) : u.Alike t := fun k => (h k).symm

theorem Alike.trans (h : t.Alike u) (h' : u.Alike v) : t.Alike v := fun k => (h k).trans (h' k)

section MaybeAlike

variable {t? u? v? : Option (Table κ α)}

theorem rel_refl (t? : Option (Table κ α)) : Option.Rel Alike t? t? := by
  cases t? with
  | none => exact .none
  | some t => exact .some (.refl t)

theorem rel_symm (h : Option.Rel Alike t? u?) : Option.Rel Alike u? t? := by
  cases h with
  | none => exact .none
  | some htu => exact .some htu.symm

theorem rel_trans (h : Option.Rel Alike t? u?) (h' : Option.Rel Alike u? v?) : Option.Rel Alike t? v? := by
  cases h with
  | none => exact h'
  | some htu =>
      cases h' with
      | some huv => exact .some (htu.trans huv)

theorem isSome_of_rel (h : Option.Rel Alike t? u?) : t?.isSome = u?.isSome := by
  cases h <;> rfl

theorem exists_of_rel (h : Option.Rel Alike t? u?) (ht : t? = some t) : ∃ u, u? = some u ∧ t.Alike u := by
  cases h with
  | none => cases ht
  | some htu =>
      obtain rfl := Option.some.inj ht
      exact ⟨_, rfl, htu⟩

end MaybeAlike

theorem Alike.mem_iff (h : t.Alike u) (e : κ × α) : e ∈ t.entries ↔ e ∈ u.entries := by
  obtain ⟨k, x⟩ := e
  rw [mem_entries_iff, mem_entries_iff, h k]

theorem Alike.perm (h : t.Alike u) : t.entries.Perm u.entries := by
  apply (List.perm_ext_iff_of_nodup _ _).2
  · exact h.mem_iff
  · exact List.Nodup.of_map _ t.distinct
  · exact List.Nodup.of_map _ u.distinct

/-- A table with one of its entries moved to the end. -/
theorem alike_set_erase {k : κ} {x : α} (h : t.get? k = some x) : t.Alike ((t.erase k).set k x) := by
  intro k'
  rw [get?_set, get?_erase]
  split
  · rename_i hk
    rw [hk, h]
  · rfl

theorem entries_set_erase (t : Table κ α) (k : κ) (x : α) :
    ((t.erase k).set k x).entries = (t.erase k).entries ++ [(k, x)] := by
  apply setEntry_of_not_mem
  intro hmem
  obtain ⟨⟨k', y⟩, hentry, rfl⟩ := List.mem_map.1 hmem
  have hget := ((t.erase k').mem_entries_iff k' y).1 hentry
  simp at hget

end Table

/-- Two wire forms that differ in the order of their tables alone. -/
structure Wire.Alike (w u : Wire) : Prop where
  /-- They have the same rates. -/
  rates : w.rates.Alike u.rates
  /-- They have the same algorithms. -/
  algorithms : w.algorithms.Alike u.algorithms
  /-- They have the same strategies, endpoint by endpoint. -/
  strategies : ∀ endpoint, Option.Rel Table.Alike (w.strategies.get? endpoint) (u.strategies.get? endpoint)
  /-- They have the same numbers and default names. -/
  rest : { u with rates := w.rates, algorithms := w.algorithms, strategies := w.strategies } = w

namespace Settings

/-- Two configurations that differ in their strategies, and in the order of their tables, alone. -/
structure SameElsewhere (s t : Settings) : Prop where
  /-- They have the same algorithms. -/
  algorithms : s.algorithms.Alike t.algorithms
  /-- They have strategies for the same endpoints. -/
  endpoints : ∀ endpoint, s.strategies.contains endpoint = t.strategies.contains endpoint
  /-- Everything else is the same. -/
  rest : { t with algorithms := s.algorithms, strategies := s.strategies } = s

/-- Two configurations that differ in the order of their tables alone. -/
structure Alike (s t : Settings) : Prop extends SameElsewhere s t where
  /-- They have the same strategies. -/
  strategies : s.strategies.Alike t.strategies

theorem Alike.strategyFor_eq {s t : Settings} (h : s.Alike t) (endpoint : String) (tier : Tier) :
    s.strategyFor endpoint tier = t.strategyFor endpoint tier := by
  have hdefault : s.defaultStrategy = t.defaultStrategy := by rw [← h.rest]
  rw [strategyFor, strategyFor, h.strategies endpoint, hdefault]

end Settings

namespace Wire

variable {w u v : Wire} {s t : Settings} {endpoint : String} {tier : Tier} {kind : StrategyKind}

theorem Alike.refl (w : Wire) : w.Alike w := ⟨.refl _, .refl _, fun _ => Table.rel_refl _, rfl⟩

theorem Alike.symm (h : w.Alike u) : u.Alike w := by
  refine ⟨h.rates.symm, h.algorithms.symm, fun endpoint => Table.rel_symm (h.strategies endpoint), ?_⟩
  rw [← h.rest]

theorem Alike.trans (h : w.Alike u) (h' : u.Alike v) : w.Alike v := by
  refine ⟨h.rates.trans h'.rates, h.algorithms.trans h'.algorithms, fun endpoint => ?_, ?_⟩
  · exact Table.rel_trans (h.strategies endpoint) (h'.strategies endpoint)
  · rw [← h.rest, ← h'.rest]

/-- An endpoint with strategies under one order has them under the other. -/
theorem Alike.exists_names (h : w.Alike u) {names : Table String String}
    (hnames : w.strategies.get? endpoint = some names) :
    ∃ names', u.strategies.get? endpoint = some names' ∧ names.Alike names' :=
  Table.exists_of_rel (h.strategies endpoint) hnames

/-- Rates are read in the order of their names, whatever order they stand in. -/
theorem Alike.sortedRates_eq (h : w.Alike u) : w.sortedRates = u.sortedRates := by
  have hsorted : ∀ w : Wire, w.sortedRates.Pairwise fun a b => a.1 ≤ b.1 := by
    intro w
    refine (List.pairwise_mergeSort ?_ ?_ _).imp of_decide_eq_true
    · intro a b c hab hbc
      exact decide_eq_true (String.le_trans (of_decide_eq_true hab) (of_decide_eq_true hbc))
    · intro a b
      simpa using String.le_total a.1 b.1
  have hmem : ∀ w : Wire, ∀ e, e ∈ w.sortedRates ↔ w.rates.get? e.1 = some e.2 := by
    intro w e
    rw [sortedRates, (List.mergeSort_perm ..).mem_iff, ← Table.mem_entries_iff]
  apply List.Perm.eq_of_pairwise _ (hsorted w) (hsorted u)
  · exact ((List.mergeSort_perm ..).trans h.rates.perm).trans (List.mergeSort_perm ..).symm
  · rintro ⟨name, rate⟩ ⟨name', rate'⟩ he he' hle hle'
    obtain rfl : name = name' := String.le_antisymm hle hle'
    have hrate := ((hmem w _).1 he).symm.trans ((h.rates name).trans ((hmem u _).1 he'))
    obtain rfl : rate = rate' := Option.some.inj hrate
    rfl

theorem Alike.names (h : w.Alike u) (hnames : w.Names endpoint tier kind) : u.Names endpoint tier kind := by
  obtain ⟨names, name, text, hendpoint, hname, htier, hkind⟩ := hnames
  obtain ⟨names', hendpoint', halike⟩ := h.exists_names hendpoint
  exact ⟨names', name, text, hendpoint', (halike name).symm.trans hname, htier, hkind⟩

/-! ## One document -/

theorem readAll_of_alike {names names' : Table String String} (h : names'.Alike names)
    {entries : List (Tier × StrategyKind)} (hread : readAll readStrategy names'.entries = .ok entries) :
    ∃ entries', readAll readStrategy names.entries = .ok entries' := by
  apply exists_readAll_iff.2
  intro e he
  exact exists_readAll_iff.1 ⟨entries, hread⟩ e ((h.mem_iff e).2 he)

/-- With one order or another, a document has settings or has none, and they differ in strategies alone. -/
theorem Alike.exists_settings (h : w.Alike u) (hs : w.toSettings = .ok s) :
    ∃ t, u.toSettings = .ok t ∧ s.SameElsewhere t := by
  obtain ⟨rates, algorithms, strategies, defaultAlgorithm, defaultStrategy, hrates, halgorithms, hstrategies,
    hdefaultAlgorithm, hdefaultStrategy, rfl⟩ := toSettings_eq_ok_iff.1 hs
  have hrest := h.rest
  obtain ⟨algorithms', halgorithms'⟩ : ∃ algorithms', readAll readAlgorithm u.algorithms.entries = .ok algorithms' := by
    apply exists_readAll_iff.2
    intro e he
    exact exists_readAll_iff.1 ⟨algorithms, halgorithms⟩ e ((h.algorithms.mem_iff e).2 he)
  obtain ⟨strategies', hstrategies'⟩ :
      ∃ strategies', readAll readStrategies u.strategies.entries = .ok strategies' := by
    apply exists_readAll_iff.2
    rintro ⟨endpoint, names⟩ he
    obtain ⟨names', hnames', halike⟩ := h.symm.exists_names ((u.strategies.mem_entries_iff _ _).1 he)
    obtain ⟨b, hb⟩ := exists_readAll_iff.1 ⟨strategies, hstrategies⟩ (endpoint, names')
      ((w.strategies.mem_entries_iff _ _).2 hnames')
    obtain ⟨-, entries, hentries, -⟩ := readStrategies_eq_ok_iff.1 hb
    obtain ⟨entries', hentries'⟩ := readAll_of_alike halike.symm hentries
    exact ⟨(endpoint, .ofList entries'), readStrategies_eq_ok_iff.2 ⟨rfl, entries', hentries', rfl⟩⟩
  rw [h.sortedRates_eq] at hrates
  refine ⟨u.assemble rates algorithms' strategies' defaultAlgorithm defaultStrategy, ?_, ?_, ?_, ?_⟩
  · apply toSettings_eq_ok_iff.2
    rw [← h.rest] at hdefaultAlgorithm hdefaultStrategy
    exact ⟨_, _, _, _, _, hrates, halgorithms', hstrategies', hdefaultAlgorithm, hdefaultStrategy, rfl⟩
  · intro endpoint
    apply Option.ext
    intro algorithm
    show (Table.ofList algorithms).get? endpoint = some algorithm ↔
      (Table.ofList algorithms').get? endpoint = some algorithm
    rw [get?_algorithms halgorithms, get?_algorithms halgorithms', h.algorithms endpoint]
  · intro endpoint
    refine (contains_strategies hstrategies endpoint).trans (Eq.trans ?_ (contains_strategies hstrategies' endpoint).symm)
    exact Table.isSome_of_rel (h.strategies endpoint)
  · rw [← h.rest]
    rfl

/-- Where the names for a tier agree, it has the same strategy under both orders. -/
theorem Alike.get?_eq_some (h : w.Alike u) (hs : w.toSettings = .ok s) (ht : u.toSettings = .ok t)
    {table table' : TierTable StrategyKind} (htable : s.strategies.get? endpoint = some table)
    (htable' : t.strategies.get? endpoint = some table')
    (hagree : ∀ a b, u.Names endpoint tier a → u.Names endpoint tier b → a = b) (hkind : table.get? tier = some kind) :
    table'.get? tier = some kind := by
  have hnamed := h.names ((names_of_toSettings hs htable tier).1 kind hkind)
  obtain ⟨hnamed', hfound⟩ := names_of_toSettings ht htable' tier
  cases hkind' : table'.get? tier with
  | none => exact absurd hkind' (hfound kind hnamed)
  | some kind' => rw [hagree kind' kind (hnamed' kind' hkind') hnamed]

/-- Where the names of a document agree about each tier, its settings are the same under every order. -/
theorem Alike.exists_alike (h : w.Alike u) (hs : w.toSettings = .ok s)
    (hagree : ∀ endpoint tier a b, w.Names endpoint tier a → w.Names endpoint tier b → a = b) :
    ∃ t, u.toSettings = .ok t ∧ s.Alike t := by
  obtain ⟨t, ht, hsame⟩ := h.exists_settings hs
  refine ⟨t, ht, hsame, fun endpoint => ?_⟩
  have hendpoint := hsame.endpoints endpoint
  unfold Table.contains at hendpoint
  cases hstable : s.strategies.get? endpoint with
  | none =>
      cases httable : t.strategies.get? endpoint with
      | none => rfl
      | some table => simp [hstable, httable] at hendpoint
  | some table =>
      cases httable : t.strategies.get? endpoint with
      | none => simp [hstable, httable] at hendpoint
      | some table' =>
          congr 1
          apply TierTable.ext_get?
          intro tier
          apply Option.ext
          intro kind
          constructor
          · apply h.get?_eq_some hs ht hstable httable
            intro a b ha hb
            exact hagree endpoint tier a b (h.symm.names ha) (h.symm.names hb)
          · exact h.symm.get?_eq_some ht hs httable hstable (hagree endpoint tier)

/-! ## The entry that counts -/

/-- **Every entry counts under some order**: the one that is gone through last. -/
theorem exists_order (hs : w.toSettings = .ok s) (hnames : w.Names endpoint tier kind) :
    ∃ u t, w.Alike u ∧ u.toSettings = .ok t ∧ t.strategyFor endpoint tier = kind := by
  obtain ⟨names, name, text, hendpoint, hname, htier, hkind⟩ := hnames
  let names' := (names.erase name).set name text
  let u : Wire := { w with strategies := w.strategies.set endpoint names' }
  have halike : w.Alike u := by
    refine ⟨.refl _, .refl _, fun endpoint' => ?_, rfl⟩
    show Option.Rel Table.Alike _ ((w.strategies.set endpoint names').get? endpoint')
    rw [Table.get?_set]
    split
    · rename_i hendpoint'
      rw [hendpoint', hendpoint]
      exact .some (Table.alike_set_erase hname)
    · exact (Alike.refl w).strategies endpoint'
  obtain ⟨t, ht, hsame⟩ := halike.exists_settings hs
  refine ⟨u, t, halike, ht, ?_⟩
  obtain ⟨rates, algorithms, strategies, defaultAlgorithm, defaultStrategy, -, -, hstrategies, -, -, rfl⟩ :=
    toSettings_eq_ok_iff.1 ht
  have hcontains : (Table.ofList strategies).contains endpoint = true := by
    rw [contains_strategies hstrategies]
    simp [u, Table.contains]
  obtain ⟨table, htable⟩ := Option.isSome_iff_exists.1 hcontains
  obtain ⟨read, entries, hread, hentries, rfl⟩ := (get?_strategies hstrategies).1 htable
  obtain rfl : names' = read := by simpa [u] using hread
  have hlast : ∃ early, entries = early ++ [(tier, kind)] := by
    have hread : readStrategy (name, text) = .ok (tier, kind) := readStrategy_eq_ok_iff.2 ⟨htier, hkind⟩
    have hmap := readAll_eq_ok_iff.1 hentries
    rw [Table.entries_set_erase, List.map_append, List.map_singleton, hread] at hmap
    obtain ⟨early, last, rfl, -, hsingle⟩ := List.map_eq_append_iff.1 hmap.symm
    obtain ⟨e, rfl, he⟩ := List.map_eq_singleton_iff.1 hsingle
    exact ⟨early, by rw [Except.ok.inj he]⟩
  obtain ⟨early, rfl⟩ := hlast
  have hget : (TierTable.ofList (early ++ [(tier, kind)])).get? tier = some kind := by
    rw [TierTable.ofList_append_singleton, TierTable.get?_set, if_pos rfl]
  show (((Table.ofList strategies).get? endpoint).bind (·.get? tier)).getD _ = kind
  rw [htable, Option.bind_some, hget]
  rfl

/-! ## One configuration -/

/-- Two conversions agree: both fail, or both have settings that are related. -/
def Agree (related : Settings → Settings → Prop) : Except Error Settings → Except Error Settings → Prop
  | .ok s, .ok t => related s t
  | .error _, .error _ => True
  | .ok _, .error _ | .error _, .ok _ => False

theorem Alike.agree {related : Settings → Settings → Prop} (h : w.Alike u)
    (hrelated : ∀ s, w.toSettings = .ok s → ∃ t, u.toSettings = .ok t ∧ related s t) :
    Agree related w.toSettings u.toSettings := by
  cases hs : w.toSettings with
  | ok s =>
      obtain ⟨t, ht, hst⟩ := hrelated s hs
      rw [ht]
      exact hst
  | error error =>
      cases ht : u.toSettings with
      | error error' => trivial
      | ok t =>
          obtain ⟨s, hs', -⟩ := h.symm.exists_settings ht
          cases hs.symm.trans hs'

/-- **When a document is one configuration.**  Under all orders of its tables, a document has settings or has none, and
these are the same everywhere but in their strategies.  They are the same in their strategies, too, if and only if all
entries that are about the same tier on the same endpoint name the same strategy. -/
theorem orders_agree_iff (w : Wire) :
    (∀ u, w.Alike u → Agree Settings.SameElsewhere w.toSettings u.toSettings) ∧
      ((∀ u v, w.Alike u → w.Alike v → Agree Settings.Alike u.toSettings v.toSettings) ↔
        ((∃ s, w.toSettings = .ok s) →
          ∀ endpoint tier a b, w.Names endpoint tier a → w.Names endpoint tier b → a = b)) := by
  refine ⟨fun u hu => hu.agree fun s hs => hu.exists_settings hs, ?_, ?_⟩
  · rintro hagree ⟨s, hs⟩ endpoint tier a b ha hb
    obtain ⟨u, s', hu, hs', rfl⟩ := exists_order hs ha
    obtain ⟨v, t', hv, ht', rfl⟩ := exists_order hs hb
    have halike := hagree u v hu hv
    rw [hs', ht'] at halike
    exact halike.strategyFor_eq endpoint tier
  · intro hagree u v hu hv
    have huv : u.Alike v := hu.symm.trans hv
    apply huv.agree
    intro s hs
    obtain ⟨t, ht, -⟩ := hu.symm.exists_settings hs
    apply huv.exists_alike hs
    intro endpoint tier a b ha hb
    exact hagree ⟨t, ht⟩ endpoint tier a b (hu.symm.names ha) (hu.symm.names hb)

/-- Two spellings of a tier, with a strategy each. -/
def spellings : Wire :=
  { ofSettings .standard with
    rates := .empty
    strategies := .ofList [("/a", .ofList [("VIP", "DELAY"), ("vip", "REJECT")])] }

/-- The same in the other order. -/
def spellingsTurned : Wire :=
  { ofSettings .standard with
    rates := .empty
    strategies := .ofList [("/a", .ofList [("vip", "REJECT"), ("VIP", "DELAY")])] }

/-- The order decides whether very important clients wait or are turned away. -/
theorem spellings_disagree :
    spellings.Alike spellingsTurned ∧
      spellings.toSettings.map (·.strategyFor "/a" .vip) = .ok .reject ∧
      spellingsTurned.toSettings.map (·.strategyFor "/a" .vip) = .ok .delay ∧
      ¬∀ w u v : Wire, w.Alike u → w.Alike v → Agree Settings.Alike u.toSettings v.toSettings := by
  have halike : spellings.Alike spellingsTurned := by
    refine ⟨.refl _, .refl _, fun endpoint => ?_, rfl⟩
    by_cases hendpoint : endpoint = "/a"
    · rw [hendpoint]
      refine .some fun name => ?_
      simp only [Table.ofList, List.foldl_cons, List.foldl_nil, Table.get?_set]
      by_cases hname : name = "vip"
      · simp [hname]
      · simp [hname]
    · simp [spellings, spellingsTurned, Table.ofList, hendpoint]
  have hreject : spellings.toSettings.map (·.strategyFor "/a" .vip) = .ok .reject := by decide +kernel
  have hdelay : spellingsTurned.toSettings.map (·.strategyFor "/a" .vip) = .ok .delay := by decide +kernel
  refine ⟨halike, hreject, hdelay, fun hagree => ?_⟩
  have hboth := hagree _ _ _ (.refl _) halike
  cases hs : spellings.toSettings with
  | error error => simp [hs, Except.map] at hreject
  | ok s =>
      cases ht : spellingsTurned.toSettings with
      | error error => simp [ht, Except.map] at hdelay
      | ok t =>
          rw [hs, ht] at hboth
          rw [hs] at hreject
          rw [ht] at hdelay
          have hsame := hboth.strategyFor_eq "/a" .vip
          cases (Except.ok.inj hreject).symm.trans (hsame.trans (Except.ok.inj hdelay))

end Wire
end AdmissionControl
