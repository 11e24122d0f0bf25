import AdmissionControl.Proofs.Json.Doubles
import AdmissionControl.Proofs.Json.RoundTrip
import AdmissionControl.Proofs.Settings.Orders
import AdmissionControl.Settings.Document

/-!
# Settings, written and read back

Settings are turned into a wire form with canonical names, the wire form into a JSON value, and the value into a text.
Each of these steps is undone by its reader.  Canonical names cannot be mistaken for each other, so here the order in
which tables are gone through makes no difference; and of all numbers only the growth of the backoff, the one double, is
not certain to be read back, since documents are read by the quick reading.

* `Wire.ofJson?_toJson`, `Wire.proper_toJson` — the value of a wire form.
* `Wire.toSettings_ofSettings` — **all settings come back from their wire form**.
* `Settings.round_trip` — so under every order, and **all sound settings come back from their text**.
-/

namespace AdmissionControl

namespace Wire

/-! ## Values, read back -/

section Values

variable {α : Type} {read? : Json → Option α} {f : α → Json}

theorem nat?_ofNat (n : Nat) : (Json.ofNat n).nat? = some n := by
  simp [Json.ofNat, Json.nat?, Numeral.toNat?, Numeral.ofNat, Numeral.value_toDigits]

theorem short?_ofNat (n : UInt32) : short? (.ofNat n.toNat) = some n := by
  simp [short?, nat?_ofNat, n.toNat_lt_size]

theorem long?_ofNat (n : UInt64) : long? (.ofNat n.toNat) = some n := by
  simp [long?, nat?_ofNat, n.toNat_lt_size]

theorem entries?_map (h : ∀ a, read? (f a) = some a) (l : List (String × α)) :
    entries? read? (l.map fun e => (some e.1, f e.2)) = some l := by
  induction l with
  | nil => rfl
  | cons e rest ih => simp [entries?, h, ih]

theorem table?_jsonOfTable (h : ∀ a, read? (f a) = some a) (t : Table String α) :
    table? read? (jsonOfTable f t) = some t := by
  have hentries := entries?_map h t.entries
  simp only [table?, jsonOfTable, Json.ofMembers, List.map_map, Function.comp_def, hentries, Option.map_some,
    Table.ofList_entries]

theorem proper_ofNat (n : Nat) : (Json.ofNat n).Proper := .number (Numeral.proper_ofNat n)

theorem proper_jsonOfTable (h : ∀ a, (f a).Proper) (t : Table String α) : (jsonOfTable f t).Proper := by
  apply Json.Proper.object
  intro m hm
  obtain ⟨e, -, rfl⟩ := List.mem_map.1 hm
  exact h e.2

theorem proper_jsonOfFloat (x : Float) : (jsonOfFloat x).Proper := by
  unfold jsonOfFloat
  split
  · rename_i n hn
    exact .number (Decimal.proper_of_text hn)
  · exact .null

end Values

/-! ## The document of a wire form -/

variable {w : Wire}

/-- The wire form with one setting of another. -/
def copy (base w : Wire) : Setting → Wire
  | .requestsPerSecond => { base with rates := w.rates }
  | .defaultAlgorithm => { base with defaultAlgorithm := w.defaultAlgorithm }
  | .algorithmByEndpoint => { base with algorithms := w.algorithms }
  | .slidingWindowSize => { base with slidingWindow := w.slidingWindow }
  | .bucketCapacity => { base with bucketCapacity := w.bucketCapacity }
  | .refillRate => { base with refillRate := w.refillRate }
  | .timeWindow => { base with timeWindow := w.timeWindow }
  | .breakerThreshold => { base with breakerThreshold := w.breakerThreshold }
  | .breakerReset => { base with breakerReset := w.breakerReset }
  | .backoffInitial => { base with backoffInitial := w.backoffInitial }
  | .backoffMultiplier => { base with backoffMultiplier := w.backoffMultiplier }
  | .throttlingStrategies => { base with strategies := w.strategies }
  | .defaultStrategy => { base with defaultStrategy := w.defaultStrategy }
  | .quotaLimit => { base with quotaLimit := w.quotaLimit }
  | .clientInactivity => { base with clientInactivity := w.clientInactivity }
  | .lockRetries => { base with lockRetries := w.lockRetries }
  | .lockTimeout => { base with lockTimeout := w.lockTimeout }

/-- The quick reading takes the number that a double is written as for that double. -/
def ReadBack (x : Float) : Prop := double? (jsonOfFloat x) = some x

instance (x : Float) : Decidable (ReadBack x) := inferInstanceAs (Decidable (double? (jsonOfFloat x) = some x))

/-- Each setting is read back for itself. -/
theorem set?_get (hmultiplier : ReadBack w.backoffMultiplier) (base : Wire) (setting : Setting) :
    base.set? (w.get setting) setting = some (base.copy w setting) := by
  have hnames : ∀ t : Table String String, table? Json.text? (jsonOfTable .ofString t) = some t :=
    table?_jsonOfTable fun _ => rfl
  cases setting with
  | requestsPerSecond => simp [set?, get, copy, table?_jsonOfTable short?_ofNat]
  | algorithmByEndpoint => simp [set?, get, copy, hnames]
  | throttlingStrategies => simp [set?, get, copy, table?_jsonOfTable hnames]
  | defaultAlgorithm => rfl
  | defaultStrategy => rfl
  | backoffMultiplier =>
      rw [ReadBack] at hmultiplier
      simp [set?, get, copy, hmultiplier]
  | breakerThreshold => simp [set?, get, copy, short?_ofNat]
  | lockRetries => simp [set?, get, copy, short?_ofNat]
  | _ => simp [set?, get, copy, long?_ofNat]

theorem setAll?_map_get (hmultiplier : ReadBack w.backoffMultiplier) (base : Wire) (l : List Setting) :
    base.setAll? (l.map fun setting => (setting, w.get setting)) = some (l.foldl (·.copy w ·) base) := by
  induction l generalizing base with
  | nil => rfl
  | cons setting rest ih => simp [setAll?, set?_get hmultiplier, ih]

/-- There is no more to a wire form than its settings. -/
theorem foldl_copy (base w : Wire) : Setting.all.foldl (·.copy w ·) base = w := by
  simp only [Setting.all, List.foldl_cons, List.foldl_nil, copy]

theorem settingsOf?_map (value : Setting → Json) (l : List Setting) :
    settingsOf? (l.map fun setting => (some setting.name, value setting)) =
      some (l.map fun setting => (setting, value setting)) := by
  induction l with
  | nil => rfl
  | cons setting rest ih => simp [settingsOf?, ih, Setting.ofName?_name]

/-- A wire form is read back from its value. -/
theorem ofJson?_toJson (hmultiplier : ReadBack w.backoffMultiplier) : ofJson? w.toJson = some w := by
  have hsettings := settingsOf?_map w.get Setting.all
  have hdistinct : Setting.all.Nodup := by decide
  simp only [toJson, Json.ofMembers, ofJson?, List.map_map, Function.comp_def, hsettings, List.map_id']
  rw [if_pos hdistinct, setAll?_map_get hmultiplier, foldl_copy]

/-- The value of a wire form is one as documents demand it. -/
theorem proper_toJson (w : Wire) : w.toJson.Proper := by
  apply Json.Proper.object
  intro m hm
  obtain ⟨setting, -, rfl⟩ := List.mem_map.1 hm
  cases setting with
  | requestsPerSecond => exact proper_jsonOfTable (fun _ => proper_ofNat _) _
  | algorithmByEndpoint => exact proper_jsonOfTable .string _
  | throttlingStrategies => exact proper_jsonOfTable (proper_jsonOfTable .string) _
  | defaultAlgorithm => exact .string _
  | defaultStrategy => exact .string _
  | backoffMultiplier => exact proper_jsonOfFloat _
  | _ => exact proper_ofNat _

/-- A codec gives a wire form back, in whatever order it makes the tables anew. -/
def Codec.GivesBack (codec : Codec) (w : Wire) : Prop := ∃ u, codec.read? (codec.write w) = some u ∧ w.Alike u

/-- **A wire form is read back from its document.** -/
theorem Codec.read?_json (hmultiplier : ReadBack w.backoffMultiplier) :
    Codec.json.read? (Codec.json.write w) = some w := by
  rw [Codec.json]
  dsimp only
  rw [Json.read?_pretty w.proper_toJson, Option.bind_some, ofJson?_toJson hmultiplier]

theorem Codec.givesBack_json (hmultiplier : ReadBack w.backoffMultiplier) : Codec.json.GivesBack w :=
  ⟨w, Codec.read?_json hmultiplier, .refl w⟩

-- digits for which a word has no room are passed over, so this growth comes back as its neighbour
example : Settings.isGrowth 90.28571428571429 = true ∧ ¬ReadBack 90.28571428571429 := by decide +kernel

end Wire

/-! ## Canonical names -/

theorem Tier.name_injective : Function.Injective Tier.name := by
  intro a b h
  have hread := congrArg ofText? h
  rw [ofText?_name, ofText?_name] at hread
  exact Option.some.inj hread

namespace TierTable

variable {α : Type}

theorem keys_toList (t : TierTable α) : t.toList.map Prod.fst = Tier.all.filter fun tier => (t.get? tier).isSome := by
  unfold toList
  induction Tier.all with
  | nil => rfl
  | cons tier rest ih => cases htier : t.get? tier <;> simp [htier, ih]

/-- A table with the same entries is the same. -/
theorem ofList_eq {l : List (Tier × α)} {t : TierTable α} (h : ∀ e, e ∈ l ↔ e ∈ t.toList) : ofList l = t := by
  apply ext_get?
  intro tier
  apply Option.ext
  intro v
  constructor
  · intro hv
    exact mem_toList_iff.1 ((h _).1 (mem_of_get?_ofList hv))
  · intro hv
    cases hfound : (ofList l).get? tier with
    | none => exact absurd hfound (get?_ofList_ne_none ((h (tier, v)).2 (mem_toList_iff.2 hv)))
    | some v' =>
        have hv' := mem_toList_iff.1 ((h _).1 (mem_of_get?_ofList hfound))
        exact hv'.symm.trans hv

end TierTable

namespace Wire

variable {s t : Settings} {w : Wire} {endpoint : String} {tier : Tier} {kind : StrategyKind}

/-- The names of tiers cannot be mistaken for each other, so each tier keeps its entry. -/
theorem entries_ofTierTable {α β : Type} (f : α → β) (t : TierTable α) :
    (ofTierTable f t).entries = t.toList.map fun e => (e.1.name, f e.2) := by
  apply Table.entries_ofList
  have hnames : (t.toList.map fun e => (e.1.name, f e.2)).map Prod.fst = (t.toList.map Prod.fst).map Tier.name := by
    rw [List.map_map, List.map_map]
    rfl
  rw [hnames, TierTable.keys_toList]
  apply List.Nodup.map Tier.name_injective
  apply List.Nodup.filter
  decide

theorem readAll_algorithms (t : Table String AlgorithmKind) :
    readAll readAlgorithm (t.map AlgorithmKind.name).entries = .ok t.entries := by
  show readAll readAlgorithm (t.entries.map fun e => (e.1, e.2.name)) = .ok t.entries
  apply readAll_map
  intro e
  exact readAlgorithm_eq_ok_iff.2 ⟨rfl, AlgorithmKind.read_name e.2⟩

theorem readAll_strategies (t : Table String (TierTable StrategyKind)) :
    readAll readStrategies (t.map (ofTierTable StrategyKind.name)).entries = .ok t.entries := by
  show readAll readStrategies (t.entries.map fun e => (e.1, ofTierTable StrategyKind.name e.2)) = .ok t.entries
  apply readAll_map
  intro e
  refine readStrategies_eq_ok_iff.2 ⟨rfl, e.2.toList, ?_, e.2.ofList_toList.symm⟩
  rw [entries_ofTierTable]
  apply readAll_map
  intro e
  exact readStrategy_eq_ok_iff.2 ⟨Tier.read_name e.1, StrategyKind.read_name e.2⟩

/-- Rates come in the order of the names of their tiers, and go to their places. -/
theorem exists_rates (s : Settings) :
    ∃ rates, readAll readRate (ofSettings s).sortedRates = .ok rates ∧ TierTable.ofList rates = s.rates := by
  have hread : ∀ e, readRate (e.1.name, e.2) = .ok e := fun e => readRate_eq_ok_iff.2 ⟨Tier.read_name e.1, rfl⟩
  have hmem : ∀ a, a ∈ (ofSettings s).sortedRates ↔ ∃ e ∈ s.rates.toList, (e.1.name, e.2) = a := by
    intro a
    rw [sortedRates, (List.mergeSort_perm ..).mem_iff]
    show a ∈ (ofTierTable id s.rates).entries ↔ _
    rw [entries_ofTierTable, List.mem_map]
    rfl
  obtain ⟨rates, hrates⟩ : ∃ rates, readAll readRate (ofSettings s).sortedRates = .ok rates := by
    apply exists_readAll_iff.2
    intro a ha
    obtain ⟨e, -, rfl⟩ := (hmem a).1 ha
    exact ⟨e, hread e⟩
  refine ⟨rates, hrates, TierTable.ofList_eq fun e => ?_⟩
  rw [mem_of_readAll hrates]
  constructor
  · rintro ⟨a, ha, hae⟩
    obtain ⟨e', he', rfl⟩ := (hmem a).1 ha
    rw [hread e'] at hae
    obtain rfl := Except.ok.inj hae
    exact he'
  · intro he
    exact ⟨(e.1.name, e.2), (hmem _).2 ⟨e, he, rfl⟩, hread e⟩

/-- **All settings come back from their wire form.** -/
theorem toSettings_ofSettings (s : Settings) : (ofSettings s).toSettings = .ok s := by
  obtain ⟨rates, hrates, hs⟩ := exists_rates s
  refine toSettings_eq_ok_iff.2 ⟨rates, s.algorithms.entries, s.strategies.entries, s.defaultAlgorithm,
    s.defaultStrategy, hrates, readAll_algorithms _, readAll_strategies _, AlgorithmKind.read_name _,
    StrategyKind.read_name _, ?_⟩
  rw [assemble, hs, Table.ofList_entries, Table.ofList_entries]
  rfl

/-- The wire form of settings names the strategies of the settings. -/
theorem names_ofSettings (h : (ofSettings s).Names endpoint tier kind) :
    (s.strategies.get? endpoint).bind (·.get? tier) = some kind := by
  obtain ⟨names, name, text, hnames, hname, htier, hkind⟩ := h
  have hmap : (s.strategies.get? endpoint).map (ofTierTable StrategyKind.name) = some names :=
    (s.strategies.get?_map _ endpoint).symm.trans hnames
  obtain ⟨table, htable, rfl⟩ := Option.map_eq_some_iff.1 hmap
  have hentry := (Table.mem_entries_iff _ _ _).2 hname
  rw [entries_ofTierTable, List.mem_map] at hentry
  obtain ⟨⟨tier', kind'⟩, he, hpair⟩ := hentry
  obtain ⟨rfl, rfl⟩ := Prod.mk.inj hpair
  obtain rfl := Except.ok.inj ((Tier.read_name tier').symm.trans htier)
  obtain rfl := Except.ok.inj ((StrategyKind.read_name kind').symm.trans hkind)
  rw [htable, Option.bind_some]
  exact TierTable.mem_toList_iff.1 he

/-- Settings come back from their wire form under every order of its tables. -/
theorem exists_toSettings (h : (ofSettings s).Alike w) : ∃ t, w.toSettings = .ok t ∧ s.Alike t := by
  apply h.exists_alike (toSettings_ofSettings s)
  intro endpoint tier a b ha hb
  exact Option.some.inj ((names_ofSettings ha).symm.trans (names_ofSettings hb))

end Wire

/-! ## The round trip -/

namespace Settings

theorem SameElsewhere.fault?_eq {s t : Settings} (h : s.SameElsewhere t) : s.fault? = t.fault? := by
  rw [← h.rest]
  rfl

/-- A text has the settings of the wire form that is read from it, if these are sound. -/
theorem readBy_eq_ok {codec : Wire.Codec} {text : String} {w : Wire} {s : Settings}
    (hread : codec.read? text = some w) (hs : w.toSettings = .ok s) (hsound : s.fault? = none) :
    readBy codec text = .ok s := by
  rw [readBy, hread]
  simp only [hs]
  exact validate_eq_ok_iff.2 ⟨hsound, rfl⟩

/-- Sound settings are read from what a codec writes for their wire form, if it gives this back. -/
theorem exists_readBy {codec : Wire.Codec} {s : Settings} {w : Wire} (hsound : s.fault? = none)
    (hw : (Wire.ofSettings s).Alike w) (hback : codec.GivesBack w) :
    ∃ t, readBy codec (codec.write w) = .ok t ∧ s.Alike t := by
  obtain ⟨u, hread, hu⟩ := hback
  obtain ⟨t, ht, halike⟩ := Wire.exists_toSettings (hw.trans hu)
  exact ⟨t, readBy_eq_ok hread ht (halike.fault?_eq ▸ hsound), halike⟩

/-- **Settings come back from what is made of them.**  All settings come back from their wire form, and under every order
of its tables.  Sound settings come back from their text if the growth of their backoff does, and again under every order
in which the tables are written.  Nothing in this depends on the layout of the text: whatever writes wire forms and reads
them, sound settings come back from what it writes for them if it gives their wire form back, as it was, or with the
tables in any order before and after. -/
theorem round_trip (s : Settings) :
    (Wire.ofSettings s).toSettings = .ok s ∧
      (∀ w, (Wire.ofSettings s).Alike w → ∃ t, w.toSettings = .ok t ∧ s.Alike t) ∧
      (s.validate = .ok s → Wire.ReadBack s.backoffMultiplier →
        read s.text = .ok s ∧
          ∀ w, (Wire.ofSettings s).Alike w → ∃ t, read w.toJson.pretty = .ok t ∧ s.Alike t) ∧
      ∀ codec : Wire.Codec, s.validate = .ok s →
        (codec.read? (s.textBy codec) = some (.ofSettings s) → readBy codec (s.textBy codec) = .ok s) ∧
          ∀ w, (Wire.ofSettings s).Alike w → codec.GivesBack w →
            ∃ t, readBy codec (codec.write w) = .ok t ∧ s.Alike t := by
  refine ⟨Wire.toSettings_ofSettings s, fun w => Wire.exists_toSettings, ?_, ?_⟩
  · intro hvalid hmultiplier
    obtain ⟨hsound, -⟩ := validate_eq_ok_iff.1 hvalid
    refine ⟨readBy_eq_ok (Wire.Codec.read?_json hmultiplier) (Wire.toSettings_ofSettings s) hsound, fun w hw => ?_⟩
    have hrest : w.backoffMultiplier = s.backoffMultiplier := congrArg Wire.backoffMultiplier hw.rest
    exact exists_readBy hsound hw (Wire.Codec.givesBack_json (hrest ▸ hmultiplier))
  · intro codec hvalid
    obtain ⟨hsound, -⟩ := validate_eq_ok_iff.1 hvalid
    refine ⟨fun hread => ?_, fun w => exists_readBy hsound⟩
    exact readBy_eq_ok hread (Wire.toSettings_ofSettings s) hsound

/-- Settings with names that need quotes, line breaks or more than one letter, and a growth between two numbers. -/
def harbour : Settings :=
  { standard with
    rates := ⟨some 10, none, some 4294967295, none, none, some 1⟩
    algorithms := .ofList [("/say \"hello\"\n", .slidingWindow), ("/größe", .quota)]
    strategies := .ofList [("", ⟨some .reject, none, none, some .exponentialBackoff, none, none⟩), ("\\", .empty)]
    backoffMultiplier := 1.5
    quotaLimit := 18446744073709551615 }

/-- The wire form of these settings with their algorithms in the other order. -/
def harbourTurned : Wire :=
  { Wire.ofSettings harbour with
    algorithms := .ofList [("/größe", "QUOTA"), ("/say \"hello\"\n", "SLIDING_WINDOW")] }

/-- They come back from their document and from the turned one, and the codec of documents gives both wire forms back. -/
theorem harbour_round_trip :
    harbour.validate = .ok harbour ∧ Wire.ReadBack harbour.backoffMultiplier ∧ read harbour.text = .ok harbour ∧
      (Wire.ofSettings harbour).Alike harbourTurned ∧
      (∃ t, read harbourTurned.toJson.pretty = .ok t ∧ harbour.Alike t) ∧
      Wire.Codec.json.GivesBack harbourTurned ∧
      readBy .json (harbour.textBy .json) = .ok harbour ∧
      ∃ t, readBy .json (Wire.Codec.json.write harbourTurned) = .ok t ∧ harbour.Alike t := by
  have hvalid : harbour.validate = .ok harbour := validate_eq_ok_iff.2 ⟨by decide +kernel, rfl⟩
  have hmultiplier : Wire.ReadBack harbour.backoffMultiplier := by decide +kernel
  have halike : (Wire.ofSettings harbour).Alike harbourTurned := by
    refine ⟨.refl _, fun endpoint => ?_, (Wire.Alike.refl _).strategies, rfl⟩
    simp only [Wire.ofSettings, harbour, harbourTurned, Table.get?_map, Table.ofList, List.foldl_cons, List.foldl_nil,
      Table.get?_set]
    by_cases hendpoint : endpoint = "/größe"
    · rw [hendpoint]
      decide
    · simp only [hendpoint, if_false, Table.get?_empty]
      split <;> rfl
  obtain ⟨-, -, htext, hcodec⟩ := round_trip harbour
  obtain ⟨hread, hturned⟩ := htext hvalid hmultiplier
  obtain ⟨hreadBy, hturnedBy⟩ := hcodec .json hvalid
  have hback : Wire.Codec.json.GivesBack harbourTurned := Wire.Codec.givesBack_json hmultiplier
  exact ⟨hvalid, hmultiplier, hread, halike, hturned _ halike, hback, hreadBy (Wire.Codec.read?_json hmultiplier),
    hturnedBy _ halike hback⟩

end Settings
end AdmissionControl
