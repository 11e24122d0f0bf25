import AdmissionControl.Json.Printer
import AdmissionControl.Json.Reader
import AdmissionControl.Settings.Wire

/-!
# Settings as documents

A document is a JSON object with any of the settings, or an array with the first few of them in their order;
what is missing has its standard value.  A setting may stand only once, members that are no settings are
passed over whatever they hold, and in a table the last of several equal keys counts.

What becomes of settings on the way to a text and back is said for any writer and reader of wire forms (`Wire.Codec`);
the documents here are written and read by one of them (`Wire.Codec.json`).
-/

namespace AdmissionControl
namespace Wire

/-! ## Values -/

/-- A natural number of at most 32 bits. -/
def short? (j : Json) : Option UInt32 :=
  j.nat?.bind fun n => if n < UInt32.size then some (UInt32.ofNat n) else none

/-- A natural number of at most 64 bits. -/
def long? (j : Json) : Option UInt64 :=
  j.nat?.bind fun n => if n < UInt64.size then some (UInt64.ofNat n) else none

/-- A number as a double. -/
def double? : Json → Option Float
  | .number n => n.toFloat?
  | _ => none

/-- The entries of a table, each read by `read?`. -/
def entries? {α : Type} (read? : Json → Option α) :
    List (Option String × Json) → Option (List (String × α))
  | [] => some []
  | (name, value) :: rest =>
      match name, read? value, entries? read? rest with
      | some name, some value, some rest => some ((name, value) :: rest)
      | _, _, _ => none

/-- A table with a value under each key. -/
def table? {α : Type} (read? : Json → Option α) : Json → Option (Table String α)
  | .object members => (entries? read? members).map Table.ofList
  | _ => none

/-! ## Reading -/

/-- The wire form with one setting read from a value. -/
def set? (w : Wire) (value : Json) : Setting → Option Wire
  | .requestsPerSecond => (table? short? value).map fun x => { w with rates := x }
  | .defaultAlgorithm => value.text?.map fun x => { w with defaultAlgorithm := x }
  | .algorithmByEndpoint => (table? Json.text? value).map fun x => { w with algorithms := x }
  | .slidingWindowSize => (long? value).map fun x => { w with slidingWindow := x }
  | .bucketCapacity => (long? value).map fun x => { w with bucketCapacity := x }
  | .refillRate => (long? value).map fun x => { w with refillRate := x }
  | .timeWindow => (long? value).map fun x => { w with timeWindow := x }
  | .breakerThreshold => (short? value).map fun x => { w with breakerThreshold := x }
  | .breakerReset => (long? value).map fun x => { w with breakerReset := x }
  | .backoffInitial => (long? value).map fun x => { w with backoffInitial := x }
  | .backoffMultiplier => (double? value).map fun x => { w with backoffMultiplier := x }
  | .throttlingStrategies =>
      (table? (table? Json.text?) value).map fun x => { w with strategies := x }
  | .defaultStrategy => value.text?.map fun x => { w with defaultStrategy := x }
  | .quotaLimit => (long? value).map fun x => { w with quotaLimit := x }
  | .clientInactivity => (long? value).map fun x => { w with clientInactivity := x }
  | .lockRetries => (short? value).map fun x => { w with lockRetries := x }
  | .lockTimeout => (long? value).map fun x => { w with lockTimeout := x }

/-- The wire form with settings read one after another. -/
def setAll? (w : Wire) : List (Setting × Json) → Option Wire
  | [] => some w
  | (setting, value) :: rest => (w.set? value setting).bind (setAll? · rest)

/-- The settings among the members of an object, unless a name is unreadable. -/
def settingsOf? : List (Option String × Json) → Option (List (Setting × Json))
  | [] => some []
  | (none, _) :: _ => none
  | (some name, value) :: rest =>
      (settingsOf? rest).map fun l =>
        match Setting.ofName? name with
        | some setting => (setting, value) :: l
        | none => l

/-- The wire form of settings where nothing is set. -/
def standard : Wire := ofSettings .standard

/-- The wire form of a document. -/
def ofJson? : Json → Option Wire
  | .object members =>
      match settingsOf? members with
      | some l => if (l.map Prod.fst).Nodup then standard.setAll? l else none
      | none => none
  | .array items =>
      if items.length ≤ Setting.all.length then standard.setAll? (Setting.all.zip items) else none
  | _ => none

/-! ## Writing -/

/-- A double in the layout of documents; what is no finite number has no text. -/
def jsonOfFloat (x : Float) : Json :=
  match Numeral.ofChars? (Decimal.text .document x).toList with
  | some n => .number n
  | none => .null

/-- A table as an object. -/
def jsonOfTable {α : Type} (f : α → Json) (t : Table String α) : Json :=
  .ofMembers (t.entries.map fun e => (e.1, f e.2))

/-- The value of one setting. -/
def get (w : Wire) : Setting → Json
  | .requestsPerSecond => jsonOfTable (fun rate => .ofNat rate.toNat) w.rates
  | .defaultAlgorithm => .ofString w.defaultAlgorithm
  | .algorithmByEndpoint => jsonOfTable .ofString w.algorithms
  | .slidingWindowSize => .ofNat w.slidingWindow.toNat
  | .bucketCapacity => .ofNat w.bucketCapacity.toNat
  | .refillRate => .ofNat w.refillRate.toNat
  | .timeWindow => .ofNat w.timeWindow.toNat
  | .breakerThreshold => .ofNat w.breakerThreshold.toNat
  | .breakerReset => .ofNat w.breakerReset.toNat
  | .backoffInitial => .ofNat w.backoffInitial.toNat
  | .backoffMultiplier => jsonOfFloat w.backoffMultiplier
  | .throttlingStrategies => jsonOfTable (jsonOfTable .ofString) w.strategies
  | .defaultStrategy => .ofString w.defaultStrategy
  | .quotaLimit => .ofNat w.quotaLimit.toNat
  | .clientInactivity => .ofNat w.clientInactivity.toNat
  | .lockRetries => .ofNat w.lockRetries.toNat
  | .lockTimeout => .ofNat w.lockTimeout.toNat

/-- The document of a wire form: every setting in its place. -/
def toJson (w : Wire) : Json := .ofMembers (Setting.all.map fun setting => (setting.name, w.get setting))

/-! ## Texts -/

/-- A writer and a reader of wire forms. -/
structure Codec where
  /-- The text of a wire form. -/
  write : Wire → String
  /-- The wire form of a text, if it has one. -/
  read? : String → Option Wire

/-- Wire forms as JSON documents. -/
def Codec.json : Codec := ⟨fun w => w.toJson.pretty, fun text => (Json.read? text).bind ofJson?⟩

end Wire

namespace Settings

/-- The document of settings. -/
def toJson (s : Settings) : Json := (Wire.ofSettings s).toJson

/-- The text that a codec writes for settings. -/
def textBy (codec : Wire.Codec) (s : Settings) : String := codec.write (.ofSettings s)

/-- The sound settings that a codec reads from a text: it must be readable, then its names known, then its values
sound. -/
def readBy (codec : Wire.Codec) (text : String) : Except Error Settings :=
  match codec.read? text with
  | none => .error (.settings .unreadable)
  | some w =>
      match w.toSettings with
      | .error error => .error error
      | .ok s => s.validate

/-- The text of a document of settings. -/
def text (s : Settings) : String := s.textBy .json

/-- The sound settings of a document. -/
def read (text : String) : Except Error Settings := readBy .json text

end Settings
end AdmissionControl
