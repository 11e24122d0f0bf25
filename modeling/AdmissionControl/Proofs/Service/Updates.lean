import AdmissionControl.Proofs.Service.Coherence
import Mathlib.Logic.Function.Iterate

/-!
# Changes of settings are all or nothing

New settings are checked as a whole before anything is touched.  If they are refused, nothing at all has changed; if
they are accepted, then the snapshot, the breaker and whatever was made from the old settings change together.

* `LiveSettings.update_of_sound`, `LiveSettings.update_of_fault` — the two things that a change can come to.
* `LiveSettings.adopt`, `LiveSettings.changes` — accepted settings one after another, and what the listeners hear.
* `Service.AllOrNothing`, `Service.allOrNothing` — **one change of a service**, whether it is refused or not.
* `Traffic.live_moves` — what is live after a run depends on the accepted settings of the run alone.
* `Traffic.updates_all_or_nothing` — **every change in every run**, and the version after it.
-/

namespace AdmissionControl
namespace LiveSettings

variable {l : LiveSettings} {settings : Settings}

/-! ## The two things that a change can come to -/

/-- The change to other settings. -/
def changeTo (l : LiveSettings) (settings : Settings) : Update :=
  ⟨l.current, ⟨l.current.version + 1, settings⟩⟩

/-- The live settings after they have changed, and every listener has heard of it. -/
def adopt (l : LiveSettings) (settings : Settings) : LiveSettings :=
  ⟨(l.changeTo settings).new, l.heard.map (· ++ [l.changeTo settings])⟩

theorem update_of_sound (h : settings.fault? = none) (breaker : Breaker) :
    l.update settings breaker = .ok (l.changeTo settings, l.adopt settings, .fresh settings.breakerSetup) := by
  rw [update, accept_of_sound h]
  rfl

theorem update_of_fault {fault : SettingsFault} (h : settings.fault? = some fault) (breaker : Breaker) :
    l.update settings breaker = .error (.settings fault) := by
  rw [update, accept_of_fault h]

/-! ## Accepted settings one after another -/

/-- The changes from a snapshot to settings that are accepted one after another. -/
def changes (first : Snapshot) : List Settings → List Update
  | [] => []
  | settings :: rest =>
      ⟨first, ⟨first.version + 1, settings⟩⟩ :: changes ⟨first.version + 1, settings⟩ rest

/-- The version counts the accepted settings, and the last of them are live. -/
theorem current_foldl_adopt (l : LiveSettings) (accepted : List Settings) :
    (accepted.foldl adopt l).current =
      ⟨l.current.version + accepted.length, accepted.getLastD l.current.settings⟩ := by
  induction accepted generalizing l with
  | nil => rfl
  | cons settings rest ih =>
      rw [List.foldl_cons, ih]
      simp only [adopt, changeTo, List.length_cons, List.getLastD_cons, Snapshot.mk.injEq, and_true]
      omega

/-- Every listener hears of all the changes, in their order. -/
theorem heard_foldl_adopt (l : LiveSettings) (accepted : List Settings) :
    (accepted.foldl adopt l).heard = l.heard.map (· ++ changes l.current accepted) := by
  induction accepted generalizing l with
  | nil => simp [changes]
  | cons settings rest ih =>
      rw [List.foldl_cons, ih]
      simp [adopt, changeTo, changes, Function.comp_def]

/-- Listeners that register before anything has changed have heard nothing. -/
theorem iterate_register (l : LiveSettings) (n : Nat) :
    register^[n] l = { l with heard := l.heard ++ List.replicate n [] } := by
  induction n with
  | zero => simp
  | succ n ih => simp [Function.iterate_succ_apply', ih, register, List.replicate_succ']

end LiveSettings

namespace Service

variable {s s' : Service} {settings : Settings}

/-! ## One change of a service -/

/-- The service after a change to sound settings. -/
def adopt (s : Service) (settings : Settings) : Service :=
  { s with
    live := s.live.adopt settings
    breaker := .fresh settings.breakerSetup
    limiters := .empty
    strategies := .empty }

theorem update_of_sound (h : settings.fault? = none) :
    s.update settings = .ok (s.live.changeTo settings, s.adopt settings) := by
  rw [update, LiveSettings.update_of_sound h]
  rfl

theorem update_of_fault {fault : SettingsFault} (h : settings.fault? = some fault) :
    s.update settings = .error (.settings fault) := by
  rw [update, LiveSettings.update_of_fault h]

theorem happen_update_of_sound (h : settings.fault? = none) : s.happen (.update settings) = s.adopt settings := by
  rw [happen, update_of_sound h]

theorem happen_update_of_fault {fault : SettingsFault} (h : settings.fault? = some fault) :
    s.happen (.update settings) = s := by
  rw [happen, update_of_fault h]

/-- What a change to settings comes to. -/
structure AllOrNothing (s : Service) (settings : Settings) : Prop where
  /-- The change is refused exactly if the settings are not valid, for the same reason. -/
  refused_iff : ∀ error, s.update settings = .error error ↔ settings.validate = .error error
  /-- If it is refused, nothing has changed. -/
  unchanged : ∀ error, s.update settings = .error error → s.happen (.update settings) = s
  /-- If it is not refused, this is what happens to the service. -/
  happens : ∀ change s', s.update settings = .ok (change, s') → s.happen (.update settings) = s'
  /-- The change is from the snapshot that was live to the one that is live now. -/
  change_eq : ∀ change s', s.update settings = .ok (change, s') →
    change.old = s.live.current ∧ change.new = s'.live.current
  /-- The settings are live, in the next version. -/
  current_eq : ∀ change s', s.update settings = .ok (change, s') →
    s'.live.current = ⟨s.live.current.version + 1, settings⟩
  /-- Every listener has heard of the change, once. -/
  heard_eq : ∀ change s', s.update settings = .ok (change, s') →
    s'.live.heard = s.live.heard.map (· ++ [change])
  /-- The breaker is closed, without failures, and has the new settings. -/
  breaker_eq : ∀ change s', s.update settings = .ok (change, s') →
    s'.breaker.state = .closed ∧ s'.breaker.failures = 0 ∧ settings.breakerSettings = .ok s'.breaker.settings
  /-- Nothing is left that was made from the old settings. -/
  emptied : ∀ change s', s.update settings = .ok (change, s') → s'.limiters = .empty ∧ s'.strategies = .empty
  /-- Everything else stays. -/
  frame : ∀ change s', s.update settings = .ok (change, s') →
    { s' with live := s.live, breaker := s.breaker, limiters := s.limiters, strategies := s.strategies } = s

/-- **A change is all or nothing**, whatever state the service is in. -/
theorem allOrNothing (s : Service) (settings : Settings) : AllOrNothing s settings := by
  cases hfault : settings.fault? with
  | some fault =>
      have hnever : ∀ change s', s.update settings ≠ .ok (change, s') := by
        intro change s' hok
        cases (update_of_fault hfault).symm.trans hok
      refine ⟨?_, fun _ _ => happen_update_of_fault hfault, ?_, ?_, ?_, ?_, ?_, ?_, ?_⟩
      · intro error
        rw [update_of_fault hfault, Settings.validate_eq_error_iff]
        simp [hfault, eq_comm]
      all_goals
        intro change s' hok
        exact absurd hok (hnever change s')
  | none =>
      have hadopt : ∀ change s', s.update settings = .ok (change, s') →
          change = s.live.changeTo settings ∧ s' = s.adopt settings := by
        intro change s' hok
        obtain ⟨rfl, rfl⟩ := Prod.mk.inj (Except.ok.inj ((update_of_sound hfault).symm.trans hok))
        exact ⟨rfl, rfl⟩
      refine ⟨?_, ?_, ?_, ?_, ?_, ?_, ?_, ?_, ?_⟩
      · intro error
        rw [update_of_sound hfault, Settings.validate_eq_error_iff]
        simp [hfault]
      · intro error herror
        cases (update_of_sound hfault).symm.trans herror
      all_goals
        intro change s' hok
        obtain ⟨rfl, rfl⟩ := hadopt change s' hok
      · exact happen_update_of_sound hfault
      · exact ⟨rfl, rfl⟩
      · rfl
      · rfl
      · exact ⟨rfl, rfl, Settings.breakerSettings_of_sound hfault⟩
      · exact ⟨rfl, rfl⟩
      · rfl

namespace Traffic

variable {t : Traffic}

/-! ## The changes of a run -/

/-- The settings that go live with a move, if they are sound. -/
def Move.accepted? : Move → Option Settings
  | .happen (.update settings) => if settings.fault? = none then some settings else none
  | .happen _ | .advance _ => none

/-- The settings that go live along a run. -/
def accepted (ms : List Move) : List Settings := ms.filterMap Move.accepted?

theorem accepted?_of_not_isUpdate {m : Move} (h : m.isUpdate = false) : m.accepted? = none := by
  cases m with
  | advance index => rfl
  | happen event =>
      cases event with
      | update settings => cases h
      | _ => rfl

/-- What is live changes with accepted settings, and with nothing else. -/
theorem live_move_eq (t : Traffic) (m : Move) :
    (t.move m).service.live = m.accepted?.toList.foldl LiveSettings.adopt t.service.live := by
  cases hupdate : m.isUpdate with
  | false =>
      rw [accepted?_of_not_isUpdate hupdate]
      exact live_of_moved (moved_move t m) hupdate
  | true =>
      match m, hupdate with
      | .happen (.update settings), _ =>
          show (t.service.happen (.update settings)).live = _
          cases hfault : settings.fault? with
          | some fault => simp [Move.accepted?, happen_update_of_fault hfault, hfault]
          | none => simp [Move.accepted?, happen_update_of_sound hfault, hfault, adopt]

theorem live_moves (t : Traffic) (ms : List Move) :
    (t.moves ms).service.live = (accepted ms).foldl LiveSettings.adopt t.service.live := by
  induction ms generalizing t with
  | nil => rfl
  | cons m rest ih =>
      rw [moves_cons, ih, live_move_eq]
      cases hm : m.accepted? with
      | none => simp [accepted, hm]
      | some settings => simp [accepted, hm]

/-- A new service has the settings that it was built with, in their first version, and nobody has heard of changes. -/
theorem live_build {fittings : Fittings} {sleeper : Sleeper} {given : Option Breaker} {stores : Stores}
    {clock : Clock} (h : Service.build settings fittings sleeper given stores clock = .ok s) :
    s.live = ⟨⟨1, settings⟩, []⟩ := by
  unfold Service.build LiveSettings.start at h
  cases hfault : settings.fault? with
  | some fault =>
      rw [LiveSettings.accept_of_fault hfault] at h
      split at h
      · cases h
      · cases h
  | none =>
      rw [LiveSettings.accept_of_sound hfault, Settings.breakerSettings_of_sound hfault] at h
      obtain rfl := Except.ok.inj h
      rfl

/-- A service with listeners that hear of every change of its settings. -/
def watched (s : Service) (listeners : Nat) : Service := { s with live := LiveSettings.register^[listeners] s.live }

theorem live_watched {fittings : Fittings} {sleeper : Sleeper} {given : Option Breaker} {stores : Stores}
    {clock : Clock} (h : Service.build settings fittings sleeper given stores clock = .ok s) (listeners : Nat) :
    (watched s listeners).live = ⟨⟨1, settings⟩, List.replicate listeners []⟩ := by
  rw [watched, live_build h, LiveSettings.iterate_register]
  rfl

/-- **Changes of settings are all or nothing.**  A service is built, listeners register, and then requests move,
settings are to go live, sound ones and others, and anything else may happen, in any order.  Then

* the version is one more than the number of accepted settings, and the last of these are live;
* in fewer moves than a word counts, the version does not leave its word;
* every listener has heard of the changes to these settings, in their order, and of nothing else;
* a change to any settings, now, is all or nothing. -/
theorem updates_all_or_nothing {first : Settings} {fittings : Fittings} {sleeper : Sleeper} {given : Option Breaker}
    {stores : Stores} {clock : Clock} (hbuild : Service.build first fittings sleeper given stores clock = .ok s)
    (listeners : Nat) (requests : List (String × String)) (ms : List Move) :
    let t := (start (watched s listeners) requests).moves ms
    t.service.live.current = ⟨1 + (accepted ms).length, (accepted ms).getLastD first⟩ ∧
      (ms.length < Word.max → t.service.live.current.version ≤ Word.max) ∧
      t.service.live.heard = List.replicate listeners (LiveSettings.changes ⟨1, first⟩ (accepted ms)) ∧
      ∀ next : Settings, t.service.AllOrNothing next := by
  intro t
  have hlive : t.service.live =
      (accepted ms).foldl LiveSettings.adopt ⟨⟨1, first⟩, List.replicate listeners []⟩ := by
    rw [← live_watched hbuild]
    exact live_moves ..
  have hcurrent : t.service.live.current = ⟨1 + (accepted ms).length, (accepted ms).getLastD first⟩ := by
    rw [hlive, LiveSettings.current_foldl_adopt]
  refine ⟨hcurrent, fun hms => ?_, ?_, t.service.allOrNothing⟩
  · have hle : (accepted ms).length ≤ ms.length := List.length_filterMap_le ..
    rw [hcurrent]
    show 1 + (accepted ms).length ≤ Word.max
    omega
  · simp [hlive, LiveSettings.heard_foldl_adopt]

/-- While Ann asks for papers, settings without locks are refused.  Then the breaker counts a failure, the settings of
the press go live, and later those of the kiosk again. -/
def relaunch : List Move :=
  ([0, 0, 0].map .advance) ++ [.happen (.update { press with lockRetries := 0 }), .happen (.breaker .failure)] ++
    ([0, 0, 1].map .advance) ++ [.happen (.update press), .advance 1, .happen (.update kiosk)]

/-- Both listeners hear of two changes, and not of the one that was refused. -/
theorem relaunch_all_or_nothing :
    let t := (start (watched opening 2) callers).moves relaunch
    t.service.live.current = ⟨3, kiosk⟩ ∧ t.service.live.current.version ≤ Word.max ∧
      t.service.live.heard = List.replicate 2 [⟨⟨1, kiosk⟩, ⟨2, press⟩⟩, ⟨⟨2, press⟩, ⟨3, kiosk⟩⟩] ∧
      t.service.AllOrNothing press ∧ t.service.AllOrNothing { press with lockRetries := 0 } := by
  intro t
  have hbuild : Service.build kiosk .standard .tracking none .empty ⟨1000⟩ = .ok opening := rfl
  have haccepted : accepted relaunch = [press, kiosk] := rfl
  obtain ⟨hcurrent, hversion, hheard, hnext⟩ := updates_all_or_nothing hbuild 2 callers relaunch
  rw [haccepted] at hcurrent hheard
  exact ⟨hcurrent, hversion (by decide), hheard, hnext press, hnext _⟩

end Traffic
end Service
end AdmissionControl
