import AdmissionControl.LiveSettings

/-!
# Sound settings

Settings are checked as a whole before they go live.  What is made of them later, one piece at a time and on demand,
can then always be made: nothing that comes after the check finds anything wrong with them.

* `check_of_sound`, `rate_ne_zero` — what the check says about single settings.
* `breakerSettings_of_sound`, `locking_of_sound`, `exists_limiter` — what is made of sound settings.
* `policyFor_eq_error_iff` — the tiers for which sound settings have no policy.
* `LiveSettings.accept_of_sound`, `LiveSettings.accept_of_fault` — so settings are accepted exactly if they are sound.
-/

namespace AdmissionControl
namespace Settings

variable {settings : Settings}

/-! ## Single settings -/

theorem check_of_sound (h : settings.fault? = none) : ∀ c ∈ settings.checks, c.1 = true := by
  intro c hc
  unfold fault? at h
  split at h
  · exact absurd h (by simp)
  · have hnone := List.find?_eq_none.1 (Option.map_eq_none_iff.1 h) c hc
    simpa using hnone

theorem ne_of_check {α : Type} [BEq α] [LawfulBEq α] {a b : α} (h : settings.fault? = none) (fault : SettingsFault)
    (hcheck : (a != b, fault) ∈ settings.checks) : a ≠ b := by
  have hne := check_of_sound h _ hcheck
  simpa using hne

theorem rate_ne_zero (h : settings.fault? = none) (tier : Tier) : settings.rates.get? tier ≠ some 0 := by
  have hzero : settings.zeroRate? = none := by
    unfold fault? at h
    split at h
    · cases h
    · assumption
  have hnone := List.find?_eq_none.1 hzero tier (Tier.mem_all tier)
  simpa using hnone

/-- A number of 64 bits that is not zero is a length of time. -/
theorem nanos_ofMillis_ne_zero {n : UInt64} (h : n ≠ 0) : (Duration.ofMillis n.toNat).nanos ≠ 0 := by
  intro hzero
  have hmul : n.toNat * 1000000 = 0 := hzero
  apply h
  apply UInt64.toNat_inj.1
  show n.toNat = 0
  omega

theorem toNat_pos {n : UInt32} (h : n ≠ 0) : 0 < n.toNat := by
  apply Nat.pos_of_ne_zero
  intro hzero
  exact h (UInt32.toNat_inj.1 hzero)

/-! ## What is made of sound settings -/

/-- When the breaker opens and for how long, as the settings have it. -/
def breakerSetup (settings : Settings) : Breaker.Settings :=
  ⟨settings.breakerThreshold.toNat, Duration.ofMillis settings.breakerReset.toNat⟩

theorem breakerSettings_of_sound (h : settings.fault? = none) :
    settings.breakerSettings = .ok settings.breakerSetup := by
  have hthreshold : settings.breakerThreshold ≠ 0 := ne_of_check h (.zero .breakerThreshold) (by simp [checks])
  have hreset : settings.breakerReset ≠ 0 := ne_of_check h (.zero .breakerReset) (by simp [checks])
  unfold breakerSettings Breaker.Settings.build
  rw [if_neg (Nat.ne_of_gt (toNat_pos hthreshold)), if_neg (nanos_ofMillis_ne_zero hreset)]
  rfl

/-- Locks are tried as often and for as long as the settings say. -/
theorem locking_of_sound (h : settings.fault? = none) :
    ∃ locking, settings.locking = .ok locking ∧ locking.retries = settings.lockRetries.toNat ∧
      locking.timeout = Duration.ofMillis settings.lockTimeout.toNat := by
  have hretries : settings.lockRetries ≠ 0 := ne_of_check h (.zero .lockRetries) (by simp [checks])
  have htimeout : settings.lockTimeout ≠ 0 := ne_of_check h (.zero .lockTimeout) (by simp [checks])
  refine ⟨⟨settings.lockRetries.toNat, Duration.ofMillis settings.lockTimeout.toNat, toNat_pos hretries⟩, ?_, rfl, rfl⟩
  unfold locking Locking.build
  rw [dif_pos (toNat_pos hretries), if_neg (nanos_ofMillis_ne_zero htimeout)]

theorem exists_limiter (h : settings.fault? = none) (kind : AlgorithmKind) :
    ∃ fresh, settings.limiter kind = .ok fresh := by
  obtain ⟨locking, hlocking, -, -⟩ := locking_of_sound h
  unfold limiter
  rw [hlocking]
  exact ⟨_, rfl⟩

/-- **Sound settings have no policy for a tier** only if it has no rate and is not the internal one. -/
theorem policyFor_eq_error_iff (h : settings.fault? = none) {tier : Tier} {error : Error} :
    settings.policyFor tier = .error error ↔
      tier ≠ .internal ∧ settings.rates.get? tier = none ∧ error = .unknownTier tier.name := by
  by_cases htier : tier = .internal
  · subst htier
    simp [policyFor]
  · cases hget : settings.rates.get? tier with
    | none =>
        have hpolicy : settings.policyFor tier = .error (.unknownTier tier.name) := by
          unfold policyFor
          split
          · exact absurd rfl htier
          · rw [hget]
        simp [hpolicy, htier, eq_comm]
    | some rate =>
        have hpolicy : settings.policyFor tier = Policy.build rate := by
          unfold policyFor
          split
          · exact absurd rfl htier
          · rw [hget]
        have hne : rate ≠ 0 := fun hzero => rate_ne_zero h tier (hzero ▸ hget)
        simp [hpolicy, Policy.build, Policy.isValid, hne]

/-- A policy of sound settings can be enforced. -/
theorem isValid_of_policyFor {tier : Tier} {policy : Policy} (h : settings.policyFor tier = .ok policy) :
    policy.isValid = true := by
  unfold policyFor at h
  split at h
  · obtain rfl := Except.ok.inj h
    rfl
  · split at h
    · unfold Policy.build at h
      split at h
      · rename_i hvalid
        obtain rfl := Except.ok.inj h
        exact hvalid
      · cases h
    · cases h

theorem validate_eq_error_iff {error : Error} :
    settings.validate = .error error ↔ ∃ fault, settings.fault? = some fault ∧ error = .settings fault := by
  rw [validate]
  cases settings.fault? with
  | some fault => simp [eq_comm]
  | none => simp

end Settings

/-! ## Settings that may go live -/

namespace LiveSettings

variable {settings : Settings}

/-- Nothing is wrong with the breaker of sound settings. -/
theorem accept_of_sound (h : settings.fault? = none) : accept settings = .ok (settings, settings.breakerSetup) := by
  rw [accept, Settings.validate, h]
  dsimp only
  rw [Settings.breakerSettings_of_sound h]

theorem accept_of_fault {fault : SettingsFault} (h : settings.fault? = some fault) :
    accept settings = .error (.settings fault) := by
  rw [accept, Settings.validate, h]

end LiveSettings
end AdmissionControl
