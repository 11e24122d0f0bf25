import AdmissionControl.Naming

/-!
# One value for each tier

A tier table holds a value for some of the tiers.  It has a place for each tier, so two tables with the same
look-ups are the same table.

* `get?_set`: what a look-up sees after a change.
* `ext_get?`: look-ups determine the table.
-/

namespace AdmissionControl

/-- A value for some of the tiers. -/
structure TierTable (α : Type) where
  /-- The value of standard clients. -/
  standard : Option α
  /-- The value of premium clients. -/
  premium : Option α
  /-- The value of VIP clients. -/
  vip : Option α
  /-- The value of enterprise clients. -/
  enterprise : Option α
  /-- The value of custom clients. -/
  custom : Option α
  /-- The value of internal clients. -/
  internal : Option α
  deriving DecidableEq, Repr

namespace TierTable

variable {α β : Type}

/-- The table without values. -/
def empty : TierTable α := ⟨none, none, none, none, none, none⟩

/-- The value of a tier. -/
def get? (t : TierTable α) : Tier → Option α
  | .standard => t.standard
  | .premium => t.premium
  | .vip => t.vip
  | .enterprise => t.enterprise
  | .custom => t.custom
  | .internal => t.internal

/-- The table with another value for a tier. -/
def set (t : TierTable α) (tier : Tier) (v : α) : TierTable α :=
  match tier with
  | .standard => { t with standard := some v }
  | .premium => { t with premium := some v }
  | .vip => { t with vip := some v }
  | .enterprise => { t with enterprise := some v }
  | .custom => { t with custom := some v }
  | .internal => { t with internal := some v }

/-- The tiers with their values, in the order of tiers. -/
def toList (t : TierTable α) : List (Tier × α) :=
  Tier.all.filterMap fun tier => (t.get? tier).map (tier, ·)

/-- The table of a list, a later value winning over an earlier one of the same tier. -/
def ofList (l : List (Tier × α)) : TierTable α := l.foldl (fun t e => t.set e.1 e.2) empty

@[simp] theorem get?_empty (tier : Tier) : (empty : TierTable α).get? tier = none := by
  cases tier <;> rfl

@[simp] theorem get?_set (t : TierTable α) (tier x : Tier) (v : α) :
    (t.set tier v).get? x = if x = tier then some v else t.get? x := by
  cases tier <;> cases x <;> rfl

theorem ext_get? {t u : TierTable α} (h : ∀ tier, t.get? tier = u.get? tier) : t = u := by
  obtain ⟨a, b, c, d, e, f⟩ := t
  obtain ⟨a', b', c', d', e', f'⟩ := u
  simp only [mk.injEq]
  exact ⟨h .standard, h .premium, h .vip, h .enterprise, h .custom, h .internal⟩

theorem mem_toList_iff {t : TierTable α} {tier : Tier} {v : α} :
    (tier, v) ∈ t.toList ↔ t.get? tier = some v := by
  simp only [toList, List.mem_filterMap, Option.map_eq_some_iff, Prod.mk.injEq]
  constructor
  · rintro ⟨x, _, w, hw, rfl, rfl⟩
    exact hw
  · intro h
    exact ⟨tier, Tier.mem_all tier, v, h, rfl, rfl⟩

theorem ofList_toList (t : TierTable α) : ofList t.toList = t := by
  obtain ⟨a, b, c, d, e, f⟩ := t
  cases a <;> cases b <;> cases c <;> cases d <;> cases e <;> cases f <;> rfl

end TierTable
end AdmissionControl
