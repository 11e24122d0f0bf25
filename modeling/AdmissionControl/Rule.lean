import AdmissionControl.Rule.FixedWindow
import AdmissionControl.Rule.LeakyBucket
import AdmissionControl.Rule.Quota
import AdmissionControl.Rule.SlidingWindow
import AdmissionControl.Rule.TokenBucket
import AdmissionControl.Table

/-!
# Rules, and algorithms over many clients

A rule decides for one client from what is kept of that client.  An algorithm is a rule with what is kept of
every client; it decides for the client of a record and keeps the rest as it was.

* `get?_decide_of_ne`, `get?_evict`: what a decision and an eviction leave of the other clients.
-/

namespace AdmissionControl

/-! ## One client -/

/-- The rules that decide for a client. -/
inductive Rule
  /-- So many requests in each window. -/
  | fixedWindow (rule : FixedWindow)
  /-- So many requests in the window that ends now. -/
  | slidingWindow (rule : SlidingWindow)
  /-- So many requests as there are tokens. -/
  | tokenBucket (rule : TokenBucket)
  /-- So many requests as the bucket holds. -/
  | leakyBucket (rule : LeakyBucket)
  /-- So many requests in each long period. -/
  | quota (rule : Quota)
  deriving Repr

namespace Rule

/-- The kind of a rule. -/
def kind : Rule → AlgorithmKind
  | fixedWindow _ => .fixedWindow
  | slidingWindow _ => .slidingWindow
  | tokenBucket _ => .tokenBucket
  | leakyBucket _ => .leakyBucket
  | quota _ => .quota

/-- What a rule keeps of a client; a quota keeps nothing, since it is in the record. -/
abbrev Kept : Rule → Type
  | fixedWindow _ => FixedWindow.Counter
  | slidingWindow _ => SlidingWindow.Log
  | tokenBucket _ => TokenBucket.Bucket
  | leakyBucket _ => LeakyBucket.Bucket
  | quota _ => Empty

/-- The decision of a rule that meters the rate of a record: a record without a limit passes. -/
def meter {σ : Type} (decide : Nat → Option σ → Verdict × σ) (record : Record)
    (kept : Option σ) : Admission × Option σ :=
  match record.policy.rate? with
  | some rate => let (verdict, kept') := decide rate kept; (⟨verdict, record⟩, some kept')
  | none => (Admission.pass record, kept)

/-- The estimate of a rule that meters the rate of a record. -/
def foresee {σ : Type} (estimate : Nat → Option σ → Option Verdict) (record : Record)
    (kept : Option σ) : Option Admission :=
  match record.policy.rate? with
  | some rate => (estimate rate kept).map (⟨·, record⟩)
  | none => none

/-- The answer to a request at `now`, and what is kept of the client after it. -/
def decide : (rule : Rule) → Record → Nat → Option rule.Kept → Admission × Option rule.Kept
  | fixedWindow w, record, now, kept => meter (w.decide · now) record kept
  | slidingWindow w, record, now, kept => meter (w.decide · now) record kept
  | tokenBucket b, record, now, kept => meter (b.decide · now) record kept
  | leakyBucket b, record, now, kept => meter (b.decide · now) record kept
  | quota q, record, now, kept => (q.decide record now, kept)

/-- The answer that can be given without changing anything, if there is one. -/
def estimate : (rule : Rule) → Record → Nat → Option rule.Kept → Option Admission
  | fixedWindow w, record, now, kept => foresee (w.estimate · now) record kept
  | slidingWindow w, record, now, kept => foresee (w.estimate · now) record kept
  | tokenBucket b, record, now, kept => foresee (b.estimate · now) record kept
  | leakyBucket b, record, now, kept => foresee (b.estimate · now) record kept
  | quota q, record, now, _ => q.estimate record now

end Rule

/-! ## Many clients -/

/-- A rule with what is kept of every client. -/
structure Algorithm where
  /-- The rule that decides. -/
  rule : Rule
  /-- What is kept of each client that has asked. -/
  kept : Table String rule.Kept

namespace Algorithm

/-- An algorithm that nobody has asked yet. -/
def ofRule (rule : Rule) : Algorithm := ⟨rule, Table.empty⟩

/-- What is kept of a client. -/
def get? (a : Algorithm) (client : String) : Option a.rule.Kept := a.kept.get? client

/-- The number of clients of which something is kept. -/
def size (a : Algorithm) : Nat := a.kept.size

/-- The kind of the rule. -/
def kind (a : Algorithm) : AlgorithmKind := a.rule.kind

/-- The answer to a request at `now`, and the algorithm after it. -/
def decide (a : Algorithm) (record : Record) (now : Nat) : Admission × Algorithm :=
  let (admission, kept') := a.rule.decide record now (a.get? record.client.id)
  (admission, { a with kept := a.kept.put record.client.id kept' })

/-- The answer that can be given without changing anything, if there is one. -/
def estimate (a : Algorithm) (record : Record) (now : Nat) : Option Admission :=
  a.rule.estimate record now (a.get? record.client.id)

/-- Forgets a client. -/
def evict (a : Algorithm) (client : String) : Algorithm := { a with kept := a.kept.erase client }

/-! ### What a change leaves of the other clients -/

@[simp] theorem rule_decide (a : Algorithm) (record : Record) (now : Nat) :
    (a.decide record now).2.rule = a.rule := rfl

@[simp] theorem rule_evict (a : Algorithm) (client : String) : (a.evict client).rule = a.rule := rfl

theorem get?_decide_of_ne {a : Algorithm} {record : Record} {now : Nat} {client : String}
    (h : client ≠ record.client.id) : (a.decide record now).2.get? client = a.get? client := by
  simp only [get?, decide]
  exact (Table.get?_put ..).trans (if_neg h)

theorem get?_decide_self (a : Algorithm) (record : Record) (now : Nat) :
    (a.decide record now).2.get? record.client.id =
      (a.rule.decide record now (a.get? record.client.id)).2 := by
  simp only [get?, decide]
  exact (Table.get?_put ..).trans (if_pos rfl)

theorem get?_evict (a : Algorithm) (client x : String) :
    (a.evict client).get? x = if x = client then none else a.get? x :=
  Table.get?_erase ..

end Algorithm
end AdmissionControl
