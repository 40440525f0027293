import AigentSquad.PyRepr

/-!
# The RBAC gate

`audit_rules` looks for verbs it knows to mutate. What passes it is read-only
as far as no verb is unknown to it and no resource other than the self reviews
starts like them.
-/

set_option autoImplicit false

namespace AigentSquad.RbacAudit
open AigentSquad.PyText AigentSquad.PyRepr

def READONLY_VERBS : List Str := ["get".toList, "list".toList, "watch".toList]

def MUTATING_VERBS : List Str :=
  ["create".toList, "update".toList, "patch".toList, "delete".toList, "deletecollection".toList]

def WILDCARD : Str := "*".toList

structure RBACRule where
  resources : List Str
  api_groups : List Str
  resource_names : List Str
  verbs : List Str
  non_resource_urls : List Str
deriving DecidableEq

structure AuditViolation where
  rule : RBACRule
  offending_verbs : List Str
  reason : Str
deriving DecidableEq

/-- The rules that are skipped. -/
def skipped (rule : RBACRule) : Bool :=
  !rule.resources.isEmpty && rule.resources.all (fun r => startswith r "selfsubject".toList)

def offends (py : Runtime) (verb : Str) : Bool :=
  verb = WILDCARD || lower py verb ∈ MUTATING_VERBS

def reason (py : Runtime) (rule : RBACRule) (offending : List Str) : Str :=
  (if WILDCARD ∈ offending then
      "wildcard verb (*) grants ALL operations including mutating".toList
    else "mutating verb(s): ".toList ++ join ", ".toList offending) ++
  (if !rule.non_resource_urls.isEmpty && rule.resources.isEmpty then
      " on non-resource URL(s): ".toList ++ reprList py rule.non_resource_urls
    else [])

def audit_rule (py : Runtime) (rule : RBACRule) : Option AuditViolation :=
  let offending := rule.verbs.filter (offends py)
  if skipped rule || offending.isEmpty then none
  else some ⟨rule, offending, reason py rule offending⟩

def audit_rules (py : Runtime) (rules : List RBACRule) : List AuditViolation :=
  rules.filterMap (audit_rule py)

theorem audit_rule_eq_none (py : Runtime) (rule : RBACRule) :
    audit_rule py rule = none ↔
      (skipped rule = false → ∀ verb ∈ rule.verbs, offends py verb = false) := by
  unfold audit_rule
  cases skipped rule <;> simp

theorem audit_rules_eq_nil (py : Runtime) (rules : List RBACRule) :
    audit_rules py rules = [] ↔
      ∀ rule ∈ rules, skipped rule = false → ∀ verb ∈ rule.verbs, offends py verb = false := by
  simp only [audit_rules, List.filterMap_eq_nil_iff, audit_rule_eq_none]

/-! ## What a passing audit shows -/

def SELF_REVIEWS : List Str :=
  ["selfsubjectaccessreviews".toList, "selfsubjectrulesreviews".toList,
    "selfsubjectreviews".toList]

/-- A rule on the self reviews alone. -/
def SelfReview (rule : RBACRule) : Prop :=
  rule.resources ≠ [] ∧ ∀ r ∈ rule.resources, r ∈ SELF_REVIEWS

instance (rule : RBACRule) : Decidable (SelfReview rule) :=
  inferInstanceAs (Decidable (rule.resources ≠ [] ∧ _))

def ReadOnlyRule (rule : RBACRule) : Prop := ∀ verb ∈ rule.verbs, verb ∈ READONLY_VERBS

instance (rule : RBACRule) : Decidable (ReadOnlyRule rule) :=
  inferInstanceAs (Decidable (∀ verb ∈ rule.verbs, verb ∈ READONLY_VERBS))

def ReadOnly (rules : List RBACRule) : Prop :=
  ∀ rule ∈ rules, ¬ SelfReview rule → ReadOnlyRule rule

instance (rules : List RBACRule) : Decidable (ReadOnly rules) :=
  inferInstanceAs (Decidable (∀ rule ∈ rules, ¬ SelfReview rule → ReadOnlyRule rule))

/-- A rule the audit can judge: each verb is read-only or on the list of the
mutating ones, and nothing but self reviews is skipped unless it is read-only. -/
def Judged (py : Runtime) (rule : RBACRule) : Prop :=
  if skipped rule then SelfReview rule ∨ ReadOnlyRule rule
  else ∀ verb ∈ rule.verbs, verb ∈ READONLY_VERBS ∨ offends py verb = true

/-- A rule that is not skipped has a wildcard or a mutating verb. -/
def Caught (py : Runtime) (rule : RBACRule) : Prop :=
  skipped rule = false ∧ ∃ verb ∈ rule.verbs, offends py verb = true

theorem self_review_skipped (rule : RBACRule) (h : SelfReview rule) : skipped rule = true := by
  have hprefix : ∀ r ∈ SELF_REVIEWS, startswith r "selfsubject".toList = true := by decide
  simp only [skipped, Bool.and_eq_true, Bool.not_eq_true', List.isEmpty_eq_false_iff,
    List.all_eq_true]
  exact ⟨h.1, fun r hr => hprefix r (h.2 r hr)⟩

theorem passes_iff (py : Runtime) (rules : List RBACRule) :
    audit_rules py rules = [] ↔ ∀ rule ∈ rules, ¬ Caught py rule := by
  rw [audit_rules_eq_nil]
  simp only [Caught, not_and, not_exists, Bool.not_eq_true]

theorem judged_iff (py : Runtime) (rule : RBACRule) (h : ¬ Caught py rule) :
    Judged py rule ↔ (¬ SelfReview rule → ReadOnlyRule rule) := by
  unfold Judged
  cases hskip : skipped rule with
  | true =>
    rw [if_pos rfl]
    exact or_iff_not_imp_left
  | false =>
    have hreview : ¬ SelfReview rule := by
      intro hself
      rw [self_review_skipped rule hself] at hskip
      cases hskip
    have hverbs : ∀ verb ∈ rule.verbs, offends py verb = false := by
      simpa [Caught, hskip] using h
    rw [if_neg (by simp)]
    constructor
    · intro hjudged _ verb hverb
      refine (hjudged verb hverb).resolve_right ?_
      simp [hverbs verb hverb]
    · intro hread verb hverb
      exact .inl (hread hreview verb hverb)

/-- The audit is a proof of read-only access for the lists it can judge, and for
those it reports anyway. -/
theorem audit_proves_read_only_iff (py : Runtime) (rules : List RBACRule) :
    (audit_rules py rules = [] → ReadOnly rules) ↔
      (∃ rule ∈ rules, Caught py rule) ∨ ∀ rule ∈ rules, Judged py rule := by
  by_cases hcaught : ∃ rule ∈ rules, Caught py rule
  · obtain ⟨rule, hrule, hc⟩ := hcaught
    refine iff_of_true (fun h => ?_) (.inl ⟨rule, hrule, hc⟩)
    exact absurd hc ((passes_iff py rules).mp h rule hrule)
  · have hnone : ∀ rule ∈ rules, ¬ Caught py rule := fun rule hrule hc => hcaught ⟨rule, hrule, hc⟩
    have hjudged : ReadOnly rules ↔ ∀ rule ∈ rules, Judged py rule :=
      forall₂_congr (fun rule hrule => (judged_iff py rule (hnone rule hrule)).symm)
    rw [hjudged]
    constructor
    · exact fun h => .inr (h ((passes_iff py rules).mpr hnone))
    · exact fun h _ => h.resolve_left hcaught

def impersonator : RBACRule where
  resources := ["serviceaccounts".toList]
  api_groups := ["".toList]
  resource_names := []
  verbs := ["get".toList, "impersonate".toList]
  non_resource_urls := []

theorem impersonator_passes :
    ¬ (audit_rules asciiRuntime [impersonator] = [] → ReadOnly [impersonator]) := by
  decide

end AigentSquad.RbacAudit
