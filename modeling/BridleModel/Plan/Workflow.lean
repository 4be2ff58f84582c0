import Mathlib.Data.List.Basic

namespace Plan

inductive ModificationState
  | testAuthoring
  | testContractApproved
  | redAllowed
  | redVerifying
  | redConfirmed
  | implementing
  | submitted
  | finalVerifying
  | readyToPublish
  | published
  | verificationBlocked
deriving DecidableEq, Repr

def ModificationState.value : ModificationState → String
  | testAuthoring        => "TEST_AUTHORING"
  | testContractApproved => "TEST_CONTRACT_APPROVED"
  | redAllowed           => "RED_ALLOWED"
  | redVerifying         => "RED_VERIFYING"
  | redConfirmed         => "RED_CONFIRMED"
  | implementing         => "IMPLEMENTING"
  | submitted            => "SUBMITTED"
  | finalVerifying       => "FINAL_VERIFYING"
  | readyToPublish       => "READY_TO_PUBLISH"
  | published            => "PUBLISHED"
  | verificationBlocked  => "VERIFICATION_BLOCKED"

inductive ModificationEvent
  | start
  | testContractApproved
  | redAllowed
  | redVerificationStarted
  | redConfirmed
  | implementationStarted
  | submitted
  | finalVerificationStarted
  | finalVerificationPassed
  | published
  | invalidTest
  | infrastructureFailed
  | baselineExpired
  | finalVerificationFailed
  | verificationRetryExhausted
deriving DecidableEq, Repr

namespace ModificationEvent

def value : ModificationEvent → String
  | start                      => "start"
  | testContractApproved       => "test_contract_approved"
  | redAllowed                 => "red_allowed"
  | redVerificationStarted     => "red_verification_started"
  | redConfirmed               => "red_confirmed"
  | implementationStarted      => "implementation_started"
  | submitted                  => "submitted"
  | finalVerificationStarted   => "final_verification_started"
  | finalVerificationPassed    => "final_verification_passed"
  | published                  => "published"
  | invalidTest                => "invalid_test"
  | infrastructureFailed       => "infrastructure_failed"
  | baselineExpired            => "baseline_expired"
  | finalVerificationFailed    => "final_verification_failed"
  | verificationRetryExhausted => "verification_retry_exhausted"

def all : List ModificationEvent := [
  start, testContractApproved, redAllowed, redVerificationStarted, redConfirmed,
  implementationStarted, submitted, finalVerificationStarted, finalVerificationPassed, published,
  invalidTest, infrastructureFailed, baselineExpired, finalVerificationFailed,
  verificationRetryExhausted
]

-- `ModificationEvent(text)`, where `none` stands for the `ValueError` of an unknown value.
def ofValue (text : String) : Option ModificationEvent :=
  all.find? (·.value = text)

theorem ofValue_value (e : ModificationEvent) : ofValue e.value = some e := by
  cases e <;> decide

open ModificationState in
-- The first component of `_TRANSITIONS`; `none` is the state of a node without a workflow.
def allowed : ModificationEvent → List (Option ModificationState)
  | start                      => [none]
  | testContractApproved       => [some testAuthoring]
  | redAllowed                 => [some .testContractApproved]
  | redVerificationStarted     => [some .redAllowed]
  | redConfirmed               => [some redVerifying]
  | implementationStarted      => [some .redConfirmed]
  | submitted                  => [some implementing]
  | finalVerificationStarted   => [some .submitted]
  | finalVerificationPassed    => [some finalVerifying]
  | published                  => [some readyToPublish]
  | invalidTest                => [some redVerifying]
  | infrastructureFailed       => [some redVerifying]
  | baselineExpired            => [
      some .testContractApproved, some .redAllowed, some redVerifying, some .redConfirmed,
      some implementing, some .submitted, some finalVerifying, some readyToPublish
    ]
  | finalVerificationFailed    => [some finalVerifying]
  | verificationRetryExhausted => [some redVerifying, some finalVerifying]

-- The second component of `_TRANSITIONS`.
def target : ModificationEvent → ModificationState
  | start                      => .testAuthoring
  | testContractApproved       => .testContractApproved
  | redAllowed                 => .redAllowed
  | redVerificationStarted     => .redVerifying
  | redConfirmed               => .redConfirmed
  | implementationStarted      => .implementing
  | submitted                  => .submitted
  | finalVerificationStarted   => .finalVerifying
  | finalVerificationPassed    => .readyToPublish
  | published                  => .published
  | invalidTest                => .testAuthoring
  | infrastructureFailed       => .redAllowed
  | baselineExpired            => .testAuthoring
  | finalVerificationFailed    => .implementing
  | verificationRetryExhausted => .verificationBlocked

end ModificationEvent

inductive Phase
  | red
  | final
deriving DecidableEq, Repr

namespace Phase

def value : Phase → String
  | red   => "red"
  | final => "final"

theorem value_injective {p p' : Phase} (h : p.value = p'.value) : p = p' := by
  revert h
  cases p <;> cases p' <;> decide

def ofValue (text : String) : Option Phase :=
  [red, final].find? (·.value = text)

theorem ofValue_eq_some_iff {p : Phase} {text : String} : ofValue text = some p ↔ text = p.value := by
  constructor
  · intro h
    have hp : p.value = text := by simpa using List.find?_some h
    exact hp.symm
  · rintro rfl
    cases p <;> decide

-- The gate a verification of this phase runs in.
def gate : Phase → ModificationState
  | red   => .redVerifying
  | final => .finalVerifying

end Phase
end Plan
