import BridleModel.Library.Binary64
import BridleModel.Python.DateTime

-- When `PersistentMailbox.nack` and `ChangeOutbox._increment_attempt` schedule the next attempt. `none` is an
-- `OverflowError` in either.
namespace RetryDelay

open Python

section Mailbox

def nackDelay (base max : Binary64) (attempt : ℕ) : Option ℚ :=
  (base.mulInt (2 ^ (attempt - 1))).map (Binary64.minFloat · max)

def nackRetryAt (base max : Binary64) (attempt : ℕ) (now : DateTime) : Option DateTime :=
  (nackDelay base max attempt).bind fun delay => now.add (timedelta delay)

end Mailbox

section Outbox

-- `math.log2`
variable (log2 : ℚ → ℚ)

-- The quotient of the two is at least 1, and so the exponent not negative.
def saturationExponent (ratio : ℚ) : ℕ :=
  ⌈log2 ratio⌉₊

-- An infinite quotient has an infinite logarithm, of which `math.ceil` raises.
def outboxDelay (base max : Binary64) (attempt : ℕ) : Option ℚ :=
  let nextAttempt := attempt + 1
  if max.value ≤ base.value then some max.value
  else
    match Binary64.result (max.value / base.value) with
    | none       => none
    | some ratio =>
      let exponent := min (nextAttempt - 1) (saturationExponent log2 ratio)
      (base.mulInt (2 ^ exponent)).map (Binary64.minFloat · max)

def outboxRetryAt (base max : Binary64) (attempt : ℕ) (now : DateTime) : Option DateTime :=
  (outboxDelay log2 base max attempt).bind fun delay => now.add (timedelta delay)

end Outbox

end RetryDelay
