import BridleModel.Library.Orders
import BridleModel.Library.Sqlite
import BridleModel.Mailbox.Legacy

open Sqlite

namespace Mail

-- `_strict_utc_guard_sql`
def strictUtcGuard (value : String) : Bool :=
  let cs := value.toList
  let digits (pos n : Nat) : Bool := ¬glob [.star, .one fun c => ¬Sqlite.isDigit c, .star] (substr cs pos n)
  cs.length = 27 ∧ substr cs 5 1 = ['-'] ∧ substr cs 8 1 = ['-'] ∧ substr cs 11 1 = ['T'] ∧
    substr cs 14 1 = [':'] ∧ substr cs 17 1 = [':'] ∧ substr cs 20 1 = ['.'] ∧ substr cs 27 1 = ['Z'] ∧
    digits 1 4 ∧ digits 6 2 ∧ digits 9 2 ∧ digits 12 2 ∧ digits 15 2 ∧ digits 18 2 ∧ digits 21 6 ∧
    isDateTime cs

section Address

def hexUpper (c : Char) : Bool :=
  within '0' '9' c ∨ within 'A' 'F' c

def hexLower (c : Char) : Bool :=
  within 'a' 'f' c

def hexAny (c : Char) : Bool :=
  within '0' '9' c ∨ within 'A' 'F' c ∨ within 'a' 'f' c

def unreserved (c : Char) : Bool :=
  within 'A' 'Z' c ∨ within 'a' 'z' c ∨ within '0' '9' c ∨ c ∈ ['_', '.', '~', '-']

-- In the scan of `_canonical_address_guard_sql`, `cs` is the text from `pos` on. `sign cs k` is its
-- `k`-th percent sign, counted from 0, if all before are followed by two digits, and `byte cs k` is
-- what follows.
def sign (cs : List Char) (k : Nat) : List Char :=
  (cs.drop (3 * k)).take 1

def byte (cs : List Char) (k : Nat) : List Char :=
  (cs.drop (3 * k + 1)).take 2

def hexByte (cs : List Char) (k : Nat) : Bool :=
  sign cs k = ['%'] ∧ glob [.one hexUpper, .one hexUpper] (byte cs k)

-- `byte BETWEEN lo AND hi`
def between (cs : List Char) (k : Nat) (lo hi : String) : Bool :=
  lo.toList ≤ byte cs k ∧ byte cs k ≤ hi.toList

def continuation (cs : List Char) (k : Nat) : Bool :=
  hexByte cs k ∧ between cs k "80" "BF"

def raw (cs : List Char) : Bool :=
  glob [.one unreserved] (cs.take 1) ∨ cs.take 1 = ['/']

def encodedAscii (cs : List Char) : Bool :=
  hexByte cs 0 ∧ between cs 0 "00" "7F" ∧ ¬between cs 0 "30" "39" ∧ ¬between cs 0 "41" "5A" ∧
    ¬between cs 0 "61" "7A" ∧ byte cs 0 ∉ [['2', 'D'], ['2', 'E'], ['5', 'F'], ['7', 'E']]

def encodedTwo (cs : List Char) : Bool :=
  hexByte cs 0 ∧ between cs 0 "C2" "DF" ∧ continuation cs 1

def encodedThree (cs : List Char) : Bool :=
  hexByte cs 0 ∧ hexByte cs 1 ∧ continuation cs 2 ∧
    ((byte cs 0 = ['E', '0'] ∧ between cs 1 "A0" "BF") ∨
      (between cs 0 "E1" "EC" ∧ between cs 1 "80" "BF") ∨
      (byte cs 0 = ['E', 'D'] ∧ between cs 1 "80" "9F") ∨
      (between cs 0 "EE" "EF" ∧ between cs 1 "80" "BF"))

def encodedFour (cs : List Char) : Bool :=
  hexByte cs 0 ∧ hexByte cs 1 ∧ continuation cs 2 ∧ continuation cs 3 ∧
    ((byte cs 0 = ['F', '0'] ∧ between cs 1 "90" "BF") ∨
      (between cs 0 "F1" "F3" ∧ between cs 1 "80" "BF") ∨
      (byte cs 0 = ['F', '4'] ∧ between cs 1 "80" "8F"))

-- `step`; `none` is its NULL
def scanStep (cs : List Char) : Option (List Char) :=
  if raw cs then some (cs.drop 1)
  else if encodedAscii cs then some (cs.drop 3)
  else if encodedTwo cs then some (cs.drop 6)
  else if encodedThree cs then some (cs.drop 9)
  else if encodedFour cs then some (cs.drop 12)
  else none

-- The recursive query reaches the end of the text. Each of its rounds takes a character at least.
def scanAddress : Nat → List Char → Bool
  | _, []            => true
  | 0, _ :: _        => false
  | fuel + 1, c :: cs =>
    match scanStep (c :: cs) with
    | none    => false
    | some cs => scanAddress fuel cs

-- The number behind the last character of a text that is no digit
def generationText (cs : List Char) : List Char :=
  cs.drop (rtrimDigits cs).length

-- `length(x) - length(replace(x, '/', '')) = 4` and what both guards say of the number at the end
def generationGuard (cs : List Char) : Bool :=
  cs.length - (cs.filter (· ≠ '/')).length = 4 ∧ (rtrimDigits cs).getLast? = some '/' ∧
    1 ≤ castInteger (generationText cs) ∧
    printInteger (castInteger (generationText cs)) = generationText cs

-- `_canonical_address_guard_sql`
def canonicalAddressGuard (cs : List Char) : Bool :=
  let tail := cs.drop 8
  cs.take 8 = "agent://".toList ∧ generationGuard cs ∧ 1 < instr tail '/' ∧
    1 < instr (tail.drop (instr tail '/')) '/' ∧ scanAddress tail.length tail

-- What the guards ask of an address: 'agent://*/*/*', no '*%[a-f][0-9A-Fa-f]*' and no
-- '*%[0-9A-Fa-f][a-f]*' before the canonical form
def addressGuard (value : String) : Bool :=
  let cs := value.toList
  let slash : Glob := .one (· = '/')
  let percent : Glob := .one (· = '%')
  glob (literal "agent://" ++ [.star, slash, .star, slash, .star]) cs ∧
    ¬glob [.star, percent, .one hexLower, .one hexAny, .star] cs ∧
    ¬glob [.star, percent, .one hexAny, .one hexLower, .star] cs ∧
    generationGuard cs ∧ canonicalAddressGuard cs

end Address

-- The columns that go with each status
def stateGuard (row : MailRow) : Bool :=
  match row.status with
  | .pending | .delivered =>
    row.nextRetryAt = none ∧ row.leaseOwner = none ∧ row.leaseToken = none ∧ row.leaseExpiresAt = none
  | .retryWait            =>
    row.nextRetryAt.any strictUtcGuard ∧ row.leaseOwner = none ∧ row.leaseToken = none ∧
      row.leaseExpiresAt = none
  | .leased               =>
    row.nextRetryAt = none ∧ row.leaseOwner.isSome ∧ row.leaseToken.isSome ∧
      row.leaseExpiresAt.any strictUtcGuard

-- The condition of the trigger `mail_messages_v2_update_guard`. `json` is the function of SQLite, `none`
-- where it finds its argument malformed.
def updateGuard (json : String → Option String) (row : MailRow) : Bool :=
  row.messageId ≠ "" ∧ addressGuard row.sourceAddress ∧ addressGuard row.targetAddress ∧
    row.messageType ≠ "" ∧ json row.payloadJson = some row.payloadJson ∧ 0 < row.sequenceNo ∧
    strictUtcGuard row.createdAt ∧ strictUtcGuard row.updatedAt ∧ stateGuard row

def Status.text : Status → String
  | .pending   => "pending"
  | .leased    => "leased"
  | .retryWait => "retry_wait"
  | .delivered => "delivered"

def Status.ofText (text : String) : Option Status :=
  [pending, leased, retryWait, delivered].find? (·.text = text)

-- The row with its columns in the types that the guard asks for
def LegacyRow.mailRow? (row : LegacyRow) : Option MailRow :=
  match Status.ofText row.status, row.createdAt, row.updatedAt with
  | some status, some createdAt, some updatedAt =>
    if 0 ≤ row.sequenceNo ∧ 0 ≤ row.attempt then
      some {
        row with
        sequenceNo := row.sequenceNo.toNat
        attempt    := row.attempt.toNat
        status, createdAt, updatedAt
      }
    else
      none
  | _, _, _ => none

def LegacyRow.guard (json : String → Option String) (row : LegacyRow) : Bool :=
  row.mailRow?.any (updateGuard json)

end Mail
