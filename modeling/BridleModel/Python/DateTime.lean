import Mathlib.Data.Rat.Floor
import Mathlib.Data.String.Basic
import BridleModel.Library.FixedWidth

namespace Python

section Calendar

def isLeap (year : Nat) : Bool :=
  year % 4 = 0 ∧ (year % 100 ≠ 0 ∨ year % 400 = 0)

def daysInMonth (year month : Nat) : Nat :=
  if month = 2 then
    if isLeap year then 29 else 28
  else if month = 4 ∨ month = 6 ∨ month = 9 ∨ month = 11 then 30
  else 31

def daysBeforeYear (year : Nat) : Nat :=
  let y := year - 1
  y * 365 + y / 4 - y / 100 + y / 400

def daysBeforeMonth (year : Nat) : Nat → Nat
  | 0         => 0
  | 1         => 0
  | month + 1 => daysBeforeMonth year month + daysInMonth year month

-- The month and the day of the `n`-th day of a year, counted from 0.
def monthDay (year n : Nat) : Nat × Nat :=
  match (List.range' 1 12).reverse.find? (daysBeforeMonth year · ≤ n) with
  | none       => (1, n + 1)
  | some month => (month, n - daysBeforeMonth year month + 1)

-- `date.fromordinal`: cycles of 400, 100, 4 and 1 years.
def ofOrdinal (ordinal : Nat) : Nat × Nat × Nat :=
  let n := ordinal - 1
  let n400 := n / 146097
  let n := n % 146097
  let n100 := n / 36524
  let n := n % 36524
  let n4 := n / 1461
  let n := n % 1461
  let n1 := n / 365
  let year := n400 * 400 + n100 * 100 + n4 * 4 + n1 + 1
  if n1 = 4 ∨ n100 = 4 then
    (year - 1, 12, 31)
  else
    (year, monthDay year (n % 365))

end Calendar

-- A `datetime` in UTC.
structure DateTime where
  year        : Nat
  month       : Nat
  day         : Nat
  hour        : Nat
  minute      : Nat
  second      : Nat
  microsecond : Nat
  valid       : (1 ≤ year ∧ year ≤ 9999) ∧ (1 ≤ month ∧ month ≤ 12) ∧
    (1 ≤ day ∧ day ≤ daysInMonth year month) ∧ hour < 24 ∧ minute < 60 ∧ second < 60 ∧
    microsecond < 1000000
deriving DecidableEq, Repr

namespace DateTime

variable {t t₁ t₂ : DateTime}

def fields (t : DateTime) : List Nat :=
  [t.year, t.month, t.day, t.hour, t.minute, t.second, t.microsecond]

def ofFields : List Nat → Option DateTime
  | [y, mo, d, h, mi, s, us] =>
    if valid : (1 ≤ y ∧ y ≤ 9999) ∧ (1 ≤ mo ∧ mo ≤ 12) ∧ (1 ≤ d ∧ d ≤ daysInMonth y mo) ∧ h < 24 ∧
        mi < 60 ∧ s < 60 ∧ us < 1000000 then
      some ⟨y, mo, d, h, mi, s, us, valid⟩
    else
      none
  | _ => none

theorem ofFields_fields : ofFields t.fields = some t :=
  dif_pos t.valid

-- Instants compare field by field.
instance : LT DateTime where
  lt t₁ t₂ := t₁.fields < t₂.fields

instance : LE DateTime where
  le t₁ t₂ := ¬t₂ < t₁

instance : DecidableRel (α := DateTime) (· < ·) :=
  fun t₁ t₂ => inferInstanceAs (Decidable (t₁.fields < t₂.fields))

instance : DecidableRel (α := DateTime) (· ≤ ·) :=
  fun t₁ t₂ => inferInstanceAs (Decidable ¬t₂ < t₁)

-- Microseconds since the beginning of the calendar.
def toMicroseconds (t : DateTime) : Nat :=
  let days := daysBeforeYear t.year + daysBeforeMonth t.year t.month + t.day
  ((days * 24 + t.hour) * 60 + t.minute) * 60000000 + t.second * 1000000 + t.microsecond

def ofMicroseconds (n : Nat) : Option DateTime :=
  let day := 24 * 60 * 60000000
  if n / day = 0 then
    none
  else
    let ⟨y, mo, d⟩ := ofOrdinal (n / day)
    let n := n % day
    ofFields [y, mo, d, n / 3600000000, n / 60000000 % 60, n / 1000000 % 60, n % 1000000]

-- `t + timedelta(microseconds=delta)`; `none` is the `OverflowError` beyond the years 1 to 9999.
def add (t : DateTime) (delta : Int) : Option DateTime :=
  ofMicroseconds (t.toMicroseconds + delta).toNat

-- `strftime("%Y-%m-%dT%H:%M:%S.%fZ")`
def format : FixedWidth.Format :=
  [(4, '-'), (2, '-'), (2, 'T'), (2, ':'), (2, ':'), (2, '.'), (6, 'Z')]

def utcText (t : DateTime) : String :=
  String.ofList (FixedWidth.render format t.fields)

-- `parse_utc` on texts of that shape; `none` models the `MailboxError`.
def parseUtc (text : String) : Option DateTime :=
  (FixedWidth.parse format text.toList).bind ofFields

theorem fits : FixedWidth.Fits format t.fields := by
  have hd : daysInMonth t.year t.month ≤ 31 := by
    unfold daysInMonth
    repeat' split
    all_goals decide
  have hv := t.valid
  refine .cons ?_ <| .cons ?_ <| .cons ?_ <| .cons ?_ <| .cons ?_ <| .cons ?_ <| .cons ?_ .nil
  all_goals simp only [Nat.reducePow]; omega

theorem parseUtc_utcText : parseUtc t.utcText = some t := by
  simp [parseUtc, utcText, FixedWidth.parse_render fits, ofFields_fields]

theorem utcText_lt_iff : t₁.utcText < t₂.utcText ↔ t₁ < t₂ := by
  rw [String.lt_iff, utcText, utcText, String.toList_ofList, String.toList_ofList]
  exact FixedWidth.render_lt_iff fits fits

-- The order of the texts in the database is the order of the instants.
theorem utcText_le_iff : t₁.utcText ≤ t₂.utcText ↔ t₁ ≤ t₂ :=
  not_congr utcText_lt_iff

end DateTime

-- `timedelta(seconds=seconds)` in microseconds, rounded half to even.
def timedelta (seconds : Rat) : Int :=
  let us := seconds * 1000000
  let rest := us - us.floor
  if rest < 1 / 2 ∨ (rest = 1 / 2 ∧ us.floor % 2 = 0) then us.floor else us.floor + 1

end Python
