/-!
Unsigned numerals in a radix of at most 36, up to a largest value. Leading zeros and one
plus sign are allowed. Reading goes from the left and stops at the first character that is
no digit or that makes the value too large.
-/
namespace AccessList.Numerals

inductive NumeralError
  | empty
  | badDigit
  | tooLarge
  deriving DecidableEq, Repr

def NumeralError.message : NumeralError → String
  | .empty => "cannot parse integer from empty string"
  | .badDigit => "invalid digit found in string"
  | .tooLarge => "number too large to fit in target type"

/-- The value of a digit or a letter; letters of either case follow the nine. -/
def digitValue? (c : Char) : Option Nat :=
  if '0' ≤ c ∧ c ≤ '9' then some (c.toNat - '0'.toNat)
  else if 'a' ≤ c ∧ c ≤ 'z' then some (c.toNat - 'a'.toNat + 10)
  else if 'A' ≤ c ∧ c ≤ 'Z' then some (c.toNat - 'A'.toNat + 10)
  else none

def digit? (radix : Nat) (c : Char) : Option Nat :=
  (digitValue? c).filter (· < radix)

def readDigits (radix max value : Nat) : List Char → Except NumeralError Nat
  | [] => .ok value
  | c :: rest =>
    match digit? radix c with
    | none => .error .badDigit
    | some d =>
      if max < value * radix + d then .error .tooLarge
      else readDigits radix max (value * radix + d) rest

/-- A plus sign alone is a bad digit. -/
def read (radix max : Nat) : List Char → Except NumeralError Nat
  | [] => .error .empty
  | '+' :: c :: rest => readDigits radix max 0 (c :: rest)
  | cs => readDigits radix max 0 cs

theorem digit?_lt {radix : Nat} {c : Char} {d : Nat} (h : digit? radix c = some d) :
    d < radix := by
  simpa using (Option.filter_eq_some_iff.mp h).2

theorem readDigits_le {radix max value : Nat} {cs : List Char} {n : Nat}
    (h : readDigits radix max value cs = .ok n) (hv : value ≤ max) : n ≤ max := by
  induction cs generalizing value with
  | nil =>
    cases h
    exact hv
  | cons c rest ih =>
    unfold readDigits at h
    split at h
    · simp at h
    · split at h
      · simp at h
      · exact ih h (by omega)

/-- What is read is never larger than allowed. -/
theorem read_le {radix max : Nat} {cs : List Char} {n : Nat}
    (h : read radix max cs = .ok n) : n ≤ max := by
  unfold read at h
  split at h
  · simp at h
  · exact readDigits_le h (Nat.zero_le max)
  · exact readDigits_le h (Nat.zero_le max)

end AccessList.Numerals
