import AccessList.Numerals
import Mathlib.Data.List.Forall2
import Mathlib.Data.Nat.Digits.Defs

/-!
Numerals as texts. A text spells a number if it is that number written in digits of the
radix, with leading zeros and one plus sign allowed. What is read is exactly what is spelled
and not too large; a number that is spelled and too large is refused as such, whatever follows
it, and any other text is refused as empty or for a character that is no digit. The digits that
a number is printed with spell it.
-/
namespace AccessList.Proofs.NumeralTexts

open Numerals

/-- The number that digits write after those of another number. -/
def valueFrom (radix value : Nat) (digits : List Nat) : Nat :=
  digits.foldl (fun n d => n * radix + d) value

/-- The characters of a text are digits with these values. -/
def Digits (radix : Nat) (cs : List Char) (digits : List Nat) : Prop :=
  List.Forall₂ (fun c d => digit? radix c = some d) cs digits

theorem exists_of_forall₂ {α β : Type} {R : α → β → Prop} {as : List α} {bs : List β}
    (h : List.Forall₂ R as bs) {a : α} (ha : a ∈ as) : ∃ b ∈ bs, R a b := by
  induction h with
  | nil => cases ha
  | @cons first b rest bs hfirst _ ih =>
    rcases List.mem_cons.mp ha with rfl | hlater
    · exact ⟨b, List.mem_cons_self, hfirst⟩
    · obtain ⟨other, hother, hrelated⟩ := ih hlater
      exact ⟨other, List.mem_cons_of_mem b hother, hrelated⟩

/-- A number is spelled by its digits, after a plus sign or not. -/
def Spells (radix : Nat) (cs : List Char) (n : Nat) : Prop :=
  ∃ unsigned digits, (cs = unsigned ∨ cs = '+' :: unsigned) ∧ unsigned ≠ [] ∧
    Digits radix unsigned digits ∧ valueFrom radix 0 digits = n

section Reading
variable {radix max value n : Nat} {cs : List Char} {digits : List Nat}

theorem le_valueFrom (hradix : 0 < radix) (value : Nat) (digits : List Nat) :
    value ≤ valueFrom radix value digits := by
  induction digits generalizing value with
  | nil => exact Nat.le_refl value
  | cons d rest ih =>
    have hmul : value * 1 ≤ value * radix := Nat.mul_le_mul_left value hradix
    have hnext := ih (value * radix + d)
    unfold valueFrom at hnext ⊢
    rw [List.foldl_cons]
    omega

/-- Reading stops as soon as the value is too large, and it only grows. -/
theorem readDigits_of_digits (h : Digits radix cs digits) (hvalue : value ≤ max) :
    readDigits radix max value cs =
      if valueFrom radix value digits ≤ max then .ok (valueFrom radix value digits)
      else .error .tooLarge := by
  induction h generalizing value with
  | nil => exact (if_pos hvalue).symm
  | @cons c d cs digits hdigit hrest ih =>
    have hradix : 0 < radix := Nat.zero_lt_of_lt (digit?_lt hdigit)
    have hgrows := le_valueFrom hradix (value * radix + d) digits
    unfold readDigits
    simp only [hdigit]
    by_cases hlarge : max < value * radix + d
    · have hfinal : ¬ valueFrom radix (value * radix + d) digits ≤ max := by omega
      rw [if_pos hlarge]
      exact (if_neg hfinal).symm
    · rw [if_neg hlarge]
      exact ih (by omega)

theorem digits_of_readDigits (h : readDigits radix max value cs = .ok n) :
    ∃ digits, Digits radix cs digits ∧ valueFrom radix value digits = n := by
  induction cs generalizing value with
  | nil =>
    cases h
    exact ⟨[], .nil, rfl⟩
  | cons c rest ih =>
    unfold readDigits at h
    split at h
    next => cases h
    next d hdigit =>
      split at h
      next => cases h
      next =>
        obtain ⟨digits, hdigits, hvalue⟩ := ih h
        exact ⟨d :: digits, .cons hdigit hdigits, hvalue⟩

theorem plus_not_digit (radix : Nat) : digit? radix '+' = none := by
  have hvalue : digitValue? '+' = none := by decide
  unfold digit?
  rw [hvalue, Option.filter_none]

/-- A plus sign is passed over, a text without one is read as it is. -/
theorem read_signed (h : cs ≠ []) : read radix max ('+' :: cs) = readDigits radix max 0 cs := by
  cases cs with
  | nil => exact absurd rfl h
  | cons c rest => rfl

/-- A text that starts with a digit is read as it is. -/
theorem read_first_digit {c : Char} {d : Nat} (h : digit? radix c = some d) (rest : List Char) :
    read radix max (c :: rest) = readDigits radix max 0 (c :: rest) := by
  unfold Numerals.read
  split
  next heq => cases heq
  next heq =>
    cases heq
    rw [plus_not_digit] at h
    cases h
  next => rfl

theorem read_unsigned (h : Digits radix cs digits) (hne : cs ≠ []) :
    read radix max cs = readDigits radix max 0 cs := by
  cases h with
  | nil => exact absurd rfl hne
  | cons hdigit _ => exact read_first_digit hdigit _

theorem read_of_spells (h : Spells radix cs n) :
    read radix max cs = if n ≤ max then .ok n else .error .tooLarge := by
  obtain ⟨unsigned, digits, hsign, hne, hdigits, rfl⟩ := h
  have hread := readDigits_of_digits hdigits (Nat.zero_le max)
  rcases hsign with rfl | rfl
  · rw [read_unsigned hdigits hne, hread]
  · rw [read_signed hne, hread]

theorem spells_of_read (h : read radix max cs = .ok n) : Spells radix cs n := by
  unfold Numerals.read at h
  split at h
  next => cases h
  next c rest =>
    obtain ⟨digits, hdigits, hvalue⟩ := digits_of_readDigits h
    exact ⟨c :: rest, digits, Or.inr rfl, List.cons_ne_nil c rest, hdigits, hvalue⟩
  next hne _ =>
    obtain ⟨digits, hdigits, hvalue⟩ := digits_of_readDigits h
    exact ⟨cs, digits, Or.inl rfl, hne, hdigits, hvalue⟩

theorem read_eq_ok_iff : read radix max cs = .ok n ↔ Spells radix cs n ∧ n ≤ max := by
  constructor
  · intro h
    exact ⟨spells_of_read h, read_le h⟩
  · rintro ⟨hspells, hle⟩
    rw [read_of_spells hspells, if_pos hle]

/-- A text spells one number. -/
theorem spells_unique {n' : Nat} (h : Spells radix cs n) (h' : Spells radix cs n') :
    n = n' := by
  have hread : read radix (Nat.max n n') cs = .ok n := by
    rw [read_of_spells h, if_pos (Nat.le_max_left n n')]
  rw [read_of_spells h', if_pos (Nat.le_max_right n n')] at hread
  exact (Except.ok.inj hread).symm

end Reading

section Refusals
variable {radix max value n : Nat} {cs front : List Char} {cause : NumeralError}

/-- Why a text is not read: it is empty, it starts with a number that is too large, or it
spells no number and none that it starts with is too large. -/
def Refused (radix max : Nat) (cs : List Char) : NumeralError → Prop
  | .empty => cs = []
  | .tooLarge => ∃ front n, front <+: cs ∧ Spells radix front n ∧ max < n
  | .badDigit => cs ≠ [] ∧ (∀ n, ¬ Spells radix cs n) ∧
      ∀ front n, front <+: cs → Spells radix front n → n ≤ max

theorem readDigits_append (value : Nat) (front rest : List Char) :
    readDigits radix max value (front ++ rest) =
      (readDigits radix max value front).bind fun v => readDigits radix max v rest := by
  induction front generalizing value with
  | nil => rfl
  | cons c front ih =>
    simp only [List.cons_append, readDigits]
    split
    next => rfl
    next d _ =>
      split
      next => rfl
      next => exact ih (value * radix + d)

/-- What follows a number that is too large is not looked at. -/
theorem read_of_large_front (hfront : front <+: cs) (h : Spells radix front n)
    (hlarge : max < n) : read radix max cs = .error .tooLarge := by
  obtain ⟨unsigned, digits, hsign, hne, hdigits, rfl⟩ := h
  obtain ⟨rest, rfl⟩ := hfront
  have hread : readDigits radix max 0 (unsigned ++ rest) = .error .tooLarge := by
    rw [readDigits_append, readDigits_of_digits hdigits (Nat.zero_le max),
      if_neg (Nat.not_le_of_lt hlarge)]
    rfl
  rcases hsign with rfl | rfl
  · cases hdigits with
    | nil => exact absurd rfl hne
    | @cons c d more digits hdigit _ => exact (read_first_digit hdigit (more ++ rest)).trans hread
  · exact (read_signed (List.append_ne_nil_of_left_ne_nil hne rest)).trans hread

theorem large_front_of_readDigits (h : readDigits radix max value cs = .error .tooLarge) :
    ∃ front digits, front <+: cs ∧ front ≠ [] ∧ Digits radix front digits ∧
      max < valueFrom radix value digits := by
  induction cs generalizing value with
  | nil => cases h
  | cons c rest ih =>
    unfold readDigits at h
    split at h
    next => cases h
    next d hdigit =>
      split at h
      next hlarge =>
        exact ⟨[c], [d], ⟨rest, rfl⟩, List.cons_ne_nil c [], .cons hdigit .nil, hlarge⟩
      next =>
        obtain ⟨front, digits, hfront, -, hdigits, hlarge⟩ := ih h
        exact ⟨c :: front, d :: digits, List.cons_prefix_cons.mpr ⟨rfl, hfront⟩,
          List.cons_ne_nil c front, .cons hdigit hdigits, hlarge⟩

theorem readDigits_ne_empty : readDigits radix max value cs ≠ .error .empty := by
  induction cs generalizing value with
  | nil => exact nofun
  | cons c rest ih =>
    unfold readDigits
    split
    next => exact nofun
    next =>
      split
      next => exact nofun
      next => exact ih

theorem refused_of_read (h : read radix max cs = .error cause) : Refused radix max cs cause := by
  cases cause with
  | empty =>
    unfold Numerals.read at h
    split at h
    next => rfl
    next => exact absurd h readDigits_ne_empty
    next => exact absurd h readDigits_ne_empty
  | tooLarge =>
    unfold Numerals.read at h
    split at h
    next => cases h
    next c rest =>
      obtain ⟨front, digits, hfront, hne, hdigits, hlarge⟩ := large_front_of_readDigits h
      exact ⟨'+' :: front, _, List.cons_prefix_cons.mpr ⟨rfl, hfront⟩,
        ⟨front, digits, Or.inr rfl, hne, hdigits, rfl⟩, hlarge⟩
    next =>
      obtain ⟨front, digits, hfront, hne, hdigits, hlarge⟩ := large_front_of_readDigits h
      exact ⟨front, _, hfront, ⟨front, digits, Or.inl rfl, hne, hdigits, rfl⟩, hlarge⟩
  | badDigit =>
    refine ⟨?_, fun n hspells => ?_, fun front n hfront hspells => ?_⟩
    · rintro rfl
      cases h
    · rw [read_of_spells hspells] at h
      split at h <;> cases h
    · by_contra hlarge
      rw [read_of_large_front hfront hspells (Nat.lt_of_not_le hlarge)] at h
      cases h

theorem read_eq_error_iff : read radix max cs = .error cause ↔ Refused radix max cs cause := by
  refine ⟨refused_of_read, fun h => ?_⟩
  cases cause with
  | empty =>
    cases h
    rfl
  | tooLarge =>
    obtain ⟨front, n, hfront, hspells, hlarge⟩ := h
    exact read_of_large_front hfront hspells hlarge
  | badDigit =>
    obtain ⟨hne, hnone, hsmall⟩ := h
    cases hread : read radix max cs with
    | ok n => exact absurd (spells_of_read hread) (hnone n)
    | error other =>
      -- Of the other causes each is excluded by a part of the hypothesis.
      have hother := refused_of_read hread
      cases other with
      | empty => exact absurd hother hne
      | tooLarge =>
        obtain ⟨front, n, hfront, hspells, hlarge⟩ := hother
        exact absurd (hsmall front n hfront hspells) (Nat.not_le_of_lt hlarge)
      | badDigit => rfl

end Refusals
section Characters

theorem digitValue?_of_le {c : Char} {d : Nat} (h : digitValue? c = some d) (hd : d < 16) :
    c = Nat.digitChar d ∨ c = (Nat.digitChar d).toUpper := by
  have hdecimal : ∀ d < 10, (Nat.digitChar d).toNat = d + 48 := by decide
  have hlower : ∀ d < 16, 10 ≤ d → (Nat.digitChar d).toNat = d + 87 := by decide
  have hupper : ∀ d < 16, 10 ≤ d → (Nat.digitChar d).toUpper.toNat = d + 55 := by decide
  unfold digitValue? at h
  split at h
  next hrange =>
    obtain ⟨hlow, hhigh⟩ : 48 ≤ c.toNat ∧ c.toNat ≤ 57 := hrange
    have hvalue : c.toNat - 48 = d := Option.some.inj h
    refine Or.inl (Char.toNat_inj.mp ?_)
    rw [hdecimal d (by omega)]
    omega
  next =>
    split at h
    next hrange =>
      obtain ⟨hlow, hhigh⟩ : 97 ≤ c.toNat ∧ c.toNat ≤ 122 := hrange
      have hvalue : c.toNat - 97 + 10 = d := Option.some.inj h
      refine Or.inl (Char.toNat_inj.mp ?_)
      rw [hlower d hd (by omega)]
      omega
    next =>
      split at h
      next hrange =>
        obtain ⟨hlow, hhigh⟩ : 65 ≤ c.toNat ∧ c.toNat ≤ 90 := hrange
        have hvalue : c.toNat - 65 + 10 = d := Option.some.inj h
        refine Or.inr (Char.toNat_inj.mp ?_)
        rw [hupper d hd (by omega)]
        omega
      next => cases h

/-- The digits of a radix, letters in either case. -/
theorem digit?_eq_some_iff {radix d : Nat} {c : Char} (hradix : radix ≤ 16) :
    digit? radix c = some d ↔
      d < radix ∧ (c = Nat.digitChar d ∨ c = (Nat.digitChar d).toUpper) := by
  unfold digit?
  rw [Option.filter_eq_some_iff, decide_eq_true_iff, and_comm]
  refine and_congr_right fun hd => ⟨fun h => digitValue?_of_le h (by omega), ?_⟩
  have hvalues : ∀ d < 16, digitValue? (Nat.digitChar d) = some d ∧
      digitValue? (Nat.digitChar d).toUpper = some d := by decide
  obtain ⟨hlower, hupper⟩ := hvalues d (by omega)
  rintro (rfl | rfl)
  · exact hlower
  · exact hupper

end Characters

section Printing
variable {radix : Nat}

theorem digit?_digitChar {d : Nat} (hd : d < radix) (hradix : radix ≤ 16) :
    digit? radix (Nat.digitChar d) = some d :=
  (digit?_eq_some_iff hradix).mpr ⟨hd, Or.inl rfl⟩

theorem valueFrom_append (value : Nat) (digits more : List Nat) :
    valueFrom radix value (digits ++ more) =
      valueFrom radix (valueFrom radix value digits) more := List.foldl_append

theorem digits_toDigits (hone : 1 < radix) (hradix : radix ≤ 16) (n : Nat) :
    ∃ digits, Digits radix (Nat.toDigits radix n) digits ∧ valueFrom radix 0 digits = n := by
  induction n using Nat.strong_induction_on with
  | _ n ih =>
    by_cases hn : n < radix
    · rw [Nat.toDigits_of_lt_base hn]
      refine ⟨[n], .cons (digit?_digitChar hn hradix) .nil, ?_⟩
      rw [valueFrom, List.foldl_cons, Nat.zero_mul, Nat.zero_add, List.foldl_nil]
    · have hle : radix ≤ n := Nat.le_of_not_lt hn
      have hlast : n % radix < radix := Nat.mod_lt n (by omega)
      obtain ⟨digits, hdigits, hvalue⟩ := ih (n / radix) (Nat.div_lt_self (by omega) hone)
      refine ⟨digits ++ [n % radix], ?_, ?_⟩
      · rw [Nat.toDigits_of_base_le hone hle]
        exact List.rel_append hdigits (.cons (digit?_digitChar hlast hradix) .nil)
      · rw [valueFrom_append, hvalue, valueFrom, List.foldl_cons, List.foldl_nil]
        exact Nat.div_add_mod' n radix

theorem not_mem_toDigits (hone : 1 < radix) (hradix : radix ≤ 16) (n : Nat) {c : Char}
    (hc : digit? radix c = none) : c ∉ Nat.toDigits radix n := by
  intro hmem
  obtain ⟨digits, hdigits, -⟩ := digits_toDigits hone hradix n
  obtain ⟨d, -, hdigit⟩ := exists_of_forall₂ hdigits hmem
  rw [hc] at hdigit
  cases hdigit

theorem spells_toDigits (hone : 1 < radix) (hradix : radix ≤ 16) (n : Nat) :
    Spells radix (Nat.toDigits radix n) n := by
  obtain ⟨digits, hdigits, hvalue⟩ := digits_toDigits hone hradix n
  exact ⟨_, digits, Or.inl rfl, Nat.toDigits_ne_nil, hdigits, hvalue⟩

theorem spells_toString (n : Nat) : Spells 10 (toString n).toList n := by
  have hprinted : (toString n).toList = Nat.toDigits 10 n := Nat.toList_repr
  rw [hprinted]
  exact spells_toDigits (by omega) (by omega) n

end Printing

end AccessList.Proofs.NumeralTexts
