import AccessList.Matches
import AccessList.Proofs.NumeralTexts

/-!
Scalars as they are written. A literal denotes the number that it is, or that its text spells:
in hexadecimal after a mark, in decimal without one. No text has both readings. A literal that
denotes a number below 2 ^ 32 is read as that number, and no other literal is read at all.
-/
namespace AccessList.Proofs.ScalarTexts

open Matches NumeralTexts Numerals

/-- The mark of hexadecimal, `0x` or `0X`, before the rest of a text. -/
def Marked (cs rest : List Char) : Prop := cs = '0' :: 'x' :: rest ∨ cs = '0' :: 'X' :: rest

inductive Denotes : Literal → Nat → Prop
  | number (n : UInt64) : Denotes (.number n) n.toNat
  | decimal {text : String} {n : Nat} (spelled : Spells 10 text.toList n) :
      Denotes (.text text) n
  | hexadecimal {text : String} {cs : List Char} {n : Nat} (marked : Marked text.toList cs)
      (spelled : Spells 16 cs n) : Denotes (.text text) n

/-- A literal that denotes a number of 32 bits. -/
def FitsWord (l : Literal) : Prop := ∃ n < 2 ^ 32, Denotes l n

section Texts
variable {cs rest : List Char} {n : Nat}

theorem scalarText_of_marked (h : Marked cs rest) : scalarText cs = read 16 maxScalar rest := by
  rcases h with rfl | rfl <;> rfl

theorem scalarText_of_unmarked (h : ∀ rest, ¬ Marked cs rest) :
    scalarText cs = read 10 maxScalar cs := by
  unfold scalarText
  split
  next rest => exact absurd (Or.inl rfl) (h rest)
  next rest => exact absurd (Or.inr rfl) (h rest)
  next => rfl

/-- The mark holds a character that is no decimal digit. -/
theorem unmarked_of_spells (h : Spells 10 cs n) (rest : List Char) : ¬ Marked cs rest := by
  intro hmarked
  obtain ⟨unsigned, digits, hsign, -, hdigits, -⟩ := h
  obtain ⟨mark, hmark, hcs⟩ : ∃ mark, digit? 10 mark = none ∧ cs = '0' :: mark :: rest := by
    rcases hmarked with rfl | rfl
    · exact ⟨'x', by decide, rfl⟩
    · exact ⟨'X', by decide, rfl⟩
  -- Without a sign the second character is no digit; with one the first is not a zero.
  rcases hsign with rfl | hplus
  · subst hcs
    obtain ⟨d, -, hdigit⟩ := exists_of_forall₂ hdigits (List.mem_cons_of_mem '0' List.mem_cons_self)
    rw [hmark] at hdigit
    cases hdigit
  · rw [hcs] at hplus
    cases hplus

theorem marked_unique {rest' : List Char} (h : Marked cs rest) (h' : Marked cs rest') :
    rest = rest' := by
  rcases h with rfl | rfl <;> rcases h' with h' | h' <;> cases h' <;> rfl

theorem le_maxScalar_iff : n ≤ maxScalar ↔ n < 2 ^ 32 := Nat.lt_succ_iff.symm

end Texts

section Literals
variable {l : Literal} {n : Nat} {v : BitVec 32}

/-- A literal denotes one number, whichever way it is written. -/
theorem denotes_unique {n' : Nat} (h : Denotes l n) (h' : Denotes l n') : n = n' := by
  cases h with
  | number =>
    cases h'
    rfl
  | decimal hspelled =>
    cases h' with
    | decimal hspelled' => exact spells_unique hspelled hspelled'
    | hexadecimal hmarked => exact absurd hmarked (unmarked_of_spells hspelled _)
  | hexadecimal hmarked hspelled =>
    cases h' with
    | decimal hspelled' => exact absurd hmarked (unmarked_of_spells hspelled' _)
    | hexadecimal hmarked' hspelled' =>
      rw [marked_unique hmarked hmarked'] at hspelled
      exact spells_unique hspelled hspelled'

theorem scalarText_of_denotes {text : String} (h : Denotes (.text text) n) :
    scalarText text.toList = if n < 2 ^ 32 then .ok n else .error .tooLarge := by
  cases h with
  | decimal hspelled =>
    simp only [scalarText_of_unmarked (unmarked_of_spells hspelled), read_of_spells hspelled,
      le_maxScalar_iff]
  | hexadecimal hmarked hspelled =>
    simp only [scalarText_of_marked hmarked, read_of_spells hspelled, le_maxScalar_iff]

theorem denotes_of_scalarText {text : String} (h : scalarText text.toList = .ok n) :
    Denotes (.text text) n ∧ n < 2 ^ 32 := by
  by_cases hmarked : ∃ rest, Marked text.toList rest
  · obtain ⟨rest, hmarked⟩ := hmarked
    rw [scalarText_of_marked hmarked] at h
    obtain ⟨hspelled, hle⟩ := read_eq_ok_iff.mp h
    exact ⟨.hexadecimal hmarked hspelled, le_maxScalar_iff.mp hle⟩
  · rw [scalarText_of_unmarked (not_exists.mp hmarked)] at h
    obtain ⟨hspelled, hle⟩ := read_eq_ok_iff.mp h
    exact ⟨.decimal hspelled, le_maxScalar_iff.mp hle⟩

/-- A number that is denoted is never cut down: it is read whole or refused. -/
theorem scalar_of_denotes (h : Denotes l n) :
    scalar l = if n < 2 ^ 32 then .ok (BitVec.ofNat 32 n) else .error (.numeral .tooLarge) := by
  cases l with
  | number =>
    cases h
    simp only [scalar, le_maxScalar_iff]
  | list => cases h
  | text text =>
    simp only [scalar, scalarText_of_denotes h]
    by_cases hlt : n < 2 ^ 32
    · simp only [if_pos hlt]
    · simp only [if_neg hlt]

theorem fitsWord_of_scalar (h : scalar l = .ok v) : FitsWord l := by
  cases l with
  | number n =>
    simp only [scalar] at h
    split at h
    next hle => exact ⟨n.toNat, le_maxScalar_iff.mp hle, .number n⟩
    next => cases h
  | list ids => cases h
  | text text =>
    simp only [scalar] at h
    split at h
    next n hread =>
      obtain ⟨hdenotes, hlt⟩ := denotes_of_scalarText hread
      exact ⟨n, hlt, hdenotes⟩
    next => cases h

theorem exists_scalar_iff : (∃ v, scalar l = .ok v) ↔ FitsWord l := by
  constructor
  · rintro ⟨v, hread⟩
    exact fitsWord_of_scalar hread
  · rintro ⟨n, hlt, hdenotes⟩
    exact ⟨_, (scalar_of_denotes hdenotes).trans (if_pos hlt)⟩

end Literals

end AccessList.Proofs.ScalarTexts
