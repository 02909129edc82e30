import AccessList.Addresses
import Mathlib.Algebra.Group.Nat.Defs

/-!
A number and its octets. A list of octets is the list of the octets of its number, and the
number of the last octets of a number is what is left of it below the power of 256 that they
can write.
-/
namespace AccessList.Proofs.AddressOctets

open Addresses

theorem foldl_octets (n : Nat) (octets : List UInt8) :
    octets.foldl (fun n b => n * 256 + b.toNat) n = n * 256 ^ octets.length + ofOctets octets := by
  unfold ofOctets
  induction octets generalizing n with
  | nil => rw [List.foldl_nil, List.length_nil, Nat.pow_zero, Nat.mul_one, List.foldl_nil]; rfl
  | cons b octets ih =>
    rw [List.foldl_cons, List.foldl_cons, ih (n * 256 + b.toNat), ih (0 * 256 + b.toNat),
      List.length_cons, Nat.pow_succ]
    grind

theorem ofOctets_cons (b : UInt8) (octets : List UInt8) :
    ofOctets (b :: octets) = b.toNat * 256 ^ octets.length + ofOctets octets := by
  have hfold := foldl_octets (0 * 256 + b.toNat) octets
  rw [Nat.zero_mul, Nat.zero_add] at hfold
  rw [← hfold]
  unfold ofOctets
  rw [List.foldl_cons, Nat.zero_mul, Nat.zero_add]

theorem ofOctets_lt (octets : List UInt8) : ofOctets octets < 256 ^ octets.length := by
  induction octets with
  | nil => exact Nat.zero_lt_one
  | cons b octets ih =>
    have hb : (b.toNat + 1) * 256 ^ octets.length ≤ 256 * 256 ^ octets.length :=
      Nat.mul_le_mul_right _ b.toNat_lt
    rw [Nat.succ_mul] at hb
    rw [ofOctets_cons, List.length_cons, Nat.pow_succ]
    omega

theorem shiftRight_octets (n count : Nat) : n >>> (8 * count) = n / 256 ^ count := by
  rw [Nat.shiftRight_eq_div_pow, Nat.pow_mul]

theorem ofOctets_toOctets (count n : Nat) : ofOctets (toOctets count n) = n % 256 ^ count := by
  induction count with
  | zero =>
    rw [Nat.pow_zero, Nat.mod_one]
    rfl
  | succ count ih =>
    have hsplit : n % 256 ^ (count + 1) =
        n % 256 ^ count + 256 ^ count * (n / 256 ^ count % 256) := by
      rw [Nat.pow_succ, Nat.mod_mul]
    rw [toOctets, ofOctets_cons, ih, length_toOctets, UInt8.toNat_ofNat', shiftRight_octets,
      hsplit, Nat.mul_comm, Nat.add_comm]

theorem eq_of_mul_add_eq {p x y r r' : Nat} (hr : r < p) (hr' : r' < p)
    (h : x * p + r = y * p + r') : x = y ∧ r = r' := by
  have hdiv (x r : Nat) (hr : r < p) : (x * p + r) / p = x := by
    rw [Nat.mul_comm, Nat.mul_add_div (by omega), Nat.div_eq_of_lt hr, Nat.add_zero]
  have hxy : x = y := by rw [← hdiv x r hr, h, hdiv y r' hr']
  subst hxy
  exact ⟨rfl, Nat.add_left_cancel h⟩

theorem ofOctets_injective {octets others : List UInt8}
    (hlength : octets.length = others.length) (h : ofOctets octets = ofOctets others) :
    octets = others := by
  induction octets generalizing others with
  | nil => exact (List.length_eq_zero_iff.mp hlength.symm).symm
  | cons b octets ih =>
    cases others with
    | nil => cases hlength
    | cons c others =>
      have hrest : octets.length = others.length := Nat.succ.inj hlength
      rw [ofOctets_cons, ofOctets_cons, hrest] at h
      have hlt : ofOctets octets < 256 ^ others.length := by
        rw [← hrest]
        exact ofOctets_lt octets
      obtain ⟨hhead, htail⟩ := eq_of_mul_add_eq hlt (ofOctets_lt others) h
      rw [UInt8.toNat_inj.mp hhead, ih hrest htail]

theorem toOctets_ofOctets (octets : List UInt8) :
    toOctets octets.length (ofOctets octets) = octets := by
  apply ofOctets_injective (length_toOctets _ _)
  rw [ofOctets_toOctets, Nat.mod_eq_of_lt (ofOctets_lt octets)]

end AccessList.Proofs.AddressOctets
