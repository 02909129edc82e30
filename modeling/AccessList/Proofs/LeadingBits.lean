import AccessList.Proofs.AddressOctets

/-!
The leading bits of addresses. Two addresses are the same under the mask of their leading
bits if and only if these bits are the same, bit by bit. The bits of an address are those of
its octets in their order, so it makes no difference whether masks are laid over addresses or
over their octets.
-/
namespace AccessList.Proofs.LeadingBits

open AddressOctets Addresses

/-- The bits of octets, the most significant bit of each octet first. -/
def bit (octets : List UInt8) (i : Nat) : Bool :=
  (octets[i / 8]?.getD 0).toBitVec.getMsbD (i % 8)

theorem getMsbD_leadingMask {width len : Nat} (h : len ≤ width) (i : Nat) :
    (leadingMask width len).getMsbD i = decide (i < len) := by
  rw [leadingMask, BitVec.getMsbD_shiftLeft, BitVec.getMsbD_allOnes]
  congr 1
  simp only [eq_iff_iff]
  omega

theorem and_leadingMask_eq_iff {width len : Nat} (x a : BitVec width) (h : len ≤ width) :
    x &&& leadingMask width len = a &&& leadingMask width len ↔
      ∀ i < len, x.getMsbD i = a.getMsbD i := by
  constructor
  · intro heq i hi
    have hbit := congrArg (BitVec.getMsbD · i) heq
    simpa only [BitVec.getMsbD_and, getMsbD_leadingMask h, hi, decide_true, Bool.and_true]
      using hbit
  · intro hbits
    apply BitVec.eq_of_getMsbD_eq
    intro i _
    rw [BitVec.getMsbD_and, BitVec.getMsbD_and, getMsbD_leadingMask h]
    by_cases hi : i < len
    · rw [hbits i hi]
    · simp only [hi, decide_false, Bool.and_false]

theorem pow_octets (count : Nat) : 256 ^ count = 2 ^ (8 * count) := by
  rw [Nat.pow_mul]

section Octets
variable {octets : List UInt8} {i : Nat}

theorem bit_cons_of_lt (b : UInt8) (rest : List UInt8) (h : i < 8) :
    bit (b :: rest) i = b.toNat.testBit (7 - i) := by
  have hindex : i / 8 = 0 := by omega
  have hoffset : i % 8 = i := by omega
  rw [bit, hindex, hoffset, BitVec.getMsbD_eq_getLsbD, decide_eq_true h, Bool.true_and]
  exact (BitVec.testBit_toNat _).symm

theorem bit_cons_of_le (b : UInt8) (rest : List UInt8) (h : 8 ≤ i) :
    bit (b :: rest) i = bit rest (i - 8) := by
  have hindex : i / 8 = (i - 8) / 8 + 1 := by omega
  have hoffset : i % 8 = (i - 8) % 8 := by omega
  rw [bit, hindex, hoffset, List.getElem?_cons_succ, bit]

theorem testBit_ofOctets (h : i < 8 * octets.length) :
    (ofOctets octets).testBit (8 * octets.length - 1 - i) = bit octets i := by
  induction octets generalizing i with
  | nil => cases h
  | cons b rest ih =>
    have hrest := ofOctets_lt rest
    rw [List.length_cons] at h
    rw [pow_octets] at hrest
    rw [ofOctets_cons, List.length_cons, Nat.mul_comm, pow_octets,
      Nat.testBit_two_pow_mul_add _ hrest]
    by_cases hi : i < 8
    · have hhigh : ¬ 8 * (rest.length + 1) - 1 - i < 8 * rest.length := by omega
      have hplace : 8 * (rest.length + 1) - 1 - i - 8 * rest.length = 7 - i := by omega
      rw [if_neg hhigh, hplace, bit_cons_of_lt b rest hi]
    · have hlow : 8 * (rest.length + 1) - 1 - i < 8 * rest.length := by omega
      have hplace : 8 * (rest.length + 1) - 1 - i = 8 * rest.length - 1 - (i - 8) := by omega
      rw [if_pos hlow, hplace, ih (by omega), bit_cons_of_le b rest (by omega)]

/-- The address that octets make has their bits. -/
theorem getMsbD_ofNat_ofOctets {width : Nat} (hwidth : width = 8 * octets.length)
    (h : i < width) : (BitVec.ofNat width (ofOctets octets)).getMsbD i = bit octets i := by
  have hplace : width - 1 - i < width := by omega
  rw [BitVec.getMsbD_eq_getLsbD, BitVec.getLsbD_ofNat, decide_eq_true h, decide_eq_true hplace,
    Bool.true_and, Bool.true_and, hwidth]
  exact testBit_ofOctets (by omega)

end Octets

section Addresses
variable {width count : Nat}

theorem toNat_ofNat_ofOctets {octets : List UInt8} (hwidth : width = 8 * octets.length) :
    (BitVec.ofNat width (ofOctets octets)).toNat = ofOctets octets := by
  have hsmall := ofOctets_lt octets
  rw [BitVec.toNat_ofNat, hwidth, ← pow_octets]
  exact Nat.mod_eq_of_lt hsmall

theorem toOctets_ofNat_ofOctets {octets : List UInt8} (hwidth : width = 8 * octets.length) :
    toOctets octets.length (BitVec.ofNat width (ofOctets octets)).toNat = octets := by
  rw [toNat_ofNat_ofOctets hwidth]
  exact toOctets_ofOctets octets

theorem toOctets_and (count m n : Nat) :
    toOctets count (m &&& n) = List.zipWith (· &&& ·) (toOctets count m) (toOctets count n) := by
  induction count with
  | zero => rfl
  | succ count ih =>
    rw [toOctets, toOctets, toOctets, List.zipWith_cons_cons, ih, Nat.shiftRight_and_distrib,
      UInt8.ofNat_and]

theorem ofOctets_toOctets_toNat (hwidth : width = 8 * count) (a : BitVec width) :
    ofOctets (toOctets count a.toNat) = a.toNat := by
  rw [ofOctets_toOctets, pow_octets, ← hwidth, Nat.mod_eq_of_lt a.isLt]

theorem toOctets_toNat_injective (hwidth : width = 8 * count) {a b : BitVec width}
    (h : toOctets count a.toNat = toOctets count b.toNat) : a = b := by
  have hvalue := congrArg ofOctets h
  rw [ofOctets_toOctets_toNat hwidth, ofOctets_toOctets_toNat hwidth] at hvalue
  exact BitVec.eq_of_toNat_eq hvalue

/-- A mask that is laid over the octets one by one. -/
theorem zipWith_and_eq_iff (hwidth : width = 8 * count) (x a mask : BitVec width) :
    List.zipWith (· &&& ·) (toOctets count x.toNat) (toOctets count mask.toNat) =
        List.zipWith (· &&& ·) (toOctets count a.toNat) (toOctets count mask.toNat) ↔
      x &&& mask = a &&& mask := by
  rw [← toOctets_and, ← toOctets_and, ← BitVec.toNat_and, ← BitVec.toNat_and]
  exact ⟨toOctets_toNat_injective hwidth, congrArg fun b : BitVec width => toOctets count b.toNat⟩

end Addresses

end AccessList.Proofs.LeadingBits
