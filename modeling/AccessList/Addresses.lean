/-!
Network addresses as bit vectors whose most significant bit is the first on the wire, their
octets in wire order, and the masks that keep the leading bits of an address. An IPv4
address also travels as a word whose octets are in the opposite order; swapping the octets
of a word twice gives the word back.
-/
namespace AccessList.Addresses

abbrev Ipv4Address := BitVec 32

abbrev Ipv6Address := BitVec 128

abbrev MacAddress := BitVec 48

/-- The number that a list of octets writes, most significant octet first. -/
def ofOctets (octets : List UInt8) : Nat :=
  octets.foldl (fun n b => n * 256 + b.toNat) 0

/-- The last `count` octets of a number, most significant octet first. -/
def toOctets : Nat → Nat → List UInt8
  | 0, _ => []
  | count + 1, n => UInt8.ofNat (n >>> (8 * count)) :: toOctets count n

@[simp] theorem length_toOctets (count n : Nat) : (toOctets count n).length = count := by
  induction count generalizing n with
  | zero => rfl
  | succ count ih => simp [toOctets, ih]

def Ipv4Address.ofOctets (octets : List UInt8) : Ipv4Address :=
  BitVec.ofNat 32 (Addresses.ofOctets octets)

def Ipv6Address.ofOctets (octets : List UInt8) : Ipv6Address :=
  BitVec.ofNat 128 (Addresses.ofOctets octets)

def MacAddress.ofOctets (octets : List UInt8) : MacAddress :=
  BitVec.ofNat 48 (Addresses.ofOctets octets)

def Ipv6Address.octets (a : Ipv6Address) : List UInt8 := toOctets 16 a.toNat

def MacAddress.octets (a : MacAddress) : List UInt8 := toOctets 6 a.toNat

/-- The word with the same octets in the opposite order. -/
def swapOctets (w : BitVec 32) : BitVec 32 :=
  w.extractLsb' 0 8 ++ w.extractLsb' 8 8 ++ w.extractLsb' 16 8 ++ w.extractLsb' 24 8

theorem getLsbD_swapOctets (w : BitVec 32) (i : Nat) (h : i < 32) :
    (swapOctets w).getLsbD i = w.getLsbD (24 - i / 8 * 8 + i % 8) := by
  simp only [swapOctets, BitVec.getLsbD_append, BitVec.getLsbD_extractLsb']
  by_cases h0 : i < 8
  · simp [h0, show 24 - i / 8 * 8 + i % 8 = 24 + i by omega]
  · by_cases h1 : i < 16
    · simp [h0, show i - 8 < 8 by omega, show 24 - i / 8 * 8 + i % 8 = 16 + (i - 8) by omega]
    · by_cases h2 : i < 24
      · simp [h0, show ¬ i - 8 < 8 by omega, show i - 8 - 8 < 8 by omega,
          show 24 - i / 8 * 8 + i % 8 = 8 + (i - 8 - 8) by omega]
      · simp [h0, show ¬ i - 8 < 8 by omega, show ¬ i - 8 - 8 < 8 by omega,
          show i - 8 - 8 - 8 < 8 by omega, show 24 - i / 8 * 8 + i % 8 = i - 8 - 8 - 8 by omega]

theorem swapOctets_swapOctets (w : BitVec 32) : swapOctets (swapOctets w) = w := by
  apply BitVec.eq_of_getLsbD_eq
  intro i h
  rw [getLsbD_swapOctets _ _ h, getLsbD_swapOctets _ _ (by omega)]
  congr 1
  omega

/-- The first `len` bits set and all others clear. -/
def leadingMask (width len : Nat) : BitVec width :=
  BitVec.allOnes width <<< (width - len)

end AccessList.Addresses
