import AccessList.Proofs.AddressSpellings
import AccessList.Proofs.LeadingBits
import AccessList.Proofs.MatchDocuments
import AccessList.Proofs.NetworkTexts
import AccessList.Proofs.RuleMaking

/-!
Matches of networks, from the texts of a request to the keys of a rule. The two families of
addresses differ in their texts and in their number of octets only. A text gives its address
and the mask of its leading bits, unless the request has a mask of its own; the key holds
both, so a packet matches it if its address has the same leading bits.
-/
namespace AccessList.Proofs.NetworkMatches

open AddressOctets AddressSpellings AddressTexts Addresses AttributeEffects Attributes Errors
  Fields Handles Keys LeadingBits Limits MatchDocuments Matches NetworkTexts NumeralTexts Operands
  Qualifiers Roles RuleMaking Rules Scenarios

/-- Addresses of one length, the texts that are read as such, and what is made of them. Texts
hold no slash, and all octets have one. -/
structure Family where
  count : Nat
  width : Nat
  octets? : List Char → Option (List UInt8)
  invalid : ValueError
  pattern : BitVec width → BitVec width → Pattern
  cell : BitVec width → Cell
  octetwise : width = 8 * count
  short : width ≤ 255
  noSlash : ∀ {text octets}, octets? text = some octets → '/' ∉ text
  length : ∀ {text octets}, octets? text = some octets → octets.length = count
  spelled : ∀ {octets}, octets.length = count → ∃ text, octets? text = some octets

def v4 : Family where
  count := 4
  width := 32
  octets? := ipv4Octets?
  invalid := .ipv4
  pattern := .ipv4
  cell := .bits32
  octetwise := rfl
  short := by decide
  noSlash := no_slash_of_ipv4
  length h := (parts_of_quad h).2
  spelled h := ⟨_, ipv4Octets?_quadText h⟩

def v6 : Family where
  count := 16
  width := 128
  octets? := ipv6Octets?
  invalid := .ipv6
  pattern := .ipv6
  cell := .ipv6
  octetwise := rfl
  short := by decide
  noSlash h := (shape_of_ipv6 h).1
  length h := (shape_of_ipv6 h).2
  spelled := exists_ipv6_text

namespace Family

variable (fam : Family)

def address (octets : List UInt8) : BitVec fam.width := BitVec.ofNat fam.width (ofOctets octets)

def addressOf (text : List Char) : Except ValueError (BitVec fam.width) :=
  match (fam.octets? text).map fam.address with
  | some a => .ok a
  | none => .error fam.invalid

/-- How the matches of both families are read. -/
def patternOf (value : Literal) (mask : Option Literal) : Except ValueError Pattern := do
  let (text, len) ← networkOf fam.width (← textOf value)
  let a ← fam.addressOf text
  match mask with
  | none => .ok (fam.pattern a (leadingMask fam.width len))
  | some l => do
    let mask ← fam.addressOf (← textOf l).toList
    .ok (fam.pattern a mask)

end Family

theorem ipv4Of_eq (text : List Char) : ipv4Of text = v4.addressOf text := by
  have hread : ipv4? text = (v4.octets? text).map v4.address := rfl
  unfold ipv4Of Family.addressOf
  rw [hread]
  cases (v4.octets? text).map v4.address <;> rfl

theorem ipv6Of_eq (text : List Char) : ipv6Of text = v6.addressOf text := by
  have hread : ipv6? text = (v6.octets? text).map v6.address := rfl
  unfold ipv6Of Family.addressOf
  rw [hread]
  cases (v6.octets? text).map v6.address <;> rfl

theorem ipv4Pattern_eq (value : Literal) (mask : Option Literal) :
    ipv4Pattern value mask = v4.patternOf value mask := by
  unfold ipv4Pattern Family.patternOf
  simp only [ipv4Of_eq]
  cases mask <;> rfl

theorem ipv6Pattern_eq (value : Literal) (mask : Option Literal) :
    ipv6Pattern value mask = v6.patternOf value mask := by
  unfold ipv6Pattern Family.patternOf
  simp only [ipv6Of_eq]
  cases mask <;> rfl

section Reading
variable {fam : Family} {text : String} {octets : List UInt8} {n : Nat}

/-- The text is that of an address with these octets and a count of its leading bits, all of
them if there is none. -/
def Written (fam : Family) (text : String) (octets : List UInt8) (n : Nat) : Prop :=
  ∃ address, Network fam.width address text.toList n ∧ fam.octets? address = some octets

theorem length_of_written (h : Written fam text octets n) : octets.length = fam.count := by
  obtain ⟨address, -, hoctets⟩ := h
  exact fam.length hoctets

theorem le_of_written (h : Written fam text octets n) : n ≤ fam.width := by
  obtain ⟨address, hnetwork, -⟩ := h
  exact le_of_network hnetwork

theorem addressOf_of_octets {cs : List Char} (h : fam.octets? cs = some octets) :
    fam.addressOf cs = .ok (fam.address octets) := by
  unfold Family.addressOf
  rw [h]
  rfl

theorem octets_of_addressOf {cs : List Char} {a : BitVec fam.width}
    (h : fam.addressOf cs = .ok a) :
    ∃ octets, fam.octets? cs = some octets ∧ a = fam.address octets := by
  unfold Family.addressOf at h
  split at h
  next found hread =>
    cases h
    obtain ⟨octets, hoctets, rfl⟩ := Option.map_eq_some_iff.mp hread
    exact ⟨octets, hoctets, rfl⟩
  next => cases h

theorem networkOf_of_written (h : Written fam text octets n) :
    ∃ address, networkOf fam.width text = .ok (address, n) ∧
      fam.addressOf address = .ok (fam.address octets) := by
  obtain ⟨address, hnetwork, hoctets⟩ := h
  have hread := (network_eq_ok_iff fam.short).mpr ⟨fam.noSlash hoctets, hnetwork⟩
  refine ⟨address, ?_, addressOf_of_octets hoctets⟩
  unfold networkOf
  rw [hread]

theorem patternOf_of_written (h : Written fam text octets n) :
    fam.patternOf (.text text) none =
      .ok (fam.pattern (fam.address octets) (leadingMask fam.width n)) := by
  obtain ⟨address, hnetwork, haddress⟩ := networkOf_of_written h
  simp only [Family.patternOf, textOf, bind, Except.bind, hnetwork, haddress]

/-- A mask of its own counts whatever the leading bits are. -/
theorem patternOf_masked (h : Written fam text octets n) {maskText : String}
    {maskOctets : List UInt8} (hmask : fam.octets? maskText.toList = some maskOctets) :
    fam.patternOf (.text text) (some (.text maskText)) =
      .ok (fam.pattern (fam.address octets) (fam.address maskOctets)) := by
  obtain ⟨address, hnetwork, haddress⟩ := networkOf_of_written h
  have hmaskAddress := addressOf_of_octets hmask
  simp only [Family.patternOf, textOf, bind, Except.bind, hnetwork, haddress, hmaskAddress]

theorem written_of_patternOf {p : Pattern} (h : fam.patternOf (.text text) none = .ok p) :
    ∃ octets n, Written fam text octets n ∧
      p = fam.pattern (fam.address octets) (leadingMask fam.width n) := by
  simp only [Family.patternOf, textOf, bind, Except.bind] at h
  split at h
  next => cases h
  next found hnetwork =>
    split at h
    next => cases h
    next a haddress =>
      cases h
      obtain ⟨octets, hoctets, rfl⟩ := octets_of_addressOf haddress
      unfold networkOf at hnetwork
      split at hnetwork
      next read hread =>
        cases hnetwork
        obtain ⟨-, hwritten⟩ := (network_eq_ok_iff fam.short).mp hread
        exact ⟨octets, found.2, ⟨found.1, hwritten, hoctets⟩, rfl⟩
      next => cases hnetwork

/-- Why a count of leading bits is refused. -/
def longCount (fam : Family) (digits : List Char) (n : Nat) : LengthError :=
  if n ≤ 255 then .tooLong n fam.width else .unreadable digits .tooLarge

/-- A count above the number of bits is refused before anything else is read. -/
theorem patternOf_of_long {address digits : List Char} (h : '/' ∉ address)
    (spelled : Spells 10 digits n) (long : fam.width < n) (mask : Option Literal) :
    fam.patternOf (.text (String.ofList (address ++ '/' :: digits))) mask =
      .error (.length (longCount fam digits n)) := by
  have hnetwork := network_of_long h spelled long
  simp only [Family.patternOf, textOf, bind, Except.bind, networkOf, String.toList_ofList,
    hnetwork, longCount]

/-- The usual text: the count in decimal. -/
theorem written_toString (h : fam.octets? text.toList = some octets) (fits : n ≤ fam.width) :
    Written fam (text ++ "/" ++ toString n) octets n := by
  have htext : (text ++ "/" ++ toString n).toList = text.toList ++ '/' :: (toString n).toList := by
    rw [String.toList_append, String.toList_append, List.append_assoc]
    rfl
  refine ⟨text.toList, ?_, h⟩
  rw [htext]
  exact .leading _ n (spells_toString n) fits

end Reading

/-- Every rule that a match is part of has the key, and the match alone makes a rule. -/
structure Assembled (k : Kind) (q : Qualifier) (p : Pattern) (key : Key) : Prop where
  alone : ∀ (s : Settings) (t : TableHandle), 0 < s.maxKeys →
    ∃ rule, Rule.ofAttributes s t k [.field q p] = .ok rule ∧ rule.keys = [key]
  among : ∀ (s : Settings) (t : TableHandle) (attrs : List Attribute) (rule : Rule),
    Rule.ofAttributes s t k attrs = .ok rule → .field q p ∈ attrs → key ∈ rule.keys

theorem assembled_of_keyed {k : Kind} {q : Qualifier} {f : Field} {p : Pattern} {key : Key}
    (hrole : role k q = .keyed f) (hkey : Key.ofPattern f p = .ok key) : Assembled k q p key := by
  constructor
  · intro s t hroom
    have heffect : (Attribute.field q p).effect k = .ok (.key key) := by
      rw [effect_of_keyed p hrole, hkey]
      rfl
    have heffects : effects k s.maxKeys [.field q p] = .ok [.key key] :=
      effects_eq_ok_iff.mpr ⟨.cons heffect .nil, hroom⟩
    refine ⟨Rule.ofEffects t k [.key key], ?_, rfl⟩
    exact ofAttributes_eq_ok_iff.mpr ⟨_, heffects, rfl, Or.inl (List.cons_ne_nil key [])⟩
  · intro s t attrs rule hmade hmem
    have hmatched : (f, p) ∈ matchedFields k attrs := by
      refine List.mem_filterMap.mpr ⟨.field q p, hmem, ?_⟩
      simp only [matched?, hrole]
    obtain ⟨other, hother, hofPattern⟩ :=
      exists_of_forall₂ (described_of_ofAttributes hmade).keys hmatched
    rw [hkey] at hofPattern
    cases hofPattern
    exact hother

/-- What a qualifier for addresses of a family makes of a request: which texts it takes, that
every address has one for every count, which key comes of it, which addresses that key
selects, as numbers and octet by octet, and what becomes of masks and of larger counts. -/
structure MatchesNetworks (fam : Family) (q : Qualifier) (f : Field) : Prop where
  decoded : ∀ text, matchRequest? (matchDocument ⟨q, .text text, none⟩) =
    some ⟨q, .text text, none⟩
  taken : ∀ text p, checkedPattern ⟨q, .text text, none⟩ = .ok p ↔
    ∃ octets n, Written fam text octets n ∧ octets.length = fam.count ∧ n ≤ fam.width ∧
      p = fam.pattern (fam.address octets) (leadingMask fam.width n)
  spelled : ∀ octets, octets.length = fam.count → ∃ text : String,
    Written fam text octets fam.width ∧
      ∀ n ≤ fam.width, Written fam (text ++ "/" ++ toString n) octets n
  keyed : ∀ a mask, Assembled f.kind q (fam.pattern a mask) ⟨f, fam.cell a, fam.cell mask⟩
  selects : ∀ octets n, octets.length = fam.count → n ≤ fam.width →
    (fam.address octets).toNat = ofOctets octets ∧
      ∀ x, x &&& leadingMask fam.width n = fam.address octets &&& leadingMask fam.width n ↔
        ∀ i < n, x.getMsbD i = bit octets i
  octetwise : ∀ octets n, octets.length = fam.count → n ≤ fam.width →
    let mask := toOctets fam.count (leadingMask fam.width n).toNat
    toOctets fam.count (fam.address octets).toNat = octets ∧
      ∀ xs, xs.length = fam.count →
        (List.zipWith (· &&& ·) xs mask = List.zipWith (· &&& ·) octets mask ↔
          ∀ i < n, bit xs i = bit octets i)
  replaced : ∀ text octets n maskText maskOctets, Written fam text octets n →
    fam.octets? maskText.toList = some maskOctets →
      checkedPattern ⟨q, .text text, some (.text maskText)⟩ =
        .ok (fam.pattern (fam.address octets) (fam.address maskOctets))
  refused : ∀ address digits n mask, '/' ∉ address → Spells 10 digits n → fam.width < n →
    checkedPattern ⟨q, .text (String.ofList (address ++ '/' :: digits)), mask⟩ =
      .error (.invalidValue q (.length (longCount fam digits n)))

section Selecting
variable {fam : Family} {octets : List UInt8} {n : Nat}

theorem width_of_length (h : octets.length = fam.count) : fam.width = 8 * octets.length := by
  rw [h, fam.octetwise]

theorem getMsbD_address (h : octets.length = fam.count) {i : Nat} (hi : i < fam.width) :
    (fam.address octets).getMsbD i = bit octets i :=
  getMsbD_ofNat_ofOctets (width_of_length h) hi

theorem toOctets_address (h : octets.length = fam.count) :
    toOctets fam.count (fam.address octets).toNat = octets := by
  rw [← h]
  exact toOctets_ofNat_ofOctets (width_of_length h)

theorem and_address_eq_iff (h : octets.length = fam.count) (hn : n ≤ fam.width)
    (x : BitVec fam.width) :
    x &&& leadingMask fam.width n = fam.address octets &&& leadingMask fam.width n ↔
      ∀ i < n, x.getMsbD i = bit octets i := by
  rw [and_leadingMask_eq_iff x _ hn]
  refine forall₂_congr fun i hi => ?_
  rw [getMsbD_address h (by omega)]

theorem zipWith_and_octets_eq_iff (h : octets.length = fam.count) (hn : n ≤ fam.width)
    {xs : List UInt8} (hxs : xs.length = fam.count) :
    let mask := toOctets fam.count (leadingMask fam.width n).toNat
    List.zipWith (· &&& ·) xs mask = List.zipWith (· &&& ·) octets mask ↔
      ∀ i < n, bit xs i = bit octets i := by
  have hmasked := zipWith_and_eq_iff fam.octetwise (fam.address xs) (fam.address octets)
    (leadingMask fam.width n)
  rw [toOctets_address h, toOctets_address hxs] at hmasked
  intro mask
  rw [hmasked, and_address_eq_iff h hn]
  refine forall₂_congr fun i hi => ?_
  rw [getMsbD_address hxs (by omega)]

end Selecting

theorem matchesNetworks_of {fam : Family} {q : Qualifier} {f : Field}
    (hpattern : ∀ value mask, MatchRequest.pattern ⟨q, value, mask⟩ = fam.patternOf value mask)
    (hrole : role f.kind q = .keyed f)
    (hkey : ∀ a mask, Key.ofPattern f (fam.pattern a mask) =
      .ok ⟨f, fam.cell a, fam.cell mask⟩) : MatchesNetworks fam q f where
  decoded text := matchRequest?_document ⟨q, .text text, none⟩
  taken text p := by
    unfold checkedPattern
    rw [hpattern]
    constructor
    · intro h
      split at h
      next found hread =>
        cases h
        obtain ⟨octets, n, hwritten, hp⟩ := written_of_patternOf hread
        exact ⟨octets, n, hwritten, length_of_written hwritten, le_of_written hwritten, hp⟩
      next => cases h
    · rintro ⟨octets, n, hwritten, -, -, rfl⟩
      rw [patternOf_of_written hwritten]
  spelled octets h := by
    obtain ⟨text, hread⟩ := fam.spelled h
    have htext : fam.octets? (String.ofList text).toList = some octets := by
      rw [String.toList_ofList]
      exact hread
    exact ⟨String.ofList text, ⟨_, .whole, htext⟩, fun n fits => written_toString htext fits⟩
  keyed a mask := assembled_of_keyed hrole (hkey a mask)
  selects octets n h hn :=
    ⟨toNat_ofNat_ofOctets (width_of_length h), and_address_eq_iff h hn⟩
  octetwise octets n h hn := ⟨toOctets_address h, fun xs => zipWith_and_octets_eq_iff h hn⟩
  replaced text octets n maskText maskOctets hwritten hmask := by
    unfold checkedPattern
    rw [hpattern, patternOf_masked hwritten hmask]
  refused address digits n mask h spelled long := by
    unfold checkedPattern
    rw [hpattern, patternOf_of_long h spelled long]

/-- The word of an address has its octets swapped, and for the key they are swapped back. -/
theorem ofPattern_v4 (f : Ipv4Field) (h : f.layout = .ipv4Address) (a mask : Ipv4Address) :
    Key.ofPattern (.ipv4 f) (v4.pattern a mask) = .ok ⟨.ipv4 f, v4.cell a, v4.cell mask⟩ := by
  have hlayout : (Field.ipv4 f).layout = .ipv4Address := h
  simp only [Key.ofPattern, hlayout, valueCell?, maskCell?, v4, Pattern.ipv4, Operand.ofIpv4,
    Operand.ipv4?, Option.map_some, swapOctets_swapOctets]

theorem ofPattern_v6 (f : Ipv6Field) (h : f.layout = .ipv6Address) (a mask : Ipv6Address) :
    Key.ofPattern (.ipv6 f) (v6.pattern a mask) = .ok ⟨.ipv6 f, v6.cell a, v6.cell mask⟩ := by
  have hlayout : (Field.ipv6 f).layout = .ipv6Address := h
  simp only [Key.ofPattern, hlayout, valueCell?, maskCell?, v6, Pattern.ipv6, Operand.ipv6?,
    Option.map_some]

/-- Of both families, for sources and destinations. A count of at most 32 makes an IPv4
network. -/
theorem networks_match_leading_bits :
    (MatchesNetworks v4 .srcIp (.ipv4 .source) ∧
      MatchesNetworks v4 .dstIp (.ipv4 .destination)) ∧
    (MatchesNetworks v6 .srcIpv6 (.ipv6 .source) ∧
      MatchesNetworks v6 .dstIpv6 (.ipv6 .destination)) ∧
    ∀ (a : Ipv4Address), ∀ n ≤ 32, v4.pattern a (leadingMask 32 n) = .ipv4Network a n := by
  refine ⟨⟨?_, ?_⟩, ⟨?_, ?_⟩, fun a n hn => ?_⟩
  · exact matchesNetworks_of ipv4Pattern_eq rfl (ofPattern_v4 .source rfl)
  · exact matchesNetworks_of ipv4Pattern_eq rfl (ofPattern_v4 .destination rfl)
  · exact matchesNetworks_of ipv6Pattern_eq rfl (ofPattern_v6 .source rfl)
  · exact matchesNetworks_of ipv6Pattern_eq rfl (ofPattern_v6 .destination rfl)
  · rw [Pattern.ipv4Network, Nat.min_eq_left hn]
    rfl

example : checkedPattern ⟨.dstIp, .text "10.1.2.3/12", none⟩ =
    .ok ⟨.ipv4 0x0302010a, .ipv4 0x0000f0ff⟩ := by decide

end AccessList.Proofs.NetworkMatches
