import AccessList.AddressTexts
import AccessList.Proofs.AddressOctets
import AccessList.Proofs.NumeralTexts

/-!
The texts of addresses. What is read as an address is made of digits, dots and colons, so it
holds no slash, and it has four or sixteen octets. All octets have a text: four of them are
written in decimal between dots, sixteen as eight hexadecimal groups between colons.
-/
namespace AccessList.Proofs.AddressSpellings

open AddressOctets AddressTexts Addresses Numerals NumeralTexts

section Parts
variable {c : Char} {cs : List Char}

theorem splitAt_eq_splitOnP (separates : Char → Bool) (cs : List Char) :
    splitAt separates cs = cs.splitOnP separates := by
  induction cs with
  | nil => rfl
  | cons c rest ih =>
    rw [List.splitOnP_cons_eq_if_modifyHead, splitAt, ih]
    split
    next => rfl
    next =>
      cases hparts : rest.splitOnP separates with
      | nil => exact absurd hparts (List.splitOnP_ne_nil separates rest)
      | cons part parts => rfl

theorem splitAt_intercalate {parts : List (List Char)} {s : Char} (hne : parts ≠ [])
    (hfree : ∀ part ∈ parts, s ∉ part) :
    splitAt (· = s) ([s].intercalate parts) = parts := by
  rw [splitAt_eq_splitOnP]
  exact List.splitOn_intercalate s hfree hne

/-- A character that does not separate is in one of the parts. -/
theorem mem_splitAt (separates : Char → Bool) (h : c ∈ cs) (hc : separates c = false) :
    ∃ part ∈ splitAt separates cs, c ∈ part := by
  rw [splitAt_eq_splitOnP]
  induction cs with
  | nil => cases h
  | cons d rest ih =>
    rw [List.splitOnP_cons_eq_if_modifyHead]
    by_cases hd : separates d = true
    · rw [if_pos hd]
      rcases List.mem_cons.mp h with rfl | hrest
      · rw [hc] at hd
        cases hd
      · obtain ⟨part, hpart, hmem⟩ := ih hrest
        exact ⟨part, List.mem_cons_of_mem [] hpart, hmem⟩
    · rw [if_neg hd]
      cases hparts : rest.splitOnP separates with
      | nil => exact absurd hparts (List.splitOnP_ne_nil separates rest)
      | cons first parts =>
        rw [hparts] at ih
        rcases List.mem_cons.mp h with rfl | hrest
        · exact ⟨c :: first, List.mem_cons_self, List.mem_cons_self⟩
        · obtain ⟨part, hpart, hmem⟩ := ih hrest
          rcases List.mem_cons.mp hpart with rfl | hlater
          · exact ⟨d :: part, List.mem_cons_self, List.mem_cons_of_mem d hmem⟩
          · exact ⟨part, List.mem_cons_of_mem (d :: first) hlater, hmem⟩

theorem forall₂_of_mapM {α β : Type} {f : α → Option β} {as : List α} {bs : List β}
    (h : as.mapM f = some bs) : List.Forall₂ (fun a b => f a = some b) as bs := by
  induction as generalizing bs with
  | nil =>
    cases h
    exact .nil
  | cons a rest ih =>
    rw [List.mapM_cons] at h
    cases ha : f a with
    | none =>
      rw [ha] at h
      cases h
    | some b =>
      cases hrest : rest.mapM f with
      | none =>
        rw [ha, hrest] at h
        cases h
      | some more =>
        rw [ha, hrest] at h
        cases h
        exact .cons ha (ih hrest)

theorem mapM_of_forall₂ {α β : Type} {f : α → Option β} {as : List α} {bs : List β}
    (h : List.Forall₂ (fun a b => f a = some b) as bs) : as.mapM f = some bs := by
  induction h with
  | nil => rfl
  | cons hfirst _ ih =>
    rw [List.mapM_cons, hfirst, ih]
    rfl

end Parts

section Slashes
variable {radix max n : Nat} {cs : List Char}

theorem slash_not_digit (radix : Nat) : digit? radix '/' = none := by
  have hvalue : digitValue? '/' = none := by decide
  unfold digit?
  rw [hvalue, Option.filter_none]

theorem no_slash_of_readDigits (h : readDigits radix max 0 cs = .ok n) : '/' ∉ cs := by
  obtain ⟨digits, hdigits, -⟩ := digits_of_readDigits h
  intro hslash
  obtain ⟨d, -, hdigit⟩ := exists_of_forall₂ hdigits hslash
  rw [slash_not_digit] at hdigit
  cases hdigit

theorem no_slash_of_octet {b : UInt8} (h : octet? cs = some b) : '/' ∉ cs := by
  unfold octet? at h
  split at h
  next => cases h
  next =>
    split at h
    next n hread => exact no_slash_of_readDigits hread
    next => cases h

theorem no_slash_of_group {octets : List UInt8} (h : groupOctets? cs = some octets) :
    '/' ∉ cs := by
  unfold groupOctets? at h
  split at h
  next => cases h
  next =>
    split at h
    next n hread => exact no_slash_of_readDigits hread
    next => cases h

/-- The parts of a dotted quad, each with its octet. -/
theorem parts_of_quad {octets : List UInt8} (h : ipv4Octets? cs = some octets) :
    List.Forall₂ (fun part b => octet? part = some b) (splitAt (· = '.') cs) octets ∧
      octets.length = 4 := by
  unfold ipv4Octets? at h
  split at h
  next a b c d hparts =>
    have hoctets := forall₂_of_mapM h
    rw [hparts]
    exact ⟨hoctets, hoctets.length_eq.symm⟩
  next => cases h

theorem no_slash_of_ipv4 {octets : List UInt8} (h : ipv4Octets? cs = some octets) :
    '/' ∉ cs := by
  intro hslash
  obtain ⟨part, hpart, hmem⟩ := mem_splitAt (· = '.') hslash (by decide)
  obtain ⟨b, -, hoctet⟩ := exists_of_forall₂ (parts_of_quad h).1 hpart
  exact no_slash_of_octet hoctet hmem

theorem no_slash_of_groups {dotted : Bool} {parts : List (List Char)} {octets : List UInt8}
    (h : groupsOctets? dotted parts = some octets) : ∀ part ∈ parts, '/' ∉ part := by
  induction parts generalizing octets with
  | nil => exact nofun
  | cons first rest ih =>
    cases rest with
    | nil =>
      intro part hpart
      rw [List.mem_singleton.mp hpart]
      unfold groupsOctets? at h
      split at h
      next found hgroup => exact no_slash_of_group hgroup
      next =>
        split at h
        next => exact no_slash_of_ipv4 h
        next => cases h
    | cons second rest =>
      simp only [groupsOctets?, Option.bind_eq_bind, Option.bind_eq_some_iff] at h
      obtain ⟨found, hgroup, more, hmore, -⟩ := h
      intro part hpart
      rcases List.mem_cons.mp hpart with rfl | hlater
      · exact no_slash_of_group hgroup
      · exact ih hmore part hlater

theorem mem_cutDoubleColon {c : Char} (h : c ∈ cs) (hc : c ≠ ':') :
    c ∈ (cutDoubleColon cs).1 ∨ ∃ back, (cutDoubleColon cs).2 = some back ∧ c ∈ back := by
  fun_induction cutDoubleColon cs with
  | case1 rest =>
    rcases List.mem_cons.mp h with rfl | h
    · exact absurd rfl hc
    · rcases List.mem_cons.mp h with rfl | h
      · exact absurd rfl hc
      · exact Or.inr ⟨rest, rfl, h⟩
  | case2 => cases h
  | case3 d rest hcolon ih =>
    rcases List.mem_cons.mp h with rfl | h
    · exact Or.inl List.mem_cons_self
    · rcases ih h with hfront | hback
      · exact Or.inl (List.mem_cons_of_mem d hfront)
      · exact Or.inr hback

theorem no_slash_of_side {dotted : Bool} {octets : List UInt8}
    (h : sideOctets? dotted cs = some octets) : '/' ∉ cs := by
  unfold sideOctets? at h
  split at h
  next => exact List.not_mem_nil
  next =>
    intro hslash
    obtain ⟨part, hpart, hmem⟩ := mem_splitAt (· = ':') hslash (by decide)
    exact no_slash_of_groups h part hpart hmem

/-- What is read as sixteen octets holds no slash. -/
theorem shape_of_ipv6 {octets : List UInt8} (h : ipv6Octets? cs = some octets) :
    '/' ∉ cs ∧ octets.length = 16 := by
  have hslash (hmem : '/' ∈ cs) := mem_cutDoubleColon hmem (by decide)
  unfold ipv6Octets? at h
  split at h
  next all hcut =>
    simp only [Option.bind_eq_bind, Option.bind_eq_some_iff] at h
    obtain ⟨found, hside, hall⟩ := h
    rw [hcut] at hslash
    split at hall
    next hlength =>
      cases hall
      refine ⟨fun hmem => ?_, hlength⟩
      rcases hslash hmem with hfront | ⟨back, hback, -⟩
      · exact no_slash_of_side hside hfront
      · cases hback
    next => cases hall
  next front back hcut =>
    simp only [Option.bind_eq_bind, Option.bind_eq_some_iff] at h
    obtain ⟨before, hbefore, after, hafter, hall⟩ := h
    rw [hcut] at hslash
    split at hall
    next hlength =>
      cases hall
      refine ⟨fun hmem => ?_, ?_⟩
      · rcases hslash hmem with hfront | ⟨other, hother, hback⟩
        · exact no_slash_of_side hbefore hfront
        · cases hother
          exact no_slash_of_side hafter hback
      · rw [List.length_append, List.length_append, List.length_replicate]
        omega
    next => cases hall

end Slashes

section Printing

/-- Four octets as they are usually written. -/
def quadText (octets : List UInt8) : List Char :=
  ['.'].intercalate (octets.map fun b => Nat.toDigits 10 b.toNat)

theorem octet?_toDigits (b : UInt8) : octet? (Nat.toDigits 10 b.toNat) = some b := by
  have hall : ∀ n < 256, octet? (Nat.toDigits 10 n) = some (UInt8.ofNat n) := by decide +kernel
  rw [hall b.toNat b.toNat_lt, UInt8.ofNat_toNat]

theorem splitAt_quadText {octets : List UInt8} (hne : octets ≠ []) :
    splitAt (· = '.') (quadText octets) = octets.map fun b => Nat.toDigits 10 b.toNat := by
  apply splitAt_intercalate
  · exact fun hnil => hne (List.map_eq_nil_iff.mp hnil)
  · intro part hpart
    obtain ⟨b, -, rfl⟩ := List.mem_map.mp hpart
    exact not_mem_toDigits (by omega) (by omega) b.toNat (by decide)

theorem ipv4Octets?_quadText {octets : List UInt8} (h : octets.length = 4) :
    ipv4Octets? (quadText octets) = some octets := by
  have hoctets : (octets.map fun b => Nat.toDigits 10 b.toNat).mapM octet? = some octets := by
    apply mapM_of_forall₂
    rw [List.forall₂_map_left_iff, List.forall₂_same]
    exact fun b _ => octet?_toDigits b
  unfold ipv4Octets?
  match octets, h with
  | [a, b, c, d], _ =>
    rw [splitAt_quadText (List.cons_ne_nil a _)]
    exact hoctets

/-- The numbers that sixteen octets make two by two. -/
theorem exists_groups (count : Nat) {octets : List UInt8} (h : octets.length = 2 * count) :
    ∃ groups : List Nat, groups.length = count ∧ (∀ g ∈ groups, g < 65536) ∧
      groups.flatMap (toOctets 2) = octets := by
  induction count generalizing octets with
  | zero =>
    have hnil : octets = [] := List.length_eq_zero_iff.mp h
    exact ⟨[], rfl, nofun, hnil.symm⟩
  | succ count ih =>
    match octets, h with
    | a :: b :: rest, h =>
      have hrest : rest.length = 2 * count := by
        rw [List.length_cons, List.length_cons] at h
        omega
      obtain ⟨groups, hlength, hsmall, hoctets⟩ := ih hrest
      refine ⟨ofOctets [a, b] :: groups, congrArg Nat.succ hlength, ?_, ?_⟩
      · intro g hg
        rcases List.mem_cons.mp hg with rfl | hlater
        · have hsize : 256 ^ [a, b].length = 65536 := by norm_num
          exact hsize ▸ ofOctets_lt [a, b]
        · exact hsmall g hlater
      · rw [List.flatMap_cons, hoctets]
        exact congrArg (· ++ rest) (toOctets_ofOctets [a, b])

theorem groupOctets?_toDigits {g : Nat} (h : g < 65536) :
    groupOctets? (Nat.toDigits 16 g) = some (toOctets 2 g) := by
  have hshort : (Nat.toDigits 16 g).length ≤ 4 :=
    (Nat.length_toDigits_le_iff (by omega) (by omega)).mpr h
  have hsize : ¬ (Nat.toDigits 16 g = [] ∨ 4 < (Nat.toDigits 16 g).length) := by
    rintro (hnil | hlong)
    · exact Nat.toDigits_ne_nil hnil
    · omega
  obtain ⟨digits, hdigits, hvalue⟩ := digits_toDigits (by omega : 1 < 16) (by omega) g
  have hread := readDigits_of_digits hdigits (Nat.zero_le 0xffff)
  have hfits : g ≤ 0xffff := by omega
  rw [hvalue, if_pos hfits] at hread
  unfold groupOctets?
  rw [if_neg hsize, hread]

theorem groupsOctets?_toDigits {dotted : Bool} {groups : List Nat}
    (h : ∀ g ∈ groups, g < 65536) :
    groupsOctets? dotted (groups.map (Nat.toDigits 16)) = some (groups.flatMap (toOctets 2)) := by
  induction groups with
  | nil => rfl
  | cons g rest ih =>
    have hfirst := groupOctets?_toDigits (h g List.mem_cons_self)
    have hrest := ih fun other hother => h other (List.mem_cons_of_mem g hother)
    cases rest with
    | nil =>
      simp only [List.map_cons, List.map_nil, groupsOctets?, hfirst, List.flatMap_cons,
        List.flatMap_nil, List.append_nil]
    | cons second rest =>
      rw [List.map_cons] at hrest
      rw [List.map_cons, List.map_cons, groupsOctets?, hfirst, hrest, List.flatMap_cons]
      · rfl
      · exact nofun

/-- Only the first part between colons may be empty where there is no double colon. -/
theorem cutDoubleColon_of_parts {cs : List Char} (h : [] ∉ (cs.splitOnP (· = ':')).tail) :
    cutDoubleColon cs = (cs, none) := by
  fun_induction cutDoubleColon cs with
  | case1 rest =>
    simp only [List.splitOnP_cons_eq_if_modifyHead, decide_true, if_true, List.tail_cons] at h
    exact absurd List.mem_cons_self h
  | case2 => rfl
  | case3 c rest hcolon ih =>
    have htail : [] ∉ (rest.splitOnP (· = ':')).tail := by
      intro hmem
      apply h
      rw [List.splitOnP_cons_eq_if_modifyHead]
      split
      next => exact List.mem_of_mem_tail hmem
      next =>
        rw [List.tail_modifyHead]
        exact hmem
    rw [ih htail]

/-- Sixteen octets as eight groups of hexadecimal digits. -/
def groupsText (groups : List Nat) : List Char :=
  [':'].intercalate (groups.map (Nat.toDigits 16))

theorem splitAt_groupsText {groups : List Nat} (hne : groups ≠ []) :
    splitAt (· = ':') (groupsText groups) = groups.map (Nat.toDigits 16) := by
  apply splitAt_intercalate
  · exact fun hnil => hne (List.map_eq_nil_iff.mp hnil)
  · intro part hpart
    obtain ⟨g, -, rfl⟩ := List.mem_map.mp hpart
    exact not_mem_toDigits (by omega) (by omega) g (by decide)

theorem cutDoubleColon_groupsText {groups : List Nat} (hne : groups ≠ []) :
    cutDoubleColon (groupsText groups) = (groupsText groups, none) := by
  apply cutDoubleColon_of_parts
  rw [← splitAt_eq_splitOnP, splitAt_groupsText hne]
  intro hnil
  obtain ⟨g, -, hg⟩ := List.mem_map.mp (List.mem_of_mem_tail hnil)
  exact Nat.toDigits_ne_nil hg

theorem sideOctets?_groupsText {groups : List Nat} (hne : groups ≠ [])
    (h : ∀ g ∈ groups, g < 65536) :
    sideOctets? true (groupsText groups) = some (groups.flatMap (toOctets 2)) := by
  have hparts := splitAt_groupsText hne
  unfold sideOctets?
  split
  next hnil =>
    have hempty : [] ∈ groups.map (Nat.toDigits 16) := by
      rw [← hparts, hnil]
      exact List.mem_cons_self
    obtain ⟨g, -, hg⟩ := List.mem_map.mp hempty
    exact absurd hg Nat.toDigits_ne_nil
  next => rw [hparts, groupsOctets?_toDigits h]

theorem exists_ipv6_text {octets : List UInt8} (h : octets.length = 16) :
    ∃ text, ipv6Octets? text = some octets := by
  obtain ⟨groups, hlength, hsmall, hoctets⟩ := exists_groups 8 h
  have hne : groups ≠ [] := by
    rintro rfl
    cases hlength
  refine ⟨groupsText groups, ?_⟩
  unfold ipv6Octets?
  rw [cutDoubleColon_groupsText hne]
  simp only [sideOctets?_groupsText hne hsmall, hoctets, h, if_true, Option.bind_eq_bind,
    Option.bind_some]

end Printing

end AccessList.Proofs.AddressSpellings
