import AccessList.AddressTexts
import AccessList.Proofs.NumeralTexts

/-!
The texts of networks: the text of an address, alone or before a slash and a count of leading
bits. The first slash is the one that counts. A count that is spelled and larger than the
number of bits is refused, as too long where it can be read at all.
-/
namespace AccessList.Proofs.NetworkTexts

open AddressTexts Numerals NumeralTexts

/-- A network with that address text and that many leading bits. -/
inductive Network (bits : Nat) (address : List Char) : List Char → Nat → Prop
  | whole : Network bits address address bits
  | leading (digits : List Char) (n : Nat) (spelled : Spells 10 digits n) (fits : n ≤ bits) :
      Network bits address (address ++ '/' :: digits) n

theorem le_of_network {bits n : Nat} {address cs : List Char} (h : Network bits address cs n) :
    n ≤ bits := by
  cases h with
  | whole => exact Nat.le_refl bits
  | leading _ _ _ fits => exact fits

theorem cutSlash_of_not_mem {cs : List Char} (h : '/' ∉ cs) : cutSlash cs = (cs, none) := by
  fun_induction cutSlash cs with
  | case1 => rfl
  | case2 rest => exact absurd List.mem_cons_self h
  | case3 c rest hslash ih => rw [ih fun hmem => h (List.mem_cons_of_mem c hmem)]

theorem cutSlash_append {address : List Char} (h : '/' ∉ address) (rest : List Char) :
    cutSlash (address ++ '/' :: rest) = (address, some rest) := by
  induction address with
  | nil => rfl
  | cons c address ih =>
    have hc : c ≠ '/' := fun heq => h (heq ▸ List.mem_cons_self)
    have hcut := ih fun hmem => h (List.mem_cons_of_mem c hmem)
    rw [List.cons_append, cutSlash, hcut]
    exact fun heq => hc heq

section Reading
variable {bits n : Nat} {cs address digits : List Char}

theorem network_of_not_mem (h : '/' ∉ cs) : network bits cs = .ok (cs, bits) := by
  unfold network
  rw [cutSlash_of_not_mem h]

/-- Counts are read as octets. -/
theorem network_of_spells (h : '/' ∉ address) (spelled : Spells 10 digits n)
    (fits : n ≤ bits) (hbits : bits ≤ 255) :
    network bits (address ++ '/' :: digits) = .ok (address, n) := by
  have hread : n ≤ 255 := by omega
  have hlong : ¬ bits < n := by omega
  unfold network
  simp only [cutSlash_append h, read_of_spells spelled, if_pos hread, if_neg hlong]

theorem network_of_long (h : '/' ∉ address) (spelled : Spells 10 digits n) (long : bits < n) :
    network bits (address ++ '/' :: digits) =
      .error (if n ≤ 255 then .tooLong n bits else .unreadable digits .tooLarge) := by
  unfold network
  simp only [cutSlash_append h, read_of_spells spelled]
  by_cases hread : n ≤ 255
  · simp only [if_pos hread, if_pos long]
  · simp only [if_neg hread]

theorem network_eq_ok_iff (hbits : bits ≤ 255) :
    network bits cs = .ok (address, n) ↔ '/' ∉ address ∧ Network bits address cs n := by
  constructor
  · intro h
    by_cases hslash : '/' ∈ cs
    · obtain ⟨before, digits, rfl, hfree⟩ := List.eq_append_cons_of_mem hslash
      unfold network at h
      simp only [cutSlash_append hfree] at h
      split at h
      next => cases h
      next count hread =>
        split at h
        next => cases h
        next hlong =>
          cases h
          have hspelled := (read_eq_ok_iff.mp hread).1
          exact ⟨hfree, .leading digits n hspelled (by omega)⟩
    · rw [network_of_not_mem hslash] at h
      cases h
      exact ⟨hslash, .whole⟩
  · rintro ⟨hfree, hnetwork⟩
    cases hnetwork with
    | whole => exact network_of_not_mem hfree
    | leading digits _ spelled fits => exact network_of_spells hfree spelled fits hbits

end Reading

end AccessList.Proofs.NetworkTexts
