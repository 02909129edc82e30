import AccessList.Proofs.FittingKinds

/-!
How the kind that fits depends on the qualifiers. A kind fits if it refuses none of them while
each kind that is tried before it refuses one. References are refused by no kind, so only the
other qualifiers count, in any order and however often each is named. Where there are fewer of
these the kind that fits is the same or one that is tried earlier.
-/
namespace AccessList.Proofs.FittingOrder

open AttributeEffects Fields FittingKinds Qualifiers Roles

/-- The place of a kind in the order in which kinds are tried: IPv4 comes first, MAC last. -/
def rank : Kind → Nat
  | .ipv4 => 0
  | .ipv6 => 1
  | .mac => 2

theorem rank_eq_idxOf (k : Kind) : rank k = Kind.all.idxOf k := by
  cases k <;> rfl

/-- A kind takes all qualifiers, and every kind before it refuses one. -/
structure Fits (qs : List Qualifier) (k : Kind) : Prop where
  takes : ∀ q ∈ qs, role k q ≠ .refused
  first : ∀ other, rank other < rank k → ∃ q ∈ qs, role other q = .refused

/-- All that the first qualifiers match in a packet, the second ones match too. -/
def Within (qs more : List Qualifier) : Prop :=
  ∀ q ∈ qs, q.isReference = false → q ∈ more

theorem not_reference_of_refused {k : Kind} {q : Qualifier} (h : role k q = .refused) :
    q.isReference = false :=
  not_reference_of_not_binding (by rw [h]; nofun)

theorem not_holds_iff {k : Kind} {qs : List Qualifier} :
    holds k qs = false ↔ ∃ q ∈ qs, role k q = .refused := by
  rw [← Bool.not_eq_true, holds_iff]
  push Not
  rfl

theorem exists_refused_of_within {k : Kind} {qs more : List Qualifier} (h : Within qs more)
    (hrefused : ∃ q ∈ qs, role k q = .refused) : ∃ q ∈ more, role k q = .refused := by
  obtain ⟨q, hq, hrole⟩ := hrefused
  exact ⟨q, h q hq (not_reference_of_refused hrole), hrole⟩

/-- What stands before an element in a list has a smaller index. -/
theorem idxOf_lt_iff_mem {α : Type} [DecidableEq α] {before after : List α} {a b : α}
    (h : b ∉ before) :
    (before ++ b :: after).idxOf a < (before ++ b :: after).idxOf b ↔ a ∈ before := by
  rw [List.idxOf_append, List.idxOf_append, if_neg h, List.idxOf_cons_self, Nat.zero_add]
  by_cases ha : a ∈ before
  · rw [if_pos ha]
    exact iff_of_true (List.idxOf_lt_length_of_mem ha) ha
  · rw [if_neg ha]
    exact iff_of_false (by omega) ha

theorem fits_of_fitting {qs : List Qualifier} {k : Kind} (h : fitting? qs = some k) :
    Fits qs k := by
  obtain ⟨hholds, before, after, hall, hbefore⟩ := List.find?_eq_some_iff_append.mp h
  have hk : k ∉ before := by
    intro hmem
    have hnot := hbefore k hmem
    rw [hholds] at hnot
    cases hnot
  refine ⟨holds_iff.mp hholds, fun other hother => ?_⟩
  rw [rank_eq_idxOf, rank_eq_idxOf, hall, idxOf_lt_iff_mem hk] at hother
  exact not_holds_iff.mp (by simpa using hbefore other hother)

theorem fitting_of_fits {qs : List Qualifier} {k : Kind} (h : Fits qs k) :
    fitting? qs = some k := by
  obtain ⟨before, after, hall, hk⟩ := List.eq_append_cons_of_mem (Kind.mem_all k)
  -- The list is split at the first `k`, so the kinds before it are those of a smaller rank.
  refine List.find?_eq_some_iff_append.mpr
    ⟨holds_iff.mpr h.takes, before, after, hall, fun other hother => ?_⟩
  have hrank : rank other < rank k := by
    rw [rank_eq_idxOf, rank_eq_idxOf, hall, idxOf_lt_iff_mem hk]
    exact hother
  rw [not_holds_iff.mpr (h.first other hrank)]
  rfl

theorem fitting_eq_some_iff {qs : List Qualifier} {k : Kind} :
    fitting? qs = some k ↔ Fits qs k :=
  ⟨fits_of_fitting, fitting_of_fits⟩

theorem fitting_eq_none_iff {qs : List Qualifier} :
    fitting? qs = none ↔ ∀ k, ∃ q ∈ qs, role k q = .refused := by
  constructor
  · exact exists_refused_of_unfit
  · intro h
    cases hfit : fitting? qs with
    | none => rfl
    | some k =>
      obtain ⟨q, hq, hrefused⟩ := h k
      exact absurd hrefused (role_of_fitting hfit q hq)

theorem rank_injective {k k' : Kind} (h : rank k = rank k') : k = k' := by
  rw [rank_eq_idxOf, rank_eq_idxOf] at h
  exact (List.idxOf_inj (Kind.mem_all k)).mp h

section Within
variable {qs more : List Qualifier} {k : Kind}

theorem takes_of_within (h : Within qs more) (hmore : fitting? more = some k) :
    ¬ ∃ q ∈ qs, role k q = .refused := by
  intro hrefused
  obtain ⟨q, hq, hrole⟩ := exists_refused_of_within h hrefused
  exact role_of_fitting hmore q hq hrole

theorem unfit_of_within (h : Within qs more) (hunfit : fitting? qs = none) :
    fitting? more = none :=
  fitting_eq_none_iff.mpr fun k =>
    exists_refused_of_within h (fitting_eq_none_iff.mp hunfit k)

/-- A kind before the one that fits the fewer qualifiers refuses one of them, so it does not
fit the others either. -/
theorem fitting_of_within (h : Within qs more) (hmore : fitting? more = some k) :
    ∃ k', fitting? qs = some k' ∧ rank k' ≤ rank k := by
  cases hfit : fitting? qs with
  | none => exact absurd (fitting_eq_none_iff.mp hfit k) (takes_of_within h hmore)
  | some k' =>
    refine ⟨k', rfl, Nat.le_of_not_lt fun hlater => ?_⟩
    exact takes_of_within h hmore ((fits_of_fitting hfit).first k hlater)

theorem fitting_eq_of_within (h : Within qs more) (h' : Within more qs) :
    fitting? qs = fitting? more := by
  cases hmore : fitting? more with
  | none => exact unfit_of_within h' hmore
  | some k =>
    obtain ⟨k', hfit, hle⟩ := fitting_of_within h hmore
    obtain ⟨k'', hmore', hle'⟩ := fitting_of_within h' hfit
    rw [hmore] at hmore'
    cases hmore'
    rw [hfit, rank_injective (Nat.le_antisymm hle hle')]

end Within

/-- The kind that fits is the first that takes all qualifiers. It is the same for qualifiers
that differ in references only, and with fewer others it is the same or an earlier one. -/
theorem fitting_first_and_monotone (qs more : List Qualifier) :
    ((∀ k, fitting? qs = some k ↔ Fits qs k) ∧
      (fitting? qs = none ↔ ∀ k, ∃ q ∈ qs, role k q = .refused)) ∧
    (Within qs more → Within more qs → fitting? qs = fitting? more) ∧
    (Within qs more →
      (∀ k, fitting? more = some k → ∃ k', fitting? qs = some k' ∧ rank k' ≤ rank k) ∧
      (fitting? qs = none → fitting? more = none)) :=
  ⟨⟨fun _ => fitting_eq_some_iff, fitting_eq_none_iff⟩, fitting_eq_of_within,
    fun hwithin => ⟨fun _ hmore => fitting_of_within hwithin hmore, unfit_of_within hwithin⟩⟩

/-- A VLAN tag and a MAC address make a MAC table of what would fit an IPv4 table. -/
theorem fitting_first_and_monotone_tagged :
    (Within [.outPort, .etherType, .etherType] [.outerVlanPri, .etherType, .srcMac] ∧
      fitting? [.outerVlanPri, .etherType, .srcMac] = some .mac ∧
      (∃ k', fitting? [.outPort, .etherType, .etherType] = some k' ∧ rank k' ≤ rank .mac) ∧
      fitting? [.outPort, .etherType, .etherType] = some .ipv4) ∧
    (Within [.ttl, .inPort, .srcMac] [.srcMac, .ttl, .srcMac] ∧
      Within [.srcMac, .ttl, .srcMac] [.ttl, .inPort, .srcMac] ∧
      fitting? [.ttl, .inPort, .srcMac] = fitting? [.srcMac, .ttl, .srcMac] ∧
      fitting? [.ttl, .inPort, .srcMac] = none) := by
  have hfewer : Within [.outPort, .etherType, .etherType] [.outerVlanPri, .etherType, .srcMac] := by
    unfold Within
    decide
  have hmac : fitting? [.outerVlanPri, .etherType, .srcMac] = some .mac := by decide
  have hthere : Within [.ttl, .inPort, .srcMac] [.srcMac, .ttl, .srcMac] := by
    unfold Within
    decide
  have hback : Within [.srcMac, .ttl, .srcMac] [.ttl, .inPort, .srcMac] := by
    unfold Within
    decide
  exact ⟨⟨hfewer, hmac, ((fitting_first_and_monotone _ _).2.2 hfewer).1 .mac hmac, by decide⟩,
    hthere, hback, (fitting_first_and_monotone _ _).2.1 hthere hback, by decide⟩

end AccessList.Proofs.FittingOrder
