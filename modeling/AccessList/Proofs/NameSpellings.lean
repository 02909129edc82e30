import AccessList.Proofs.MatchDocuments
import AccessList.Verdicts
import Mathlib.Data.List.Forall2

/-!
Names as they may be written. Letters keep their case or lose it, and a few signs stand for
capitals: a dotless i, a long s and ligatures. A text is read as a name if it is the name
written in this way, so it names one thing at most; any other text is refused in a notice that
quotes it. Only the characters of names matter: an upper case that treats all others as it
likes reads the same.
-/
namespace AccessList.Proofs.NameSpellings

open Casing MatchDocuments Qualifiers Verdicts

/-- A character and the capitals that it stands for. -/
abbrev Sign := Char × List Char

/-- A name is written letter after letter, in capitals or not, or with a sign for some. -/
inductive Written (signs : List Sign) : List Char → List Char → Prop
  | done : Written signs [] []
  | same {c : Char} {name text : List Char} (rest : Written signs name text) :
      Written signs (c :: name) (c :: text)
  | lower {c : Char} {name text : List Char} (rest : Written signs name text) :
      Written signs (c :: name) (c.toLower :: text)
  | sign {s : Sign} {name text : List Char} (known : s ∈ signs) (rest : Written signs name text) :
      Written signs (s.2 ++ name) (s.1 :: text)

/-- The signs that stand for capitals. -/
def allSigns : List Sign :=
  [('ß', ['S', 'S']), ('ı', ['I']), ('ſ', ['S']), ('ﬀ', ['F', 'F']), ('ﬁ', ['F', 'I']),
    ('ﬂ', ['F', 'L']), ('ﬃ', ['F', 'F', 'I']), ('ﬄ', ['F', 'F', 'L']), ('ﬅ', ['S', 'T']),
    ('ﬆ', ['S', 'T'])]

/-- The signs that qualifiers can be written with: none has an S or an F twice in a row. -/
def nameSigns : List Sign :=
  [('ı', ['I']), ('ſ', ['S']), ('ﬁ', ['F', 'I']), ('ﬂ', ['F', 'L']), ('ﬅ', ['S', 'T']),
    ('ﬆ', ['S', 'T'])]

def nameCharacters : List Char :=
  ['A', 'B', 'C', 'D', 'E', 'F', 'G', 'H', 'I', 'J', 'K', 'L', 'M', 'N', 'O', 'P', 'Q', 'R', 'S',
    'T', 'U', 'V', 'W', 'X', 'Y', 'Z', '0', '1', '2', '3', '4', '5', '6', '7', '8', '9', '_']

/-- The same text but for the case of some letters. -/
def CaseVariant (name text : List Char) : Prop :=
  List.Forall₂ (fun c d => d = c ∨ d = c.toLower) name text

/-- Any upper case that agrees with ours wherever either is made of the characters of names. -/
def UpperCase (up : Char → List Char) : Prop :=
  ∀ c, up c = capitals c ∨
    (∃ d ∈ up c, d ∉ nameCharacters) ∧ ∃ d ∈ capitals c, d ∉ nameCharacters

/-- The signs are enough for a name that is made of the characters of names. -/
structure Suffices (signs : List Sign) (name : List Char) : Prop where
  plain : name ⊆ nameCharacters
  known : ∀ s ∈ signs, s ∈ allSigns
  occurring : ∀ s ∈ allSigns, s.2 <:+: name → s ∈ signs

section Spelling
variable {signs fewer : List Sign} {name text : List Char}

theorem capitals_of_plain {c : Char} (h : c ∈ nameCharacters) :
    capitals c = [c] ∧ capitals c.toLower = [c] := by
  have hall : nameCharacters.all fun c => capitals c = [c] ∧ capitals c.toLower = [c] := by
    decide
  exact of_decide_eq_true (List.all_eq_true.mp hall c h)

theorem capitals_of_sign : ∀ s ∈ allSigns, capitals s.1 = s.2 := by
  decide

theorem sign_or_capital (c : Char) : (c, capitals c) ∈ allSigns ∨ capitals c = [c.toUpper] := by
  unfold capitals
  split
  case h_11 => exact Or.inr rfl
  all_goals exact Or.inl (by decide)

theorem eq_or_lower (c : Char) : c = c.toUpper ∨ c = c.toUpper.toLower := by
  by_cases hletter : 'a'.val ≤ c.val ∧ c.val ≤ 'z'.val
  · obtain ⟨hlow, hhigh⟩ : 97 ≤ c.toNat ∧ c.toNat ≤ 122 := hletter
    -- Only these letters have another upper case.
    have hletters : ∀ n < 123, 97 ≤ n → Char.ofNat n = (Char.ofNat n).toUpper.toLower := by
      decide
    have hlower := hletters c.toNat (Nat.lt_succ_of_le hhigh) hlow
    rw [Char.ofNat_toNat] at hlower
    exact Or.inr hlower
  · have hkept : c.toUpper = c := dif_neg hletter
    exact Or.inl hkept.symm

theorem upper_of_written (hplain : name ⊆ nameCharacters)
    (h : Written allSigns name text) : upper text = name := by
  induction h with
  | done => rfl
  | @same c name text rest ih =>
    obtain ⟨hc, hname⟩ := List.cons_subset.mp hplain
    rw [upper_cons, (capitals_of_plain hc).1, ih hname, List.singleton_append]
  | @lower c name text rest ih =>
    obtain ⟨hc, hname⟩ := List.cons_subset.mp hplain
    rw [upper_cons, (capitals_of_plain hc).2, ih hname, List.singleton_append]
  | @sign s name text known rest ih =>
    rw [upper_cons, capitals_of_sign s known, ih (List.append_subset.mp hplain).2]

theorem written_upper (text : List Char) : Written allSigns (upper text) text := by
  induction text with
  | nil => exact .done
  | cons c rest ih =>
    rw [upper_cons]
    rcases sign_or_capital c with hsign | hcapital
    · exact .sign hsign ih
    · rw [hcapital, List.singleton_append]
      have hletter := eq_or_lower c
      generalize c.toUpper = letter at hletter
      rcases hletter with rfl | rfl
      · exact .same ih
      · exact .lower ih

/-- Only signs for letters that follow each other in the name are used. -/
theorem Written.restrict (h : Written signs name text)
    (hoccurring : ∀ s ∈ signs, s.2 <:+: name → s ∈ fewer) : Written fewer name text := by
  induction h with
  | done => exact .done
  | same rest ih => exact .same (ih fun s hs hwithin => hoccurring s hs (List.infix_cons hwithin))
  | lower rest ih => exact .lower (ih fun s hs hwithin => hoccurring s hs (List.infix_cons hwithin))
  | @sign s name text known rest ih =>
    refine .sign (hoccurring s known (List.prefix_append s.2 name).isInfix) (ih ?_)
    intro other hother hwithin
    exact hoccurring other hother (hwithin.trans (List.suffix_append s.2 name).isInfix)

theorem written_iff (h : Suffices signs name) : Written signs name text ↔ upper text = name := by
  constructor
  · intro hwritten
    exact upper_of_written h.plain (hwritten.restrict fun s hs _ => h.known s hs)
  · rintro rfl
    exact (written_upper text).restrict h.occurring

/-- Without signs only the case is free. -/
theorem written_nil_iff : Written [] name text ↔ CaseVariant name text := by
  constructor
  · intro h
    induction h with
    | done => exact .nil
    | same rest ih => exact .cons (Or.inl rfl) ih
    | lower rest ih => exact .cons (Or.inr rfl) ih
    | sign known => cases known
  · intro h
    induction h with
    | nil => exact .done
    | cons hletter _ ih =>
      rcases hletter with rfl | rfl
      · exact .same ih
      · exact .lower ih

/-- Every character of a text is a letter, in capitals or not, or a sign. -/
theorem letter_or_sign {d : Char} (h : Written signs name text) (hd : d ∈ text) :
    d ∈ name ∨ d ∈ name.map Char.toLower ∨ d ∈ signs.map Prod.fst := by
  induction h with
  | done => cases hd
  | @same c name text rest ih =>
    rcases List.mem_cons.mp hd with rfl | hlater
    · exact Or.inl List.mem_cons_self
    · exact (ih hlater).imp (List.mem_cons_of_mem c)
        (Or.imp_left (List.mem_cons_of_mem c.toLower))
  | @lower c name text rest ih =>
    rcases List.mem_cons.mp hd with rfl | hlater
    · exact Or.inr (Or.inl List.mem_cons_self)
    · exact (ih hlater).imp (List.mem_cons_of_mem c)
        (Or.imp_left (List.mem_cons_of_mem c.toLower))
  | @sign s name text known rest ih =>
    rcases List.mem_cons.mp hd with rfl | hlater
    · exact Or.inr (Or.inr (List.mem_map_of_mem known))
    · rw [List.map_append]
      exact (ih hlater).imp (List.mem_append_right s.2)
        (Or.imp_left (List.mem_append_right (s.2.map Char.toLower)))

theorem flatMap_eq_iff {up : Char → List Char} (hup : UpperCase up)
    (hplain : name ⊆ nameCharacters) : text.flatMap up = name ↔ upper text = name := by
  by_cases hsame : ∀ c ∈ text, up c = capitals c
  · rw [upper, List.flatMap_congr hsame]
  · obtain ⟨c, hc, hne⟩ : ∃ c ∈ text, up c ≠ capitals c := by
      simpa only [not_forall, exists_prop] using hsame
    -- Where the two differ, neither text is made of the characters of names.
    obtain ⟨⟨d, hd, hforeign⟩, ⟨d', hd', hforeign'⟩⟩ := (hup c).resolve_left hne
    constructor
    · rintro rfl
      exact absurd (hplain (List.mem_flatMap_of_mem hc hd)) hforeign
    · rintro rfl
      exact absurd (hplain (List.mem_flatMap_of_mem hc hd')) hforeign'

end Spelling

/-- How a text is read as the name of a thing: when it is read and as what, the notice about a
text that is not read, that a text names one thing, and that any upper case reads the same. -/
structure ReadByName {α : Type} (read : String → Except String α) (name : α → String)
    (notice : String) (spelled : α → String → Prop) : Prop where
  named : ∀ text a, read text = .ok a ↔ spelled a text
  unnamed : ∀ text, (∀ a, ¬ spelled a text) → read text = .error (notice ++ text)
  unique : ∀ text a a', spelled a text → spelled a' text → a = a'
  anyUpper : ∀ up, UpperCase up →
    ∀ text a, read text = .ok a ↔ text.toList.flatMap up = (name a).toList

section Reading
variable {α : Type} {name : α → String} {all : List α} {text : String} {a : α}

theorem readName_eq_ok_iff {notice : String → String} (hall : ∀ a, a ∈ all)
    (hinjective : Function.Injective name) :
    readName name all notice text = .ok a ↔ upper text.toList = (name a).toList := by
  unfold readName
  split
  next found hfind =>
    have hfound := List.find?_some hfind
    rw [decide_eq_true_iff] at hfound
    rw [← hfound, String.toList_inj, hinjective.eq_iff, Except.ok.injEq]
  next hfind =>
    have hnone := List.find?_eq_none.mp hfind a (hall a)
    rw [decide_eq_true_iff, eq_comm] at hnone
    exact ⟨nofun, fun h => absurd h hnone⟩

/-- Names that the signs suffice for are read as they are written with these. -/
theorem readByName_of_suffices {notice : String} {signs : List Sign} (hall : ∀ a, a ∈ all)
    (hinjective : Function.Injective name) (hsigns : ∀ a, Suffices signs (name a).toList) :
    ReadByName (readName name all (notice ++ ·)) name notice
      (fun a text => Written signs (name a).toList text.toList) where
  named text a := (readName_eq_ok_iff hall hinjective).trans (written_iff (hsigns a)).symm
  unnamed text hnone := by
    cases hfind : find? name all text with
    | none => rw [readName, hfind]
    | some a =>
      have hread : readName name all (notice ++ ·) text = .ok a := by rw [readName, hfind]
      have hupper := (readName_eq_ok_iff hall hinjective).mp hread
      exact absurd ((written_iff (hsigns a)).mpr hupper) (hnone a)
  unique text a a' h h' := by
    have hname : (name a).toList = (name a').toList :=
      ((written_iff (hsigns a)).mp h).symm.trans ((written_iff (hsigns a')).mp h')
    exact hinjective (String.toList_injective hname)
  anyUpper up hup text a :=
    (readName_eq_ok_iff hall hinjective).trans (flatMap_eq_iff hup (hsigns a).plain).symm

end Reading

theorem qualifier_name_injective : Function.Injective Qualifier.name := by
  intro q q' h
  have hread := ofText?_name q
  rw [h, ofText?_name q'] at hread
  exact (Option.some.inj hread).symm

theorem action_name_injective : Function.Injective PacketAction.name := by
  intro a a' h
  cases a <;> cases a' <;> first | rfl | exact absurd h (by decide)

theorem suffices_for_qualifier (q : Qualifier) : Suffices nameSigns q.name.toList where
  plain := by cases q <;> decide +kernel
  known := by decide
  occurring := by cases q <;> decide +kernel

theorem suffices_for_action (a : PacketAction) : Suffices [] a.name.toList where
  plain := by cases a <;> decide +kernel
  known := nofun
  occurring := by cases a <;> decide +kernel

/-- Qualifiers are read in any case and with ligatures, packet actions in any case only. -/
theorem names_read_in_any_case :
    ReadByName Qualifier.ofText Qualifier.name "Unknown ACL qualifier: "
        (fun q text => Written nameSigns q.name.toList text.toList) ∧
      ReadByName PacketAction.ofText PacketAction.name "Unknown packet action: "
        (fun a text => CaseVariant a.name.toList text.toList) := by
  constructor
  · exact readByName_of_suffices Qualifier.mem_all qualifier_name_injective suffices_for_qualifier
  · simp only [← written_nil_iff]
    exact readByName_of_suffices PacketAction.mem_all action_name_injective suffices_for_action

example : Qualifier.ofText "iPV6_ﬂow_label" = .ok .ipv6FlowLabel := by decide

/-- The ligature of F and I cannot be left out: two names have these letters in a row. -/
theorem read_beyond_other_signs :
    ¬ ∀ text q, Qualifier.ofText text = .ok q ↔
      Written [('ı', ['I']), ('ſ', ['S']), ('ﬂ', ['F', 'L']), ('ﬅ', ['S', 'T']), ('ﬆ', ['S', 'T'])]
        q.name.toList text.toList := by
  intro h
  have hread : Qualifier.ofText "OUTER_VLAN_Cﬁ" = .ok .outerVlanCfi := by decide
  have hmem : 'ﬁ' ∈ "OUTER_VLAN_Cﬁ".toList := by decide
  rcases letter_or_sign ((h _ _).mp hread) hmem with hletter | hlower | hsign
  · exact absurd hletter (by decide)
  · exact absurd hlower (by decide)
  · exact absurd hsign (by decide)

end AccessList.Proofs.NameSpellings
