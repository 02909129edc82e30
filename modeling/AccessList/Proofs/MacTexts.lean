import AccessList.Matches
import AccessList.Proofs.AddressSpellings
import AccessList.Proofs.LeadingBits

/-!
MAC addresses as they are written. A text is cut at each colon and dash, in one way only, and
is read if that gives six parts that each spell an octet in hexadecimal. Octets in any spelling
and between any of the two separators are read back. A text that is not read is refused for the
first of its first six parts that is no octet, and for their number if there is none.
-/
namespace AccessList.Proofs.MacTexts

open AddressSpellings AddressTexts Addresses LeadingBits Matches Numerals NumeralTexts

/-- A text is cut at each of its separators, into parts that hold none. -/
inductive Cut (separates : Char → Bool) : List Char → List (List Char) → Prop
  | whole {part : List Char} (free : ∀ c ∈ part, separates c = false) : Cut separates part [part]
  | first {part rest : List Char} {separator : Char} {parts : List (List Char)}
      (free : ∀ c ∈ part, separates c = false) (cut : separates separator = true)
      (later : Cut separates rest parts) :
      Cut separates (part ++ separator :: rest) (part :: parts)

/-- A part, and further parts with a separator before each. -/
def joined (part : List Char) (more : List (Char × List Char)) : List Char :=
  part ++ more.flatMap fun next => next.1 :: next.2

section Cutting
variable {separates : Char → Bool} {cs : List Char} {parts : List (List Char)}

theorem splitAt_of_cut (h : Cut separates cs parts) : splitAt separates cs = parts := by
  rw [splitAt_eq_splitOnP]
  induction h with
  | whole free => exact List.splitOnP_eq_singleton free
  | first free cut later ih =>
    rw [List.splitOnP_append_cons_of_forall_mem free _ cut, ih]

theorem cut_splitAt (separates : Char → Bool) (cs : List Char) :
    Cut separates cs (splitAt separates cs) := by
  induction cs with
  | nil => exact .whole nofun
  | cons c rest ih =>
    unfold AddressTexts.splitAt
    by_cases hc : separates c = true
    · rw [if_pos hc]
      exact @Cut.first separates [] rest c _ nofun hc ih
    · rw [if_neg hc]
      have hfree {part : List Char} (free : ∀ d ∈ part, separates d = false) :
          ∀ d ∈ c :: part, separates d = false := by
        intro d hd
        rcases List.mem_cons.mp hd with rfl | hd
        · exact Bool.eq_false_of_not_eq_true hc
        · exact free d hd
      -- The character joins the first part, which stays whole.
      generalize splitAt separates rest = parts at ih
      cases ih with
      | whole free => exact .whole (hfree free)
      | first free cut later => exact .first (hfree free) cut later

theorem cut_iff : Cut separates cs parts ↔ splitAt separates cs = parts := by
  refine ⟨splitAt_of_cut, ?_⟩
  rintro rfl
  exact cut_splitAt separates cs

theorem cut_joined {part : List Char} {more : List (Char × List Char)}
    (hfree : ∀ c ∈ part, separates c = false)
    (hmore : ∀ next ∈ more, separates next.1 = true ∧ ∀ c ∈ next.2, separates c = false) :
    Cut separates (joined part more) (part :: more.map Prod.snd) := by
  induction more generalizing part with
  | nil =>
    unfold joined
    rw [List.flatMap_nil, List.append_nil]
    exact .whole hfree
  | cons next more ih =>
    obtain ⟨hcut, hnext⟩ := hmore next List.mem_cons_self
    refine .first hfree hcut (ih hnext fun other hother => ?_)
    exact hmore other (List.mem_cons_of_mem next hother)

theorem free_of_cut (h : Cut separates cs parts) :
    ∀ part ∈ parts, ∀ c ∈ part, separates c = false := by
  induction h with
  | whole free =>
    intro part hpart
    rw [List.mem_singleton.mp hpart]
    exact free
  | first free cut later ih =>
    intro part hpart
    rcases List.mem_cons.mp hpart with rfl | hlater
    · exact free
    · exact ih part hlater

end Cutting

/-- A part that spells an octet in hexadecimal. -/
def Writes (part : List Char) (b : UInt8) : Prop := Spells 16 part b.toNat

def IsOctet (part : List Char) : Prop := ∃ b, Writes part b

/-- The first of so many parts that is no octet, and why it is none. -/
def FirstBad (count : Nat) (part : List Char) (cause : NumeralError)
    (parts : List (List Char)) : Prop :=
  ∃ before after, parts = before ++ part :: after ∧ before.length < count ∧
    (∀ other ∈ before, IsOctet other) ∧ Refused 16 255 part cause

/-- Why parts are not so many octets. -/
def Flawed (count : Nat) (parts : List (List Char)) : MacError → Prop
  | .tooShort => parts.length < count ∧ ∀ part ∈ parts, IsOctet part
  | .badOctet part cause => FirstBad count part cause parts
  | .tooLong => count < parts.length ∧ ∀ part ∈ parts.take count, IsOctet part

section Octets
variable {count : Nat} {part : List Char} {parts before : List (List Char)} {b : UInt8}
  {octets : List UInt8} {e : MacError}

theorem read_of_writes (h : Writes part b) : read 16 255 part = .ok b.toNat :=
  read_eq_ok_iff.mpr ⟨h, Nat.le_of_lt_succ b.toNat_lt⟩

theorem isOctet_of_read {n : Nat} (h : read 16 255 part = .ok n) : IsOctet part := by
  obtain ⟨hspells, hle⟩ := read_eq_ok_iff.mp h
  have hvalue : (UInt8.ofNat n).toNat = n := UInt8.toNat_ofNat_of_lt' (Nat.lt_succ_of_le hle)
  refine ⟨UInt8.ofNat n, ?_⟩
  rw [Writes, hvalue]
  exact hspells

theorem not_isOctet_iff : ¬ IsOctet part ↔ ∃ cause, Refused 16 255 part cause := by
  constructor
  · intro h
    cases hread : read 16 255 part with
    | ok n => exact absurd (isOctet_of_read hread) h
    | error cause => exact ⟨cause, read_eq_error_iff.mp hread⟩
  · rintro ⟨cause, hrefused⟩ ⟨b, hb⟩
    have hread := read_of_writes hb
    rw [read_eq_error_iff.mpr hrefused] at hread
    cases hread

/-- Octets are read one after the other, and the rest is read as if they were not there. -/
theorem macOctets_append (h : List.Forall₂ Writes before octets) (count : Nat)
    (parts : List (List Char)) :
    macOctets (before.length + count) (before ++ parts) =
      (macOctets count parts).map (octets ++ ·) := by
  induction h with
  | nil =>
    rw [List.length_nil, Nat.zero_add, List.nil_append]
    cases macOctets count parts <;> rfl
  | @cons part b before octets hpart hrest ih =>
    rw [List.length_cons, Nat.add_right_comm, List.cons_append, macOctets, read_of_writes hpart]
    simp only [ih, UInt8.ofNat_toNat]
    cases macOctets count parts <;> rfl

theorem exists_octets (h : ∀ part ∈ parts, IsOctet part) :
    ∃ octets, List.Forall₂ Writes parts octets := by
  induction parts with
  | nil => exact ⟨[], .nil⟩
  | cons part rest ih =>
    obtain ⟨b, hb⟩ := h part List.mem_cons_self
    obtain ⟨octets, hoctets⟩ := ih fun other hother => h other (List.mem_cons_of_mem part hother)
    exact ⟨b :: octets, .cons hb hoctets⟩

theorem macOctets_of_writes (h : List.Forall₂ Writes parts octets) :
    macOctets parts.length parts = .ok octets := by
  have hrun := macOctets_append h 0 []
  rw [Nat.add_zero, List.append_nil] at hrun
  rw [hrun]
  exact congrArg Except.ok (List.append_nil octets)

theorem macOctets_of_flawed (h : Flawed count parts e) : macOctets count parts = .error e := by
  cases e with
  | tooShort =>
    obtain ⟨hlt, hgood⟩ := h
    obtain ⟨octets, hoctets⟩ := exists_octets hgood
    obtain ⟨missing, rfl⟩ := Nat.exists_eq_add_of_lt hlt
    have hrun := macOctets_append hoctets (missing + 1) []
    rw [List.append_nil] at hrun
    exact hrun
  | badOctet part cause =>
    obtain ⟨before, after, rfl, hlt, hgood, hbad⟩ := h
    obtain ⟨octets, hoctets⟩ := exists_octets hgood
    obtain ⟨missing, rfl⟩ := Nat.exists_eq_add_of_lt hlt
    have hrun := macOctets_append hoctets (missing + 1) (part :: after)
    rw [macOctets, read_eq_error_iff.mpr hbad] at hrun
    exact hrun
  | tooLong =>
    obtain ⟨hlt, hgood⟩ := h
    obtain ⟨octets, hoctets⟩ := exists_octets hgood
    have hrun := macOctets_append hoctets 0 (parts.drop count)
    rw [List.take_append_drop, List.length_take_of_le (Nat.le_of_lt hlt), Nat.add_zero,
      List.drop_eq_getElem_cons hlt] at hrun
    exact hrun

theorem Flawed.later (hpart : IsOctet part) (h : Flawed count parts e) :
    Flawed (count + 1) (part :: parts) e := by
  have hgood {others : List (List Char)} (hothers : ∀ other ∈ others, IsOctet other) :
      ∀ other ∈ part :: others, IsOctet other := List.forall_mem_cons.mpr ⟨hpart, hothers⟩
  cases e with
  | tooShort => exact ⟨Nat.succ_lt_succ h.1, hgood h.2⟩
  | badOctet bad cause =>
    obtain ⟨before, after, rfl, hlt, hbefore, hbad⟩ := h
    exact ⟨part :: before, after, rfl, Nat.succ_lt_succ hlt, hgood hbefore, hbad⟩
  | tooLong => exact ⟨Nat.succ_lt_succ h.1, hgood h.2⟩

theorem octets_or_flawed (count : Nat) (parts : List (List Char)) :
    (parts.length = count ∧ ∃ octets, List.Forall₂ Writes parts octets) ∨
      ∃ e, Flawed count parts e := by
  -- The parts are walked as they are read; the first bad one ends the walk.
  induction count generalizing parts with
  | zero =>
    cases parts with
    | nil => exact Or.inl ⟨rfl, [], .nil⟩
    | cons part rest =>
      exact Or.inr ⟨.tooLong, Nat.succ_pos rest.length, fun other hother => absurd hother nofun⟩
  | succ count ih =>
    cases parts with
    | nil => exact Or.inr ⟨.tooShort, Nat.succ_pos count, nofun⟩
    | cons part rest =>
      by_cases hpart : IsOctet part
      · rcases ih rest with ⟨hlength, octets, hoctets⟩ | ⟨e, hflaw⟩
        · obtain ⟨b, hb⟩ := hpart
          exact Or.inl ⟨congrArg Nat.succ hlength, b :: octets, .cons hb hoctets⟩
        · exact Or.inr ⟨e, hflaw.later hpart⟩
      · obtain ⟨cause, hbad⟩ := not_isOctet_iff.mp hpart
        exact Or.inr ⟨.badOctet part cause, [], rest, rfl, Nat.succ_pos count, nofun, hbad⟩

end Octets

section Addresses
variable {octets : List UInt8}

theorem octets_of_mac (h : octets.length = 6) : (MacAddress.ofOctets octets).octets = octets := by
  have hwidth : 48 = 8 * octets.length := by omega
  have hread := toOctets_ofNat_ofOctets hwidth
  rw [h] at hread
  exact hread

theorem ofOctets_octets (a : MacAddress) : MacAddress.ofOctets a.octets = a := by
  have hwidth : 48 = 8 * 6 := rfl
  exact toOctets_toNat_injective hwidth (octets_of_mac (length_toOctets 6 a.toNat))

end Addresses

/-- What a client is told of a text that should be a MAC address. -/
def told (text : String) : Except String MacAddress := (macOf text).mapError ValueError.message

section Messages
variable {text : String} {parts : List (List Char)} {octets : List UInt8} {e e' : MacError}

/-- A part that is named holds no colon. -/
def Separate : MacError → Prop
  | .badOctet part _ => ':' ∉ part
  | .tooShort | .tooLong => True

theorem message_injective {cause cause' : NumeralError} (h : cause.message = cause'.message) :
    cause = cause' := by
  cases cause <;> cases cause' <;> first | rfl | exact absurd h (by decide)

/-- The texts of the errors tell them apart: the only colon ends the part that a text names. -/
theorem macText_injective (h : Separate e) (htext : macText text e = macText text e') :
    e = e' := by
  unfold macText at htext
  rw [String.ext_iff] at htext
  cases e with
  | tooShort =>
    cases e' with
    | tooShort => rfl
    | badOctet => simp at htext
    | tooLong => simp at htext
  | badOctet part cause =>
    cases e' with
    | tooShort => simp at htext
    | badOctet part' cause' =>
      have hcolon : part ++ ':' :: ' ' :: cause.message.toList =
          part' ++ ':' :: ' ' :: cause'.message.toList := by
        simpa using htext
      -- Neither the part nor what is told of the cause holds a colon.
      have hfree : ':' ∉ ' ' :: cause.message.toList := by cases cause <;> decide
      obtain ⟨rfl, -, hrest⟩ := (List.append_cons_inj_of_notMem h hfree).mp hcolon
      rw [message_injective (String.toList_injective (List.cons.inj hrest).2)]
    | tooLong => simp at htext
  | tooLong =>
    cases e' with
    | tooShort => simp at htext
    | badOctet => simp at htext
    | tooLong => rfl

theorem told_of_octets (hcut : Cut isMacSeparator text.toList parts)
    (h : List.Forall₂ Writes parts octets) (hlength : parts.length = 6) :
    told text = .ok (MacAddress.ofOctets octets) := by
  have hread : mac text.toList = .ok (MacAddress.ofOctets octets) := by
    rw [mac, splitAt_of_cut hcut, ← hlength, macOctets_of_writes h]
    rfl
  rw [told, macOf, hread]
  rfl

theorem told_of_flawed (hcut : Cut isMacSeparator text.toList parts) (h : Flawed 6 parts e) :
    told text = .error (macText text e) := by
  have hread : mac text.toList = .error e := by
    rw [mac, splitAt_of_cut hcut, macOctets_of_flawed h]
    rfl
  rw [told, macOf, hread]
  rfl

theorem separate_of_flawed (hcut : Cut isMacSeparator text.toList parts)
    (h : Flawed 6 parts e) : Separate e := by
  cases e with
  | tooShort => trivial
  | badOctet part cause =>
    obtain ⟨before, after, rfl, -⟩ := h
    intro hcolon
    have hmem := List.mem_append_right before (List.mem_cons_self (a := part) (l := after))
    have hfree := free_of_cut hcut part hmem ':' hcolon
    cases hfree
  | tooLong => trivial

theorem told_eq_error_iff (hcut : Cut isMacSeparator text.toList parts) (e : MacError) :
    told text = .error (macText text e) ↔ Flawed 6 parts e := by
  refine ⟨fun htold => ?_, told_of_flawed hcut⟩
  rcases octets_or_flawed 6 parts with ⟨hlength, octets, hoctets⟩ | ⟨e', hflaw⟩
  · rw [told_of_octets hcut hoctets hlength] at htold
    cases htold
  · rw [told_of_flawed hcut hflaw] at htold
    rw [← macText_injective (separate_of_flawed hcut hflaw) (Except.error.inj htold)]
    exact hflaw

theorem told_eq_ok_iff (hcut : Cut isMacSeparator text.toList parts) (a : MacAddress) :
    told text = .ok a ↔ parts.length = 6 ∧ List.Forall₂ Writes parts a.octets := by
  constructor
  · intro htold
    rcases octets_or_flawed 6 parts with ⟨hlength, octets, hoctets⟩ | ⟨e, hflaw⟩
    · rw [told_of_octets hcut hoctets hlength] at htold
      cases htold
      rw [octets_of_mac (hoctets.length_eq.symm.trans hlength)]
      exact ⟨hlength, hoctets⟩
    · rw [told_of_flawed hcut hflaw] at htold
      cases htold
  · rintro ⟨hlength, hoctets⟩
    rw [told_of_octets hcut hoctets hlength, ofOctets_octets]

end Messages

section Spellings
variable {part : List Char} {b : UInt8}

theorem isMacSeparator_iff (c : Char) : isMacSeparator c = true ↔ c = ':' ∨ c = '-' :=
  decide_eq_true_iff

/-- No octet is cut: neither separator is a digit or a sign. -/
theorem free_of_writes (h : Writes part b) : ∀ c ∈ part, isMacSeparator c = false := by
  obtain ⟨unsigned, digits, hsign, -, hdigits, -⟩ := h
  intro c hc
  rw [Bool.eq_false_iff, Ne, isMacSeparator_iff]
  intro hseparator
  have hvalue : digit? 16 c = none := by rcases hseparator with rfl | rfl <;> decide
  have hplus : c ≠ '+' := by rcases hseparator with rfl | rfl <;> decide
  have hmem : c ∈ unsigned := by
    rcases hsign with rfl | rfl
    · exact hc
    · exact (List.mem_cons.mp hc).resolve_left hplus
  obtain ⟨d, -, hdigit⟩ := exists_of_forall₂ hdigits hmem
  rw [hvalue] at hdigit
  cases hdigit

theorem cut_of_writes {more : List (Char × List Char)} {octets : List UInt8}
    (hmore : ∀ next ∈ more, next.1 = ':' ∨ next.1 = '-')
    (h : List.Forall₂ Writes (part :: more.map Prod.snd) octets) :
    Cut isMacSeparator (joined part more) (part :: more.map Prod.snd) := by
  have hfree : ∀ other ∈ part :: more.map Prod.snd, ∀ c ∈ other, isMacSeparator c = false := by
    intro other hother
    obtain ⟨b, -, hwrites⟩ := exists_of_forall₂ h hother
    exact free_of_writes hwrites
  refine cut_joined (hfree part List.mem_cons_self) fun next hnext => ⟨?_, ?_⟩
  · exact (isMacSeparator_iff next.1).mpr (hmore next hnext)
  · exact hfree next.2 (List.mem_cons_of_mem part (List.mem_map_of_mem hnext))

end Spellings

/-- How a text with these parts is read as a MAC address: which characters cut it and which are
digits, that it is cut in no other way, when it is an address and which, that octets between
separators are read back, that every part that is no octet has a cause, and which error is told
when. -/
structure ReadAsMac (text : String) (parts : List (List Char)) : Prop where
  separators : ∀ c, isMacSeparator c = true ↔ c = ':' ∨ c = '-'
  digits : ∀ c d, digit? 16 c = some d ↔
    d < 16 ∧ (c = Nat.digitChar d ∨ c = (Nat.digitChar d).toUpper)
  cut : ∀ others, Cut isMacSeparator text.toList others ↔ others = parts
  accepted : ∀ a, told text = .ok a ↔ parts.length = 6 ∧ List.Forall₂ Writes parts a.octets
  back : ∀ part more octets, text.toList = joined part more →
    (∀ next ∈ more, next.1 = ':' ∨ next.1 = '-') → octets.length = 6 →
    List.Forall₂ Writes (part :: more.map Prod.snd) octets →
      ∃ a : MacAddress, a.octets = octets ∧ told text = .ok a
  refused : ∀ part, ¬ IsOctet part ↔ ∃ cause, Refused 16 255 part cause
  short : told text = .error ("MAC address " ++ text ++ " is too short") ↔
    parts.length < 6 ∧ ∀ part ∈ parts, IsOctet part
  bad : ∀ part cause,
    told text = .error ("bad MAC byte " ++ String.ofList part ++ ": " ++ cause.message) ↔
      FirstBad 6 part cause parts
  long : told text = .error ("MAC address " ++ text ++ " is too long") ↔
    6 < parts.length ∧ ∀ part ∈ parts.take 6, IsOctet part
  otherwise : (∀ a, told text ≠ .ok a) → ¬ (parts.length < 6 ∧ ∀ part ∈ parts, IsOctet part) →
    (∀ part cause, ¬ FirstBad 6 part cause parts) →
      told text = .error ("MAC address " ++ text ++ " is too long")

/-- Every text is cut in one way and read by what its parts spell. -/
theorem mac_texts_spell_six_octets (text : String) : ∃ parts, ReadAsMac text parts := by
  have hcut := cut_splitAt isMacSeparator text.toList
  refine ⟨splitAt isMacSeparator text.toList, ?_⟩
  exact
    { separators := isMacSeparator_iff
      digits := fun c d => digit?_eq_some_iff (by omega)
      cut := fun others => by rw [cut_iff, eq_comm]
      accepted := told_eq_ok_iff hcut
      back := fun part more octets htext hmore hlength hoctets => by
        have hjoined := cut_of_writes hmore hoctets
        rw [← htext] at hjoined
        refine ⟨MacAddress.ofOctets octets, octets_of_mac hlength, ?_⟩
        exact told_of_octets hjoined hoctets (hoctets.length_eq.trans hlength)
      refused := fun part => not_isOctet_iff
      short := told_eq_error_iff hcut .tooShort
      bad := fun part cause => told_eq_error_iff hcut (.badOctet part cause)
      long := told_eq_error_iff hcut .tooLong
      otherwise := fun hunread hshort hbad => by
        rcases octets_or_flawed 6 (splitAt isMacSeparator text.toList) with
          ⟨hlength, octets, hoctets⟩ | ⟨e, hflaw⟩
        · exact absurd (told_of_octets hcut hoctets hlength) (hunread _)
        · cases e with
          | tooShort => exact absurd hflaw hshort
          | badOctet part cause => exact absurd hflaw (hbad part cause)
          | tooLong => exact told_of_flawed hcut hflaw }

example : told "1:02-+a0:FF-000fe:b" = .ok 0x0102a0fffe0b#48 := by decide

end AccessList.Proofs.MacTexts
