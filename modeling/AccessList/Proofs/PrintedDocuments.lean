import AccessList.JsonPrinter
import AccessList.JsonReader
import Mathlib.Data.List.Basic
import Mathlib.Data.List.TakeWhile

/-!
What is printed can be read. A value whose numbers are whole has a text on one line and one
with a line for each item. Either is scanned to the tokens of the value, and from the tokens
the value is read. A line break after the text changes nothing.
-/
namespace AccessList.Proofs.PrintedDocuments

open Documents JsonPrinter JsonReader JsonTokens Symbols

mutual

/-- A value as it is read, where every string spells its text. -/
def asRead : Json String → Document
  | .null => .null
  | .bool b => .bool b
  | .number literal => .number literal
  | .text t => .text (some t)
  | .array items => .array (itemsAsRead items)
  | .object members => .object (membersAsRead members)

def itemsAsRead : List (Json String) → List Document
  | [] => []
  | item :: items => asRead item :: itemsAsRead items

def membersAsRead : List (String × Json String) → List (Option String × Document)
  | [] => []
  | (key, value) :: members => (some key, asRead value) :: membersAsRead members

end

/-- No number of the value has a sign, a fraction or an exponent. -/
inductive Whole : Json String → Prop
  | null : Whole .null
  | bool (b : Bool) : Whole (.bool b)
  | nat (n : Nat) : Whole (.nat n)
  | text (t : String) : Whole (.text t)
  | array {items : List (Json String)} (whole : ∀ item ∈ items, Whole item) :
      Whole (.array items)
  | object {members : List (String × Json String)} (whole : ∀ m ∈ members, Whole m.2) :
      Whole (.object members)

@[simp] theorem whole_nat (n : Nat) : Whole (.nat n) := .nat n

@[simp] theorem whole_text (t : String) : Whole (.text t) := .text t

@[simp] theorem whole_array_iff {items : List (Json String)} :
    Whole (.array items) ↔ ∀ item ∈ items, Whole item := by
  constructor
  · rintro ⟨⟩
    assumption
  · exact .array

@[simp] theorem whole_object_iff {members : List (String × Json String)} :
    Whole (.object members) ↔ ∀ m ∈ members, Whole m.2 := by
  constructor
  · rintro ⟨⟩
    assumption
  · exact .object

mutual

def tokensOf : Json String → List Token
  | .null => [.plain .null]
  | .bool b => [.plain (.bool b)]
  | .number literal => [.plain (.number literal)]
  | .text t => [.text (some t)]
  | .array [] => [.openArray, .closeArray]
  | .array (item :: items) => .openArray :: (tokensOf item ++ (itemTokens items ++ [.closeArray]))
  | .object [] => [.openObject, .closeObject]
  | .object ((key, value) :: members) =>
    .openObject :: .text (some key) :: .colon ::
      (tokensOf value ++ (memberTokens members ++ [.closeObject]))

/-- The tokens of the items after the first. -/
def itemTokens : List (Json String) → List Token
  | [] => []
  | item :: items => .comma :: (tokensOf item ++ itemTokens items)

def memberTokens : List (String × Json String) → List Token
  | [] => []
  | (key, value) :: members =>
    .comma :: .text (some key) :: .colon :: (tokensOf value ++ memberTokens members)

end

theorem itemsAsRead_eq_map (items : List (Json String)) :
    itemsAsRead items = items.map asRead := by
  induction items with
  | nil => rfl
  | cons item items ih => rw [itemsAsRead, ih, List.map_cons]

-- In these three the recursion is that of `tokensOf` and its companions.
mutual

/-- Whatever is around a value, its tokens complete it. -/
theorem read_tokensOf (v : Json String) (opened : Bool) (context : Context)
    (more : List Token) :
    (tokensOf v ++ more).foldlM Reader.step (.value opened context) =
      more.foldlM Reader.step (context.complete (asRead v)) := by
  match v with
  | .null | .bool _ | .number _ | .text _ => rfl
  | .array [] | .object [] => rfl
  | .array (item :: items) =>
    have hopen : (tokensOf (.array (item :: items)) ++ more).foldlM Reader.step
          (.value opened context) =
        (tokensOf item ++ (itemTokens items ++ .closeArray :: more)).foldlM Reader.step
          (.value true (.array [] context)) := by
      simp only [tokensOf, List.cons_append, List.append_assoc, List.nil_append]
      rfl
    rw [hopen, read_tokensOf item, Context.complete, read_itemTokens items]
    simp only [List.foldlM_cons, Reader.step, List.reverse_append, List.reverse_reverse]
    rfl
  | .object ((key, value) :: members) =>
    have hopen : (tokensOf (.object ((key, value) :: members)) ++ more).foldlM Reader.step
          (.value opened context) =
        (tokensOf value ++ (memberTokens members ++ .closeObject :: more)).foldlM Reader.step
          (.value false (.object [] (some key) context)) := by
      simp only [tokensOf, List.cons_append, List.append_assoc, List.nil_append]
      rfl
    rw [hopen, read_tokensOf value, Context.complete, read_memberTokens members]
    simp only [List.foldlM_cons, Reader.step, List.reverse_append, List.reverse_reverse]
    rfl

theorem read_itemTokens (items : List (Json String)) (before : List Document)
    (around : Context) (more : List Token) :
    (itemTokens items ++ more).foldlM Reader.step (.afterItem before around) =
      more.foldlM Reader.step (.afterItem ((itemsAsRead items).reverse ++ before) around) := by
  match items with
  | [] => rfl
  | item :: items =>
    have hcomma : (itemTokens (item :: items) ++ more).foldlM Reader.step
          (.afterItem before around) =
        (tokensOf item ++ (itemTokens items ++ more)).foldlM Reader.step
          (.value false (.array before around)) := by
      simp only [itemTokens, List.cons_append, List.append_assoc]
      rfl
    rw [hcomma, read_tokensOf item, Context.complete, read_itemTokens items, itemsAsRead,
      List.reverse_cons, List.append_assoc]
    rfl

theorem read_memberTokens (members : List (String × Json String))
    (before : List (Option String × Document)) (around : Context) (more : List Token) :
    (memberTokens members ++ more).foldlM Reader.step (.afterMember before around) =
      more.foldlM Reader.step
        (.afterMember ((membersAsRead members).reverse ++ before) around) := by
  match members with
  | [] => rfl
  | (key, value) :: members =>
    have hcomma : (memberTokens ((key, value) :: members) ++ more).foldlM Reader.step
          (.afterMember before around) =
        (tokensOf value ++ (memberTokens members ++ more)).foldlM Reader.step
          (.value false (.object before (some key) around)) := by
      simp only [memberTokens, List.cons_append, List.append_assoc]
      rfl
    rw [hcomma, read_tokensOf value, Context.complete, read_memberTokens members,
      membersAsRead, List.reverse_cons, List.append_assoc]
    rfl

end

theorem ofTokens?_tokensOf (v : Json String) : ofTokens? (tokensOf v) = some (asRead v) := by
  have hread := read_tokensOf v false .top []
  rw [List.append_nil] at hread
  rw [ofTokens?, hread]
  rfl

theorem hexDigit?_hexDigit {n : Nat} (h : n < 16) : hexDigit? (hexDigit n) = some n := by
  have hall : ∀ n < 16, hexDigit? (hexDigit n) = some n := by decide
  exact hall n h

/-- The digits in the escape of a control character are those of its code. -/
theorem code?_control {c : Char} (h : c < ' ') :
    code? (some '0') (some '0') (some (hexDigit (c.toNat / 16)))
      (some (hexDigit (c.toNat % 16))) = some c.toNat := by
  have hsmall : c.toNat < 32 := h
  have hzero : hexDigit? '0' = some 0 := by decide
  have hhigh := hexDigit?_hexDigit (by omega : c.toNat / 16 < 16)
  have hlow := hexDigit?_hexDigit (by omega : c.toNat % 16 < 16)
  have hvalue : ((0 * 16 + 0) * 16 + c.toNat / 16) * 16 + c.toNat % 16 = c.toNat := by omega
  simp only [code?, Option.bind_eq_bind, Option.bind_some, hzero, hhigh, hlow, hvalue]

theorem unescapeFrom_plain {c : Char} (h : c ≠ '\\') (read rest : List Symbol) :
    unescapeFrom none read (some c :: rest) = unescapeFrom none (some c :: read) rest := by
  rw [unescapeFrom.eq_def]
  split <;> simp_all

/-- An escape stands for its character, whatever follows it. -/
theorem unescapeFrom_escape (c : Char) (read rest : List Symbol) :
    unescapeFrom none read ((escape c).map some ++ rest) =
      unescapeFrom none (some c :: read) rest := by
  unfold escape
  split
  case h_8 hsign _ _ _ _ _ =>
    split
    next hcontrol =>
      -- The code is too small to be half of a surrogate pair.
      have hsmall : c.toNat < 32 := hcontrol
      have htrailing : isTrailing c.toNat = false := by
        simp only [isTrailing, decide_eq_false_iff_not]
        omega
      have hleading : isLeading c.toNat = false := by
        simp only [isLeading, decide_eq_false_iff_not]
        omega
      simp only [List.map_cons, List.map_nil, List.cons_append, List.nil_append, unescapeFrom,
        code?_control hcontrol, htrailing, hleading, Char.ofNat_toNat]
      rfl
    next => exact unescapeFrom_plain hsign read rest
  all_goals rfl

theorem unescapeFrom_flatMap_escape (cs : List Char) (read : List Symbol) :
    unescapeFrom none read ((cs.flatMap escape).map some) =
      some (read.reverse ++ cs.map some) := by
  induction cs generalizing read with
  | nil => simp [unescapeFrom]
  | cons c cs ih =>
    rw [List.flatMap_cons, List.map_append, unescapeFrom_escape, ih]
    simp

theorem unescape_flatMap_escape (t : String) :
    unescape ((t.toList.flatMap escape).map some) = some (some t) := by
  have hwhole : (id ∘ some : Char → Symbol) = fun c => pure (id c) := rfl
  have hread : (t.toList.map some).mapM id = some t.toList := by
    rw [List.mapM_map, hwhole, List.mapM_pure, List.map_id]
    rfl
  rw [unescape, unescapeFrom_flatMap_escape, List.reverse_nil, List.nil_append,
    Option.map_some, hread, Option.map_some, String.ofList_toList]

theorem plain_hexDigit {n : Nat} (h : n < 16) :
    hexDigit n ≠ '"' ∧ hexDigit n ≠ '\\' ∧ ¬ hexDigit n < ' ' := by
  have hall : ∀ n < 16, hexDigit n ≠ '"' ∧ hexDigit n ≠ '\\' ∧ ¬ hexDigit n < ' ' := by decide
  exact hall n h

/-- The tokens, last first, when some characters end the text. -/
def tokensFrom (scan : Scan) (cs : List Char) : Option (List Token) :=
  ((cs.map some).foldlM scanSymbol scan).bind finish

theorem tokensFrom_cons (scan : Scan) (c : Char) (rest : List Char) :
    tokensFrom scan (c :: rest) = (scanSymbol scan (some c)).bind (tokensFrom · rest) := by
  simp only [tokensFrom, List.map_cons, List.foldlM_cons, Option.bind_eq_bind, Option.bind_assoc]

theorem tokensFrom_of_scan {scan next : Scan} {c : Char}
    (h : scanSymbol scan (some c) = some next) (rest : List Char) :
    tokensFrom scan (c :: rest) = tokensFrom next rest := by
  rw [tokensFrom_cons, h, Option.bind_some]

section Strings
variable {tokens : List Token}

theorem tokensFrom_plain {c : Char} (hquote : c ≠ '"') (hsign : c ≠ '\\')
    (hcontrol : ¬ c < ' ') (body : List Symbol) (rest : List Char) :
    tokensFrom ⟨tokens, .string false body⟩ (c :: rest) =
      tokensFrom ⟨tokens, .string false (some c :: body)⟩ rest := by
  refine tokensFrom_of_scan ?_ rest
  simp only [scanSymbol, if_neg hquote, if_neg hcontrol, decide_eq_false hsign]

/-- No escape ends the string that it stands in. -/
theorem tokensFrom_escape (c : Char) (body : List Symbol) (rest : List Char) :
    tokensFrom ⟨tokens, .string false body⟩ (escape c ++ rest) =
      tokensFrom ⟨tokens, .string false (((escape c).map some).reverse ++ body)⟩ rest := by
  unfold escape
  split
  case h_8 hquote hsign _ _ _ _ _ =>
    split
    next hcontrol =>
      have hsmall : c.toNat < 32 := hcontrol
      obtain ⟨hquote₁, hsign₁, hcontrol₁⟩ := plain_hexDigit (by omega : c.toNat / 16 < 16)
      obtain ⟨hquote₂, hsign₂, hcontrol₂⟩ := plain_hexDigit (by omega : c.toNat % 16 < 16)
      have hmarked : tokensFrom ⟨tokens, .string false body⟩
            ('\\' :: 'u' :: '0' :: '0' :: hexDigit (c.toNat / 16) ::
              hexDigit (c.toNat % 16) :: rest) =
          tokensFrom
            ⟨tokens, .string false (some '0' :: some '0' :: some 'u' :: some '\\' :: body)⟩
            (hexDigit (c.toNat / 16) :: hexDigit (c.toNat % 16) :: rest) := rfl
      simp only [List.cons_append, List.nil_append]
      rw [hmarked, tokensFrom_plain hquote₁ hsign₁ hcontrol₁,
        tokensFrom_plain hquote₂ hsign₂ hcontrol₂]
      rfl
    next hplain => exact tokensFrom_plain hquote hsign hplain body rest
  all_goals rfl

theorem tokensFrom_flatMap_escape (cs : List Char) (body : List Symbol) (rest : List Char) :
    tokensFrom ⟨tokens, .string false body⟩ (cs.flatMap escape ++ rest) =
      tokensFrom ⟨tokens, .string false (((cs.flatMap escape).map some).reverse ++ body)⟩
        rest := by
  induction cs generalizing body with
  | nil => rfl
  | cons c cs ih =>
    rw [List.flatMap_cons, List.append_assoc, tokensFrom_escape, ih, List.map_append,
      List.reverse_append, List.append_assoc]

theorem tokensFrom_quote (t : String) (rest : List Char) :
    tokensFrom ⟨tokens, .between⟩ (quote t rest) =
      tokensFrom ⟨.text (some t) :: tokens, .between⟩ rest := by
  have hopen : tokensFrom ⟨tokens, .between⟩ (quote t rest) =
      tokensFrom ⟨tokens, .string false []⟩ (t.toList.flatMap escape ++ '"' :: rest) := rfl
  rw [hopen, tokensFrom_flatMap_escape]
  refine tokensFrom_of_scan ?_ rest
  simp only [scanSymbol, if_true, List.append_nil, List.reverse_reverse,
    unescape_flatMap_escape, Option.map_some]

end Strings

section Settings
variable {tokens : List Token}

theorem tokensFrom_blanks (n : Nat) (rest : List Char) :
    tokensFrom ⟨tokens, .between⟩ (List.replicate n ' ' ++ rest) =
      tokensFrom ⟨tokens, .between⟩ rest := by
  induction n with
  | zero => rfl
  | succ n ih => exact ih

theorem tokensFrom_newLine (s : Setting) (rest : List Char) :
    tokensFrom ⟨tokens, .between⟩ (s.newLine rest) = tokensFrom ⟨tokens, .between⟩ rest := by
  cases s with
  | compact => rfl
  | indented depth => exact tokensFrom_blanks (2 * depth) rest

theorem tokensFrom_afterKey (s : Setting) (rest : List Char) :
    tokensFrom ⟨tokens, .between⟩ (s.afterKey rest) =
      tokensFrom ⟨.colon :: tokens, .between⟩ rest := by
  cases s <;> rfl

end Settings

/-- A number or a word that such a text follows is at its end. -/
inductive Delimited : List Char → Prop
  | nothing : Delimited []
  | sign {c : Char} {rest : List Char} (numeric : isNumeric c = false)
      (letter : c.isLower = false) : Delimited (c :: rest)

section Delimiters
variable {rest : List Char}

theorem delimited_newLine (s : Setting) (h : Delimited rest) : Delimited (s.newLine rest) := by
  cases s with
  | compact => exact h
  | indented depth => exact .sign rfl rfl

theorem delimited_renderItems (s : Setting) (items : List (Json String))
    (h : Delimited rest) : Delimited (renderItems s items rest) := by
  cases items with
  | nil => exact h
  | cons item items => exact .sign rfl rfl

theorem delimited_renderMembers (s : Setting) (members : List (String × Json String))
    (h : Delimited rest) : Delimited (renderMembers s members rest) := by
  cases members with
  | nil => exact h
  | cons m members => exact .sign rfl rfl

end Delimiters

section Numbers
variable {tokens : List Token} {rest : List Char}

/-- The digits of a number begin with a zero only if it is zero. -/
theorem head?_toDigits {n : Nat} (h : 0 < n) : (Nat.toDigits 10 n).head? ≠ some '0' := by
  induction n using Nat.strong_induction_on with
  | h n ih =>
    by_cases hone : n < 10
    · rw [Nat.toDigits_of_lt_base hone]
      have hall : ∀ n < 10, 0 < n → [Nat.digitChar n].head? ≠ some '0' := by decide
      exact hall n hone h
    · rw [Nat.toDigits_of_base_le (by omega) (by omega),
        List.head?_append_of_ne_nil _ Nat.toDigits_ne_nil]
      exact ih (n / 10) (by omega) (by omega)

theorem isNumber_of_digits {c : Char} {cs : List Char} (hzero : c ≠ '0')
    (hdigits : ∀ d ∈ c :: cs, d.isDigit = true) : isNumber (c :: cs) = true := by
  have hminus : c ≠ '-' := by
    rintro rfl
    exact absurd (hdigits '-' List.mem_cons_self) (by decide)
  have hunsigned : isNumber (c :: cs) =
      (((whole? (c :: cs)).bind fraction?).bind exponent? = some [] : Bool) := by
    unfold isNumber
    split
    next h => exact absurd (List.cons.inj h).1 hminus
    next => rfl
  have hwhole : whole? (c :: cs) = digits? (c :: cs) := by
    unfold whole?
    split
    next h => exact absurd (List.cons.inj h).1 hzero
    next => rfl
  have hall : digits? (c :: cs) = some [] := by
    rw [digits?, List.takeWhile_eq_self_iff.mpr hdigits, List.dropWhile_eq_nil_iff.mpr hdigits]
    rfl
  rw [hunsigned, hwhole, hall]
  rfl

theorem isNumber_toDigits (n : Nat) : isNumber (Nat.toDigits 10 n) = true := by
  rcases Nat.eq_zero_or_pos n with rfl | hpos
  · rfl
  · cases hdigits : Nat.toDigits 10 n with
    | nil => exact absurd hdigits Nat.toDigits_ne_nil
    | cons c cs =>
      have hhead := head?_toDigits hpos
      rw [hdigits, List.head?_cons, ne_eq, Option.some.injEq] at hhead
      refine isNumber_of_digits hhead fun d hd => ?_
      rw [← hdigits] at hd
      exact Nat.isDigit_of_mem_toDigits (by omega) (by omega) hd

theorem scanSymbol_digit {c : Char} (h : c.isDigit = true) :
    scanSymbol ⟨tokens, .between⟩ (some c) = some ⟨tokens, .number [c]⟩ := by
  have hblank : isBlank c = false := by
    simp only [isBlank, decide_eq_false_iff_not]
    rintro (rfl | rfl | rfl | rfl) <;> cases h
  have hquote : c ≠ '"' := by
    rintro rfl
    cases h
  simp [scanSymbol, begin, hblank, hquote, h]

theorem tokensFrom_digits {digits literal : List Char} (h : ∀ d ∈ digits, d.isDigit = true) :
    tokensFrom ⟨tokens, .number literal⟩ (digits ++ rest) =
      tokensFrom ⟨tokens, .number (digits.reverse ++ literal)⟩ rest := by
  induction digits generalizing literal with
  | nil => rfl
  | cons d digits ih =>
    obtain ⟨hd, hdigits⟩ := List.forall_mem_cons.mp h
    have hnext : scanSymbol ⟨tokens, .number literal⟩ (some d) =
        some ⟨tokens, .number (d :: literal)⟩ := by
      simp [scanSymbol, isNumeric, hd]
    rw [List.cons_append, tokensFrom_of_scan hnext, ih hdigits, List.reverse_cons,
      List.append_assoc]
    rfl

theorem tokensFrom_number {literal : List Char} (h : Delimited rest)
    (hnumber : isNumber literal.reverse = true) :
    tokensFrom ⟨tokens, .number literal⟩ rest =
      tokensFrom ⟨.plain (.number (String.ofList literal.reverse)) :: tokens, .between⟩
        rest := by
  cases h with
  | nothing =>
    simp only [tokensFrom, List.map_nil, List.foldlM_nil, Option.pure_def, Option.bind_some,
      finish, hnumber, if_true]
  | sign hnumeric _ =>
    simp only [tokensFrom, List.map_cons, List.foldlM_cons, scanSymbol, hnumeric, restart,
      finish, hnumber, if_true, Option.bind_some]
    rfl

theorem tokensFrom_nat (n : Nat) (h : Delimited rest) :
    tokensFrom ⟨tokens, .between⟩ ((toString n).toList ++ rest) =
      tokensFrom ⟨.plain (.nat n) :: tokens, .between⟩ rest := by
  have hprinted : (toString n).toList = Nat.toDigits 10 n := Nat.toList_repr
  cases hcs : Nat.toDigits 10 n with
  | nil => exact absurd hcs Nat.toDigits_ne_nil
  | cons c cs =>
    have hdigits : ∀ d ∈ c :: cs, d.isDigit = true := by
      rw [← hcs]
      exact fun d => Nat.isDigit_of_mem_toDigits (by omega) (by omega)
    obtain ⟨hc, hrest⟩ := List.forall_mem_cons.mp hdigits
    have hliteral : (cs.reverse ++ [c]).reverse = (toString n).toList := by
      rw [hprinted, hcs, List.reverse_append, List.reverse_reverse]
      rfl
    have hnumber : isNumber (cs.reverse ++ [c]).reverse = true := by
      rw [hliteral, hprinted]
      exact isNumber_toDigits n
    rw [hprinted, hcs, List.cons_append, tokensFrom_of_scan (scanSymbol_digit hc),
      tokensFrom_digits hrest, tokensFrom_number h hnumber, hliteral, String.ofList_toList]
    rfl

end Numbers

theorem tokensFrom_word {tokens : List Token} {rest : List Char} (letters : List Char)
    {v : Document} (h : Delimited rest) (hword : word? letters.reverse = some v) :
    tokensFrom ⟨tokens, .word letters⟩ rest =
      tokensFrom ⟨.plain v :: tokens, .between⟩ rest := by
  cases h with
  | nothing =>
    simp only [tokensFrom, List.map_nil, List.foldlM_nil, Option.pure_def, Option.bind_some,
      finish, hword, Option.map_some]
  | sign _ hletter =>
    simp only [tokensFrom, List.map_cons, List.foldlM_cons, scanSymbol, hletter, restart,
      finish, hword, Option.map_some, Option.bind_some]
    rfl

-- Items and members are followed by a comma, a line break or a bracket, so each value in turn
-- is delimited.
mutual

/-- Whatever stands before and after a value, its text gives its tokens. -/
theorem tokensFrom_render (s : Setting) (v : Json String) (hwhole : Whole v)
    (tokens : List Token) (rest : List Char) (h : Delimited rest) :
    tokensFrom ⟨tokens, .between⟩ (render s v rest) =
      tokensFrom ⟨(tokensOf v).reverse ++ tokens, .between⟩ rest := by
  match v with
  | .null => exact tokensFrom_word ['l', 'l', 'u', 'n'] h rfl
  | .bool true => exact tokensFrom_word ['e', 'u', 'r', 't'] h rfl
  | .bool false => exact tokensFrom_word ['e', 's', 'l', 'a', 'f'] h rfl
  | .number literal =>
    obtain ⟨n, rfl⟩ : ∃ n : Nat, literal = toString n := by
      cases hwhole
      exact ⟨_, rfl⟩
    exact tokensFrom_nat n h
  | .text t => exact tokensFrom_quote t rest
  | .array [] | .object [] => rfl
  | .array (item :: items) =>
    obtain ⟨hitem, hitems⟩ := List.forall_mem_cons.mp (whole_array_iff.mp hwhole)
    have hclose : Delimited (s.newLine (']' :: rest)) := delimited_newLine s (.sign rfl rfl)
    have hopen : tokensFrom ⟨tokens, .between⟩ (render s (.array (item :: items)) rest) =
        tokensFrom ⟨.openArray :: tokens, .between⟩ (s.deeper.newLine
          (render s.deeper item (renderItems s.deeper items (s.newLine (']' :: rest))))) := by
      rw [render]
      rfl
    rw [hopen, tokensFrom_newLine,
      tokensFrom_render s.deeper item hitem _ _ (delimited_renderItems _ _ hclose),
      tokensFrom_renderItems s.deeper items hitems _ _ hclose, tokensFrom_newLine, tokensOf]
    simp only [List.reverse_cons, List.reverse_append, List.append_assoc, List.reverse_nil,
      List.nil_append, List.cons_append]
    rfl
  | .object ((key, value) :: members) =>
    obtain ⟨hvalue, hmembers⟩ := List.forall_mem_cons.mp (whole_object_iff.mp hwhole)
    have hclose : Delimited (s.newLine ('}' :: rest)) := delimited_newLine s (.sign rfl rfl)
    have hopen : tokensFrom ⟨tokens, .between⟩
          (render s (.object ((key, value) :: members)) rest) =
        tokensFrom ⟨.openObject :: tokens, .between⟩ (s.deeper.newLine
          (quote key (s.afterKey (render s.deeper value
            (renderMembers s.deeper members (s.newLine ('}' :: rest))))))) := by
      rw [render]
      rfl
    rw [hopen, tokensFrom_newLine, tokensFrom_quote, tokensFrom_afterKey,
      tokensFrom_render s.deeper value hvalue _ _ (delimited_renderMembers _ _ hclose),
      tokensFrom_renderMembers s.deeper members hmembers _ _ hclose, tokensFrom_newLine,
      tokensOf]
    simp only [List.reverse_cons, List.reverse_append, List.append_assoc, List.reverse_nil,
      List.nil_append, List.cons_append]
    rfl

theorem tokensFrom_renderItems (s : Setting) (items : List (Json String))
    (hwhole : ∀ item ∈ items, Whole item) (tokens : List Token) (rest : List Char)
    (h : Delimited rest) :
    tokensFrom ⟨tokens, .between⟩ (renderItems s items rest) =
      tokensFrom ⟨(itemTokens items).reverse ++ tokens, .between⟩ rest := by
  match items with
  | [] => rfl
  | item :: items =>
    obtain ⟨hitem, hitems⟩ := List.forall_mem_cons.mp hwhole
    have hcomma : tokensFrom ⟨tokens, .between⟩ (renderItems s (item :: items) rest) =
        tokensFrom ⟨.comma :: tokens, .between⟩
          (s.newLine (render s item (renderItems s items rest))) := by
      rw [renderItems]
      rfl
    rw [hcomma, tokensFrom_newLine,
      tokensFrom_render s item hitem _ _ (delimited_renderItems s items h),
      tokensFrom_renderItems s items hitems _ _ h, itemTokens]
    simp only [List.reverse_cons, List.reverse_append, List.append_assoc]
    rfl

theorem tokensFrom_renderMembers (s : Setting) (members : List (String × Json String))
    (hwhole : ∀ m ∈ members, Whole m.2) (tokens : List Token) (rest : List Char)
    (h : Delimited rest) :
    tokensFrom ⟨tokens, .between⟩ (renderMembers s members rest) =
      tokensFrom ⟨(memberTokens members).reverse ++ tokens, .between⟩ rest := by
  match members with
  | [] => rfl
  | (key, value) :: members =>
    obtain ⟨hvalue, hmembers⟩ := List.forall_mem_cons.mp hwhole
    have hcomma : tokensFrom ⟨tokens, .between⟩
          (renderMembers s ((key, value) :: members) rest) =
        tokensFrom ⟨.comma :: tokens, .between⟩ (s.newLine (quote key
          (s.afterKey (render s value (renderMembers s members rest))))) := by
      rw [renderMembers]
      rfl
    rw [hcomma, tokensFrom_newLine, tokensFrom_quote, tokensFrom_afterKey,
      tokensFrom_render s value hvalue _ _ (delimited_renderMembers s members h),
      tokensFrom_renderMembers s members hmembers _ _ h, memberTokens]
    simp only [List.reverse_cons, List.reverse_append, List.append_assoc]
    rfl

end

theorem tokens?_ofText (text : String) :
    tokens? (ofText text) = (tokensFrom ⟨[], .between⟩ text.toList).map List.reverse := rfl

theorem ofText?_render (s : Setting) {v : Json String} (h : Whole v) :
    JsonReader.ofText? (String.ofList (render s v [])) = some (asRead v) := by
  have htokens : tokens? (ofText (String.ofList (render s v []))) = some (tokensOf v) := by
    rw [tokens?_ofText, String.toList_ofList, tokensFrom_render s v h [] [] .nothing,
      List.append_nil]
    exact congrArg some (List.reverse_reverse _)
  rw [JsonReader.ofText?, ofSymbols?, htokens]
  exact ofTokens?_tokensOf v

theorem finish_restart_lineBreak (scan : Scan) :
    (restart scan '\n').bind finish = finish scan := by
  have hbegin : (fun tokens => (begin tokens '\n').bind finish) = some := rfl
  rw [restart, Option.bind_assoc, hbegin, Option.bind_fun_some]

/-- A line break ends a token as the end of the text does, and neither may stand in a string. -/
theorem finish_lineBreak (scan : Scan) :
    (scanSymbol scan (some '\n')).bind finish = finish scan := by
  obtain ⟨tokens, place⟩ := scan
  cases place with
  | between => rfl
  | string escaped body => cases escaped <;> rfl
  | number literal => exact finish_restart_lineBreak ⟨tokens, .number literal⟩
  | word letters => exact finish_restart_lineBreak ⟨tokens, .word letters⟩

theorem tokensFrom_lineBreak (scan : Scan) (cs : List Char) :
    tokensFrom scan (cs ++ ['\n']) = tokensFrom scan cs := by
  induction cs generalizing scan with
  | nil =>
    rw [List.nil_append, tokensFrom_cons]
    exact finish_lineBreak scan
  | cons c cs ih => rw [List.cons_append, tokensFrom_cons, tokensFrom_cons, funext ih]

theorem ofText?_lineBreak (text : String) :
    JsonReader.ofText? (text ++ "\n") = JsonReader.ofText? text := by
  have hchars : (text ++ "\n").toList = text.toList ++ ['\n'] := String.toList_append
  simp only [JsonReader.ofText?, ofSymbols?, tokens?_ofText, hchars, tokensFrom_lineBreak]

end AccessList.Proofs.PrintedDocuments
