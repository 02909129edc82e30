import AccessList.Documents
import AccessList.Symbols

/-!
The tokens of a JSON text. The scanner takes one symbol at a time: it is between tokens or
inside a string, a number or a word. A string with an escape that does not exist is no
token; one whose escapes leave half of a surrogate pair alone, or that holds a gap, is a
token that spells no text.
-/
namespace AccessList.JsonTokens

open Documents Symbols

inductive Token
  | openArray
  | closeArray
  | openObject
  | closeObject
  | comma
  | colon
  | text (s : Option String)
  | plain (v : Document)

def hexDigit? (c : Char) : Option Nat :=
  if '0' ≤ c ∧ c ≤ '9' then some (c.toNat - '0'.toNat)
  else if 'a' ≤ c ∧ c ≤ 'f' then some (c.toNat - 'a'.toNat + 10)
  else if 'A' ≤ c ∧ c ≤ 'F' then some (c.toNat - 'A'.toNat + 10)
  else none

/-- The code that four hexadecimal digits write. -/
def code? (a b c d : Symbol) : Option Nat := do
  let a ← a.bind hexDigit?
  let b ← b.bind hexDigit?
  let c ← c.bind hexDigit?
  let d ← d.bind hexDigit?
  some (((a * 16 + b) * 16 + c) * 16 + d)

def simpleEscape? (c : Char) : Option Char :=
  match c with
  | '"' => some '"'
  | '\\' => some '\\'
  | '/' => some '/'
  | 'b' => some '\x08'
  | 'f' => some '\x0c'
  | 'n' => some '\n'
  | 'r' => some '\r'
  | 't' => some '\t'
  | _ => none

def isLeading (code : Nat) : Bool := 0xD800 ≤ code ∧ code < 0xDC00

def isTrailing (code : Nat) : Bool := 0xDC00 ≤ code ∧ code < 0xE000

/-- The character of a surrogate pair. -/
def paired (leading trailing : Nat) : Char :=
  Char.ofNat ((leading - 0xD800) * 0x400 + (trailing - 0xDC00) + 0x10000)

/-- The symbols that the inside of a string stands for, where half of a pair is a gap. The
first half of a pair waits for the second. -/
def unescapeFrom (waiting : Option Nat) (read : List Symbol) :
    List Symbol → Option (List Symbol)
  | some '\\' :: some 'u' :: a :: b :: c :: d :: rest =>
    match code? a b c d with
    | none => none
    | some code =>
      match waiting with
      | some leading =>
        if isTrailing code then unescapeFrom none (some (paired leading code) :: read) rest
        else if isLeading code then unescapeFrom (some code) (none :: read) rest
        else unescapeFrom none (some (Char.ofNat code) :: none :: read) rest
      | none =>
        if isTrailing code then unescapeFrom none (none :: read) rest
        else if isLeading code then unescapeFrom (some code) read rest
        else unescapeFrom none (some (Char.ofNat code) :: read) rest
  | some '\\' :: some c :: rest =>
    match simpleEscape? c with
    | none => none
    | some c =>
      unescapeFrom none (some c :: (if waiting.isSome then none :: read else read)) rest
  | [some '\\'] => none
  | some '\\' :: none :: _ => none
  | s :: rest => unescapeFrom none (s :: (if waiting.isSome then none :: read else read)) rest
  | [] => some (if waiting.isSome then (none :: read).reverse else read.reverse)

/-- The text that the inside of a string spells, if it has no gap. -/
def unescape (body : List Symbol) : Option (Option String) :=
  (unescapeFrom none [] body).map fun symbols => (symbols.mapM id).map String.ofList

/-- One or more digits, and what follows them. -/
def digits? (cs : List Char) : Option (List Char) :=
  if (cs.takeWhile Char.isDigit).isEmpty then none else some (cs.dropWhile Char.isDigit)

def exponent? : List Char → Option (List Char)
  | 'e' :: '+' :: cs | 'e' :: '-' :: cs | 'E' :: '+' :: cs | 'E' :: '-' :: cs => digits? cs
  | 'e' :: cs | 'E' :: cs => digits? cs
  | cs => some cs

def fraction? : List Char → Option (List Char)
  | '.' :: cs => digits? cs
  | cs => some cs

/-- No digit follows a leading zero. -/
def whole? : List Char → Option (List Char)
  | '0' :: cs => some cs
  | cs => digits? cs

def isNumber (cs : List Char) : Bool :=
  let unsigned := match cs with
    | '-' :: cs => cs
    | cs => cs
  (((whole? unsigned).bind fraction?).bind exponent?) = some []

def word? (letters : List Char) : Option Document :=
  if letters = ['n', 'u', 'l', 'l'] then some .null
  else if letters = ['t', 'r', 'u', 'e'] then some (.bool true)
  else if letters = ['f', 'a', 'l', 's', 'e'] then some (.bool false)
  else none

/-- Where the scanner is; what a token has so far is held last symbol first. -/
inductive Place
  | between
  | string (escaped : Bool) (body : List Symbol)
  | number (literal : List Char)
  | word (letters : List Char)

/-- The tokens found, last first, and the place. -/
structure Scan where
  tokens : List Token
  place : Place

def isBlank (c : Char) : Bool := c = ' ' ∨ c = '\t' ∨ c = '\n' ∨ c = '\r'

def isNumeric (c : Char) : Bool :=
  c.isDigit ∨ c = '-' ∨ c = '+' ∨ c = '.' ∨ c = 'e' ∨ c = 'E'

/-- What the first symbol after a token begins. -/
def begin (tokens : List Token) (c : Char) : Option Scan :=
  if isBlank c then some ⟨tokens, .between⟩
  else if c = '"' then some ⟨tokens, .string false []⟩
  else if c.isDigit ∨ c = '-' then some ⟨tokens, .number [c]⟩
  else if c.isLower then some ⟨tokens, .word [c]⟩
  else
    match c with
    | '[' => some ⟨.openArray :: tokens, .between⟩
    | ']' => some ⟨.closeArray :: tokens, .between⟩
    | '{' => some ⟨.openObject :: tokens, .between⟩
    | '}' => some ⟨.closeObject :: tokens, .between⟩
    | ',' => some ⟨.comma :: tokens, .between⟩
    | ':' => some ⟨.colon :: tokens, .between⟩
    | _ => none

/-- The tokens when the one in progress ends. A string ends only at its quote. -/
def finish (scan : Scan) : Option (List Token) :=
  match scan.place with
  | .between => some scan.tokens
  | .string _ _ => none
  | .number literal =>
    if isNumber literal.reverse then
      some (.plain (.number (String.ofList literal.reverse)) :: scan.tokens)
    else none
  | .word letters => (word? letters.reverse).map (.plain · :: scan.tokens)

def restart (scan : Scan) (c : Char) : Option Scan :=
  (finish scan).bind (begin · c)

/-- One symbol more. A gap or a control character may stand nowhere but, for a gap, inside a
string. -/
def scanSymbol (scan : Scan) (s : Symbol) : Option Scan :=
  match scan.place, s with
  | .string true body, s => some ⟨scan.tokens, .string false (s :: body)⟩
  | .string false body, some c =>
    if c = '"' then
      (unescape body.reverse).map fun text => ⟨.text text :: scan.tokens, .between⟩
    else if c < ' ' then none
    else some ⟨scan.tokens, .string (c = '\\') (some c :: body)⟩
  | .string false body, none => some ⟨scan.tokens, .string false (none :: body)⟩
  | _, none => none
  | .number literal, some c =>
    if isNumeric c then some ⟨scan.tokens, .number (c :: literal)⟩ else restart scan c
  | .word letters, some c =>
    if c.isLower then some ⟨scan.tokens, .word (c :: letters)⟩ else restart scan c
  | .between, some c => begin scan.tokens c

def tokens? (symbols : List Symbol) : Option (List Token) :=
  ((symbols.foldlM scanSymbol ⟨[], .between⟩).bind finish).map List.reverse

end AccessList.JsonTokens
