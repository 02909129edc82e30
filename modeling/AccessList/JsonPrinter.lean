import AccessList.Documents

/-!
JSON texts of values, on one line or with one item a line. Strings escape quotes,
backslashes and control characters and nothing else. Pieces of text are put in front of what
is already written, so printing takes time in proportion to the text.
-/
namespace AccessList.JsonPrinter

open Documents

def hexDigit (n : Nat) : Char := if n < 10 then Char.ofNat (n + 48) else Char.ofNat (n + 87)

def escape (c : Char) : List Char :=
  match c with
  | '"' => ['\\', '"']
  | '\\' => ['\\', '\\']
  | '\x08' => ['\\', 'b']
  | '\t' => ['\\', 't']
  | '\n' => ['\\', 'n']
  | '\x0c' => ['\\', 'f']
  | '\r' => ['\\', 'r']
  | c =>
    if c < ' ' then ['\\', 'u', '0', '0', hexDigit (c.toNat / 16), hexDigit (c.toNat % 16)]
    else [c]

def quote (s : String) (rest : List Char) : List Char :=
  '"' :: (s.toList.flatMap escape ++ '"' :: rest)

/-- How the parts of a value are set: on one line, or each on a line of its own, two blanks
further in than what is around it. -/
inductive Setting
  | compact
  | indented (depth : Nat)

def Setting.deeper : Setting → Setting
  | .compact => .compact
  | .indented depth => .indented (depth + 1)

def Setting.newLine (s : Setting) (rest : List Char) : List Char :=
  match s with
  | .compact => rest
  | .indented depth => '\n' :: (List.replicate (2 * depth) ' ' ++ rest)

def Setting.afterKey (s : Setting) (rest : List Char) : List Char :=
  match s with
  | .compact => ':' :: rest
  | .indented _ => ':' :: ' ' :: rest

mutual

def render (s : Setting) : Json String → List Char → List Char
  | .null, rest => 'n' :: 'u' :: 'l' :: 'l' :: rest
  | .bool true, rest => 't' :: 'r' :: 'u' :: 'e' :: rest
  | .bool false, rest => 'f' :: 'a' :: 'l' :: 's' :: 'e' :: rest
  | .number literal, rest => literal.toList ++ rest
  | .text t, rest => quote t rest
  | .array [], rest => '[' :: ']' :: rest
  | .array (item :: items), rest =>
    '[' :: s.deeper.newLine
      (render s.deeper item (renderItems s.deeper items (s.newLine (']' :: rest))))
  | .object [], rest => '{' :: '}' :: rest
  | .object ((key, value) :: members), rest =>
    '{' :: s.deeper.newLine
      (quote key (s.afterKey
        (render s.deeper value (renderMembers s.deeper members (s.newLine ('}' :: rest))))))

/-- The items after the first, in the setting of the items. -/
def renderItems (s : Setting) : List (Json String) → List Char → List Char
  | [], rest => rest
  | item :: items, rest => ',' :: s.newLine (render s item (renderItems s items rest))

def renderMembers (s : Setting) : List (String × Json String) → List Char → List Char
  | [], rest => rest
  | (key, value) :: members, rest =>
    ',' :: s.newLine
      (quote key (s.afterKey (render s value (renderMembers s members rest))))

end

def compact (v : Json String) : String := String.ofList (render .compact v [])

def pretty (v : Json String) : String := String.ofList (render (.indented 0) v [])

end AccessList.JsonPrinter
