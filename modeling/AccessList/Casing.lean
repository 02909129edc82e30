/-!
Upper case for reading names that are made of capital letters, digits and underscores, and
the opposite spelling of such names, where the words are joined and only their first letters
are capitals. One character may stand for several capitals: a ligature stands for all its
letters.
-/
namespace AccessList.Casing

/-- The upper case of every character for which that is made of plain capital letters. Any
other character is kept: neither it nor its upper case occurs in a name. -/
def capitals (c : Char) : List Char :=
  match c with
  | 'ß' => ['S', 'S']
  | 'ı' => ['I']
  | 'ſ' => ['S']
  | 'ﬀ' => ['F', 'F']
  | 'ﬁ' => ['F', 'I']
  | 'ﬂ' => ['F', 'L']
  | 'ﬃ' => ['F', 'F', 'I']
  | 'ﬄ' => ['F', 'F', 'L']
  | 'ﬅ' => ['S', 'T']
  | 'ﬆ' => ['S', 'T']
  | c => [c.toUpper]

def upper (cs : List Char) : List Char := cs.flatMap capitals

@[simp] theorem upper_nil : upper [] = [] := rfl

@[simp] theorem upper_cons (c : Char) (cs : List Char) :
    upper (c :: cs) = capitals c ++ upper cs := rfl

theorem upper_append (cs ds : List Char) : upper (cs ++ ds) = upper cs ++ upper ds := by
  simp [upper]

/-- Reads a text as one of some named things, whatever the case of its letters. -/
def find? {α : Type} (name : α → String) (all : List α) (text : String) : Option α :=
  all.find? fun a => (name a).toList = upper text.toList

/-- The thing that a text names, or else a notice about the text. -/
def readName {α : Type} (name : α → String) (all : List α) (notice : String → String)
    (text : String) : Except String α :=
  match find? name all text with
  | some a => .ok a
  | none => .error (notice text)

/-- Joins words that underscores separate and keeps only their first letters capital. -/
def capitalizedFrom (first : Bool) : List Char → List Char
  | [] => []
  | '_' :: cs => capitalizedFrom true cs
  | c :: cs => (if first then c else c.toLower) :: capitalizedFrom false cs

def capitalized (name : String) : String :=
  String.ofList (capitalizedFrom true name.toList)

end AccessList.Casing
