import AccessList.JsonTokens

/-!
A JSON text is read one token at a time, with a stack of the arrays and objects that are
still open. Each token either moves the reader on or is out of place, so the reader needs no
look at the tokens to come and takes values nested to any depth.
-/
namespace AccessList.JsonReader

open Documents JsonTokens Symbols

/-- The arrays and objects around a value, the innermost first, each with what it has so
far, last first; an object also with the key of the value that is awaited. -/
inductive Context
  | top
  | array (items : List Document) (around : Context)
  | object (members : List (Option String × Document)) (key : Option String)
      (around : Context)

/-- What the reader awaits. Just after an opening bracket the closing one may follow. -/
inductive Reader
  | value (opened : Bool) (context : Context)
  | key (opened : Bool) (members : List (Option String × Document)) (around : Context)
  | colon (members : List (Option String × Document)) (key : Option String)
      (around : Context)
  | afterItem (items : List Document) (around : Context)
  | afterMember (members : List (Option String × Document)) (around : Context)
  | finished (v : Document)

/-- The reader after a whole value. -/
def Context.complete (v : Document) : Context → Reader
  | .top => .finished v
  | .array items around => .afterItem (v :: items) around
  | .object members key around => .afterMember ((key, v) :: members) around

def Reader.step : Reader → Token → Option Reader
  | .value _ context, .plain v => some (context.complete v)
  | .value _ context, .text s => some (context.complete (.text s))
  | .value _ context, .openArray => some (.value true (.array [] context))
  | .value _ context, .openObject => some (.key true [] context)
  | .value true (.array [] around), .closeArray => some (around.complete (.array []))
  | .key _ members around, .text s => some (.colon members s around)
  | .key true [] around, .closeObject => some (around.complete (.object []))
  | .colon members name around, .colon => some (.value false (.object members name around))
  | .afterItem items around, .comma => some (.value false (.array items around))
  | .afterItem items around, .closeArray => some (around.complete (.array items.reverse))
  | .afterMember members around, .comma => some (.key false members around)
  | .afterMember members around, .closeObject =>
    some (around.complete (.object members.reverse))
  | _, _ => none

def ofTokens? (tokens : List Token) : Option Document :=
  match tokens.foldlM Reader.step (.value false .top) with
  | some (.finished v) => some v
  | _ => none

def ofSymbols? (symbols : List Symbol) : Option Document :=
  (tokens? symbols).bind ofTokens?

def ofText? (text : String) : Option Document := ofSymbols? (Symbols.ofText text)

def ofBytes? (bytes : List UInt8) : Option Document := ofSymbols? (Symbols.ofBytes bytes)

end AccessList.JsonReader
