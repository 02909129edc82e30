/-!
Text as it comes from a file: characters in UTF-8, where a byte that belongs to no character
is kept as a gap. A gap never swallows a byte after it, so plain characters are always found.
-/
namespace AccessList.Symbols

/-- A character, or nothing for a byte that belongs to none. -/
abbrev Symbol := Option Char

/-- The low six bits of a byte that continues a character. -/
def continuation? (b : UInt8) : Option Nat :=
  if b &&& 0xC0 = 0x80 then some (b.toNat - 0x80) else none

/-- The character with a code that needs as many bytes as were used for it. -/
def charFrom? (least code : Nat) : Option Char :=
  if least ≤ code ∧ code.isValidChar then some (Char.ofNat code) else none

/-- The character of two to four bytes with which a list of bytes begins. -/
def wide? : List UInt8 → Option Char
  | lead :: b :: rest =>
    if 0xC0 ≤ lead ∧ lead < 0xE0 then do
      let b ← continuation? b
      charFrom? 0x80 ((lead.toNat - 0xC0) * 64 + b)
    else
      match rest with
      | c :: rest =>
        if 0xE0 ≤ lead ∧ lead < 0xF0 then do
          let b ← continuation? b
          let c ← continuation? c
          charFrom? 0x800 (((lead.toNat - 0xE0) * 64 + b) * 64 + c)
        else
          match rest with
          | d :: _ =>
            if 0xF0 ≤ lead ∧ lead < 0xF8 then do
              let b ← continuation? b
              let c ← continuation? c
              let d ← continuation? d
              charFrom? 0x10000 ((((lead.toNat - 0xF0) * 64 + b) * 64 + c) * 64 + d)
            else none
          | [] => none
      | [] => none
  | _ => none

/-- The symbols of bytes, after `skip` bytes that belong to a character already read. -/
def ofBytesFrom (skip : Nat) (read : List Symbol) : List UInt8 → List Symbol
  | [] => read.reverse
  | b :: rest =>
    match skip with
    | skip + 1 => ofBytesFrom skip read rest
    | 0 =>
      if b < 0x80 then ofBytesFrom 0 (some (Char.ofNat b.toNat) :: read) rest
      else
        match wide? (b :: rest) with
        | some c => ofBytesFrom (c.utf8Size - 1) (some c :: read) rest
        | none => ofBytesFrom 0 (none :: read) rest

def ofBytes (bytes : List UInt8) : List Symbol := ofBytesFrom 0 [] bytes

def ofText (text : String) : List Symbol := text.toList.map some

end AccessList.Symbols
