import Stagecraft.Ron.Token
import Stagecraft.Value.Number

/-!
# Strings and characters of RON documents

Strings of characters and strings of bytes, with escapes or raw. Escapes of single bytes have to
form characters in a string of characters; in a string of bytes they need not. In a single character
they reach no further than ASCII.
-/

namespace Stagecraft.Ron

/-! ### Escapes -/

/-- What a quoted text holds. -/
inductive Quotation where
  /-- Characters. -/
  | characters
  /-- One character. -/
  | character
  /-- Bytes. -/
  | bytes
deriving DecidableEq

/-- What an escape stands for. -/
inductive Escaped where
  /-- One byte. -/
  | byte (n : Nat)
  /-- A character given by its code point. -/
  | character

/-- A byte of two hexadecimal digits, and the rest. -/
def readHexByte (cs : List Char) : Option (Nat × List Char) :=
  match cs with
  | a :: b :: rest => do return (16 * (← baseDigit? 16 a) + (← baseDigit? 16 b), rest)
  | _ => none

/-- Escaped bytes, so many of them, and the rest. -/
def readHexBytes : Nat → List Char → Option (List Nat × List Char)
  | 0, cs => some ([], cs)
  | n + 1, cs => do
    let (b, cs) ← readHexByte (← expect "\\x" cs)
    let (bs, cs) ← readHexBytes n cs
    return (b :: bs, cs)

/-- How many bytes follow the first byte of a character; nothing if it starts none. -/
def following? (byte : Nat) : Option Nat :=
  if byte < 0x80 then some 0
  else if byte < 0xC0 then none
  else if byte < 0xE0 then some 1
  else if byte < 0xF0 then some 2
  else if byte < 0xF8 then some 3
  else none

/-- Whether bytes are the UTF-8 form of a text. -/
def isUtf8 (bytes : List Nat) : Bool :=
  (String.fromUTF8? ⟨(bytes.map Nat.toUInt8).toArray⟩).isSome

/-- An escape by hexadecimal digits whose letter was taken. Beyond ASCII, a character of a string
takes an escape for each of its bytes. -/
def readByteEscape (q : Quotation) (cs : List Char) : Option (Escaped × List Char) := do
  let (b, cs) ← readHexByte cs
  match q with
  | .bytes => return (.byte b, cs)
  | .character => if b < 0x80 then return (.byte b, cs) else none
  | .characters =>
    let (bs, cs) ← readHexBytes (← following? b) cs
    if isUtf8 (b :: bs) then return (if bs.isEmpty then .byte b else .character, cs) else none

/-- A code point between braces: one to six hexadecimal digits that stand for a character. -/
def readCodePoint (cs : List Char) : Option (Escaped × List Char) := do
  let cs ← expect "\x7b" cs
  let digits ← (cs.takeWhile (· ≠ '\x7d')).mapM (baseDigit? 16)
  let rest ← expect "\x7d" (cs.dropWhile (· ≠ '\x7d'))
  let n := digits.foldl (fun n d => 16 * n + d) 0
  if digits.isEmpty || 6 < digits.length then none
  else if n.isValidChar then return (.character, rest) else none

/-- The bytes that a backslash and a letter stand for. -/
def letterEscapes : List (Char × Nat) :=
  [('\'', 0x27), ('"', 0x22), ('\\', 0x5C), ('n', 0x0A), ('r', 0x0D), ('t', 0x09), ('0', 0x00)]

/-- An escape whose backslash was taken, and the rest. -/
def readEscape (q : Quotation) (cs : List Char) : Option (Escaped × List Char) :=
  match cs with
  | 'x' :: rest => readByteEscape q rest
  | 'u' :: rest => readCodePoint rest
  | c :: rest => (letterEscapes.lookup c).map fun n => (.byte n, rest)
  | [] => none

/-! ### Strings -/

/-- The rest after a string whose opening quote was taken. A backslash at the end of a line goes on
with the next one. -/
def skipString (q : Quotation) : Nat → Skipper
  | 0, _ => none
  | _ + 1, [] => none
  | fuel + 1, c :: rest =>
    if c = '"' then some rest
    else if c = '\\' then
      match rest with
      | '\n' :: rest => skipString q fuel rest
      | '\r' :: '\n' :: rest => skipString q fuel rest
      | rest => (readEscape q rest).bind fun e => skipString q fuel e.2
    else skipString q fuel rest

/-- The rest after a raw string, which ends with a quote and so many number signs. -/
def skipRaw (marks : Nat) : Skipper
  | [] => none
  | c :: rest =>
    if c = '"' && (List.replicate marks '#').isPrefixOf rest then some (rest.drop marks)
    else skipRaw marks rest

/-- The rest after a raw string whose letters were taken. -/
def skipRawMarked : Skipper := fun cs =>
  match cs.dropWhile (· = '#') with
  | '"' :: rest => skipRaw (cs.takeWhile (· = '#')).length rest
  | _ => none

/-- The rest after a string of characters. -/
def skipText : Skipper := fun cs =>
  match cs with
  | '"' :: rest => skipString .characters (rest.length + 1) rest
  | 'r' :: rest => skipRawMarked rest
  | _ => none

/-- The rest after a string of bytes. -/
def skipBytes : Skipper := fun cs =>
  match cs with
  | 'b' :: '"' :: rest => skipString .bytes (rest.length + 1) rest
  | 'b' :: 'r' :: rest => skipRawMarked rest
  | _ => none

/-! ### Characters -/

/-- The rest after a character in quotes. -/
def skipCharacter : Skipper := fun cs =>
  match cs with
  | '\'' :: '\\' :: rest => (readEscape .character rest).bind fun e => expect "'" e.2
  | '\'' :: _ :: rest => expect "'" rest
  | _ => none

/-- The rest after a byte in quotes, which is an ASCII character or an escape of one byte. -/
def skipByte : Skipper := fun cs =>
  match cs with
  | 'b' :: '\'' :: '\\' :: rest =>
    match readEscape .bytes rest with
    | some (.byte _, rest) => expect "'" rest
    | _ => none
  | 'b' :: '\'' :: c :: rest => if c.toNat < 0x80 then expect "'" rest else none
  | _ => none

end Stagecraft.Ron
