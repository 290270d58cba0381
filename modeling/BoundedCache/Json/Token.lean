import BoundedCache.Json.Number

/-! # The tokens of a document -/
namespace BoundedCache.Json

/-- A token. A string whose surrogates are not paired denotes no text. The rest of a text that does
not start with a token is junk. -/
inductive Token
  | openBrace | closeBrace | openBracket | closeBracket | comma | colon
  | null
  | bool (b : Bool)
  | number (n : Number)
  | string (text? : Option String)
  | junk

/-- Blanks between tokens. -/
def isBlank (c : Char) : Bool := c == ' ' || c == '\t' || c == '\n' || c == '\r'

/-- A part of a string: a character as it stands, or a unit of sixteen bits written in hexadecimal. -/
inductive Piece
  | char (c : Char)
  | unit (n : Nat)

def hexDigit? (c : Char) : Option Nat :=
  if c.isDigit then some (c.toNat - '0'.toNat)
  else if 'a' ≤ c ∧ c ≤ 'f' then some (c.toNat - 'a'.toNat + 10)
  else if 'A' ≤ c ∧ c ≤ 'F' then some (c.toNat - 'A'.toNat + 10)
  else none

/-- The number that hexadecimal digits denote. -/
def hex? : List Char → Option Nat := List.foldlM (fun n c => (hexDigit? c).map (16 * n + ·)) 0

/-- The character that a letter after a backslash stands for. -/
def named? : Char → Option Char
  | '"' => some '"'
  | '\\' => some '\\'
  | '/' => some '/'
  | 'b' => some '\x08'
  | 'f' => some '\x0c'
  | 'n' => some '\n'
  | 'r' => some '\r'
  | 't' => some '\t'
  | _ => none

/-- The pieces of a string up to the quote that ends it, and what follows the quote. -/
def scanPieces : List Char → Option (List Piece × List Char)
  | [] => none
  | '"' :: rest => some ([], rest)
  | '\\' :: 'u' :: a :: b :: c :: d :: rest => do
    let n ← hex? [a, b, c, d]
    let (pieces, rest) ← scanPieces rest
    some (.unit n :: pieces, rest)
  | '\\' :: c :: rest => do
    let c ← named? c
    let (pieces, rest) ← scanPieces rest
    some (.char c :: pieces, rest)
  | c :: rest =>
    if c.toNat < 0x20 then none
    else do
      let (pieces, rest) ← scanPieces rest
      some (.char c :: pieces, rest)

def isHighSurrogate (n : Nat) : Bool := 0xD800 ≤ n && n < 0xDC00

def isLowSurrogate (n : Nat) : Bool := 0xDC00 ≤ n && n < 0xE000

/-- The characters that pieces denote, if every surrogate is one of a pair. -/
def decode : List Piece → Option (List Char)
  | [] => some []
  | .char c :: rest => (decode rest).map (c :: ·)
  | .unit high :: .unit low :: rest =>
    if isHighSurrogate high then
      if isLowSurrogate low then
        (decode rest).map (Char.ofNat (0x10000 + (high - 0xD800) * 0x400 + (low - 0xDC00)) :: ·)
      else none
    else if isLowSurrogate high then none
    else (decode (.unit low :: rest)).map (Char.ofNat high :: ·)
  | .unit n :: rest =>
    if isHighSurrogate n || isLowSurrogate n then none else (decode rest).map (Char.ofNat n :: ·)

namespace Token

/-- The token at the start of a text that does not start with a blank, and what follows it. -/
def scan : List Char → Option (Token × List Char)
  | '{' :: rest => some (openBrace, rest)
  | '}' :: rest => some (closeBrace, rest)
  | '[' :: rest => some (openBracket, rest)
  | ']' :: rest => some (closeBracket, rest)
  | ',' :: rest => some (comma, rest)
  | ':' :: rest => some (colon, rest)
  | 'n' :: 'u' :: 'l' :: 'l' :: rest => some (null, rest)
  | 't' :: 'r' :: 'u' :: 'e' :: rest => some (bool true, rest)
  | 'f' :: 'a' :: 'l' :: 's' :: 'e' :: rest => some (bool false, rest)
  | '"' :: rest =>
    (scanPieces rest).map fun (pieces, rest) => (string ((decode pieces).map String.ofList), rest)
  | cs => (Literal.scan cs).map fun (l, rest) => (number l.number, rest)

end Token

/-- The tokens of a text, with the blanks left out. -/
def tokens (cs : List Char) : List Token :=
  match cs.dropWhile isBlank with
  | [] => []
  | c :: rest =>
    match Token.scan (c :: rest) with
    | some (token, after) =>
      if after.length < cs.length then token :: tokens after else [.junk]
    | none => [.junk]
termination_by cs.length

end BoundedCache.Json
