import SeismicHazard.Json.Literal

/-!
# JSON tokens

* `JsonToken`: brackets, separators, names, numbers and texts.
* `JsonToken.scan`: the tokens of a text.
-/

namespace SeismicHazard

inductive JsonToken where
  | openList
  | closeList
  | openRecord
  | closeRecord
  | comma
  | colon
  | null
  | bool (b : Bool)
  | number (literal : String)
  /-- A text, absent if an escape stands for half of a surrogate pair alone. -/
  | text (s : Option String)

namespace JsonToken

/-- A character of a text or a code unit that an escape gives. -/
inductive TextUnit where
  | char (c : Char)
  | code (n : Nat)

def hexDigit? (c : Char) : Option Nat :=
  if c.isDigit then some (c.toNat - '0'.toNat)
  else if 'a' ≤ c ∧ c ≤ 'f' then some (c.toNat - 'a'.toNat + 10)
  else if 'A' ≤ c ∧ c ≤ 'F' then some (c.toNat - 'A'.toNat + 10)
  else none

def simpleEscape? : Char → Option Char
  | '"' => some '"'
  | '\\' => some '\\'
  | '/' => some '/'
  | 'b' => some (Char.ofNat 8)
  | 'f' => some (Char.ofNat 12)
  | 'n' => some '\n'
  | 'r' => some '\r'
  | 't' => some '\t'
  | _ => none

/-- The units of a text up to its closing quote, and what follows it. -/
def scanText : List Char → Option (List TextUnit × List Char)
  | [] => none
  | '"' :: rest => some ([], rest)
  | '\\' :: 'u' :: a :: b :: c :: d :: rest => do
    let a ← hexDigit? a
    let b ← hexDigit? b
    let c ← hexDigit? c
    let d ← hexDigit? d
    let (units, rest) ← scanText rest
    return (.code (((a * 16 + b) * 16 + c) * 16 + d) :: units, rest)
  | '\\' :: c :: rest => do
    let c ← simpleEscape? c
    let (units, rest) ← scanText rest
    return (.char c :: units, rest)
  | c :: rest =>
    if c.toNat < 32 then none
    else do
      let (units, rest) ← scanText rest
      return (.char c :: units, rest)

/-- The characters that units stand for: two code units of a surrogate pair make one character. -/
def assemble : List TextUnit → Option (List Char)
  | [] => some []
  | .char c :: rest => (assemble rest).map (c :: ·)
  | .code hi :: .code lo :: rest =>
    if 0xd800 ≤ hi ∧ hi < 0xdc00 then
      if 0xdc00 ≤ lo ∧ lo < 0xe000 then
        (assemble rest).map (Char.ofNat ((hi - 0xd800) * 0x400 + (lo - 0xdc00) + 0x10000) :: ·)
      else none
    else if 0xdc00 ≤ hi ∧ hi < 0xe000 then none
    else (assemble (.code lo :: rest)).map (Char.ofNat hi :: ·)
  | .code n :: rest =>
    if 0xd800 ≤ n ∧ n < 0xe000 then none else (assemble rest).map (Char.ofNat n :: ·)

def isBlank (c : Char) : Bool := c == ' ' || c == '\n' || c == '\t' || c == '\r'

def isNumeric (c : Char) : Bool :=
  c.isDigit || c == '-' || c == '+' || c == '.' || c == 'e' || c == 'E'

def ofChar? : Char → Option JsonToken
  | '[' => some openList
  | ']' => some closeList
  | '\x7b' => some openRecord
  | '\x7d' => some closeRecord
  | ',' => some comma
  | ':' => some colon
  | _ => none

def next? (c : Char) (rest : List Char) : Option (JsonToken × List Char) :=
  match ofChar? c with
  | some t => some (t, rest)
  | none =>
    if c == '"' then
      (scanText rest).map fun (units, rest) => (text ((assemble units).map String.ofList), rest)
    else if c == '-' || c.isDigit then
      let literal := c :: rest.takeWhile isNumeric
      if (Literal.parse? literal).isSome then
        some (number (String.ofList literal), rest.dropWhile isNumeric)
      else none
    else
      match c :: rest with
      | 'n' :: 'u' :: 'l' :: 'l' :: rest => some (null, rest)
      | 't' :: 'r' :: 'u' :: 'e' :: rest => some (bool true, rest)
      | 'f' :: 'a' :: 'l' :: 's' :: 'e' :: rest => some (bool false, rest)
      | _ => none

/-- The tokens of a text, found in at most `fuel` steps. -/
def scanFrom : Nat → List Char → Option (List JsonToken)
  | 0, _ => none
  | _ + 1, [] => some []
  | fuel + 1, c :: rest =>
    if isBlank c then scanFrom fuel rest
    else do
      let (t, rest) ← next? c rest
      let ts ← scanFrom fuel rest
      return t :: ts

def scan (cs : List Char) : Option (List JsonToken) := scanFrom (cs.length + 1) cs

end JsonToken

end SeismicHazard
