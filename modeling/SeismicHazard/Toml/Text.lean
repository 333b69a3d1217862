import SeismicHazard.Toml.Basic

/-!
# Strings and keys in TOML

* `Toml.basicString`, `Toml.literalString`: strings on one line.
* `Toml.longBasicString`, `Toml.longLiteralString`: strings over several lines.
* `Toml.string?`: a string of any kind.
* `Toml.keyPath?`: a key, which may have several parts with points between them.

Every function reads from the front of the characters and gives what follows.
-/

namespace SeismicHazard

namespace Toml

def isBlank (c : Char) : Bool := c == ' ' || c == '\t'

def skipBlanks (cs : List Char) : List Char := cs.dropWhile isBlank

/-- Whether a character may stand for itself in a comment: tabs and all but control characters. -/
def isPlain (c : Char) : Bool := c == '\t' || (32 ≤ c.toNat && c.toNat != 127)

def hexDigit? (c : Char) : Option Nat :=
  if c.isDigit then some (c.toNat - '0'.toNat)
  else if 'a' ≤ c ∧ c ≤ 'f' then some (c.toNat - 'a'.toNat + 10)
  else if 'A' ≤ c ∧ c ≤ 'F' then some (c.toNat - 'A'.toNat + 10)
  else none

def charOfHex? (digits : List Char) : Option Char := do
  let ds ← digits.mapM hexDigit?
  let n := ds.foldl (fun n d => n * 16 + d) 0
  if h : n.isValidChar then some (Char.ofNatAux n h) else none

def simpleEscape? : Char → Option Char
  | 'b' => some (Char.ofNat 8)
  | 't' => some '\t'
  | 'n' => some '\n'
  | 'f' => some (Char.ofNat 12)
  | 'r' => some '\r'
  | '"' => some '"'
  | '\\' => some '\\'
  | _ => none

/-- A character in front of what is read after it. -/
def cons? (c : Option Char) (rest : Option (List Char × List Char)) :
    Option (List Char × List Char) := do
  let c ← c
  let (cs, rest) ← rest
  return (c :: cs, rest)

/-- A string on one line with escapes, after its opening quote. -/
def basicString : List Char → Option (List Char × List Char)
  | [] => none
  | '"' :: rest => some ([], rest)
  | '\\' :: 'u' :: a :: b :: c :: d :: rest => cons? (charOfHex? [a, b, c, d]) (basicString rest)
  | '\\' :: 'U' :: a :: b :: c :: d :: e :: f :: g :: h :: rest =>
    cons? (charOfHex? [a, b, c, d, e, f, g, h]) (basicString rest)
  | '\\' :: c :: rest => cons? (simpleEscape? c) (basicString rest)
  | c :: rest => if isPlain c && c != '\\' then cons? (some c) (basicString rest) else none

/-- A string on one line without escapes, after its opening quote. -/
def literalString : List Char → Option (List Char × List Char)
  | [] => none
  | '\'' :: rest => some ([], rest)
  | c :: rest => if isPlain c then cons? (some c) (literalString rest) else none

def lineBreak? : List Char → Option (List Char)
  | '\n' :: rest => some rest
  | '\r' :: '\n' :: rest => some rest
  | _ => none

def skipLineBreak (cs : List Char) : List Char := (lineBreak? cs).getD cs

/-- The end of a string over several lines, after three closing quotes: up to two further quotes still
belong to the string. -/
def closing (q : Char) : List Char → List Char × List Char
  | a :: b :: rest => if a = q ∧ b = q then ([q, q], rest) else if a = q then ([q], b :: rest) else ([], a :: b :: rest)
  | [a] => if a = q then ([q], []) else ([], [a])
  | [] => ([], [])

def breaksLine (cs : List Char) : Bool := (lineBreak? (skipBlanks cs)).isSome

def escaped? : List Char → Option (Char × List Char)
  | 'u' :: a :: b :: c :: d :: rest => (charOfHex? [a, b, c, d]).map (·, rest)
  | 'U' :: a :: b :: c :: d :: e :: f :: g :: h :: rest =>
    (charOfHex? [a, b, c, d, e, f, g, h]).map (·, rest)
  | c :: rest => (simpleEscape? c).map (·, rest)
  | [] => none

/-- A string over several lines with escapes, after its opening quotes, read in at most `fuel` steps.
After a backslash at the end of a line, `trim` is set and all blanks and line breaks are dropped. -/
def longBasicString : Nat → Bool → List Char → Option (List Char × List Char)
  | 0, _, _ => none
  | _, _, [] => none
  | fuel + 1, trim, c :: rest =>
    match lineBreak? (c :: rest) with
    | some rest =>
      if trim then longBasicString fuel true rest
      else cons? (some '\n') (longBasicString fuel false rest)
    | none =>
      if trim && isBlank c then longBasicString fuel true rest
      else if c = '"' then
        match rest with
        | '"' :: '"' :: rest => some (closing '"' rest)
        | _ => cons? (some '"') (longBasicString fuel false rest)
      else if c = '\\' then
        if breaksLine rest then longBasicString fuel true rest
        else
          match escaped? rest with
          | some (c, rest) => cons? (some c) (longBasicString fuel false rest)
          | none => none
      else if isPlain c then cons? (some c) (longBasicString fuel false rest)
      else none

/-- A string over several lines without escapes, after its opening quotes, read in at most `fuel`
steps. -/
def longLiteralString : Nat → List Char → Option (List Char × List Char)
  | 0, _ => none
  | _, [] => none
  | fuel + 1, c :: rest =>
    match lineBreak? (c :: rest) with
    | some rest => cons? (some '\n') (longLiteralString fuel rest)
    | none =>
      match c, rest with
      | '\'', '\'' :: '\'' :: rest => some (closing '\'' rest)
      | c, rest => if isPlain c then cons? (some c) (longLiteralString fuel rest) else none

def shortString? : List Char → Option (List Char × List Char)
  | '"' :: rest => basicString rest
  | '\'' :: rest => literalString rest
  | _ => none

def string? : List Char → Option (List Char × List Char)
  | '"' :: '"' :: '"' :: rest => longBasicString (rest.length + 1) false (skipLineBreak rest)
  | '\'' :: '\'' :: '\'' :: rest => longLiteralString (rest.length + 1) (skipLineBreak rest)
  | cs => shortString? cs

def simpleKey? (cs : List Char) : Option (String × List Char) :=
  match shortString? cs with
  | some (name, rest) => some (String.ofList name, rest)
  | none =>
    match cs.takeWhile isBare with
    | [] => none
    | name => some (String.ofList name, cs.dropWhile isBare)

/-- The parts of a key, in at most `fuel` parts, and what follows it and the blanks after it. -/
def keyParts? : Nat → List Char → Option (List String × List Char)
  | 0, _ => none
  | fuel + 1, cs => do
    let (name, rest) ← simpleKey? (skipBlanks cs)
    match skipBlanks rest with
    | '.' :: rest =>
      let (names, rest) ← keyParts? fuel rest
      return (name :: names, rest)
    | rest => return ([name], rest)

/-- How deep tables and lists may be nested. -/
def maxDepth : Nat := 79

def keyPath? (cs : List Char) : Option (List String × List Char) := keyParts? maxDepth cs

end Toml

end SeismicHazard
