import SeismicHazard.Toml.Basic

/-!
# Texts in quotes

TOML has four forms for a text: in double quotes, where a backslash begins an escape, and in single
quotes, where there are no escapes, each of them on one line or over several. A text is written in the
first form that needs no escapes. If every form needs some, it stands in double quotes.

* `Toml.QuotedForm`: the four forms.
* `Toml.quote`: a text in its form.
* `Toml.key`: a name as a key, in quotes only if it needs them. A key stands on one line.
-/

namespace SeismicHazard

namespace Toml

/-- A way to write a text in quotes. -/
inductive QuotedForm where
  | basic
  | literal
  | longBasic
  | longLiteral
deriving DecidableEq

def isControl (c : Char) : Bool := (c.toNat < 32 && c != '\t' && c != '\n') || c.toNat == 127

/-- The length of the longest run of a character, where `n` of them stand just before the text. -/
def longestRun (c : Char) : Nat → List Char → Nat
  | n, [] => n
  | n, d :: rest => if d = c then longestRun c (n + 1) rest else Max.max n (longestRun c 0 rest)

def hexDigits (n : Nat) : List Char :=
  [n / 4096, n / 256, n / 16, n].map fun d => (Nat.digitChar (d % 16)).toUpper

/-- A character other than a quote as it stands inside double quotes on one line. -/
def escape (c : Char) : List Char :=
  if c = '\\' then ['\\', '\\']
  else if c = '\n' then ['\\', 'n']
  else if c = '\r' then ['\\', 'r']
  else if c = '\t' then ['\\', 't']
  else if c.toNat = 8 then ['\\', 'b']
  else if c.toNat = 12 then ['\\', 'f']
  else if c.toNat < 32 ∨ c.toNat = 127 then '\\' :: 'u' :: hexDigits c.toNat
  else [c]

namespace QuotedForm

def isLong : QuotedForm → Bool
  | basic | literal => false
  | longBasic | longLiteral => true

def hasEscapes : QuotedForm → Bool
  | basic | longBasic => true
  | literal | longLiteral => false

def mark (f : QuotedForm) : Char := if f.hasEscapes then '"' else '\''

def delimiter (f : QuotedForm) : List Char := List.replicate (if f.isLong then 3 else 1) f.mark

/-- How many quotes may follow each other inside the form. -/
def quotesInside (f : QuotedForm) : Nat := if f.isLong then 2 else 0

def holds (f : QuotedForm) (cs : List Char) : Bool :=
  !cs.any isControl && !(f.hasEscapes && cs.contains '\\') && !(!f.isLong && cs.contains '\n')
    && longestRun f.mark 0 cs ≤ f.quotesInside

/-- A text inside the form, where `n` quotes stand just before it. Line breaks stay in the long form,
and of quotes that follow each other as many as it allows. -/
def escapeFrom (f : QuotedForm) : Nat → List Char → List Char
  | _, [] => []
  | n, c :: rest =>
    if c = '"' then
      if n < f.quotesInside then c :: f.escapeFrom (n + 1) rest
      else '\\' :: c :: f.escapeFrom 0 rest
    else if f.isLong && c == '\n' then c :: f.escapeFrom 0 rest
    else escape c ++ f.escapeFrom 0 rest

def inside (f : QuotedForm) (cs : List Char) : List Char :=
  if f.hasEscapes then f.escapeFrom 0 cs else cs

/-- The line break after the opening quotes, which does not belong to the text. -/
def lead (f : QuotedForm) (cs : List Char) : List Char :=
  if f.isLong && cs.contains '\n' then ['\n'] else []

def write (f : QuotedForm) (cs : List Char) : List Char :=
  f.delimiter ++ f.lead cs ++ f.inside cs ++ f.delimiter

def ofText (cs : List Char) : QuotedForm :=
  ([basic, literal, longBasic, longLiteral].find? (·.holds cs)).getD
    (if cs.contains '\n' then longBasic else basic)

def ofKey (cs : List Char) : QuotedForm := ([basic, literal].find? (·.holds cs)).getD basic

end QuotedForm

def quote (s : String) : String :=
  String.ofList ((QuotedForm.ofText s.toList).write s.toList)

def key (s : String) : String :=
  if s.toList ≠ [] ∧ s.toList.all isBare then s
  else String.ofList ((QuotedForm.ofKey s.toList).write s.toList)

end Toml

end SeismicHazard
