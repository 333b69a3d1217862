import SeismicHazard.Toml.Basic

/-!
# Numbers, dates and times in TOML

`Toml.scalar?` tells what a run of characters stands for: an integer of 64 bits, a number with a
fraction or an exponent, a date or a time. Single underscores may stand between digits.
-/

namespace SeismicHazard

namespace Toml

/-- The digits in base `base` with single underscores between them, as numbers. -/
def underscored? (digit? : Char → Option Nat) : List Char → Option (List Nat)
  | [] => none
  | [c] => do return [← digit? c]
  | c :: '_' :: rest => do return (← digit? c) :: (← underscored? digit? rest)
  | c :: rest => do return (← digit? c) :: (← underscored? digit? rest)

def digitBelow? (base : Nat) (c : Char) : Option Nat :=
  let d :=
    if c.isDigit then some (c.toNat - '0'.toNat)
    else if 'a' ≤ c ∧ c ≤ 'f' then some (c.toNat - 'a'.toNat + 10)
    else if 'A' ≤ c ∧ c ≤ 'F' then some (c.toNat - 'A'.toNat + 10)
    else none
  d.filter (· < base)

/-- Digits without a needless leading zero. -/
def wholeDigits? (cs : List Char) : Option (List Nat) := do
  let ds ← underscored? Literal.digit? cs
  if ds.length ≠ 1 ∧ ds.head? = some 0 then none else return ds

def ofDigits (base : Nat) (ds : List Nat) : Nat := ds.foldl (fun n d => n * base + d) 0

/-- An integer, if it fits 64 bits. -/
def fit? (n : Int) : Option Toml :=
  if Int64.minValue.toInt ≤ n ∧ n ≤ Int64.maxValue.toInt then some (integer n) else none

/-- An integer without a sign in base 16, 8 or 2, or one in base ten. -/
def integer? : List Char → Option Toml
  | '0' :: 'x' :: cs => do fit? (ofDigits 16 (← underscored? (digitBelow? 16) cs))
  | '0' :: 'o' :: cs => do fit? (ofDigits 8 (← underscored? (digitBelow? 8) cs))
  | '0' :: 'b' :: cs => do fit? (ofDigits 2 (← underscored? (digitBelow? 2) cs))
  | cs => do
    let (negative, cs) := Literal.sign cs
    fit? (Literal.signed negative (← wholeDigits? cs))

def exponent? : List Char → Option (Option (Bool × List Nat))
  | [] => some none
  | _ :: cs => do
    let (negative, cs) := Literal.sign cs
    return some (negative, ← underscored? Literal.digit? cs)

def beginsExponent (c : Char) : Bool := c == 'e' || c == 'E'

def fraction? : List Char → Option (Option (List Nat))
  | [] => some none
  | _ :: cs => do return some (← underscored? Literal.digit? cs)

/-- Whether a decimal is positive and so large that no double is near it. -/
def isTooLarge (d : Decimal) : Bool :=
  !d.negative && d.digits != 0 &&
    (310 < d.leading || (300 < d.leading &&
      (1 <<< 1024 - 1 <<< 970) * Nat.pow 10 (-d.exponent).toNat ≤
        d.digits * Nat.pow 10 d.exponent.toNat))

def float? (cs : List Char) : Option Toml := do
  let (negative, unsigned) := Literal.sign cs
  let mantissa := unsigned.takeWhile fun c => !beginsExponent c
  let whole ← wholeDigits? (mantissa.takeWhile (· != '.'))
  let fraction ← fraction? (mantissa.dropWhile (· != '.'))
  let exponent ← exponent? (unsigned.dropWhile fun c => !beginsExponent c)
  guard (fraction.isSome || exponent.isSome)
  match (Literal.mk negative whole fraction exponent).numeral with
  | .finite d => if isTooLarge d then none else some (float (.finite d))
  | _ => none

def special? (cs : List Char) : Option Toml :=
  let (negative, cs) := Literal.sign cs
  if cs = ['i', 'n', 'f'] then some (float (.infinite negative))
  else if cs = ['n', 'a', 'n'] then some (float .nan)
  else none

def twoDigits? (bound : Nat) (a b : Char) : Option Nat := do
  let n := (← Literal.digit? a) * 10 + (← Literal.digit? b)
  if n ≤ bound then some n else none

def daysOf (year month : Nat) : Nat :=
  if month = 2 then
    if year % 4 = 0 ∧ (year % 100 ≠ 0 ∨ year % 400 = 0) then 29 else 28
  else if month = 4 ∨ month = 6 ∨ month = 9 ∨ month = 11 then 30
  else 31

def afterDate? : List Char → Option (List Char)
  | y₁ :: y₂ :: y₃ :: y₄ :: '-' :: m₁ :: m₂ :: '-' :: d₁ :: d₂ :: rest => do
    let ys ← [y₁, y₂, y₃, y₄].mapM Literal.digit?
    let month ← twoDigits? 12 m₁ m₂
    guard (1 ≤ month)
    let day ← twoDigits? (daysOf (Literal.ofDigits ys) month) d₁ d₂
    guard (1 ≤ day)
    return rest
  | _ => none

def afterSecondFraction? : List Char → Option (List Char)
  | '.' :: rest =>
    match Literal.digits rest with
    | ([], _) => none
    | (_, rest) => some rest
  | rest => some rest

def afterTime? : List Char → Option (List Char)
  | h₁ :: h₂ :: ':' :: m₁ :: m₂ :: ':' :: s₁ :: s₂ :: rest => do
    let _ ← twoDigits? 23 h₁ h₂
    let _ ← twoDigits? 59 m₁ m₂
    let _ ← twoDigits? 60 s₁ s₂
    afterSecondFraction? rest
  | _ => none

/-- Whether the characters are an offset from universal time, or nothing. -/
def isOffset : List Char → Bool
  | [] | ['Z'] | ['z'] => true
  | [sign, h₁, h₂, ':', m₁, m₂] =>
    (sign == '+' || sign == '-') && (twoDigits? 23 h₁ h₂).isSome && (twoDigits? 59 m₁ m₂).isSome
  | _ => false

/-- Whether the characters are a time of day, with an offset if it follows a date. -/
def isTime (afterDate : Bool) (cs : List Char) : Bool :=
  match afterTime? cs with
  | some rest => if afterDate then isOffset rest else rest.isEmpty
  | none => false

def isMoment (cs : List Char) : Bool :=
  match afterDate? cs with
  | some [] => true
  | some (c :: rest) => (c == 'T' || c == 't' || c == ' ') && isTime true rest
  | none => isTime false cs

def scalar? (cs : List Char) : Option Toml :=
  if isMoment cs then some moment
  else (integer? cs).or <| (float? cs).or <| special? cs

def isScalarChar (c : Char) : Bool :=
  c.isAlphanum || c == '_' || c == '+' || c == '-' || c == '.' || c == ':'

/-- The run of characters in front that may be a number, a date or a time, and what follows it. A time
may follow a date after a space. -/
def scalarRun (cs : List Char) : List Char × List Char :=
  let run := cs.takeWhile isScalarChar
  match afterDate? run, cs.dropWhile isScalarChar with
  | some [], ' ' :: c :: rest =>
    if c.isDigit then
      (run ++ ' ' :: (c :: rest).takeWhile isScalarChar, (c :: rest).dropWhile isScalarChar)
    else (run, ' ' :: c :: rest)
  | _, rest => (run, rest)

end Toml

end SeismicHazard
