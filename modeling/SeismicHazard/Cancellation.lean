/-!
# Cancellation tokens

Tokens that are copies of each other share one flag, which any of them can set.
-/

namespace SeismicHazard

/-- Tokens and the flags that they share. -/
structure TokenPool where
  flags : List Bool
  /-- The index of the flag of each token. -/
  tokens : List Nat

namespace TokenPool

def single : TokenPool := ⟨[false], [0]⟩

/-- One more token with a flag of its own. -/
def fresh (p : TokenPool) : TokenPool := ⟨p.flags ++ [false], p.tokens ++ [p.flags.length]⟩

/-- One more token, a copy of the given one. -/
def copy (p : TokenPool) (token : Nat) : TokenPool :=
  match p.tokens[token]? with
  | some flag => { p with tokens := p.tokens ++ [flag] }
  | none => p

def cancel (p : TokenPool) (token : Nat) : TokenPool :=
  match p.tokens[token]? with
  | some flag => { p with flags := p.flags.set flag true }
  | none => p

def isCancelled (p : TokenPool) : List Bool := p.tokens.map fun flag => p.flags[flag]?.getD false

end TokenPool

end SeismicHazard
