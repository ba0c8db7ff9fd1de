/-! # Cancel tokens

A token asks everyone who holds it to stop. It has a flag of its own, which nobody lowers, and may have
been made below another token: it then also counts as raised when that one does. A copy of a token shares
its flag. -/

namespace TileOffload

/-- A token: the number of its own flag, and those of the tokens above it, the nearest first. -/
structure CancelToken where
  own : Nat
  above : List Nat
deriving DecidableEq, Repr

/-- The flags of all tokens, by number. -/
structure CancelFlags where
  raised : Array Bool
deriving DecidableEq, Repr

namespace CancelFlags

/-- No token yet. -/
def empty : CancelFlags := ⟨#[]⟩

/-- A new token with a flag of its own, below nothing. -/
def create (f : CancelFlags) : CancelToken × CancelFlags :=
  (⟨f.raised.size, []⟩, ⟨f.raised.push false⟩)

/-- A new token below another. -/
def child (f : CancelFlags) (t : CancelToken) : CancelToken × CancelFlags :=
  (⟨f.raised.size, t.own :: t.above⟩, ⟨f.raised.push false⟩)

/-- Raises the token's own flag. -/
def raise (f : CancelFlags) (t : CancelToken) : CancelFlags :=
  ⟨f.raised.setIfInBounds t.own true⟩

/-- Whether a flag is raised. -/
def isRaised (f : CancelFlags) (flag : Nat) : Bool := f.raised.getD flag false

/-- Whether the token's own flag or one above it is raised. -/
def isCancelled (f : CancelFlags) (t : CancelToken) : Bool :=
  f.isRaised t.own || t.above.any f.isRaised

end CancelFlags

/-- A call on tokens, which are numbered in the order in which they were made. -/
inductive TokenCall
  /-- Makes a token below nothing. -/
  | create
  /-- Makes a token below another. -/
  | child (parent : Nat)
  /-- Makes a copy of a token. -/
  | copy (original : Nat)
  /-- Raises a token. -/
  | raise (token : Nat)
deriving DecidableEq, Repr

/-- Tokens in the order in which they were made, and their flags. -/
structure CancelForest where
  tokens : List CancelToken
  flags : CancelFlags
deriving DecidableEq, Repr

namespace CancelForest

/-- No token yet. -/
def empty : CancelForest := ⟨[], .empty⟩

/-- Adds a token that has just been made. -/
def plant (f : CancelForest) (made : CancelToken × CancelFlags) : CancelForest := ⟨f.tokens ++ [made.1], made.2⟩

/-- Makes a call, if it names a token that there is. -/
def call? (f : CancelForest) : TokenCall → Option CancelForest
  | .create => some (f.plant f.flags.create)
  | .child parent => f.tokens[parent]?.map fun t => f.plant (f.flags.child t)
  | .copy original => f.tokens[original]?.map fun t => f.plant (t, f.flags)
  | .raise token => f.tokens[token]?.map fun t => { f with flags := f.flags.raise t }

/-- Makes calls one after another. -/
def callAll? (f : CancelForest) (calls : List TokenCall) : Option CancelForest := calls.foldlM call? f

/-- Whether each token is cancelled. -/
def reports (f : CancelForest) : List Bool := f.tokens.map f.flags.isCancelled

end CancelForest

end TileOffload
