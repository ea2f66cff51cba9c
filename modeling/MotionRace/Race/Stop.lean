/-!
# Stop flags

A stop token is a name for a flag; two tokens are clones of each other when they name the same flag.
A bridge is the list of the tokens that one race can signal. Setting a flag only asks: whoever holds
a token looks at it when it suits.
-/

namespace MotionRace

/-- A handle on one stop flag. -/
structure Token where
  flag : Nat
  deriving Repr, BEq, DecidableEq, Inhabited

/-- The stop flags of a program, in the order they were made. A flag is never taken back. -/
structure Flags where
  raised : List Bool := []
  deriving Repr, BEq, DecidableEq

namespace Flags

/-- A new flag, not raised. -/
def fresh (flags : Flags) : Token × Flags := (⟨flags.raised.length⟩, ⟨flags.raised ++ [false]⟩)

/-- Several new flags. -/
def freshMany (flags : Flags) : (count : Nat) → List Token × Flags
  | 0 => ([], flags)
  | count + 1 =>
    let (token, flags) := flags.fresh
    let (tokens, flags) := flags.freshMany count
    (token :: tokens, flags)

/-- Ask whoever holds the token to stop. -/
def request (flags : Flags) (token : Token) : Flags := ⟨flags.raised.set token.flag true⟩

/-- Whether a stop was requested. -/
def isStopped (flags : Flags) (token : Token) : Bool := flags.raised.getD token.flag false

/-- A new flag is not raised. -/
@[simp] theorem isStopped_fresh (flags : Flags) :
    flags.fresh.2.isStopped flags.fresh.1 = false := by
  simp [fresh, isStopped]

/-- A request raises the flag of its token. -/
theorem isStopped_request_self {flags : Flags} {token : Token}
    (h : token.flag < flags.raised.length) : (flags.request token).isStopped token = true := by
  simp [request, isStopped, List.getD, h]

/-- A request leaves the flags of other tokens alone. -/
theorem isStopped_request_of_ne (flags : Flags) {token other : Token}
    (h : token.flag ≠ other.flag) :
    (flags.request token).isStopped other = flags.isStopped other := by
  simp [request, isStopped, List.getD, List.getElem?_set_ne h]

/-- No flag is ever taken back. -/
theorem isStopped_request_of_isStopped {flags : Flags} {token : Token} (other : Token)
    (h : flags.isStopped token = true) : (flags.request other).isStopped token = true := by
  by_cases same : other.flag = token.flag
  · have raised : other.flag < flags.raised.length := by
      apply Decidable.byContradiction
      intro beyond
      simp [isStopped, List.getD, List.getElem?_eq_none (Nat.not_lt.mp (same ▸ beyond))] at h
    simp [request, isStopped, List.getD, ← same, raised]
  · rw [isStopped_request_of_ne flags same, h]

end Flags

/-- The tokens that one race can signal. -/
structure Bridge where
  tokens : List Token := []
  deriving Repr, BEq, DecidableEq

namespace Bridge

/-- The number of workers that can be signalled. -/
def length (bridge : Bridge) : Nat := bridge.tokens.length

def isEmpty (bridge : Bridge) : Bool := bridge.tokens.isEmpty

/-- Add a new token. -/
def register (bridge : Bridge) (flags : Flags) : Token × Bridge × Flags :=
  let (token, flags) := flags.fresh
  (token, ⟨bridge.tokens ++ [token]⟩, flags)

/-- Add several new tokens. -/
def registerMany (bridge : Bridge) (flags : Flags) (count : Nat) :
    List Token × Bridge × Flags :=
  let (tokens, flags) := flags.freshMany count
  (tokens, ⟨bridge.tokens ++ tokens⟩, flags)

/-- Signal every token. The answer is whether there was one to signal. -/
def stopAll (bridge : Bridge) (flags : Flags) : Bool × Flags :=
  (!bridge.isEmpty, bridge.tokens.foldl Flags.request flags)

end Bridge

end MotionRace
