import Mathlib.Tactic

/-!
# Programs that call out

A program over a state `σ` that asks its surroundings. A `Peek` only looks: nothing else happens
until it is answered. An `Ask` hands control over, and before it is answered the surroundings may
call in again, any number of times and to any depth.
-/

namespace Elpis.Lib

structure Interface where
  Peek : Type
  Seen : Peek → Type
  Ask : Type
  Reply : Ask → Type

inductive Routine (ι : Interface) (σ α : Type) : Type where
  | ret (a : α)
  | read (k : σ → Routine ι σ α)
  | write (f : σ → σ) (k : Routine ι σ α)
  | peek (q : ι.Peek) (k : ι.Seen q → Routine ι σ α)
  | ask (q : ι.Ask) (k : ι.Reply q → Routine ι σ α)

namespace Routine

variable {ι : Interface} {σ α β : Type}

def bind : Routine ι σ α → (α → Routine ι σ β) → Routine ι σ β
  | ret a, g => g a
  | read k, g => read (fun s => (k s).bind g)
  | write f k, g => write f (k.bind g)
  | peek q k, g => peek q (fun a => (k a).bind g)
  | ask q k, g => ask q (fun a => (k a).bind g)

instance : Monad (Routine ι σ) where
  pure := ret
  bind := bind

/-- The state. -/
def get : Routine ι σ σ := read ret

def modify (f : σ → σ) : Routine ι σ Unit := write f (ret ())

/-- A look at the surroundings. -/
def look (q : ι.Peek) : Routine ι σ (ι.Seen q) := peek q ret

/-- A call to the surroundings. -/
def call (q : ι.Ask) : Routine ι σ (ι.Reply q) := ask q ret

end Routine

end Elpis.Lib
