/-!
# When to poll

Polling starts with a short period after something was sent and slows down
by a fixed step, up to a longest period, while nothing happens. Times are
milliseconds.
-/
namespace LanguageClient

/-- The shortest and longest period, and how much a quiet poll adds. -/
structure Backoff where
  least : Nat
  greatest : Nat
  step : Nat
  deriving DecidableEq, Repr

namespace Backoff

/-- From 10 to 250 milliseconds in steps of 10. -/
def standard : Backoff := ⟨10, 250, 10⟩

instance : Inhabited Backoff := ⟨standard⟩

/-- The period after a quiet poll. -/
def next (b : Backoff) (period : Nat) : Nat :=
  min (period + b.step) b.greatest

end Backoff

/-- The current period and when the next poll is due, if polling. -/
structure PollSchedule where
  backoff : Backoff
  period : Nat
  due : Option Nat
  deriving DecidableEq, Repr, Inhabited

namespace PollSchedule

def stopped (b : Backoff) : PollSchedule := ⟨b, b.least, none⟩

/-- Polls with the shortest period from now on. -/
def restart (s : PollSchedule) (now : Nat) : PollSchedule :=
  { s with period := s.backoff.least, due := some (now + s.backoff.least) }

def stop (s : PollSchedule) : PollSchedule :=
  { s with due := none }

def isRunning (s : PollSchedule) : Bool :=
  s.due.isSome

def isDue (s : PollSchedule) (now : Nat) : Bool :=
  match s.due with
  | some due => due ≤ now
  | none => false

/-- Sets the next poll after a quiet one. -/
def fired (s : PollSchedule) (now : Nat) : PollSchedule :=
  match s.due with
  | none => s
  | some _ =>
    let period := s.backoff.next s.period
    { s with period := period, due := some (now + period) }

end PollSchedule

end LanguageClient
