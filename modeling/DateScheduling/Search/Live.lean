import DateScheduling.Search.Run

/-!
# Live searches

A search makes the same steps when the cancel signal and the clock are read
while it goes on.  They are read in some monad, and only at the checks of the
limits; a search with fixed readings is the case in which nothing is read.
-/

namespace DateScheduling

/-- How to read the cancel signal and the clock. -/
structure Signals (μ : Type → Type) where
  /-- Has the search been cancelled? -/
  cancelled : μ Bool
  /-- Has the deadline passed? -/
  late : μ Bool
  /-- How many milliseconds have gone by since the start? -/
  elapsedMs : μ Nat

namespace Search

variable {μ : Type → Type} [Monad μ]

/-- What a check of the limits says, with what the signals say now in place of the readings.
The clock is looked at only when it is time for it, and nothing is read where no candidate is
to be tried. -/
def liveVerdict (domains : Array (List Date)) (limits : Limits) (signals : Signals μ)
    (s : State) : μ (Option Stop) :=
  if s.AtCheck domains then do
    let cancelled ← signals.cancelled
    let late ←
      if limits.hasDeadline ∧ s.nodes % Limits.clockInterval = 0 then signals.late
      else pure false
    return (limits.withReadings (.constant cancelled late)).verdict s.nodes
  else pure none

/-- Make steps until the search is over, and read the signals at each check. -/
def runLive (net : Network) (domains : Array (List Date)) (limits : Limits)
    (signals : Signals μ) (s : State) : μ (Except Fault Outcome × State) := do
  let verdict ← liveVerdict domains limits signals s
  match _h : step net domains verdict s with
  | .ended outcome final => return (.ok outcome, final)
  | .faulty fault final => return (.error fault, final)
  | .next s' => runLive net domains limits signals s'
termination_by pending domains s
decreasing_by exact step_decreases _h

end Search
end DateScheduling
