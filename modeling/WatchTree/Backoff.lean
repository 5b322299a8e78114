import WatchTree.Duration

/-!
# Pauses between fetches

A poller pauses for `delay` after a success. After a failure it pauses for `minBackoff`, and then
for the previous pause times the multiplier, kept between `minBackoff` and `maxBackoff`; if the
bounds are crossed, the lower one wins.
-/

namespace WatchTree

def Binary64.one : Binary64 := ⟨0x3ff0000000000000⟩

def Binary64.two : Binary64 := ⟨0x4000000000000000⟩

/-- A number that is at least one; NaN is not. -/
def Binary64.atLeastOne (x : Binary64) : Bool :=
  !x.isNaN && !x.negative && one.bits.toNat ≤ x.bits.toNat

/-- How a poller pauses. -/
structure PollConfig where
  delay : Duration := .of 1 0
  minBackoff : Duration := .of 1 0
  maxBackoff : Duration := .of 60 0
  multiplier : Binary64 := .two
  deriving DecidableEq

namespace PollConfig

def withDelay (c : PollConfig) (delay : Duration) : PollConfig := { c with delay }

/-- Sets both bounds of the pause after a failure, the upper one at least the lower. -/
def withBackoff (c : PollConfig) (least greatest : Duration) : PollConfig :=
  { c with minBackoff := least, maxBackoff := max greatest least }

/-- Sets the factor, at least one. -/
def withMultiplier (c : PollConfig) (factor : Binary64) : PollConfig :=
  { c with multiplier := if factor.atLeastOne then factor else .one }

/-- Brings a scaled pause between the bounds; one that could not be represented is the greatest. -/
def clamp (c : PollConfig) (scaled : Option Duration) : Duration :=
  max (min (scaled.getD c.maxBackoff) c.maxBackoff) c.minBackoff

/-- The pause after a failure, given the one after the failure before it. -/
def nextBackoff (c : PollConfig) : Option Duration → Duration
  | none => c.minBackoff
  | some previous => c.clamp (previous.scale? c.multiplier)

/-- The pauses after `n` failures in a row. -/
def pauses (c : PollConfig) (previous : Option Duration) : Nat → List Duration
  | 0 => []
  | n + 1 =>
    let pause := c.nextBackoff previous
    pause :: pauses c (some pause) n

end PollConfig

/-- The bound recommended for waiting for a first value. -/
def recommendedAwaitTimeout : Duration := .of 20 0

end WatchTree
