import Nerthus.Common.Types

/-!
# Time points and their ranges

Package `bysolt` sorts the units by the hour of their timestamps. A time is the
number of nanoseconds since the epoch, without a bound, as `time.Time` has none to
speak of; a duration is an `int64`.
-/

namespace Nerthus.Bysolt

def second : Int := 10 ^ 9

def microsecond : Int := 10 ^ 3

def pointTimeSpan : Int := 3600 * second

def maxSlotUnits : Nat := 10000

inductive Fault where
  /-- The panic `number is zero`. -/
  | numberIsZero
  /-- The panic `the tree root should be have one node,but got %d`. -/
  | rootNodes (count : Nat)
  | divideByZero
  /-- The error `the time range id diffrent at depth %d: a(%s)=%s,b(%s)=%s`. -/
  | rangeDiffers (depth : Nat) (a b : Int × Int)
  | block
  | fuel
deriving DecidableEq

def sub (t u : Int) : Int := max (-2 ^ 63) (min (2 ^ 63 - 1) (t - u))

def unixNano (t : Int) : Nat := (t % 2 ^ 64).toNat

/-- The operations of `int64`, which wrap around. -/
def wrap (d : Int) : Int := Int.bmod d (2 ^ 64)

structure TimeSize where
  beginTime : Int
  endTime : Int
deriving DecidableEq

namespace TimeSize

def size (ts : TimeSize) : Int := sub ts.endTime ts.beginTime

def middle (ts : TimeSize) : Int := ts.beginTime + (sub ts.endTime ts.beginTime).tdiv 2

def left (ts : TimeSize) : TimeSize := ⟨ts.beginTime, ts.middle⟩

def right (ts : TimeSize) : TimeSize := ⟨ts.middle, ts.endTime⟩

def next (ts : TimeSize) : TimeSize := ⟨ts.endTime, ts.endTime + ts.size⟩

end TimeSize

/-- `PointTimeRange`, counted from the whole second of `initTime`. -/
def pointTimeRange (initTime : Int) (number : Nat) : Except Fault TimeSize :=
  if number = 0 then .error .numberIsZero
  else
    let initTime := initTime / second * second
    let times := wrap ((number - 1) * pointTimeSpan)
    .ok ⟨initTime + times, initTime + wrap (times + pointTimeSpan)⟩

def calcDepth (sum cur : Int) : Nat := Nat.clog 2 (sum.tdiv cur).toNat

structure UnitInfo where
  time : Nat
  hash : Hash
deriving DecidableEq

structure SlotNode where
  chains : List UnitInfo
  timeRange : TimeSize
deriving DecidableEq

end Nerthus.Bysolt
