import Nerthus.Common.Types

/-!
# The timeline of the units

The database has a key for every unit, made of its timestamp and its hash, so an
iterator meets the units in the order of their timestamps.
-/

namespace Nerthus.Rawdb

structure Timeline where
  units : List (Nat × Hash)
  ordered : units.Pairwise fun a b => a.1 ≤ b.1
  fits : ∀ e ∈ units, e.1 < 2 ^ 64

namespace Timeline

def empty : Timeline := ⟨[], .nil, nofun⟩

/-- `RangRangeUnits`: the keys from that of `(start, Hash{})` on, below that of
`(end+1, Hash{})`. -/
def rangRangeUnits (t : Timeline) (start stop : Nat) : List (Nat × Hash) :=
  t.units.filter fun e => start ≤ e.1 ∧ e.1 < uint64 (stop + 1)

end Timeline

end Nerthus.Rawdb
