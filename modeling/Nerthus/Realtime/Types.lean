import Nerthus.Common.Types
import Nerthus.Realtime.Merkle

/-!
# The contents of the realtime tree

A leaf is the state of one chain. `merkle.Tree` hashes with `fnv.New32`.
-/

namespace Nerthus.Realtime

structure ChainStatus where
  addr : Address
  number : Nat
  index : Nat
deriving DecidableEq

/-- `common.Uint64ToBytes`, big endian. -/
def uint64ToBytes (n : Nat) : Bytes :=
  [56, 48, 40, 32, 24, 16, 8, 0].map fun s => UInt8.ofNat (n >>> s)

instance : Content ChainStatus where
  hash hasher t := hasher (uint64ToBytes t.index ++ uint64ToBytes t.number)

/-- `Tree.Hash`: the 32-bit FNV-1 hash, big endian. -/
def fnv32 (b : Bytes) : Bytes :=
  let sum : UInt32 := b.foldl (fun hash c => hash * 16777619 ^^^ c.toUInt32) 2166136261
  ([24, 16, 8, 0] : List UInt32).map fun s => (sum >>> s).toUInt8

end Nerthus.Realtime
