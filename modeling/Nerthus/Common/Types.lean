import Mathlib

/-!
# Addresses and hashes

`common.Address` and `common.Hash` as the rest of the program compares them:
an address is known by its twenty-byte hash, a hash by its thirty-two bytes,
both read as numbers. Zero is the empty value of either type.
-/

namespace Nerthus

structure Address where
  hash : Nat
deriving DecidableEq

namespace Address

def emptyAddress : Address := ⟨0⟩

def empty (a : Address) : Bool := a.hash == 0

/-- `IsContract`: the hash of a contract's address starts with the bytes 1, 1, 1, 1. -/
def isContract (a : Address) : Bool := a.hash / 2 ^ 128 == 0x01010101

end Address

structure Hash where
  val : Nat
deriving DecidableEq

namespace Hash

def zero : Hash := ⟨0⟩

def emptyHash (h : Hash) : Bool := h == zero

@[simp] theorem emptyHash_iff {h : Hash} : h.emptyHash = true ↔ h = zero := by
  simp [emptyHash]

@[simp] theorem emptyHash_eq_false {h : Hash} : h.emptyHash = false ↔ h ≠ zero := by
  simp [emptyHash]

end Hash

/-- `uint64(x)` of a non-negative number. -/
def uint64 (n : Nat) : Nat := n % 2 ^ 64

theorem uint64_of_lt {n : Nat} (h : n < 2 ^ 64) : uint64 n = n :=
  Nat.mod_eq_of_lt h

/-- `int64(x)` of a non-negative number: the low 64 bits, read as signed. -/
def int64 (n : Nat) : Int := Int.bmod n (2 ^ 64)

end Nerthus
