import Nerthus.Core.Types

/-!
# Units of the graph

What `core/dagchain_store.go`, `core/chain_branch.go` and `core/db_util.go` read of a unit.
-/

namespace Nerthus.Chain

open Core (TxAction)

/-- `types.Header`, with its hash. -/
structure Header where
  mc : Address
  number : Nat
  parentHash : Hash
  scHash : Hash
  proposer : Address
  stateRoot : Hash
  hash : Hash
  hash_ne : hash ≠ Hash.zero

instance : DecidableEq Header := fun a b =>
  decidable_of_iff ((a.mc, a.number, a.parentHash, a.scHash, a.proposer, a.stateRoot, a.hash) =
    (b.mc, b.number, b.parentHash, b.scHash, b.proposer, b.stateRoot, b.hash))
    (by cases a; cases b; simp)

theorem succ_ne_zeroHash (n : Nat) : (⟨n + 1⟩ : Hash) ≠ Hash.zero := by simp [Hash.zero]

/-- `types.TransactionExec`, with what the receipt says of the step. -/
structure TxExec where
  txHash : Hash
  action : TxAction
  preStep : Hash
  failed : Bool
deriving DecidableEq

structure DagUnit where
  header : Header
  txs : List TxExec
deriving DecidableEq

namespace DagUnit

def hash (u : DagUnit) : Hash := u.header.hash

def mc (u : DagUnit) : Address := u.header.mc

def number (u : DagUnit) : Nat := u.header.number

/-- The parent, the unit of the system chain and what the transactions continue. -/
def references (u : DagUnit) : List Hash :=
  ((u.header.parentHash :: u.header.scHash :: u.txs.map TxExec.preStep).filter
    fun p => !p.emptyHash).dedup

theorem nodup_references (u : DagUnit) : u.references.Nodup :=
  List.nodup_dedup _

end DagUnit

end Nerthus.Chain
