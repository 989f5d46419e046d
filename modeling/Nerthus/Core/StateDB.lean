import Nerthus.Core.Types
import Nerthus.Lib.Ledger

/-!
# The state of a chain

`state.StateDB` with the accounts it has loaded, and the marks of `SetTxActionStateInChain`. An
account remembers the balance that it had when the changes were last read (`initBalance`); the
difference goes into a receipt.
-/

namespace Nerthus.Core

open Lib (Ledger)

def emptyCodeHash : Hash :=
  ⟨0xc5d2460186f7233c927e7db2dcc703c0e500b653ca82273b7bfad8045d85a470⟩

/-- A state object. Without code it has the hash of no code, so the hash is never the
empty one. -/
structure Account where
  nonce : Nat
  balance : Nat
  initBalance : Nat
  codeHash : Hash
  codeHash_ne : codeHash ≠ Hash.zero

theorem emptyCodeHash_ne : emptyCodeHash ≠ Hash.zero := by decide

def newObject : Account := ⟨0, 0, 0, emptyCodeHash, emptyCodeHash_ne⟩

abbrev Accounts := Ledger Address Account

structure StateDB where
  accounts : Accounts
  trie : List Address
  /-- The actions of the transaction that are marked, by chain. -/
  marks : List (Address × TxAction)

variable (db : StateDB)

namespace StateDB

def getOrNewStateObject (a : Address) : Account :=
  (db.accounts.get? a).getD newObject

def setStateObject (a : Address) (obj : Account) : StateDB :=
  { db with accounts := db.accounts.put a obj }

def getBalance (a : Address) : Nat := (db.accounts.get? a).elim 0 Account.balance

def getNonce (a : Address) : Nat := (db.accounts.get? a).elim 0 Account.nonce

def getCodeHash (a : Address) : Hash :=
  (db.accounts.get? a).elim Hash.zero Account.codeHash

def setBalance (a : Address) (amount : Nat) : StateDB :=
  db.setStateObject a { db.getOrNewStateObject a with balance := amount }

def addBalance (a : Address) (amount : Nat) : StateDB :=
  db.setBalance a (db.getBalance a + amount)

def subBalance (a : Address) (amount : Nat) : StateDB :=
  db.setBalance a (db.getBalance a - amount)

def setNonce (a : Address) (nonce : Nat) : StateDB :=
  db.setStateObject a { db.getOrNewStateObject a with nonce := nonce }

def resetInitBalance (a : Address) (amount : Nat) : StateDB :=
  db.setStateObject a { db.getOrNewStateObject a with initBalance := amount }

def onChain (chain a : Address) : Bool := a == chain || chain.isContract && a.isContract

def suicide (a : Address) : StateDB :=
  match db.accounts.get? a with
  | none => db
  | some _ => db.setBalance a 0

def clearForeign (chain : Address) : StateDB :=
  db.trie.foldl (fun db a => if onChain chain a then db else db.suicide a) db

/-- `GetBalanceChanged`: the differences by address, in the order of the addresses. -/
def balanceChanged : List (Address × Int) :=
  (db.accounts.entries.map fun e => (e.1, (e.2.balance : Int) - e.2.initBalance)).insertionSort
    fun x y => x.1.hash ≤ y.1.hash

def resetChanges : StateDB :=
  { db with accounts := db.accounts.update fun _ obj => { obj with initBalance := obj.balance } }

def checkTxActionInChain (mc : Address) (action : TxAction) : Except Err Unit :=
  if (mc, action) ∈ db.marks then .error (.other "repeat transaction in chain") else .ok ()

def setTxActionStateInChain (mc : Address) (action : TxAction) : StateDB :=
  { db with marks := (mc, action) :: db.marks }

def canTransfer (a : Address) (amount : Nat) : Bool := decide (amount ≤ db.getBalance a)

def transfer (sender recipient : Address) (amount : Nat) : StateDB :=
  (db.subBalance sender amount).addBalance recipient amount

end StateDB

end Nerthus.Core
