import Mathlib.Algebra.GroupWithZero.Nat

/-!
# Primitive types of the node

Hashes, outpoints, amounts and transactions, with the fields the modelled functions read.
-/

namespace Defcon

/-- `uint256`. The null hash is zero. -/
abbrev Uint256 := BitVec 256

instance lawfulBEq_uint256 : LawfulBEq Uint256 := inferInstance

instance neZero_three : NeZero (2 + 1) := inferInstance

instance neZero_four : NeZero (3 + 1) := inferInstance

instance neZero_five : NeZero (4 + 1) := inferInstance

instance neZero_twentyFour : NeZero (23 + 1) := inferInstance

/-- `CAmount`: an amount in satoshis, signed as in the source. -/
abbrev CAmount := Int

/-- `NodeId`; `-1` stands for the node itself. -/
abbrev NodeId := Int

def COIN : CAmount := 100000000

structure COutPoint where
  hash : Uint256
  n : Nat
  deriving DecidableEq, Repr

/-- `CScript`, by its bytes. -/
abbrev CScript := List UInt8

structure CTxOut where
  nValue : CAmount
  scriptPubKey : CScript
  deriving DecidableEq, Repr

/-- A transaction. `hash` is what `GetHash` returns, and an input is its `prevout`. -/
structure CTransaction where
  hash : Uint256
  vin : List COutPoint
  vout : List CTxOut
  deriving DecidableEq, Repr

end Defcon
