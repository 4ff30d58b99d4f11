import Mathlib.Data.Finset.Basic
import Defcon.Lib.AssocMap
import Defcon.Lib.Run
import Defcon.Primitives

/-!
# Transactions without an InstantSend lock

`CInstantSendManager` tracks the transactions it has not locked yet in two maps: by id, with
placeholder entries for parents it has only heard of through a child, and by spent outpoint.
`ResolveBlockConflicts` finds the mined transactions that a new lock conflicts with through
the second map. Block index pointers are values of an arbitrary type `B`, signatures of an
arbitrary type `Sig`.
-/

namespace Defcon.InstantSend

open AList (Map)

/-- `NonLockedTxInfo`. A placeholder has no `tx`, and `pindexMined` is null in it. -/
structure NonLockedTxInfo (B : Type) where
  pindexMined : Option B := none
  tx : Option CTransaction := none
  children : Finset Uint256 := ∅
  deriving DecidableEq

structure CInstantSendLock (Sig : Type) where
  inputs : List COutPoint
  txid : Uint256
  cycleHash : Uint256
  sig : Sig
  deriving DecidableEq

def MAX_PENDING_INSTANTSEND_LOCKS : Nat := 1024

/-- The part of `CInstantSendManager` that follows transactions without a lock. A request id is kept
as its outpoint. -/
structure CInstantSendManager (B Sig : Type) where
  nonLockedTxs : Map Uint256 (NonLockedTxInfo B) := ∅
  nonLockedTxsByOutpoints : Map COutPoint Uint256 := ∅
  pendingRetryTxs : Finset Uint256 := ∅
  pendingInstantSendLocks : Map Uint256 (NodeId × CInstantSendLock Sig) := ∅
  pendingNoTxInstantSendLocks : Map Uint256 (NodeId × CInstantSendLock Sig) := ∅
  inputRequestIds : Finset COutPoint := ∅

namespace CInstantSendManager

variable {B Sig : Type}

/-- One input of the loop in `AddNonLockedTx`. -/
def addSpend (txid : Uint256) (s : CInstantSendManager B Sig) (prevout : COutPoint) :
    CInstantSendManager B Sig :=
  { s with
    nonLockedTxs := s.nonLockedTxs.modifyD prevout.hash {}
      fun parent => { parent with children := insert txid parent.children }
    nonLockedTxsByOutpoints := s.nonLockedTxsByOutpoints.emplace prevout txid }

variable (s : CInstantSendManager B Sig)

/-- The second half of `AddNonLockedTx`: a lock that waited for this transaction is pending again.
-/
def requeueNoTxLock (txid : Uint256) : CInstantSendManager B Sig :=
  match s.pendingNoTxInstantSendLocks.entries.find? fun e => e.2.2.txid = txid with
  | none => s
  | some ⟨hash, from_islock⟩ =>
    let pending :=
      if hash ∉ s.pendingInstantSendLocks ∧
          MAX_PENDING_INSTANTSEND_LOCKS ≤ s.pendingInstantSendLocks.entries.length then
        s.pendingInstantSendLocks.eraseBegin
      else s.pendingInstantSendLocks
    { s with
      pendingInstantSendLocks := pending.emplace hash from_islock
      pendingNoTxInstantSendLocks := s.pendingNoTxInstantSendLocks.erase hash }

def addNonLockedTx (tx : CTransaction) (pindexMined : Option B) : CInstantSendManager B Sig :=
  let did_insert := tx.hash ∉ s.nonLockedTxs
  let mined : CInstantSendManager B Sig := { s with
    nonLockedTxs := s.nonLockedTxs.modifyD tx.hash {} fun info =>
      { info with pindexMined := pindexMined } }
  let spent :=
    if did_insert then
      let named : CInstantSendManager B Sig := { mined with
        nonLockedTxs := mined.nonLockedTxs.modifyD tx.hash {} fun info =>
          { info with tx := some tx } }
      tx.vin.foldl (addSpend tx.hash) named
    else mined
  spent.requeueNoTxLock tx.hash

/-- One input of the loop in `RemoveNonLockedTx`; the outpoint is erased whoever holds it. -/
def removeSpend (txid : Uint256) (s : CInstantSendManager B Sig) (prevout : COutPoint) :
    CInstantSendManager B Sig :=
  { s with
    nonLockedTxs :=
      match s.nonLockedTxs.lookup prevout.hash with
      | none => s.nonLockedTxs
      | some parent =>
        let parent := { parent with children := parent.children.erase txid }
        if parent.tx = none ∧ parent.children = ∅ then
          s.nonLockedTxs.erase prevout.hash
        else s.nonLockedTxs.insert prevout.hash parent
    nonLockedTxsByOutpoints := s.nonLockedTxsByOutpoints.erase prevout }

def removeNonLockedTx (txid : Uint256) (retryChildren : Bool) : CInstantSendManager B Sig :=
  match s.nonLockedTxs.lookup txid with
  | none => s
  | some info =>
    let retried :=
      if retryChildren then s.pendingRetryTxs ∪ info.children else s.pendingRetryTxs
    let s' : CInstantSendManager B Sig := { s with pendingRetryTxs := retried.erase txid }
    let unspent :=
      match info.tx with
      | none => s'
      | some tx => tx.vin.foldl (removeSpend txid) s'
    { unspent with nonLockedTxs := unspent.nonLockedTxs.erase txid }

def removeConflictedTx (tx : CTransaction) : CInstantSendManager B Sig :=
  let s' := s.removeNonLockedTx tx.hash false
  { s' with inputRequestIds := tx.vin.foldl Finset.erase s'.inputRequestIds }

def collectConflict [DecidableEq B] (s : CInstantSendManager B Sig) (islock : CInstantSendLock Sig)
    (conflicts : Map B (Map Uint256 CTransaction)) (prevout : COutPoint) :
    Map B (Map Uint256 CTransaction) :=
  match s.nonLockedTxsByOutpoints.lookup prevout with
  | none => conflicts
  | some conflictTxid =>
    if conflictTxid = islock.txid then conflicts
    else
      match s.nonLockedTxs.lookup conflictTxid with
      | none => conflicts
      | some info =>
        match info.pindexMined, info.tx with
        | some pindexMined, some tx =>
          conflicts.modifyD pindexMined ∅ (AList.emplace conflictTxid tx)
        | _, _ => conflicts

def collectConflicts [DecidableEq B] (s : CInstantSendManager B Sig)
    (islock : CInstantSendLock Sig) : Map B (Map Uint256 CTransaction) :=
  islock.inputs.foldl (s.collectConflict islock) ∅

/-- What `ResolveBlockConflicts` asks of the rest of the node. -/
inductive ConflictAction (B : Type) where
  | removeConflictingLock (islockHash : Uint256)
  | invalidateBlock (pindex : B)
  | resetBlockFailureFlags (pindex : B)
  | activateBestChain
  deriving DecidableEq

def resolveBlockConflicts [DecidableEq B] (hasChainLock : B → Bool)
    (s : CInstantSendManager B Sig) (islockHash : Uint256) (islock : CInstantSendLock Sig) :
    CInstantSendManager B Sig × List (ConflictAction B) :=
  let conflicts := (s.collectConflicts islock).entries
  if conflicts.any fun p => hasChainLock p.1 then
    (s, [.removeConflictingLock islockHash])
  else
    let isLockedTxKnown := islockHash ∉ s.pendingNoTxInstantSendLocks
    let s' := conflicts.foldl
      (fun s p => p.2.entries.foldl (fun s p2 => s.removeConflictedTx p2.2) s) s
    let actions := conflicts.flatMap fun p =>
      if isLockedTxKnown then [.invalidateBlock p.1]
      else [.invalidateBlock p.1, .resetBlockFailureFlags p.1]
    (s', if isLockedTxKnown ∧ conflicts ≠ [] then actions ++ [.activateBestChain] else actions)

def recorded (txid : Uint256) : Option (CTransaction × Option B) :=
  (s.nonLockedTxs.lookup txid).bind fun info => info.tx.map fun tx => (tx, info.pindexMined)

end CInstantSendManager

end Defcon.InstantSend
