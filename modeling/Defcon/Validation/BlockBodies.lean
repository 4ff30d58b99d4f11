import Mathlib
import Defcon.Lib.Fallible
import Defcon.Lib.Merkle
import Defcon.Primitives

/-!
# Several bodies for one header

A block's transactions and its signature are not part of the header, so any node can send other
ones with a known header. `CheckBlock` runs before a header's entry in the block index is touched,
and only what it accepted reaches the checks that mark the entry as failed. The transactions of such
a block are those the header commits to; its signature may still be written in other bytes.
-/

namespace Defcon.Validation.Body

open Lib (refuseIf need)
open Lib.Merkle (computeMerkleRoot)
open Lib List

/-! ### Blocks -/

structure CBlockHeader (Hash : Type) where
  nVersion : Int
  hashPrevBlock : Hash
  hashMerkleRoot : Hash
  nTime : Int
  nBits : UInt32
  nNonce : UInt32

structure CBlock (Tx Hash : Type) extends CBlockHeader Hash where
  vtx : List Tx
  vchBlockSig : List UInt8
  fChecked : Bool := false
  m_checked_merkle_root : Bool := false

inductive BlockValidationResult where
  | consensus
  | recentConsensusChange
  | cachedInvalid
  | invalidHeader
  | mutated
  | missingPrev
  | invalidPrev
  | timeFuture
  | chainlock
  deriving DecidableEq, Repr

structure Reject where
  result : BlockValidationResult
  reason : String
  deriving DecidableEq, Repr

inductive TxoutType where
  | pubKey
  | pubKeyHash
  | other
  deriving DecidableEq, Repr

/-- What the checks read of a transaction, the functions they call on keys and hashes, and the
consensus parameters. -/
structure Rules (Tx Hash : Type) where
  getHash : Tx → Hash
  isCoinBase : Tx → Bool
  isCoinStake : Tx → Bool
  firstOutIsEmpty : Tx → Bool
  secondOutScript : Tx → Option CScript
  nType : Tx → UInt16
  firstScriptSig : Tx → CScript
  serializeSize : Tx → Nat
  getLegacySigOpCount : Tx → Nat
  /-- The reason for which `CheckTransaction` refuses. -/
  checkTransaction : Tx → Option String
  isFinalTx : Tx → Nat → Int → Bool
  contextualCheckTransaction : Tx → Nat → Option String
  /-- The hash of two nodes of the merkle tree. -/
  sha256D64 : Hash → Hash → Hash
  nullHash : Hash
  getBlockHash : CBlockHeader Hash → Hash
  checkProofOfWork : Hash → UInt32 → Bool
  hashGenesisBlock : Hash
  hashDevnetGenesisBlock : Option Hash
  solver : CScript → TxoutType × List (List UInt8)
  isValidPubKey : List UInt8 → Bool
  /-- `CPubKey::Verify`. Its parser may accept several encodings of one signature. -/
  verify : List UInt8 → Hash → List UInt8 → Bool
  checkCoinStakeTimestamp : Int → Bool
  heightScript : Nat → CScript
  DIP0001Height : Nat
  DIP0003Height : Nat

def MAX_LEGACY_BLOCK_SIZE : Nat := 1000000

def MAX_DIP0001_BLOCK_SIZE : Nat := 2000000

def maxBlockSize (fDIP0001Active : Bool) : Nat :=
  if fDIP0001Active then MAX_DIP0001_BLOCK_SIZE else MAX_LEGACY_BLOCK_SIZE

def maxBlockSigOps (fDIP0001Active : Bool) : Nat :=
  maxBlockSize fDIP0001Active / 50

def TRANSACTION_COINBASE : UInt16 := 5

def getSizeOfCompactSize (n : Nat) : Nat :=
  if n < 253 then 1 else if n ≤ 0xffff then 3 else if n ≤ 0xffffffff then 5 else 9

variable {Tx Hash : Type} [DecidableEq Hash]

namespace Rules

variable (rules : Rules Tx Hash)

def isProofOfStake (vtx : List Tx) : Bool :=
  match vtx with
  | _ :: tx :: _ => rules.isCoinStake tx
  | _ => false

variable (block : CBlock Tx Hash)

/-- The signature is written only for a proof-of-stake block. -/
def getSerializeSize : Nat :=
  80 + getSizeOfCompactSize block.vtx.length + (block.vtx.map rules.serializeSize).sum +
    if rules.isProofOfStake block.vtx then
      getSizeOfCompactSize block.vchBlockSig.length + block.vchBlockSig.length
    else 0

def checkBlockSignature : Bool :=
  match block.vtx with
  | _ :: coinstake :: _ =>
    match rules.secondOutScript coinstake with
    | none => false
    | some script =>
      match rules.solver script with
      | (.pubKey, key :: _) =>
        !block.vchBlockSig.isEmpty &&
          rules.verify key (rules.getBlockHash block.toCBlockHeader) block.vchBlockSig
      | (.pubKeyHash, key :: _) =>
        rules.isValidPubKey key && !block.vchBlockSig.isEmpty &&
          rules.verify key (rules.getBlockHash block.toCBlockHeader) block.vchBlockSig
      | _ => false
  | _ => false

def blockMerkleRoot (vtx : List Tx) : Hash × Bool :=
  computeMerkleRoot rules.sha256D64 rules.nullHash (vtx.map rules.getHash)

def checkBlockHeader (header : CBlockHeader Hash) (fCheckPOW : Bool) : Except Reject Unit := do
  let hash := rules.getBlockHash header
  refuseIf (fCheckPOW ∧ !rules.checkProofOfWork hash header.nBits) ⟨.invalidHeader, "high-hash"⟩
  refuseIf (rules.hashDevnetGenesisBlock.isSome ∧
    header.hashPrevBlock = rules.hashGenesisBlock ∧ some hash ≠ rules.hashDevnetGenesisBlock)
    ⟨.consensus, "devnet-genesis"⟩

def checkMerkleRoot : Except Reject Unit := do
  if block.m_checked_merkle_root then return
  let (merkleRoot, mutated) := rules.blockMerkleRoot block.vtx
  refuseIf (block.hashMerkleRoot ≠ merkleRoot) ⟨.mutated, "bad-txnmrklroot"⟩
  refuseIf mutated ⟨.mutated, "bad-txns-duplicate"⟩

def refuseTx (check : Tx → Option String) (vtx : List Tx) : Except Reject Unit :=
  match vtx.findSome? check with
  | none => .ok ()
  | some reason => .error ⟨.consensus, reason⟩

def checkTransactions : Except Reject Unit := do
  let vtx := block.vtx
  refuseIf (vtx.isEmpty ∨ maxBlockSize true < vtx.length ∨
    maxBlockSize true < rules.getSerializeSize block) ⟨.consensus, "bad-blk-length"⟩
  refuseIf (!(vtx.head?.map rules.isCoinBase).getD false) ⟨.consensus, "bad-cb-missing"⟩
  refuseIf (vtx.tail.any rules.isCoinBase) ⟨.consensus, "bad-cb-multiple"⟩
  refuseIf ((vtx.drop 2).any rules.isCoinStake) ⟨.consensus, "bad-cs-missing"⟩
  refuseIf (rules.isProofOfStake vtx ∧ !(vtx.head?.map rules.firstOutIsEmpty).getD false)
    ⟨.consensus, "bad-cb-notempty"⟩
  refuseTx rules.checkTransaction vtx
  refuseIf (maxBlockSigOps true < (vtx.map rules.getLegacySigOpCount).sum)
    ⟨.consensus, "bad-blk-sigops"⟩

/-- `CheckBlock` with its defaults. A block that passed carries the flags from then on. -/
def checkBlock : Except Reject (CBlock Tx Hash) := do
  if block.fChecked then return block
  rules.checkBlockHeader block.toCBlockHeader (!rules.isProofOfStake block.vtx)
  refuseIf (rules.isProofOfStake block.vtx ∧ !rules.checkBlockSignature block)
    ⟨.consensus, "bad-blk-sign"⟩
  rules.checkMerkleRoot block
  rules.checkTransactions block
  return { block with fChecked := true, m_checked_merkle_root := true }

/-- The predecessor of the header, as `ContextualCheckBlock` reads it. -/
structure Context where
  nHeight : Nat
  csvActive : Bool
  medianTimePast : Int
  heightInCbActive : Bool

def contextualCheckBlock (ctx : Context) (block : CBlock Tx Hash) : Except Reject Unit := do
  let vtx := block.vtx
  let nLockTimeCutoff := if ctx.csvActive then ctx.medianTimePast else block.nTime
  let fDIP0001Active : Bool := rules.DIP0001Height ≤ ctx.nHeight
  let fDIP0003Active : Bool := rules.DIP0003Height ≤ ctx.nHeight
  refuseIf (vtx.isEmpty ∨ maxBlockSize fDIP0001Active < vtx.length ∨
    maxBlockSize fDIP0001Active < rules.getSerializeSize block) ⟨.consensus, "bad-blk-length"⟩
  refuseTx (fun tx =>
    if !rules.isFinalTx tx ctx.nHeight nLockTimeCutoff then some "bad-txns-nonfinal"
    else rules.contextualCheckTransaction tx ctx.nHeight) vtx
  refuseIf (maxBlockSigOps fDIP0001Active < (vtx.map rules.getLegacySigOpCount).sum)
    ⟨.consensus, "bad-blk-sigops"⟩
  refuseIf (rules.isProofOfStake vtx ∧ !rules.checkCoinStakeTimestamp block.nTime)
    ⟨.consensus, "bad-coinstake-time"⟩
  refuseIf (ctx.heightInCbActive ∧ !fDIP0003Active ∧
    !(vtx.head?.map fun tx => (rules.heightScript ctx.nHeight).isPrefixOf
      (rules.firstScriptSig tx)).getD false) ⟨.consensus, "bad-cb-height"⟩
  refuseIf (fDIP0003Active ∧ (vtx.head?.map rules.nType) ≠ some TRANSACTION_COINBASE)
    ⟨.consensus, "bad-cb-type"⟩

end Rules

/-! ### The entry of the header -/

/-- The header's entry in the block index, with the block that was written for it. -/
structure Entry (Tx Hash : Type) where
  /-- `BLOCK_HAVE_DATA`: the block on disk. -/
  data : Option (CBlock Tx Hash) := none
  nTx : Nat := 0
  failedValid : Bool := false
  failedChild : Bool := false
  conflictChainlock : Bool := false

/-- What `ActivateBestChain` does to the header's entry while it moves the chain. -/
inductive ChainEvent (Tx Hash : Type) where
  /-- `ConnectTip`; the block of the call is used when the header is the most-work candidate. The
  rest of `ConnectBlock` sees the header and the transactions. -/
  | connect (mostWork : Bool) (anchor : Option Reject)
      (rest : CBlockHeader Hash → List Tx → Option Reject)
  | failedChild
  | conflictChainlock

structure Surroundings (Tx Hash : Type) where
  fRequested : Bool
  /-- `AcceptBlock` drops an unrequested block of an unknown header. -/
  dropped : Bool
  /-- The checks of `AcceptBlockHeader` for an unknown header, up to the ChainLock. -/
  headerCheck : Option Reject
  hasConflictingChainLock : Bool
  fHasMoreOrSameWork : Bool
  fTooFarAhead : Bool
  belowMinimumChainWork : Bool
  saved : Bool
  events : List (ChainEvent Tx Hash)

def acceptBlockHeader (w : Surroundings Tx Hash) :
    Option (Entry Tx Hash) → Except Reject Unit × Option (Entry Tx Hash)
  | some e =>
    if e.failedValid || e.failedChild then (.error ⟨.cachedInvalid, "duplicate"⟩, some e)
    else if e.conflictChainlock then (.error ⟨.chainlock, "duplicate"⟩, some e)
    else (.ok (), some e)
  | none =>
    match w.headerCheck with
    | some reject => (.error reject, none)
    | none =>
      if w.hasConflictingChainLock then
        (.error ⟨.chainlock, "bad-chainlock"⟩, some { conflictChainlock := true })
      else (.ok (), some {})

namespace Rules

variable (rules : Rules Tx Hash)

def acceptBody (ctx : Context) (w : Surroundings Tx Hash) (block : CBlock Tx Hash)
    (e : Entry Tx Hash) : Except Reject Unit × Entry Tx Hash :=
  if e.data.isSome then (.ok (), e)
  else if !w.fRequested && (e.nTx != 0 || !w.fHasMoreOrSameWork || w.fTooFarAhead ||
      w.belowMinimumChainWork) then (.ok (), e)
  else
    match (do rules.contextualCheckBlock ctx (← rules.checkBlock block) : Except Reject Unit) with
    | .error reject =>
      (.error reject,
        if reject.result = .mutated then e else { e with failedValid := true })
    | .ok () =>
      if w.saved then (.ok (), { e with data := some block, nTx := block.vtx.length })
      else (.error ⟨.consensus, "Failed to find position to write new block to disk"⟩, e)

def acceptBlock (ctx : Context) (w : Surroundings Tx Hash) (block : CBlock Tx Hash)
    (entry : Option (Entry Tx Hash)) : Except Reject Unit × Option (Entry Tx Hash) :=
  if !w.fRequested && entry.isNone && w.dropped then (.ok (), entry)
  else
    match acceptBlockHeader w entry with
    | (.error reject, entry) => (.error reject, entry)
    | (.ok (), none) => (.ok (), none)
    | (.ok (), some e) => (rules.acceptBody ctx w block e).map id some

/-- `ConnectBlock`. A mutated block stops the node and is not counted as invalid. -/
def connectBlock (block : CBlock Tx Hash) (anchor : Option Reject)
    (rest : CBlockHeader Hash → List Tx → Option Reject) : Option Reject :=
  match anchor with
  | some reject => some reject
  | none =>
    match rules.checkBlock block with
    | .error reject => if reject.result = .mutated then none else some reject
    | .ok _ => rest block.toCBlockHeader block.vtx

def chainEvent (pblock : CBlock Tx Hash) (e : Entry Tx Hash) : ChainEvent Tx Hash → Entry Tx Hash
  | .failedChild => { e with failedChild := true }
  | .conflictChainlock => { e with conflictChainlock := true }
  | .connect mostWork anchor rest =>
    match e.data with
    | none => e
    | some stored =>
      if e.failedValid || e.failedChild || e.conflictChainlock then e
      else
        -- a block read from disk has no flags
        let block := if mostWork then pblock
          else { stored with fChecked := false, m_checked_merkle_root := false }
        match rules.connectBlock block anchor rest with
        | none => e
        | some reject =>
          if reject.result = .mutated then e else { e with failedValid := true }

/-- `ProcessNewBlock`, as far as it concerns the entry of the block's header. -/
def processNewBlock (ctx : Context) (w : Surroundings Tx Hash) (block : CBlock Tx Hash)
    (entry : Option (Entry Tx Hash)) : Option (Entry Tx Hash) :=
  match rules.checkBlock block with
  | .error _ => entry
  | .ok block =>
    match rules.acceptBlock ctx w block entry with
    | (.error _, entry) => entry
    | (.ok (), entry) => entry.map fun e => w.events.foldl (rules.chainEvent block) e

end Rules

/-! ### What `CheckBlock` establishes -/

def CBlock.fresh (block : CBlock Tx Hash) : CBlock Tx Hash :=
  { block with fChecked := false, m_checked_merkle_root := false }

/-- The hash of transactions and of pairs of nodes has no collisions. -/
structure CollisionFree (rules : Rules Tx Hash) : Prop where
  getHash : ∀ {tx tx'}, rules.getHash tx = rules.getHash tx' → tx = tx'
  sha256D64 : ∀ a b c d, rules.sha256D64 a b = rules.sha256D64 c d → a = c ∧ b = d
  coinbase : ∀ {tx} a b, rules.isCoinBase tx = true → rules.getHash tx ≠ rules.sha256D64 a b

namespace Rules

variable (rules : Rules Tx Hash) {block b V : CBlock Tx Hash} {ctx : Context}

structure Checked (block : CBlock Tx Hash) : Prop where
  header : rules.checkBlockHeader block.toCBlockHeader (!rules.isProofOfStake block.vtx) = .ok ()
  signature : ¬ (rules.isProofOfStake block.vtx ∧ !rules.checkBlockSignature block)
  merkleRoot : block.hashMerkleRoot = (rules.blockMerkleRoot block.vtx).1
  mutated : (rules.blockMerkleRoot block.vtx).2 = false
  transactions : rules.checkTransactions block = .ok ()

/-- The flags of a block in memory say what a check has found. -/
structure FlagsOk (block : CBlock Tx Hash) : Prop where
  fChecked : block.fChecked = true → rules.Checked block
  m_checked_merkle_root : block.m_checked_merkle_root = true →
    block.hashMerkleRoot = (rules.blockMerkleRoot block.vtx).1 ∧
      (rules.blockMerkleRoot block.vtx).2 = false

variable {rules}

theorem flagsOk_of_fresh (hchecked : block.fChecked = false)
    (hmerkle : block.m_checked_merkle_root = false) : rules.FlagsOk block where
  fChecked h := by rw [hchecked] at h; cases h
  m_checked_merkle_root h := by rw [hmerkle] at h; cases h

theorem checkMerkleRoot_ok (hflags : rules.FlagsOk block)
    (hok : rules.checkMerkleRoot block = .ok ()) :
    block.hashMerkleRoot = (rules.blockMerkleRoot block.vtx).1 ∧
      (rules.blockMerkleRoot block.vtx).2 = false := by
  unfold checkMerkleRoot at hok
  split at hok
  next h => exact hflags.m_checked_merkle_root h
  · simpa [bind_eq_ok, refuseIf_eq_ok] using hok

theorem checkBlock_ok (hflags : rules.FlagsOk block) (hok : rules.checkBlock block = .ok b) :
    rules.Checked block ∧ b.fresh = block.fresh ∧ b.fChecked = true := by
  unfold checkBlock at hok
  split at hok
  next h =>
    cases hok
    exact ⟨hflags.fChecked h, rfl, h⟩
  · simp only [bind_eq_ok, refuseIf_eq_ok, pure_eq_ok, exists_const] at hok
    obtain ⟨_, hheader, hsig, _, hmerkle, _, htxs, rfl⟩ := hok
    obtain ⟨hroot, hmutated⟩ := checkMerkleRoot_ok hflags hmerkle
    exact ⟨⟨hheader, hsig, hroot, hmutated, htxs⟩, rfl, rfl⟩

theorem Checked.checkBlock (hchecked : rules.Checked block) :
    ∃ b, rules.checkBlock block = .ok b := by
  unfold Rules.checkBlock
  split
  · exact ⟨_, rfl⟩
  · have hmerkle : rules.checkMerkleRoot block = .ok () := by
      unfold checkMerkleRoot
      split
      · rfl
      · simp [hchecked.merkleRoot, hchecked.mutated, refuseIf]
    simp only [bind_eq_ok, refuseIf_eq_ok, pure_eq_ok, exists_const]
    exact ⟨_, (), hchecked.header, hchecked.signature, (), hmerkle, (), hchecked.transactions, rfl⟩

theorem Checked.head (hchecked : rules.Checked block) :
    ∃ coinbase rest, block.vtx = coinbase :: rest ∧ rules.isCoinBase coinbase = true := by
  have htxs := hchecked.transactions
  simp only [checkTransactions, bind_eq_ok, refuseIf_eq_ok, exists_const] at htxs
  obtain ⟨-, hcoinbase, -⟩ := htxs
  cases hvtx : block.vtx with
  | nil => simp [hvtx] at hcoinbase
  | cons coinbase rest => exact ⟨coinbase, rest, rfl, by simpa [hvtx] using hcoinbase⟩

theorem Checked.size_le (hchecked : rules.Checked block) :
    rules.getSerializeSize block ≤ maxBlockSize true := by
  have htxs := hchecked.transactions
  simp only [checkTransactions, bind_eq_ok, refuseIf_eq_ok, exists_const, not_or,
    not_lt] at htxs
  exact htxs.1.2.2

theorem vtx_eq_of_checked (hfree : CollisionFree rules) (hblock : rules.Checked block)
    (hV : rules.Checked V) (hsame : block.toCBlockHeader = V.toCBlockHeader) :
    block.vtx = V.vtx := by
  obtain ⟨coinbase, rest, hvtx, hcoinbase⟩ := hblock.head
  obtain ⟨coinbase', rest', hvtx', hcoinbase'⟩ := hV.head
  have hroot : (rules.blockMerkleRoot block.vtx).1 = (rules.blockMerkleRoot V.vtx).1 := by
    rw [← hblock.merkleRoot, ← hV.merkleRoot, hsame]
  have hleaves : block.vtx.map rules.getHash = V.vtx.map rules.getHash := by
    refine Lib.Merkle.eq_of_computeMerkleRoot_eq hfree.sha256D64 ?_ ?_ ?_ ?_ hblock.mutated
      hV.mutated hroot
    · simp [hvtx]
    · simp [hvtx']
    · intro a b hhead
      rw [hvtx, map_cons, head?_cons, Option.some.injEq] at hhead
      exact hfree.coinbase a b hcoinbase hhead
    · intro a b hhead
      rw [hvtx', map_cons, head?_cons, Option.some.injEq] at hhead
      exact hfree.coinbase a b hcoinbase' hhead
  exact map_injective_iff.mpr (fun _ _ => hfree.getHash) hleaves

theorem contextualCheckBlock_of_checked (hheight : rules.DIP0001Height ≤ ctx.nHeight)
    (hblock : rules.Checked block) (hsame : block.toCBlockHeader = V.toCBlockHeader)
    (hvtx : block.vtx = V.vtx) (hV : rules.contextualCheckBlock ctx V = .ok ()) :
    rules.contextualCheckBlock ctx block = .ok () := by
  have hsize := hblock.size_le
  have htime : block.nTime = V.nTime := by rw [hsame]
  simp only [contextualCheckBlock, bind_eq_ok, refuseIf_eq_ok, exists_const, hvtx, htime,
    decide_eq_true hheight, not_or, not_lt] at hV ⊢
  obtain ⟨⟨hne, hcount, -⟩, hrest⟩ := hV
  exact ⟨⟨hne, hcount, hsize⟩, hrest⟩

/-! ### The header stays unmarked -/

variable (rules)

/-- `V` is a valid body of the header: it passes the checks of the block alone and after its
predecessor. -/
structure ValidBody (ctx : Context) (V : CBlock Tx Hash) : Prop where
  checked : rules.Checked V
  contextual : rules.contextualCheckBlock ctx V = .ok ()

def Connects (V : CBlock Tx Hash) (w : Surroundings Tx Hash) : Prop :=
  ∀ mostWork anchor rest, ChainEvent.connect mostWork anchor rest ∈ w.events →
    anchor = none ∧ rest V.toCBlockHeader V.vtx = none

/-- The entry is not marked, and a block on disk has checked contents. -/
structure EntryOk (V : CBlock Tx Hash) (e : Entry Tx Hash) : Prop where
  failedValid : e.failedValid = false
  data : ∀ stored, e.data = some stored →
    stored.toCBlockHeader = V.toCBlockHeader ∧ rules.Checked stored

variable {rules} {w : Surroundings Tx Hash} {e : Entry Tx Hash}

theorem Checked.of_fresh_eq (hblock : rules.Checked block) (heq : b.fresh = block.fresh) :
    rules.Checked b := by
  obtain ⟨header, vtx, sig, _, _⟩ := b
  obtain ⟨header', vtx', sig', _, _⟩ := block
  simp only [CBlock.fresh, CBlock.mk.injEq, and_true] at heq
  obtain ⟨rfl, rfl, rfl⟩ := heq
  exact ⟨hblock.header, hblock.signature, hblock.merkleRoot, hblock.mutated, hblock.transactions⟩

theorem checkBlock_of_fChecked (hchecked : block.fChecked = true) :
    rules.checkBlock block = .ok block := by
  unfold checkBlock
  rw [if_pos hchecked]
  rfl

theorem EntryOk.acceptBlockHeader {entry entry' : Option (Entry Tx Hash)}
    {res : Except Reject Unit} (hentry : ∀ e ∈ entry, rules.EntryOk V e)
    (haccept : Body.acceptBlockHeader w entry = (res, entry')) :
    ∀ e ∈ entry', rules.EntryOk V e := by
  have hnew (conflict : Bool) : rules.EntryOk V { conflictChainlock := conflict } :=
    ⟨rfl, fun _ h => by cases h⟩
  unfold Body.acceptBlockHeader at haccept
  cases entry with
  | some e =>
    dsimp only at haccept
    split at haccept
    · cases haccept
      exact hentry
    · split at haccept
      · cases haccept
        exact hentry
      · cases haccept
        exact hentry
  | none =>
    dsimp only at haccept
    split at haccept
    · cases haccept
      exact hentry
    · split at haccept
      · cases haccept
        rintro _ ⟨⟩
        exact hnew true
      · cases haccept
        rintro _ ⟨⟩
        exact hnew false

theorem EntryOk.acceptBody (hfree : CollisionFree rules)
    (hheight : rules.DIP0001Height ≤ ctx.nHeight) (hV : rules.ValidBody ctx V)
    (hblock : rules.Checked block) (hflag : block.fChecked = true)
    (hsame : block.toCBlockHeader = V.toCBlockHeader) (he : rules.EntryOk V e) :
    rules.EntryOk V (rules.acceptBody ctx w block e).2 := by
  have hcontextual := contextualCheckBlock_of_checked hheight hblock hsame
    (vtx_eq_of_checked hfree hblock hV.checked hsame) hV.contextual
  have hchecks : (do rules.contextualCheckBlock ctx (← rules.checkBlock block)) = .ok () := by
    rw [checkBlock_of_fChecked hflag]
    exact hcontextual
  unfold Rules.acceptBody
  rw [hchecks]
  split
  · exact he
  split
  · exact he
  dsimp only
  split
  · refine ⟨he.failedValid, ?_⟩
    rintro stored ⟨⟩
    exact ⟨hsame, hblock⟩
  · exact he

theorem EntryOk.chainEvent (hfree : CollisionFree rules) (hV : rules.ValidBody ctx V)
    (hblock : rules.Checked block) (hsame : block.toCBlockHeader = V.toCBlockHeader)
    {event : ChainEvent Tx Hash}
    (hconnects : ∀ mostWork anchor rest, event = .connect mostWork anchor rest →
      anchor = none ∧ rest V.toCBlockHeader V.vtx = none)
    (he : rules.EntryOk V e) : rules.EntryOk V (rules.chainEvent block e event) := by
  cases event with
  | failedChild | conflictChainlock => exact ⟨he.failedValid, he.data⟩
  | connect mostWork anchor rest =>
    obtain ⟨rfl, hrest⟩ := hconnects mostWork anchor rest rfl
    -- the transactions are those of `V`, from the call and from disk
    have hpass (b : CBlock Tx Hash) (hb : rules.Checked b)
        (hheader : b.toCBlockHeader = V.toCBlockHeader) :
        rules.connectBlock b none rest = none := by
      obtain ⟨b', hcheck⟩ := hb.checkBlock
      simp only [connectBlock, hcheck]
      rw [hheader, vtx_eq_of_checked hfree hb hV.checked hheader]
      exact hrest
    unfold Rules.chainEvent
    cases hdata : e.data with
    | none => exact he
    | some stored =>
      obtain ⟨hheader, hstored⟩ := he.data stored hdata
      dsimp only
      split
      · exact he
      · have hconnect : rules.connectBlock (if mostWork then block
            else { stored with fChecked := false, m_checked_merkle_root := false }) none rest =
              none := by
          cases mostWork with
          | true => exact hpass block hblock hsame
          | false => exact hpass _ (hstored.of_fresh_eq rfl) hheader
        rw [hconnect]
        exact he

theorem EntryOk.processNewBlock (hfree : CollisionFree rules)
    (hheight : rules.DIP0001Height ≤ ctx.nHeight) (hV : rules.ValidBody ctx V)
    (hflags : rules.FlagsOk block) (hsame : block.toCBlockHeader = V.toCBlockHeader)
    (hconnects : Connects V w) {entry : Option (Entry Tx Hash)}
    (hentry : ∀ e ∈ entry, rules.EntryOk V e) :
    ∀ e ∈ rules.processNewBlock ctx w block entry, rules.EntryOk V e := by
  unfold Rules.processNewBlock
  cases hcheck : rules.checkBlock block with
  | error reject => exact hentry
  | ok b =>
    obtain ⟨hblock, hfresh, hflag⟩ := checkBlock_ok hflags hcheck
    have hb := hblock.of_fresh_eq hfresh
    have hbsame : b.toCBlockHeader = V.toCBlockHeader :=
      (congrArg CBlock.toCBlockHeader hfresh).trans hsame
    have haccept : ∀ e ∈ (rules.acceptBlock ctx w b entry).2, rules.EntryOk V e := by
      unfold acceptBlock
      split
      · exact hentry
      · cases haccept : Body.acceptBlockHeader w entry with
        | mk res entry' =>
          have hheader := EntryOk.acceptBlockHeader hentry haccept
          cases res with
          | error reject => exact hheader
          | ok u =>
            cases entry' with
            | none => exact hheader
            | some e =>
              rintro _ ⟨⟩
              exact (hheader e rfl).acceptBody hfree hheight hV hb hflag hbsame
    dsimp only
    cases hres : rules.acceptBlock ctx w b entry with
    | mk res entry' =>
      rw [hres] at haccept
      cases res with
      | error reject => exact haccept
      | ok u =>
        intro e he
        obtain ⟨e₀, he₀, rfl⟩ := Option.map_eq_some_iff.mp he
        -- the events one after another
        have hevents (events : List (ChainEvent Tx Hash)) (hsub : events ⊆ w.events)
            (e : Entry Tx Hash) (he : rules.EntryOk V e) :
            rules.EntryOk V (events.foldl (rules.chainEvent b) e) := by
          induction events generalizing e with
          | nil => exact he
          | cons event events ih =>
            rw [cons_subset] at hsub
            refine ih hsub.2 _ (he.chainEvent hfree hV hb hbsame ?_)
            rintro mostWork anchor rest rfl
            exact hconnects mostWork anchor rest hsub.1
        exact hevents w.events (Subset.refl _) e₀ (haccept e₀ he₀)

structure Call (Tx Hash : Type) where
  block : CBlock Tx Hash
  surroundings : Surroundings Tx Hash

variable (rules) in
def processAll (ctx : Context) (entry : Option (Entry Tx Hash)) (calls : List (Call Tx Hash)) :
    Option (Entry Tx Hash) :=
  calls.foldl (fun entry call => rules.processNewBlock ctx call.surroundings call.block entry) entry

/-- Where the larger block size applies, no sequence of blocks with the header of a valid block
marks the header as failed. -/
theorem header_not_poisoned (hfree : CollisionFree rules)
    (hheight : rules.DIP0001Height ≤ ctx.nHeight) (hV : rules.ValidBody ctx V)
    {calls : List (Call Tx Hash)} {entry : Option (Entry Tx Hash)}
    (hentry : ∀ e ∈ entry, rules.EntryOk V e)
    (hcalls : ∀ call ∈ calls, call.block.toCBlockHeader = V.toCBlockHeader ∧
      rules.FlagsOk call.block ∧ Connects V call.surroundings) :
    ∀ e ∈ rules.processAll ctx entry calls, e.failedValid = false := by
  have hrun : ∀ e ∈ rules.processAll ctx entry calls, rules.EntryOk V e := by
    induction calls generalizing entry with
    | nil => exact hentry
    | cons call calls ih =>
      rw [forall_mem_cons] at hcalls
      obtain ⟨⟨hsame, hflags, hconnects⟩, hrest⟩ := hcalls
      exact ih (EntryOk.processNewBlock hfree hheight hV hflags hsame hconnects hentry) hrest
  exact fun e he => (hrun e he).failedValid

end Rules

namespace Sample

inductive Digest where
  | leaf (n : Nat)
  | pair (a b : Digest)
  deriving DecidableEq

/-- Transaction 0 is a coinbase, the others are coinstakes. A signature is known by its first byte:
bytes after it are ignored. -/
def rules : Rules Nat Digest where
  getHash tx := .leaf tx
  isCoinBase tx := tx = 0
  isCoinStake tx := tx ≠ 0
  firstOutIsEmpty _ := true
  secondOutScript _ := some []
  nType _ := TRANSACTION_COINBASE
  firstScriptSig _ := []
  serializeSize _ := 100
  getLegacySigOpCount _ := 1
  checkTransaction _ := none
  isFinalTx _ _ _ := true
  contextualCheckTransaction _ _ := none
  sha256D64 := .pair
  nullHash := .leaf 0
  getBlockHash header := header.hashMerkleRoot
  checkProofOfWork _ _ := false
  hashGenesisBlock := .leaf 0
  hashDevnetGenesisBlock := none
  solver _ := (.pubKey, [[2]])
  isValidPubKey _ := true
  verify _ _ sig := sig.head? = some 1
  checkCoinStakeTimestamp _ := true
  heightScript _ := []
  DIP0001Height := 1
  DIP0003Height := 1

theorem collisionFree : CollisionFree rules where
  getHash h := Digest.leaf.inj h
  sha256D64 _ _ _ _ h := Digest.pair.inj h
  coinbase _ _ _ h := Digest.noConfusion h

def block (vtx : List Nat) (vchBlockSig : List UInt8) : CBlock Nat Digest where
  nVersion := 1
  hashPrevBlock := .leaf 7
  hashMerkleRoot := .pair (.leaf 0) (.leaf 1)
  nTime := 0
  nBits := 0
  nNonce := 0
  vtx := vtx
  vchBlockSig := vchBlockSig

def context : Rules.Context := ⟨10, true, 0, false⟩

def surroundings : Surroundings Nat Digest where
  fRequested := true
  dropped := false
  headerCheck := none
  hasConflictingChainLock := false
  fHasMoreOrSameWork := true
  fTooFarAhead := false
  belowMinimumChainWork := false
  saved := true
  events := [.connect false none fun _ vtx =>
    if vtx = [0, 1] then none else some ⟨.consensus, "bad-txns-inputs-missingorspent"⟩]

def calls : List (Rules.Call Nat Digest) :=
  [⟨block [0, 2] [1], surroundings⟩, ⟨block [0, 1] [3], surroundings⟩,
    ⟨block [0, 1] [1, 9], surroundings⟩]

end Sample

open Sample

theorem Rules.header_not_poisoned_sample :
    ((rules.processAll context none calls).bind Entry.data).map
        CBlock.vchBlockSig = some [1, 9] ∧
      ∀ e ∈ rules.processAll context none calls, e.failedValid = false := by
  refine ⟨by decide +kernel, ?_⟩
  have hvalid : rules.ValidBody context (block [0, 1] [1]) :=
    ⟨⟨by decide +kernel, by decide +kernel, by decide +kernel, by decide +kernel,
      by decide +kernel⟩, by decide +kernel⟩
  have hconnects : Rules.Connects (block [0, 1] [1]) surroundings := by
    intro mostWork anchor rest hmem
    obtain ⟨-, rfl, rfl⟩ := ChainEvent.connect.inj (mem_singleton.mp hmem)
    exact ⟨rfl, by decide⟩
  refine Rules.header_not_poisoned collisionFree (by decide) hvalid (fun _ h => by cases h) ?_
  intro call hcall
  have hcases : ∃ vtx sig, call = ⟨block vtx sig, surroundings⟩ := by
    simp only [calls, mem_cons, not_mem_nil, or_false] at hcall
    rcases hcall with rfl | rfl | rfl
    exacts [⟨_, _, rfl⟩, ⟨_, _, rfl⟩, ⟨_, _, rfl⟩]
  obtain ⟨vtx, sig, rfl⟩ := hcases
  exact ⟨rfl, Rules.flagsOk_of_fresh rfl rfl, hconnects⟩

end Defcon.Validation.Body
