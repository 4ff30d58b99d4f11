import Defcon.Lib.ChainValue
import Defcon.Lib.Fallible
import Defcon.Lib.Run
import Defcon.Llmq.Params
import Defcon.Masternode.Payments
import Defcon.RangesSet
import Defcon.UnorderedLruCache

/-!
# The credit pool

Asset locks move coins into a pool and asset unlocks take them out again. Each block's coinbase
states the balance of the pool, and `CCreditPoolManager` derives from it, block after block, how
much the next block may unlock: a limit on the balance and on what a window of blocks unlocked. It
keeps the pools in a cache and, now and then, in the database.
-/

namespace Defcon.Evo.CreditPool

open AList (Map)
open Lib
open Masternode (platformShare)

/-! ### Transactions -/

def TRANSACTION_COINBASE : UInt16 := 5

def TRANSACTION_ASSET_LOCK : UInt16 := 8

def TRANSACTION_ASSET_UNLOCK : UInt16 := 9

def OP_RETURN : UInt8 := 0x6a

structure CAssetLockPayload where
  nVersion : UInt8
  creditOutputs : List CTxOut

def CAssetLockPayload.CURRENT_VERSION : UInt8 := 1

structure CAssetUnlockPayload where
  nVersion : UInt8
  index : UInt64
  fee : UInt32
  requestedHeight : UInt32
  quorumHash : Uint256
  quorumSig : Llmq.CBLSSignature

def CAssetUnlockPayload.CURRENT_VERSION : UInt8 := 1

def CAssetUnlockPayload.MAXIMUM_WITHDRAWALS : Nat := 32

/-- A transaction. The payloads are what `GetTxPayload` returns for them; `hashUnsigned` is the hash
without signature. -/
structure Transaction extends CTransaction where
  isSpecialTxVersion : Bool
  nType : UInt16
  hasExtraPayload : Bool
  creditPoolBalance : Option CAmount
  assetLock : Option CAssetLockPayload
  assetUnlock : Option CAssetUnlockPayload
  hashUnsigned : Uint256

variable (tx : Transaction)

def Transaction.isAssetLock : Bool :=
  tx.isSpecialTxVersion && tx.nType == TRANSACTION_ASSET_LOCK

def Transaction.isAssetUnlock : Bool :=
  tx.isSpecialTxVersion && tx.nType == TRANSACTION_ASSET_UNLOCK

def isOpReturn (txout : CTxOut) : Bool :=
  txout.scriptPubKey.head? = some OP_RETURN

def isPayToPublicKeyHash (script : CScript) : Bool :=
  script.length = 25 ∧ script.take 3 = [0x76, 0xa9, 0x14] ∧ script.drop 23 = [0x88, 0xac]

/-! ### Pools -/

structure CCreditPool where
  locked : CAmount
  currentLimit : CAmount
  latelyUnlocked : CAmount
  indexes : CRangesSet
  deriving DecidableEq

def CCreditPool.empty : CCreditPool := ⟨0, 0, 0, .empty⟩

def LimitAmountLow : CAmount := 100 * COIN

def LimitAmountHigh : CAmount := 1000 * COIN

def LimitAmountV22 : CAmount := 2000 * COIN

def DISK_SNAPSHOT_PERIOD : Nat := 576

/-- What the code reads and does not change. The heights are ordered as on every network, and a
versionbits deployment that is active stays active. -/
structure CreditPoolContext (B : Type) where
  tree : BlockTree B
  getBlockHash : B → Uint256
  getBlockHash_injective : getBlockHash.Injective
  vtx : B → List Transaction
  DIP0003Height : Nat
  DIP0008Height : Nat
  V20Height : Nat
  MN_RRHeight : Nat
  dip0003_le_v20 : DIP0003Height ≤ V20Height
  dip0008_le_v20 : DIP0008Height ≤ V20Height
  v20_le_mn_rr : V20Height ≤ MN_RRHeight
  withdrawalsActiveAt : B → Bool
  withdrawals_stays : ∀ {b p}, tree.parent b = some p → withdrawalsActiveAt p = true →
    withdrawalsActiveAt b = true
  creditPoolPeriodBlocks : Nat
  params : Masternode.ConsensusParams

/-- What other parts of the node answer at the time of a call. -/
structure Surroundings (B : Type) where
  readable : B → Bool
  lookupBlockIndex : Uint256 → Bool
  verifySig : CAssetUnlockPayload → Uint256 → B → Except String Unit

structure CCreditPoolManager (B : Type) where
  creditPoolCache : UnorderedLruCache Uint256 CCreditPool
  snapshots : Map Uint256 CCreditPool
  env : Surroundings B

inductive Thrown where
  | runtimeError (what : String)
  | assertion
  deriving DecidableEq

def getDataFromUnlockTx : Except String (CAmount × UInt64) := do
  let assetUnlockTx ← need "failed-creditpool-unlock-payload" tx.assetUnlock
  let toUnlock ← tx.vout.foldlM (fun toUnlock txout => do
    refuseIf (¬ MoneyRange txout.nValue) "failed-creditpool-unlock-txout-outofrange"
    pure (toUnlock + txout.nValue)) (assetUnlockTx.fee.toNat : CAmount)
  pure (toUnlock, assetUnlockTx.index)

structure UnlockDataPerBlock where
  unlocked : CAmount
  indexes : List UInt64

def addUnlockData (blockData : UnlockDataPerBlock) (tx : Transaction) :
    Except String UnlockDataPerBlock :=
  if !tx.isAssetUnlock then .ok blockData
  else do
    let (unlocked, index) ← getDataFromUnlockTx tx
    pure ⟨blockData.unlocked + unlocked,
      if index ∈ blockData.indexes then blockData.indexes else blockData.indexes ++ [index]⟩

def getDataFromUnlockTxes (vtx : List Transaction) : Except Thrown UnlockDataPerBlock :=
  match vtx.foldlM addUnlockData ⟨0, []⟩ with
  | .error what => .error (.runtimeError what)
  | .ok blockData => .ok blockData

def addIndex (indexes : CRangesSet) (index : UInt64) : Except Thrown CRangesSet :=
  match indexes.add index.toNat with
  | none => .error .assertion
  | some (false, _) => .error (.runtimeError "failed-getcreditpool-index-duplicated")
  | some (true, indexes) => .ok indexes

def unlockLimit (fWithdrawalsActive : Bool) (locked latelyUnlocked : CAmount) : CAmount :=
  if fWithdrawalsActive then min locked LimitAmountV22
  else
    let currentLimit :=
      if locked + latelyUnlocked > LimitAmountLow then
        max 0 (max LimitAmountLow (locked.tdiv 10) - latelyUnlocked)
      else locked
    min currentLimit (LimitAmountHigh - latelyUnlocked)

/-! ### The difference a block makes -/

structure CCreditPoolDiff where
  pool : CCreditPool
  newIndexes : List UInt64
  sessionLocked : CAmount
  sessionUnlocked : CAmount
  platformReward : CAmount

variable (diff : CCreditPoolDiff)

def CCreditPoolDiff.getTotalLocked : CAmount :=
  diff.pool.locked + diff.sessionLocked - diff.sessionUnlocked + diff.platformReward

def addReturn (returnAmount : CAmount) (txout : CTxOut) : Except String CAmount :=
  if !isOpReturn txout then .ok returnAmount
  else do
    refuseIf (txout.scriptPubKey.length ≠ 2 ∨ txout.scriptPubKey[1]? ≠ some 0)
      "bad-assetlocktx-non-empty-return"
    refuseIf (txout.nValue = 0 ∨ ¬ MoneyRange txout.nValue) "bad-assetlocktx-opreturn-outofrange"
    refuseIf (returnAmount > 0) "bad-assetlocktx-multiple-return"
    pure txout.nValue

def addCreditOutput (creditOutputsAmount : CAmount) (out : CTxOut) : Except String CAmount := do
  refuseIf (out.nValue = 0 ∨ ¬ MoneyRange out.nValue ∨
    ¬ MoneyRange (creditOutputsAmount + out.nValue)) "bad-assetlocktx-credit-outofrange"
  refuseIf (!isPayToPublicKeyHash out.scriptPubKey) "bad-assetlocktx-pubKeyHash"
  pure (creditOutputsAmount + out.nValue)

def checkAssetLockTx : Except String Unit := do
  refuseIf (tx.nType ≠ TRANSACTION_ASSET_LOCK) "bad-assetlocktx-type"
  let returnAmount ← tx.vout.foldlM addReturn 0
  refuseIf (returnAmount = 0) "bad-assetlocktx-no-return"
  let assetLockTx ← need "bad-assetlocktx-payload" tx.assetLock
  refuseIf (assetLockTx.nVersion = 0 ∨ assetLockTx.nVersion > CAssetLockPayload.CURRENT_VERSION)
    "bad-assetlocktx-version"
  refuseIf (assetLockTx.creditOutputs = []) "bad-assetlocktx-emptycreditoutputs"
  let creditOutputsAmount ← assetLockTx.creditOutputs.foldlM addCreditOutput 0
  refuseIf (creditOutputsAmount ≠ returnAmount) "bad-assetlocktx-creditamount"

def CCreditPoolDiff.lock (tx : Transaction) :
    Except String CCreditPoolDiff := do
  let _ ← need "failed-creditpool-lock-payload" tx.assetLock
  let txout ← need "failed-creditpool-lock-invalid" (tx.vout.find? isOpReturn)
  pure { diff with sessionLocked := diff.sessionLocked + txout.nValue }

def CCreditPoolDiff.unlock (tx : Transaction) :
    Except String CCreditPoolDiff := do
  let (toUnlock, index) ← getDataFromUnlockTx tx
  refuseIf (diff.sessionUnlocked + toUnlock > diff.pool.currentLimit)
    "failed-creditpool-unlock-too-much"
  refuseIf (diff.pool.indexes.contains index.toNat ∨ index ∈ diff.newIndexes)
    "failed-creditpool-unlock-duplicated-index"
  pure { diff with
    newIndexes := diff.newIndexes ++ [index]
    sessionUnlocked := diff.sessionUnlocked + toUnlock }

namespace CreditPoolContext

variable {B : Type} (ctx : CreditPoolContext B) (env : Surroundings B)

def checkAssetUnlockTx (tx : Transaction) (pindexPrev : B) (indexes : CRangesSet) :
    Except String Unit := do
  refuseIf (tx.nType ≠ TRANSACTION_ASSET_UNLOCK) "bad-assetunlocktx-type"
  refuseIf (tx.vin ≠ []) "bad-assetunlocktx-have-input"
  refuseIf (CAssetUnlockPayload.MAXIMUM_WITHDRAWALS < tx.vout.length)
    "bad-assetunlocktx-too-many-outs"
  let assetUnlockTx ← need "bad-assetunlocktx-payload" tx.assetUnlock
  refuseIf (assetUnlockTx.nVersion = 0 ∨
    assetUnlockTx.nVersion > CAssetUnlockPayload.CURRENT_VERSION) "bad-assetunlocktx-version"
  refuseIf (indexes.contains assetUnlockTx.index.toNat) "bad-assetunlock-duplicated-index"
  refuseIf (!env.lookupBlockIndex assetUnlockTx.quorumHash) "bad-assetunlock-quorum-hash"
  env.verifySig assetUnlockTx tx.hashUnsigned pindexPrev

def processLockUnlockTransaction (pindexPrev : B) (diff : CCreditPoolDiff) (tx : Transaction) :
    Except String CCreditPoolDiff :=
  if tx.isAssetLock then do
    checkAssetLockTx tx
    diff.lock tx
  else if tx.isAssetUnlock then do
    checkAssetUnlockTx env tx pindexPrev diff.pool.indexes
    diff.unlock tx
  else .ok diff

def deploymentActiveAt (pindex : B) (deploymentHeight : Nat) : Bool :=
  deploymentHeight ≤ ctx.tree.height pindex

def platformReward (nHeight : Nat) : CAmount :=
  if ctx.MN_RRHeight ≤ nHeight then platformShare (ctx.params.getMasternodePayment nHeight) else 0

def newDiff (starter : CCreditPool) (pindexPrev : B) : CCreditPoolDiff :=
  ⟨starter, [], 0, 0, ctx.platformReward (ctx.tree.height pindexPrev + 1)⟩

/-! ### The manager -/

variable (block_index : B) (s : CCreditPoolManager B)

def getFromCache : Option CCreditPool × CCreditPoolManager B :=
  if !ctx.deploymentActiveAt block_index ctx.V20Height then (some .empty, s)
  else
    let block_hash := ctx.getBlockHash block_index
    match s.creditPoolCache.get block_hash with
    | (some pool, creditPoolCache) => (some pool, { s with creditPoolCache })
    | (none, creditPoolCache) =>
      let s := { s with creditPoolCache }
      if ctx.tree.height block_index % DISK_SNAPSHOT_PERIOD = 0 then
        match s.snapshots.lookup block_hash with
        | some pool =>
          (some pool, { s with creditPoolCache := s.creditPoolCache.insert block_hash pool })
        | none => (none, s)
      else (none, s)

def addToCache (pool : CCreditPool) (s : CCreditPoolManager B) : CCreditPoolManager B :=
  let block_hash := ctx.getBlockHash block_index
  let s := { s with creditPoolCache := s.creditPoolCache.insert block_hash pool }
  if ctx.tree.height block_index % DISK_SNAPSHOT_PERIOD = 0 then
    { s with snapshots := s.snapshots.insert block_hash pool }
  else s

variable (readable : B → Bool) (block_index : B)

def getBlockForCreditPool : Except Thrown (Option (List Transaction)) :=
  if !ctx.deploymentActiveAt block_index ctx.DIP0003Height then .ok none
  else if !readable block_index then .error (.runtimeError "failed-getcbforblock-read")
  else
    match ctx.vtx block_index with
    | [] => .ok none
    | coinbase :: rest =>
      if !coinbase.hasExtraPayload || !coinbase.isSpecialTxVersion then .ok none
      else .ok (some (coinbase :: rest))

def unlockedIn (distant_block_index : B) : Except Thrown CAmount := do
  match ← ctx.getBlockForCreditPool readable distant_block_index with
  | none => pure 0
  | some vtx =>
    let blockData ← getDataFromUnlockTxes vtx
    pure blockData.unlocked

def distantUnlocked : Except Thrown CAmount :=
  match ctx.tree.up ctx.creditPoolPeriodBlocks block_index with
  | none => .ok 0
  | some distant_block_index => ctx.unlockedIn readable distant_block_index

def constructPool (prev : CCreditPool) : Except Thrown CCreditPool := do
  match ← ctx.getBlockForCreditPool readable block_index with
  | none =>
    refuseIf (prev.locked ≠ 0)
      (.runtimeError "Failed to create CreditPool but previous block has value")
    refuseIf (!prev.indexes.isEmpty)
      (.runtimeError "Failed to create CreditPool but asset unlock transactions already mined")
    pure .empty
  | some vtx =>
    let locked ← need (.runtimeError "failed-getcreditpool-cbtx-payload")
      (vtx.head?.bind Transaction.creditPoolBalance)
    let blockData ← getDataFromUnlockTxes vtx
    let indexes ← blockData.indexes.foldlM addIndex prev.indexes
    let distantUnlocked ← ctx.distantUnlocked readable block_index
    let latelyUnlocked := prev.latelyUnlocked + blockData.unlocked - distantUnlocked
    let currentLimit :=
      unlockLimit (ctx.withdrawalsActiveAt block_index) locked latelyUnlocked
    refuseIf (currentLimit < 0) (.runtimeError "Negative limit for CreditPool")
    pure ⟨locked, currentLimit, latelyUnlocked, indexes⟩

def constructCreditPool (prev : CCreditPool) (s : CCreditPoolManager B) :
    Except Thrown CCreditPool × CCreditPoolManager B :=
  match ctx.constructPool s.env.readable block_index prev with
  | .error e => (.error e, s)
  | .ok pool => (.ok pool, ctx.addToCache block_index pool s)

def getCreditPool (block_index : Option B) (s : CCreditPoolManager B) :
    Except Thrown CCreditPool × CCreditPoolManager B :=
  ctx.tree.lazyValue ctx.getFromCache .empty ctx.constructCreditPool block_index s

/-! ### The check of a block -/

/-- `GetCreditPoolDiffForBlock` and the comparison with the balance in the coinbase, once the pool
of the previous block is there. -/
def checkDiff (pindexPrev : B) (creditPool : CCreditPool) (vtx : List Transaction) :
    Except String Unit := do
  let creditPoolDiff ← vtx.tail.foldlM (processLockUnlockTransaction env pindexPrev)
    (ctx.newDiff creditPool pindexPrev)
  let tx ← need "bad-missing-cbtx" vtx.head?
  refuseIf (!tx.isCoinBase || !tx.isSpecialTxVersion || tx.nType != TRANSACTION_COINBASE)
    "bad-cbtx-type"
  -- an empty payload does not decode
  let target_balance ← need "bad-cbtx-payload"
    (if tx.hasExtraPayload then tx.creditPoolBalance else none)
  refuseIf (target_balance ≠ creditPoolDiff.getTotalLocked) "bad-cbtx-assetlocked-amount"

def checkCreditPoolDiffForBlock (pindex : B) (s : CCreditPoolManager B) :
    Except String Unit × CCreditPoolManager B :=
  if !ctx.deploymentActiveAt pindex ctx.DIP0003Height then (.ok (), s)
  else if !ctx.deploymentActiveAt pindex ctx.DIP0008Height then (.ok (), s)
  else if !ctx.deploymentActiveAt pindex ctx.V20Height then (.ok (), s)
  else
    match ctx.getCreditPool (ctx.tree.parent pindex) s with
    | (.error _, s) => (.error "failed-getcreditpooldiff", s)
    | (.ok creditPool, s) =>
      match ctx.tree.parent pindex with
      | none => (.error "assertion", s)
      | some pindexPrev => (ctx.checkDiff s.env pindexPrev creditPool (ctx.vtx pindex), s)

/-! ### Histories -/

/-- The calls, and what happens between them: lost EvoDB writes, a restart, other parts of the node.
-/
inductive PoolOp (B : Type) where
  | getCreditPool (block_index : Option B)
  | checkCreditPoolDiffForBlock (pindex : B)
  | rollback (lost : List Uint256)
  | restart
  | surroundings (env : Surroundings B)

def emptyCache : UnorderedLruCache Uint256 CCreditPool :=
  .new 1000 0 (by decide)

def start : CCreditPoolManager B :=
  ⟨emptyCache, ∅, env⟩

def step : PoolOp B → CCreditPoolManager B
  | .getCreditPool block_index => (ctx.getCreditPool block_index s).2
  | .checkCreditPoolDiffForBlock pindex => (ctx.checkCreditPoolDiffForBlock pindex s).2
  | .rollback lost => { s with snapshots := s.snapshots.eraseIf fun hash => hash ∈ lost }
  | .restart => { s with creditPoolCache := emptyCache }
  | .surroundings env => { s with env }

def Reached : Prop :=
  ∃ env ops, Run (Computes ctx.step) (start env) ops s

def Accepted (pindex : B) : Prop :=
  ∃ s, ctx.Reached s ∧ (ctx.checkCreditPoolDiffForBlock pindex s).1 = .ok ()

/-! ### What a chain locks and unlocks -/

end CreditPoolContext

def lockAmount : CAmount :=
  if tx.isAssetLock then ((tx.vout.find? isOpReturn).map CTxOut.nValue).getD 0 else 0

def unlockAmount : CAmount :=
  if tx.isAssetUnlock then
    (tx.assetUnlock.map fun assetUnlockTx => (assetUnlockTx.fee.toNat : CAmount)).getD 0 + tx.valueOut
  else 0

def unlockIndex : Option UInt64 :=
  if tx.isAssetUnlock then tx.assetUnlock.map CAssetUnlockPayload.index else none

namespace CreditPoolContext

variable {B : Type} (env : Surroundings B) (pindexPrev : B)

/-- The loop of `ProcessLockUnlockTransactions`, with the indexes it has inserted so far. -/
def processFrom (initial : CCreditPoolDiff) :
    List UInt64 → CCreditPoolDiff → List Transaction → Except String Unit × CCreditPoolDiff
  | _, diff, [] => (.ok (), diff)
  | insertedIndexes, diff, tx :: txs =>
    match processLockUnlockTransaction env pindexPrev diff tx with
    | .ok diff => processFrom initial (insertedIndexes ++ (unlockIndex tx).toList) diff txs
    | .error state => (.error state, { diff with
        newIndexes := insertedIndexes.foldl List.erase diff.newIndexes
        sessionLocked := initial.sessionLocked
        sessionUnlocked := initial.sessionUnlocked })

def processLockUnlockTransactions (diff : CCreditPoolDiff) (txs : List Transaction) :
    Except String Unit × CCreditPoolDiff :=
  processFrom env pindexPrev diff [] diff txs

variable (ctx : CreditPoolContext B)

def blockLocked (pindex : B) : CAmount :=
  ((ctx.vtx pindex).map lockAmount).sum

def blockUnlocked (pindex : B) : CAmount :=
  ((ctx.vtx pindex).map unlockAmount).sum

def blockIndexes (pindex : B) : List UInt64 :=
  (ctx.vtx pindex).filterMap unlockIndex

variable (pindex : Option B)

def balance : CAmount :=
  ((ctx.tree.lineTo pindex).map fun c =>
    ctx.blockLocked c + ctx.platformReward (ctx.tree.height c) - ctx.blockUnlocked c).sum

def windowUnlocked : CAmount :=
  (((ctx.tree.lineTo pindex).reverse.take ctx.creditPoolPeriodBlocks).map ctx.blockUnlocked).sum

def NoAssets (pindex : B) : Prop :=
  ∀ tx ∈ ctx.vtx pindex, tx.isAssetLock = false ∧ tx.isAssetUnlock = false

def chainPool : Except Thrown CCreditPool :=
  ctx.tree.valueAt (fun prev pindex =>
    if !ctx.deploymentActiveAt pindex ctx.V20Height then .ok .empty
    else prev >>= ctx.constructPool (fun _ => true) pindex) (.ok .empty) pindex

end CreditPoolContext

end Defcon.Evo.CreditPool
