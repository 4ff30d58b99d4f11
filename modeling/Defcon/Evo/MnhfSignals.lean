import Mathlib.Data.Fin.VecNotation
import Defcon.Lib.ChainValue
import Defcon.Lib.Fallible
import Defcon.Lib.Run
import Defcon.Llmq.Params
import Defcon.UnorderedLruCache

/-!
# Hard-fork signals

A masternode hard-fork signal is a transaction that names a version bit. `CMNHFManager` records
for each block which bits have been signalled and at which heights, in a cache and in the database,
and recomputes what is in neither by replaying blocks: a walk back to a block whose signals are
known, and `ProcessBlock` on each block from there, which asks for the signals of the previous
block again. The signals of a block are meant to be a fold over its line, and are, as long as no
block below the activation height carries a signal.
-/

namespace Defcon.Evo.Mnhf

open AList (Map)
open Lib List AList UnorderedLruCache Except
open Llmq (CBLSPublicKey CBLSSignature)
open Lib.BlockTree

/-! ### Transactions and parameters -/

def VERSIONBITS_NUM_BITS : Nat := 29

def TRANSACTION_MNHF_SIGNAL : UInt16 := 7

structure MNHFTx where
  versionBit : UInt8
  quorumHash : Uint256
  sig : CBLSSignature

structure MNHFTxPayload where
  nVersion : UInt8
  signal : MNHFTx

def MNHFTxPayload.CURRENT_VERSION : UInt8 := 1

/-- A transaction. `payload` is what `GetTxPayload` returns; `hashUnsigned` is the hash without
signature. -/
structure Transaction where
  isSpecialTxVersion : Bool
  nType : UInt16
  payload : Option MNHFTxPayload
  hashUnsigned : Uint256

def Transaction.isSignal (tx : Transaction) : Bool :=
  tx.isSpecialTxVersion && tx.nType == TRANSACTION_MNHF_SIGNAL

/-- From a version bit to the height of the block that carries its signal. -/
abbrev Signals := Map UInt8 Nat

structure BIP9Deployment where
  bit : Nat
  nStartTime : Int
  nTimeout : Int
  useEHF : Bool

/-- The first deployment of the bit whose time it is decides; an unknown bit is fine. -/
def isValidMNActivation (nBit : UInt8) (timePast : Int) : List BIP9Deployment → Bool
  | [] => true
  | deployment :: rest =>
    if deployment.bit ≠ nBit.toNat then isValidMNActivation nBit timePast rest
    else if timePast > deployment.nTimeout ∨ timePast < deployment.nStartTime then
      isValidMNActivation nBit timePast rest
    else deployment.useEHF

/-- What the code reads and does not change. -/
structure MnhfContext (B : Type) where
  tree : BlockTree B
  getBlockHash : B → Uint256
  getBlockHash_injective : getBlockHash.Injective
  getMedianTimePast : B → Int
  vtx : B → List Transaction
  V20Height : Nat
  MN_RRHeight : Nat
  vDeployments : List BIP9Deployment
  getRequestId : UInt8 → Uint256
  buildSignHash : Uint256 → Uint256 → Uint256 → Uint256
  verifyInsecure : Bool → CBLSSignature → CBLSPublicKey → Uint256 → Bool

/-- Why a transaction is refused; `thrown` is an exception from the quorum manager. -/
inductive Failure where
  | invalid (reason : String)
  | thrown (what : String)

/-- What other parts of the node answer at the time of a call. -/
structure Surroundings (B : Type) where
  lookupBlockIndex : Uint256 → Option B
  getQuorum : Uint256 → Except Failure (Option CBLSPublicKey)
  bls_legacy_scheme : Bool
  readable : B → Bool

/-- `dbSignals` and `dbSignalsV2` are the entries under `DB_SIGNALS` and `DB_SIGNALS_v2`. -/
structure CMNHFManager (B : Type) where
  mnhfCache : UnorderedLruCache Uint256 Signals
  dbSignals : Map Uint256 Signals
  dbSignalsV2 : Map Uint256 Signals
  env : Surroundings B

/-- What ends `GetForBlock`. The recursion limit has no counterpart in the source. -/
inductive Thrown where
  | coinbaseChainlockReadError (what : String)
  | runtimeError (what : String)
  | assertion
  | recursionLimit

/-- What ends `ProcessBlock`: the states `Invalid` and `Error`, or the process stops. -/
inductive BlockFailure where
  | invalid (reason : String)
  | error (reason : String)
  | abort
  deriving DecidableEq

def Thrown.caught : Thrown → BlockFailure
  | .coinbaseChainlockReadError what => .error what
  | .runtimeError _ => .invalid "failed-proc-mnhf-inblock"
  | .assertion => .abort
  | .recursionLimit => .abort

def BlockFailure.thrown : BlockFailure → Thrown
  | .invalid _ => .runtimeError "failed-getehfforblock-construct"
  | .error reason => .coinbaseChainlockReadError reason
  | .abort => .assertion

def Failure.toBlock : Failure → BlockFailure
  | .invalid reason => .invalid reason
  | .thrown what => .error what

def extractEHFSignal (tx : Transaction) : Option UInt8 :=
  if tx.isSignal then tx.payload.map fun mnhfTx => mnhfTx.signal.versionBit else none

namespace MnhfContext

variable {B : Type} [DecidableEq B] (ctx : MnhfContext B)

/-! ### The checks of a block's signals -/

def verify (env : Surroundings B) (signal : MNHFTx) (requestId msgHash : Uint256) :
    Except Failure Unit := do
  refuseIf (VERSIONBITS_NUM_BITS ≤ signal.versionBit.toNat) (.invalid "bad-mnhf-nbit-out-of-bounds")
  let quorum ← env.getQuorum signal.quorumHash
  let quorumPublicKey ← need (.invalid "bad-mnhf-missing-quorum") quorum
  refuseIf (!ctx.verifyInsecure env.bls_legacy_scheme signal.sig quorumPublicKey
    (ctx.buildSignHash signal.quorumHash requestId msgHash)) (.invalid "bad-mnhf-invalid")

def checkMNHFTx (env : Surroundings B) (tx : Transaction) (pindexPrev : B) :
    Except Failure Unit := do
  refuseIf (!tx.isSignal) (.invalid "bad-mnhf-type")
  let mnhfTx ← need (.invalid "bad-mnhf-payload") tx.payload
  refuseIf (mnhfTx.nVersion = 0 ∨ mnhfTx.nVersion > MNHFTxPayload.CURRENT_VERSION)
    (.invalid "bad-mnhf-version")
  refuseIf (VERSIONBITS_NUM_BITS ≤ mnhfTx.signal.versionBit.toNat)
    (.invalid "bad-mnhf-nbit-out-of-bounds")
  refuseIf (!isValidMNActivation mnhfTx.signal.versionBit (ctx.getMedianTimePast pindexPrev)
    ctx.vDeployments) (.invalid "bad-mnhf-non-ehf")
  let pindexQuorum ← need (.invalid "bad-mnhf-quorum-hash")
    (env.lookupBlockIndex mnhfTx.signal.quorumHash)
  refuseIf (¬ ctx.tree.Ancestor pindexQuorum pindexPrev) (.invalid "bad-mnhf-quorum-hash")
  ctx.verify env mnhfTx.signal (ctx.getRequestId mnhfTx.signal.versionBit) tx.hashUnsigned

def extractSignal (env : Surroundings B) (pindex : B) (new_signals : List UInt8)
    (tx : Transaction) : Except Failure (List UInt8) :=
  if !tx.isSignal then .ok new_signals
  else do
    ctx.checkMNHFTx env tx pindex
    let mnhfTx ← need (.invalid "bad-mnhf-tx-payload") tx.payload
    refuseIf (mnhfTx.signal.versionBit ∈ new_signals) (.invalid "bad-mnhf-duplicates-in-block")
    pure (new_signals ++ [mnhfTx.signal.versionBit])

def extractSignals (env : Surroundings B) (vtx : List Transaction) (pindex : B) :
    Except Failure (List UInt8) :=
  vtx.tail.foldlM (ctx.extractSignal env pindex) []

variable (pindexPrev : Option B)

def deploymentActiveAfter (deploymentHeight : Nat) : Bool :=
  deploymentHeight ≤ ctx.tree.depth pindexPrev

def deploymentActiveAt (pindex : B) (deploymentHeight : Nat) : Bool :=
  deploymentHeight ≤ ctx.tree.height pindex

def expired (pindexPrev : B) (versionBit : UInt8) (height : Nat) : Bool :=
  match ctx.tree.ancestorAt pindexPrev height with
  | none => false
  | some signal_pindex => ctx.vDeployments.any fun deployment =>
    deployment.bit = versionBit.toNat ∧
      ctx.getMedianTimePast signal_pindex < deployment.nStartTime

def dropExpired (pindexPrev : B) (signals : Signals) : Signals :=
  (signals.entries.filter fun signal => !ctx.expired pindexPrev signal.1 signal.2).foldl
    (fun signals_ret signal => signals_ret.emplace signal.1 signal.2) ∅

/-- `GetSignalsStage`, which asks `getForBlock` for the signals of the previous block. -/
def signalsStageFrom
    (getForBlock : Option B → CMNHFManager B → Except Thrown Signals × CMNHFManager B)
    (pindexPrev : Option B) (s : CMNHFManager B) : Except Thrown Signals × CMNHFManager B :=
  if !ctx.deploymentActiveAfter pindexPrev ctx.V20Height then (.ok ∅, s)
  else
    match getForBlock pindexPrev s with
    | (.error e, s) => (.error e, s)
    | (.ok signals_tmp, s) =>
      match pindexPrev with
      | none => (.ok ∅, s)
      | some pindexPrev =>
        if signals_tmp.entries.all fun signal =>
            (ctx.tree.ancestorAt pindexPrev signal.2).isSome then
          (.ok (ctx.dropExpired pindexPrev signals_tmp), s)
        else (.error .assertion, s)

variable (signals : Signals)

def checkNewSignals (pindex : B) (new_signals : List UInt8) :
    Except String Unit :=
  forM new_signals fun versionBit => do
    refuseIf (versionBit ∈ signals) "bad-mnhf-duplicate"
    refuseIf (!isValidMNActivation versionBit (ctx.getMedianTimePast pindex) ctx.vDeployments)
      "bad-mnhf-non-mn-fork"

def addToCache (pindex : B) (s : CMNHFManager B) : CMNHFManager B :=
  let s := { s with mnhfCache := s.mnhfCache.insert (ctx.getBlockHash pindex) signals }
  if ctx.deploymentActiveAt pindex ctx.V20Height then
    { s with dbSignalsV2 := s.dbSignalsV2.insert (ctx.getBlockHash pindex) signals }
  else s

def addSignals (height : Nat) (signals : Signals) (new_signals : List UInt8) : Signals :=
  new_signals.foldl (fun signals versionBit => signals.emplace versionBit height) signals

def processBlockFrom
    (getForBlock : Option B → CMNHFManager B → Except Thrown Signals × CMNHFManager B)
    (vtx : List Transaction) (pindex : B) (fJustCheck : Bool) (s : CMNHFManager B) :
    Except BlockFailure Signals × CMNHFManager B :=
  match ctx.extractSignals s.env vtx pindex with
  | .error failure => (.error failure.toBlock, s)
  | .ok new_signals =>
    match ctx.signalsStageFrom getForBlock (ctx.tree.parent pindex) s with
    | (.error e, s) => (.error e.caught, s)
    | (.ok signals, s) =>
      if new_signals.isEmpty then
        (.ok signals, if fJustCheck then s else ctx.addToCache signals pindex s)
      else
        match ctx.checkNewSignals signals pindex new_signals with
        | .error reason => (.error (.invalid reason), s)
        | .ok () =>
          if fJustCheck then (.ok signals, s)
          else
            let signals := addSignals (ctx.tree.height pindex) signals new_signals
            (.ok signals, ctx.addToCache signals pindex s)

/-! ### The cache, the database and the replay -/

def getFromCache (pindex : B) (s : CMNHFManager B) : Option Signals × CMNHFManager B :=
  let blockHash := ctx.getBlockHash pindex
  let remember (signals : Signals) (s : CMNHFManager B) : Option Signals × CMNHFManager B :=
    (some signals, { s with mnhfCache := s.mnhfCache.insert blockHash signals })
  match s.mnhfCache.get blockHash with
  | (some signals, mnhfCache) => (some signals, { s with mnhfCache })
  | (none, mnhfCache) =>
    let s := { s with mnhfCache }
    if !ctx.deploymentActiveAt pindex ctx.V20Height then remember ∅ s
    else
      match s.dbSignalsV2.lookup blockHash with
      | some signals => remember signals s
      | none =>
        if ctx.deploymentActiveAt pindex ctx.MN_RRHeight then (none, s)
        else
          match s.dbSignals.lookup blockHash with
          | some signals => remember signals s
          | none => (none, s)

def replayBlock
    (getForBlock : Option B → CMNHFManager B → Except Thrown Signals × CMNHFManager B)
    (pindex_top : B) (_signalsTmp : Signals) (s : CMNHFManager B) :
    Except Thrown Signals × CMNHFManager B :=
  if !s.env.readable pindex_top then (.error (.runtimeError "failed-getehfforblock-read"), s)
  else
    match ctx.processBlockFrom getForBlock (ctx.vtx pindex_top) pindex_top false s with
    | (.ok signals, s) => (.ok signals, s)
    | (.error failure, s) => (.error failure.thrown, s)

/-- `GetForBlock` with a bound on the depth of the recursion through `ProcessBlock`. -/
def getForBlockWithin : Nat → Option B → CMNHFManager B → Except Thrown Signals × CMNHFManager B
  | _, none, s => (.ok ∅, s)
  | 0, some _, s => (.error .recursionLimit, s)
  | n + 1, some pindex, s =>
    ctx.tree.lazyValue ctx.getFromCache ∅ (ctx.replayBlock (getForBlockWithin n)) (some pindex) s

def getForBlock (pindex : Option B) (s : CMNHFManager B) :
    Except Thrown Signals × CMNHFManager B :=
  ctx.getForBlockWithin (ctx.tree.depth pindex) pindex s

def getSignalsStage (s : CMNHFManager B) : Except Thrown Signals × CMNHFManager B :=
  ctx.signalsStageFrom ctx.getForBlock pindexPrev s

def processBlock (vtx : List Transaction) (pindex : B) (fJustCheck : Bool) (s : CMNHFManager B) :
    Except BlockFailure Signals × CMNHFManager B :=
  ctx.processBlockFrom ctx.getForBlock vtx pindex fJustCheck s

def undoBlock (vtx : List Transaction) (pindex : B) (s : CMNHFManager B) :
    Option Bool × CMNHFManager B :=
  match ctx.extractSignals s.env vtx pindex with
  | .error (.invalid _) => (some false, s)
  | .error (.thrown _) => (none, s)
  | .ok excluded_signals =>
    if excluded_signals.isEmpty then (some true, s)
    else
      match ctx.getForBlock (some pindex) s with
      | (.error _, s) => (none, s)
      | (.ok signals, s) =>
        if excluded_signals.all fun versionBit => versionBit ∈ signals ∧
            isValidMNActivation versionBit (ctx.getMedianTimePast pindex) ctx.vDeployments then
          (some true, s)
        else (none, s)

/-! ### Histories -/

/-- The calls, and what happens between them: lost EvoDB writes, a restart, other parts of the node.
-/
inductive MnhfOp (B : Type) where
  | processBlock (vtx : List Transaction) (pindex : B) (fJustCheck : Bool)
  | undoBlock (vtx : List Transaction) (pindex : B)
  | getForBlock (pindex : Option B)
  | getSignalsStage (pindexPrev : Option B)
  | rollback (lost : List Uint256)
  | restart
  | surroundings (env : Surroundings B)

def emptyCache : UnorderedLruCache Uint256 Signals :=
  .new 1000 0 (Nat.succ_ne_zero 999)

def start (env : Surroundings B) : CMNHFManager B :=
  ⟨emptyCache, ∅, ∅, env⟩

def step (s : CMNHFManager B) : MnhfOp B → CMNHFManager B
  | .processBlock vtx pindex fJustCheck => (ctx.processBlock vtx pindex fJustCheck s).2
  | .undoBlock vtx pindex => (ctx.undoBlock vtx pindex s).2
  | .getForBlock pindex => (ctx.getForBlock pindex s).2
  | .getSignalsStage pindexPrev => (ctx.getSignalsStage pindexPrev s).2
  | .rollback lost => { s with dbSignalsV2 := s.dbSignalsV2.eraseIf fun hash => hash ∈ lost }
  | .restart => { s with mnhfCache := emptyCache }
  | .surroundings env => { s with env }

/-- A block that is connected is the block of its index entry. -/
def Connects (_ : CMNHFManager B) : MnhfOp B → Prop
  | .processBlock vtx pindex fJustCheck => fJustCheck = false → vtx = ctx.vtx pindex
  | _ => True

/-! ### The signals of a chain -/

def ownSignals (pindex : B) : List UInt8 :=
  (ctx.vtx pindex).tail.filterMap extractEHFSignal

def stageOf : Signals :=
  if !ctx.deploymentActiveAfter pindexPrev ctx.V20Height then ∅
  else
    match pindexPrev with
    | none => ∅
    | some pindexPrev => ctx.dropExpired pindexPrev signals

def connectSignals (pindex : B) : Signals :=
  addSignals (ctx.tree.height pindex) (ctx.stageOf (ctx.tree.parent pindex) signals)
    (ctx.ownSignals pindex)

def chainSignals (pindex : Option B) : Signals :=
  ctx.tree.valueAt ctx.connectSignals ∅ pindex

def stageBelow (pindex : B) : Signals :=
  ctx.stageOf (ctx.tree.parent pindex) (ctx.chainSignals (ctx.tree.parent pindex))

structure Fresh (pindex : B) : Prop where
  nodup : (ctx.ownSignals pindex).Nodup
  not_staged : ∀ versionBit ∈ ctx.ownSignals pindex, versionBit ∉ ctx.stageBelow pindex

def ExpiresAt (versionBit : UInt8) (pindex : B) : Prop :=
  versionBit ∈ ctx.chainSignals (ctx.tree.parent pindex) ∧ versionBit ∉ ctx.stageBelow pindex

def NoEarlySignals : Prop :=
  ∀ pindex, ctx.tree.height pindex < ctx.V20Height → ctx.ownSignals pindex = []

/-- A replay of the line of `pindex` can succeed: the blocks can be read, their signals pass the
checks, and none of them is a duplicate. -/
structure Replayable (env : Surroundings B) (pindex : B) : Prop where
  readable : env.readable pindex = true
  checked : ∃ bits, ctx.extractSignals env (ctx.vtx pindex) pindex = .ok bits
  not_staged : ∀ versionBit ∈ ctx.ownSignals pindex, versionBit ∉ ctx.stageBelow pindex

variable {ctx} {env : Surroundings B} {pindex b : B} {s : CMNHFManager B} {signals : Signals}
  {versionBit : UInt8}

/-! ### What the checks let through -/

def Activates (ctx : MnhfContext B) (pindex : B) (versionBit : UInt8) : Prop :=
  isValidMNActivation versionBit (ctx.getMedianTimePast pindex) ctx.vDeployments = true

theorem activates_of_checkMNHFTx {tx : Transaction} {mnhfTx : MNHFTxPayload}
    (hok : ctx.checkMNHFTx env tx pindex = .ok ()) (hpayload : tx.payload = some mnhfTx) :
    ctx.Activates pindex mnhfTx.signal.versionBit := by
  simp only [checkMNHFTx, hpayload, bind_eq_ok, refuseIf_eq_ok, need_eq_ok,
    Option.some.injEq] at hok
  obtain ⟨_, _, _, rfl, _, _, _, _, _, hactive, _⟩ := hok
  simpa [Activates] using hactive

theorem extractSignal_eq_ok {old new : List UInt8} {tx : Transaction}
    (hok : ctx.extractSignal env pindex old tx = .ok new) :
    new = old ++ (extractEHFSignal tx).toList ∧ (old.Nodup → new.Nodup) ∧
      ∀ versionBit ∈ (extractEHFSignal tx).toList, ctx.Activates pindex versionBit := by
  unfold extractSignal at hok
  by_cases hsignal : tx.isSignal = true
  · simp only [hsignal, Bool.not_true, Bool.false_eq_true, if_false, bind_eq_ok, need_eq_ok,
      refuseIf_eq_ok, pure_eq_ok] at hok
    obtain ⟨_, hcheck, mnhfTx, hpayload, _, hfresh, rfl⟩ := hok
    have hextract : extractEHFSignal tx = some mnhfTx.signal.versionBit := by
      simp [extractEHFSignal, hsignal, hpayload]
    refine ⟨by simp [hextract], fun hnodup => ?_, ?_⟩
    · rw [nodup_append]
      refine ⟨hnodup, nodup_singleton _, ?_⟩
      rintro bit hbit bit' hbit' rfl
      exact hfresh (mem_singleton.mp hbit' ▸ hbit)
    · rw [hextract]
      intro versionBit hbit
      rw [mem_singleton.mp hbit]
      exact activates_of_checkMNHFTx hcheck hpayload
  · simp only [hsignal, Bool.not_false, if_true, ok.injEq] at hok
    subst hok
    simp [extractEHFSignal, hsignal]

theorem extractSignals_eq_ok {vtx : List Transaction} {bits : List UInt8}
    (hok : ctx.extractSignals env vtx pindex = .ok bits) :
    bits = vtx.tail.filterMap extractEHFSignal ∧ bits.Nodup ∧
      ∀ versionBit ∈ bits, ctx.Activates pindex versionBit := by
  have hloop (txs : List Transaction) (old : List UInt8)
      (hok : txs.foldlM (ctx.extractSignal env pindex) old = .ok bits) :
      bits = old ++ txs.filterMap extractEHFSignal ∧ (old.Nodup → bits.Nodup) ∧
        ∀ versionBit ∈ txs.filterMap extractEHFSignal, ctx.Activates pindex versionBit := by
    induction txs generalizing old with
    | nil =>
      rw [foldlM_nil, pure_eq_ok] at hok
      simp [hok]
    | cons tx txs ih =>
      rw [foldlM_cons, bind_eq_ok] at hok
      obtain ⟨mid, hmid, hrest⟩ := hok
      obtain ⟨rfl, hnodup, hactive⟩ := extractSignal_eq_ok hmid
      obtain ⟨hbits, hnodup', hactive'⟩ := ih _ hrest
      have hcons : (tx :: txs).filterMap extractEHFSignal =
          (extractEHFSignal tx).toList ++ txs.filterMap extractEHFSignal := by
        simp [filterMap_eq_flatMap_toList]
      refine ⟨by rw [hbits, hcons, append_assoc], fun hold => hnodup' (hnodup hold), ?_⟩
      intro versionBit hbit
      rw [hcons, mem_append] at hbit
      exact hbit.elim (hactive versionBit) (hactive' versionBit)
  obtain ⟨hbits, hnodup, hactive⟩ := hloop vtx.tail [] hok
  rw [nil_append] at hbits
  exact ⟨hbits, hnodup nodup_nil, hbits ▸ hactive⟩

omit [DecidableEq B] in
theorem checkNewSignals_eq_ok {bits : List UInt8} :
    ctx.checkNewSignals signals pindex bits = .ok () ↔
      ∀ versionBit ∈ bits, versionBit ∉ signals ∧ ctx.Activates pindex versionBit := by
  unfold checkNewSignals Activates
  induction bits with
  | nil => simp
  | cons bit bits ih =>
    rw [forM_cons, bind_eq_ok, forall_mem_cons, ← ih]
    simp

/-! ### The fold -/

section

omit [DecidableEq B]

theorem mem_addSignals {height : Nat} {bits : List UInt8} :
    versionBit ∈ addSignals height signals bits ↔ versionBit ∈ signals ∨ versionBit ∈ bits := by
  unfold addSignals
  induction bits generalizing signals with
  | nil => simp
  | cons bit bits ih =>
    rw [foldl_cons, ih, ← lookup_isSome, lookup_emplace, mem_cons]
    by_cases hbit : versionBit = bit
    · simp [hbit]
    · simp [hbit, lookup_isSome]

theorem lookup_addSignals {height h : Nat} {bits : List UInt8}
    (hlookup : (addSignals height signals bits).lookup versionBit = some h) :
    signals.lookup versionBit = some h ∨ h = height := by
  rcases lookup_of_foldl_emplace hlookup with hlookup | ⟨bit, -, -, rfl⟩
  · exact Or.inl hlookup
  · exact Or.inr rfl

theorem lookup_dropExpired {h : Nat}
    (hlookup : (ctx.dropExpired pindex signals).lookup versionBit = some h) :
    signals.lookup versionBit = some h := by
  rcases lookup_of_foldl_emplace hlookup with hempty | ⟨signal, hmem, rfl, rfl⟩
  · cases hempty
  · exact Option.mem_def.mp (mem_lookup_iff.mpr (mem_of_mem_filter hmem))

theorem deploymentActiveAfter_parent (pindex : B) (height : Nat) :
    ctx.deploymentActiveAfter (ctx.tree.parent pindex) height =
      ctx.deploymentActiveAt pindex height := by
  have hdepth := depth_parent (t := ctx.tree) (b := pindex) rfl
  rw [depth] at hdepth
  rw [deploymentActiveAfter, deploymentActiveAt]
  congr 2
  omega

theorem chainSignals_some (pindex : B) :
    ctx.chainSignals (some pindex) =
      addSignals (ctx.tree.height pindex) (ctx.stageBelow pindex) (ctx.ownSignals pindex) :=
  valueAt_some _ _ _

theorem stageOf_active {pindexPrev : B}
    (hactive : ctx.deploymentActiveAfter (some pindexPrev) ctx.V20Height = true) :
    ctx.stageOf (some pindexPrev) signals = ctx.dropExpired pindexPrev signals := by
  simp [stageOf, hactive]

theorem height_le_of_lookup {h : Nat} {pindex : Option B}
    (hlookup : (ctx.chainSignals pindex).lookup versionBit = some h) :
    h < ctx.tree.depth pindex := by
  induction pindex using ctx.tree.parent_induction with
  | hnone => simp [chainSignals] at hlookup
  | hstep b ih =>
    have hdepth := depth_parent (t := ctx.tree) (b := b) rfl
    rw [chainSignals_some] at hlookup
    obtain hlookup | rfl := lookup_addSignals hlookup
    · unfold stageBelow stageOf at hlookup
      split at hlookup
      · simp at hlookup
      · split at hlookup
        · simp at hlookup
        next p hp =>
          have := ih (lookup_dropExpired hlookup)
          omega
    · exact Nat.lt_succ_self _

theorem stageBelow_of_early (hearly : ctx.tree.height b < ctx.V20Height) :
    ctx.stageBelow b = ∅ := by
  have hinactive : ctx.deploymentActiveAfter (ctx.tree.parent b) ctx.V20Height = false := by
    rw [deploymentActiveAfter_parent, deploymentActiveAt, decide_eq_false_iff_not]
    omega
  simp [stageBelow, stageOf, hinactive]

theorem chainSignals_of_early (hnone : ctx.NoEarlySignals)
    (hearly : ctx.tree.height b < ctx.V20Height) : ctx.chainSignals (some b) = ∅ := by
  rw [chainSignals_some, stageBelow_of_early hearly, hnone b hearly]
  rfl

theorem fresh_of_early (hnone : ctx.NoEarlySignals) (hearly : ctx.tree.height b < ctx.V20Height) :
    ctx.Fresh b := by
  constructor <;> simp [hnone b hearly]

/-! ### What the stores hold -/

variable (ctx) in
structure Known (pindex : Option B) (signals : Signals) : Prop where
  signals_eq : signals = ctx.chainSignals pindex
  fresh : ∀ c ∈ ctx.tree.lineTo pindex, ctx.Fresh c

variable (ctx) in
structure Coherent (s : CMNHFManager B) : Prop where
  cached : ∀ {b signals}, s.mnhfCache.find (ctx.getBlockHash b) = some signals →
    ctx.Known (some b) signals
  stored : ∀ {b signals}, s.dbSignalsV2.lookup (ctx.getBlockHash b) = some signals →
    ctx.Known (some b) signals
  storedOld : ∀ {b signals}, s.dbSignals.lookup (ctx.getBlockHash b) = some signals →
    ctx.Known (some b) signals

variable (ctx env) in
def Holds (s : CMNHFManager B) : Prop :=
  ctx.Coherent s ∧ s.env = env

theorem Known.parent (hknown : ctx.Known (ctx.tree.parent b) signals) (hfresh : ctx.Fresh b) :
    ctx.Known (some b) (ctx.connectSignals signals b) := by
  refine ⟨?_, fun c hc => ?_⟩
  · rw [hknown.signals_eq, chainSignals, chainSignals, valueAt_some]
  · obtain hc | rfl := (mem_lineTo_step b).mp hc
    · exact hknown.fresh c hc
    · exact hfresh

theorem known_of_early (hnone : ctx.NoEarlySignals) {pindex : Option B}
    (hearly : ctx.tree.depth pindex ≤ ctx.V20Height) : ctx.Known pindex ∅ := by
  cases pindex with
  | none => exact ⟨rfl, fun c hc => nomatch hc⟩
  | some b =>
    refine ⟨(chainSignals_of_early hnone hearly).symm, fun c hc => ?_⟩
    have := (mem_line.mp hc).height_le
    exact fresh_of_early hnone (Nat.lt_of_le_of_lt this hearly)

theorem Coherent.remember (hs : ctx.Coherent s) (hknown : ctx.Known (some b) signals) :
    ctx.Coherent { s with mnhfCache := s.mnhfCache.insert (ctx.getBlockHash b) signals } := by
  refine ⟨fun {c v} hfind => ?_, hs.stored, hs.storedOld⟩
  have hinsert := find_insert hfind
  split at hinsert
  next heq =>
    rw [ctx.getBlockHash_injective heq, hinsert]
    exact hknown
  · exact hs.cached hinsert

theorem Coherent.addToCache (hs : ctx.Coherent s) (hknown : ctx.Known (some b) signals) :
    ctx.Coherent (ctx.addToCache signals b s) := by
  have hcached := hs.remember hknown
  unfold MnhfContext.addToCache
  split
  · refine ⟨hcached.cached, fun {c v} hlookup => ?_, hcached.storedOld⟩
    rcases lookup_of_insert hlookup with ⟨heq, rfl⟩ | hlookup
    · rw [ctx.getBlockHash_injective heq]
      exact hknown
    · exact hs.stored hlookup
  · exact hcached

theorem Holds.addToCache (hs : ctx.Holds env s) (hknown : ctx.Known (some b) signals) :
    ctx.Holds env (ctx.addToCache signals b s) := by
  refine ⟨hs.1.addToCache hknown, ?_⟩
  unfold MnhfContext.addToCache
  split <;> exact hs.2

theorem getFromCache_probes (hnone : ctx.NoEarlySignals) (b : B) (hs : ctx.Holds env s) :
    Probes (ctx.Holds env) (ctx.Known (some b)) (ctx.V20Height ≤ ctx.tree.height b)
      (ctx.getFromCache b s) := by
  obtain ⟨hs, henv⟩ := hs
  have hremember {signals : Signals} {s : CMNHFManager B} (hs : ctx.Coherent s) (henv : s.env = env)
      (hknown : ctx.Known (some b) signals) :
      Probes (ctx.Holds env) (ctx.Known (some b)) (ctx.V20Height ≤ ctx.tree.height b)
        (some signals,
          { s with mnhfCache := s.mnhfCache.insert (ctx.getBlockHash b) signals }) :=
    ⟨⟨hs.remember hknown, henv⟩, fun hv => Option.some.inj hv ▸ hknown,
      (absurd · (Option.some_ne_none _))⟩
  have hfind := find_get s.mnhfCache (ctx.getBlockHash b)
  have hfst := get_fst s.mnhfCache (ctx.getBlockHash b)
  unfold getFromCache
  dsimp only
  generalize s.mnhfCache.get (ctx.getBlockHash b) = found at hfind hfst ⊢
  obtain ⟨found, mnhfCache⟩ := found
  have hs' : ctx.Coherent { s with mnhfCache } :=
    ⟨fun hc => hs.cached (hfind ▸ hc), hs.stored, hs.storedOld⟩
  cases found with
  | some signals =>
    have hknown := hs.cached hfst.symm
    exact ⟨⟨hs', henv⟩, fun hv => Option.some.inj hv ▸ hknown,
      (absurd · (Option.some_ne_none _))⟩
  | none =>
    dsimp only
    split
    next hinactive =>
      refine hremember hs' henv (known_of_early hnone ?_)
      simpa [deploymentActiveAt, depth, Nat.succ_le_iff] using hinactive
    next hactive =>
      have hmiss : Probes (ctx.Holds env) (ctx.Known (some b))
          (ctx.V20Height ≤ ctx.tree.height b) (none, { s with mnhfCache }) :=
        ⟨⟨hs', henv⟩, (absurd ·.symm (Option.some_ne_none _)), fun _ => by simpa [deploymentActiveAt] using hactive⟩
      split
      next signals hlookup => exact hremember hs' henv (hs.stored hlookup)
      · split
        · exact hmiss
        · split
          next signals hlookup => exact hremember hs' henv (hs.storedOld hlookup)
          · exact hmiss

end

/-! ### One call -/

def Answers (ctx : MnhfContext B) (env : Surroundings B)
    (getForBlock : Option B → CMNHFManager B → Except Thrown Signals × CMNHFManager B) : Prop :=
  ∀ pindex {s}, ctx.Holds env s →
    Sound (ctx.Holds env) (ctx.Known pindex) (getForBlock pindex s)

section

variable {getForBlock : Option B → CMNHFManager B → Except Thrown Signals × CMNHFManager B}

omit [DecidableEq B] in
theorem exists_ancestorAt_of_mem {p : B} {signal : Sigma fun _ : UInt8 => Nat}
    (hsignal : signal ∈ (ctx.chainSignals (some p)).entries) :
    (ctx.tree.ancestorAt p signal.2).isSome := by
  have hheight := height_le_of_lookup (Option.mem_def.mp (mem_lookup_iff.mpr hsignal))
  obtain ⟨a, ha⟩ := exists_ancestorAt (Nat.le_of_lt_succ hheight)
  rw [ha]
  rfl

omit [DecidableEq B] in
theorem signalsStageFrom_spec (hnone : ctx.NoEarlySignals) (hgfb : ctx.Answers env getForBlock)
    (pindexPrev : Option B) (hs : ctx.Holds env s) :
    Sound (ctx.Holds env)
        (fun signals => ctx.Known pindexPrev (ctx.chainSignals pindexPrev) ∧
          signals = ctx.stageOf pindexPrev (ctx.chainSignals pindexPrev))
        (ctx.signalsStageFrom getForBlock pindexPrev s) ∧
      ((∃ signals, (getForBlock pindexPrev s).1 = .ok signals) →
        ∃ signals, (ctx.signalsStageFrom getForBlock pindexPrev s).1 = .ok signals) := by
  unfold signalsStageFrom
  by_cases hactive : ctx.deploymentActiveAfter pindexPrev ctx.V20Height = true
  · rw [hactive, Bool.not_true, if_neg Bool.false_ne_true]
    have hanswer := hgfb pindexPrev hs
    split
    next e s' heq =>
      rw [heq] at hanswer ⊢
      exact ⟨⟨hanswer.inv, (nomatch ·)⟩, fun ⟨_, hok⟩ => nomatch hok⟩
    next signals_tmp s' heq =>
      rw [heq] at hanswer
      have hknown := hanswer.good rfl
      obtain rfl := hknown.signals_eq
      split
      · refine ⟨⟨hanswer.inv, fun hok => ⟨hknown, ?_⟩⟩, fun _ => ⟨∅, rfl⟩⟩
        rw [← ok.inj hok]
        simp [stageOf]
      · rw [if_pos (all_eq_true.mpr fun _ => exists_ancestorAt_of_mem)]
        refine ⟨⟨hanswer.inv, fun hok => ⟨hknown, ?_⟩⟩, fun _ => ⟨_, rfl⟩⟩
        rw [stageOf_active hactive]
        exact (ok.inj hok).symm
  · rw [Bool.not_eq_true] at hactive
    rw [hactive, Bool.not_false, if_pos rfl]
    have hearly : ctx.tree.depth pindexPrev ≤ ctx.V20Height := by
      simp only [deploymentActiveAfter, decide_eq_false_iff_not] at hactive
      omega
    have hknown := known_of_early hnone hearly
    refine ⟨⟨hs, fun hok => ⟨hknown.signals_eq ▸ hknown, ?_⟩⟩, fun _ => ⟨∅, rfl⟩⟩
    rw [← ok.inj hok]
    simp [stageOf, hactive]

theorem processBlockFrom_sound (hnone : ctx.NoEarlySignals) (hgfb : ctx.Answers env getForBlock)
    {vtx : List Transaction} {fJustCheck : Bool} (hvtx : fJustCheck = false → vtx = ctx.vtx b)
    (hs : ctx.Holds env s) :
    Sound (ctx.Holds env) (fun signals => fJustCheck = false → ctx.Known (some b) signals)
      (ctx.processBlockFrom getForBlock vtx b fJustCheck s) := by
  unfold processBlockFrom
  split
  · exact ⟨hs, (nomatch ·)⟩
  next bits hbits =>
    obtain ⟨hown, hnodup, -⟩ := extractSignals_eq_ok hbits
    have hstage := (signalsStageFrom_spec hnone hgfb (ctx.tree.parent b) hs).1
    split
    next e s' heq =>
      rw [heq] at hstage
      exact ⟨hstage.inv, (nomatch ·)⟩
    next signals s' heq =>
      rw [heq] at hstage
      obtain ⟨hknown, rfl⟩ := hstage.good rfl
      -- a block that is connected on this stage, once its bits are known to be new
      have hconnect (hcheck : fJustCheck = false)
          (hnew : ∀ versionBit ∈ bits, versionBit ∉ ctx.stageBelow b) :
          ctx.Known (some b) (addSignals (ctx.tree.height b) (ctx.stageBelow b) bits) := by
        have hbits : bits = ctx.ownSignals b := hown.trans (by rw [hvtx hcheck]; rfl)
        subst hbits
        exact hknown.parent ⟨hnodup, hnew⟩
      split
      next hempty =>
        rw [List.isEmpty_iff] at hempty
        subst hempty
        have hknown' (hcheck : fJustCheck = false) : ctx.Known (some b) (ctx.stageBelow b) :=
          hconnect hcheck fun _ hbit => nomatch hbit
        refine ⟨?_, fun hok hcheck => ok.inj hok ▸ hknown' hcheck⟩
        cases fJustCheck with
        | true => exact hstage.inv
        | false => exact hstage.inv.addToCache (hknown' rfl)
      · split
        · exact ⟨hstage.inv, (nomatch ·)⟩
        next hnew =>
          have hknown' (hcheck : fJustCheck = false) :=
            hconnect hcheck fun bit hbit => (checkNewSignals_eq_ok.mp hnew bit hbit).1
          cases fJustCheck with
          | true => exact ⟨hstage.inv, fun _ h => nomatch h⟩
          | false =>
            refine ⟨hstage.inv.addToCache (hknown' rfl), fun hok _ => ?_⟩
            exact ok.inj hok ▸ hknown' rfl

theorem replayBlock_sound (hnone : ctx.NoEarlySignals) (hgfb : ctx.Answers env getForBlock)
    (hs : ctx.Holds env s) :
    Sound (ctx.Holds env) (ctx.Known (some b))
      (ctx.replayBlock getForBlock b signals s) := by
  unfold replayBlock
  split
  · exact ⟨hs, (nomatch ·)⟩
  · have hprocess := @processBlockFrom_sound B _ ctx env b s getForBlock hnone hgfb (ctx.vtx b) false
      (fun _ => rfl) hs
    split
    next heq =>
      rw [heq] at hprocess
      exact ⟨hprocess.inv, fun hok => ok.inj hok ▸ hprocess.good rfl rfl⟩
    next heq =>
      rw [heq] at hprocess
      exact ⟨hprocess.inv, (nomatch ·)⟩

end

/-! ### When a call returns -/

section

variable {getForBlock : Option B → CMNHFManager B → Except Thrown Signals × CMNHFManager B}

theorem processBlockFrom_returns {vtx : List Transaction} {bits : List UInt8} {staged : Signals}
    (hbits : ctx.extractSignals s.env vtx b = .ok bits)
    (hstaged : (ctx.signalsStageFrom getForBlock (ctx.tree.parent b) s).1 = .ok staged)
    (hcheck : ctx.checkNewSignals staged b bits = .ok ()) :
    ∃ signals s', ctx.processBlockFrom getForBlock vtx b false s = (.ok signals, s') := by
  unfold processBlockFrom
  rw [hbits]
  generalize ctx.signalsStageFrom getForBlock (ctx.tree.parent b) s = stage at hstaged ⊢
  obtain ⟨_, s'⟩ := stage
  subst hstaged
  dsimp only
  split
  · exact ⟨_, _, rfl⟩
  · rw [hcheck]
    exact ⟨_, _, rfl⟩

theorem replayBlock_returns (hnone : ctx.NoEarlySignals) (hgfb : ctx.Answers env getForBlock)
    (hreplay : ctx.Replayable env b) (hs : ctx.Holds env s)
    (hreturns : ∃ signals, (getForBlock (ctx.tree.parent b) s).1 = .ok signals) :
    ∃ signals', (ctx.replayBlock getForBlock b signals s).1 = .ok signals' := by
  obtain ⟨hstage, hstaged⟩ := signalsStageFrom_spec hnone hgfb (ctx.tree.parent b) hs
  obtain ⟨staged, hstaged⟩ := hstaged hreturns
  obtain ⟨-, rfl⟩ := hstage.good hstaged
  obtain ⟨bits, hbits⟩ := hreplay.checked
  obtain ⟨rfl, -, hactive⟩ := extractSignals_eq_ok hbits
  have hcheck : ctx.checkNewSignals (ctx.stageBelow b) b (ctx.ownSignals b) = .ok () :=
    checkNewSignals_eq_ok.mpr fun bit hbit => ⟨hreplay.not_staged bit hbit, hactive bit hbit⟩
  have hreadable := hreplay.readable
  rw [← hs.2] at hbits hreadable
  obtain ⟨signals', s', hprocess⟩ := processBlockFrom_returns hbits hstaged hcheck
  unfold replayBlock
  rw [hreadable, Bool.not_true, if_neg Bool.false_ne_true, hprocess]
  exact ⟨signals', rfl⟩

end

theorem getForBlockWithin_spec (hnone : ctx.NoEarlySignals) (n : Nat) (pindex : Option B)
    (hs : ctx.Holds env s) :
    Sound (ctx.Holds env) (ctx.Known pindex) (ctx.getForBlockWithin n pindex s) ∧
      (ctx.tree.depth pindex ≤ n →
        (∀ c ∈ ctx.tree.lineTo pindex, ctx.V20Height ≤ ctx.tree.height c →
          ctx.Replayable env c) →
        ∃ signals, (ctx.getForBlockWithin n pindex s).1 = .ok signals) := by
  have hknown : ctx.Known none ∅ := known_of_early hnone (Nat.zero_le _)
  induction n generalizing pindex s with
  | zero =>
    cases pindex with
    | none => exact ⟨⟨hs, fun hok => ok.inj hok ▸ hknown⟩, fun _ _ => ⟨∅, rfl⟩⟩
    | some b => exact ⟨⟨hs, (nomatch ·)⟩, fun hn => absurd hn (by simp [depth])⟩
  | succ n ih =>
    cases pindex with
    | none => exact ⟨⟨hs, fun hok => ok.inj hok ▸ hknown⟩, fun _ _ => ⟨∅, rfl⟩⟩
    | some b =>
      have hanswers : ctx.Answers env (ctx.getForBlockWithin n) :=
        fun pindex {_} hs => (ih pindex hs).1
      obtain ⟨hsound, hreturns⟩ := lazyValue_spec (c := b) hknown
        (fun c {_} hs => getFromCache_probes hnone c hs)
        (fun c {_ _} _ hmissed hs _ => ⟨replayBlock_sound hnone hanswers hs,
          fun hline : ctx.tree.depth (ctx.tree.parent c) ≤ n ∧ ∀ d, ctx.tree.Ancestor d c →
              ctx.V20Height ≤ ctx.tree.height d → ctx.Replayable env d =>
            replayBlock_returns hnone hanswers (hline.2 c (.refl c) hmissed) hs
              ((ih _ hs).2 hline.1 fun d hd =>
                hline.2 d (mem_line.mp ((mem_lineTo_step c).mpr (Or.inl hd))))⟩) hs
      refine ⟨hsound, fun hn hreplay => hreturns fun c hc _ => ⟨?_, fun d hd => ?_⟩⟩
      · have hdepth := depth_parent (t := ctx.tree) (b := c) rfl
        have hle : ctx.tree.depth (some c) ≤ ctx.tree.depth (some b) :=
          Nat.succ_le_succ hc.height_le
        omega
      · exact hreplay d (mem_line.mpr (hd.trans hc))

/-! ### Histories -/

theorem getForBlock_sound (hnone : ctx.NoEarlySignals) (pindex : Option B)
    (hs : ctx.Holds env s) :
    Sound (ctx.Holds env) (ctx.Known pindex) (ctx.getForBlock pindex s) :=
  (getForBlockWithin_spec hnone _ pindex hs).1

theorem undoBlock_holds (hnone : ctx.NoEarlySignals) (vtx : List Transaction) (pindex : B)
    (hs : ctx.Holds env s) : ctx.Holds env (ctx.undoBlock vtx pindex s).2 := by
  unfold undoBlock
  split
  · exact hs
  · exact hs
  · split
    · exact hs
    · have hcall := (getForBlock_sound hnone (some pindex) hs).inv
      split
      next heq =>
        rw [heq] at hcall
        exact hcall
      next heq =>
        rw [heq] at hcall
        split <;> exact hcall

omit [DecidableEq B] in
theorem start_coherent (env : Surroundings B) : ctx.Coherent (start env) := by
  constructor <;> intro b signals hfound <;> simp [start, emptyCache, new,
    find] at hfound

theorem Coherent.step (hnone : ctx.NoEarlySignals) {op : MnhfOp B} (hs : ctx.Coherent s)
    (hop : ctx.Connects s op) : ctx.Coherent (ctx.step s op) := by
  have hholds : ctx.Holds s.env s := ⟨hs, rfl⟩
  have hanswers : ctx.Answers s.env ctx.getForBlock := fun pindex {_} => getForBlock_sound hnone pindex
  cases op with
  | processBlock vtx pindex fJustCheck =>
    exact (processBlockFrom_sound hnone hanswers hop hholds).inv.1
  | undoBlock vtx pindex => exact (undoBlock_holds hnone vtx pindex hholds).1
  | getForBlock pindex => exact (getForBlock_sound hnone pindex hholds).inv.1
  | getSignalsStage pindexPrev =>
    exact (signalsStageFrom_spec hnone hanswers pindexPrev hholds).1.inv.1
  | rollback lost =>
    exact ⟨hs.cached, fun hlookup => hs.stored (lookup_of_eraseIf hlookup), hs.storedOld⟩
  | restart => exact ⟨(start_coherent s.env).cached, hs.stored, hs.storedOld⟩
  | surroundings env => exact ⟨hs.cached, hs.stored, hs.storedOld⟩

/-! ### No bit twice -/

omit [DecidableEq B] in
theorem mem_chainSignals_of_own (hbit : versionBit ∈ ctx.ownSignals b) :
    versionBit ∈ ctx.chainSignals (some b) := by
  rw [chainSignals_some, mem_addSignals]
  exact Or.inr hbit

omit [DecidableEq B] in
theorem expired_or_mem {a : B} (hab : ctx.tree.Ancestor a b)
    (hbit : versionBit ∈ ctx.chainSignals (some a)) :
    (∃ d, ctx.tree.Ancestor a d ∧ d ≠ a ∧ ctx.tree.Ancestor d b ∧ ctx.ExpiresAt versionBit d) ∨
      versionBit ∈ ctx.chainSignals (some b) := by
  refine hab.induction (P := fun c => (∃ d, ctx.tree.Ancestor a d ∧ d ≠ a ∧ ctx.tree.Ancestor d b ∧
    ctx.ExpiresAt versionBit d) ∨ versionBit ∈ ctx.chainSignals (some c)) (Or.inr hbit) ?_
  rintro p c hp hap hcb (hexpired | hmem)
  · exact Or.inl hexpired
  · by_cases hstaged : versionBit ∈ ctx.stageBelow c
    · right
      rw [chainSignals_some, mem_addSignals]
      exact Or.inl hstaged
    · left
      have hac : ctx.tree.Ancestor a c := hap.trans (ancestor_parent hp)
      refine ⟨c, hac, ?_, hcb, by rwa [hp], hstaged⟩
      rintro rfl
      have := ctx.tree.height_parent hp
      have := hap.height_le
      omega

omit [DecidableEq B] in
theorem expired_between {a c : B} (hac : ctx.tree.Ancestor a c) (hne : a ≠ c) (hfresh : ctx.Fresh c)
    (ha : versionBit ∈ ctx.ownSignals a) (hc : versionBit ∈ ctx.ownSignals c) :
    ∃ d, ctx.tree.Ancestor a d ∧ d ≠ a ∧ ctx.tree.Ancestor d c ∧ ctx.ExpiresAt versionBit d := by
  cases hp : ctx.tree.parent c with
  | none => exact absurd ((ancestor_root_iff hp).mp hac) hne
  | some p =>
    have hap : ctx.tree.Ancestor a p :=
      ((ancestor_iff_of_parent hp).mp hac).resolve_left hne
    have hpc := ancestor_parent hp
    obtain ⟨d, had, hda, hdp, hexpires⟩ | hmem :=
      expired_or_mem hap (mem_chainSignals_of_own ha)
    · exact ⟨d, had, hda, hdp.trans hpc, hexpires⟩
    · refine ⟨c, hac, hne.symm, .refl c, ?_, hfresh.not_staged versionBit hc⟩
      rwa [hp]

/-- Where no block below V20 carries a signal, `GetForBlock` returns the fold over the line of the
block, and a bit is signalled again only after it has expired. -/
theorem getForBlock_of_history (hnone : ctx.NoEarlySignals) {env : Surroundings B}
    {ops : List (MnhfOp B)}
    (hrun : Run (Guarded ctx.Connects (Computes ctx.step)) (start env) ops s) (b : B) :
    (∀ signals, (ctx.getForBlock (some b) s).1 = .ok signals →
      signals = ctx.chainSignals (some b)) ∧
    ((∀ c, ctx.tree.Ancestor c b → ctx.V20Height ≤ ctx.tree.height c → ctx.Replayable s.env c) →
      (ctx.getForBlock (some b) s).1 = .ok (ctx.chainSignals (some b))) ∧
    ∀ signals, (ctx.getForBlock (some b) s).1 = .ok signals → ∀ c, ctx.tree.Ancestor c b →
      (ctx.ownSignals c).Nodup ∧ ∀ a, ctx.tree.Ancestor a c → a ≠ c →
        ∀ versionBit ∈ ctx.ownSignals a, versionBit ∈ ctx.ownSignals c →
          ∃ d, ctx.tree.Ancestor a d ∧ d ≠ a ∧ ctx.tree.Ancestor d c ∧
            ctx.ExpiresAt versionBit d := by
  have hcoherent : ctx.Coherent s := by
    refine hrun.invariant (fun hs hstep => ?_) (start_coherent env)
    obtain ⟨hop, rfl⟩ := hstep
    exact hs.step hnone hop
  have hsound := getForBlock_sound hnone (some b) ⟨hcoherent, rfl⟩
  refine ⟨fun signals hok => (hsound.good hok).signals_eq, fun hreplay => ?_, ?_⟩
  · have hreturns : ∃ signals, (ctx.getForBlock (some b) s).1 = .ok signals :=
      (getForBlockWithin_spec hnone _ _ ⟨hcoherent, rfl⟩).2 le_rfl
        fun c hc => hreplay c (mem_line.mp hc)
    obtain ⟨signals, hok⟩ := hreturns
    rw [← (hsound.good hok).signals_eq]
    exact hok
  · intro signals hok c hcb
    have hfresh := (hsound.good hok).fresh c (BlockTree.mem_line.mpr hcb)
    exact ⟨hfresh.nodup, fun a hac hne versionBit ha hc => expired_between hac hne hfresh ha hc⟩

end MnhfContext

/-! ### A bit that is used again, and a signal before the activation -/

namespace SignalSample

def signal (versionBit : UInt8) : Transaction :=
  ⟨true, TRANSACTION_MNHF_SIGNAL, some ⟨1, versionBit, 100, none⟩, 0⟩

def coinbase : Transaction := ⟨true, 5, none, 0⟩

def context (V20Height : Nat) (vDeployments : List BIP9Deployment)
    (vtx : Fin 4 → List Transaction) : MnhfContext (Fin 4) where
  tree :=
    { parent := ![none, some 0, some 1, some 2]
      height := Fin.val
      height_root := by decide
      height_parent := by decide }
  getBlockHash b := BitVec.ofNat 256 (b + 100)
  getBlockHash_injective a b := by revert a b; decide
  getMedianTimePast := ![0, 50, 150, 250]
  vtx := vtx
  V20Height := V20Height
  MN_RRHeight := V20Height
  vDeployments := vDeployments
  getRequestId _ := 0
  buildSignHash _ _ _ := 0
  verifyInsecure _ _ _ _ := true

/-- Blocks `1` and `3` signal bit 5, for two deployments. -/
def reused : MnhfContext (Fin 4) :=
  context 1 [⟨5, 0, 100, true⟩, ⟨5, 200, 300, true⟩]
    ![[coinbase], [coinbase, signal 5], [coinbase], [coinbase, signal 5]]

def early : MnhfContext (Fin 4) :=
  context 2 [] ![[coinbase], [coinbase, signal 5], [coinbase, signal 5], [coinbase]]

def surroundings : Surroundings (Fin 4) where
  lookupBlockIndex hash := if hash = 100 then some 0 else none
  getQuorum _ := .ok (some none)
  bls_legacy_scheme := false
  readable _ := true

open MnhfContext

/-- The blocks are connected, the cache is emptied and an entry of the database is lost. -/
def history : List (MnhfOp (Fin 4)) :=
  [.processBlock [coinbase, signal 5] 1 false, .processBlock [coinbase] 2 false, .restart,
    .rollback [102], .processBlock [coinbase, signal 5] 3 false, .restart, .rollback [103]]

theorem getForBlock_of_history_reused :
    reused.NoEarlySignals ∧
      (reused.getForBlock (some 3) (history.foldl reused.step (start surroundings))).1 =
        .ok (reused.chainSignals (some 3)) ∧
      (reused.chainSignals (some 3)).entries = [⟨5, 3⟩] ∧
      ∃ d, reused.tree.Ancestor 1 d ∧ d ≠ 1 ∧ reused.tree.Ancestor d 3 ∧
        reused.ExpiresAt 5 d := by
  have hnone : reused.NoEarlySignals := by
    intro b hb
    match b with
    | 0 => rfl
    | 1 | 2 | 3 => exact absurd hb (by decide)
  have hadmits : Admits reused.Connects reused.step (start surroundings) history :=
    ⟨fun _ => rfl, fun _ => rfl, trivial, trivial, fun _ => rfl, trivial, trivial, trivial⟩
  have hnew : ∀ c : Fin 4, (reused.ownSignals c).all (· ∉ reused.stageBelow c) = true := by decide
  have hreplay (c : Fin 4) (hc : 1 ≤ reused.tree.height c) :
      reused.Replayable surroundings c := by
    have hstaged (bit : UInt8) (hbit : bit ∈ reused.ownSignals c) : bit ∉ reused.stageBelow c :=
      of_decide_eq_true (List.all_eq_true.mp (hnew c) bit hbit)
    match c with
    | 0 => exact absurd hc (by decide)
    | 1 | 3 => exact ⟨rfl, ⟨[5], rfl⟩, hstaged⟩
    | 2 => exact ⟨rfl, ⟨[], rfl⟩, hstaged⟩
  obtain ⟨-, hreturns, htwice⟩ :=
    getForBlock_of_history hnone (Run.computes_guarded hadmits) 3
  have hok := hreturns fun c _ => hreplay c
  refine ⟨hnone, hok, by decide, ?_⟩
  exact (htwice _ hok 3 (.refl 3)).2 1 (by decide) (by decide) 5 (by decide) (by decide)

/-- The signal of block `1` is gone after a restart; that of block `2` is a duplicate for one node
only. -/
theorem early_signal_lost :
    ∃ s s', Run (Guarded early.Connects (Computes early.step)) (start surroundings)
        [.processBlock [coinbase, signal 5] 1 false] s ∧
      Run (Guarded early.Connects (Computes early.step)) (start surroundings)
        [.processBlock [coinbase, signal 5] 1 false, .restart] s' ∧
      (early.chainSignals (some 1)).lookup 5 = some 1 ∧
      (early.getForBlock (some 1) s).1.toOption.map (·.lookup 5) = some (some 1) ∧
      (early.getForBlock (some 1) s').1.toOption.map (·.lookup 5) = some none ∧
      (early.processBlock [coinbase, signal 5] 2 false s).1 =
        .error (.invalid "bad-mnhf-duplicate") ∧
      (early.processBlock [coinbase, signal 5] 2 false s').1.toOption.isSome := by
  refine ⟨_, _, Run.computes_guarded ⟨fun _ => rfl, trivial⟩,
    Run.computes_guarded ⟨fun _ => rfl, trivial, trivial⟩, by decide, by decide, by decide, ?_,
    by decide⟩
  rfl

end SignalSample

end Defcon.Evo.Mnhf
