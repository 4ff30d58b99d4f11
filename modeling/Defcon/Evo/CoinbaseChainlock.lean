import Mathlib.Data.Fin.VecNotation
import Defcon.Llmq.Params

/-!
# The ChainLock in the coinbase payload

Since version `CLSIG_AND_BALANCE` a coinbase payload carries the newest ChainLock its miner
knows, as a signature and the distance of the locked block. `CheckCbTxBestChainlock` compares
it with the node's own best ChainLock first, and verifies it only if that does not match.
-/

namespace Defcon.Evo

open Lib (BlockTree)
open Llmq (CBLSSignature)

def MAX_SIZE : Nat := 0x02000000

/-- `CCbTx`, the fields that the ChainLock rule reads. -/
structure CCbTx where
  nVersion : UInt16
  bestCLHeightDiff : Nat
  bestCLSignature : CBLSSignature
  bestCLHeightDiff_le : bestCLHeightDiff ≤ MAX_SIZE

def CCbTx.CLSIG_AND_BALANCE : UInt16 := 3

def TRANSACTION_COINBASE : UInt16 := 5

/-- The first transaction of a block; `payload` is what `GetTxPayload<CCbTx>` gives. -/
structure CoinbaseTx where
  isCoinBase : Bool
  nType : UInt16
  payload : Option CCbTx

inductive VerifyRecSigStatus where
  | noQuorum
  | invalid
  | valid
  deriving DecidableEq

structure CChainLockSig where
  nHeight : Int
  blockHash : Uint256
  sig : CBLSSignature
  deriving DecidableEq

def CChainLockSig.null : CChainLockSig := ⟨-1, 0, none⟩

def CChainLockSig.isNull (clsig : CChainLockSig) : Bool :=
  clsig.nHeight = -1 ∧ clsig.blockHash = 0

structure ChainlockContext (B : Type) where
  tree : BlockTree B
  getBlockHash : B → Uint256
  dip0003ActiveAt : B → Bool
  /-- `ReadBlockFromDisk`: the first transaction, if the block can be read and has one. -/
  readBlockFromDisk : B → Option (Option CoinbaseTx)
  /-- `VerifyRecoveredSig` for the request id of the height. -/
  verifyRecoveredSig : (nHeight : Int) → (msgHash : Uint256) → CBLSSignature → VerifyRecSigStatus
  isSome_of_valid : ∀ {nHeight msgHash sig},
    verifyRecoveredSig nHeight msgHash sig = .valid → sig.isSome

/-- The verdict on a block: `state.Invalid` and `state.Error` both make the answer `false`. -/
inductive Verdict where
  | valid
  | invalid (reason : String)
  | error (reason : String)
  deriving DecidableEq

namespace ChainlockContext

variable {B : Type} (ctx : ChainlockContext B)

def verifyChainLock (clsig : CChainLockSig) : VerifyRecSigStatus :=
  ctx.verifyRecoveredSig clsig.nHeight clsig.blockHash clsig.sig

/-- The best ChainLock of a handler: none yet, or one that was verified before it was
accepted. -/
structure BestChainLock where
  clsig : CChainLockSig
  null_or_valid : clsig = .null ∨ 0 ≤ clsig.nHeight ∧ ctx.verifyChainLock clsig = .valid

/-- `GetNonNullCoinbaseChainlock`; an error is a `CoinbaseChainlockReadError`. -/
def getNonNullCoinbaseChainlock :
    Option B → Except String (Option (BitVec 768 × Nat))
  | none => .ok none
  | some pindex =>
    if !ctx.dip0003ActiveAt pindex then .ok none
    else
      match ctx.readBlockFromDisk pindex with
      | none => .error "Failed to read coinbase ChainLock block"
      | some none => .error "Invalid historical coinbase ChainLock transaction"
      | some (some tx) =>
        if !tx.isCoinBase ∨ tx.nType ≠ TRANSACTION_COINBASE then
          .error "Invalid historical coinbase ChainLock transaction"
        else
          match tx.payload with
          | none => .error "Invalid historical coinbase ChainLock payload"
          | some cbTx =>
            if cbTx.nVersion < CCbTx.CLSIG_AND_BALANCE then .ok none
            else .ok (cbTx.bestCLSignature.map fun sig => (sig, cbTx.bestCLHeightDiff))

variable (best : CChainLockSig) (pindex : B)

def checkAgainstPrev (cbTx : CCbTx) (prev : Option (BitVec 768 × Nat)) : Verdict :=
  let nHeight := ctx.tree.height pindex
  let diff := cbTx.bestCLHeightDiff
  match cbTx.bestCLSignature with
  | none =>
    if prev.isSome then .invalid "bad-cbtx-null-clsig"
    else if diff ≠ 0 then .invalid "bad-cbtx-cldiff"
    else .valid
  | some sig =>
    if prev.any fun p => decide (p.2 + 1 < diff) then .invalid "bad-cbtx-older-clsig"
    else if nHeight ≤ diff then .invalid "bad-cbtx-cldiff"
    else
      let curBlockCoinbaseCLHeight := nHeight - diff - 1
      if best.nHeight = curBlockCoinbaseCLHeight ∧ best.sig = some sig then .valid
      else
        match ctx.tree.ancestorAt pindex curBlockCoinbaseCLHeight with
        | none => .invalid "bad-cbtx-cldiff-ancestor"
        | some pAncestor =>
          if ctx.verifyChainLock
              ⟨curBlockCoinbaseCLHeight, ctx.getBlockHash pAncestor, some sig⟩ ≠ .valid then
            .invalid "bad-cbtx-invalid-clsig"
          else .valid

def checkCbTxBestChainlock (tx : CoinbaseTx) : Verdict :=
  if tx.nType ≠ TRANSACTION_COINBASE then .valid
  else
    match tx.payload with
    | none => .invalid "bad-cbtx-payload"
    | some cbTx =>
      if cbTx.nVersion < CCbTx.CLSIG_AND_BALANCE then .valid
      else if best.nHeight = (ctx.tree.height pindex : Int) - 1 ∧ cbTx.bestCLHeightDiff = 0 ∧
          cbTx.bestCLSignature = best.sig then .valid
      else
        match ctx.getNonNullCoinbaseChainlock (ctx.tree.parent pindex) with
        | .error e => .error e
        | .ok prev => ctx.checkAgainstPrev best pindex cbTx prev

/-! ### The rule -/

/-- The verdict of the rule as a statement about the chain alone. -/
structure Conforms (pindex : B) (cbTx : CCbTx) (prev : Option (BitVec 768 × Nat))
    (verdict : Verdict) : Prop where
  nonNull : ∀ sig, cbTx.bestCLSignature = some sig →
    (verdict = .valid ↔ ∃ h a, h + cbTx.bestCLHeightDiff + 1 = ctx.tree.height pindex ∧
      ctx.tree.ancestorAt pindex h = some a ∧
      ctx.verifyChainLock ⟨h, ctx.getBlockHash a, some sig⟩ = .valid ∧
      ∀ p ∈ prev, (ctx.tree.height pindex : Int) - 1 - p.2 - 1 ≤ h)
  null : cbTx.bestCLSignature = none →
    (verdict = .valid ↔ cbTx.bestCLHeightDiff = 0 ∧ prev = none)

/-- The payload carries the node's best ChainLock, not older than that of the previous block. -/
def TakesOver (cbTx : CCbTx) (prev : Option (BitVec 768 × Nat)) : Prop :=
  cbTx.bestCLSignature.isSome ∧ best.sig = cbTx.bestCLSignature ∧
    best.nHeight + cbTx.bestCLHeightDiff + 1 = ctx.tree.height pindex ∧
    ∀ p ∈ prev, cbTx.bestCLHeightDiff ≤ p.2 + 1

def LocksOwnAncestor : Prop :=
  ∃ a, ctx.tree.ancestorAt pindex best.nHeight.toNat = some a ∧
    ctx.getBlockHash a = best.blockHash

def SignatureBinds : Prop :=
  ∀ ⦃nHeight msgHash msgHash' sig⦄, ctx.verifyRecoveredSig nHeight msgHash sig = .valid →
    ctx.verifyRecoveredSig nHeight msgHash' sig = .valid → msgHash = msgHash'

variable {ctx} {pindex : B} {cbTx : CCbTx} {prev : Option (BitVec 768 × Nat)}

variable (st : ctx.BestChainLock)

theorem BestChainLock.valid (hsome : st.clsig.sig.isSome) :
    0 ≤ st.clsig.nHeight ∧ ctx.verifyChainLock st.clsig = .valid := by
  rcases st.null_or_valid with hnull | hvalid
  · rw [hnull] at hsome
    cases hsome
  · exact hvalid

theorem BestChainLock.eq_null (hnone : st.clsig.sig = none) : st.clsig = .null := by
  rcases st.null_or_valid with hnull | ⟨-, hvalid⟩
  · exact hnull
  · have hsome := ctx.isSome_of_valid hvalid
    rw [hnone] at hsome
    cases hsome

theorem checkCbTxBestChainlock_eq {tx : CoinbaseTx} (htype : tx.nType = TRANSACTION_COINBASE)
    (hpayload : tx.payload = some cbTx) (hversion : CCbTx.CLSIG_AND_BALANCE ≤ cbTx.nVersion)
    (hprev : ctx.getNonNullCoinbaseChainlock (ctx.tree.parent pindex) = .ok prev) :
    ctx.checkCbTxBestChainlock st.clsig pindex tx =
      ctx.checkAgainstPrev st.clsig pindex cbTx prev := by
  unfold checkCbTxBestChainlock
  rw [if_neg (not_not.mpr htype), hpayload]
  simp only [hprev]
  rw [if_neg (UInt16.not_lt.mpr hversion)]
  split
  · rename_i hmatch
    obtain ⟨hheight, hdiff, hsig⟩ := hmatch
    unfold checkAgainstPrev
    cases hcase : cbTx.bestCLSignature with
    | none =>
      -- only the null ChainLock has no signature, and its height is one below genesis
      have hnull := st.eq_null (hsig.symm.trans hcase)
      rw [hnull] at hheight
      have hroot : ctx.tree.parent pindex = none := by
        by_contra hsome
        obtain ⟨q, hq⟩ := Option.ne_none_iff_exists'.mp hsome
        have hparent := ctx.tree.height_parent hq
        simp only [CChainLockSig.null] at hheight
        omega
      rw [hroot] at hprev
      obtain rfl : none = prev := Except.ok.inj hprev
      simp [hdiff]
    | some sig =>
      have hnonneg := (st.valid (by rw [← hsig, hcase]; rfl)).1
      have hnotolder : (prev.any fun p => decide (p.2 + 1 < cbTx.bestCLHeightDiff)) = false := by
        rw [hdiff]
        cases prev <;> simp
      have hbest : st.clsig.nHeight =
          ((ctx.tree.height pindex - cbTx.bestCLHeightDiff - 1 : Nat) : Int) ∧
            st.clsig.sig = some sig := ⟨by omega, by rw [← hsig, hcase]⟩
      simp only [hnotolder]
      rw [if_neg Bool.false_ne_true, if_neg (by omega), if_pos hbest]
  · rfl

theorem notOlder_iff :
    ¬(prev.any fun p => decide (p.2 + 1 < cbTx.bestCLHeightDiff)) = true ↔
      ∀ p ∈ prev, cbTx.bestCLHeightDiff ≤ p.2 + 1 := by
  cases prev <;> simp

theorem checkAgainstPrev_eq_null
    (hown : ctx.TakesOver st.clsig pindex cbTx prev → ctx.LocksOwnAncestor st.clsig pindex) :
    ctx.checkAgainstPrev st.clsig pindex cbTx prev =
      ctx.checkAgainstPrev .null pindex cbTx prev := by
  unfold checkAgainstPrev
  cases hcase : cbTx.bestCLSignature with
  | none => rfl
  | some sig =>
    simp only
    split
    · rfl
    rename_i hnotolder
    split
    · rfl
    rename_i hrange
    rw [if_neg (show ¬(CChainLockSig.null.nHeight = _ ∧ CChainLockSig.null.sig = some sig) from
      fun h => nomatch h.2)]
    split
    · rename_i hmatch
      have htakes : ctx.TakesOver st.clsig pindex cbTx prev := by
        refine ⟨by rw [hcase]; rfl, by rw [hmatch.2, hcase], by omega, notOlder_iff.mp hnotolder⟩
      obtain ⟨a, ha, hhash⟩ := hown htakes
      have hnat : st.clsig.nHeight.toNat =
          ctx.tree.height pindex - cbTx.bestCLHeightDiff - 1 := by omega
      rw [hnat] at ha
      have hvalid := (st.valid (by rw [hmatch.2]; rfl)).2
      have hlock : st.clsig = ⟨((ctx.tree.height pindex - cbTx.bestCLHeightDiff - 1 : Nat) : Int),
          ctx.getBlockHash a, some sig⟩ := by
        rw [hhash, ← hmatch.1, ← hmatch.2]
      rw [hlock] at hvalid
      rw [ha]
      simp [hvalid]
    · rfl

theorem conforms_null : ctx.Conforms pindex cbTx prev
    (ctx.checkAgainstPrev .null pindex cbTx prev) := by
  unfold checkAgainstPrev
  cases hcase : cbTx.bestCLSignature with
  | none =>
    refine ⟨?_, ?_⟩
    · intro sig hsig
      rw [hcase] at hsig
      cases hsig
    · intro _
      cases prev with
      | none => by_cases hdiff : cbTx.bestCLHeightDiff = 0 <;> simp [hdiff]
      | some p => simp
  | some sig =>
    refine ⟨?_, fun hnone => nomatch hcase.symm.trans hnone⟩
    intro sig' hsig
    obtain rfl : sig = sig' := Option.some.inj (hcase.symm.trans hsig)
    simp only
    split
    · rename_i holder
      refine iff_of_false (by simp) ?_
      rintro ⟨h, a, hh, -, -, hcont⟩
      refine notOlder_iff.mpr ?_ holder
      intro p hp
      have := hcont p hp
      omega
    rename_i hnotolder
    split
    · refine iff_of_false (by simp) ?_
      rintro ⟨h, a, hh, -⟩
      omega
    rename_i hrange
    rw [if_neg (show ¬(CChainLockSig.null.nHeight = _ ∧ CChainLockSig.null.sig = some sig) from
      fun h => nomatch h.2)]
    obtain ⟨a, ha⟩ := BlockTree.exists_ancestorAt (t := ctx.tree) (b := pindex)
      (h := ctx.tree.height pindex - cbTx.bestCLHeightDiff - 1) (by omega)
    rw [ha]
    simp only [ne_eq, ite_not]
    split
    · rename_i hvalid
      refine iff_of_true rfl ⟨_, a, by omega, ha, hvalid, ?_⟩
      intro p hp
      have := notOlder_iff.mp hnotolder p hp
      omega
    · rename_i hinvalid
      refine iff_of_false (by simp) ?_
      rintro ⟨h, a', hh, ha', hvalid, -⟩
      obtain rfl : h = ctx.tree.height pindex - cbTx.bestCLHeightDiff - 1 := by omega
      obtain rfl := Option.some.inj (ha.symm.trans ha')
      exact hinvalid hvalid

theorem checkAgainstPrev_of_takesOver {best : CChainLockSig}
    (htakes : ctx.TakesOver best pindex cbTx prev) (hnonneg : 0 ≤ best.nHeight) :
    ctx.checkAgainstPrev best pindex cbTx prev = .valid := by
  obtain ⟨hsome, hsig, hheight, hnotolder⟩ := htakes
  obtain ⟨sig, hcase⟩ := Option.isSome_iff_exists.mp hsome
  unfold checkAgainstPrev
  rw [hcase]
  simp only
  rw [if_neg (notOlder_iff.mpr hnotolder), if_neg (by omega), if_pos ⟨by omega, hsig.trans hcase⟩]

/-- A verdict that conforms to the rule was not taken over from a ChainLock of another chain. -/
theorem locksOwnAncestor_of_conforms (hbinds : ctx.SignatureBinds) (st : ctx.BestChainLock)
    (hconf : ctx.Conforms pindex cbTx prev (ctx.checkAgainstPrev st.clsig pindex cbTx prev))
    (htakes : ctx.TakesOver st.clsig pindex cbTx prev) :
    ctx.LocksOwnAncestor st.clsig pindex := by
  obtain ⟨sig, hcase⟩ := Option.isSome_iff_exists.mp htakes.1
  have hsig : st.clsig.sig = some sig := htakes.2.1.trans hcase
  obtain ⟨hnonneg, hbest⟩ := st.valid (by rw [hsig]; rfl)
  have hvalid := checkAgainstPrev_of_takesOver htakes hnonneg
  obtain ⟨h, a, hh, ha, hlock, -⟩ := (hconf.nonNull sig hcase).mp hvalid
  have hheight : (h : Int) = st.clsig.nHeight := by
    have := htakes.2.2.1
    omega
  refine ⟨a, ?_, ?_⟩
  · rw [← hheight, Int.toNat_natCast]
    exact ha
  · unfold verifyChainLock at hlock hbest
    simp only [hheight] at hlock
    rw [hsig] at hbest
    exact hbinds hlock hbest

/-- **When the coinbase ChainLock rule depends on the chain only**: if a best ChainLock is taken
over only when it locks an ancestor of the block. -/
theorem checkCbTxBestChainlock_conforms_iff (st st' : ctx.BestChainLock) {tx : CoinbaseTx}
    (htype : tx.nType = TRANSACTION_COINBASE) (hpayload : tx.payload = some cbTx)
    (hversion : CCbTx.CLSIG_AND_BALANCE ≤ cbTx.nVersion)
    (hprev : ctx.getNonNullCoinbaseChainlock (ctx.tree.parent pindex) = .ok prev) :
    ((∀ best ∈ [st, st'], ctx.TakesOver best.clsig pindex cbTx prev →
        ctx.LocksOwnAncestor best.clsig pindex) →
      ctx.checkCbTxBestChainlock st.clsig pindex tx =
          ctx.checkCbTxBestChainlock st'.clsig pindex tx ∧
        ∀ best ∈ [st, st'], ctx.Conforms pindex cbTx prev
          (ctx.checkCbTxBestChainlock best.clsig pindex tx)) ∧
    (ctx.SignatureBinds →
      (ctx.checkCbTxBestChainlock st.clsig pindex tx =
          ctx.checkCbTxBestChainlock st'.clsig pindex tx ∧
        ∀ best ∈ [st, st'], ctx.Conforms pindex cbTx prev
          (ctx.checkCbTxBestChainlock best.clsig pindex tx)) →
      ∀ best ∈ [st, st'], ctx.TakesOver best.clsig pindex cbTx prev →
        ctx.LocksOwnAncestor best.clsig pindex) := by
  have hcheck (best : ctx.BestChainLock) :
      ctx.checkCbTxBestChainlock best.clsig pindex tx =
        ctx.checkAgainstPrev best.clsig pindex cbTx prev :=
    checkCbTxBestChainlock_eq best htype hpayload hversion hprev
  simp only [hcheck]
  constructor
  · intro hown
    have hnull : ∀ best ∈ [st, st'], ctx.checkAgainstPrev best.clsig pindex cbTx prev =
        ctx.checkAgainstPrev .null pindex cbTx prev :=
      fun best hbest => checkAgainstPrev_eq_null best (hown best hbest)
    refine ⟨?_, ?_⟩
    · rw [hnull st (by simp), hnull st' (by simp)]
    · intro best hbest
      rw [hnull best hbest]
      exact conforms_null
  · rintro hbinds ⟨-, hconf⟩ best hbest htakes
    exact locksOwnAncestor_of_conforms hbinds best (hconf best hbest) htakes

/-! ### The producer -/

def castUInt32 (n : Int) : Nat :=
  (n % 2 ^ 32).toNat

def calcCbTxBestChainlock (ctx : ChainlockContext B) (best : CChainLockSig) (pindexPrev : B) :
    Except String (Bool × Nat × CBLSSignature) :=
  let nHeight : Int := ctx.tree.height pindexPrev
  if best.nHeight = nHeight then .ok (true, 0, best.sig)
  else
    match ctx.getNonNullCoinbaseChainlock (some pindexPrev) with
    | .error e => .error e
    | .ok (some (sig, diff)) =>
      if best.isNull then .ok (true, diff + 1, some sig)
      else
        let prevCLHeight := nHeight - diff - 1
        if best.nHeight < prevCLHeight then .ok (true, diff + 1, some sig)
        else .ok (true, castUInt32 (nHeight - best.nHeight), best.sig)
    | .ok none =>
      if best.isNull then .ok (false, 0, none)
      else .ok (true, castUInt32 (nHeight - best.nHeight), best.sig)

/-- The coinbase of the producer's block. Its payload is read back with a bounded distance. -/
def producedCoinbase (nVersion : UInt16) (diff : Nat) (sig : CBLSSignature) : CoinbaseTx where
  isCoinBase := true
  nType := TRANSACTION_COINBASE
  payload := if h : diff ≤ MAX_SIZE then some ⟨nVersion, diff, sig, h⟩ else none

theorem payload_producedCoinbase {diff : Nat} (hdiff : diff ≤ MAX_SIZE) (nVersion : UInt16)
    (sig : CBLSSignature) :
    (producedCoinbase nVersion diff sig).payload = some ⟨nVersion, diff, sig, hdiff⟩ :=
  dif_pos hdiff

def Accepted (ctx : ChainlockContext B) (pindex : B) : Prop :=
  ∀ tx, ctx.readBlockFromDisk pindex = some (some tx) →
    ctx.checkCbTxBestChainlock .null pindex tx = .valid

/-- The best ChainLock, unless it is null or older than that of the tip's coinbase, is of the tip's
chain. -/
def ProducerReady (ctx : ChainlockContext B) (best : CChainLockSig) (pindexPrev : B)
    (prev : Option (BitVec 768 × Nat)) : Prop :=
  if best.isNull ∨ ∃ p ∈ prev, best.nHeight < (ctx.tree.height pindexPrev : Int) - p.2 - 1 then
    ∀ p ∈ prev, p.2 + 1 ≤ MAX_SIZE
  else
    ctx.LocksOwnAncestor best pindexPrev ∧ ctx.tree.height pindexPrev - best.nHeight ≤ MAX_SIZE

variable {pindexPrev : B}

theorem BestChainLock.isNull_iff : st.clsig.isNull = true ↔ st.clsig = .null := by
  constructor
  · intro hnull
    rcases st.null_or_valid with heq | ⟨hnonneg, -⟩
    · exact heq
    · have hheight : st.clsig.nHeight = -1 := (of_decide_eq_true hnull).1
      omega
  · intro heq
    rw [heq]
    rfl

theorem calcCbTxBestChainlock_own {best : CChainLockSig}
    (hprev : ctx.getNonNullCoinbaseChainlock (some pindexPrev) = .ok prev)
    (hown : ¬(best.isNull ∨
      ∃ p ∈ prev, best.nHeight < (ctx.tree.height pindexPrev : Int) - p.2 - 1)) :
    ctx.calcCbTxBestChainlock best pindexPrev =
      .ok (true, castUInt32 (ctx.tree.height pindexPrev - best.nHeight), best.sig) := by
  obtain ⟨hnull, hnewer⟩ := not_or.mp hown
  unfold calcCbTxBestChainlock
  simp only [hprev]
  by_cases hheight : best.nHeight = ctx.tree.height pindexPrev
  · rw [if_pos hheight, hheight, sub_self]
    rfl
  · rw [if_neg hheight]
    cases prev with
    | none => exact if_neg hnull
    | some p =>
      have hnewer : ¬best.nHeight < (ctx.tree.height pindexPrev : Int) - p.2 - 1 :=
        fun hlt => hnewer ⟨p, rfl, hlt⟩
      simp only
      rw [if_neg hnull, if_neg hnewer]

theorem calcCbTxBestChainlock_prev {p : BitVec 768 × Nat}
    (hprev : ctx.getNonNullCoinbaseChainlock (some pindexPrev) = .ok (some p))
    (holder : st.clsig.isNull ∨ st.clsig.nHeight < (ctx.tree.height pindexPrev : Int) - p.2 - 1) :
    ctx.calcCbTxBestChainlock st.clsig pindexPrev = .ok (true, p.2 + 1, some p.1) := by
  have hbelow : st.clsig.nHeight ≠ ctx.tree.height pindexPrev := by
    rcases holder with hnull | hlt
    · have hheight : st.clsig.nHeight = -1 := (of_decide_eq_true hnull).1
      omega
    · omega
  unfold calcCbTxBestChainlock
  simp only [hprev]
  rw [if_neg hbelow]
  split
  · rfl
  · rename_i hnull
    rw [if_pos (holder.resolve_left hnull)]

theorem calcCbTxBestChainlock_null
    (hprev : ctx.getNonNullCoinbaseChainlock (some pindexPrev) = .ok none)
    (hnull : st.clsig.isNull = true) :
    ctx.calcCbTxBestChainlock st.clsig pindexPrev = .ok (false, 0, none) := by
  have hheight : st.clsig.nHeight = -1 := (of_decide_eq_true hnull).1
  unfold calcCbTxBestChainlock
  simp only [hprev]
  rw [if_neg (by omega), if_pos hnull]

theorem Accepted.locked (haccepted : ctx.Accepted pindexPrev) {p : BitVec 768 × Nat}
    (hprev : ctx.getNonNullCoinbaseChainlock (some pindexPrev) = .ok (some p)) :
    ∃ h a, h + p.2 + 1 = ctx.tree.height pindexPrev ∧
      ctx.tree.ancestorAt pindexPrev h = some a ∧
      ctx.verifyChainLock ⟨h, ctx.getBlockHash a, some p.1⟩ = .valid := by
  simp only [getNonNullCoinbaseChainlock] at hprev
  split at hprev
  · cases hprev
  split at hprev
  · cases hprev
  · cases hprev
  rename_i tx hread
  split at hprev
  · cases hprev
  rename_i hcoinbase
  have htype : tx.nType = TRANSACTION_COINBASE := by
    by_contra htype
    exact hcoinbase (Or.inr htype)
  split at hprev
  · cases hprev
  rename_i cbTx hpayload
  split at hprev
  · cases hprev
  rename_i hversion
  obtain ⟨sig, hsig, rfl⟩ := Option.map_eq_some_iff.mp (Except.ok.inj hprev)
  have hvalid := haccepted tx hread
  -- the check of the accepted block has read its own predecessor
  cases hbefore : ctx.getNonNullCoinbaseChainlock (ctx.tree.parent pindexPrev) with
  | error e =>
    unfold checkCbTxBestChainlock at hvalid
    rw [if_neg (not_not.mpr htype), hpayload] at hvalid
    simp only [hbefore] at hvalid
    rw [if_neg hversion, if_neg (by rw [hsig]; exact fun h => nomatch h.2.2)] at hvalid
    cases hvalid
  | ok before =>
    rw [checkCbTxBestChainlock_eq ⟨.null, Or.inl rfl⟩ htype hpayload
      (UInt16.not_lt.mp hversion) hbefore] at hvalid
    obtain ⟨h, a, hh, ha, hlock, -⟩ := (conforms_null.nonNull sig hsig).mp hvalid
    exact ⟨h, a, hh, ha, hlock⟩

theorem accepted_of_rule {tx : CoinbaseTx} (htype : tx.nType = TRANSACTION_COINBASE)
    (hpayload : tx.payload = some cbTx)
    (hprev : ctx.getNonNullCoinbaseChainlock (ctx.tree.parent pindex) = .ok prev)
    (hown : ctx.TakesOver st.clsig pindex cbTx prev → ctx.LocksOwnAncestor st.clsig pindex)
    (hrule : ctx.checkAgainstPrev .null pindex cbTx prev = .valid) :
    ∀ best ∈ [st.clsig, .null], ctx.checkCbTxBestChainlock best pindex tx = .valid := by
  intro best hbest
  by_cases hversion : cbTx.nVersion < CCbTx.CLSIG_AND_BALANCE
  · unfold checkCbTxBestChainlock
    rw [if_neg (not_not.mpr htype), hpayload]
    simp only
    rw [if_pos hversion]
  have hversion := UInt16.not_lt.mp hversion
  rcases List.mem_pair.mp hbest with rfl | rfl
  · rw [checkCbTxBestChainlock_eq st htype hpayload hversion hprev,
      checkAgainstPrev_eq_null st hown]
    exact hrule
  · rw [checkCbTxBestChainlock_eq ⟨.null, Or.inl rfl⟩ htype hpayload hversion hprev]
    exact hrule

/-- Blocks `1` and `2` are children of the genesis block, block `3` is a child of `1`. Signature
`7` locks block `2` and signature `8` locks block `1`. -/
def forkChain : ChainlockContext (Fin 4) where
  tree :=
    { parent := ![none, some 0, some 0, some 1]
      height := ![0, 1, 1, 2]
      height_root := by decide
      height_parent := by decide }
  getBlockHash b := BitVec.ofNat 256 (100 + b)
  dip0003ActiveAt _ := false
  readBlockFromDisk _ := none
  verifyRecoveredSig nHeight msgHash sig :=
    if nHeight = 1 ∧ (msgHash = 102 ∧ sig = some 7 ∨ msgHash = 101 ∧ sig = some 8) then .valid
    else .invalid
  isSome_of_valid := by
    intro nHeight msgHash sig hvalid
    split at hvalid
    · rename_i hlock
      rcases hlock with ⟨-, ⟨-, hsig⟩ | ⟨-, hsig⟩⟩ <;> simp [hsig]
    · cases hvalid

def payload (sig : BitVec 768) : CCbTx := ⟨3, 0, some sig, by decide⟩

def coinbase (sig : BitVec 768) : CoinbaseTx := ⟨true, 5, some (payload sig)⟩

def noLock : forkChain.BestChainLock := ⟨.null, Or.inl rfl⟩

def lockOfParent : forkChain.BestChainLock := ⟨⟨1, 101, some 8⟩, Or.inr (by decide +kernel)⟩

def lockOfSibling : forkChain.BestChainLock := ⟨⟨1, 102, some 7⟩, Or.inr (by decide +kernel)⟩

theorem signatureBinds_forkChain : forkChain.SignatureBinds := by
  intro nHeight msgHash msgHash' sig hvalid hvalid'
  have hlock {m : Uint256} (h : forkChain.verifyRecoveredSig nHeight m sig = .valid) :
      m = 102 ∧ sig = some 7 ∨ m = 101 ∧ sig = some 8 := by
    unfold forkChain at h
    simp only at h
    split at h
    · rename_i hlock
      exact hlock.2
    · cases h
  rcases hlock hvalid with ⟨rfl, rfl⟩ | ⟨rfl, rfl⟩
  · rcases hlock hvalid' with ⟨rfl, -⟩ | ⟨-, hsig⟩
    · rfl
    · exact absurd hsig (by decide +kernel)
  · rcases hlock hvalid' with ⟨-, hsig⟩ | ⟨rfl, -⟩
    · exact absurd hsig (by decide +kernel)
    · rfl

theorem checkCbTxBestChainlock_conforms_lockOfParent :
    forkChain.checkCbTxBestChainlock noLock.clsig 3 (coinbase 8) = .valid ∧
      forkChain.checkCbTxBestChainlock noLock.clsig 3 (coinbase 8) =
        forkChain.checkCbTxBestChainlock lockOfParent.clsig 3 (coinbase 8) ∧
      forkChain.Conforms 3 (payload 8) none
        (forkChain.checkCbTxBestChainlock lockOfParent.clsig 3 (coinbase 8)) := by
  have hown : ∀ best ∈ [noLock, lockOfParent], forkChain.TakesOver best.clsig 3 (payload 8) none →
      forkChain.LocksOwnAncestor best.clsig 3 := by
    intro best hbest htakes
    rcases List.mem_pair.mp hbest with rfl | rfl
    · exact absurd htakes.2.1 (by decide +kernel)
    · exact ⟨1, by decide, by decide⟩
  have htype : (coinbase 8).nType = TRANSACTION_COINBASE := rfl
  obtain ⟨hsame, hconf⟩ := (checkCbTxBestChainlock_conforms_iff noLock lockOfParent htype rfl
    (by decide) rfl).1 hown
  exact ⟨by decide +kernel, hsame, hconf lockOfParent (by simp)⟩

/-- The node whose best ChainLock is of the sibling accepts the block; a node without one refuses
it. -/
theorem lockOfSibling_taken_over :
    forkChain.SignatureBinds ∧
      forkChain.checkCbTxBestChainlock lockOfSibling.clsig 3 (coinbase 7) = .valid ∧
      forkChain.checkCbTxBestChainlock noLock.clsig 3 (coinbase 7) =
        .invalid "bad-cbtx-invalid-clsig" ∧
      ¬forkChain.Conforms 3 (payload 7) none
        (forkChain.checkCbTxBestChainlock lockOfSibling.clsig 3 (coinbase 7)) := by
  refine ⟨signatureBinds_forkChain, by decide +kernel, by decide +kernel, ?_⟩
  intro hconf
  obtain ⟨h, a, hh, ha, hvalid, -⟩ := (hconf.nonNull 7 rfl).mp (by decide +kernel)
  obtain rfl : h = 1 := by
    have : h + 0 + 1 = 2 := hh
    omega
  obtain rfl : 1 = a := Option.some.inj ha
  exact absurd hvalid (by decide +kernel)

end ChainlockContext

end Defcon.Evo
