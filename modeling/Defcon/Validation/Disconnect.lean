import Defcon.Compressor
import Defcon.Validation.MintBound

/-!
# Disconnecting a block

`ConnectBlock` keeps the coins that a block spends as undo data, written to disk in a format of its
own. `DisconnectBlock` reads them back, removes the outputs of the block's transactions in reverse
order and puts the spent coins back. On the set of unspent outputs this inverts connecting the
block.
-/

namespace Defcon.Validation

open List AList CoinsView
open AList (Map)
open Lib (Bytes Codec)

/-! ### Undo data -/

abbrev CTxUndo := List Coin

abbrev CBlockUndo := List CTxUndo

def undoCode (coin : Coin) : Nat :=
  (coin.nHeight * 4 + (if coin.fCoinBase then 1 else 0) + (if coin.fCoinStake then 2 else 0)) % 2 ^ 32

structure Storable (coin : Coin) : Prop where
  height_pos : 0 < coin.nHeight
  height_lt : coin.nHeight < 2 ^ 30
  value : MoneyRange coin.out.nValue
  spendable : CScript.isUnspendable coin.out.scriptPubKey = false

variable {coin : Coin} {after : CoinsView} {txundo : CTxUndo} {vin : List COutPoint}

theorem undoCode_eq (hheight : coin.nHeight < 2 ^ 30) :
    undoCode coin / 4 = coin.nHeight ∧ (undoCode coin % 2 = 1 ↔ coin.fCoinBase = true) ∧
      (undoCode coin / 2 % 2 = 1 ↔ coin.fCoinStake = true) := by
  unfold undoCode
  cases coin.fCoinBase <;> cases coin.fCoinStake <;> simp <;> omega

variable (keys : PubKeys)

/-- `TxInUndoFormatter`. A byte for the version of older formats follows the code when the height is
not zero. -/
def txInUndoFormat : Codec Coin :=
  ((Codec.varInt (2 ^ 32 - 1)).dependent fun nCode =>
      ((Codec.varInt (2 ^ 32 - 1)).flagged (0 < nCode / 4)).pair (txOutFormat keys)).via
    (fun coin => ⟨undoCode coin, if 0 < coin.nHeight then some 0 else none, coin.out⟩)
    (fun p => ⟨p.2.2, p.1 / 4, p.1 % 2 = 1, p.1 / 2 % 2 = 1⟩)
    (fun coin => coin.nHeight < 2 ^ 30) <| by
      intro coin hheight
      obtain ⟨hcode, hcoinbase, hcoinstake⟩ := undoCode_eq hheight
      simp only [hcode, hcoinbase, hcoinstake, Bool.decide_eq_true]

theorem fits_txInUndoFormat {keys : PubKeys} (hheight : coin.nHeight < 2 ^ 30)
    (hvalue : MoneyRange coin.out.nValue)
    (hscript : coin.out.scriptPubKey.length ≤ MAX_SCRIPT_SIZE) :
    (txInUndoFormat keys).Fits coin := by
  refine ⟨hheight, Nat.le_pred_of_lt (Nat.mod_lt _ (by decide)), ?_, fits_txOutFormat hvalue hscript⟩
  dsimp only
  rw [(undoCode_eq hheight).1]
  by_cases hpos : 0 < coin.nHeight
  · rw [if_pos hpos, decide_eq_true hpos]
    exact ⟨0, rfl, Nat.zero_le _⟩
  · rw [if_neg hpos, decide_eq_false hpos]
    exact rfl

theorem Storable.length_le (hstorable : Storable coin) :
    coin.out.scriptPubKey.length ≤ MAX_SCRIPT_SIZE :=
  Nat.le_of_not_lt fun hlong => nomatch hstorable.spendable.symm.trans (decide_eq_true (Or.inr hlong))

/-- `Coin::Serialize`. -/
def coinFormat : Codec Coin :=
  ((Codec.varInt (2 ^ 32 - 1)).pair ((txOutFormat keys).pair (Codec.varInt (2 ^ 32 - 1)))).via
    (fun coin => ((coin.nHeight * 2 + if coin.fCoinBase then 1 else 0) % 2 ^ 32, coin.out,
      if coin.fCoinStake then 1 else 0))
    (fun p => ⟨p.2.1, p.1 / 2, p.1 % 2 = 1, p.2.2 % 2 = 1⟩)
    (fun coin => coin.nHeight < 2 ^ 31) <| by
      rintro ⟨out, nHeight, fCoinBase, fCoinStake⟩ hheight
      cases fCoinBase <;> cases fCoinStake <;> simp at * <;> omega

def txUndoFormat : Codec CTxUndo :=
  Codec.compactSize.counted (txInUndoFormat keys)

def blockUndoFormat : Codec CBlockUndo :=
  Codec.compactSize.counted (txUndoFormat keys)

/-! ### Connecting -/

def spendCoins : CoinsView → List COutPoint → Except String (CoinsView × CTxUndo)
  | view, [] => .ok (view, [])
  | view, prevout :: vin =>
    match view.lookup prevout with
    | none => .error "UpdateCoins: assertion is_spent"
    | some coin =>
      match spendCoins (view.erase prevout) vin with
      | .error e => .error e
      | .ok (view, txundo) => .ok (view, coin :: txundo)

def updateCoinsUndo (view : CoinsView) (tx : CTransaction) (nHeight : Nat) :
    Except String (CoinsView × CTxUndo) :=
  match if tx.isCoinBase then .ok (view, []) else spendCoins view tx.vin with
  | .error e => .error e
  | .ok (view, txundo) =>
    match CoinsView.addCoinsFrom tx nHeight 0 view tx.vout with
    | .error e => .error e
    | .ok view => .ok (view, txundo)

def updateCoinsAll (nHeight : Nat) : CoinsView → List CTransaction →
    Except String (CoinsView × CBlockUndo)
  | view, [] => .ok (view, [])
  | view, tx :: vtx =>
    match updateCoinsUndo view tx nHeight with
    | .error e => .error e
    | .ok (view, txundo) =>
      match updateCoinsAll nHeight view vtx with
      | .error e => .error e
      | .ok (view, vtxundo) => .ok (view, txundo :: vtxundo)

/-- What the loop of `ConnectBlock` does to the coins. The first transaction fills a dummy. -/
def updateCoinsBlock (view : CoinsView) (vtx : List CTransaction) (nHeight : Nat) :
    Except String (CoinsView × CBlockUndo) :=
  match vtx with
  | [] => .ok (view, [])
  | tx :: vtx =>
    match updateCoinsUndo view tx nHeight with
    | .error e => .error e
    | .ok (view, _) => updateCoinsAll nHeight view vtx

def checkBip30 (view : CoinsView) (vtx : List CTransaction) : Bool :=
  vtx.all fun tx => (range tx.vout.length).all fun o => !view.haveCoin ⟨tx.hash, o⟩

/-! ### Disconnecting -/

inductive DisconnectResult where
  | ok
  | unclean
  | failed
  deriving DecidableEq, Repr

inductive DisconnectStop where
  | failed
  | exception (what : String)
  deriving DecidableEq, Repr

def MAX_OUTPUTS_PER_BLOCK : Nat := 2000000 / 9

/-- The loop of `AccessByTxid` with `fuel` outputs to go. -/
def accessByTxidFrom (view : CoinsView) (txid : Uint256) : Nat → Nat → Option Coin
  | 0, _ => none
  | fuel + 1, n =>
    match view.lookup ⟨txid, n⟩ with
    | some alternate => some alternate
    | none => accessByTxidFrom view txid fuel (n + 1)

def accessByTxid (view : CoinsView) (txid : Uint256) : Option Coin :=
  accessByTxidFrom view txid MAX_OUTPUTS_PER_BLOCK 0

/-- `ApplyTxInUndo`; the flag says that nothing was overwritten. -/
def applyTxInUndo (undo : Coin) (view : CoinsView) (out : COutPoint) :
    Except DisconnectStop (CoinsView × Bool) :=
  let fClean := !view.haveCoin out
  let undo : Option Coin :=
    if undo.nHeight = 0 then
      (accessByTxid view out.hash).map fun alternate =>
        { undo with
          nHeight := alternate.nHeight
          fCoinBase := alternate.fCoinBase
          fCoinStake := alternate.fCoinStake }
    else some undo
  match undo with
  | none => .error .failed
  | some undo =>
    match view.addCoin out undo (!fClean) with
    | .error what => .error (.exception what)
    | .ok view => .ok (view, fClean)

def removeOutputsFrom (tx : CTransaction) (nHeight : Nat) : Nat → CoinsView × Bool → List CTxOut →
    CoinsView × Bool
  | _, st, [] => st
  | o, (view, fClean), out :: vout =>
    if CScript.isUnspendable out.scriptPubKey then
      removeOutputsFrom tx nHeight (o + 1) (view, fClean) vout
    else
      let coin := view.lookup ⟨tx.hash, o⟩
      removeOutputsFrom tx nHeight (o + 1)
        (view.erase ⟨tx.hash, o⟩,
          fClean && decide (coin = some ⟨out, nHeight, tx.isCoinBase, tx.isCoinStake⟩)) vout

def restoreInput (st : CoinsView × Bool) (entry : COutPoint × Coin) :
    Except DisconnectStop (CoinsView × Bool) :=
  match applyTxInUndo entry.2 st.1 entry.1 with
  | .error stop => .error stop
  | .ok (view, fClean) => .ok (view, st.2 && fClean)

def disconnectTx (nHeight : Nat) (st : CoinsView × Bool) (entry : CTransaction × Option CTxUndo) :
    Except DisconnectStop (CoinsView × Bool) :=
  let st := removeOutputsFrom entry.1 nHeight 0 st entry.1.vout
  match entry.2 with
  | none => .ok st
  | some txundo =>
    if txundo.length ≠ entry.1.vin.length then .error .failed
    else (entry.1.vin.zip txundo).reverse.foldlM restoreInput st

/-- What `DisconnectBlock` does to the coins. A view that a failure leaves behind is not used. -/
def disconnectBlock (view : CoinsView) (vtx : List CTransaction) (nHeight : Nat)
    (blockUndo : CBlockUndo) : Except String (DisconnectResult × CoinsView) :=
  if blockUndo.length + 1 ≠ vtx.length then .ok (.failed, view)
  else
    match (vtx.zip (none :: blockUndo.map some)).reverse.foldlM (disconnectTx nHeight) (view, true) with
    | .error .failed => .ok (.failed, view)
    | .error (.exception what) => .error what
    | .ok (view, fClean) => .ok (if fClean then .ok else .unclean, view)

def disconnectBlockFromDisk (view : CoinsView) (vtx : List CTransaction) (nHeight : Nat)
    (undo : Bytes) : Except String (DisconnectResult × CoinsView) :=
  match (blockUndoFormat keys).get undo with
  | none => .ok (.failed, view)
  | some (blockUndo, _) => disconnectBlock view vtx nHeight blockUndo

/-! ### Outputs -/

def SameCoins (view view' : CoinsView) : Prop :=
  ∀ o, view.lookup o = view'.lookup o

def addedCoin (tx : CTransaction) (nHeight n : Nat) (vout : List CTxOut) (o : COutPoint) :
    Option Coin :=
  if o.hash = tx.hash ∧ n ≤ o.n then
    vout[o.n - n]?.bind fun out =>
      if CScript.isUnspendable out.scriptPubKey then none
      else some ⟨out, nHeight, tx.isCoinBase, tx.isCoinStake⟩
  else none

variable {tx : CTransaction} {nHeight n : Nat} {view view' : CoinsView} {vout : List CTxOut}

theorem addedCoin_cons (out : CTxOut) (o : COutPoint) :
    addedCoin tx nHeight n (out :: vout) o =
      if o = ⟨tx.hash, n⟩ then
        if CScript.isUnspendable out.scriptPubKey then none
        else some ⟨out, nHeight, tx.isCoinBase, tx.isCoinStake⟩
      else addedCoin tx nHeight (n + 1) vout o := by
  obtain ⟨hash, m⟩ := o
  unfold addedCoin
  by_cases hhash : hash = tx.hash
  · rcases Nat.lt_trichotomy m n with hlt | rfl | hgt
    · simp [show ¬ n ≤ m by omega, show ¬ n + 1 ≤ m by omega, show m ≠ n by omega]
    · simp
    · obtain ⟨k, rfl⟩ : ∃ k, m = n + 1 + k := ⟨m - (n + 1), by omega⟩
      simp [show n + 1 + k - n = k + 1 by omega, show n ≤ n + 1 + k by omega,
        show n + 1 + k ≠ n by omega]
  · simp [hhash]

theorem addedCoin_succ_self : addedCoin tx nHeight (n + 1) vout ⟨tx.hash, n⟩ = none := by
  unfold addedCoin
  rw [if_neg]
  rintro ⟨-, hle⟩
  exact absurd hle (Nat.not_succ_le_self n)

theorem addCoinsFrom_ok (hadd : CoinsView.addCoinsFrom tx nHeight n view vout = .ok view') :
    (∀ o, view'.lookup o = (addedCoin tx nHeight n vout o).or (view.lookup o)) ∧
      (tx.isCoinBase = false → ∀ o coin, addedCoin tx nHeight n vout o = some coin →
        view.lookup o = none) := by
  induction vout generalizing n view with
  | nil =>
    obtain rfl : view = view' := by simpa [addCoinsFrom] using hadd
    simp [addedCoin]
  | cons out vout ih =>
    unfold addCoinsFrom at hadd
    split at hadd
    · cases hadd
    next mid hmid =>
    obtain ⟨hlookup, hfresh⟩ := ih hadd
    unfold addCoin at hmid
    split at hmid
    · cases hmid
    split at hmid
    next hunspendable =>
      cases hmid
      refine ⟨?_, ?_⟩
      · intro o
        rw [hlookup, addedCoin_cons, if_pos hunspendable]
        split
        next ho => rw [ho, addedCoin_succ_self]
        · rfl
      · intro hcoinbase o coin hadded
        rw [addedCoin_cons, if_pos hunspendable] at hadded
        split at hadded
        · cases hadded
        · exact hfresh hcoinbase o coin hadded
    next hspendable =>
    split at hmid
    · cases hmid
    next hoverwrite =>
    cases hmid
    refine ⟨?_, ?_⟩
    · intro o
      rw [hlookup, addedCoin_cons, if_neg hspendable, lookup_insert_eq_ite]
      split
      next ho => rw [ho, addedCoin_succ_self]; rfl
      · rfl
    · intro hcoinbase o coin hadded
      rw [addedCoin_cons, if_neg hspendable] at hadded
      split at hadded
      next ho =>
        subst ho
        simpa [hcoinbase, haveCoin] using hoverwrite
      next ho =>
        have hnone := hfresh hcoinbase o coin hadded
        rwa [lookup_insert_eq_ite, if_neg ho] at hnone

theorem removeOutputsFrom_eq {fClean : Bool}
    (hthere : ∀ o coin, addedCoin tx nHeight n vout o = some coin → view.lookup o = some coin) :
    ∃ view', removeOutputsFrom tx nHeight n (view, fClean) vout = (view', fClean) ∧
      ∀ o, view'.lookup o =
        if (addedCoin tx nHeight n vout o).isSome then none else view.lookup o := by
  induction vout generalizing n view with
  | nil => exact ⟨view, rfl, by simp [addedCoin]⟩
  | cons out vout ih =>
    unfold removeOutputsFrom
    have hnext : ∀ o coin, addedCoin tx nHeight (n + 1) vout o = some coin →
        o ≠ ⟨tx.hash, n⟩ ∧ view.lookup o = some coin := by
      intro o coin hadded
      have hne : o ≠ ⟨tx.hash, n⟩ := by
        rintro rfl
        rw [addedCoin_succ_self] at hadded
        cases hadded
      refine ⟨hne, hthere o coin ?_⟩
      rw [addedCoin_cons, if_neg hne, hadded]
    split
    next hunspendable =>
      obtain ⟨view', hremove, hlookup⟩ := ih fun o coin h => (hnext o coin h).2
      refine ⟨view', hremove, ?_⟩
      intro o
      rw [hlookup, addedCoin_cons, if_pos hunspendable]
      by_cases ho : o = ⟨tx.hash, n⟩
      · rw [if_pos ho, ho, addedCoin_succ_self]
      · rw [if_neg ho]
    next hspendable =>
      have hcoin : view.lookup ⟨tx.hash, n⟩ =
          some ⟨out, nHeight, tx.isCoinBase, tx.isCoinStake⟩ := by
        apply hthere
        rw [addedCoin_cons, if_pos rfl, if_neg hspendable]
      have hrest : ∀ o coin, addedCoin tx nHeight (n + 1) vout o = some coin →
          (view.erase ⟨tx.hash, n⟩).lookup o = some coin := by
        intro o coin hadded
        obtain ⟨hne, hlookup⟩ := hnext o coin hadded
        rw [lookup_erase_eq_ite, if_neg hne, hlookup]
      obtain ⟨view', hremove, hlookup⟩ := ih hrest
      refine ⟨view', ?_, ?_⟩
      · simp only [hcoin, decide_true, Bool.and_true]
        exact hremove
      · intro o
        rw [hlookup, lookup_erase_eq_ite, addedCoin_cons, if_neg hspendable]
        by_cases ho : o = ⟨tx.hash, n⟩
        · rw [if_pos ho, if_pos ho, ho, addedCoin_succ_self]
          rfl
        · rw [if_neg ho, if_neg ho]

variable (fClean : Bool)

theorem removeOutputsFrom_addCoinsFrom
    (hadd : CoinsView.addCoinsFrom tx nHeight 0 view tx.vout = .ok view')
    (hfresh : tx.isCoinBase = true → ∀ o < tx.vout.length, view.lookup ⟨tx.hash, o⟩ = none)
    (hsame : SameCoins after view') :
    ∃ restored, removeOutputsFrom tx nHeight 0 (after, fClean) tx.vout = (restored, fClean) ∧
      SameCoins restored view := by
  obtain ⟨hlookup, hnew⟩ := addCoinsFrom_ok hadd
  have habsent : ∀ o coin, addedCoin tx nHeight 0 tx.vout o = some coin → view.lookup o = none := by
    intro o coin hadded
    cases hcoinbase : tx.isCoinBase with
    | false => exact hnew hcoinbase o coin hadded
    | true =>
      unfold addedCoin at hadded
      split at hadded
      next ho =>
        obtain ⟨out, hout, -⟩ := Option.bind_eq_some_iff.mp hadded
        obtain ⟨hlt, -⟩ := List.getElem?_eq_some_iff.mp hout
        obtain ⟨hash, n⟩ := o
        obtain rfl : hash = tx.hash := ho.1
        exact hfresh hcoinbase n hlt
      · cases hadded
  have hthere : ∀ o coin, addedCoin tx nHeight 0 tx.vout o = some coin →
      after.lookup o = some coin := by
    intro o coin hadded
    rw [hsame, hlookup, hadded, Option.some_or]
  obtain ⟨restored, hremove, hrestored⟩ :=
    @removeOutputsFrom_eq tx nHeight 0 after tx.vout fClean hthere
  refine ⟨restored, hremove, ?_⟩
  intro o
  rw [hrestored, hsame, hlookup]
  cases hadded : addedCoin tx nHeight 0 tx.vout o with
  | none => rfl
  | some coin => exact (habsent o coin hadded).symm

/-! ### Inputs -/

theorem restoreInput_eq {o : COutPoint} {fClean : Bool} (hstorable : Storable coin)
    (hnone : view.lookup o = none) :
    restoreInput (view, fClean) (o, coin) = .ok (view.insert o coin, fClean) := by
  have hnot : view.haveCoin o = false := by rw [haveCoin, hnone]; rfl
  have hheight := Nat.ne_of_gt hstorable.height_pos
  have hvalue : ¬coin.out.nValue = -1 := by
    intro hspent
    have hnonneg := hstorable.value.1
    rw [hspent] at hnonneg
    exact absurd hnonneg (by decide)
  simp [restoreInput, applyTxInUndo, addCoin, hnot, hheight, hvalue, hstorable.spendable]

theorem restoreInputs_spendCoins (hspend : spendCoins view vin = .ok (view', txundo))
    (hstorable : ∀ o coin, view.lookup o = some coin → Storable coin)
    (hsame : SameCoins after view') :
    ∃ restored, (vin.zip txundo).reverse.foldlM restoreInput (after, fClean) =
        .ok (restored, fClean) ∧ SameCoins restored view := by
  induction vin generalizing view view' txundo with
  | nil =>
    cases hspend
    exact ⟨after, rfl, hsame⟩
  | cons o vin ih =>
    unfold spendCoins at hspend
    split at hspend
    · cases hspend
    next coin hcoin =>
    split at hspend
    · cases hspend
    next view₁ txundo₁ hrest =>
    cases hspend
    obtain ⟨mid, hmid, hmidSame⟩ := ih hrest
      (fun o' coin' hlookup => hstorable o' coin' (lookup_of_erase hlookup)) hsame
    have hnone : mid.lookup o = none := by
      rw [hmidSame, lookup_erase]
    refine ⟨mid.insert o coin, ?_, ?_⟩
    · rw [zip_cons_cons, reverse_cons, foldlM_append, hmid]
      simp only [bind, Except.bind, foldlM_cons, foldlM_nil,
        restoreInput_eq (hstorable o coin hcoin) hnone]
      rfl
    · intro o'
      rw [lookup_insert_eq_ite, hmidSame, lookup_erase_eq_ite]
      split
      next ho => rw [ho, hcoin]
      · rfl

/-! ### Transactions and blocks -/

theorem length_of_spendCoins (hspend : spendCoins view vin = .ok (view', txundo)) :
    txundo.length = vin.length := by
  induction vin generalizing view view' txundo with
  | nil =>
    cases hspend
    rfl
  | cons o vin ih =>
    unfold spendCoins at hspend
    split at hspend
    · cases hspend
    split at hspend
    · cases hspend
    next hrest =>
    cases hspend
    rw [length_cons, length_cons, ih hrest]

theorem spendCoins_subset (hspend : spendCoins view vin = .ok (view', txundo)) :
    (∀ o coin, view'.lookup o = some coin → view.lookup o = some coin) ∧
      ∀ coin ∈ txundo, ∃ o, view.lookup o = some coin := by
  induction vin generalizing view view' txundo with
  | nil =>
    cases hspend
    exact ⟨fun _ _ h => h, fun _ h => nomatch h⟩
  | cons o vin ih =>
    unfold spendCoins at hspend
    split at hspend
    · cases hspend
    next coin hcoin =>
    split at hspend
    · cases hspend
    next hrest =>
    cases hspend
    obtain ⟨hleft, hspent⟩ := ih hrest
    refine ⟨fun o' coin' hlookup => lookup_of_erase (hleft o' coin' hlookup), ?_⟩
    intro coin' hmem
    rcases mem_cons.mp hmem with rfl | hmem
    · exact ⟨o, hcoin⟩
    · obtain ⟨o', hlookup⟩ := hspent coin' hmem
      exact ⟨o', lookup_of_erase hlookup⟩

theorem updateCoinsUndo_ok (hupdate : updateCoinsUndo view tx nHeight = .ok (view', txundo)) :
    ∃ mid, (if tx.isCoinBase then .ok (view, []) else spendCoins view tx.vin) =
        (.ok (mid, txundo) : Except String (CoinsView × CTxUndo)) ∧
      CoinsView.addCoinsFrom tx nHeight 0 mid tx.vout = .ok view' := by
  unfold updateCoinsUndo at hupdate
  split at hupdate
  · cases hupdate
  next mid txundo₁ hspend =>
  split at hupdate
  · cases hupdate
  next hadd =>
  cases hupdate
  exact ⟨mid, hspend, hadd⟩

def AllStorable (view : CoinsView) : Prop :=
  ∀ o coin, view.lookup o = some coin → Storable coin

section

variable (hview : AllStorable view) (hpos : 0 < nHeight) (hheight : nHeight < 2 ^ 30)
  (hvalue : ∀ out ∈ tx.vout, MoneyRange out.nValue)

include hview hpos hheight hvalue

theorem AllStorable.addCoinsFrom
    (hadd : CoinsView.addCoinsFrom tx nHeight 0 view tx.vout = .ok view') : AllStorable view' := by
  intro o coin hlookup
  rw [(addCoinsFrom_ok hadd).1] at hlookup
  cases hadded : addedCoin tx nHeight 0 tx.vout o with
  | none =>
    rw [hadded, Option.none_or] at hlookup
    exact hview o coin hlookup
  | some added =>
    rw [hadded, Option.some_or] at hlookup
    cases hlookup
    unfold addedCoin at hadded
    split at hadded
    · obtain ⟨out, hout, hcoin⟩ := Option.bind_eq_some_iff.mp hadded
      split at hcoin
      · cases hcoin
      next hspendable =>
      cases hcoin
      exact ⟨hpos, hheight, hvalue out (mem_of_getElem? hout), by simpa using hspendable⟩
    · cases hadded

theorem AllStorable.updateCoinsUndo
    (hupdate : updateCoinsUndo view tx nHeight = .ok (view', txundo)) :
    AllStorable view' ∧ ∀ coin ∈ txundo, Storable coin := by
  obtain ⟨mid, hspend, hadd⟩ := updateCoinsUndo_ok hupdate
  have hmid : AllStorable mid ∧ ∀ coin ∈ txundo, Storable coin := by
    split at hspend
    · cases hspend
      exact ⟨hview, fun _ h => nomatch h⟩
    · obtain ⟨hleft, hspent⟩ := spendCoins_subset hspend
      refine ⟨fun o coin hlookup => hview o coin (hleft o coin hlookup), ?_⟩
      intro coin hmem
      obtain ⟨o, hlookup⟩ := hspent coin hmem
      exact hview o coin hlookup
  exact ⟨hmid.1.addCoinsFrom hpos hheight hvalue hadd, hmid.2⟩

end

theorem disconnectTx_updateCoinsUndo (hview : AllStorable view) (hcoinbase : tx.isCoinBase = false)
    (hupdate : updateCoinsUndo view tx nHeight = .ok (view', txundo))
    (hsame : SameCoins after view') :
    ∃ restored, disconnectTx nHeight (after, fClean) (tx, some txundo) = .ok (restored, fClean) ∧
      SameCoins restored view := by
  obtain ⟨mid, hspend, hadd⟩ := updateCoinsUndo_ok hupdate
  rw [hcoinbase] at hspend
  obtain ⟨removed, hremove, hremoved⟩ := removeOutputsFrom_addCoinsFrom fClean hadd
    (fun h => by rw [hcoinbase] at h; cases h) hsame
  obtain ⟨restored, hrestore, hrestored⟩ :=
    restoreInputs_spendCoins fClean hspend hview hremoved
  refine ⟨restored, ?_, hrestored⟩
  simp only [disconnectTx, hremove]
  rw [if_neg (not_not_intro (length_of_spendCoins hspend)), hrestore]

theorem disconnectTx_coinbase (hcoinbase : tx.isCoinBase = true)
    (hfresh : ∀ o < tx.vout.length, view.lookup ⟨tx.hash, o⟩ = none)
    (hupdate : updateCoinsUndo view tx nHeight = .ok (view', txundo))
    (hsame : SameCoins after view') :
    ∃ restored, disconnectTx nHeight (after, fClean) (tx, none) = .ok (restored, fClean) ∧
      SameCoins restored view := by
  obtain ⟨mid, hspend, hadd⟩ := updateCoinsUndo_ok hupdate
  rw [if_pos hcoinbase] at hspend
  cases hspend
  obtain ⟨removed, hremove, hremoved⟩ := removeOutputsFrom_addCoinsFrom fClean hadd
    (fun _ => hfresh) hsame
  refine ⟨removed, ?_, hremoved⟩
  simp only [disconnectTx, hremove]

theorem updateCoinsAll_undone {vtx : List CTransaction} {vtxundo : CBlockUndo}
    (hview : AllStorable view) (hpos : 0 < nHeight) (hheight : nHeight < 2 ^ 30)
    (hcoinbase : ∀ tx ∈ vtx, tx.isCoinBase = false)
    (hvalue : ∀ tx ∈ vtx, ∀ out ∈ tx.vout, MoneyRange out.nValue)
    (hupdate : updateCoinsAll nHeight view vtx = .ok (view', vtxundo)) :
    vtxundo.length = vtx.length ∧
      (∀ txundo ∈ vtxundo, (∀ coin ∈ txundo, Storable coin) ∧
        ∃ tx ∈ vtx, txundo.length = tx.vin.length) ∧
      ∀ after fClean, SameCoins after view' →
        ∃ restored, (vtx.zip (vtxundo.map some)).reverse.foldlM (disconnectTx nHeight)
            (after, fClean) = .ok (restored, fClean) ∧ SameCoins restored view := by
  induction vtx generalizing view view' vtxundo with
  | nil =>
    cases hupdate
    exact ⟨rfl, (fun _ h => nomatch h), fun after fClean hsame => ⟨after, rfl, hsame⟩⟩
  | cons tx vtx ih =>
    unfold updateCoinsAll at hupdate
    split at hupdate
    · cases hupdate
    next mid txundo hfirst =>
    split at hupdate
    · cases hupdate
    next view₁ vtxundo₁ hrest =>
    cases hupdate
    obtain ⟨hmid, hspent⟩ := hview.updateCoinsUndo hpos hheight
      (hvalue tx mem_cons_self) hfirst
    obtain ⟨hlength, hstored, hundone⟩ := ih hmid
      (fun tx htx => hcoinbase tx (mem_cons_of_mem _ htx))
      (fun tx htx => hvalue tx (mem_cons_of_mem _ htx)) hrest
    have hnotbase := hcoinbase tx mem_cons_self
    refine ⟨by rw [length_cons, length_cons, hlength], ?_, ?_⟩
    · intro txundo' hmem
      rcases mem_cons.mp hmem with rfl | hmem
      · refine ⟨hspent, tx, mem_cons_self, ?_⟩
        obtain ⟨mid', hspend, -⟩ := updateCoinsUndo_ok hfirst
        rw [hnotbase] at hspend
        exact length_of_spendCoins hspend
      · obtain ⟨hcoins, tx', htx', hinputs⟩ := hstored txundo' hmem
        exact ⟨hcoins, tx', mem_cons_of_mem _ htx', hinputs⟩
    · intro after fClean hsame
      obtain ⟨midRestored, hfold, hmidSame⟩ := hundone after fClean hsame
      obtain ⟨restored, hlast, hrestored⟩ :=
        disconnectTx_updateCoinsUndo fClean hview hnotbase hfirst hmidSame
      refine ⟨restored, ?_, hrestored⟩
      rw [map_cons, zip_cons_cons, reverse_cons, foldlM_append, hfold]
      simp only [bind, Except.bind, foldlM_cons, foldlM_nil, hlast]
      rfl

/-! ### A block that is connected and disconnected -/

theorem moneyRange_of_getValueOut {nValueOut : CAmount} (hout : tx.getValueOut = .ok nValueOut) :
    ∀ out ∈ tx.vout, MoneyRange out.nValue := by
  have hrun := Lib.Run.except hout
  clear hout
  intro out hmem
  generalize tx.vout = vout at hrun hmem
  generalize (0 : CAmount) = start at hrun
  induction hrun with
  | nil => cases hmem
  | cons hstep _ ih =>
    rcases mem_cons.mp hmem with rfl | hmem
    · split at hstep
      next hrange => exact hrange.1
      · cases hstep
    · exact ih hmem

theorem exists_updateCoinsUndo (hupdate : view.updateCoins tx nHeight = .ok view') :
    ∃ txundo, updateCoinsUndo view tx nHeight = .ok (view', txundo) := by
  have hspend (vin : List COutPoint) (view mid : CoinsView)
      (h : vin.foldlM spendCoin view = .ok mid) :
      ∃ txundo, spendCoins view vin = .ok (mid, txundo) := by
    induction vin generalizing view with
    | nil =>
      obtain rfl : view = mid := by simpa [pure, Except.pure] using h
      exact ⟨[], rfl⟩
    | cons o vin ih =>
      rw [foldlM_cons, spendCoin, haveCoin] at h
      cases hlookup : view.lookup o with
      | none =>
        rw [hlookup] at h
        cases h
      | some coin =>
        rw [hlookup] at h
        obtain ⟨txundo, hrest⟩ := ih (view.erase o) h
        exact ⟨coin :: txundo, by simp only [spendCoins, hlookup, hrest]⟩
  unfold updateCoins at hupdate
  unfold updateCoinsUndo
  cases hcoinbase : tx.isCoinBase with
  | true =>
    rw [hcoinbase] at hupdate
    simp only [if_true] at hupdate ⊢
    exact ⟨[], by rw [hupdate]⟩
  | false =>
    rw [hcoinbase] at hupdate
    simp only [Bool.false_eq_true, if_false] at hupdate ⊢
    split at hupdate
    · cases hupdate
    next mid hmid =>
    obtain ⟨txundo, htxundo⟩ := hspend tx.vin view mid hmid
    exact ⟨txundo, by simp only [htxundo, hupdate]⟩

theorem connectTx_view {tx : BlockTx} {st st' : ConnectTotals}
    (hconnect : connectTx nHeight st tx = .ok st') :
    st.view.updateCoins tx.toCTransaction nHeight = .ok st'.view ∧
      ∀ out ∈ tx.vout, MoneyRange out.nValue := by
  unfold connectTx at hconnect
  split at hconnect
  · cases hconnect
  next hout =>
  refine ⟨?_, moneyRange_of_getValueOut hout⟩
  split at hconnect
  · split at hconnect
    · cases hconnect
    next hupdate =>
    cases hconnect
    exact hupdate
  · split at hconnect
    · cases hconnect
    next txfee _ =>
    generalize (if tx.isCoinStake then st.nFees else st.nFees + txfee) = nFees at hconnect
    simp only at hconnect
    split at hconnect
    · cases hconnect
    split at hconnect
    · cases hconnect
    next hupdate =>
    cases hconnect
    exact hupdate

theorem exists_updateCoinsAll {vtx : List BlockTx} {st st' : ConnectTotals}
    (hrun : Lib.Run (fun st tx st' => connectTx nHeight st tx = .ok st') st vtx st') :
    (∃ vtxundo, updateCoinsAll nHeight st.view (vtx.map BlockTx.toCTransaction) =
        .ok (st'.view, vtxundo)) ∧
      ∀ tx ∈ vtx, ∀ out ∈ tx.vout, MoneyRange out.nValue := by
  induction hrun with
  | nil st => exact ⟨⟨[], rfl⟩, fun _ h => nomatch h⟩
  | @cons st mid st' tx vtx hfirst _ ih =>
    obtain ⟨hupdate, hvalue⟩ := connectTx_view hfirst
    obtain ⟨txundo, hundo⟩ := exists_updateCoinsUndo hupdate
    obtain ⟨⟨vtxundo, hrest⟩, hvalues⟩ := ih
    refine ⟨⟨txundo :: vtxundo, ?_⟩, ?_⟩
    · simp only [map_cons, updateCoinsAll, hundo, hrest]
    · intro tx' htx'
      rcases mem_cons.mp htx' with rfl | htx'
      · exact hvalue
      · exact hvalues tx' htx'

/-- The sizes that `CheckBlock` bounds, as far as the undo data needs them. -/
structure SizesFit (vtx : List CTransaction) : Prop where
  txs : vtx.length ≤ Codec.MAX_SIZE
  inputs : ∀ tx ∈ vtx, tx.vin.length ≤ Codec.MAX_SIZE

/-- **Disconnecting a block inverts connecting it**, with its undo data written and read back. -/
theorem disconnectBlock_connectTxs (keys : PubKeys) {coinbase : BlockTx} {rest : List BlockTx}
    {st : ConnectTotals} (hview : AllStorable view) (hpos : 0 < nHeight) (hheight : nHeight < 2 ^ 30)
    (hcoinbase : coinbase.isCoinBase = true) (hrest : ∀ tx ∈ rest, tx.isCoinBase = false)
    (hsizes : SizesFit ((coinbase :: rest).map BlockTx.toCTransaction))
    (hbip30 : checkBip30 view ((coinbase :: rest).map BlockTx.toCTransaction) = true)
    (hconnect : connectTxs view nHeight (coinbase :: rest) = .ok st) :
    ∃ blockUndo, updateCoinsBlock view ((coinbase :: rest).map BlockTx.toCTransaction) nHeight =
        .ok (st.view, blockUndo) ∧
      ∃ restored, disconnectBlockFromDisk keys st.view
          ((coinbase :: rest).map BlockTx.toCTransaction) nHeight
          ((blockUndoFormat keys).put blockUndo) = .ok (.ok, restored) ∧
        ∀ o, restored.lookup o = view.lookup o := by
  cases Lib.Run.except hconnect with
  | @cons _ mid _ _ _ hfirst hothers =>
  obtain ⟨hupdate, hvalue⟩ := connectTx_view hfirst
  obtain ⟨txundo, hundo⟩ := exists_updateCoinsUndo hupdate
  obtain ⟨⟨blockUndo, hall⟩, hvalues⟩ := exists_updateCoinsAll hothers
  have hmid : AllStorable mid.view := (hview.updateCoinsUndo hpos hheight hvalue hundo).1
  obtain ⟨hlength, hstored, hundone⟩ := updateCoinsAll_undone hmid hpos hheight
    (by simpa using hrest) (by simpa using hvalues) hall
  -- what was written can be read back
  have hfits : (blockUndoFormat keys).Fits blockUndo := by
    refine ⟨?_, ?_⟩
    · have hvtx := hsizes.txs
      rw [map_cons, length_cons, ← hlength] at hvtx
      exact Nat.le_of_succ_le hvtx
    · intro txundo' hmem
      obtain ⟨hcoins, tx', htx', hinputs⟩ := hstored txundo' hmem
      refine ⟨?_, fun coin hcoin => fits_txInUndoFormat (hcoins coin hcoin).height_lt
        (hcoins coin hcoin).value (hcoins coin hcoin).length_le⟩
      have hvin := hsizes.inputs tx' (mem_cons_of_mem _ htx')
      rwa [← hinputs] at hvin
  have hread := (blockUndoFormat keys).get_put hfits []
  rw [append_nil] at hread
  have hfresh : ∀ o < coinbase.vout.length, view.lookup ⟨coinbase.hash, o⟩ = none := by
    intro o ho
    rw [checkBip30, map_cons, all_cons, Bool.and_eq_true] at hbip30
    have hnot := all_eq_true.mp hbip30.1 o (mem_range.mpr ho)
    simpa [CoinsView.haveCoin] using hnot
  obtain ⟨midRestored, hfold, hmidSame⟩ := hundone st.view true fun _ => rfl
  obtain ⟨restored, hlast, hrestored⟩ :=
    disconnectTx_coinbase true hcoinbase hfresh hundo hmidSame
  refine ⟨blockUndo, by simp only [updateCoinsBlock, map_cons, hundo, hall], restored, ?_,
    hrestored⟩
  rw [disconnectBlockFromDisk, hread]
  simp only [disconnectBlock]
  rw [if_neg (by rw [map_cons, length_cons, hlength]; exact not_not_intro rfl),
    map_cons, zip_cons_cons, reverse_cons, foldlM_append, hfold]
  simp only [bind, Except.bind, foldlM_cons, foldlM_nil, hlast]
  rfl

/-! ### Two blocks -/

def sampleKeys : PubKeys where
  isFullyValid _ := false
  decompress _ := none
  length_decompress h := nomatch h
  decompress_compress _ _ h := nomatch h

def samplePayment (hash : Uint256) (prevout : COutPoint) : BlockTx :=
  { hash := hash, vin := [prevout], vout := [⟨COIN, [1]⟩], isAssetUnlock := false,
    assetUnlockFee := none }

def sampleCoins : CoinsView :=
  ((∅ : CoinsView).insert ⟨7, 0⟩ ⟨⟨100 * COIN, [2]⟩, 10, false, false⟩).insert ⟨8, 0⟩
    ⟨⟨COIN, [1]⟩, 20, true, false⟩

def sampleBlock : List BlockTx :=
  [sampleCoinbase (5000 * COIN), sampleCoinstake, samplePayment 3 ⟨8, 0⟩, samplePayment 4 ⟨3, 0⟩]

theorem allStorable_sampleCoins : AllStorable sampleCoins := by
  intro o coin hlookup
  rw [sampleCoins, lookup_insert_eq_ite, lookup_insert_eq_ite] at hlookup
  split at hlookup
  · cases hlookup
    exact ⟨by decide, by decide, by decide, by decide⟩
  split at hlookup
  · cases hlookup
    exact ⟨by decide, by decide, by decide, by decide⟩
  · cases hlookup

theorem disconnectBlock_sample :
    ∃ st, connectTxs sampleCoins 2000 sampleBlock = .ok st ∧ ∃ blockUndo,
      updateCoinsBlock sampleCoins (sampleBlock.map BlockTx.toCTransaction) 2000 =
        .ok (st.view, blockUndo) ∧
      ∃ restored, disconnectBlockFromDisk sampleKeys st.view
          (sampleBlock.map BlockTx.toCTransaction) 2000
          ((blockUndoFormat sampleKeys).put blockUndo) = .ok (.ok, restored) ∧
        ∀ o, restored.lookup o = sampleCoins.lookup o := by
  obtain ⟨st, hst⟩ : ∃ st, connectTxs sampleCoins 2000 sampleBlock = .ok st := ⟨_, rfl⟩
  exact ⟨st, hst, disconnectBlock_connectTxs sampleKeys allStorable_sampleCoins (by decide)
    (by decide) (by decide) (by decide) ⟨by decide, by decide⟩ (by decide +kernel) hst⟩

theorem accessByTxid_eq_none {txid : Uint256} (hother : ∀ o ∈ view.keys, o.hash ≠ txid) :
    accessByTxid view txid = none := by
  have hnone (n : Nat) : view.lookup ⟨txid, n⟩ = none := by
    apply lookup_eq_none.mpr
    intro hmem
    exact hother _ (mem_keys.mp hmem) rfl
  have hfrom (fuel n : Nat) : accessByTxidFrom view txid fuel n = none := by
    induction fuel generalizing n with
    | zero => rfl
    | succ fuel ih => rw [accessByTxidFrom, hnone, ih]
  exact hfrom _ _

/-- The undo data of a coin of height zero says that its height is not known. -/
theorem restoreInput_height_zero {o : COutPoint} (hzero : coin.nHeight = 0)
    (hother : ∀ o' ∈ view.keys, o'.hash ≠ o.hash) :
    restoreInput (view, true) (o, coin) = .error .failed := by
  simp [restoreInput, applyTxInUndo, hzero, accessByTxid_eq_none hother]

def coinAtZero : Coin := ⟨⟨COIN, [1]⟩, 0, false, false⟩

def viewAtZero : CoinsView := (∅ : CoinsView).insert ⟨8, 0⟩ coinAtZero

def blockAtZero : List BlockTx := [sampleCoinbase 0, samplePayment 3 ⟨8, 0⟩]

/-- A block that spends a coin of height zero passes all checks and cannot be disconnected. -/
theorem disconnectBlock_fails_at_height_zero :
    checkBip30 viewAtZero (blockAtZero.map BlockTx.toCTransaction) = true ∧
      ∃ st, connectTxs viewAtZero 100 blockAtZero = .ok st ∧
        ∃ blockUndo, updateCoinsBlock viewAtZero (blockAtZero.map BlockTx.toCTransaction) 100 =
            .ok (st.view, blockUndo) ∧
          disconnectBlockFromDisk sampleKeys st.view (blockAtZero.map BlockTx.toCTransaction) 100
            ((blockUndoFormat sampleKeys).put blockUndo) = .ok (.failed, st.view) := by
  obtain ⟨st, hst, hkeys⟩ : ∃ st, connectTxs viewAtZero 100 blockAtZero = .ok st ∧
      st.view.keys = [⟨3, 0⟩, ⟨1, 1⟩, ⟨1, 0⟩] := ⟨_, rfl, rfl⟩
  refine ⟨by decide +kernel, st, hst, [[coinAtZero]], ?_, ?_⟩
  · cases hst
    rfl
  have hread : (blockUndoFormat sampleKeys).get ((blockUndoFormat sampleKeys).put [[coinAtZero]]) =
      some ([[coinAtZero]], []) := by
    decide +kernel
  -- the payment is undone first, and its input is the coin of height zero
  have hpayment : disconnectTx 100 (st.view, true)
      ((samplePayment 3 ⟨8, 0⟩).toCTransaction, some [coinAtZero]) = .error .failed := by
    have hremove : removeOutputsFrom (samplePayment 3 ⟨8, 0⟩).toCTransaction 100 0 (st.view, true)
        (samplePayment 3 ⟨8, 0⟩).vout = (st.view.erase ⟨3, 0⟩, true) := by
      cases hst
      rfl
    have hother : ∀ o ∈ (st.view.erase ⟨3, 0⟩).keys, o.hash ≠ 8 := by
      rw [AList.keys_erase, hkeys]
      decide
    have hinput : restoreInput (st.view.erase ⟨3, 0⟩, true) (⟨8, 0⟩, coinAtZero) = .error .failed :=
      restoreInput_height_zero rfl hother
    simp only [disconnectTx, hremove]
    exact congrArg (· >>= pure) hinput
  rw [disconnectBlockFromDisk, hread]
  simp only [disconnectBlock]
  have hentries : ((blockAtZero.map BlockTx.toCTransaction).zip
      (none :: [[coinAtZero]].map some)).reverse =
      [((samplePayment 3 ⟨8, 0⟩).toCTransaction, some [coinAtZero]),
        ((sampleCoinbase 0).toCTransaction, none)] := rfl
  rw [hentries, foldlM_cons, hpayment]
  rfl

/-- **Coins and undo records are read back as they were written.** -/
theorem coin_formats_round_trip (keys : PubKeys) (hheight : coin.nHeight < 2 ^ 30)
    (hvalue : MoneyRange coin.out.nValue)
    (hscript : coin.out.scriptPubKey.length ≤ MAX_SCRIPT_SIZE) :
    (∀ rest, (coinFormat keys).get ((coinFormat keys).put coin ++ rest) = some (coin, rest)) ∧
      (∀ rest, (txInUndoFormat keys).get ((txInUndoFormat keys).put coin ++ rest) =
        some (coin, rest)) ∧
      decompressAmount (compressAmount coin.out.nValue.toNat) = coin.out.nValue.toNat ∧
      ∀ compr, compressScript keys coin.out.scriptPubKey = some compr →
        ∃ nSize vch, nSize < nSpecialScripts ∧ compr = UInt8.ofNat nSize :: vch ∧
          vch.length = getSpecialScriptSize nSize ∧
          decompressScript keys nSize vch = coin.out.scriptPubKey := by
  have hcoin : (coinFormat keys).Fits coin := by
    refine ⟨hheight.trans (by decide), ?_, fits_txOutFormat hvalue hscript, ?_⟩
    · exact Nat.le_pred_of_lt (Nat.mod_lt _ (by decide))
    · change (if coin.fCoinStake then 1 else 0) ≤ 2 ^ 32 - 1
      split <;> decide
  refine ⟨(coinFormat keys).get_put hcoin,
    (txInUndoFormat keys).get_put (fits_txInUndoFormat hheight hvalue hscript), ?_,
    fun _ hcompr => compressScript_ok hcompr⟩
  refine decompressAmount_compressAmount ((Int.toNat_lt hvalue.1).mpr ?_)
  exact lt_of_le_of_lt hvalue.2 (by decide)

theorem coin_formats_round_trip_coinstake :
    (txInUndoFormat sampleKeys).get
      ((txInUndoFormat sampleKeys).put ⟨⟨COIN, [2]⟩, 0, false, true⟩) =
        some (⟨⟨COIN, [2]⟩, 0, false, true⟩, []) ∧
    (coinFormat sampleKeys).get ((coinFormat sampleKeys).put ⟨⟨COIN, [2]⟩, 0, false, true⟩) =
      some (⟨⟨COIN, [2]⟩, 0, false, true⟩, []) := by
  have hboth := @coin_formats_round_trip ⟨⟨COIN, [2]⟩, 0, false, true⟩ sampleKeys
    (by decide) (by decide) (by decide)
  have hundo := hboth.2.1 []
  have hcoin := hboth.1 []
  rw [append_nil] at hundo hcoin
  exact ⟨hundo, hcoin⟩

end Defcon.Validation
