import Mathlib.Algebra.Order.BigOperators.Group.List
import Mathlib.Tactic.Linarith
import Defcon.Lib.AssocMap
import Defcon.Primitives

/-!
# Transactions and coins

The view of the unspent outputs is a map from outpoints to coins. A transaction is checked
against it by `CheckTxInputs` and applied to it by `UpdateCoins`. What stops the node, an
exception or a failed assertion, is an error like a rejection is.
-/

namespace Defcon

open List
open AList (Map)

def MAX_MONEY : CAmount := 500000000 * COIN

def MoneyRange (nValue : CAmount) : Prop :=
  0 ≤ nValue ∧ nValue ≤ MAX_MONEY

instance (nValue : CAmount) : Decidable (MoneyRange nValue) :=
  inferInstanceAs (Decidable (_ ∧ _))

def COutPoint.isNull (o : COutPoint) : Bool :=
  o.hash = 0 ∧ o.n = 2 ^ 32 - 1

def CTxOut.isEmpty (out : CTxOut) : Bool :=
  out.nValue = 0 ∧ out.scriptPubKey = []

namespace CTransaction

variable (tx : CTransaction)

def isCoinBase : Bool :=
  match tx.vin with
  | [prevout] => prevout.isNull && !tx.vout.isEmpty
  | _ => false

def isCoinStake : Bool :=
  match tx.vin, tx.vout with
  | prevout :: _, out :: _ :: _ => !prevout.isNull && out.isEmpty
  | _, _ => false

def getValueOut : Except String CAmount :=
  tx.vout.foldlM (fun nValueOut out =>
    if MoneyRange out.nValue ∧ MoneyRange (nValueOut + out.nValue) then
      .ok (nValueOut + out.nValue)
    else .error "GetValueOut: value out of range") 0

def valueOut : CAmount :=
  (tx.vout.map CTxOut.nValue).sum

theorem getValueOut_ok {tx : CTransaction} {nValueOut : CAmount}
    (hout : tx.getValueOut = .ok nValueOut) : nValueOut = tx.valueOut := by
  have hfold (vout : List CTxOut) (start : CAmount)
      (h : vout.foldlM (fun nValueOut out =>
        if MoneyRange out.nValue ∧ MoneyRange (nValueOut + out.nValue) then
          Except.ok (nValueOut + out.nValue)
        else .error "GetValueOut: value out of range") start = .ok nValueOut) :
      nValueOut = start + (vout.map CTxOut.nValue).sum := by
    induction vout generalizing start with
    | nil =>
      obtain rfl : start = nValueOut := by simpa [pure, Except.pure] using h
      simp
    | cons out vout ih =>
      rw [foldlM_cons] at h
      split at h
      · rw [ih _ h, map_cons, sum_cons, add_assoc]
      · cases h
  have hsum := hfold tx.vout 0 hout
  rwa [zero_add] at hsum

theorem getValueOut_of_le {tx : CTransaction} (hnonneg : ∀ out ∈ tx.vout, 0 ≤ out.nValue)
    (hle : tx.valueOut ≤ MAX_MONEY) : tx.getValueOut = .ok tx.valueOut := by
  have hfold (vout : List CTxOut) (start : CAmount) (hstart : 0 ≤ start)
      (hnonneg : ∀ out ∈ vout, 0 ≤ out.nValue)
      (hle : start + (vout.map CTxOut.nValue).sum ≤ MAX_MONEY) :
      vout.foldlM (fun nValueOut out =>
        if MoneyRange out.nValue ∧ MoneyRange (nValueOut + out.nValue) then
          Except.ok (nValueOut + out.nValue)
        else .error "GetValueOut: value out of range") start =
          .ok (start + (vout.map CTxOut.nValue).sum) := by
    induction vout generalizing start with
    | nil => simp [pure, Except.pure]
    | cons out vout ih =>
      obtain ⟨hout, hrest⟩ := forall_mem_cons.mp hnonneg
      have hsum : 0 ≤ (vout.map CTxOut.nValue).sum :=
        sum_nonneg (forall_mem_map.mpr hrest)
      rw [map_cons, sum_cons] at hle ⊢
      have hrange : MoneyRange out.nValue ∧ MoneyRange (start + out.nValue) :=
        ⟨⟨hout, by linarith⟩, by linarith, by linarith⟩
      rw [foldlM_cons, if_pos hrange, ← add_assoc]
      exact ih _ (by linarith) hrest (by linarith)
  have hsum := hfold tx.vout 0 le_rfl hnonneg (by rwa [zero_add])
  rwa [zero_add] at hsum

end CTransaction

/-! ### The coins view -/

structure Coin where
  out : CTxOut
  nHeight : Nat
  fCoinBase : Bool
  fCoinStake : Bool
  deriving DecidableEq

abbrev CoinsView := Map COutPoint Coin

def COINBASE_MATURITY : Nat := 25

def MAX_SCRIPT_SIZE : Nat := 10000

def OP_RETURN : UInt8 := 0x6a

def CScript.isUnspendable (script : CScript) : Bool :=
  script.head? = some OP_RETURN ∨ MAX_SCRIPT_SIZE < script.length

namespace CoinsView

def coinEmpty : Coin := ⟨⟨-1, []⟩, 0, false, false⟩

variable (view : CoinsView) (outpoint : COutPoint)

def accessCoin : Coin :=
  (view.lookup outpoint).getD coinEmpty

def haveCoin : Bool :=
  (view.lookup outpoint).isSome

def addCoin (coin : Coin) (possible_overwrite : Bool) : Except String CoinsView :=
  if coin.out.nValue = -1 then .error "AddCoin: assertion !coin.IsSpent()"
  else if CScript.isUnspendable coin.out.scriptPubKey then .ok view
  else if !possible_overwrite ∧ view.haveCoin outpoint then
    .error "Attempted to overwrite an unspent coin (when possible_overwrite is false)"
  else .ok (view.insert outpoint coin)

def spendCoin : Except String CoinsView :=
  if view.haveCoin outpoint then .ok (view.erase outpoint)
  else .error "UpdateCoins: assertion is_spent"

def addCoinsFrom (tx : CTransaction) (nHeight : Nat) : Nat → CoinsView → List CTxOut →
    Except String CoinsView
  | _, view, [] => .ok view
  | n, view, out :: vout =>
    match view.addCoin ⟨tx.hash, n⟩ ⟨out, nHeight, tx.isCoinBase, tx.isCoinStake⟩
        tx.isCoinBase with
    | .error e => .error e
    | .ok view' => addCoinsFrom tx nHeight (n + 1) view' vout

variable (tx : CTransaction)

def updateCoins (nHeight : Nat) : Except String CoinsView :=
  match if tx.isCoinBase then .ok view else tx.vin.foldlM spendCoin view with
  | .error e => .error e
  | .ok view' => addCoinsFrom tx nHeight 0 view' tx.vout

/-- The sum that `GetValueIn` and the loop of `ConnectBlock` form over the inputs. -/
def inputValue : CAmount :=
  (tx.vin.map fun prevout => (view.accessCoin prevout).out.nValue).sum

def getValueIn : CAmount :=
  if tx.isCoinBase then 0 else view.inputValue tx

/-- What a coinbase leaves at an outpoint is the coin from before or a coin of this height. -/
theorem lookup_addCoinsFrom {tx : CTransaction} (hcoinbase : tx.isCoinBase = true) {nHeight n : Nat}
    {view view' : CoinsView} {vout : List CTxOut}
    (hadd : addCoinsFrom tx nHeight n view vout = .ok view') (o : COutPoint) :
    view'.lookup o = view.lookup o ∨
      ∃ coin, view'.lookup o = some coin ∧ coin.fCoinBase = true ∧ coin.nHeight = nHeight := by
  induction vout generalizing n view with
  | nil =>
    obtain rfl : view = view' := by simpa [addCoinsFrom] using hadd
    exact Or.inl rfl
  | cons out vout ih =>
    unfold addCoinsFrom at hadd
    split at hadd
    · cases hadd
    · rename_i mid hmid
      rcases ih hadd with hsame | hnew
      · rw [hsame]
        unfold addCoin at hmid
        split at hmid
        · cases hmid
        split at hmid
        · cases hmid
          exact Or.inl rfl
        split at hmid
        · cases hmid
        cases hmid
        rw [AList.lookup_insert_eq_ite]
        split
        · exact Or.inr ⟨_, rfl, hcoinbase, rfl⟩
        · exact Or.inl rfl
      · exact Or.inr hnew

theorem lookup_updateCoins_of_isCoinBase {tx : CTransaction} (hcoinbase : tx.isCoinBase = true)
    {nHeight : Nat} {view view' : CoinsView} (hupdate : view.updateCoins tx nHeight = .ok view')
    (o : COutPoint) :
    view'.lookup o = view.lookup o ∨
      ∃ coin, view'.lookup o = some coin ∧ coin.fCoinBase = true ∧ coin.nHeight = nHeight := by
  unfold updateCoins at hupdate
  rw [if_pos hcoinbase] at hupdate
  exact lookup_addCoinsFrom hcoinbase hupdate o

end CoinsView

/-! ### Inputs -/

/-- A transaction of a block: `assetUnlockFee` is the fee in the payload of an asset unlock, if
the payload can be read. -/
structure BlockTx extends CTransaction where
  isAssetUnlock : Bool
  assetUnlockFee : Option CAmount

def getAssetUnlockFee (tx : BlockTx) : Except String CAmount :=
  match tx.assetUnlockFee with
  | none => .error "bad-assetunlocktx-payload"
  | some fee =>
    if fee = 0 ∨ ¬MoneyRange fee then .error "bad-txns-assetunlock-fee-outofrange" else .ok fee

namespace CoinsView

/-- One input in the loop of `CheckTxInputs`; the sum of the inputs before it is `nValueIn`. -/
def checkInput (view : CoinsView) (nSpendHeight : Nat) (nValueIn : CAmount) (prevout : COutPoint) :
    Except String CAmount :=
  let coin := view.accessCoin prevout
  if (coin.fCoinBase ∨ coin.fCoinStake) ∧
      (nSpendHeight : Int) - coin.nHeight < COINBASE_MATURITY then
    .error "bad-txns-premature-spend-of-coinbase"
  else if ¬MoneyRange coin.out.nValue ∨ ¬MoneyRange (nValueIn + coin.out.nValue) then
    .error "bad-txns-inputvalues-outofrange"
  else .ok (nValueIn + coin.out.nValue)

/-- `CheckTxInputs` with the fee; that of a coinstake is left at zero. -/
def checkTxInputs (view : CoinsView) (tx : BlockTx) (nSpendHeight : Nat) : Except String CAmount :=
  if tx.isAssetUnlock then getAssetUnlockFee tx
  else if !tx.isCoinBase ∧ tx.vin.any (fun prevout => !view.haveCoin prevout) then
    .error "bad-txns-inputs-missingorspent"
  else
    match tx.vin.foldlM (view.checkInput nSpendHeight) 0 with
    | .error e => .error e
    | .ok nValueIn =>
      if tx.isCoinStake then .ok 0
      else
        match tx.getValueOut with
        | .error e => .error e
        | .ok value_out =>
          if nValueIn < value_out then .error "bad-txns-in-belowout"
          else if ¬MoneyRange (nValueIn - value_out) then .error "bad-txns-fee-outofrange"
          else .ok (nValueIn - value_out)

theorem foldlM_checkInput_ok {view : CoinsView} {nSpendHeight : Nat} {vin : List COutPoint}
    {start nValueIn : CAmount}
    (hinputs : vin.foldlM (view.checkInput nSpendHeight) start = .ok nValueIn) :
    nValueIn = start + (vin.map fun prevout => (view.accessCoin prevout).out.nValue).sum ∧
      ∀ prevout ∈ vin, (view.accessCoin prevout).fCoinBase = true →
        (COINBASE_MATURITY : Int) ≤ nSpendHeight - (view.accessCoin prevout).nHeight := by
  induction vin generalizing start with
  | nil =>
    obtain rfl : start = nValueIn := by simpa [pure, Except.pure] using hinputs
    simp
  | cons prevout vin ih =>
    rw [foldlM_cons] at hinputs
    unfold checkInput at hinputs
    simp only at hinputs
    split at hinputs
    · cases hinputs
    rename_i hmature
    split at hinputs
    · cases hinputs
    obtain ⟨hsum, hrest⟩ := ih hinputs
    refine ⟨?_, ?_⟩
    · rw [hsum, map_cons, sum_cons, add_assoc]
    · intro o ho hcoinbase
      rcases mem_cons.mp ho with rfl | ho
      · by_contra hyoung
        exact hmature ⟨Or.inl hcoinbase, not_le.mp hyoung⟩
      · exact hrest o ho hcoinbase

theorem checkTxInputs_ok {view : CoinsView} {tx : BlockTx} {nSpendHeight : Nat} {txfee : CAmount}
    (hcheck : view.checkTxInputs tx nSpendHeight = .ok txfee) :
    (tx.isAssetUnlock = true → tx.assetUnlockFee = some txfee) ∧
      (tx.isAssetUnlock = false → tx.isCoinStake = false →
        txfee = view.inputValue tx.toCTransaction - tx.valueOut) ∧
      (tx.isAssetUnlock = false → ∀ prevout ∈ tx.vin, (view.accessCoin prevout).fCoinBase = true →
        (COINBASE_MATURITY : Int) ≤ nSpendHeight - (view.accessCoin prevout).nHeight) := by
  unfold checkTxInputs at hcheck
  split at hcheck
  · rename_i hunlock
    refine ⟨?_, by simp [hunlock], by simp [hunlock]⟩
    intro _
    unfold getAssetUnlockFee at hcheck
    split at hcheck
    · cases hcheck
    · rename_i fee hfee
      split at hcheck
      · cases hcheck
      · rw [hfee, Except.ok.inj hcheck]
  rename_i hunlock
  refine ⟨fun h => absurd h hunlock, ?_⟩
  split at hcheck
  · cases hcheck
  split at hcheck
  · cases hcheck
  rename_i nValueIn hinputs
  obtain ⟨hsum, hmature⟩ := foldlM_checkInput_ok hinputs
  rw [zero_add] at hsum
  refine ⟨?_, fun _ => hmature⟩
  intro _ hstake
  rw [hstake] at hcheck
  simp only [Bool.false_eq_true, if_false] at hcheck
  split at hcheck
  · cases hcheck
  rename_i value_out hout
  split at hcheck
  · cases hcheck
  split at hcheck
  · cases hcheck
  rw [← Except.ok.inj hcheck, hsum, CTransaction.getValueOut_ok hout]
  rfl

/-- The coinbase leaves the inputs of a transaction that passes its checks: its own outputs are not
mature. -/
theorem inputValue_of_updateCoins {cb : CTransaction} {tx : BlockTx} {view view' : CoinsView}
    {nHeight : Nat} {txfee : CAmount} (hcoinbase : cb.isCoinBase = true)
    (hupdate : view.updateCoins cb nHeight = .ok view') (hunlock : tx.isAssetUnlock = false)
    (hcheck : view'.checkTxInputs tx nHeight = .ok txfee) :
    view'.inputValue tx.toCTransaction = view.inputValue tx.toCTransaction := by
  unfold inputValue
  congr 1
  refine map_congr_left fun prevout hprevout => ?_
  have hmature := (checkTxInputs_ok hcheck).2.2 hunlock prevout hprevout
  rcases lookup_updateCoins_of_isCoinBase hcoinbase hupdate prevout with hsame | ⟨coin, hnew, hcb, hh⟩
  · rw [accessCoin, accessCoin, hsame]
  · have hcoin : view'.accessCoin prevout = coin := by rw [accessCoin, hnew, Option.getD_some]
    rw [hcoin] at hmature
    have hage := hmature hcb
    rw [hh, sub_self] at hage
    exact absurd hage (by decide)

end CoinsView

end Defcon
