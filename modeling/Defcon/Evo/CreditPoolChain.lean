import Mathlib.Data.Fin.VecNotation
import Defcon.Evo.CreditPool

/-!
# The window and the limits of the credit pool

The check of a block bounds what it unlocks by the limit of the pool before it, and the pool after
it is computed from the balance that the check has compared. So along a chain of checked blocks
the balance stays what was locked minus what was unlocked, the window sum stays the sum over the
window, and the limit stays between zero and the balance.
-/

namespace Defcon.Evo.CreditPool

open Lib List UnorderedLruCache Int
open Lib.BlockTree
open CreditPoolContext (processFrom processLockUnlockTransaction processLockUnlockTransactions)

/-! ### One transaction -/

variable {tx : Transaction} {fWithdrawalsActive : Bool}

theorem getDataFromUnlockTx_eq_ok {unlocked : CAmount} {index : UInt64}
    (hok : getDataFromUnlockTx tx = .ok (unlocked, index)) :
    ∃ assetUnlockTx, tx.assetUnlock = some assetUnlockTx ∧ index = assetUnlockTx.index ∧
      unlocked = assetUnlockTx.fee.toNat + tx.valueOut ∧ 0 ≤ unlocked := by
  have hloop (vout : List CTxOut) (start total : CAmount)
      (hok : vout.foldlM (fun toUnlock txout => do
        refuseIf (¬ MoneyRange txout.nValue) "failed-creditpool-unlock-txout-outofrange"
        pure (toUnlock + txout.nValue)) start = Except.ok total) :
      total = start + (vout.map CTxOut.nValue).sum ∧ start ≤ total := by
    induction vout generalizing start with
    | nil =>
      rw [foldlM_nil, pure_eq_ok] at hok
      simp [hok]
    | cons out vout ih =>
      simp only [foldlM_cons, bind_eq_ok, refuseIf_eq_ok, pure_eq_ok, not_not] at hok
      obtain ⟨mid, ⟨_, hrange, rfl⟩, hrest⟩ := hok
      obtain ⟨htotal, hle⟩ := ih _ hrest
      have := hrange.1
      rw [map_cons, sum_cons]
      constructor <;> linarith
  simp only [getDataFromUnlockTx, bind_eq_ok, need_eq_ok, pure_eq_ok, Prod.mk.injEq] at hok
  obtain ⟨assetUnlockTx, hpayload, total, htotal, rfl, rfl⟩ := hok
  obtain ⟨hsum, hle⟩ := hloop _ _ _ htotal
  exact ⟨assetUnlockTx, hpayload, rfl, hsum, (natCast_nonneg _).trans hle⟩

theorem unlock_eq_of_data (hunlock : tx.isAssetUnlock = true) {unlocked : CAmount} {index : UInt64}
    (hok : getDataFromUnlockTx tx = .ok (unlocked, index)) :
    unlockAmount tx = unlocked ∧ unlockIndex tx = some index ∧ 0 ≤ unlocked := by
  obtain ⟨assetUnlockTx, hpayload, rfl, hamount, hnonneg⟩ := getDataFromUnlockTx_eq_ok hok
  refine ⟨?_, ?_, hnonneg⟩
  · simp [unlockAmount, hunlock, hpayload, hamount]
  · simp [unlockIndex, hunlock, hpayload]

theorem moneyRange_of_addReturn {vout : List CTxOut} {start total : CAmount}
    (hok : vout.foldlM addReturn start = .ok total) {txout : CTxOut} (hmem : txout ∈ vout)
    (hreturn : isOpReturn txout = true) : MoneyRange txout.nValue := by
  induction vout generalizing start with
  | nil => cases hmem
  | cons out vout ih =>
    rw [foldlM_cons, bind_eq_ok] at hok
    obtain ⟨mid, hhead, hrest⟩ := hok
    obtain rfl | hmem := mem_cons.mp hmem
    · simp only [addReturn, hreturn, Bool.not_true, Bool.false_eq_true, if_false, bind_eq_ok,
        refuseIf_eq_ok, not_or, not_not] at hhead
      obtain ⟨_, _, _, ⟨_, hrange⟩, _⟩ := hhead
      exact hrange
    · exact ih hrest hmem

theorem lockAmount_nonneg (hcheck : checkAssetLockTx tx = .ok ()) : 0 ≤ lockAmount tx := by
  simp only [checkAssetLockTx, bind_eq_ok] at hcheck
  obtain ⟨_, _, total, hreturns, _⟩ := hcheck
  unfold lockAmount
  split
  · cases hfind : tx.vout.find? isOpReturn with
    | none => exact le_rfl
    | some txout =>
      exact (moneyRange_of_addReturn hreturns (mem_of_find?_eq_some hfind)
        (find?_some hfind)).1
  · exact le_rfl

theorem isAssetUnlock_of_isAssetLock (hlock : tx.isAssetLock = true) :
    tx.isAssetUnlock = false := by
  simp only [Transaction.isAssetLock, Bool.and_eq_true, beq_iff_eq] at hlock
  simp [Transaction.isAssetUnlock, hlock.2, TRANSACTION_ASSET_LOCK, TRANSACTION_ASSET_UNLOCK]

variable {B : Type} {env : Surroundings B} {pindexPrev : B} {diff diff' : CCreditPoolDiff}

structure Processed (diff diff' : CCreditPoolDiff) (tx : Transaction) : Prop where
  pool_eq : diff'.pool = diff.pool
  platformReward_eq : diff'.platformReward = diff.platformReward
  locked_eq : diff'.sessionLocked = diff.sessionLocked + lockAmount tx
  locked_nonneg : 0 ≤ lockAmount tx
  unlocked_eq : diff'.sessionUnlocked = diff.sessionUnlocked + unlockAmount tx
  unlocked_nonneg : 0 ≤ unlockAmount tx
  unlocked_le : diff.sessionUnlocked ≤ diff.pool.currentLimit →
    diff'.sessionUnlocked ≤ diff.pool.currentLimit
  indexes_eq : diff'.newIndexes = diff.newIndexes ++ (unlockIndex tx).toList
  index_fresh : ∀ index, unlockIndex tx = some index →
    index ∉ diff.newIndexes ∧ diff.pool.indexes.contains index.toNat = false
  data : tx.isAssetUnlock = true → ∃ data, getDataFromUnlockTx tx = .ok data

theorem processLockUnlockTransaction_eq_ok
    (hok : processLockUnlockTransaction env pindexPrev diff tx = .ok diff') :
    Processed diff diff' tx := by
  unfold processLockUnlockTransaction at hok
  by_cases hlock : tx.isAssetLock = true
  · have hunlock := isAssetUnlock_of_isAssetLock hlock
    rw [if_pos hlock, bind_eq_ok] at hok
    obtain ⟨_, hcheck, hok⟩ := hok
    simp only [CCreditPoolDiff.lock, bind_eq_ok, need_eq_ok, pure_eq_ok] at hok
    obtain ⟨_, _, txout, hfind, rfl⟩ := hok
    constructor <;> simp [lockAmount, unlockAmount, unlockIndex, hlock, hunlock, hfind]
    simpa [lockAmount, hlock, hfind] using lockAmount_nonneg hcheck
  · rw [if_neg hlock] at hok
    rw [Bool.not_eq_true] at hlock
    split at hok
    next hunlock =>
      rw [bind_eq_ok] at hok
      obtain ⟨_, _, hok⟩ := hok
      simp only [CCreditPoolDiff.unlock, bind_eq_ok, refuseIf_eq_ok, pure_eq_ok] at hok
      obtain ⟨⟨toUnlock, index⟩, hdata, _, hlimit, _, hfresh, rfl⟩ := hok
      obtain ⟨hunlocked, hindex, hnonneg⟩ := unlock_eq_of_data hunlock hdata
      rw [not_or, Bool.not_eq_true] at hfresh
      constructor <;> simp [lockAmount, hlock, hunlocked, hindex, hnonneg, hfresh]
      · intro _
        exact not_lt.mp hlimit
      · exact fun _ => ⟨_, _, hdata⟩
    next hunlock =>
      cases hok
      rw [Bool.not_eq_true] at hunlock
      constructor <;> simp [lockAmount, unlockAmount, unlockIndex, hlock, hunlock]

/-! ### Packages -/

theorem foldl_erase_append {l inserted : List UInt64} (hfresh : ∀ i ∈ inserted, i ∉ l) :
    inserted.foldl List.erase (l ++ inserted) = l := by
  induction inserted with
  | nil => exact append_nil l
  | cons i inserted ih =>
    rw [forall_mem_cons] at hfresh
    rw [foldl_cons, erase_append_right _ hfresh.1, erase_cons_head]
    exact ih hfresh.2

theorem processFrom_eq {initial : CCreditPoolDiff} {inserted : List UInt64}
    (hpool : diff.pool = initial.pool) (hreward : diff.platformReward = initial.platformReward)
    (hindexes : diff.newIndexes = initial.newIndexes ++ inserted)
    (hfresh : ∀ i ∈ inserted, i ∉ initial.newIndexes) (txs : List Transaction) :
    processFrom env pindexPrev initial inserted diff txs =
      match txs.foldlM (processLockUnlockTransaction env pindexPrev) diff with
      | .ok diff' => (.ok (), diff')
      | .error state => (.error state, initial) := by
  induction txs generalizing diff inserted with
  | nil => rfl
  | cons tx txs ih =>
    rw [processFrom, foldlM_cons]
    cases hstep : processLockUnlockTransaction env pindexPrev diff tx with
    | error state =>
      dsimp only [bind, Except.bind]
      rw [hindexes, foldl_erase_append hfresh, hpool, hreward]
    | ok diff' =>
      have hdone := processLockUnlockTransaction_eq_ok hstep
      refine ih (hdone.pool_eq.trans hpool) (hdone.platformReward_eq.trans hreward) ?_ ?_
      · rw [hdone.indexes_eq, hindexes, append_assoc]
      · intro i hi
        rcases mem_append.mp hi with hi | hi
        · exact hfresh i hi
        · have hnew := (hdone.index_fresh i (Option.mem_toList.mp hi)).1
          rw [hindexes, mem_append, not_or] at hnew
          exact hnew.1

/-! ### The transactions of a block -/

structure AllProcessed (diff diff' : CCreditPoolDiff) (txs : List Transaction) : Prop where
  pool_eq : diff'.pool = diff.pool
  platformReward_eq : diff'.platformReward = diff.platformReward
  locked_eq : diff'.sessionLocked = diff.sessionLocked + (txs.map lockAmount).sum
  locked_nonneg : 0 ≤ (txs.map lockAmount).sum
  unlocked_eq : diff'.sessionUnlocked = diff.sessionUnlocked + (txs.map unlockAmount).sum
  unlocked_nonneg : 0 ≤ (txs.map unlockAmount).sum
  unlocked_le : diff.sessionUnlocked ≤ diff.pool.currentLimit →
    diff'.sessionUnlocked ≤ diff.pool.currentLimit
  indexes_nodup : diff.newIndexes.Nodup → (diff.newIndexes ++ txs.filterMap unlockIndex).Nodup
  index_fresh : ∀ index ∈ txs.filterMap unlockIndex,
    diff.pool.indexes.contains index.toNat = false
  data : ∀ tx ∈ txs, tx.isAssetUnlock = true → ∃ data, getDataFromUnlockTx tx = .ok data

theorem foldlM_process_eq_ok {txs : List Transaction}
    (hok : txs.foldlM (processLockUnlockTransaction env pindexPrev) diff =
      .ok diff') : AllProcessed diff diff' txs := by
  induction txs generalizing diff with
  | nil =>
    rw [foldlM_nil, pure_eq_ok] at hok
    subst hok
    constructor <;> simp
  | cons tx txs ih =>
    rw [foldlM_cons, bind_eq_ok] at hok
    obtain ⟨mid, hhead, hrest⟩ := hok
    have hhead := processLockUnlockTransaction_eq_ok hhead
    have hrest := ih hrest
    have hcons : (tx :: txs).filterMap unlockIndex =
        (unlockIndex tx).toList ++ txs.filterMap unlockIndex := by
      simp [filterMap_eq_flatMap_toList]
    refine ⟨hrest.pool_eq.trans hhead.pool_eq,
      hrest.platformReward_eq.trans hhead.platformReward_eq, ?_, ?_, ?_, ?_, ?_, ?_, ?_, ?_⟩
    · rw [hrest.locked_eq, hhead.locked_eq, map_cons, sum_cons, add_assoc]
    · exact add_nonneg hhead.locked_nonneg hrest.locked_nonneg
    · rw [hrest.unlocked_eq, hhead.unlocked_eq, map_cons, sum_cons, add_assoc]
    · exact add_nonneg hhead.unlocked_nonneg hrest.unlocked_nonneg
    · intro hle
      have hle := hrest.unlocked_le (by rw [hhead.pool_eq]; exact hhead.unlocked_le hle)
      rwa [hhead.pool_eq] at hle
    · intro hnodup
      have hmid : mid.newIndexes.Nodup := by
        rw [hhead.indexes_eq]
        cases hindex : unlockIndex tx with
        | none => simpa using hnodup
        | some index =>
          rw [Option.toList_some, nodup_append]
          refine ⟨hnodup, nodup_singleton _, ?_⟩
          rintro i hi j hj rfl
          exact (hhead.index_fresh index hindex).1 (mem_singleton.mp hj ▸ hi)
      have hall := hrest.indexes_nodup hmid
      rwa [hhead.indexes_eq, append_assoc, ← hcons] at hall
    · intro index hindex
      rw [hcons, mem_append, Option.mem_toList] at hindex
      obtain hindex | hindex := hindex
      · exact (hhead.index_fresh index hindex).2
      · rw [← hhead.pool_eq]
        exact hrest.index_fresh index hindex
    · intro tx' hmem hunlock
      obtain rfl | hmem := mem_cons.mp hmem
      · exact hhead.data hunlock
      · exact hrest.data tx' hmem hunlock

/-- **A package is processed as a whole or not at all**, and over any number of packages what is
unlocked stays within the limit of the pool. -/
theorem packages_atomic (ctx : CreditPoolContext B) (pindexPrev : B) {starter : CCreditPool}
    (hstarter : 0 ≤ starter.currentLimit) :
    (∀ (env : Surroundings B) (diff : CCreditPoolDiff) (txs : List Transaction),
      processLockUnlockTransactions env pindexPrev diff txs =
        match txs.foldlM (processLockUnlockTransaction env pindexPrev) diff with
        | .ok diff' => (.ok (), diff')
        | .error state => (.error state, diff)) ∧
    ∀ packages : List (Surroundings B × List Transaction),
      (packages.foldl (fun diff (env, txs) =>
        (processLockUnlockTransactions env pindexPrev diff txs).2)
        (ctx.newDiff starter pindexPrev)).sessionUnlocked ≤ starter.currentLimit := by
  have hatomic (env : Surroundings B) (diff : CCreditPoolDiff) (txs : List Transaction) :=
    @processFrom_eq _ env pindexPrev diff diff [] rfl rfl (append_nil _).symm nofun txs
  refine ⟨hatomic, fun packages => ?_⟩
  have hnew : (ctx.newDiff starter pindexPrev).pool = starter ∧
      (ctx.newDiff starter pindexPrev).sessionUnlocked ≤ starter.currentLimit := ⟨rfl, hstarter⟩
  generalize ctx.newDiff starter pindexPrev = diff at hnew ⊢
  induction packages generalizing diff with
  | nil => exact hnew.2
  | cons package packages ih =>
    refine ih _ ?_
    dsimp only
    rw [processLockUnlockTransactions, hatomic]
    split
    next diff' hall =>
      have hall := foldlM_process_eq_ok hall
      obtain ⟨rfl, hle⟩ := hnew
      exact ⟨hall.pool_eq, hall.unlocked_le hle⟩
    · exact hnew

theorem getDataFromUnlockTxes_eq_ok {vtx : List Transaction}
    (hdata : ∀ tx ∈ vtx, tx.isAssetUnlock = true → ∃ data, getDataFromUnlockTx tx = .ok data)
    (hnodup : (vtx.filterMap unlockIndex).Nodup) :
    getDataFromUnlockTxes vtx = .ok ⟨(vtx.map unlockAmount).sum, vtx.filterMap unlockIndex⟩ := by
  have hloop (txs : List Transaction) (blockData : UnlockDataPerBlock)
      (hdata : ∀ tx ∈ txs, tx.isAssetUnlock = true → ∃ data, getDataFromUnlockTx tx = .ok data)
      (hnodup : (blockData.indexes ++ txs.filterMap unlockIndex).Nodup) :
      txs.foldlM addUnlockData blockData = .ok ⟨blockData.unlocked + (txs.map unlockAmount).sum,
        blockData.indexes ++ txs.filterMap unlockIndex⟩ := by
    induction txs generalizing blockData with
    | nil => simp [pure, Except.pure]
    | cons tx txs ih =>
      rw [foldlM_cons]
      by_cases hunlock : tx.isAssetUnlock = true
      · obtain ⟨⟨unlocked, index⟩, hok⟩ := hdata tx mem_cons_self hunlock
        obtain ⟨hunlocked, hindex, -⟩ := unlock_eq_of_data hunlock hok
        rw [filterMap_cons_some hindex] at hnodup ⊢
        have hnew : index ∉ blockData.indexes := fun hmem =>
          disjoint_of_nodup_append hnodup hmem mem_cons_self
        have hhead : addUnlockData blockData tx = .ok ⟨blockData.unlocked + unlocked,
            blockData.indexes ++ [index]⟩ := by
          simp [addUnlockData, hunlock, hok, hnew, bind, Except.bind, pure, Except.pure]
        rw [hhead]
        refine (ih _ (fun tx hmem => hdata tx (mem_cons_of_mem _ hmem)) ?_).trans ?_
        · simpa using hnodup
        · simp [hunlocked, add_assoc]
      · rw [Bool.not_eq_true] at hunlock
        have hindex : unlockIndex tx = none := by simp [unlockIndex, hunlock]
        rw [filterMap_cons_none hindex] at hnodup ⊢
        have hhead : addUnlockData blockData tx = .ok blockData := by
          simp [addUnlockData, hunlock]
        rw [hhead]
        refine (ih _ (fun tx hmem => hdata tx (mem_cons_of_mem _ hmem)) hnodup).trans ?_
        simp [unlockAmount, hunlock]
  unfold getDataFromUnlockTxes
  rw [hloop vtx ⟨0, []⟩ hdata (by simpa using hnodup)]
  simp

theorem foldlM_addIndex {new : List UInt64} {indexes : CRangesSet}
    (hindexes : CRangesSet.Separated indexes.ranges) (hnodup : new.Nodup)
    (hnew : ∀ index ∈ new, index.toNat ∉ indexes ∧ index.toNat + 1 < 2 ^ 64) :
    ∃ indexes', new.foldlM addIndex indexes = .ok indexes' ∧
      CRangesSet.Separated indexes'.ranges := by
  induction new generalizing indexes with
  | nil => exact ⟨indexes, rfl, hindexes⟩
  | cons index new ih =>
    rw [nodup_cons] at hnodup
    obtain ⟨hfresh, hlt⟩ := hnew index mem_cons_self
    obtain ⟨mid, hadd, hmid, hmem⟩ := CRangesSet.add_eq_some hindexes hfresh hlt
    have hhead : addIndex indexes index = .ok mid := by simp [addIndex, hadd]
    rw [foldlM_cons, hhead]
    refine ih hmid hnodup.2 fun index' hindex' => ⟨fun hin => ?_, ?_⟩
    · obtain heq | hin := (hmem _).mp hin
      · exact hnodup.1 (UInt64.toNat_inj.mp heq ▸ hindex')
      · exact (hnew index' (mem_cons_of_mem _ hindex')).1 hin
    · exact (hnew index' (mem_cons_of_mem _ hindex')).2

/-! ### The limit -/

theorem unlockLimit_nonneg {locked lately : CAmount} (hlocked : 0 ≤ locked)
    (hlately : fWithdrawalsActive = false → lately ≤ LimitAmountHigh) :
    0 ≤ unlockLimit fWithdrawalsActive locked lately := by
  cases fWithdrawalsActive with
  | true => exact le_min hlocked (by decide)
  | false =>
    have hlately := hlately rfl
    refine le_min ?_ (sub_nonneg_of_le hlately)
    split
    · exact le_max_left _ _
    · exact hlocked

theorem unlockLimit_le {locked lately : CAmount} (hlocked : 0 ≤ locked) (hlately : 0 ≤ lately) :
    unlockLimit fWithdrawalsActive locked lately ≤ locked := by
  cases fWithdrawalsActive with
  | true => exact min_le_left _ _
  | false =>
    refine (min_le_left _ _).trans ?_
    split
    next hlow =>
      have htenth : locked.tdiv 10 ≤ locked := by
        rw [tdiv_eq_ediv_of_nonneg hlocked]
        exact ediv_le_self 10 hlocked
      refine max_le hlocked ?_
      rcases le_total LimitAmountLow (locked.tdiv 10) with hle | hle
      · rw [max_eq_right hle]
        linarith
      · rw [max_eq_left hle]
        linarith
    · exact le_rfl

theorem unlockLimit_add_le {locked lately : CAmount} :
    lately + unlockLimit false locked lately ≤ LimitAmountHigh := by
  have hmin : unlockLimit false locked lately ≤ LimitAmountHigh - lately := min_le_right _ _
  linarith

/-! ### Sums along a line -/

namespace CreditPoolContext

variable {ctx : CreditPoolContext B} {b p : B} {s : CCreditPoolManager B} {pool : CCreditPool}

theorem balance_some (b : B) :
    ctx.balance (some b) = ctx.balance (ctx.tree.parent b) +
      (ctx.blockLocked b + ctx.platformReward (ctx.tree.height b) - ctx.blockUnlocked b) := by
  rw [balance, balance, lineTo, line_eq, map_append, sum_append]
  simp

theorem windowUnlocked_some (b : B) :
    ctx.windowUnlocked (some b) = ctx.windowUnlocked (ctx.tree.parent b) + ctx.blockUnlocked b -
      ((ctx.tree.up ctx.creditPoolPeriodBlocks b).map ctx.blockUnlocked).getD 0 := by
  rw [windowUnlocked, windowUnlocked, ← getElem?_reverse_line, lineTo,
    line_eq, reverse_append, reverse_singleton, singleton_append]
  cases ctx.creditPoolPeriodBlocks with
  | zero => simp
  | succ n =>
    rw [take_succ_cons, getElem?_cons_succ, take_add_one, map_cons, sum_cons,
      map_append, sum_append]
    cases (ctx.tree.lineTo (ctx.tree.parent b)).reverse[n]? <;> simp <;> ring

/-! ### What an accepted block satisfies -/

variable (ctx) in
structure Checked (pool : CCreditPool) (pindex : B) : Prop where
  coinbase : ∃ coinbase rest, ctx.vtx pindex = coinbase :: rest ∧
    coinbase.hasExtraPayload = true ∧ coinbase.isSpecialTxVersion = true ∧
    coinbase.creditPoolBalance = some (pool.locked + ctx.blockLocked pindex -
      ctx.blockUnlocked pindex + ctx.platformReward (ctx.tree.height pindex))
  locked_nonneg : 0 ≤ ctx.blockLocked pindex
  unlocked_nonneg : 0 ≤ ctx.blockUnlocked pindex
  unlocked_le : 0 ≤ pool.currentLimit → ctx.blockUnlocked pindex ≤ pool.currentLimit
  indexes_nodup : (ctx.blockIndexes pindex).Nodup
  index_fresh : ∀ index ∈ ctx.blockIndexes pindex, pool.indexes.contains index.toNat = false
  data : ∀ tx ∈ ctx.vtx pindex, tx.isAssetUnlock = true →
    ∃ data, getDataFromUnlockTx tx = .ok data

theorem checkDiff_eq_ok (hp : ctx.tree.parent b = some p)
    (hok : ctx.checkDiff env p pool (ctx.vtx b) = .ok ()) : ctx.Checked pool b := by
  simp only [checkDiff, bind_eq_ok, need_eq_ok, refuseIf_eq_ok, not_not] at hok
  obtain ⟨diff, hfold, tx, hhead, _, htype, balance, hbalance, heq⟩ := hok
  have hall := foldlM_process_eq_ok hfold
  obtain ⟨rest, hvtx⟩ := head?_eq_some_iff.mp hhead
  rw [hvtx, tail_cons] at hall
  simp only [Bool.or_eq_true, Bool.not_eq_true', bne_iff_ne, ne_eq, not_or, Bool.not_eq_false,
    not_not] at htype
  -- the coinbase neither locks nor unlocks
  have hlock : tx.isAssetLock = false := by
    simp [Transaction.isAssetLock, htype.2, TRANSACTION_ASSET_LOCK, TRANSACTION_COINBASE]
  have hunlock : tx.isAssetUnlock = false := by
    simp [Transaction.isAssetUnlock, htype.2, TRANSACTION_ASSET_UNLOCK, TRANSACTION_COINBASE]
  have hlocked : ctx.blockLocked b = (rest.map lockAmount).sum := by
    simp [blockLocked, hvtx, lockAmount, hlock]
  have hunlocked : ctx.blockUnlocked b = (rest.map unlockAmount).sum := by
    simp [blockUnlocked, hvtx, unlockAmount, hunlock]
  have hindexes : ctx.blockIndexes b = rest.filterMap unlockIndex := by
    simp [blockIndexes, hvtx, unlockIndex, hunlock]
  have hextra : tx.hasExtraPayload = true ∧ tx.creditPoolBalance = some balance := by
    split at hbalance
    · exact ⟨‹_›, hbalance⟩
    · cases hbalance
  refine ⟨⟨tx, rest, hvtx, hextra.1, htype.1.2, ?_⟩, ?_, ?_, fun hlimit => ?_, ?_, ?_, ?_⟩
  · rw [hextra.2, heq, CCreditPoolDiff.getTotalLocked, hall.pool_eq, hall.locked_eq,
      hall.unlocked_eq, hall.platformReward_eq, hlocked, hunlocked, ctx.tree.height_parent hp]
    simp [newDiff]
  · rw [hlocked]
    exact hall.locked_nonneg
  · rw [hunlocked]
    exact hall.unlocked_nonneg
  · have hle := hall.unlocked_le hlimit
    rw [hall.unlocked_eq] at hle
    rw [hunlocked]
    simpa [newDiff] using hle
  · rw [hindexes]
    exact hall.indexes_nodup nodup_nil
  · rw [hindexes]
    exact hall.index_fresh
  · rw [hvtx]
    intro tx' hmem hunlock'
    obtain rfl | hmem := mem_cons.mp hmem
    · rw [hunlock] at hunlock'
      cases hunlock'
    · exact hall.data tx' hmem hunlock'

/-! ### The stores -/

variable {readable : B → Bool} {pindex : Option B}

theorem chainPool_early (hearly : ¬ctx.V20Height ≤ ctx.tree.height b) :
    ctx.chainPool (some b) = .ok .empty := by
  refine (valueAt_some _ _ _).trans ?_
  rw [deploymentActiveAt, decide_eq_false hearly]
  rfl

theorem chainPool_active (hactive : ctx.V20Height ≤ ctx.tree.height b) :
    ctx.chainPool (some b) =
      ctx.chainPool (ctx.tree.parent b) >>= ctx.constructPool (fun _ => true) b := by
  refine (valueAt_some _ _ _).trans ?_
  rw [deploymentActiveAt, decide_eq_true hactive]
  rfl

theorem getBlockForCreditPool_mono {vtx : Option (List Transaction)}
    (hok : ctx.getBlockForCreditPool readable b = .ok vtx) :
    ctx.getBlockForCreditPool (fun _ => true) b = .ok vtx := by
  unfold getBlockForCreditPool at hok ⊢
  split at hok
  · rw [if_pos ‹_›]
    exact hok
  · rw [if_neg ‹_›]
    split at hok
    · cases hok
    · exact hok

theorem getBlockForCreditPool_readable (hreadable : readable b = true) :
    ctx.getBlockForCreditPool readable b = ctx.getBlockForCreditPool (fun _ => true) b := by
  simp only [getBlockForCreditPool, hreadable]

theorem unlockedIn_mono {unlocked : CAmount} (hok : ctx.unlockedIn readable b = .ok unlocked) :
    ctx.unlockedIn (fun _ => true) b = .ok unlocked := by
  rw [unlockedIn, bind_eq_ok] at hok ⊢
  obtain ⟨vtx, hblock, hrest⟩ := hok
  exact ⟨vtx, getBlockForCreditPool_mono hblock, hrest⟩

theorem distantUnlocked_mono {unlocked : CAmount}
    (hok : ctx.distantUnlocked readable b = .ok unlocked) :
    ctx.distantUnlocked (fun _ => true) b = .ok unlocked := by
  unfold distantUnlocked at hok ⊢
  split at hok
  · exact hok
  · exact unlockedIn_mono hok

variable {prev : CCreditPool}

theorem constructPool_mono {pool : CCreditPool} (hok : ctx.constructPool readable b prev = .ok pool) :
    ctx.constructPool (fun _ => true) b prev = .ok pool := by
  rw [constructPool, bind_eq_ok] at hok ⊢
  obtain ⟨vtx, hblock, hrest⟩ := hok
  refine ⟨vtx, getBlockForCreditPool_mono hblock, ?_⟩
  cases vtx with
  | none => exact hrest
  | some vtx =>
    simp only [bind_eq_ok] at hrest ⊢
    obtain ⟨locked, hlocked, blockData, hdata, indexes, hindexes, distant, hdistant, hrest⟩ := hrest
    exact ⟨locked, hlocked, blockData, hdata, indexes, hindexes, distant,
      distantUnlocked_mono hdistant, hrest⟩

theorem constructPool_readable (hreadable : ∀ c, ctx.tree.Ancestor c b → readable c = true) :
    ctx.constructPool readable b prev = ctx.constructPool (fun _ => true) b prev := by
  have hdistant : ctx.distantUnlocked readable b = ctx.distantUnlocked (fun _ => true) b := by
    unfold distantUnlocked
    cases hup : ctx.tree.up ctx.creditPoolPeriodBlocks b with
    | none => rfl
    | some d =>
      simp only [unlockedIn, getBlockForCreditPool_readable (hreadable d (ancestor_of_up hup))]
  simp only [constructPool, hdistant, getBlockForCreditPool_readable (hreadable b (.refl b))]

variable (ctx) in
structure Coherent (s : CCreditPoolManager B) : Prop where
  cached : ∀ {b pool}, ctx.V20Height ≤ ctx.tree.height b →
    s.creditPoolCache.find (ctx.getBlockHash b) = some pool → ctx.chainPool (some b) = .ok pool
  stored : ∀ {b pool}, ctx.V20Height ≤ ctx.tree.height b →
    s.snapshots.lookup (ctx.getBlockHash b) = some pool → ctx.chainPool (some b) = .ok pool

variable (ctx env) in
def Holds (s : CCreditPoolManager B) : Prop :=
  ctx.Coherent s ∧ s.env = env

theorem Coherent.remember (hs : ctx.Coherent s) (hpool : ctx.chainPool (some b) = .ok pool) :
    ctx.Coherent { s with
      creditPoolCache := s.creditPoolCache.insert (ctx.getBlockHash b) pool } := by
  refine ⟨fun {c v} hactive hfind => ?_, hs.stored⟩
  have hinsert := find_insert hfind
  split at hinsert
  next heq =>
    rw [ctx.getBlockHash_injective heq, hinsert]
    exact hpool
  · exact hs.cached hactive hinsert

theorem Holds.addToCache (hs : ctx.Holds env s) (hpool : ctx.chainPool (some b) = .ok pool) :
    ctx.Holds env (ctx.addToCache b pool s) := by
  have hcached := hs.1.remember hpool
  unfold CreditPoolContext.addToCache
  split
  · refine ⟨⟨hcached.cached, fun {c v} hactive hlookup => ?_⟩, hs.2⟩
    rcases AList.lookup_of_insert hlookup with ⟨heq, rfl⟩ | hlookup
    · rw [ctx.getBlockHash_injective heq]
      exact hpool
    · exact hs.1.stored hactive hlookup
  · exact ⟨hcached, hs.2⟩

variable (ctx) in
def HasPool (pindex : Option B) (pool : CCreditPool) : Prop :=
  ctx.chainPool pindex = .ok pool

theorem getFromCache_probes (b : B) (hs : ctx.Holds env s) :
    Probes (ctx.Holds env) (ctx.HasPool (some b))
      (ctx.V20Height ≤ ctx.tree.height b) (ctx.getFromCache b s) := by
  unfold getFromCache
  by_cases hactive : ctx.V20Height ≤ ctx.tree.height b
  · rw [deploymentActiveAt, decide_eq_true hactive, Bool.not_true, if_neg Bool.false_ne_true]
    have hfind := find_get s.creditPoolCache (ctx.getBlockHash b)
    have hfst := get_fst s.creditPoolCache (ctx.getBlockHash b)
    dsimp only
    generalize s.creditPoolCache.get (ctx.getBlockHash b) = found at hfind hfst ⊢
    obtain ⟨found, creditPoolCache⟩ := found
    have hs' : ctx.Coherent { s with creditPoolCache } :=
      ⟨fun hactive hc => hs.1.cached hactive (hfind ▸ hc), hs.1.stored⟩
    have hmiss : Probes (ctx.Holds env) (ctx.HasPool (some b))
        (ctx.V20Height ≤ ctx.tree.height b) (none, { s with creditPoolCache }) :=
      ⟨⟨hs', hs.2⟩, (nomatch ·), fun _ => hactive⟩
    cases found with
    | some pool =>
      have hpool := hs.1.cached hactive hfst.symm
      exact ⟨⟨hs', hs.2⟩, fun hv => Option.some.inj hv ▸ hpool, (nomatch ·)⟩
    | none =>
      dsimp only
      split
      · split
        next pool hlookup =>
          have hpool := hs.1.stored hactive hlookup
          exact ⟨⟨hs'.remember hpool, hs.2⟩, fun hv => Option.some.inj hv ▸ hpool, (nomatch ·)⟩
        · exact hmiss
      · exact hmiss
  · rw [deploymentActiveAt, decide_eq_false hactive, Bool.not_false, if_pos rfl]
    refine ⟨hs, fun hv => ?_, (nomatch ·)⟩
    rw [HasPool, chainPool_early hactive, ← Option.some.inj hv]

theorem constructCreditPool_spec (hs : ctx.Holds env s)
    (hactive : ctx.V20Height ≤ ctx.tree.height b)
    (hprev : ctx.chainPool (ctx.tree.parent b) = .ok prev) :
    Sound (ctx.Holds env) (ctx.HasPool (some b)) (ctx.constructCreditPool b prev s) ∧
      ((∀ c, ctx.tree.Ancestor c b → env.readable c = true) ∧
          (∃ pool, ctx.chainPool (some b) = .ok pool) →
        ∃ pool, (ctx.constructCreditPool b prev s).1 = .ok pool) := by
  have hchain : ctx.chainPool (some b) = ctx.constructPool (fun _ => true) b prev := by
    rw [chainPool_active hactive, hprev]
    rfl
  unfold constructCreditPool
  split
  next hfailed =>
    refine ⟨⟨hs, (nomatch ·)⟩, ?_⟩
    rintro ⟨hreadable, pool, hpool⟩
    rw [hs.2, constructPool_readable hreadable, ← hchain, hpool] at hfailed
    cases hfailed
  next pool hpool =>
    rw [constructPool_mono hpool] at hchain
    exact ⟨⟨hs.addToCache hchain, fun hv => Except.ok.inj hv ▸ hchain⟩, fun _ => ⟨pool, rfl⟩⟩

theorem getCreditPool_spec (b : B) (hs : ctx.Holds env s) :
    Sound (ctx.Holds env) (ctx.HasPool (some b)) (ctx.getCreditPool (some b) s) ∧
      ((∀ c, ctx.tree.Ancestor c b → (∀ d, ctx.tree.Ancestor d c → env.readable d = true) ∧
          ∃ pool, ctx.chainPool (some c) = .ok pool) →
        ∃ pool, (ctx.getCreditPool (some b) s).1 = .ok pool) := by
  have hempty : ctx.HasPool none .empty := rfl
  obtain ⟨hsound, hreturns⟩ := lazyValue_spec (c := b) hempty
    (fun c {_} hs => getFromCache_probes c hs)
    (fun c {_ _} _ hactive hs hprev => constructCreditPool_spec hs hactive hprev) hs
  exact ⟨hsound, fun hall => hreturns fun c hc _ => hall c hc⟩

theorem getCreditPool_sound (pindex : Option B) (hs : ctx.Holds env s) :
    Sound (ctx.Holds env) (ctx.HasPool pindex) (ctx.getCreditPool pindex s) := by
  cases pindex with
  | none => exact ⟨hs, fun hv => Except.ok.inj hv ▸ rfl⟩
  | some b => exact (getCreditPool_spec b hs).1

theorem start_coherent (env : Surroundings B) : ctx.Coherent (start env) := by
  constructor <;> intro b pool _ hfound <;> simp [start, emptyCache, new,
    find] at hfound

theorem checkCreditPoolDiffForBlock_holds (b : B) (hs : ctx.Holds env s) :
    ctx.Holds env (ctx.checkCreditPoolDiffForBlock b s).2 := by
  unfold checkCreditPoolDiffForBlock
  split_ifs
  · exact hs
  · exact hs
  · exact hs
  · have hcall := (getCreditPool_sound (ctx.tree.parent b) hs).inv
    split
    next heq =>
      rw [heq] at hcall
      exact hcall
    next heq =>
      rw [heq] at hcall
      split <;> exact hcall

theorem Coherent.step (hs : ctx.Coherent s) (op : PoolOp B) : ctx.Coherent (ctx.step s op) := by
  have hholds : ctx.Holds s.env s := ⟨hs, rfl⟩
  cases op with
  | getCreditPool pindex => exact (getCreditPool_sound pindex hholds).inv.1
  | checkCreditPoolDiffForBlock b => exact (checkCreditPoolDiffForBlock_holds b hholds).1
  | rollback lost =>
    exact ⟨hs.cached, fun hactive hlookup => hs.stored hactive (AList.lookup_of_eraseIf hlookup)⟩
  | restart => exact ⟨(start_coherent s.env).cached, hs.stored⟩
  | surroundings env => exact ⟨hs.cached, hs.stored⟩

theorem Reached.coherent (hs : ctx.Reached s) : ctx.Coherent s := by
  obtain ⟨env, ops, hrun⟩ := hs
  refine hrun.invariant (fun hs hstep => ?_) (start_coherent env)
  obtain rfl := hstep
  exact hs.step _

theorem Accepted.checked (haccepted : ctx.Accepted b)
    (hactive : ctx.V20Height ≤ ctx.tree.height b) :
    ∃ p pool, ctx.tree.parent b = some p ∧ ctx.chainPool (some p) = .ok pool ∧
      ctx.Checked pool b := by
  obtain ⟨s, hs, hok⟩ := haccepted
  have hactive3 := ctx.dip0003_le_v20.trans hactive
  have hactive8 := ctx.dip0008_le_v20.trans hactive
  have hcall := getCreditPool_sound (ctx.tree.parent b) ⟨hs.coherent, rfl⟩
  simp only [checkCreditPoolDiffForBlock, deploymentActiveAt, decide_eq_true hactive,
    decide_eq_true hactive3, decide_eq_true hactive8, Bool.not_true, Bool.false_eq_true,
    if_false] at hok
  split at hok
  · cases hok
  next pool s' heq =>
    rw [heq] at hcall
    have hpool := hcall.good rfl
    split at hok
    · cases hok
    next p hp =>
      rw [hp] at hpool
      exact ⟨p, pool, hp, hpool, checkDiff_eq_ok hp hok⟩

/-! ### Along a chain of accepted blocks -/

variable (ctx) in
/-- An accepted block that neither locks nor unlocks before V20, nor unlocks with the largest index.
-/
structure Sane (pindex : B) : Prop where
  accepted : ctx.Accepted pindex
  early : ctx.tree.height pindex < ctx.V20Height → ctx.NoAssets pindex
  index : ∀ index ∈ ctx.blockIndexes pindex, index.toNat + 1 < 2 ^ 64

variable (ctx) in
structure PoolFacts (pindex : Option B) (pool : CCreditPool) : Prop where
  locked_eq : pool.locked = ctx.balance pindex
  locked_nonneg : 0 ≤ pool.locked
  latelyUnlocked_eq : pool.latelyUnlocked = ctx.windowUnlocked pindex
  limit_nonneg : 0 ≤ pool.currentLimit
  limit_le : pool.currentLimit ≤ pool.locked
  limit_window : ∀ b, pindex = some b → ctx.withdrawalsActiveAt b = false →
    pool.latelyUnlocked + pool.currentLimit ≤ LimitAmountHigh
  indexes : CRangesSet.Separated pool.indexes.ranges
  /-- When a block of the line leaves the window, what it unlocked is read back. -/
  unlockedIn : ∀ c ∈ ctx.tree.lineTo pindex,
    ctx.unlockedIn (fun _ => true) c = .ok (ctx.blockUnlocked c) ∧ 0 ≤ ctx.blockUnlocked c

theorem sum_map_eq_zero {α : Type*} {f : α → CAmount} {l : List α} (hzero : ∀ a ∈ l, f a = 0) :
    (l.map f).sum = 0 :=
  sum_eq_zero fun _ hamount => by
    obtain ⟨a, ha, rfl⟩ := mem_map.mp hamount
    exact hzero a ha

theorem NoAssets.data (hnone : ctx.NoAssets b) : getDataFromUnlockTxes (ctx.vtx b) = .ok ⟨0, []⟩ ∧
    ctx.blockUnlocked b = 0 ∧ ctx.blockLocked b = 0 := by
  have hunlocked : ctx.blockUnlocked b = 0 :=
    sum_map_eq_zero fun tx htx => by simp [unlockAmount, (hnone tx htx).2]
  have hlocked : ctx.blockLocked b = 0 :=
    sum_map_eq_zero fun tx htx => by simp [lockAmount, (hnone tx htx).1]
  have hindexes : (ctx.vtx b).filterMap unlockIndex = [] := by
    refine filterMap_eq_nil_iff.mpr fun tx htx => ?_
    simp [unlockIndex, (hnone tx htx).2]
  have hdata := @getDataFromUnlockTxes_eq_ok (ctx.vtx b)
    (fun tx htx hunlock => by simp [(hnone tx htx).2] at hunlock) (by simp [hindexes])
  rw [hindexes, show ((ctx.vtx b).map unlockAmount).sum = 0 from hunlocked] at hdata
  exact ⟨hdata, hunlocked, hlocked⟩

theorem unlockedIn_of_noAssets (hnone : ctx.NoAssets b) :
    ctx.unlockedIn (fun _ => true) b = .ok (ctx.blockUnlocked b) := by
  obtain ⟨hdata, hunlocked, -⟩ := hnone.data
  rw [hunlocked, CreditPoolContext.unlockedIn, bind_eq_ok]
  unfold getBlockForCreditPool
  split
  · exact ⟨none, rfl, rfl⟩
  · simp only [Bool.not_true, Bool.false_eq_true, if_false]
    split
    · exact ⟨none, rfl, rfl⟩
    next coinbase rest hvtx =>
      split
      · exact ⟨none, rfl, rfl⟩
      · refine ⟨some (coinbase :: rest), rfl, ?_⟩
        rw [← hvtx]
        show (getDataFromUnlockTxes (ctx.vtx b) >>= _) = _
        rw [hdata]
        rfl

theorem Checked.block (hchecked : ctx.Checked pool b)
    (hactive : ctx.V20Height ≤ ctx.tree.height b) :
    ctx.getBlockForCreditPool (fun _ => true) b = .ok (some (ctx.vtx b)) ∧
      (ctx.vtx b).head?.bind Transaction.creditPoolBalance = some (pool.locked +
        ctx.blockLocked b - ctx.blockUnlocked b + ctx.platformReward (ctx.tree.height b)) ∧
      getDataFromUnlockTxes (ctx.vtx b) = .ok ⟨ctx.blockUnlocked b, ctx.blockIndexes b⟩ := by
  obtain ⟨coinbase, rest, hvtx, hextra, hspecial, hbalance⟩ := hchecked.coinbase
  refine ⟨?_, ?_, getDataFromUnlockTxes_eq_ok hchecked.data hchecked.indexes_nodup⟩
  · have hactive3 := ctx.dip0003_le_v20.trans hactive
    simp [getBlockForCreditPool, deploymentActiveAt, hactive3, hvtx, hextra, hspecial]
  · rw [hvtx]
    exact hbalance

theorem Checked.unlockedIn (hchecked : ctx.Checked pool b)
    (hactive : ctx.V20Height ≤ ctx.tree.height b) :
    ctx.unlockedIn (fun _ => true) b = .ok (ctx.blockUnlocked b) := by
  obtain ⟨hblock, -, hdata⟩ := hchecked.block hactive
  rw [CreditPoolContext.unlockedIn, hblock]
  show (getDataFromUnlockTxes (ctx.vtx b) >>= _) = _
  rw [hdata]
  rfl

theorem windowUnlocked_nonneg (hnonneg : ∀ c ∈ ctx.tree.lineTo pindex, 0 ≤ ctx.blockUnlocked c) :
    0 ≤ ctx.windowUnlocked pindex := by
  refine sum_nonneg fun amount hamount => ?_
  obtain ⟨c, hc, rfl⟩ := mem_map.mp hamount
  exact hnonneg c (mem_reverse.mp (mem_of_mem_take hc))

theorem platformReward_nonneg (nHeight : Nat) : 0 ≤ ctx.platformReward nHeight := by
  unfold platformReward
  split
  · unfold Masternode.ConsensusParams.getMasternodePayment
    split <;> decide
  · exact le_rfl

theorem poolFacts_early (hsane : ∀ c ∈ ctx.tree.lineTo pindex, ctx.Sane c)
    (hearly : ctx.tree.depth pindex ≤ ctx.V20Height) : ctx.PoolFacts pindex .empty := by
  have hbelow (c : B) (hc : c ∈ ctx.tree.lineTo pindex) : ctx.tree.height c < ctx.V20Height := by
    cases pindex with
    | none => cases hc
    | some b =>
      have := (mem_line.mp hc).height_le
      exact Nat.lt_of_le_of_lt this hearly
  have hnone (c : B) (hc : c ∈ ctx.tree.lineTo pindex) : ctx.NoAssets c :=
    (hsane c hc).early (hbelow c hc)
  have hreward (c : B) (hc : c ∈ ctx.tree.lineTo pindex) :
      ctx.platformReward (ctx.tree.height c) = 0 := by
    have := ctx.v20_le_mn_rr
    have := hbelow c hc
    rw [platformReward, if_neg (by omega)]
  refine ⟨Eq.symm ?_, le_rfl, Eq.symm ?_, le_rfl, le_rfl, fun _ _ _ => by decide,
    CRangesSet.separated_nil, fun c hc => ?_⟩
  · refine sum_map_eq_zero fun c hc => ?_
    obtain ⟨-, hunlocked, hlocked⟩ := (hnone c hc).data
    rw [hunlocked, hlocked, hreward c hc]
    rfl
  · refine sum_map_eq_zero fun c hc => ?_
    exact (hnone c (mem_reverse.mp (mem_of_mem_take hc))).data.2.1
  · exact ⟨unlockedIn_of_noAssets (hnone c hc), (hnone c hc).data.2.1.ge⟩

theorem PoolFacts.construct (hfacts : ctx.PoolFacts (ctx.tree.parent b) pool)
    (hp : ctx.tree.parent b = some p) (hchecked : ctx.Checked pool b)
    (hactive : ctx.V20Height ≤ ctx.tree.height b)
    (hindex : ∀ index ∈ ctx.blockIndexes b, index.toNat + 1 < 2 ^ 64) :
    ∃ pool', ctx.constructPool (fun _ => true) b pool = .ok pool' ∧
      ctx.PoolFacts (some b) pool' := by
  obtain ⟨hblock, hbalance, hdata⟩ := hchecked.block hactive
  have hunlockedIn (c : B) (hc : c ∈ ctx.tree.lineTo (some b)) :
      ctx.unlockedIn (fun _ => true) c = .ok (ctx.blockUnlocked c) ∧ 0 ≤ ctx.blockUnlocked c := by
    obtain hc | rfl := (mem_lineTo_step b).mp hc
    · exact hfacts.unlockedIn c hc
    · exact ⟨hchecked.unlockedIn hactive, hchecked.unlocked_nonneg⟩
  -- the block that leaves the window
  let distant := ((ctx.tree.up ctx.creditPoolPeriodBlocks b).map ctx.blockUnlocked).getD 0
  have hdistant : ctx.distantUnlocked (fun _ => true) b = .ok distant ∧ 0 ≤ distant := by
    unfold distantUnlocked distant
    cases hup : ctx.tree.up ctx.creditPoolPeriodBlocks b with
    | none => exact ⟨rfl, le_rfl⟩
    | some d => exact hunlockedIn d (mem_line.mpr (ancestor_of_up hup))
  obtain ⟨indexes, hindexes, hseparated⟩ :=
    foldlM_addIndex hfacts.indexes hchecked.indexes_nodup fun index hmem => by
      refine ⟨fun hin => ?_, hindex index hmem⟩
      have hcontains := (CRangesSet.contains_iff hfacts.indexes).mpr hin
      rw [hchecked.index_fresh index hmem] at hcontains
      cases hcontains
  have hle := hchecked.unlocked_le hfacts.limit_nonneg
  have hlimit := hfacts.limit_le
  set locked := pool.locked + ctx.blockLocked b - ctx.blockUnlocked b +
    ctx.platformReward (ctx.tree.height b) with hlocked
  set lately := pool.latelyUnlocked + ctx.blockUnlocked b - distant with hlately
  have hlocked_nonneg : 0 ≤ locked := by
    have := hchecked.locked_nonneg
    have : 0 ≤ ctx.platformReward (ctx.tree.height b) := platformReward_nonneg _
    linarith
  have hlately_eq : lately = ctx.windowUnlocked (some b) := by
    rw [hlately, hfacts.latelyUnlocked_eq, windowUnlocked_some]
  have hlately_nonneg : 0 ≤ lately := by
    rw [hlately_eq]
    exact windowUnlocked_nonneg fun c hc => (hunlockedIn c hc).2
  have hwindow (hinactive : ctx.withdrawalsActiveAt b = false) : lately ≤ LimitAmountHigh := by
    have hprev : ctx.withdrawalsActiveAt p = false := by
      by_contra hprev
      rw [Bool.not_eq_false] at hprev
      rw [ctx.withdrawals_stays hp hprev] at hinactive
      cases hinactive
    have := hfacts.limit_window p hp hprev
    linarith
  have hlimit_nonneg := unlockLimit_nonneg hlocked_nonneg hwindow
  refine ⟨⟨locked, unlockLimit (ctx.withdrawalsActiveAt b) locked lately, lately, indexes⟩, ?_, ?_⟩
  · rw [constructPool, hblock]
    simp only [bind_eq_ok]
    refine ⟨_, rfl, ?_⟩
    simp only [bind_eq_ok, need_eq_ok, refuseIf_eq_ok, pure_eq_ok]
    exact ⟨locked, hbalance, _, hdata, indexes, hindexes, distant, hdistant.1, (),
      not_lt.mpr hlimit_nonneg, rfl⟩
  · refine ⟨?_, hlocked_nonneg, hlately_eq, hlimit_nonneg,
      unlockLimit_le hlocked_nonneg hlately_nonneg, ?_, hseparated, hunlockedIn⟩
    · rw [balance_some, ← hfacts.locked_eq]
      ring
    · intro c hc hinactive
      cases hc
      rw [hinactive]
      exact unlockLimit_add_le

theorem exists_chainPool (hsane : ∀ c ∈ ctx.tree.lineTo pindex, ctx.Sane c) :
    ∃ pool, ctx.chainPool pindex = .ok pool ∧ ctx.PoolFacts pindex pool := by
  induction pindex using ctx.tree.parent_induction with
  | hnone => exact ⟨.empty, rfl, poolFacts_early hsane (Nat.zero_le _)⟩
  | hstep b ih =>
    by_cases hactive : ctx.V20Height ≤ ctx.tree.height b
    · have hb : ctx.Sane b := hsane b (mem_line.mpr (.refl b))
      obtain ⟨pool, hpool, hfacts⟩ :=
        ih fun c hc => hsane c ((mem_lineTo_step b).mpr (Or.inl hc))
      obtain ⟨p, pool', hp, hpool', hchecked⟩ := hb.accepted.checked hactive
      rw [hp, hpool'] at hpool
      cases hpool
      obtain ⟨new, hnew, hfacts'⟩ := hfacts.construct hp hchecked hactive hb.index
      refine ⟨new, ?_, hfacts'⟩
      rw [chainPool_active hactive, hp, hpool']
      exact hnew
    · refine ⟨.empty, chainPool_early hactive, poolFacts_early hsane ?_⟩
      rw [depth]
      omega

/-- On a chain of sane blocks that can be read, the pool of a block is a function of the chain. -/
theorem getCreditPool_of_chain (hs : ctx.Reached s) {b : B}
    (haccepted : ∀ c, ctx.tree.Ancestor c b → ctx.Accepted c)
    (hreadable : ∀ c, ctx.tree.Ancestor c b → s.env.readable c = true)
    (hearly : ∀ c, ctx.tree.Ancestor c b → ctx.tree.height c < ctx.V20Height → ctx.NoAssets c)
    (hindex : ∀ c, ctx.tree.Ancestor c b → ∀ index ∈ ctx.blockIndexes c,
      index.toNat + 1 < 2 ^ 64) :
    ∃ pool, (ctx.getCreditPool (some b) s).1 = .ok pool ∧ ctx.chainPool (some b) = .ok pool ∧
      pool.latelyUnlocked = ctx.windowUnlocked (some b) ∧ pool.locked = ctx.balance (some b) ∧
      0 ≤ pool.locked ∧ 0 ≤ pool.currentLimit ∧ pool.currentLimit ≤ pool.locked := by
  have hsane (c : B) (hc : ctx.tree.Ancestor c b) : ctx.Sane c :=
    ⟨haccepted c hc, hearly c hc, hindex c hc⟩
  have hpools (c : B) (hc : ctx.tree.Ancestor c b) :
      ∃ pool, ctx.chainPool (some c) = .ok pool ∧ ctx.PoolFacts (some c) pool :=
    exists_chainPool fun d hd => hsane d ((BlockTree.mem_line.mp hd).trans hc)
  have hholds : ctx.Holds s.env s := ⟨hs.coherent, rfl⟩
  obtain ⟨hsound, hreturns⟩ := getCreditPool_spec b hholds
  obtain ⟨pool, hreturns⟩ := hreturns fun c hc =>
    ⟨fun d hd => hreadable d (hd.trans hc), _, (hpools c hc).choose_spec.1⟩
  have hchain : ctx.chainPool (some b) = .ok pool := hsound.good hreturns
  obtain ⟨pool', hpool', hfacts⟩ := hpools b (.refl b)
  obtain rfl := Except.ok.inj (hchain.symm.trans hpool')
  exact ⟨pool, hreturns, hchain, hfacts.latelyUnlocked_eq, hfacts.locked_eq, hfacts.locked_nonneg,
    hfacts.limit_nonneg, hfacts.limit_le⟩

end CreditPoolContext

/-! ### The set of used indexes -/

open CRangesSet (Call run contents Separated) in
/-- **Range sets are sets of numbers**, in every run of calls that do not add the largest number, and
an unlock whose index is in the set is refused. -/
theorem rangesSet_is_set {calls : List Call} (hcalls : ∀ c ∈ calls, c ≠ .add 0xffffffffffffffff) :
    ∃ s, run calls = some s ∧ Separated s.ranges ∧ s.size = (contents calls).card ∧
      (∀ value : UInt64, s.contains value.toNat = true ↔ value.toNat ∈ contents calls) ∧
      (∀ c, c ≠ .add 0xffffffffffffffff → ∃ changed s', s.call c = some (changed, s') ∧
        (changed = true ↔ contents (calls ++ [c]) ≠ contents calls)) ∧
      ∀ (diff : CCreditPoolDiff) (tx : Transaction) (toUnlock : CAmount) (index : UInt64),
        diff.pool.indexes = s → getDataFromUnlockTx tx = .ok (toUnlock, index) →
        .add index ∈ calls → .remove index ∉ calls → ∀ diff', diff.unlock tx ≠ .ok diff' := by
  obtain ⟨s, hrun, hshows⟩ := CRangesSet.exists_run hcalls
  have hcontains (value : UInt64) :
      s.contains value.toNat = true ↔ value.toNat ∈ contents calls :=
    (CRangesSet.contains_iff hshows.separated).trans (hshows.mem_iff _)
  refine ⟨s, hrun, hshows.separated, hshows.size_eq, hcontains, fun c hc => ?_, ?_⟩
  · obtain ⟨changed, s', hcall, hchanged, -⟩ := hshows.call hc
    refine ⟨changed, s', hcall, hchanged.trans ?_⟩
    rw [contents, contents, foldl_append]
    rfl
  · rintro diff tx toUnlock index rfl hdata hadded hkept diff' hunlock
    simp only [CCreditPoolDiff.unlock, hdata, bind_eq_ok, refuseIf_eq_ok] at hunlock
    obtain ⟨_, heq, _, -, _, hfresh, -⟩ := hunlock
    cases heq
    exact hfresh (.inl ((hcontains index).mpr (CRangesSet.mem_contents_of_added hadded hkept)))

/-! ### A switch to the withdrawals rule, an index used twice, and an early unlock -/

namespace PoolSample

open CreditPoolContext

def coinbase (balance : CAmount) : Transaction where
  hash := 1
  vin := [⟨0, 2 ^ 32 - 1⟩]
  vout := [⟨0, []⟩]
  isSpecialTxVersion := true
  nType := TRANSACTION_COINBASE
  hasExtraPayload := true
  creditPoolBalance := some balance
  assetLock := none
  assetUnlock := none
  hashUnsigned := 0

def payToPublicKeyHash : CScript :=
  [0x76, 0xa9, 0x14] ++ List.replicate 20 0 ++ [0x88, 0xac]

def lock (amount : CAmount) : Transaction where
  hash := 2
  vin := [⟨7, 0⟩]
  vout := [⟨amount, [OP_RETURN, 0]⟩]
  isSpecialTxVersion := true
  nType := TRANSACTION_ASSET_LOCK
  hasExtraPayload := true
  creditPoolBalance := none
  assetLock := some ⟨1, [⟨amount, payToPublicKeyHash⟩]⟩
  assetUnlock := none
  hashUnsigned := 0

def unlock (index : UInt64) (amount : CAmount) : Transaction where
  hash := 3
  vin := []
  vout := [⟨amount - 100, payToPublicKeyHash⟩]
  isSpecialTxVersion := true
  nType := TRANSACTION_ASSET_UNLOCK
  hasExtraPayload := true
  creditPoolBalance := none
  assetLock := none
  assetUnlock := some ⟨1, index, 100, 0, 0, none⟩
  hashUnsigned := 0

/-- Four blocks in a row; the withdrawals deployment is active from the last one on. -/
def context (V20Height : Nat) (hV20 : V20Height ≤ 3) (creditPoolPeriodBlocks : Nat)
    (vtx : Fin 4 → List Transaction) : CreditPoolContext (Fin 4) where
  tree :=
    { parent := ![none, some 0, some 1, some 2]
      height := ![0, 1, 2, 3]
      height_root := by decide
      height_parent := by decide }
  getBlockHash b := BitVec.ofNat 256 (100 + b)
  getBlockHash_injective a b := by revert a b; decide
  vtx := vtx
  DIP0003Height := 0
  DIP0008Height := 0
  V20Height := V20Height
  MN_RRHeight := 3
  dip0003_le_v20 := Nat.zero_le _
  dip0008_le_v20 := Nat.zero_le _
  v20_le_mn_rr := hV20
  withdrawalsActiveAt := ![false, false, false, true]
  withdrawals_stays := by decide
  creditPoolPeriodBlocks := creditPoolPeriodBlocks
  params := ⟨Masternode.INT_MAX, 0, 0, 0, 0, 1⟩

def surroundings : Surroundings (Fin 4) where
  readable _ := true
  lookupBlockIndex _ := true
  verifySig _ _ _ := .ok ()

theorem packages_atomic_duplicate :
    ∃ diff, processLockUnlockTransactions surroundings (0 : Fin 4)
        ⟨⟨COIN, COIN, 0, .empty⟩, [], 0, 0, 0⟩ [unlock 5 1000] = (.ok (), diff) ∧
      diff.newIndexes = [5] ∧
      processLockUnlockTransactions surroundings 0 diff [unlock 6 1000, unlock 5 1000] =
        (.error "failed-creditpool-unlock-duplicated-index", diff) := by
  obtain ⟨hatomic, -⟩ := @packages_atomic _ (context 0 (by decide) 1 fun _ => []) 0 .empty le_rfl
  exact ⟨_, (hatomic _ _ _).trans rfl, rfl, (hatomic _ _ _).trans rfl⟩

theorem rangesSet_is_set_sample :
    (∀ c ∈ [CRangesSet.Call.add 5, .add 7, .add 6, .remove 5], c ≠ .add 0xffffffffffffffff) ∧
      ∃ s, CRangesSet.run [.add 5, .add 7, .add 6, .remove 5] = some s ∧ s.size = 2 ∧
        ∀ diff : CCreditPoolDiff, diff.pool.indexes = s →
          ∀ diff', diff.unlock (unlock 6 COIN) ≠ .ok diff' := by
  refine ⟨by decide, ?_⟩
  obtain ⟨s, hrun, -, hsize, -, -, hunlock⟩ := @rangesSet_is_set
    [.add 5, .add 7, .add 6, .remove 5] (by decide)
  refine ⟨s, hrun, hsize.trans (by decide), fun diff hdiff => ?_⟩
  exact hunlock diff _ COIN 6 hdiff rfl (by decide) (by decide)

/-- The range of the largest number ends at zero: the number is not found. -/
theorem largest_number_lost :
    ∃ s, CRangesSet.run [.add 0xffffffffffffffff] = some s ∧ ¬ CRangesSet.Separated s.ranges ∧
      s.contains (2 ^ 64 - 1) = false ∧ s.call (.add 0xffffffffffffffff) = none ∧
      ((⟨⟨COIN, COIN, 0, s⟩, [], 0, 0, 0⟩ : CCreditPoolDiff).unlock
        (unlock 0xffffffffffffffff COIN)).isOk = true := by
  refine ⟨⟨[⟨2 ^ 64 - 1, 0⟩]⟩, by decide, fun hsep => ?_, by decide, by decide, by decide⟩
  exact absurd (hsep.nonempty _ List.mem_cons_self) (by decide)

theorem accepted_of_check {ctx : CreditPoolContext (Fin 4)} {b : Fin 4}
    (hok : (ctx.checkCreditPoolDiffForBlock b (start surroundings)).1 = .ok ()) :
    ctx.Accepted b :=
  ⟨_, ⟨surroundings, [], .nil _⟩, hok⟩

def withdrawing : CreditPoolContext (Fin 4) :=
  context 1 (by decide) 2 ![[], [coinbase (500 * COIN), lock (500 * COIN)],
    [coinbase (450 * COIN), unlock 0 (50 * COIN)], [coinbase (4170 * COIN), unlock 1 (30 * COIN)]]

def history : List (PoolOp (Fin 4)) :=
  [.checkCreditPoolDiffForBlock 1, .checkCreditPoolDiffForBlock 2, .restart,
    .checkCreditPoolDiffForBlock 3, .getCreditPool (some 2), .rollback [102]]

theorem getCreditPool_of_chain_withdrawing :
    ∃ pool, (withdrawing.getCreditPool (some 3)
        (history.foldl withdrawing.step (start surroundings))).1 = .ok pool ∧
      pool.latelyUnlocked = 80 * COIN ∧ pool.locked = 4170 * COIN ∧ 0 ≤ pool.currentLimit ∧
      pool.currentLimit ≤ pool.locked := by
  have hreached : withdrawing.Reached (history.foldl withdrawing.step (start surroundings)) :=
    ⟨surroundings, history, Run.computes _ _ _⟩
  have haccepted (c : Fin 4) : withdrawing.Accepted c := by
    match c with
    | 0 | 1 | 2 | 3 => exact accepted_of_check rfl
  have hearly (c : Fin 4) (hc : withdrawing.tree.height c < 1) : withdrawing.NoAssets c := by
    match c with
    | 0 => exact fun tx htx => nomatch htx
    | 1 | 2 | 3 => exact absurd hc (by decide)
  have hsmall : ∀ c : Fin 4, (withdrawing.blockIndexes c).all (·.toNat + 1 < 2 ^ 64) = true := by
    decide
  have hindex (c : Fin 4) (index : UInt64) (hmem : index ∈ withdrawing.blockIndexes c) :
      index.toNat + 1 < 2 ^ 64 :=
    of_decide_eq_true (List.all_eq_true.mp (hsmall c) index hmem)
  obtain ⟨pool, hreturns, -, hlately, hlocked, -, hnonneg, hle⟩ :=
    getCreditPool_of_chain hreached (fun c _ => haccepted c) (fun _ _ => rfl)
      (fun c _ => hearly c) (fun c _ => hindex c)
  exact ⟨pool, hreturns, hlately.trans (by decide), hlocked.trans (by decide), hnonneg, hle⟩

def repeated : CreditPoolContext (Fin 4) :=
  context 1 (by decide) 2 ![[], [coinbase (500 * COIN), lock (500 * COIN)],
    [coinbase (499 * COIN), unlock 0xffffffffffffffff COIN],
    [coinbase (4248 * COIN), unlock 0xffffffffffffffff COIN]]

/-- A coin is unlocked in the last block before V20, which leaves the window of one block when the
first block of V20 enters it. -/
def early : CreditPoolContext (Fin 4) :=
  context 2 (by decide) 1 ![[], [coinbase 0, unlock 0 COIN], [coinbase 0], [coinbase (3750 * COIN)]]

/-- On the first chain `CRangesSet::Add` asserts; on the second one the window sum is minus one
coin. -/
theorem largest_index_and_early_unlock :
    ((∀ c, repeated.Accepted c) ∧
      (repeated.getCreditPool (some 3) (start surroundings)).1 = .error .assertion) ∧
    (∀ c, early.Accepted c) ∧
      (early.getCreditPool (some 2) (start surroundings)).1.toOption.map CCreditPool.latelyUnlocked =
        some (-COIN) ∧
      early.windowUnlocked (some 2) = 0 := by
  refine ⟨⟨fun c => ?_, rfl⟩, fun c => ?_, by decide, by decide⟩
  · match c with
    | 0 | 1 | 2 | 3 => exact accepted_of_check rfl
  · match c with
    | 0 | 1 | 2 | 3 => exact accepted_of_check rfl

end PoolSample

end Defcon.Evo.CreditPool
