import Defcon.InstantSend.NonLocked

/-!
# Conflict detection over the transactions without a lock

The abstract state of the tracking is a partial map from ids to the transaction last added
under the id and the block it was then said to be mined in. A run of `AddNonLockedTx` and
`RemoveNonLockedTx` refines it, and the conflicts of a lock are complete, as long as each
transaction gets the outpoints it spends to itself.
-/

namespace Defcon.InstantSend

open Option AList Function
open AList (Map)
open Lib (Run Guarded Computes)

inductive NonLockedOp (B : Type) where
  | add (tx : CTransaction) (pindexMined : Option B)
  | remove (txid : Uint256) (retryChildren : Bool)

/-- The transactions added and not removed since, with their latest `pindexMined`. -/
abbrev Tracked (B : Type) := Uint256 → Option (CTransaction × Option B)

def Tracked.step {B : Type} (a : Tracked B) : NonLockedOp B → Tracked B
  | .add tx pindexMined => Function.update a tx.hash (some (tx, pindexMined))
  | .remove txid _ => Function.update a txid none

def tracked {B : Type} (ops : List (NonLockedOp B)) : Tracked B :=
  ops.foldl Tracked.step fun _ => none

namespace CInstantSendManager

variable {B Sig : Type}

def stepNonLocked (s : CInstantSendManager B Sig) : NonLockedOp B → CInstantSendManager B Sig
  | .add tx pindexMined => s.addNonLockedTx tx pindexMined
  | .remove txid retryChildren => s.removeNonLockedTx txid retryChildren

/-- A call that leaves no spend without an entry of its own. -/
def RecordsSpends (s : CInstantSendManager B Sig) : NonLockedOp B → Prop
  | .add tx _ =>
    if tx.hash ∈ s.nonLockedTxs then (s.recorded tx.hash).map Prod.fst = some tx
    else ∀ prevout ∈ tx.vin, prevout ∉ s.nonLockedTxsByOutpoints
  | .remove _ _ => True

/-! ### What one input changes -/

variable (txid : Uint256)

@[simp]
theorem recorded_addSpend (s : CInstantSendManager B Sig) (prevout : COutPoint) :
    (s.addSpend txid prevout).recorded = s.recorded := by
  funext k
  unfold recorded addSpend
  simp only [lookup_modifyD]
  by_cases hk : k = prevout.hash
  · subst hk
    cases s.nonLockedTxs.lookup prevout.hash <;> simp
  · simp [hk]

@[simp]
theorem recorded_removeSpend (s : CInstantSendManager B Sig)
    (prevout : COutPoint) : (s.removeSpend txid prevout).recorded = s.recorded := by
  funext k
  unfold recorded removeSpend
  cases hlookup : s.nonLockedTxs.lookup prevout.hash with
  | none => rfl
  | some parent =>
    by_cases hgone : parent.tx = none ∧ parent.children.erase txid = ∅
    · by_cases hk : k = prevout.hash
      · subst hk
        simp [hgone, hlookup]
      · simp [hgone, hk]
    · by_cases hk : k = prevout.hash
      · subst hk
        simp [hgone, hlookup]
      · simp [hgone, hk]

theorem recorded_foldl_addSpend (vin : List COutPoint)
    (s : CInstantSendManager B Sig) :
    (vin.foldl (addSpend txid) s).recorded = s.recorded := by
  induction vin generalizing s with
  | nil => rfl
  | cons prevout vin ih => rw [List.foldl_cons, ih, recorded_addSpend]

theorem recorded_foldl_removeSpend (vin : List COutPoint)
    (s : CInstantSendManager B Sig) :
    (vin.foldl (removeSpend txid) s).recorded = s.recorded := by
  induction vin generalizing s with
  | nil => rfl
  | cons prevout vin ih => rw [List.foldl_cons, ih, recorded_removeSpend]

variable {o : COutPoint} {s : CInstantSendManager B Sig} {txid : Uint256} {vin : List COutPoint}
  {tx : CTransaction} {a : Tracked B}

theorem lookup_foldl_addSpend_of_lookup {owner : Uint256}
    (h : s.nonLockedTxsByOutpoints.lookup o = some owner) :
    (vin.foldl (addSpend txid) s).nonLockedTxsByOutpoints.lookup o = some owner := by
  induction vin generalizing s with
  | nil => exact h
  | cons prevout vin ih => exact ih (lookup_emplace_of_lookup h)

theorem lookup_foldl_addSpend_of_mem (hmem : o ∈ vin) (hfree : o ∉ s.nonLockedTxsByOutpoints) :
    (vin.foldl (addSpend txid) s).nonLockedTxsByOutpoints.lookup o = some txid := by
  induction vin generalizing s with
  | nil => cases hmem
  | cons prevout vin ih =>
    by_cases ho : o = prevout
    · subst ho
      refine lookup_foldl_addSpend_of_lookup (s := s.addSpend txid o) ?_
      simp [addSpend, lookup_emplace, lookup_eq_none.mpr hfree]
    · refine ih ((List.mem_cons.mp hmem).resolve_left ho) ?_
      rw [← lookup_eq_none] at hfree ⊢
      simpa [addSpend, lookup_emplace, ho] using hfree

theorem lookup_foldl_removeSpend_of_notMem (hmem : o ∉ vin) :
    (vin.foldl (removeSpend txid) s).nonLockedTxsByOutpoints.lookup o =
      s.nonLockedTxsByOutpoints.lookup o := by
  induction vin generalizing s with
  | nil => rfl
  | cons prevout vin ih =>
    rw [List.mem_cons, not_or] at hmem
    rw [List.foldl_cons, ih hmem.2]
    exact lookup_erase_ne hmem.1

/-! ### What one call changes -/

@[simp]
theorem recorded_requeueNoTxLock (s : CInstantSendManager B Sig) (txid : Uint256) :
    (s.requeueNoTxLock txid).recorded = s.recorded := by
  unfold requeueNoTxLock
  split <;> rfl

@[simp]
theorem byOutpoints_requeueNoTxLock (s : CInstantSendManager B Sig) (txid : Uint256) :
    (s.requeueNoTxLock txid).nonLockedTxsByOutpoints = s.nonLockedTxsByOutpoints := by
  unfold requeueNoTxLock
  split <;> rfl

theorem recorded_addNonLockedTx {pindexMined : Option B}
    (hguard : s.RecordsSpends (.add tx pindexMined)) :
    (s.addNonLockedTx tx pindexMined).recorded =
      Function.update s.recorded tx.hash (some (tx, pindexMined)) := by
  funext k
  unfold addNonLockedTx
  rw [update_apply]
  by_cases hmem : tx.hash ∈ s.nonLockedTxs
  · -- the id is recorded already: only `pindexMined` is overwritten
    simp only [RecordsSpends, hmem, if_true] at hguard
    obtain ⟨⟨_, mined⟩, hrec, rfl⟩ := map_eq_some_iff.mp hguard
    obtain ⟨info, hlookup, htx⟩ := bind_eq_some_iff.mp hrec
    obtain ⟨_, hinfo, -⟩ := map_eq_some_iff.mp htx
    simp only [hmem, not_true_eq_false, if_false, recorded_requeueNoTxLock]
    simp only [recorded, lookup_modifyD, hlookup]
    split <;> simp_all
  · simp only [hmem, not_false_eq_true, if_true, recorded_requeueNoTxLock,
      recorded_foldl_addSpend]
    simp only [recorded, lookup_modifyD, if_true]
    split <;> rfl

theorem recorded_removeNonLockedTx (s : CInstantSendManager B Sig) (txid : Uint256)
    (retryChildren : Bool) :
    (s.removeNonLockedTx txid retryChildren).recorded =
      Function.update s.recorded txid none := by
  funext k
  unfold removeNonLockedTx
  rw [update_apply]
  cases hlookup : s.nonLockedTxs.lookup txid with
  | none =>
    by_cases hk : k = txid
    · subst hk
      simp [recorded, hlookup]
    · simp [hk]
  | some info =>
    have herase (u : CInstantSendManager B Sig) (hu : u.recorded = s.recorded) :
        ({ u with nonLockedTxs := u.nonLockedTxs.erase txid } :
          CInstantSendManager B Sig).recorded k = if k = txid then none else s.recorded k := by
      rw [← hu]
      unfold recorded
      rw [lookup_erase_eq_ite]
      split <;> rfl
    refine herase _ ?_
    cases info.tx with
    | none => rfl
    | some tx => exact recorded_foldl_removeSpend txid tx.vin _

/-! ### Refinement of the tracked transactions -/

/-- The manager holds exactly the tracked transactions, and their outpoints lead to them. -/
structure Refines (a : Tracked B) (s : CInstantSendManager B Sig) : Prop where
  recorded_eq : s.recorded = a
  hash_eq : ∀ {k tx mined}, a k = some (tx, mined) → tx.hash = k
  spends : ∀ {k tx mined}, a k = some (tx, mined) →
    ∀ prevout ∈ tx.vin, s.nonLockedTxsByOutpoints.lookup prevout = some k

theorem refines_init : Refines (fun _ => none) ({} : CInstantSendManager B Sig) where
  recorded_eq := rfl
  hash_eq h := by cases h
  spends h := by cases h

theorem refines_add {pindexMined : Option B} (href : Refines a s)
    (hguard : s.RecordsSpends (.add tx pindexMined)) :
    Refines (a.step (.add tx pindexMined)) (s.addNonLockedTx tx pindexMined) where
  recorded_eq := by
    rw [recorded_addNonLockedTx hguard, href.recorded_eq]
    rfl
  hash_eq := by
    intro k tx' mined h
    simp only [Tracked.step, update_apply] at h
    split at h
    · simp_all
    · exact href.hash_eq h
  spends := by
    intro k tx' mined h prevout hprevout
    simp only [Tracked.step, update_apply] at h
    unfold addNonLockedTx
    rw [byOutpoints_requeueNoTxLock]
    by_cases hmem : tx.hash ∈ s.nonLockedTxs
    · simp only [hmem, not_true_eq_false, if_false]
      simp only [RecordsSpends, hmem, if_true] at hguard
      obtain ⟨⟨_, mined'⟩, hrec, rfl⟩ := map_eq_some_iff.mp hguard
      rw [href.recorded_eq] at hrec
      split at h
      · simp_all [href.spends hrec]
      · exact href.spends h prevout hprevout
    · simp only [hmem, not_false_eq_true, if_true]
      simp only [RecordsSpends, hmem, if_false] at hguard
      split at h
      · obtain ⟨rfl, rfl⟩ : tx = tx' ∧ pindexMined = mined := by simpa using h
        subst k
        exact lookup_foldl_addSpend_of_mem hprevout (hguard prevout hprevout)
      · exact lookup_foldl_addSpend_of_lookup (href.spends h prevout hprevout)

theorem refines_remove (href : Refines a s) (txid : Uint256) (retryChildren : Bool) :
    Refines (a.step (.remove txid retryChildren)) (s.removeNonLockedTx txid retryChildren) where
  recorded_eq := by
    rw [recorded_removeNonLockedTx, href.recorded_eq]
    rfl
  hash_eq := by
    intro k tx mined h
    simp only [Tracked.step, update_apply] at h
    split at h
    · cases h
    · exact href.hash_eq h
  spends := by
    intro k tx mined h prevout hprevout
    simp only [Tracked.step, update_apply] at h
    split at h
    · cases h
    · rename_i hk
      have howner := href.spends h prevout hprevout
      unfold removeNonLockedTx
      cases hlookup : s.nonLockedTxs.lookup txid with
      | none => exact howner
      | some info =>
        cases htx : info.tx with
        | none => simpa [htx] using howner
        | some removed =>
          -- the erased outpoints lead to `txid`, so `prevout` is none of them
          have hrec : a txid = some (removed, info.pindexMined) := by
            simp [← href.recorded_eq, recorded, hlookup, htx]
          have hother : prevout ∉ removed.vin := by
            intro hmem
            have := href.spends hrec prevout hmem
            simp_all
          simp only [htx]
          rwa [lookup_foldl_removeSpend_of_notMem hother]

theorem refines_step {t : CInstantSendManager B Sig} {op : NonLockedOp B} (href : Refines a s)
    (hstep : Guarded RecordsSpends (Computes stepNonLocked) s op t) : Refines (a.step op) t := by
  obtain ⟨hguard, rfl⟩ := hstep
  cases op with
  | add tx pindexMined => exact refines_add href hguard
  | remove txid retryChildren => exact refines_remove href txid retryChildren

theorem refines_run {ops : List (NonLockedOp B)}
    (hrun : Run (Guarded RecordsSpends (Computes stepNonLocked)) {} ops s) :
    Refines (tracked ops) s :=
  hrun.simulation refines_step refines_init

/-! ### The conflicts of a lock -/

variable [DecidableEq B]

def Collected (conflicts : Map B (Map Uint256 CTransaction)) (b : B) (txid : Uint256)
    (tx : CTransaction) : Prop :=
  ∃ txs, conflicts.lookup b = some txs ∧ txs.lookup txid = some tx

theorem not_collected_empty (b : B) (txid : Uint256) (tx : CTransaction) :
    ¬Collected ∅ b txid tx := by
  rintro ⟨txs, hb, -⟩
  simp at hb

variable {conflicts : Map B (Map Uint256 CTransaction)}

theorem collected_modifyD {b b' : B} {txid' : Uint256} {tx' : CTransaction}
    (hagree : ∀ tx₀, Collected conflicts b' txid' tx₀ → tx₀ = tx') :
    Collected (conflicts.modifyD b' ∅ (AList.emplace txid' tx')) b txid tx ↔
      Collected conflicts b txid tx ∨ b = b' ∧ txid = txid' ∧ tx = tx' := by
  unfold Collected
  rw [lookup_modifyD]
  by_cases hb : b = b'
  · subst hb
    simp only [if_true, some.injEq, exists_eq_left', lookup_emplace, true_and]
    by_cases hid : txid = txid'
    · subst hid
      cases hlookup : conflicts.lookup b with
      | none => simp [eq_comm]
      | some txs =>
        cases htxid : txs.lookup txid with
        | none => simp [htxid, eq_comm]
        | some tx₀ =>
          have := hagree tx₀ ⟨txs, hlookup, htxid⟩
          simp [htxid, this, eq_comm]
    · cases hlookup : conflicts.lookup b <;> simp [hid]
  · simp [hb]

theorem collected_collectConflict {islock : CInstantSendLock Sig}
    (hsound : ∀ {b txid tx}, Collected conflicts b txid tx → s.recorded txid = some (tx, some b))
    (prevout : COutPoint) (b : B) (txid : Uint256) (tx : CTransaction) :
    Collected (s.collectConflict islock conflicts prevout) b txid tx ↔
      Collected conflicts b txid tx ∨
        s.nonLockedTxsByOutpoints.lookup prevout = some txid ∧ txid ≠ islock.txid ∧
          s.recorded txid = some (tx, some b) := by
  unfold CInstantSendManager.collectConflict
  cases howner : s.nonLockedTxsByOutpoints.lookup prevout with
  | none => simp
  | some conflictTxid =>
    simp only [some.injEq]
    -- nothing is collected for this input
    have hskip (hnot : ∀ tx b, conflictTxid ≠ islock.txid →
        s.recorded conflictTxid ≠ some (tx, some b)) :
        Collected conflicts b txid tx ↔ Collected conflicts b txid tx ∨
          conflictTxid = txid ∧ txid ≠ islock.txid ∧ s.recorded txid = some (tx, some b) := by
      refine ⟨Or.inl, ?_⟩
      rintro (h | ⟨rfl, hself, h⟩)
      · exact h
      · exact absurd h (hnot tx b hself)
    split
    next hself => exact hskip fun _ _ hne => absurd hself hne
    next hself =>
    cases hlookup : s.nonLockedTxs.lookup conflictTxid with
    | none =>
      refine hskip fun tx b _ => ?_
      simp [recorded, hlookup]
    | some info =>
      have hrec : s.recorded conflictTxid = info.tx.map fun tx => (tx, info.pindexMined) := by
        simp [recorded, hlookup]
      cases hmined : info.pindexMined with
      | none =>
        simp only [hmined]
        refine hskip fun tx b _ => ?_
        simp [hrec, hmined]
      | some pindexMined =>
        cases htx : info.tx with
        | none =>
          simp only [hmined, htx]
          refine hskip fun tx b _ => ?_
          simp [hrec, htx]
        | some conflictTx =>
          rw [hmined, htx, map_some] at hrec
          have hagree (tx₀ : CTransaction)
              (h : Collected conflicts pindexMined conflictTxid tx₀) :
              tx₀ = conflictTx := by
            have hsame := (hsound h).symm.trans hrec
            exact (Prod.mk.inj (some.inj hsame)).1
          simp only [hmined, htx]
          refine (collected_modifyD hagree).trans (or_congr_right ?_)
          constructor
          · rintro ⟨rfl, rfl, rfl⟩
            exact ⟨rfl, hself, hrec⟩
          · rintro ⟨rfl, -, h⟩
            obtain ⟨rfl, hblock⟩ := Prod.mk.inj (some.inj (hrec.symm.trans h))
            exact ⟨(some.inj hblock).symm, rfl, rfl⟩

theorem collected_collectConflicts (s : CInstantSendManager B Sig)
    (islock : CInstantSendLock Sig) (b : B) (txid : Uint256) (tx : CTransaction) :
    Collected (s.collectConflicts islock) b txid tx ↔
      (∃ prevout ∈ islock.inputs, s.nonLockedTxsByOutpoints.lookup prevout = some txid) ∧
        txid ≠ islock.txid ∧ s.recorded txid = some (tx, some b) := by
  have hfold (inputs : List COutPoint) (conflicts : Map B (Map Uint256 CTransaction))
      (hsound : ∀ {b txid tx}, Collected conflicts b txid tx →
        s.recorded txid = some (tx, some b)) :
      Collected (inputs.foldl (s.collectConflict islock) conflicts) b txid tx ↔
        Collected conflicts b txid tx ∨
          (∃ prevout ∈ inputs, s.nonLockedTxsByOutpoints.lookup prevout = some txid) ∧
            txid ≠ islock.txid ∧ s.recorded txid = some (tx, some b) := by
    induction inputs generalizing conflicts with
    | nil => simp
    | cons prevout inputs ih =>
      have hstep (b txid tx) :
          Collected (s.collectConflict islock conflicts prevout) b txid tx ↔ _ :=
        collected_collectConflict hsound prevout b txid tx
      rw [List.foldl_cons, ih _ ?_, hstep]
      · simp only [List.exists_mem_cons_iff]
        tauto
      · intro b' txid' tx' h
        rcases (hstep b' txid' tx').mp h with h | ⟨-, -, h⟩
        · exact hsound h
        · exact h
  refine (hfold islock.inputs ∅ fun h => absurd h (not_collected_empty _ _ _)).trans ?_
  simp [not_collected_empty]

/-- After a run whose additions record their spends, the conflicts of a lock hold every tracked and
mined spend of its inputs. -/
theorem resolveBlockConflicts_complete {s : CInstantSendManager B Sig}
    {ops : List (NonLockedOp B)}
    (hrun : Run (Guarded RecordsSpends (Computes stepNonLocked)) {} ops s)
    (islock : CInstantSendLock Sig) {txid : Uint256} {tx : CTransaction} {b : B}
    (htracked : tracked ops txid = some (tx, some b))
    (hspends : ∃ prevout ∈ tx.vin, prevout ∈ islock.inputs) (hother : txid ≠ islock.txid) :
    Collected (s.collectConflicts islock) b txid tx := by
  have href := refines_run hrun
  obtain ⟨prevout, hvin, hinput⟩ := hspends
  rw [collected_collectConflicts]
  refine ⟨⟨prevout, hinput, href.spends htracked prevout hvin⟩, hother, ?_⟩
  rw [href.recorded_eq, htracked]

end CInstantSendManager

/-! ### Runs on small transactions -/

def fundingOutPoint : COutPoint := ⟨1, 0⟩

def parentTx : CTransaction := ⟨10, [fundingOutPoint], []⟩

def childTx : CTransaction := ⟨11, [⟨10, 0⟩], []⟩

def doubleSpendLock : CInstantSendLock Unit := ⟨[fundingOutPoint], 12, 0, ()⟩

open CInstantSendManager in
theorem resolveBlockConflicts_complete_single :
    Collected ((({} : CInstantSendManager Nat Unit).addNonLockedTx parentTx (some 7)).collectConflicts
      doubleSpendLock) 7 10 parentTx :=
  have hrun : Run (Guarded RecordsSpends (Computes stepNonLocked)) {}
      [.add parentTx (some 7)] (({} : CInstantSendManager Nat Unit).addNonLockedTx parentTx (some 7)) :=
    .cons ⟨by simp [RecordsSpends], rfl⟩ (.nil _)
  resolveBlockConflicts_complete hrun doubleSpendLock rfl
    ⟨fundingOutPoint, by decide, by decide⟩ (by decide)

open CInstantSendManager in
/-- The parent, added after its child, is taken for known and gets no outpoint entry. -/
theorem resolveBlockConflicts_misses_parent :
    ∃ (ops : List (NonLockedOp Nat)) (s : CInstantSendManager Nat Unit),
      Run (Computes stepNonLocked) {} ops s ∧ tracked ops 10 = some (parentTx, some 7) ∧
        (∃ prevout ∈ parentTx.vin, prevout ∈ doubleSpendLock.inputs) ∧
        10 ≠ doubleSpendLock.txid ∧
        ¬Collected (s.collectConflicts doubleSpendLock) 7 10 parentTx := by
  refine ⟨[.add childTx none, .add parentTx (some 7)], _, Run.computes _ _ _, rfl,
    ⟨fundingOutPoint, by decide, by decide⟩, by decide, ?_⟩
  rw [collected_collectConflicts]
  rintro ⟨⟨prevout, hinput, howner⟩, -⟩
  obtain rfl : prevout = fundingOutPoint := by simpa [doubleSpendLock] using hinput
  revert howner
  decide

end Defcon.InstantSend
