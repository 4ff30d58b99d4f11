import Mathlib.Data.List.Dedup
import Defcon.Lib.Relational
import Defcon.Evo.ListInvariant
import Defcon.Evo.StateDiff

/-!
# Differences of lists

`BuildDiff` records what separates two lists: masternodes that are added, internal ids of those
that are removed, and for the others the fields of their state that differ. `ApplyDiff` removes,
adds and updates in this order, each time against the unique properties of the list as changed so
far. The difference of two lists is exact if no property changes hands between masternodes that
both lists have.
-/

namespace Defcon.Evo

open AList (Map)
open Lib (Ensures need exists_of_rel exists_of_rel' exists_of_forall₂)
open CDeterministicMN List CDeterministicMNStateDiff
open Lib

/-- `CDeterministicMNListDiff`. The hash map is iterated in the order of its entries. -/
structure CDeterministicMNListDiff where
  nHeight : Int := -1
  addedMNs : List CDeterministicMN := []
  updatedMNs : Map Nat CDeterministicMNStateDiff := ∅
  /-- Internal ids, in ascending order. -/
  removedMns : List Nat := []

def CDeterministicMNListDiff.hasChanges (diff : CDeterministicMNListDiff) : Bool :=
  !diff.addedMNs.isEmpty || !diff.updatedMNs.entries.isEmpty || !diff.removedMns.isEmpty

namespace CDeterministicMNList

variable (l target : CDeterministicMNList)

def getMNByInternalId (internalId : Nat) : Option CDeterministicMN :=
  (l.mnInternalIdMap.lookup internalId).bind l.getMN

def stateDiffs : List (Nat × CDeterministicMNStateDiff) :=
  (target.mns false).filterMap fun toDmn =>
    (l.getMN toDmn.proTxHash).bind fun fromDmn =>
      let stateDiff := CDeterministicMNStateDiff.ofStates fromDmn.pdmnState toDmn.pdmnState
      if stateDiff.fields = 0 then none else some (toDmn.internalId, stateDiff)

def buildDiff : CDeterministicMNListDiff where
  addedMNs := ((target.mns false).filter fun toDmn => (l.getMN toDmn.proTxHash).isNone).insertionSort
    fun a b => a.internalId ≤ b.internalId
  updatedMNs := (l.stateDiffs target).foldl (fun m e => m.emplace e.1 e.2) ∅
  removedMns := ((((l.mns false).filter fun fromDmn => (target.getMN fromDmn.proTxHash).isNone).map
    CDeterministicMN.internalId).dedup).insertionSort fun a b => a ≤ b

def removeById (internalId : Nat) : Except ListError CDeterministicMNList := do
  let dmn ← need (.runtimeError "ApplyDiff: can't find a removed masternode, id=")
    (l.getMNByInternalId internalId)
  l.removeMN dmn.proTxHash

def updateById (update : (_ : Nat) × CDeterministicMNStateDiff) :
    Except ListError CDeterministicMNList := do
  let dmn ← need (.runtimeError "ApplyDiff: can't find an updated masternode, id=")
    (l.getMNByInternalId update.1)
  l.updateDmn dmn (update.2.applyToState dmn.pdmnState)

def applyDiff (blockHash : Uint256) (nHeight : Int) (diff : CDeterministicMNListDiff) :
    Except ListError CDeterministicMNList := do
  let result := { l with blockHash := blockHash, nHeight := nHeight }
  let result ← diff.removedMns.foldlM removeById result
  let result ← diff.addedMNs.foldlM (fun result dmn => result.addMN dmn) result
  diff.updatedMNs.entries.foldlM updateById result

end CDeterministicMNList

/-! ### Equality -/

namespace CDeterministicMNState

variable {s s' s'' : CDeterministicMNState}

theorem Same.refl (s : CDeterministicMNState) : s.Same s :=
  ⟨rfl, rfl⟩

theorem Same.symm (h : s.Same s') : s'.Same s :=
  ⟨h.key.symm, h.rest.symm⟩

theorem Same.trans (h : s.Same s') (h' : s'.Same s'') : s.Same s'' :=
  ⟨h.key.trans h'.key, h.rest.trans h'.rest⟩

theorem Same.addr (h : s.Same s') : s.addr = s'.addr := by
  simpa using congrArg CDeterministicMNState.addr h.rest

theorem Same.keyIDOwner (h : s.Same s') : s.keyIDOwner = s'.keyIDOwner := by
  simpa using congrArg CDeterministicMNState.keyIDOwner h.rest

end CDeterministicMNState

namespace CDeterministicMN

/-- Equal, the operator keys by what they serialize to. -/
structure Same (a b : CDeterministicMN) : Prop where
  internalId : a.internalId = b.internalId
  proTxHash : a.proTxHash = b.proTxHash
  collateralOutpoint : a.collateralOutpoint = b.collateralOutpoint
  nOperatorReward : a.nOperatorReward = b.nOperatorReward
  nType : a.nType = b.nType
  state : a.pdmnState.Same b.pdmnState

variable {a b c : CDeterministicMN} {v : UniqueProperty}

theorem Same.refl (a : CDeterministicMN) : a.Same a :=
  ⟨rfl, rfl, rfl, rfl, rfl, .refl _⟩

theorem Same.symm (h : a.Same b) : b.Same a :=
  ⟨h.internalId.symm, h.proTxHash.symm, h.collateralOutpoint.symm, h.nOperatorReward.symm,
    h.nType.symm, h.state.symm⟩

theorem Same.trans (h : a.Same b) (h' : b.Same c) : a.Same c :=
  ⟨h.internalId.trans h'.internalId, h.proTxHash.trans h'.proTxHash,
    h.collateralOutpoint.trans h'.collateralOutpoint, h.nOperatorReward.trans h'.nOperatorReward,
    h.nType.trans h'.nType, h.state.trans h'.state⟩

theorem Same.holds (h : a.Same b) (hholds : a.Holds v) : b.Holds v := by
  rwa [Holds, ← h.collateralOutpoint, ← h.state.addr, ← h.state.keyIDOwner, ← h.state.key]

theorem Same.hasRequired (h : a.Same b) (hrequired : a.HasRequired) : b.HasRequired := by
  rwa [HasRequired, ← h.collateralOutpoint, ← h.state.keyIDOwner]

end CDeterministicMN

namespace CDeterministicMNStateDiff

variable {d d' d'' : CDeterministicMNStateDiff} {a b : CDeterministicMNState}

structure Same (d d' : CDeterministicMNStateDiff) : Prop where
  fields : d.fields = d'.fields
  state : d.state.Same d'.state

theorem Same.symm (h : d.Same d') : d'.Same d :=
  ⟨h.fields.symm, h.state.symm⟩

theorem Same.trans (h : d.Same d') (h' : d'.Same d'') : d.Same d'' :=
  ⟨h.fields.trans h'.fields, h.state.trans h'.state⟩

theorem Same.applyToState (h : d.Same d') (target : CDeterministicMNState) :
    (d.applyToState target).Same (d'.applyToState target) := by
  unfold CDeterministicMNStateDiff.applyToState
  rw [h.fields]
  constructor
  · dsimp only [selectFields]
    split
    · exact h.state.key
    · rfl
  · exact congrArg (fun s : CDeterministicMNState =>
      { selectFields (hasField d'.fields) s target with pubKeyOperator := {} }) h.state.rest

theorem same_of_fields_eq_zero (hzero : (ofStates a b).fields = 0) : a.Same b := by
  have hid : (ofStates a b).applyToState a = a := by
    have hnone : hasField 0 = fun _ => false := funext hasField_zero
    rw [applyToState, hzero, hnone]
    rfl
  have hsame : ((ofStates a b).applyToState a).Same b := same_applyToState
  rwa [hid] at hsame

end CDeterministicMNStateDiff

/-- The same differences, the maps and sets in any order, the operator keys by what they serialize
to. -/
structure CDeterministicMNListDiff.Same (d d' : CDeterministicMNListDiff) : Prop where
  added : List.Forall₂ CDeterministicMN.Same d.addedMNs d'.addedMNs
  updated : ∀ id, Option.Rel CDeterministicMNStateDiff.Same (d.updatedMNs.lookup id)
    (d'.updatedMNs.lookup id)
  removed : d.removedMns.Perm d'.removedMns

theorem CDeterministicMNListDiff.Same.refl (d : CDeterministicMNListDiff) : d.Same d where
  added := forall₂_same.mpr fun dmn _ => .refl dmn
  updated _ := rel_refl (fun stateDiff => ⟨rfl, .refl stateDiff.state⟩) _
  removed := .refl _

theorem CDeterministicMNListDiff.Same.trans {d d' d'' : CDeterministicMNListDiff} (h : d.Same d')
    (h' : d'.Same d'') : d.Same d'' where
  added := forall₂_trans .trans h.added h'.added
  updated id := rel_trans .trans (h.updated id) (h'.updated id)
  removed := h.removed.trans h'.removed

/-! ### What a difference consists of -/

namespace CDeterministicMNList

variable {l l' L L' R : CDeterministicMNList} {h h' : Uint256} {d d' dmn : CDeterministicMN}
  {v : UniqueProperty} {id : Nat} {diff : CDeterministicMNListDiff}

theorem RepOk.hash_eq_of_id (hrep : l.RepOk) (hget : l.getMN h = some d)
    (hget' : l.getMN h' = some d') (heq : d.internalId = d'.internalId) : h = h' := by
  have hlookup := (hrep.ids d.internalId h).mpr ⟨d, hget, rfl⟩
  rw [(hrep.ids d.internalId h').mpr ⟨d', hget', heq.symm⟩] at hlookup
  exact (Option.some.inj hlookup).symm

theorem RepOk.getMNByInternalId (hrep : l.RepOk) (hget : l.getMN h = some d) :
    l.getMNByInternalId d.internalId = some d := by
  rw [CDeterministicMNList.getMNByInternalId, (hrep.ids d.internalId h).mpr ⟨d, hget, rfl⟩]
  exact hget

theorem mem_addedMNs :
    d ∈ (L.buildDiff L').addedMNs ↔
      L'.getMN d.proTxHash = some d ∧ L.getMN d.proTxHash = none := by
  rw [buildDiff, mem_insertionSort, mem_filter, mem_mns_iff]
  simp

theorem nodup_addedMNs : ((L.buildDiff L').addedMNs.map proTxHash).Nodup := by
  have hperm := (perm_insertionSort (fun a b : CDeterministicMN => a.internalId ≤ b.internalId)
    ((L'.mns false).filter fun toDmn => (L.getMN toDmn.proTxHash).isNone)).map
      proTxHash
  refine hperm.nodup_iff.mpr ?_
  exact (nodup_mns false).sublist (filter_sublist.map _)

theorem mem_removedMns :
    id ∈ (L.buildDiff L').removedMns ↔
      ∃ h d, L.getMN h = some d ∧ d.internalId = id ∧ L'.getMN h = none := by
  rw [buildDiff, mem_insertionSort, mem_dedup, mem_map]
  constructor
  · rintro ⟨d, hd, rfl⟩
    rw [mem_filter, mem_mns_iff] at hd
    exact ⟨d.proTxHash, d, hd.1.1, rfl, by simpa using hd.2⟩
  · rintro ⟨h, d, hget, rfl, hnone⟩
    obtain rfl := proTxHash_of_getMN hget
    refine ⟨d, mem_filter.mpr ⟨mem_mns_of_getMN hget, by simpa using hnone⟩, rfl⟩

theorem nodup_removedMns : (L.buildDiff L').removedMns.Nodup :=
  (perm_insertionSort _ _).nodup_iff.mpr (nodup_dedup _)

theorem mem_stateDiffs {e : Nat × CDeterministicMNStateDiff} :
    e ∈ L.stateDiffs L' ↔
      ∃ h d d', L.getMN h = some d ∧ L'.getMN h = some d' ∧
        (CDeterministicMNStateDiff.ofStates d.pdmnState d'.pdmnState).fields ≠ 0 ∧
        e = (d'.internalId, .ofStates d.pdmnState d'.pdmnState) := by
  simp only [stateDiffs, mem_filterMap, Option.bind_eq_some_iff, mem_mns_iff]
  constructor
  · rintro ⟨d', ⟨hget', -⟩, d, hget, hite⟩
    split at hite
    · cases hite
    next hne =>
      cases hite
      exact ⟨d'.proTxHash, d, d', hget, hget', hne, rfl⟩
  · rintro ⟨h, d, d', hget, hget', hne, rfl⟩
    obtain rfl := proTxHash_of_getMN hget'
    exact ⟨d', ⟨hget', nofun⟩, d, hget, if_neg hne⟩

theorem nodup_stateDiffs (hrep : L'.RepOk) : ((L.stateDiffs L').map Prod.fst).Nodup := by
  have hids : ((L'.mns false).map internalId).Nodup := by
    have hmns : (L'.mns false).Nodup := List.Nodup.of_map _ (nodup_mns false)
    refine hmns.map_on fun d hd d' hd' heq => ?_
    have hget := (mem_mns_iff.mp hd).1
    have hget' := (mem_mns_iff.mp hd').1
    have hhash := hrep.hash_eq_of_id hget hget' heq
    rw [hhash, hget'] at hget
    exact (Option.some.inj hget).symm
  refine hids.sublist ?_
  -- each state diff is filed under the id of the masternode it is for
  unfold stateDiffs
  generalize L'.mns false = dmns
  induction dmns with
  | nil => simp
  | cons d dmns ih =>
    rw [filterMap_cons, map_cons]
    split
    · exact ih.cons _
    next e he =>
      obtain ⟨fromDmn, -, hite⟩ := Option.bind_eq_some_iff.mp he
      dsimp only at hite
      split at hite
      · cases hite
      · cases hite
        exact ih.cons_cons _

theorem lookup_updatedMNs (hrep : L'.RepOk) {stateDiff : CDeterministicMNStateDiff} :
    (L.buildDiff L').updatedMNs.lookup id = some stateDiff ↔ (id, stateDiff) ∈ L.stateDiffs L' := by
  rw [buildDiff, AList.lookup_foldl_emplace (nodup_stateDiffs hrep) (fun e _ => AList.lookup_empty e.1)]
  simp

/-! ### Applying a difference -/

/-- What makes the difference applicable: no property of `L'` may still belong to another
masternode. -/
structure Diffable (L L' : CDeterministicMNList) : Prop where
  repOk : L.RepOk
  repOk' : L'.RepOk
  kept : ∀ {h d d'}, L.getMN h = some d → L'.getMN h = some d' → d = d'.withState d.pdmnState
  removed : ∀ {h d}, L.getMN h = some d → L'.getMN h = none → d.HasRequired
  added : ∀ {h d}, L.getMN h = none → L'.getMN h = some d → d.HasRequired
  noHandover : ∀ {h h' v}, L'.Owns h v → L.Owns h' v → h ≠ h' → L'.getMN h' = none

theorem Diffable.internalId (hdiff : Diffable L L') (hget : L.getMN h = some d)
    (hget' : L'.getMN h = some d') : d.internalId = d'.internalId := by
  rw [hdiff.kept hget hget']
  rfl

theorem Diffable.same_withState (hdiff : Diffable L L') (hget : L.getMN h = some d)
    (hget' : L'.getMN h = some d') {state : CDeterministicMNState}
    (hstate : state.Same d'.pdmnState) : (d.withState state).Same d' := by
  rw [hdiff.kept hget hget']
  exact ⟨rfl, rfl, rfl, rfl, rfl, hstate⟩

/-- The masternodes in `done` are as in `L'`, the others as in `L`. -/
structure Stage (L L' : CDeterministicMNList) (done : Set Uint256) (l : CDeterministicMNList) :
    Prop where
  repOk : l.RepOk
  marked : ∀ {h}, h ∈ done → Option.Rel CDeterministicMN.Same (l.getMN h) (L'.getMN h)
  unmarked : ∀ {h}, h ∉ done → l.getMN h = L.getMN h

namespace Stage

variable {done : Set Uint256} {state : CDeterministicMNState}

theorem insert (hstage : Stage L L' done l) (hrep : l'.RepOk)
    (hget : Option.Rel CDeterministicMN.Same (l'.getMN h) (L'.getMN h))
    (hother : ∀ h' ≠ h, l'.getMN h' = l.getMN h') : Stage L L' (insert h done) l' where
  repOk := hrep
  marked := by
    intro h' hmem
    by_cases heq : h' = h
    · subst heq
      exact hget
    · rw [hother h' heq]
      exact hstage.marked (Set.mem_of_mem_insert_of_ne hmem heq)
  unmarked := by
    intro h' hmem
    rw [Set.mem_insert_iff, not_or] at hmem
    rw [hother h' hmem.1, hstage.unmarked hmem.2]

variable (hdiff : Diffable L L') (hstage : Stage L L' done l)

include hdiff hstage

theorem exists_removeMN (hdone : h ∉ done) (hget : L.getMN h = some d) (hnone : L'.getMN h = none) :
    ∃ l', l.removeMN h = .ok l' ∧ Stage L L' (Insert.insert h done) l' := by
  have hlisted : l.getMN h = some d := by rw [hstage.unmarked hdone, hget]
  obtain ⟨l', hok, hrep⟩ := hstage.repOk.exists_removeMN hlisted (hdiff.removed hget hnone)
  have hafter := removeMN_ok hok
  refine ⟨l', hok, hstage.insert hrep ?_ fun h' hne => by rw [hafter, if_neg hne]⟩
  rw [hafter, if_pos rfl, hnone]
  exact .none

variable (hremoved : ∀ {h d}, L.getMN h = some d → L'.getMN h = none → h ∈ done)

include hremoved

theorem listed (hget : l.getMN h = some d) :
    ∃ d', L'.getMN h = some d' ∧ d.internalId = d'.internalId := by
  by_cases hdone : h ∈ done
  · obtain ⟨d', hget', hsame⟩ := exists_of_rel (hstage.marked hdone) hget
    exact ⟨d', hget', hsame.internalId⟩
  · rw [hstage.unmarked hdone] at hget
    cases hget' : L'.getMN h with
    | none => exact absurd (hremoved hget hget') hdone
    | some d' => exact ⟨d', rfl, hdiff.internalId hget hget'⟩

theorem free (howns : L'.Owns h v) (hother : l.Owns h' v) : h' = h := by
  by_cases hdone : h' ∈ done
  · obtain ⟨d, hget, hholds⟩ := hother
    obtain ⟨d', hget', hsame⟩ := exists_of_rel (hstage.marked hdone) hget
    exact hdiff.repOk'.properties.unique ⟨d', hget', hsame.holds hholds⟩ howns
  · have hold := (owns_congr (hstage.unmarked hdone)).mp hother
    by_contra hne
    have hnone := hdiff.noHandover howns hold (Ne.symm hne)
    obtain ⟨d, hget, -⟩ := hold
    exact hdone (hremoved hget hnone)

theorem exists_addMN (hdone : h ∉ done) (hget : L.getMN h = none) (hget' : L'.getMN h = some d')
    (hsame : d.Same d') : ∃ l', l.addMN d = .ok l' ∧ Stage L L' (Insert.insert h done) l' := by
  have hself : d.proTxHash = h := hsame.proTxHash.trans (proTxHash_of_getMN hget')
  have hnone : l.getMN h = none := by rw [hstage.unmarked hdone, hget]
  have haddable : l.Addable d := by
    refine ⟨by rwa [hself], fun {h₁ d₁} hget₁ heq => ?_,
      hsame.symm.hasRequired (hdiff.added hget hget'), fun {v h₁} hholds howns => ?_⟩
    · obtain ⟨d₂, hget₂, hid⟩ := hstage.listed hdiff hremoved hget₁
      have hhash := hdiff.repOk'.hash_eq_of_id hget₂ hget' (by rw [← hid, heq, hsame.internalId])
      rw [hhash, hnone] at hget₁
      cases hget₁
    · have hfree := hstage.free hdiff hremoved ⟨d', hget', hsame.holds hholds⟩ howns
      obtain ⟨d₁, hget₁, -⟩ := howns
      rw [hfree, hnone] at hget₁
      cases hget₁
  obtain ⟨l', hok, hrep⟩ := hstage.repOk.exists_addMN haddable true
  have hafter := (addMN_ok hok).2
  refine ⟨l', hok, hstage.insert hrep ?_ fun h' hne => by rw [hafter, hself, if_neg hne]⟩
  rw [hafter, if_pos hself.symm, hget']
  exact .some hsame

theorem exists_updateDmn (hdone : h ∉ done) (hget : L.getMN h = some d)
    (hget' : L'.getMN h = some d') (hstate : state.Same d'.pdmnState) :
    ∃ l', l.updateDmn d state = .ok l' ∧ Stage L L' (Insert.insert h done) l' := by
  have hself := proTxHash_of_getMN hget
  have hsame := hdiff.same_withState hget hget' hstate
  have hlisted : l.getMN d.proTxHash = some d := by rw [hself, hstage.unmarked hdone, hget]
  have hupdatable : l.Updatable d state := by
    intro v h₁ hholds howns
    rw [hself]
    exact hstage.free hdiff hremoved ⟨d', hget', hsame.holds hholds⟩ howns
  obtain ⟨l', hok, hrep⟩ := hstage.repOk.exists_updateDmn hlisted hupdatable
  have hafter := updateDmn_ok hok
  refine ⟨l', hok, hstage.insert hrep ?_ fun h' hne => by rw [hafter, hself, if_neg hne]⟩
  rw [hafter, if_pos hself.symm, hget']
  exact .some hsame

end Stage

def hashOf (L : CDeterministicMNList) (id : Nat) : Uint256 :=
  (L.mnInternalIdMap.lookup id).getD 0

theorem RepOk.hashOf_eq (hrep : L.RepOk) (hget : L.getMN h = some d) :
    L.hashOf d.internalId = h := by
  rw [hashOf, (hrep.ids d.internalId h).mpr ⟨d, hget, rfl⟩]
  rfl

section Phases

variable (hdiff : Diffable L L') (hsame : diff.Same (L.buildDiff L'))

def gone (L L' : CDeterministicMNList) : Set Uint256 :=
  {h | ∃ d, L.getMN h = some d ∧ L'.getMN h = none}

def new (L L' : CDeterministicMNList) : Set Uint256 :=
  {h | ∃ d, L.getMN h = none ∧ L'.getMN h = some d}

include hdiff hsame

theorem exists_removeAll (hstage : Stage L L' ∅ l) :
    ∃ l', diff.removedMns.foldlM removeById l = .ok l' ∧ Stage L L' (gone L L') l' := by
  have hmem {id : Nat} (hid : id ∈ diff.removedMns) :
      ∃ h d, L.getMN h = some d ∧ d.internalId = id ∧ L'.getMN h = none :=
    mem_removedMns.mp (hsame.removed.mem_iff.mp hid)
  have hgone : gone L L' = ∅ ∪ {h | h ∈ diff.removedMns.map L.hashOf} := by
    ext h
    simp only [gone, Set.empty_union, Set.mem_ofPred_eq, mem_map]
    constructor
    · rintro ⟨d, hget, hnone⟩
      refine ⟨d.internalId, ?_, hdiff.repOk.hashOf_eq hget⟩
      exact hsame.removed.mem_iff.mpr (mem_removedMns.mpr ⟨h, d, hget, rfl, hnone⟩)
    · rintro ⟨id, hid, rfl⟩
      obtain ⟨h, d, hget, rfl, hnone⟩ := hmem hid
      rw [hdiff.repOk.hashOf_eq hget]
      exact ⟨d, hget, hnone⟩
  rw [hgone]
  refine exists_foldlM_marks L.hashOf ?_ (fun _ _ hmem => hmem) hstage ?_
  · refine (hsame.removed.nodup_iff.mpr nodup_removedMns).map_on fun id hid id' hid' heq => ?_
    obtain ⟨h, d, hget, rfl, -⟩ := hmem hid
    obtain ⟨h', d', hget', rfl, -⟩ := hmem hid'
    rw [hdiff.repOk.hashOf_eq hget, hdiff.repOk.hashOf_eq hget'] at heq
    rw [heq, hget'] at hget
    rw [Option.some.inj hget]
  · intro id l done hid _ hnot hl
    obtain ⟨h, d, hget, rfl, hnone⟩ := hmem hid
    obtain rfl := proTxHash_of_getMN hget
    rw [hdiff.repOk.hashOf_eq hget] at hnot ⊢
    have hlisted : l.getMN d.proTxHash = some d := by rw [hl.unmarked hnot, hget]
    rw [removeById, hl.repOk.getMNByInternalId hlisted]
    exact hl.exists_removeMN hdiff hnot hget hnone

theorem exists_addAll (hstage : Stage L L' (gone L L') l) :
    ∃ l', diff.addedMNs.foldlM (fun result dmn => result.addMN dmn) l = .ok l' ∧
      Stage L L' (gone L L' ∪ new L L') l' := by
  have hmem {d : CDeterministicMN} (hd : d ∈ diff.addedMNs) :
      ∃ d', L.getMN d.proTxHash = none ∧ L'.getMN d.proTxHash = some d' ∧ d.Same d' := by
    obtain ⟨d', hd', hsame⟩ := exists_of_forall₂ hsame.added hd
    obtain ⟨hget', hnone⟩ := mem_addedMNs.mp hd'
    rw [← hsame.proTxHash] at hget' hnone
    exact ⟨d', hnone, hget', hsame⟩
  have hhashes : diff.addedMNs.map proTxHash =
      (L.buildDiff L').addedMNs.map proTxHash := by
    rw [← forall₂_eq_eq_eq, forall₂_map_left_iff, forall₂_map_right_iff]
    exact hsame.added.imp fun _ _ h => h.proTxHash
  have hnew : new L L' = {h | h ∈ diff.addedMNs.map proTxHash} := by
    ext h
    rw [hhashes]
    simp only [new, Set.mem_ofPred_eq, mem_map]
    constructor
    · rintro ⟨d, hnone, hget⟩
      obtain rfl := proTxHash_of_getMN hget
      exact ⟨d, mem_addedMNs.mpr ⟨hget, hnone⟩, rfl⟩
    · rintro ⟨d, hd, rfl⟩
      obtain ⟨hget, hnone⟩ := mem_addedMNs.mp hd
      exact ⟨d, hnone, hget⟩
  rw [hnew]
  refine exists_foldlM_marks proTxHash ?_ ?_ hstage ?_
  · rw [hhashes]
    exact nodup_addedMNs
  · rintro d hd ⟨d₀, hget, -⟩
    obtain ⟨_, hnone, -⟩ := hmem hd
    rw [hnone] at hget
    cases hget
  · intro d l done hd hsub hnot hl
    obtain ⟨d', hnone, hget', hsame⟩ := hmem hd
    exact hl.exists_addMN hdiff (fun hget hgone => hsub ⟨_, hget, hgone⟩) hnot hnone hget' hsame

theorem exists_of_mem_updatedMNs {e : (_ : Nat) × CDeterministicMNStateDiff}
    (he : e ∈ diff.updatedMNs.entries) :
    ∃ h d d', L.getMN h = some d ∧ L'.getMN h = some d' ∧ e.1 = d.internalId ∧
      e.2.Same (.ofStates d.pdmnState d'.pdmnState) := by
  obtain ⟨stateDiff, hlookup, hstate⟩ :=
    exists_of_rel (hsame.updated e.1) (AList.mem_lookup_iff.mpr he)
  obtain ⟨h, d, d', hget, hget', -, heq⟩ :=
    mem_stateDiffs.mp ((lookup_updatedMNs hdiff.repOk').mp hlookup)
  obtain ⟨hid, rfl⟩ := Prod.mk.inj heq
  exact ⟨h, d, d', hget, hget', hid.trans (hdiff.internalId hget hget').symm, hstate⟩

theorem exists_mem_updatedMNs (hget : L.getMN h = some d) (hget' : L'.getMN h = some d')
    (hne : (CDeterministicMNStateDiff.ofStates d.pdmnState d'.pdmnState).fields ≠ 0) :
    ∃ e ∈ diff.updatedMNs.entries, e.1 = d.internalId := by
  have hlookup := (lookup_updatedMNs hdiff.repOk').mpr
    (mem_stateDiffs.mpr ⟨h, d, d', hget, hget', hne, rfl⟩)
  obtain ⟨stateDiff, hfound, -⟩ := exists_of_rel' (hsame.updated d'.internalId) hlookup
  exact ⟨_, AList.mem_lookup_iff.mp hfound, (hdiff.internalId hget hget').symm⟩

theorem exists_applyUpdates (hstage : Stage L L' (gone L L' ∪ new L L') l) :
    ∃ l', diff.updatedMNs.entries.foldlM updateById l = .ok l' ∧
      Stage L L' (gone L L' ∪ new L L' ∪
        {h | h ∈ diff.updatedMNs.entries.map fun e => L.hashOf e.1}) l' := by
  refine exists_foldlM_marks (fun e : (_ : Nat) × CDeterministicMNStateDiff => L.hashOf e.1)
    ?_ ?_ hstage ?_
  · have hnodup : diff.updatedMNs.entries.Nodup := List.Nodup.of_map _ diff.updatedMNs.nodupKeys
    refine hnodup.map_on fun e he e' he' heq => ?_
    obtain ⟨h, d, _, hget, -, hid, -⟩ := exists_of_mem_updatedMNs hdiff hsame he
    obtain ⟨h', d', _, hget', -, hid', -⟩ := exists_of_mem_updatedMNs hdiff hsame he'
    rw [hid, hid', hdiff.repOk.hashOf_eq hget, hdiff.repOk.hashOf_eq hget'] at heq
    rw [heq, hget'] at hget
    have hkey : e.1 = e'.1 := by rw [hid, hid', Option.some.inj hget]
    have hvalue := AList.mem_lookup_iff.mpr he'
    rw [← hkey, AList.mem_lookup_iff.mpr he] at hvalue
    exact Sigma.ext hkey (heq_of_eq (Option.some.inj hvalue))
  · intro e he hdone
    obtain ⟨h, d, d', hget, hget', hid, -⟩ := exists_of_mem_updatedMNs hdiff hsame he
    rw [hid, hdiff.repOk.hashOf_eq hget] at hdone
    obtain ⟨_, -, hnone⟩ | ⟨_, hnone, -⟩ := hdone
    · rw [hget'] at hnone
      cases hnone
    · rw [hget] at hnone
      cases hnone
  · intro e l done he hsub hnot hl
    obtain ⟨h, d, d', hget, hget', hid, hstate⟩ := exists_of_mem_updatedMNs hdiff hsame he
    rw [hid, hdiff.repOk.hashOf_eq hget] at hnot ⊢
    have hlisted : l.getMN h = some d := by rw [hl.unmarked hnot, hget]
    rw [updateById, hid, hl.repOk.getMNByInternalId hlisted]
    refine hl.exists_updateDmn hdiff (fun hget hgone => hsub (.inl ⟨_, hget, hgone⟩)) hnot hget hget' ?_
    exact (hstate.applyToState d.pdmnState).trans same_applyToState

theorem exists_applyDiff (blockHash : Uint256) (nHeight : Int) :
    ∃ R, L.applyDiff blockHash nHeight diff = .ok R ∧ R.RepOk ∧
      ∀ h, Option.Rel CDeterministicMN.Same (R.getMN h) (L'.getMN h) := by
  have hstart : Stage L L' ∅ { L with blockHash := blockHash, nHeight := nHeight } :=
    ⟨⟨hdiff.repOk.ids, hdiff.repOk.properties⟩, fun hmem => absurd hmem (Set.notMem_empty _),
      fun _ => rfl⟩
  obtain ⟨l₁, hok₁, hstage₁⟩ := exists_removeAll hdiff hsame hstart
  obtain ⟨l₂, hok₂, hstage₂⟩ := exists_addAll hdiff hsame hstage₁
  obtain ⟨R, hok₃, hstage₃⟩ := exists_applyUpdates hdiff hsame hstage₂
  refine ⟨R, ?_, hstage₃.repOk, fun h => ?_⟩
  · simp only [applyDiff, bind_eq_ok]
    exact ⟨l₁, hok₁, l₂, hok₂, hok₃⟩
  by_cases hmarked : h ∈ gone L L' ∪ new L L' ∪
      {h | h ∈ diff.updatedMNs.entries.map fun e => L.hashOf e.1}
  · exact hstage₃.marked hmarked
  -- a masternode that the difference does not name is the same in both lists
  rw [hstage₃.unmarked hmarked]
  cases hget : L.getMN h with
  | none =>
    cases hget' : L'.getMN h with
    | none => exact .none
    | some d' => exact absurd (.inl (.inr ⟨d', hget, hget'⟩)) hmarked
  | some d =>
    cases hget' : L'.getMN h with
    | none => exact absurd (.inl (.inl ⟨d, hget, hget'⟩)) hmarked
    | some d' =>
      have hzero : (ofStates d.pdmnState d'.pdmnState).fields = 0 := by
        by_contra hne
        obtain ⟨e, he, hid⟩ := exists_mem_updatedMNs hdiff hsame hget hget' hne
        refine hmarked (.inr (mem_map.mpr ⟨e, he, ?_⟩))
        rw [hid, hdiff.repOk.hashOf_eq hget]
      exact .some (hdiff.same_withState hget hget'
        (same_of_fields_eq_zero hzero))

end Phases

def countAfter (n : Nat) (dmns : List CDeterministicMN) : Nat :=
  dmns.foldl (fun n dmn => max (dmn.internalId + 1) n) n

variable {dmns : List CDeterministicMN} {n : Nat}

theorem countAfter_congr {dmns' : List CDeterministicMN}
    (hsame : List.Forall₂ CDeterministicMN.Same dmns dmns') :
    countAfter n dmns = countAfter n dmns' := by
  induction hsame generalizing n with
  | nil => rfl
  | cons hd _ ih =>
    rw [countAfter, countAfter, foldl_cons, foldl_cons, hd.internalId]
    exact ih

theorem countAfter_le {m : Nat} (hn : n ≤ m) (hall : ∀ d ∈ dmns, d.internalId < m) :
    countAfter n dmns ≤ m := by
  induction dmns generalizing n with
  | nil => exact hn
  | cons d dmns ih =>
    rw [countAfter, foldl_cons]
    refine ih ?_ fun d hd => hall d (mem_cons_of_mem _ hd)
    have hd := hall d mem_cons_self
    omega

theorem le_countAfter : n ≤ countAfter n dmns := by
  induction dmns generalizing n with
  | nil => exact le_rfl
  | cons d dmns ih =>
    exact (le_max_right _ _).trans ih

theorem lt_countAfter (hd : d ∈ dmns) : d.internalId < countAfter n dmns := by
  induction dmns generalizing n with
  | nil => cases hd
  | cons d' dmns ih =>
    obtain rfl | hd := mem_cons.mp hd
    · exact Nat.lt_of_lt_of_le (Nat.lt_succ_self _) ((le_max_left _ _).trans le_countAfter)
    · exact ih hd

theorem kept_removeById {id : Nat} (hok : l.removeById id = .ok l') :
    (l'.header, l'.nTotalRegisteredCount) = (l.header, l.nTotalRegisteredCount) := by
  simp only [removeById, bind_eq_ok] at hok
  obtain ⟨d, -, hok⟩ := hok
  rw [header_removeMN hok, count_removeMN hok]

theorem kept_updateById {e : (_ : Nat) × CDeterministicMNStateDiff} (hok : l.updateById e = .ok l') :
    (l'.header, l'.nTotalRegisteredCount) = (l.header, l.nTotalRegisteredCount) := by
  simp only [updateById, bind_eq_ok] at hok
  obtain ⟨d, -, hok⟩ := hok
  rw [header_updateDmn hok, count_updateDmn hok]

theorem count_addAll (hadd : dmns.foldlM (fun result dmn => result.addMN dmn) l = .ok l') :
    l'.nTotalRegisteredCount = countAfter l.nTotalRegisteredCount dmns := by
  induction dmns generalizing l with
  | nil =>
    cases hadd
    rfl
  | cons d dmns ih =>
    rw [foldlM_cons, bind_eq_ok] at hadd
    obtain ⟨mid, hmid, hrest⟩ := hadd
    rw [ih hrest, count_addMN hmid]
    rfl

theorem applyDiff_ok {blockHash : Uint256} {nHeight : Int}
    (happly : L.applyDiff blockHash nHeight diff = .ok R) :
    R.header = (blockHash, nHeight) ∧
      R.nTotalRegisteredCount = countAfter L.nTotalRegisteredCount diff.addedMNs := by
  simp only [applyDiff, bind_eq_ok] at happly
  obtain ⟨l₁, hremove, l₂, hadd, hupdate⟩ := happly
  obtain ⟨hheader₁, hcount₁⟩ := Prod.mk.inj
    (foldlM_kept (g := fun l => (l.header, l.nTotalRegisteredCount)) kept_removeById hremove)
  have hheader₂ := foldlM_kept (g := header) header_addMN hadd
  have hcount₂ := count_addAll hadd
  obtain ⟨hheader₃, hcount₃⟩ := Prod.mk.inj
    (foldlM_kept (g := fun l => (l.header, l.nTotalRegisteredCount)) kept_updateById hupdate)
  constructor
  · rw [hheader₃, hheader₂, hheader₁]
    rfl
  · rw [hcount₃, hcount₂, hcount₁]

structure SameMaps (l l' : CDeterministicMNList) : Prop where
  masternodes : ∀ h, Option.Rel CDeterministicMN.Same (l.getMN h) (l'.getMN h)
  ids : ∀ id, l.mnInternalIdMap.lookup id = l'.mnInternalIdMap.lookup id
  properties : ∀ v, l.mnUniquePropertyMap.lookup v = l'.mnUniquePropertyMap.lookup v

theorem RepOk.sameMaps (hrep : l.RepOk) (hrep' : l'.RepOk)
    (hrel : ∀ h, Option.Rel CDeterministicMN.Same (l.getMN h) (l'.getMN h)) : l.SameMaps l' := by
  have howns (h : Uint256) (v : UniqueProperty) : l.Owns h v ↔ l'.Owns h v := by
    constructor
    · rintro ⟨d, hget, hholds⟩
      obtain ⟨d', hget', hsame⟩ := exists_of_rel (hrel h) hget
      exact ⟨d', hget', hsame.holds hholds⟩
    · rintro ⟨d', hget', hholds⟩
      obtain ⟨d, hget, hsame⟩ := exists_of_rel' (hrel h) hget'
      exact ⟨d, hget, hsame.symm.holds hholds⟩
  refine ⟨hrel, fun id => Option.ext fun h => ?_, fun v => Option.ext fun e => ?_⟩
  · rw [hrep.ids, hrep'.ids]
    constructor
    · rintro ⟨d, hget, rfl⟩
      obtain ⟨d', hget', hsame⟩ := exists_of_rel (hrel h) hget
      exact ⟨d', hget', hsame.internalId.symm⟩
    · rintro ⟨d', hget', rfl⟩
      obtain ⟨d, hget, hsame⟩ := exists_of_rel' (hrel h) hget'
      exact ⟨d, hget, hsame.internalId⟩
  · rw [hrep.properties v e.1 e.2, hrep'.properties v e.1 e.2, howns]

end CDeterministicMNList

end Defcon.Evo
