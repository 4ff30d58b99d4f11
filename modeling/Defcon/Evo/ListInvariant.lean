import Defcon.Lib.OwnerIndex
import Defcon.Evo.MasternodeList

/-!
# The representation invariant of the list

The three maps of a list describe one set of masternodes: `mnInternalIdMap` is the inverse of the
internal ids in `mnMap`, and `mnUniquePropertyMap` is the exact index of the properties that the
listed masternodes have. Under the invariant the operations fail exactly where two masternodes
would share a property.
-/

namespace Defcon.Evo

open AList (Map)
open Lib (OwnerIndex)
open Lib.OwnerIndex (Exact)
open CDeterministicMN List MnUniquePropertyMap Lib

theorem isNull_pubKeyOperator {k : CBLSLazyPublicKey} :
    (UniqueProperty.pubKeyOperator k.serialized).isNull = k.isNull := by
  simp [UniqueProperty.isNull, CBLSLazyPublicKey.serialized, CBLSLazyPublicKey.isNull]

namespace CDeterministicMN

variable (dmn : CDeterministicMN)

/-- What `AddMN` files and `RemoveMN` deletes: no address and no operator key if there is none. -/
def filedProperties : List UniqueProperty :=
  [UniqueProperty.collateralOutpoint dmn.collateralOutpoint] ++
    (if dmn.pdmnState.addr = {} then [] else [UniqueProperty.addr dmn.pdmnState.addr]) ++
    [UniqueProperty.keyIDOwner dmn.pdmnState.keyIDOwner] ++
    (if dmn.pdmnState.pubKeyOperator.isNull then []
      else [UniqueProperty.pubKeyOperator dmn.pdmnState.pubKeyOperator.serialized])

def Holds (v : UniqueProperty) : Prop :=
  v.isNull = false ∧
    (v = .collateralOutpoint dmn.collateralOutpoint ∨ v = .addr dmn.pdmnState.addr ∨
      v = .keyIDOwner dmn.pdmnState.keyIDOwner ∨
      v = .pubKeyOperator dmn.pdmnState.pubKeyOperator.serialized)

def HasRequired : Prop :=
  dmn.collateralOutpoint.isNull = false ∧ dmn.pdmnState.keyIDOwner ≠ 0

variable {dmn} {v : UniqueProperty}

theorem mem_filedProperties :
    v ∈ dmn.filedProperties ↔
      v = .collateralOutpoint dmn.collateralOutpoint ∨
        (dmn.pdmnState.addr ≠ {} ∧ v = .addr dmn.pdmnState.addr) ∨
        v = .keyIDOwner dmn.pdmnState.keyIDOwner ∨
        (dmn.pdmnState.pubKeyOperator.isNull = false ∧
          v = .pubKeyOperator dmn.pdmnState.pubKeyOperator.serialized) := by
  have hunless {c : Prop} [Decidable c] {w : UniqueProperty} :
      v ∈ (if c then [] else [w]) ↔ ¬ c ∧ v = w := by
    split <;> simp [*]
  rw [filedProperties, mem_append, mem_append, mem_append, hunless, hunless,
    mem_singleton, mem_singleton, or_assoc, or_assoc, Bool.not_eq_true]

theorem holds_iff : dmn.Holds v ↔ v.isNull = false ∧ v ∈ dmn.filedProperties := by
  rw [mem_filedProperties]
  refine and_congr_right fun hv => ?_
  refine or_congr_right (or_congr ?_ (or_congr_right ?_))
  · refine (and_iff_right_of_imp fun heq => ?_).symm
    subst heq
    simpa only [UniqueProperty.isNull, decide_eq_false_iff_not] using hv
  · refine (and_iff_right_of_imp fun heq => ?_).symm
    subst heq
    rwa [isNull_pubKeyOperator] at hv

variable (dmn) in
theorem nodup_filedProperties : dmn.filedProperties.Nodup := by
  unfold filedProperties
  split <;> split <;> simp

theorem hasRequired_iff : dmn.HasRequired ↔ ∀ v ∈ dmn.filedProperties, v.isNull = false := by
  constructor
  · rintro ⟨hcollateral, howner⟩ v hv
    obtain rfl | ⟨haddr, rfl⟩ | rfl | ⟨hkey, rfl⟩ := mem_filedProperties.mp hv
    · exact hcollateral
    · exact decide_eq_false haddr
    · exact decide_eq_false howner
    · rwa [isNull_pubKeyOperator]
  · intro hall
    have howner := hall (.keyIDOwner dmn.pdmnState.keyIDOwner)
      (mem_filedProperties.mpr (.inr (.inr (.inl rfl))))
    exact ⟨hall (.collateralOutpoint dmn.collateralOutpoint) (mem_filedProperties.mpr (.inl rfl)),
      of_decide_eq_false howner⟩

theorem foldlM_filedProperties {f : MnUniquePropertyMap → UniqueProperty → Option MnUniquePropertyMap}
    {m m' : MnUniquePropertyMap} :
    dmn.filedProperties.foldlM f m = some m' ↔
      ∃ m₁, f m (.collateralOutpoint dmn.collateralOutpoint) = some m₁ ∧
        ∃ m₂, (if dmn.pdmnState.addr = {} then some m₁ else f m₁ (.addr dmn.pdmnState.addr)) = some m₂ ∧
          ∃ m₃, f m₂ (.keyIDOwner dmn.pdmnState.keyIDOwner) = some m₃ ∧
            (if dmn.pdmnState.pubKeyOperator.isNull then some m₃
              else f m₃ (.pubKeyOperator dmn.pdmnState.pubKeyOperator.serialized)) = some m' := by
  have hunless {c : Prop} [Decidable c] {v : UniqueProperty} {m : MnUniquePropertyMap} :
      (if c then [] else [v]).foldlM f m = if c then some m else f m v := by
    split <;> simp
  simp only [filedProperties, foldlM_append, foldlM_cons, foldlM_nil, hunless,
    Option.bind_eq_bind, Option.bind_assoc, Option.bind_eq_some_iff, Option.pure_def,
    Option.some.injEq, exists_eq_left']

end CDeterministicMN

/-! ### The property map as an index -/

namespace MnUniquePropertyMap

variable {m m' : MnUniquePropertyMap} {proTxHash h : Uint256} {v : UniqueProperty}
  {vs : List UniqueProperty}

theorem addUniqueProperty_eq :
    m.addUniqueProperty proTxHash v =
      if v.isNull then none else OwnerIndex.add m proTxHash v := by
  unfold addUniqueProperty OwnerIndex.add
  cases m.lookup v <;> rfl

theorem deleteUniqueProperty_eq :
    m.deleteUniqueProperty proTxHash v =
      if v.isNull then none else OwnerIndex.delete m proTxHash v := by
  unfold deleteUniqueProperty OwnerIndex.delete
  cases m.lookup v <;> rfl

theorem foldlM_unless_null {op : MnUniquePropertyMap → UniqueProperty → Option MnUniquePropertyMap} :
    vs.foldlM (fun m v => if v.isNull then none else op m v) m = some m' ↔
      (∀ v ∈ vs, v.isNull = false) ∧ vs.foldlM op m = some m' := by
  induction vs generalizing m with
  | nil => simp
  | cons v vs ih =>
    rw [foldlM_cons, foldlM_cons, forall_mem_cons]
    cases hv : v.isNull with
    | true => simp
    | false =>
      cases hop : op m v with
      | none => simp
      | some mid =>
        simp only [Bool.false_eq_true, if_false, Option.bind_eq_bind, Option.bind_some, ih,
          true_and]

end MnUniquePropertyMap

namespace CDeterministicMNList

def Owns (l : CDeterministicMNList) (h : Uint256) (v : UniqueProperty) : Prop :=
  ∃ dmn, l.getMN h = some dmn ∧ dmn.Holds v

/-- The maps of internal ids and of unique properties are those of the listed masternodes. -/
structure RepOk (l : CDeterministicMNList) : Prop where
  ids : ∀ id h, l.mnInternalIdMap.lookup id = some h ↔
    ∃ dmn, l.getMN h = some dmn ∧ dmn.internalId = id
  properties : Exact l.mnUniquePropertyMap l.Owns

variable {l l' : CDeterministicMNList} {dmn : CDeterministicMN} {state : CDeterministicMNState}
  {h proTxHash : Uint256} {v : UniqueProperty} {fBumpTotalCount : Bool}

theorem repOk_empty : RepOk {} where
  ids id h := by simp [getMN]
  properties := Lib.OwnerIndex.exact_empty fun _ _ ⟨_, hget, _⟩ => by simp [getMN] at hget

/-! ### Adding -/

theorem addMN_eq_ok_iff :
    l.addMN dmn fBumpTotalCount = .ok l' ↔
      l.getMN dmn.proTxHash = none ∧ l.mnInternalIdMap.lookup dmn.internalId = none ∧
        ∃ m, dmn.filedProperties.foldlM (fun m v => m.addUniqueProperty dmn.proTxHash v)
            l.mnUniquePropertyMap = some m ∧
          l' = { l.setMN dmn with
            mnInternalIdMap := l.mnInternalIdMap.insert dmn.internalId dmn.proTxHash
            mnUniquePropertyMap := m
            nTotalRegisteredCount :=
              if fBumpTotalCount then max (dmn.internalId + 1) l.nTotalRegisteredCount
              else l.nTotalRegisteredCount } := by
  have hnew : ¬ l.hasMN dmn.proTxHash = true ↔ l.getMN dmn.proTxHash = none := by
    simp [hasMN]
  have hid : ¬ (l.mnInternalIdMap.lookup dmn.internalId).isSome = true ↔
      l.mnInternalIdMap.lookup dmn.internalId = none := by
    simp
  simp only [addMN, bind_eq_ok, refuseIf_eq_ok, need_eq_ok, pure_eq_ok, hnew, hid,
    foldlM_filedProperties]
  constructor
  · rintro ⟨-, hnew, -, hid, m₁, h₁, m₂, h₂, m₃, h₃, m, h₄, rfl⟩
    exact ⟨hnew, hid, m, ⟨m₁, h₁, m₂, h₂, m₃, h₃, h₄⟩, rfl⟩
  · rintro ⟨hnew, hid, m, ⟨m₁, h₁, m₂, h₂, m₃, h₃, h₄⟩, rfl⟩
    exact ⟨(), hnew, (), hid, m₁, h₁, m₂, h₂, m₃, h₃, m, h₄, rfl⟩

theorem foldlM_addUniqueProperty {vs : List UniqueProperty} {m m' : MnUniquePropertyMap} :
    vs.foldlM (fun m v => m.addUniqueProperty h v) m = some m' ↔
      (∀ v ∈ vs, v.isNull = false) ∧ vs.foldlM (fun m v => OwnerIndex.add m h v) m = some m' := by
  simp only [addUniqueProperty_eq]
  exact foldlM_unless_null

theorem foldlM_deleteUniqueProperty {vs : List UniqueProperty} {m m' : MnUniquePropertyMap} :
    vs.foldlM (fun m v => m.deleteUniqueProperty h v) m = some m' ↔
      (∀ v ∈ vs, v.isNull = false) ∧ vs.foldlM (fun m v => OwnerIndex.delete m h v) m = some m' := by
  simp only [deleteUniqueProperty_eq]
  exact foldlM_unless_null

structure Addable (l : CDeterministicMNList) (dmn : CDeterministicMN) : Prop where
  hash_new : l.getMN dmn.proTxHash = none
  id_new : ∀ {h dmn'}, l.getMN h = some dmn' → dmn'.internalId ≠ dmn.internalId
  hasRequired : dmn.HasRequired
  properties_new : ∀ {v h}, dmn.Holds v → ¬ l.Owns h v

theorem owns_of_getMN_eq {dmn' : CDeterministicMN}
    (hget : ∀ h, l'.getMN h = if h = proTxHash then some dmn' else l.getMN h) :
    l'.Owns h v ↔ if h = proTxHash then dmn'.Holds v else l.Owns h v := by
  unfold Owns
  rw [hget]
  split <;> simp

theorem not_owns_of_getMN (hget : l.getMN h = none) : ¬ l.Owns h v := by
  rintro ⟨dmn, hdmn, -⟩
  rw [hget] at hdmn
  cases hdmn

theorem owns_congr (hget : l'.getMN h = l.getMN h) : l'.Owns h v ↔ l.Owns h v := by
  rw [Owns, Owns, hget]

theorem owns_iff_of_getMN (hget : l.getMN h = some dmn) : l.Owns h v ↔ dmn.Holds v := by
  simp [Owns, hget]

theorem RepOk.exists_addMN (hrep : l.RepOk) (haddable : l.Addable dmn) (fBumpTotalCount : Bool) :
    ∃ l', l.addMN dmn fBumpTotalCount = .ok l' ∧ l'.RepOk := by
  have hnonnull := hasRequired_iff.mp haddable.hasRequired
  have hid : l.mnInternalIdMap.lookup dmn.internalId = none := by
    cases hlookup : l.mnInternalIdMap.lookup dmn.internalId with
    | none => rfl
    | some h =>
      obtain ⟨dmn', hget, heq⟩ := (hrep.ids _ h).mp hlookup
      exact absurd heq (haddable.id_new hget)
  obtain ⟨m, hm, hexact⟩ := hrep.properties.addAll dmn.proTxHash
    dmn.nodup_filedProperties
    (fun v hv h => haddable.properties_new (holds_iff.mpr ⟨hnonnull v hv, hv⟩))
  have hok : l.addMN dmn fBumpTotalCount = .ok _ := addMN_eq_ok_iff.mpr
    ⟨haddable.hash_new, hid, m, foldlM_addUniqueProperty.mpr ⟨hnonnull, hm⟩, rfl⟩
  have hget := (addMN_ok hok).2
  refine ⟨_, hok, fun id h => ?_, hexact.congr fun h v => ?_⟩
  · rw [AList.lookup_insert_eq_ite, hget]
    by_cases hh : h = dmn.proTxHash
    · subst hh
      have hnot : l.mnInternalIdMap.lookup id ≠ some dmn.proTxHash := by
        rw [ne_eq, hrep.ids, haddable.hash_new]
        simp
      by_cases hid : id = dmn.internalId
      · simp [hid]
      · simp [hid, hnot, Ne.symm hid]
    · by_cases hid : id = dmn.internalId
      · subst hid
        simp only [if_true, if_neg hh, Option.some.injEq, Ne.symm hh, false_iff, not_exists, not_and]
        exact fun dmn' hdmn' => haddable.id_new hdmn'
      · rw [if_neg hid, if_neg hh, hrep.ids]
  · rw [owns_of_getMN_eq hget]
    by_cases hh : h = dmn.proTxHash
    · subst hh
      rw [if_pos rfl, holds_iff]
      have hnot := not_owns_of_getMN (v := v) haddable.hash_new
      simp only [hnot, false_or, true_and]
      exact ⟨fun hv => ⟨hnonnull v hv, hv⟩, And.right⟩
    · simp [hh]

theorem RepOk.addable (hrep : l.RepOk) (hadd : l.addMN dmn fBumpTotalCount = .ok l') :
    l.Addable dmn := by
  obtain ⟨hnew, hid, m, hfold, -⟩ := addMN_eq_ok_iff.mp hadd
  obtain ⟨hnonnull, hfold⟩ := foldlM_addUniqueProperty.mp hfold
  refine ⟨hnew, fun {h dmn'} hget heq => ?_, hasRequired_iff.mpr hnonnull,
    fun {v h} hholds => ?_⟩
  · have hlookup := (hrep.ids dmn.internalId h).mpr ⟨dmn', hget, heq⟩
    rw [hid] at hlookup
    cases hlookup
  · exact hrep.properties.of_addAll hfold (fun _ _ => not_owns_of_getMN hnew)
      dmn.nodup_filedProperties v (holds_iff.mp hholds).2 h

theorem RepOk.addMN (hrep : l.RepOk) (hadd : l.addMN dmn fBumpTotalCount = .ok l') : l'.RepOk := by
  obtain ⟨added, hok, hrep'⟩ := hrep.exists_addMN (hrep.addable hadd) fBumpTotalCount
  cases hok.symm.trans hadd
  exact hrep'

/-! ### Removing -/

theorem removeMN_eq_ok_iff (hget : l.getMN proTxHash = some dmn) :
    l.removeMN proTxHash = .ok l' ↔
      ∃ m, dmn.filedProperties.foldlM (fun m v => m.deleteUniqueProperty proTxHash v)
          l.mnUniquePropertyMap = some m ∧
        l' = { l.eraseMN proTxHash with
          mnInternalIdMap := l.mnInternalIdMap.erase dmn.internalId
          mnUniquePropertyMap := m } := by
  obtain rfl := proTxHash_of_getMN hget
  simp only [removeMN, bind_eq_ok, need_eq_ok, pure_eq_ok, hget, Option.some.injEq,
    exists_eq_left', foldlM_filedProperties]
  constructor
  · rintro ⟨m₁, h₁, m₂, h₂, m₃, h₃, m, h₄, rfl⟩
    exact ⟨m, ⟨m₁, h₁, m₂, h₂, m₃, h₃, h₄⟩, rfl⟩
  · rintro ⟨m, ⟨m₁, h₁, m₂, h₂, m₃, h₃, h₄⟩, rfl⟩
    exact ⟨m₁, h₁, m₂, h₂, m₃, h₃, m, h₄, rfl⟩

theorem RepOk.exists_removeMN (hrep : l.RepOk) (hget : l.getMN proTxHash = some dmn)
    (hrequired : dmn.HasRequired) : ∃ l', l.removeMN proTxHash = .ok l' ∧ l'.RepOk := by
  have hnonnull := hasRequired_iff.mp hrequired
  obtain ⟨m, hm, hexact⟩ := hrep.properties.deleteAll proTxHash dmn.nodup_filedProperties
    (fun v hv => ⟨dmn, hget, holds_iff.mpr ⟨hnonnull v hv, hv⟩⟩)
  have hok : l.removeMN proTxHash = .ok _ := (removeMN_eq_ok_iff hget).mpr
    ⟨m, foldlM_deleteUniqueProperty.mpr ⟨hnonnull, hm⟩, rfl⟩
  have hget' := removeMN_ok hok
  refine ⟨_, hok, fun id h => ?_, hexact.congr fun h v => ?_⟩
  · rw [AList.lookup_erase_eq_ite, hget']
    by_cases hid : id = dmn.internalId
    · subst hid
      rw [if_pos rfl]
      refine iff_of_false nofun ?_
      rintro ⟨other, hother, heq⟩
      split at hother
      · cases hother
      next hne =>
        have hsame := (hrep.ids _ h).mpr ⟨other, hother, heq⟩
        rw [(hrep.ids _ proTxHash).mpr ⟨dmn, hget, rfl⟩] at hsame
        exact hne (Option.some.inj hsame).symm
    · rw [if_neg hid, hrep.ids]
      by_cases hh : h = proTxHash
      · subst hh
        simp [hget, Ne.symm hid]
      · rw [if_neg hh]
  · by_cases hh : h = proTxHash
    · subst hh
      refine iff_of_false ?_ (not_owns_of_getMN (by rw [hget', if_pos rfl]))
      rintro ⟨howns, hnot⟩
      exact hnot (holds_iff.mp ((owns_iff_of_getMN hget).mp howns)).2
    · refine Iff.trans ?_ (owns_congr (l := l) (by rw [hget', if_neg hh])).symm
      refine and_iff_left_of_imp fun howns hmem => hh ?_
      exact hrep.properties.unique howns
        ⟨dmn, hget, holds_iff.mpr ⟨hnonnull v hmem, hmem⟩⟩

theorem hasRequired_of_removeMN (hget : l.getMN proTxHash = some dmn)
    (hremove : l.removeMN proTxHash = .ok l') : dmn.HasRequired := by
  obtain ⟨m, hfold, -⟩ := (removeMN_eq_ok_iff hget).mp hremove
  exact hasRequired_iff.mpr (foldlM_deleteUniqueProperty.mp hfold).1

theorem RepOk.removeMN (hrep : l.RepOk) (hremove : l.removeMN proTxHash = .ok l') : l'.RepOk := by
  cases hget : l.getMN proTxHash with
  | none =>
    rw [CDeterministicMNList.removeMN, hget] at hremove
    cases hremove
  | some dmn =>
    obtain ⟨removed, hok, hrep'⟩ :=
      hrep.exists_removeMN hget (hasRequired_of_removeMN hget hremove)
    cases hok.symm.trans hremove
    exact hrep'

/-! ### Updating -/

section Replace

variable {m m' : MnUniquePropertyMap} {owns : Uint256 → UniqueProperty → Prop}
  {oldValue newValue : UniqueProperty} {pairs : List (UniqueProperty × UniqueProperty)}

def Replaced (owns : Uint256 → UniqueProperty → Prop) (proTxHash : Uint256)
    (pairs : List (UniqueProperty × UniqueProperty)) (h : Uint256) (v : UniqueProperty) : Prop :=
  (owns h v ∧ ∀ p ∈ pairs, v ≠ p.1) ∨ h = proTxHash ∧ v.isNull = false ∧ ∃ p ∈ pairs, v = p.2

/-- `proTxHash` owns the old values, and of the new ones only those that stay. -/
structure Replaces (owns : Uint256 → UniqueProperty → Prop) (proTxHash : Uint256)
    (pairs : List (UniqueProperty × UniqueProperty)) : Prop where
  not_null : ∀ {h v}, owns h v → v.isNull = false
  owns_old : ∀ {p}, p ∈ pairs → p.1.isNull = false → owns proTxHash p.1
  new_eq_old : ∀ {p}, p ∈ pairs → owns proTxHash p.2 → p.2 = p.1
  apart : pairs.Pairwise fun p q => p.1 ≠ q.1 ∧ p.1 ≠ q.2 ∧ p.2 ≠ q.1 ∧ p.2 ≠ q.2

theorem updateUniqueProperty_of_ne (hne : oldValue ≠ newValue) :
    m.updateUniqueProperty proTxHash oldValue newValue =
      (if oldValue.isNull then some m else m.deleteUniqueProperty proTxHash oldValue).bind fun m =>
        if newValue.isNull then some m else m.addUniqueProperty proTxHash newValue := by
  rw [updateUniqueProperty, if_neg hne]
  cases oldValue.isNull <;> rfl

section

variable (hexact : Exact m owns) (hnull : ∀ {h v}, owns h v → v.isNull = false)
  (hold : oldValue.isNull = false → owns proTxHash oldValue)

include hexact hnull hold

theorem exists_deleteOld :
    ∃ m', (if oldValue.isNull then some m else m.deleteUniqueProperty proTxHash oldValue) = some m' ∧
      Exact m' fun h v => owns h v ∧ v ≠ oldValue := by
  by_cases hv : oldValue.isNull
  · refine ⟨m, if_pos hv, hexact.congr fun h v => ?_⟩
    refine (and_iff_left_of_imp ?_).symm
    rintro howns rfl
    rw [hnull howns] at hv
    cases hv
  · obtain ⟨m', hm', hexact'⟩ := hexact.delete (hold (by simpa using hv))
    refine ⟨m', ?_, hexact'⟩
    rw [if_neg hv, deleteUniqueProperty_eq, if_neg hv, hm']

theorem exists_updateUniqueProperty (hfree : newValue ≠ oldValue → ∀ h, ¬ owns h newValue) :
    ∃ m', m.updateUniqueProperty proTxHash oldValue newValue = some m' ∧
      Exact m' fun h v => owns h v ∧ v ≠ oldValue ∨ h = proTxHash ∧ v.isNull = false ∧ v = newValue := by
  by_cases heq : oldValue = newValue
  · subst heq
    refine ⟨m, if_pos rfl, hexact.congr fun h v => ?_⟩
    constructor
    · intro howns
      by_cases hv : v = oldValue
      · subst hv
        have hv := hnull howns
        exact .inr ⟨hexact.unique howns (hold hv), hv, rfl⟩
      · exact .inl ⟨howns, hv⟩
    · rintro (⟨howns, -⟩ | ⟨rfl, hv, rfl⟩)
      · exact howns
      · exact hold hv
  obtain ⟨m₁, hm₁, hexact₁⟩ := exists_deleteOld hexact hnull hold
  rw [updateUniqueProperty_of_ne heq, hm₁, Option.bind_some]
  by_cases hv : newValue.isNull
  · refine ⟨m₁, if_pos hv, hexact₁.congr fun h v => ?_⟩
    refine (or_iff_left ?_).symm
    rintro ⟨-, hv', rfl⟩
    rw [hv] at hv'
    cases hv'
  · obtain ⟨m₂, hm₂, hexact₂⟩ := hexact₁.add proTxHash
      fun h howns => hfree (Ne.symm heq) h howns.1
    refine ⟨m₂, ?_, hexact₂.congr fun h v => ?_⟩
    · rw [if_neg hv, addUniqueProperty_eq, if_neg hv, hm₂]
    · refine or_congr_right (and_congr_right fun _ => (and_iff_right_of_imp ?_).symm)
      rintro rfl
      simpa using hv

theorem updateUniqueProperty_eq_none (howns : owns h newValue) (hne : h ≠ proTxHash) :
    m.updateUniqueProperty proTxHash oldValue newValue = none := by
  have hv := hnull howns
  have hchange : oldValue ≠ newValue := by
    rintro rfl
    exact hne (hexact.unique howns (hold hv))
  obtain ⟨m₁, hm₁, hexact₁⟩ := exists_deleteOld hexact hnull hold
  rw [updateUniqueProperty_of_ne hchange, hm₁, Option.bind_some, hv,
    addUniqueProperty_eq, hv]
  exact hexact₁.add_eq_none ⟨howns, Ne.symm hchange⟩ hne

end

theorem Replaces.tail {p : UniqueProperty × UniqueProperty}
    (hreplaces : Replaces owns proTxHash (p :: pairs)) :
    Replaces
      (fun h v => owns h v ∧ v ≠ p.1 ∨ h = proTxHash ∧ v.isNull = false ∧ v = p.2) proTxHash pairs := by
  obtain ⟨hapart, hpairwise⟩ := pairwise_cons.mp hreplaces.apart
  refine ⟨?_, fun hq hv => ?_, ?_, hpairwise⟩
  · rintro h v (⟨howns, -⟩ | ⟨-, hv, -⟩)
    · exact hreplaces.not_null howns
    · exact hv
  · exact .inl ⟨hreplaces.owns_old (mem_cons_of_mem _ hq) hv, Ne.symm (hapart _ hq).1⟩
  · rintro q hq (⟨howns, -⟩ | ⟨-, -, heq⟩)
    · exact hreplaces.new_eq_old (mem_cons_of_mem _ hq) howns
    · exact absurd heq.symm (hapart q hq).2.2.2

theorem Replaces.exists_head {p : UniqueProperty × UniqueProperty}
    (hreplaces : Replaces owns proTxHash (p :: pairs)) (hexact : Exact m owns)
    (hfree : ∀ h, owns h p.2 → h = proTxHash) :
    ∃ m', m.updateUniqueProperty proTxHash p.1 p.2 = some m' ∧
      Exact m' fun h v => owns h v ∧ v ≠ p.1 ∨ h = proTxHash ∧ v.isNull = false ∧ v = p.2 := by
  refine exists_updateUniqueProperty hexact hreplaces.not_null
    (hreplaces.owns_old mem_cons_self) fun hne h howns => ?_
  obtain rfl := hfree h howns
  exact hne (hreplaces.new_eq_old mem_cons_self howns)

theorem exists_updateAll (hexact : Exact m owns) (hreplaces : Replaces owns proTxHash pairs)
    (hfree : ∀ p ∈ pairs, ∀ h, owns h p.2 → h = proTxHash) :
    ∃ m', pairs.foldlM (fun m p => m.updateUniqueProperty proTxHash p.1 p.2) m = some m' ∧
      Exact m' (Replaced owns proTxHash pairs) := by
  induction pairs generalizing m owns with
  | nil => exact ⟨m, rfl, hexact.congr fun h v => by simp [Replaced]⟩
  | cons p pairs ih =>
    obtain ⟨m₁, hm₁, hexact₁⟩ := hreplaces.exists_head hexact (hfree p mem_cons_self)
    obtain ⟨m', hm', hexact'⟩ := ih hexact₁ hreplaces.tail (by
      rintro q hq h (⟨howns, -⟩ | ⟨rfl, -, -⟩)
      · exact hfree q (mem_cons_of_mem _ hq) h howns
      · rfl)
    refine ⟨m', ?_, hexact'.congr fun h v => ?_⟩
    · rw [foldlM_cons, hm₁]
      exact hm'
    · have hapart := (pairwise_cons.mp hreplaces.apart).1
      simp only [Replaced, mem_cons, forall_eq_or_imp, exists_eq_or_imp]
      constructor
      · rintro (⟨⟨howns, hp⟩ | ⟨rfl, hv, hp⟩, hq⟩ | ⟨rfl, hv, hq⟩)
        · exact .inl ⟨howns, hp, hq⟩
        · exact .inr ⟨rfl, hv, .inl hp⟩
        · exact .inr ⟨rfl, hv, .inr hq⟩
      · rintro (⟨howns, hp, hq⟩ | ⟨rfl, hv, rfl | hq⟩)
        · exact .inl ⟨.inl ⟨howns, hp⟩, hq⟩
        · exact .inl ⟨.inr ⟨rfl, hv, rfl⟩, fun q hq => (hapart q hq).2.2.1⟩
        · exact .inr ⟨rfl, hv, hq⟩

theorem of_updateAll (hexact : Exact m owns) (hreplaces : Replaces owns proTxHash pairs)
    (hupdate : pairs.foldlM (fun m p => m.updateUniqueProperty proTxHash p.1 p.2) m = some m') :
    ∀ p ∈ pairs, ∀ h, owns h p.2 → h = proTxHash := by
  induction pairs generalizing m owns with
  | nil => simp
  | cons p pairs ih =>
    have hhead : ∀ h, owns h p.2 → h = proTxHash := by
      intro h howns
      by_contra hne
      rw [foldlM_cons, updateUniqueProperty_eq_none hexact hreplaces.not_null
        (hreplaces.owns_old mem_cons_self) howns hne] at hupdate
      cases hupdate
    obtain ⟨m₁, hm₁, hexact₁⟩ := hreplaces.exists_head hexact hhead
    rw [foldlM_cons, hm₁] at hupdate
    have htail := ih hexact₁ hreplaces.tail hupdate
    have hapart := (pairwise_cons.mp hreplaces.apart).1
    intro q hq h howns
    obtain rfl | hq := mem_cons.mp hq
    · exact hhead h howns
    · exact htail q hq h (.inl ⟨howns, Ne.symm (hapart q hq).2.1⟩)

end Replace

def updatedProperties (oldState state : CDeterministicMNState) :
    List (UniqueProperty × UniqueProperty) :=
  [(.addr oldState.addr, .addr state.addr),
    (.keyIDOwner oldState.keyIDOwner, .keyIDOwner state.keyIDOwner),
    (.pubKeyOperator oldState.pubKeyOperator.serialized,
      .pubKeyOperator state.pubKeyOperator.serialized)]

theorem updateDmn_eq_ok_iff :
    l.updateDmn dmn state = .ok l' ↔
      ∃ m, (updatedProperties dmn.pdmnState state).foldlM
          (fun m p => m.updateUniqueProperty dmn.proTxHash p.1 p.2) l.mnUniquePropertyMap = some m ∧
        l' = { l.setMN (dmn.withState state) with mnUniquePropertyMap := m } := by
  simp only [updateDmn, bind_eq_ok, need_eq_ok, pure_eq_ok, updatedProperties,
    foldlM_cons, foldlM_nil, Option.bind_eq_bind, Option.bind_eq_some_iff, Option.pure_def,
    Option.some.injEq]
  constructor
  · rintro ⟨m₁, h₁, m₂, h₂, m₃, h₃, rfl⟩
    exact ⟨m₃, ⟨m₁, h₁, m₂, h₂, m₃, h₃, rfl⟩, rfl⟩
  · rintro ⟨m, ⟨m₁, h₁, m₂, h₂, m₃, h₃, rfl⟩, rfl⟩
    exact ⟨m₁, h₁, m₂, h₂, m₃, h₃, rfl⟩

theorem replaces_updatedProperties (hget : l.getMN proTxHash = some dmn) :
    Replaces l.Owns proTxHash (updatedProperties dmn.pdmnState state) where
  not_null := fun ⟨_, _, hholds⟩ => hholds.1
  owns_old := by
    intro p hp hv
    refine (owns_iff_of_getMN hget).mpr ⟨hv, ?_⟩
    simp only [updatedProperties, mem_cons, not_mem_nil, or_false] at hp
    obtain rfl | rfl | rfl := hp <;> simp
  new_eq_old := by
    intro p hp howns
    have hholds := ((owns_iff_of_getMN hget).mp howns).2
    simp only [updatedProperties, mem_cons, not_mem_nil, or_false] at hp
    obtain rfl | rfl | rfl := hp <;> simpa using hholds
  apart := by simp [updatedProperties]

def Updatable (l : CDeterministicMNList) (dmn : CDeterministicMN) (state : CDeterministicMNState) :
    Prop :=
  ∀ {v h}, (dmn.withState state).Holds v → l.Owns h v → h = dmn.proTxHash

section

variable (hrep : l.RepOk) (hget : l.getMN dmn.proTxHash = some dmn)

include hrep hget

theorem RepOk.exists_updateDmn (hupdatable : l.Updatable dmn state) :
    ∃ l', l.updateDmn dmn state = .ok l' ∧ l'.RepOk := by
  have hreplaces : Replaces l.Owns dmn.proTxHash (updatedProperties dmn.pdmnState state) :=
    replaces_updatedProperties hget
  obtain ⟨m, hm, hexact⟩ := exists_updateAll hrep.properties hreplaces (by
    intro p hp h howns
    refine hupdatable ⟨hreplaces.not_null howns, ?_⟩ howns
    simp only [updatedProperties, mem_cons, not_mem_nil, or_false] at hp
    obtain rfl | rfl | rfl := hp <;> simp [withState])
  have hok : l.updateDmn dmn state = .ok _ := updateDmn_eq_ok_iff.mpr ⟨m, hm, rfl⟩
  have hget' := updateDmn_ok hok
  refine ⟨_, hok, fun id h => ?_, hexact.congr fun h v => ?_⟩
  · rw [hget']
    refine (hrep.ids id h).trans ?_
    by_cases hh : h = dmn.proTxHash
    · subst hh
      simp [hget, withState]
    · rw [if_neg hh]
  · rw [owns_of_getMN_eq hget']
    by_cases hh : h = dmn.proTxHash
    · subst hh
      rw [if_pos rfl, Replaced, owns_iff_of_getMN hget]
      simp only [updatedProperties, mem_cons, not_mem_nil, or_false, forall_eq_or_imp,
        forall_eq, exists_eq_or_imp, exists_eq_left, true_and]
      constructor
      · rintro (⟨⟨hv, hcases⟩, haddr, howner, hkey⟩ | ⟨hv, hnew⟩)
        · obtain rfl | h | h | h := hcases
          · exact ⟨hv, .inl rfl⟩
          · exact absurd h haddr
          · exact absurd h howner
          · exact absurd h hkey
        · exact ⟨hv, .inr hnew⟩
      · rintro ⟨hv, rfl | hnew⟩
        · exact .inl ⟨⟨hv, .inl rfl⟩, nofun, nofun, nofun⟩
        · exact .inr ⟨hv, hnew⟩
    · rw [if_neg hh, Replaced, or_iff_left (fun hself => hh hself.1)]
      refine and_iff_left_of_imp fun howns p hp heq => hh ?_
      have hv := hreplaces.not_null howns
      rw [heq] at hv howns
      exact hrep.properties.unique howns (hreplaces.owns_old hp hv)

theorem RepOk.updatable (hupdate : l.updateDmn dmn state = .ok l') : l.Updatable dmn state := by
  obtain ⟨m, hm, -⟩ := updateDmn_eq_ok_iff.mp hupdate
  have hnew := of_updateAll hrep.properties (replaces_updatedProperties hget) hm
  obtain ⟨haddr, howner, hkey, -⟩ : _ ∧ _ ∧ _ ∧ _ := by
    simpa only [updatedProperties, forall_mem_cons] using hnew
  rintro v h ⟨hv, rfl | rfl | rfl | rfl⟩ howns
  · exact hrep.properties.unique howns ((owns_iff_of_getMN hget).mpr ⟨hv, .inl rfl⟩)
  · exact haddr h howns
  · exact howner h howns
  · exact hkey h howns

theorem RepOk.updateDmn (hupdate : l.updateDmn dmn state = .ok l') : l'.RepOk := by
  obtain ⟨updated, hok, hrep'⟩ := hrep.exists_updateDmn hget (hrep.updatable hget hupdate)
  cases hok.symm.trans hupdate
  exact hrep'

end

theorem RepOk.updateMN (hrep : l.RepOk) (hupdate : l.updateMN proTxHash state = .ok l') :
    l'.RepOk := by
  simp only [CDeterministicMNList.updateMN, bind_eq_ok, need_eq_ok] at hupdate
  obtain ⟨dmn, hget, hupdate⟩ := hupdate
  refine hrep.updateDmn ?_ hupdate
  rwa [proTxHash_of_getMN hget]

/-! ### What the operations leave alone -/

def header (l : CDeterministicMNList) : Uint256 × Int :=
  (l.blockHash, l.nHeight)

theorem header_addMN (hadd : l.addMN dmn fBumpTotalCount = .ok l') : l'.header = l.header := by
  obtain ⟨-, -, m, -, rfl⟩ := addMN_eq_ok_iff.mp hadd
  rfl

theorem header_updateDmn (hupdate : l.updateDmn dmn state = .ok l') : l'.header = l.header := by
  obtain ⟨m, -, rfl⟩ := updateDmn_eq_ok_iff.mp hupdate
  rfl

theorem exists_of_removeMN (hremove : l.removeMN proTxHash = .ok l') :
    ∃ dmn, l.getMN proTxHash = some dmn := by
  cases hget : l.getMN proTxHash with
  | some dmn => exact ⟨dmn, rfl⟩
  | none =>
    rw [CDeterministicMNList.removeMN, hget] at hremove
    cases hremove

theorem header_removeMN (hremove : l.removeMN proTxHash = .ok l') : l'.header = l.header := by
  obtain ⟨dmn, hget⟩ := exists_of_removeMN hremove
  obtain ⟨m, -, rfl⟩ := (removeMN_eq_ok_iff hget).mp hremove
  rfl

theorem count_addMN (hadd : l.addMN dmn = .ok l') :
    l'.nTotalRegisteredCount = max (dmn.internalId + 1) l.nTotalRegisteredCount := by
  obtain ⟨-, -, m, -, rfl⟩ := addMN_eq_ok_iff.mp hadd
  rfl

theorem count_updateDmn (hupdate : l.updateDmn dmn state = .ok l') :
    l'.nTotalRegisteredCount = l.nTotalRegisteredCount := by
  obtain ⟨m, -, rfl⟩ := updateDmn_eq_ok_iff.mp hupdate
  rfl

theorem count_removeMN (hremove : l.removeMN proTxHash = .ok l') :
    l'.nTotalRegisteredCount = l.nTotalRegisteredCount := by
  obtain ⟨dmn, hget⟩ := exists_of_removeMN hremove
  obtain ⟨m, -, rfl⟩ := (removeMN_eq_ok_iff hget).mp hremove
  rfl

end CDeterministicMNList

end Defcon.Evo
