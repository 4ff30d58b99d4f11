import Defcon.Evo.ListInvariant
import Defcon.Evo.StateDiff

/-!
# The list operations as calls

`AddMN`, `UpdateMN` and `RemoveMN` change the property map in place, one property after another, and
put a saved copy back before they throw. Here they are computations on a mutable list that is there
whether they return or throw, and a call does what the functions of `MasternodeList` say: the list
they give, or an exception with all maps as they were.
-/

namespace Defcon.Evo

open Lib (Run Guarded Computes)

/-- A call on a list. The list it leaves is kept when it throws. -/
abbrev ListM := ExceptT ListError (StateM CDeterministicMNList)

namespace ListM

variable {α β : Type}

def call (x : ListM α) (l : CDeterministicMNList) : Except ListError α × CDeterministicMNList :=
  x.run.run l

@[simp] theorem call_get (l : CDeterministicMNList) : (get : ListM _).call l = (.ok l, l) :=
  rfl

theorem call_bind (x : ListM α) (f : α → ListM β) (l : CDeterministicMNList) :
    (x >>= f).call l = match x.call l with
      | (.ok a, l') => (f a).call l'
      | (.error e, l') => (.error e, l') := by
  change (ExceptT.run (x >>= f)).run l = _
  rw [ExceptT.run_bind, StateT.run_bind]
  unfold call
  cases x.run.run l with
  | mk result l' => cases result <;> rfl

def setProperties (m : MnUniquePropertyMap) : ListM Unit :=
  modify fun l => { l with mnUniquePropertyMap := m }

variable (proTxHash : Uint256)

def addUniqueProperty (v : UniqueProperty) : ListM Bool := do
  match (← get).mnUniquePropertyMap.addUniqueProperty proTxHash v with
  | none => return false
  | some m => setProperties m; return true

def deleteUniqueProperty (oldValue : UniqueProperty) : ListM Bool := do
  match (← get).mnUniquePropertyMap.deleteUniqueProperty proTxHash oldValue with
  | none => return false
  | some m => setProperties m; return true

def both (x y : ListM Bool) : ListM Bool := do
  let ok ← x
  if ok then y else return false

/-- When the new value cannot be added, the old one is deleted already. -/
def updateUniqueProperty (oldValue newValue : UniqueProperty) : ListM Bool :=
  if oldValue = newValue then return true
  else both (if oldValue.isNull then pure true else deleteUniqueProperty proTxHash oldValue)
    (if newValue.isNull then pure true else addUniqueProperty proTxHash newValue)

/-- `if (!x) { mnUniquePropertyMap = mnUniquePropertyMapSaved; throw ...; }`. -/
def orRestore (mnUniquePropertyMapSaved : MnUniquePropertyMap) (what : String) (x : ListM Bool) :
    ListM Unit := do
  let ok ← x
  if ok then return ()
  else
    setProperties mnUniquePropertyMapSaved
    throw (.runtimeError what)

def addMN (dmn : CDeterministicMN) (fBumpTotalCount : Bool := true) : ListM Unit := do
  let l ← get
  if l.hasMN dmn.proTxHash then
    throw (.runtimeError "AddMN: Can't add a masternode with a duplicate proTxHash=")
  else if (l.mnInternalIdMap.lookup dmn.internalId).isSome then
    throw (.runtimeError "AddMN: Can't add a masternode with a duplicate internalId=")
  else do
    let saved := l.mnUniquePropertyMap
    let state := dmn.pdmnState
    orRestore saved "AddMN: Can't add a masternode with a duplicate collateralOutpoint="
      (addUniqueProperty dmn.proTxHash (.collateralOutpoint dmn.collateralOutpoint))
    orRestore saved "AddMN: Can't add a masternode with a duplicate address="
      (if state.addr = {} then pure true else addUniqueProperty dmn.proTxHash (.addr state.addr))
    orRestore saved "AddMN: Can't add a masternode with a duplicate keyIDOwner="
      (addUniqueProperty dmn.proTxHash (.keyIDOwner state.keyIDOwner))
    orRestore saved "AddMN: Can't add a masternode with a duplicate pubKeyOperator="
      (if state.pubKeyOperator.isNull then pure true
       else addUniqueProperty dmn.proTxHash (.pubKeyOperator state.pubKeyOperator.serialized))
    modify fun l => l.setMN dmn
    modify fun l =>
      { l with mnInternalIdMap := l.mnInternalIdMap.insert dmn.internalId dmn.proTxHash }
    if fBumpTotalCount then
      modify fun l =>
        { l with nTotalRegisteredCount := max (dmn.internalId + 1) l.nTotalRegisteredCount }

def updateDmn (oldDmn : CDeterministicMN) (state : CDeterministicMNState) : ListM Unit := do
  let saved := (← get).mnUniquePropertyMap
  let oldState := oldDmn.pdmnState
  orRestore saved "UpdateMN: Can't update a masternode with a duplicate address="
    (updateUniqueProperty oldDmn.proTxHash (.addr oldState.addr) (.addr state.addr))
  orRestore saved "UpdateMN: Can't update a masternode with a duplicate keyIDOwner="
    (updateUniqueProperty oldDmn.proTxHash (.keyIDOwner oldState.keyIDOwner)
      (.keyIDOwner state.keyIDOwner))
  orRestore saved "UpdateMN: Can't update a masternode with a duplicate pubKeyOperator="
    (updateUniqueProperty oldDmn.proTxHash (.pubKeyOperator oldState.pubKeyOperator.serialized)
      (.pubKeyOperator state.pubKeyOperator.serialized))
  modify fun l => l.setMN { oldDmn with pdmnState := state }

def updateMN (state : CDeterministicMNState) : ListM Unit := do
  match (← get).getMN proTxHash with
  | none => throw (.runtimeError "UpdateMN: Can't find a masternode with proTxHash=")
  | some oldDmn => updateDmn oldDmn state

def updateDiff (oldDmn : CDeterministicMN) (stateDiff : CDeterministicMNStateDiff) : ListM Unit :=
  updateDmn oldDmn (stateDiff.applyToState oldDmn.pdmnState)

def removeMN : ListM Unit := do
  let l ← get
  match l.getMN proTxHash with
  | none => throw (.runtimeError "RemoveMN: Can't find a masternode with proTxHash=")
  | some dmn =>
    let saved := l.mnUniquePropertyMap
    let state := dmn.pdmnState
    orRestore saved "RemoveMN: Can't delete a masternode with a collateralOutpoint="
      (deleteUniqueProperty dmn.proTxHash (.collateralOutpoint dmn.collateralOutpoint))
    orRestore saved "RemoveMN: Can't delete a masternode with a address="
      (if state.addr = {} then pure true
       else deleteUniqueProperty dmn.proTxHash (.addr state.addr))
    orRestore saved "RemoveMN: Can't delete a masternode with a keyIDOwner="
      (deleteUniqueProperty dmn.proTxHash (.keyIDOwner state.keyIDOwner))
    orRestore saved "RemoveMN: Can't delete a masternode with a pubKeyOperator="
      (if state.pubKeyOperator.isNull then pure true
       else deleteUniqueProperty dmn.proTxHash (.pubKeyOperator state.pubKeyOperator.serialized))
    modify fun l => l.eraseMN proTxHash
    modify fun l => { l with mnInternalIdMap := l.mnInternalIdMap.erase dmn.internalId }

/-! ### What the calls do -/

/-- `x` tries `f` on the property map: it returns whether `f` succeeds, and then the map is what
`f` gives. -/
def Tries (x : ListM Bool) (f : MnUniquePropertyMap → Option MnUniquePropertyMap) : Prop :=
  ∀ l, ∃ m, x.call l = (.ok (f l.mnUniquePropertyMap).isSome, { l with mnUniquePropertyMap := m }) ∧
    ∀ m', f l.mnUniquePropertyMap = some m' → m = m'

/-- `x` does `g` on the property map, and puts `saved` back where that fails. -/
def Checks (saved : MnUniquePropertyMap) (x : ListM Unit)
    (g : MnUniquePropertyMap → Except ListError MnUniquePropertyMap) : Prop :=
  ∀ l, x.call l = match g l.mnUniquePropertyMap with
    | .ok m => (.ok (), { l with mnUniquePropertyMap := m })
    | .error e => (.error e, { l with mnUniquePropertyMap := saved })

variable {x : ListM Bool} {f : MnUniquePropertyMap → Option MnUniquePropertyMap}
  {proTxHash : Uint256} {v oldValue newValue : UniqueProperty} {saved : MnUniquePropertyMap}

theorem tries_addUniqueProperty :
    Tries (addUniqueProperty proTxHash v) fun m => m.addUniqueProperty proTxHash v := by
  intro l
  unfold addUniqueProperty
  simp only [call_bind, call_get]
  cases l.mnUniquePropertyMap.addUniqueProperty proTxHash v with
  | none => exact ⟨l.mnUniquePropertyMap, rfl, fun _ h => absurd h.symm (Option.some_ne_none _)⟩
  | some m => exact ⟨m, rfl, fun _ h => Option.some.inj h⟩

theorem tries_deleteUniqueProperty :
    Tries (deleteUniqueProperty proTxHash v) fun m => m.deleteUniqueProperty proTxHash v := by
  intro l
  unfold deleteUniqueProperty
  simp only [call_bind, call_get]
  cases l.mnUniquePropertyMap.deleteUniqueProperty proTxHash v with
  | none => exact ⟨l.mnUniquePropertyMap, rfl, fun _ h => absurd h.symm (Option.some_ne_none _)⟩
  | some m => exact ⟨m, rfl, fun _ h => Option.some.inj h⟩

theorem Tries.unless (htries : Tries x f) (c : Prop) [Decidable c] :
    Tries (if c then pure true else x) fun m => if c then some m else f m := by
  intro l
  split
  · exact ⟨l.mnUniquePropertyMap, rfl, fun _ h => Option.some.inj h⟩
  · exact htries l

theorem Tries.both {y : ListM Bool} {g : MnUniquePropertyMap → Option MnUniquePropertyMap}
    (hx : Tries x f) (hy : Tries y g) : Tries (x.both y) fun m => (f m).bind g := by
  intro l
  beta_reduce
  obtain ⟨m₁, hcall, hm₁⟩ := hx l
  unfold ListM.both
  rw [call_bind, hcall]
  cases hf : f l.mnUniquePropertyMap with
  | none => exact ⟨m₁, rfl, nofun⟩
  | some m =>
    obtain rfl := hm₁ m hf
    exact hy { l with mnUniquePropertyMap := m₁ }

theorem tries_updateUniqueProperty :
    Tries (updateUniqueProperty proTxHash oldValue newValue) fun m =>
      m.updateUniqueProperty proTxHash oldValue newValue := by
  unfold updateUniqueProperty
  by_cases heq : oldValue = newValue
  · intro l
    beta_reduce
    have hkept : l.mnUniquePropertyMap.updateUniqueProperty proTxHash oldValue newValue =
        some l.mnUniquePropertyMap := if_pos heq
    rw [if_pos heq, hkept]
    exact ⟨l.mnUniquePropertyMap, rfl, fun _ h => Option.some.inj h⟩
  · simp only [if_neg heq, CDeterministicMNList.updateUniqueProperty_of_ne heq]
    exact (tries_deleteUniqueProperty.unless _).both (tries_addUniqueProperty.unless _)

theorem Tries.orRestore (htries : Tries x f) (saved : MnUniquePropertyMap) (what : String) :
    Checks saved (orRestore saved what x) fun m => Lib.need (.runtimeError what) (f m) := by
  intro l
  beta_reduce
  obtain ⟨m, hcall, hm⟩ := htries l
  unfold ListM.orRestore
  rw [call_bind, hcall]
  cases hf : f l.mnUniquePropertyMap with
  | none => rfl
  | some m' =>
    obtain rfl := hm m' hf
    rfl

/-- What a call does of which `result` says the list it gives or the exception it throws. -/
def outcome (l : CDeterministicMNList) (result : Except ListError CDeterministicMNList) :
    Except ListError Unit × CDeterministicMNList :=
  match result with
  | .ok l' => (.ok (), l')
  | .error e => (.error e, l)

/-- From any property map on, the rest `y` of a call on `l` does what `g` says. -/
def Ends (l : CDeterministicMNList) (y : ListM Unit)
    (g : MnUniquePropertyMap → Except ListError CDeterministicMNList) : Prop :=
  ∀ m, y.call { l with mnUniquePropertyMap := m } = outcome l (g m)

variable {l : CDeterministicMNList} {dmn : CDeterministicMN} {state : CDeterministicMNState}

theorem Ends.check {x y : ListM Unit} {gx : MnUniquePropertyMap → Except ListError MnUniquePropertyMap}
    {gy : MnUniquePropertyMap → Except ListError CDeterministicMNList} (hy : Ends l y gy)
    (hx : Checks l.mnUniquePropertyMap x gx) : Ends l (do x; y) fun m => gx m >>= gy := by
  intro m
  beta_reduce
  rw [call_bind, hx { l with mnUniquePropertyMap := m }]
  cases gx m with
  | error e => rfl
  | ok m' => exact hy m'

theorem call_addMN (fBumpTotalCount : Bool) :
    (addMN dmn fBumpTotalCount).call l = outcome l (l.addMN dmn fBumpTotalCount) := by
  unfold addMN CDeterministicMNList.addMN
  rw [call_bind, call_get]
  dsimp only
  cases l.hasMN dmn.proTxHash with
  | true => rfl
  | false =>
    cases (l.mnInternalIdMap.lookup dmn.internalId).isSome with
    | true => rfl
    | false =>
      have hfinish : Ends l (do
          modify fun l => l.setMN dmn
          modify fun l =>
            { l with mnInternalIdMap := l.mnInternalIdMap.insert dmn.internalId dmn.proTxHash }
          if fBumpTotalCount then
            modify fun l =>
              { l with nTotalRegisteredCount := max (dmn.internalId + 1) l.nTotalRegisteredCount })
          fun m => .ok { l.setMN dmn with
            mnInternalIdMap := l.mnInternalIdMap.insert dmn.internalId dmn.proTxHash
            mnUniquePropertyMap := m
            nTotalRegisteredCount :=
              if fBumpTotalCount then max (dmn.internalId + 1) l.nTotalRegisteredCount
              else l.nTotalRegisteredCount } := by
        intro m
        cases fBumpTotalCount <;> rfl
      exact hfinish.check ((tries_addUniqueProperty.unless _).orRestore _ _)
        |>.check (tries_addUniqueProperty.orRestore _ _)
        |>.check ((tries_addUniqueProperty.unless _).orRestore _ _)
        |>.check (tries_addUniqueProperty.orRestore _ _) l.mnUniquePropertyMap

theorem call_updateDmn : (updateDmn dmn state).call l = outcome l (l.updateDmn dmn state) := by
  have hfinish : Ends l (modify fun l => l.setMN { dmn with pdmnState := state })
      fun m => .ok { l.setMN { dmn with pdmnState := state } with mnUniquePropertyMap := m } :=
    fun m => rfl
  exact hfinish.check (tries_updateUniqueProperty.orRestore _ _)
    |>.check (tries_updateUniqueProperty.orRestore _ _)
    |>.check (tries_updateUniqueProperty.orRestore _ _) l.mnUniquePropertyMap

theorem call_updateMN : (updateMN proTxHash state).call l = outcome l (l.updateMN proTxHash state) := by
  unfold updateMN CDeterministicMNList.updateMN
  rw [call_bind, call_get]
  dsimp only
  cases l.getMN proTxHash with
  | none => rfl
  | some oldDmn => exact call_updateDmn

theorem call_removeMN : (removeMN proTxHash).call l = outcome l (l.removeMN proTxHash) := by
  unfold removeMN CDeterministicMNList.removeMN
  rw [call_bind, call_get]
  dsimp only
  cases l.getMN proTxHash with
  | none => rfl
  | some dmn =>
    have hfinish : Ends l (do
        modify fun l => l.eraseMN proTxHash
        modify fun l => { l with mnInternalIdMap := l.mnInternalIdMap.erase dmn.internalId })
        fun m => .ok { l.eraseMN proTxHash with
          mnInternalIdMap := l.mnInternalIdMap.erase dmn.internalId
          mnUniquePropertyMap := m } :=
      fun m => rfl
    exact hfinish.check ((tries_deleteUniqueProperty.unless _).orRestore _ _)
      |>.check (tries_deleteUniqueProperty.orRestore _ _)
      |>.check ((tries_deleteUniqueProperty.unless _).orRestore _ _)
      |>.check (tries_deleteUniqueProperty.orRestore _ _) l.mnUniquePropertyMap

end ListM

/-! ### Runs of calls -/

inductive ListCall where
  | addMN (dmn : CDeterministicMN) (fBumpTotalCount : Bool)
  | updateMN (proTxHash : Uint256) (state : CDeterministicMNState)
  | updateDmn (oldDmn : CDeterministicMN) (state : CDeterministicMNState)
  | updateDiff (oldDmn : CDeterministicMN) (stateDiff : CDeterministicMNStateDiff)
  | removeMN (proTxHash : Uint256)

namespace ListCall

def run : ListCall → ListM Unit
  | addMN dmn fBumpTotalCount => ListM.addMN dmn fBumpTotalCount
  | updateMN proTxHash state => ListM.updateMN proTxHash state
  | updateDmn oldDmn state => ListM.updateDmn oldDmn state
  | updateDiff oldDmn stateDiff => ListM.updateDiff oldDmn stateDiff
  | removeMN proTxHash => ListM.removeMN proTxHash

def after (l : CDeterministicMNList) (c : ListCall) : CDeterministicMNList :=
  (c.run.call l).2

/-- A masternode to be updated is passed as the list has it. -/
def UpToDate (l : CDeterministicMNList) : ListCall → Prop
  | updateDmn oldDmn _ => l.getMN oldDmn.proTxHash = some oldDmn
  | updateDiff oldDmn _ => l.getMN oldDmn.proTxHash = some oldDmn
  | _ => True

instance (l : CDeterministicMNList) (c : ListCall) : Decidable (c.UpToDate l) :=
  match c with
  | updateDmn _ _ => inferInstanceAs (Decidable (_ = _))
  | updateDiff _ _ => inferInstanceAs (Decidable (_ = _))
  | addMN _ _ => .isTrue trivial
  | updateMN _ _ => .isTrue trivial
  | removeMN _ => .isTrue trivial

variable {l : CDeterministicMNList} {c : ListCall}

theorem call_cases (c : ListCall) :
    (∃ e, c.run.call l = (.error e, l)) ∨ ∃ l', c.run.call l = (.ok (), l') ∧
      (c.UpToDate l → l.RepOk → l'.RepOk) := by
  have houtcome {result : Except ListError CDeterministicMNList}
      (hcall : c.run.call l = ListM.outcome l result)
      (hok : ∀ l', result = .ok l' → c.UpToDate l → l.RepOk → l'.RepOk) :
      (∃ e, c.run.call l = (.error e, l)) ∨ ∃ l', c.run.call l = (.ok (), l') ∧
        (c.UpToDate l → l.RepOk → l'.RepOk) := by
    cases result with
    | error e => exact .inl ⟨e, hcall⟩
    | ok l' => exact .inr ⟨l', hcall, hok l' rfl⟩
  cases c with
  | addMN dmn fBumpTotalCount =>
    exact houtcome (ListM.call_addMN fBumpTotalCount) fun _ hadd _ hrep => hrep.addMN hadd
  | updateMN proTxHash state =>
    exact houtcome ListM.call_updateMN fun _ hupdate _ hrep => hrep.updateMN hupdate
  | updateDmn oldDmn state | updateDiff oldDmn stateDiff =>
    exact houtcome ListM.call_updateDmn fun _ hupdate hget hrep => hrep.updateDmn hget hupdate
  | removeMN proTxHash =>
    exact houtcome ListM.call_removeMN fun _ hremove _ hrep => hrep.removeMN hremove

theorem repOk_after (hrep : l.RepOk) (hupToDate : c.UpToDate l) : (after l c).RepOk := by
  unfold after
  obtain ⟨e, hcall⟩ | ⟨l', hcall, hok⟩ := call_cases (l := l) c
  · rw [hcall]
    exact hrep
  · rw [hcall]
    exact hok hupToDate hrep

end ListCall

/-- Along every run of calls that pass masternodes as the list has them, the maps are those of the
listed masternodes; a call that throws leaves them. -/
theorem listCalls_repOk {calls : List ListCall} {l : CDeterministicMNList}
    (hrun : Run (Guarded (fun l c => ListCall.UpToDate l c) (Computes ListCall.after)) {} calls l) :
    l.RepOk ∧ ∀ (c : ListCall) (e : ListError) (l' : CDeterministicMNList),
      c.run.call l = (.error e, l') →
        l'.mnMap = l.mnMap ∧ l'.mnInternalIdMap = l.mnInternalIdMap ∧
          l'.mnUniquePropertyMap = l.mnUniquePropertyMap := by
  constructor
  · refine hrun.invariant (I := CDeterministicMNList.RepOk) ?_ CDeterministicMNList.repOk_empty
    rintro l c _ hrep ⟨hupToDate, rfl⟩
    exact ListCall.repOk_after hrep hupToDate
  · intro c e l' hthrow
    obtain ⟨_, hcall⟩ | ⟨_, hcall, -⟩ := ListCall.call_cases (l := l) c
    · rw [hcall] at hthrow
      cases hthrow
      exact ⟨rfl, rfl, rfl⟩
    · rw [hcall] at hthrow
      cases hthrow

namespace SampleCalls

def masternode (n : Nat) (addr : CService) : CDeterministicMN where
  internalId := n
  proTxHash := BitVec.ofNat 256 n
  collateralOutpoint := ⟨BitVec.ofNat 256 n, 0⟩
  nOperatorReward := 0
  nType := .regular
  pdmnState :=
    { keyIDOwner := BitVec.ofNat 160 n
      pubKeyOperator := ⟨some (BitVec.ofNat 384 n), true⟩
      addr := addr }

def reencoding : CDeterministicMNStateDiff :=
  .ofStates (masternode 1 ⟨1, 1⟩).pdmnState
    { (masternode 1 ⟨1, 1⟩).pdmnState with nVersion := 2, pubKeyOperator := ⟨some 1, false⟩ }

def calls : List ListCall :=
  [.addMN (masternode 1 ⟨1, 1⟩) true, .addMN (masternode 2 ⟨1, 1⟩) true,
    .updateDiff (masternode 1 ⟨1, 1⟩) reencoding, .addMN (masternode 2 ⟨2, 1⟩) true, .removeMN 1]

end SampleCalls

open SampleCalls in
theorem listCalls_repOk_sample : (calls.foldl ListCall.after {}).RepOk ∧
    (calls.foldl ListCall.after {}).mnMap.keys = [2] :=
  ⟨(listCalls_repOk (Run.computes_guarded (by decide +kernel))).1, by decide +kernel⟩

open SampleCalls in
/-- An update of a masternode that is not listed puts it in the list, and in no other map. -/
theorem not_repOk_of_unlisted :
    ¬ (ListCall.after {}
      (.updateDmn (masternode 1 ⟨1, 1⟩) (masternode 1 ⟨1, 1⟩).pdmnState)).RepOk := by
  intro hrep
  have hlookup := (hrep.ids 1 1).mpr ⟨masternode 1 ⟨1, 1⟩, by decide +kernel, rfl⟩
  have hnone : (ListCall.after {} (.updateDmn (masternode 1 ⟨1, 1⟩)
      (masternode 1 ⟨1, 1⟩).pdmnState)).mnInternalIdMap.lookup 1 = none := by decide +kernel
  rw [hnone] at hlookup
  cases hlookup

end Defcon.Evo
