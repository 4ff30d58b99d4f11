import Defcon.Lib.Run
import Defcon.Masternode.Payments

/-!
# The stake modifier

A block index entry gets its stake modifier when the header arrives, computed with a null kernel,
and once more when a proof-of-stake block is connected at or above the gate, computed with the
kernel the block staked. The second write is made before the checks that can still fail, and
headers arrive in any order. What is proved here is that none of this shows: the modifier that
`ConnectBlock` reads from the previous block is a function of the chain below the block.
-/

namespace Defcon.Validation.Stake

open List Option AList
open AList (Map)
open Masternode (isProofOfStake)

/-! ### Blocks and the index -/

structure ConsensusParams where
  lastPowBlock : Int
  nPosStakeModifierV2ActivationHeight : Int

structure CBlock where
  hashPrevBlock : Uint256
  nNonce : UInt32
  vtx : List BlockTx

structure CBlockIndex where
  pprev : Option Uint256
  nHeight : Nat
  nNonce : UInt32
  prevoutStake : COutPoint
  nStakeModifier : Uint256
  deriving DecidableEq

def nullOutPoint : COutPoint := ⟨0, 2 ^ 32 - 1⟩

/-- An entry says proof of work by its nonce, whatever the block carries. -/
def CBlockIndex.isProofOfWork (pindex : CBlockIndex) : Bool :=
  pindex.nNonce ≠ 0

def CBlock.stakePrevout (block : CBlock) : COutPoint :=
  match block.vtx with
  | _ :: coinstake :: _ => coinstake.vin.headD nullOutPoint
  | _ => nullOutPoint

structure Node where
  m_block_index : Map Uint256 CBlockIndex
  /-- The active chain, tip first. -/
  m_chain : List Uint256

/-- What the node runs with. Headers and merkle roots are collision free. -/
structure Setting where
  params : ConsensusParams
  hash : Uint256 → Uint256 → Uint256
  blockOf : Uint256 → CBlock
  hashGenesisBlock : Uint256

namespace Setting

variable (w : Setting)

def stakeModifierFromKernel (nHeight : Int) : Bool :=
  w.params.nPosStakeModifierV2ActivationHeight ≤ nHeight

def computeStakeModifier (pindexPrev : Option CBlockIndex) (kernel : Uint256) : Uint256 :=
  match pindexPrev with
  | none => 0
  | some pindexPrev => w.hash kernel pindexPrev.nStakeModifier

variable (index : Map Uint256 CBlockIndex)

/-- `AddToBlockIndex` for a header whose previous block is looked up in the index. -/
def addToBlockIndex (hash : Uint256) : Map Uint256 CBlockIndex :=
  let block := w.blockOf hash
  let pindexNew : CBlockIndex := ⟨none, 0, block.nNonce, nullOutPoint, 0⟩
  match index.lookup block.hashPrevBlock with
  | none => index.emplace hash pindexNew
  | some pprev => index.emplace hash
      { pindexNew with
        pprev := some block.hashPrevBlock
        nHeight := pprev.nHeight + 1
        nStakeModifier := w.computeStakeModifier (some pprev) pindexNew.prevoutStake.hash }

def checkPosBlockNonce (nHeight : Int) (nNonce : UInt32) : Bool :=
  nHeight ≤ w.params.lastPowBlock ∨ nNonce = 0

def acceptBlockHeader (hash : Uint256) (headerOk : Bool) :
    Except String (Map Uint256 CBlockIndex) :=
  if hash = w.hashGenesisBlock ∨ hash ∈ index then .ok index
  else
    match index.lookup (w.blockOf hash).hashPrevBlock with
    | none => .error "prev-blk-not-found"
    | some pindexPrev =>
      if !w.checkPosBlockNonce (pindexPrev.nHeight + 1) (w.blockOf hash).nNonce then
        .error "bad-pos-nonce"
      else if !headerOk then .error "bad-header"
      else .ok (w.addToBlockIndex index hash)

/-- The verdicts `ConnectBlock` asks for elsewhere. -/
structure ConnectChecks where
  anchorAndBlockOk : Bool
  chainLockOk : Bool
  checkProofOfStake : Uint256 → Bool
  restOk : Bool

/-- `ConnectBlock` on an entry `pindex` whose `pprev` is in the index, as far as the stake goes. -/
def connectBlock (pindex : CBlockIndex) (block : CBlock)
    (checks : ConnectChecks) : CBlockIndex × Except String Unit :=
  let fProofOfStake := isProofOfStake block.vtx
  if !checks.anchorAndBlockOk then (pindex, .error "CheckBlock")
  else if fProofOfStake ∧ (pindex.nHeight : Int) ≤ w.params.lastPowBlock then
    (pindex, .error "pos-early")
  else if !fProofOfStake ∧ w.params.lastPowBlock < pindex.nHeight then (pindex, .error "pow-late")
  else if !checks.chainLockOk then (pindex, .error "bad-chainlock")
  else if fProofOfStake then
    match pindex.pprev.bind index.lookup with
    | none => (pindex, .error "null pprev")
    | some pprev =>
      let pindex := { pindex with
        prevoutStake := if pprev.isProofOfWork then nullOutPoint else block.stakePrevout }
      let pindex := if w.stakeModifierFromKernel pindex.nHeight then
          { pindex with
            nStakeModifier := w.computeStakeModifier (some pprev) pindex.prevoutStake.hash }
        else pindex
      if !checks.checkProofOfStake pprev.nStakeModifier then
        (pindex, .error "Check proof of stake failed.")
      else if !checks.restOk then (pindex, .error "ConnectBlock")
      else (pindex, .ok ())
  else if !checks.restOk then (pindex, .error "ConnectBlock")
  else (pindex, .ok ())

/-! ### Runs -/

inductive Op where
  | header (hash : Uint256) (headerOk : Bool)
  /-- `ConnectTip` for an indexed block on top of the tip. -/
  | connect (hash : Uint256) (checks : ConnectChecks)
  | disconnect
  /-- `TestBlockValidity` for a block on top of the tip. -/
  | justCheck (block : CBlock) (checks : ConnectChecks)

def onTip (node : Node) (pindex : CBlockIndex) : Bool :=
  pindex.pprev.isSome ∧ pindex.pprev = node.m_chain.head?

def indexDummy (node : Node) (block : CBlock) : CBlockIndex :=
  let tip := node.m_chain.head?
  { pprev := tip
    nHeight := ((tip.bind node.m_block_index.lookup).map CBlockIndex.nHeight).getD 0 + 1
    nNonce := block.nNonce
    prevoutStake := nullOutPoint
    nStakeModifier := 0 }

def step (node : Node) : Op → Node
  | .header hash headerOk =>
    match w.acceptBlockHeader node.m_block_index hash headerOk with
    | .error _ => node
    | .ok index => { node with m_block_index := index }
  | .connect hash checks =>
    match node.m_block_index.lookup hash with
    | none => node
    | some pindex =>
      if onTip node pindex then
        match w.connectBlock node.m_block_index pindex (w.blockOf hash) checks with
        | (pindex, verdict) =>
          { m_block_index := node.m_block_index.insert hash pindex
            m_chain := match verdict with
              | .ok () => hash :: node.m_chain
              | .error _ => node.m_chain }
      else node
  | .disconnect =>
    match node.m_chain with
    | _ :: pprev :: chain => { node with m_chain := pprev :: chain }
    | _ => node
  | .justCheck block checks =>
    match w.connectBlock node.m_block_index (indexDummy node block) block checks with
    -- the entry that was written to dies with the caller's frame
    | (_, _) => node

def genesisNode : Node where
  m_block_index := (∅ : Map Uint256 CBlockIndex).insert w.hashGenesisBlock
    ⟨none, 0, (w.blockOf w.hashGenesisBlock).nNonce, nullOutPoint, 0⟩
  m_chain := [w.hashGenesisBlock]

def run (ops : List Op) : Node :=
  ops.foldl w.step w.genesisNode

/-! ### The modifier of a chain -/

/-- The recurrence over a chain, tip first. `kernel` gives the kernel hash of a block, from the
block, its height and the block before it. -/
def modifier (kernel : CBlock → Nat → CBlock → Uint256) : List CBlock → Uint256
  | block :: pprev :: chain =>
    w.hash (kernel block (chain.length + 1) pprev) (modifier kernel (pprev :: chain))
  | _ => 0

def stakedKernel (block : CBlock) (nHeight : Nat) (_pprev : CBlock) : Uint256 :=
  if w.stakeModifierFromKernel nHeight ∧ isProofOfStake block.vtx then block.stakePrevout.hash
  else 0

/-- The kernel hash that is recorded: null also where the previous block says proof of work. -/
def recordedKernel (block : CBlock) (nHeight : Nat) (pprev : CBlock) : Uint256 :=
  if pprev.nNonce ≠ 0 then 0 else w.stakedKernel block nHeight pprev

def activeBlocks (node : Node) : List CBlock :=
  node.m_chain.map w.blockOf

/-! ### What a call does to the index -/

def Rewritten (nHeight : Nat) : Prop :=
  w.params.lastPowBlock < nHeight ∧ w.stakeModifierFromKernel nHeight = true

variable {w} {index : Map Uint256 CBlockIndex} {pindex pprev : CBlockIndex} {block : CBlock}
  {checks : ConnectChecks} {hash : Uint256} {node : Node}

/-- A block is refused or connected without a look at the index, or it is one of proof of stake and
is judged by the entry of its previous block. -/
theorem connectBlock_cases (w : Setting) (pindex : CBlockIndex) (block : CBlock)
    (checks : ConnectChecks) :
    (∃ verdict, (verdict = .ok () → isProofOfStake block.vtx = false ∧
        (pindex.nHeight : Int) ≤ w.params.lastPowBlock) ∧
      ∀ index, w.connectBlock index pindex block checks = (pindex, verdict)) ∨
    isProofOfStake block.vtx = true ∧ w.params.lastPowBlock < pindex.nHeight ∧
      ∃ verdict : Uint256 → Except String Unit, ∀ index,
        w.connectBlock index pindex block checks =
          match pindex.pprev.bind index.lookup with
          | none => (pindex, .error "null pprev")
          | some pprev =>
            let kernel := if pprev.isProofOfWork then nullOutPoint else block.stakePrevout
            ({ pindex with
                prevoutStake := kernel
                nStakeModifier := if w.stakeModifierFromKernel pindex.nHeight then
                    w.hash kernel.hash pprev.nStakeModifier
                  else pindex.nStakeModifier },
              verdict pprev.nStakeModifier) := by
  by_cases hblock : checks.anchorAndBlockOk = true
  swap
  · exact .inl ⟨.error "CheckBlock", nofun, fun index => by simp [connectBlock, hblock]⟩
  by_cases hstake : isProofOfStake block.vtx = true <;>
    by_cases hlate : w.params.lastPowBlock < pindex.nHeight
  · by_cases hlock : checks.chainLockOk = true
    · refine .inr ⟨hstake, hlate, fun modifier =>
        if !checks.checkProofOfStake modifier then .error "Check proof of stake failed."
        else if !checks.restOk then .error "ConnectBlock" else .ok (), fun index => ?_⟩
      simp only [connectBlock, hblock, hstake, hlock, not_le.mpr hlate, Bool.not_true, and_false,
        Bool.false_eq_true, if_false, if_true, false_and]
      cases pindex.pprev.bind index.lookup with
      | none => rfl
      | some pprev =>
        dsimp only
        split <;> [skip; split] <;> cases w.stakeModifierFromKernel pindex.nHeight <;> rfl
    · exact .inl ⟨.error "bad-chainlock", nofun, fun index => by
        simp [connectBlock, hblock, hstake, hlate, hlock]⟩
  · exact .inl ⟨.error "pos-early", nofun, fun index => by
      simp [connectBlock, hblock, hstake, not_lt.mp hlate]⟩
  · exact .inl ⟨.error "pow-late", nofun, fun index => by
      simp [connectBlock, hblock, hstake, hlate]⟩
  · refine .inl ⟨if !checks.chainLockOk then .error "bad-chainlock"
      else if !checks.restOk then .error "ConnectBlock" else .ok (), fun _ =>
        ⟨Bool.not_eq_true _ ▸ hstake, not_lt.mp hlate⟩, fun index => ?_⟩
    simp only [connectBlock, hblock, hstake, hlate, Bool.not_true, Bool.false_eq_true, if_false,
      false_and, and_false]
    split <;> [rfl; split <;> rfl]

theorem connectBlock_entry (w : Setting) (index : Map Uint256 CBlockIndex) (pindex : CBlockIndex)
    (block : CBlock) (checks : ConnectChecks) :
    (w.connectBlock index pindex block checks).1.pprev = pindex.pprev ∧
      (w.connectBlock index pindex block checks).1.nHeight = pindex.nHeight ∧
      (w.connectBlock index pindex block checks).1.nNonce = pindex.nNonce ∧
      (¬w.Rewritten pindex.nHeight →
        (w.connectBlock index pindex block checks).1.nStakeModifier = pindex.nStakeModifier) := by
  rcases w.connectBlock_cases pindex block checks with ⟨_, -, heq⟩ | ⟨-, hlate, _, heq⟩
  · rw [heq]
    exact ⟨rfl, rfl, rfl, fun _ => rfl⟩
  rw [heq]
  cases pindex.pprev.bind index.lookup with
  | none => exact ⟨rfl, rfl, rfl, fun _ => rfl⟩
  | some pprev => exact ⟨rfl, rfl, rfl, fun hnot => if_neg fun hgate => hnot ⟨hlate, hgate⟩⟩

theorem connectBlock_ok (hprev : pindex.pprev.bind index.lookup = some pprev)
    (hok : (w.connectBlock index pindex block checks).2 = .ok ()) :
    (isProofOfStake block.vtx = true ↔ w.params.lastPowBlock < pindex.nHeight) ∧
      (w.Rewritten pindex.nHeight →
        (w.connectBlock index pindex block checks).1.nStakeModifier =
          w.hash (if pprev.isProofOfWork then 0 else block.stakePrevout.hash)
            pprev.nStakeModifier) := by
  rcases w.connectBlock_cases pindex block checks with ⟨_, hkind, heq⟩ | ⟨hstake, hlate, _, heq⟩
  · rw [heq] at hok
    obtain ⟨hwork, hearly⟩ := hkind hok
    exact ⟨by simp [hwork, hearly], fun hrewritten => absurd hrewritten.1 (not_lt.mpr hearly)⟩
  · refine ⟨iff_of_true hstake hlate, fun hrewritten => ?_⟩
    rw [heq, hprev]
    refine (if_pos hrewritten.2).trans ?_
    cases pprev.isProofOfWork <;> rfl

theorem lookup_addToBlockIndex (hnew : hash ∉ index)
    (hprev : index.lookup (w.blockOf hash).hashPrevBlock = some pprev) (hash' : Uint256) :
    (w.addToBlockIndex index hash).lookup hash' =
      if hash' = hash then
        some ⟨some (w.blockOf hash).hashPrevBlock, pprev.nHeight + 1, (w.blockOf hash).nNonce,
          nullOutPoint, w.hash 0 pprev.nStakeModifier⟩
      else index.lookup hash' := by
  unfold addToBlockIndex
  simp only [hprev]
  rw [lookup_emplace, lookup_eq_none.mpr hnew]
  rfl

variable {index' : Map Uint256 CBlockIndex} {chain : List Uint256} {hash' : Uint256}

theorem acceptBlockHeader_ok {headerOk : Bool}
    (hok : w.acceptBlockHeader index hash headerOk = .ok index') :
    index' = index ∨
      hash ∉ index ∧ index' = w.addToBlockIndex index hash ∧
        ∃ pprev, index.lookup (w.blockOf hash).hashPrevBlock = some pprev ∧
          w.checkPosBlockNonce (pprev.nHeight + 1) (w.blockOf hash).nNonce = true := by
  unfold acceptBlockHeader at hok
  split at hok
  · exact Or.inl (Except.ok.inj hok).symm
  rename_i hnew
  split at hok
  · cases hok
  rename_i pprev hprev
  split at hok
  · cases hok
  rename_i hnonce
  split at hok
  · cases hok
  refine Or.inr ⟨fun hmem => hnew (Or.inr hmem), (Except.ok.inj hok).symm, pprev, hprev, ?_⟩
  simpa using hnonce

/-! ### The invariant -/

/-- An entry as the header left it, up to the modifier at the heights where it is rewritten. -/
structure EntryOk (w : Setting) (index : Map Uint256 CBlockIndex) (hash : Uint256)
    (pindex : CBlockIndex) : Prop where
  nNonce : pindex.nNonce = (w.blockOf hash).nNonce
  pos_nonce : pindex.pprev.isSome = true → w.params.lastPowBlock < pindex.nHeight →
    pindex.nNonce = 0
  parent : ∀ hashPrev ∈ pindex.pprev, ∃ pprev, index.lookup hashPrev = some pprev ∧
    pindex.nHeight = pprev.nHeight + 1 ∧
    (¬w.Rewritten pindex.nHeight → pindex.nStakeModifier = w.hash 0 pprev.nStakeModifier)

/-- The entry of the first block of `chain` carries the modifier of `chain`. -/
def CarriesModifier (w : Setting) (index : Map Uint256 CBlockIndex) (hash : Uint256)
    (chain : List Uint256) : Prop :=
  ∃ pindex, index.lookup hash = some pindex ∧ pindex.pprev = chain.head? ∧
    pindex.nHeight = chain.length ∧
    pindex.nStakeModifier = w.modifier w.recordedKernel ((hash :: chain).map w.blockOf)

structure Sound (w : Setting) (node : Node) : Prop where
  nonempty : node.m_chain ≠ []
  entry : ∀ {hash pindex}, node.m_block_index.lookup hash = some pindex →
    EntryOk w node.m_block_index hash pindex
  chain : ∀ {hash chain}, hash :: chain <:+ node.m_chain →
    CarriesModifier w node.m_block_index hash chain

theorem lookup_genesisNode (w : Setting) (hash : Uint256) :
    w.genesisNode.m_block_index.lookup hash =
      if hash = w.hashGenesisBlock then
        some ⟨none, 0, (w.blockOf w.hashGenesisBlock).nNonce, nullOutPoint, 0⟩
      else none := by
  rw [genesisNode, lookup_insert_eq_ite, lookup_empty]

theorem sound_genesisNode (w : Setting) : Sound w w.genesisNode where
  nonempty := cons_ne_nil _ _
  entry := by
    intro hash pindex hlookup
    rw [lookup_genesisNode] at hlookup
    split at hlookup
    · rename_i hgenesis
      cases hlookup
      exact ⟨by rw [hgenesis], (nomatch ·), fun _ => (nomatch ·)⟩
    · cases hlookup
  chain := by
    intro hash chain hsuffix
    rcases suffix_cons_iff.mp hsuffix with heq | hnil
    · cases heq
      refine ⟨_, (lookup_genesisNode w _).trans (if_pos rfl), rfl, rfl, rfl⟩
    · exact absurd (suffix_nil.mp hnil) (cons_ne_nil _ _)

theorem CarriesModifier.insert (hcarries : CarriesModifier w index hash chain) (hne : hash ≠ hash')
    (pindex : CBlockIndex) : CarriesModifier w (index.insert hash' pindex) hash chain := by
  obtain ⟨pindex', hlookup, hrest⟩ := hcarries
  exact ⟨pindex', by rw [lookup_insert_eq_ite, if_neg hne, hlookup], hrest⟩

theorem Sound.addToBlockIndex (hsound : Sound w node) (hnew : hash ∉ node.m_block_index)
    (hprev : node.m_block_index.lookup (w.blockOf hash).hashPrevBlock = some pprev)
    (hnonce : w.checkPosBlockNonce (pprev.nHeight + 1) (w.blockOf hash).nNonce = true) :
    Sound w { node with m_block_index := w.addToBlockIndex node.m_block_index hash } := by
  have hlookup := lookup_addToBlockIndex (w := w) hnew hprev
  have hkept {hash' : Uint256} {pindex : CBlockIndex}
      (hold : node.m_block_index.lookup hash' = some pindex) :
      (w.addToBlockIndex node.m_block_index hash).lookup hash' = some pindex := by
    rw [hlookup, if_neg, hold]
    rintro rfl
    rw [lookup_eq_none.mpr hnew] at hold
    cases hold
  refine ⟨hsound.nonempty, ?_, ?_⟩
  · intro hash' pindex hentry
    rw [hlookup] at hentry
    split at hentry
    · rename_i heq
      subst heq
      cases hentry
      refine ⟨rfl, ?_, ?_⟩
      · intro _ hlate
        rcases of_decide_eq_true hnonce with hle | hzero
        · exact absurd hlate (by push_cast; exact not_lt.mpr hle)
        · exact hzero
      · intro hashPrev hmem
        cases hmem
        exact ⟨pprev, hkept hprev, rfl, fun _ => rfl⟩
    · obtain ⟨hnonce', hpos, hparent⟩ := hsound.entry hentry
      refine ⟨hnonce', hpos, ?_⟩
      intro hashPrev hmem
      obtain ⟨pprev', hprev', hrest⟩ := hparent hashPrev hmem
      exact ⟨pprev', hkept hprev', hrest⟩
  · intro hash' chain hsuffix
    obtain ⟨pindex, hentry, hrest⟩ := hsound.chain hsuffix
    exact ⟨pindex, hkept hentry, hrest⟩

theorem Sound.tip (hsound : Sound w node) :
    ∃ tip chain, node.m_chain = tip :: chain ∧
      CarriesModifier w node.m_block_index tip chain := by
  obtain ⟨tip, chain, hchain⟩ := exists_cons_of_ne_nil hsound.nonempty
  exact ⟨tip, chain, hchain, hsound.chain (hchain ▸ suffix_rfl)⟩

theorem Sound.not_on_chain (hsound : Sound w node)
    (hentry : node.m_block_index.lookup hash = some pindex) (htip : onTip node pindex = true)
    (hsuffix : hash' :: chain <:+ node.m_chain) : hash' ≠ hash := by
  rintro rfl
  obtain ⟨tip, rest, hchain, ptip, htipEntry, -, htipHeight, -⟩ := hsound.tip
  obtain ⟨pindex', hentry', -, hheight, -⟩ := hsound.chain hsuffix
  obtain rfl : pindex = pindex' := some.inj (hentry.symm.trans hentry')
  have hprev : pindex.pprev = some tip := by
    rw [(of_decide_eq_true htip).2, hchain]
    rfl
  obtain ⟨ptip', htipEntry', hsucc, -⟩ := (hsound.entry hentry).parent tip hprev
  obtain rfl : ptip = ptip' := some.inj (htipEntry.symm.trans htipEntry')
  have hle := hsuffix.length_le
  rw [hchain, length_cons, length_cons] at hle
  omega

theorem recordedKernel_eq {hashPrev : Uint256} {nHeight : Nat}
    (hnonce : pprev.nNonce = (w.blockOf hashPrev).nNonce)
    (hstake : isProofOfStake block.vtx = true ↔ w.params.lastPowBlock < nHeight) :
    w.recordedKernel block nHeight (w.blockOf hashPrev) =
      if w.stakeModifierFromKernel nHeight = true ∧ w.params.lastPowBlock < nHeight then
        if pprev.isProofOfWork then 0 else block.stakePrevout.hash
      else 0 := by
  unfold recordedKernel stakedKernel CBlockIndex.isProofOfWork
  by_cases hzero : (w.blockOf hashPrev).nNonce = 0 <;> simp [hnonce, hstake, hzero]

theorem Sound.carries_connect (hsound : Sound w node)
    (hentry : node.m_block_index.lookup hash = some pindex) (htip : onTip node pindex = true)
    (hok : (w.connectBlock node.m_block_index pindex (w.blockOf hash) checks).2 = .ok ()) :
    CarriesModifier w (node.m_block_index.insert hash
      (w.connectBlock node.m_block_index pindex (w.blockOf hash) checks).1) hash node.m_chain ∧
    (isProofOfStake (w.blockOf hash).vtx = true ↔
      w.params.lastPowBlock < node.m_chain.length) := by
  obtain ⟨tip, rest, hchain, pprev, hlookup, -, hheight, hmodifier⟩ := hsound.tip
  have hprev : pindex.pprev = some tip := by
    rw [(of_decide_eq_true htip).2, hchain]
    rfl
  obtain ⟨pprev', hlookup', hsucc, hheader⟩ := (hsound.entry hentry).parent tip hprev
  obtain rfl : pprev = pprev' := some.inj (hlookup.symm.trans hlookup')
  have hbind : pindex.pprev.bind node.m_block_index.lookup = some pprev := by
    rw [hprev, bind_some, hlookup]
  obtain ⟨hstake, hkernel⟩ := connectBlock_ok hbind hok
  obtain ⟨hkeptPrev, hkeptHeight, -, hkeptModifier⟩ :=
    connectBlock_entry w node.m_block_index pindex (w.blockOf hash) checks
  have hnonce := (hsound.entry hlookup).nNonce
  have hlength : pindex.nHeight = node.m_chain.length := by
    rw [hsucc, hheight, hchain, length_cons]
  refine ⟨⟨_, lookup_insert _, ?_, hkeptHeight.trans hlength, ?_⟩, hlength ▸ hstake⟩
  · rw [hkeptPrev, hprev, hchain, head?_cons]
  · have hunfold : w.modifier w.recordedKernel ((hash :: node.m_chain).map w.blockOf) =
        w.hash (w.recordedKernel (w.blockOf hash) pindex.nHeight (w.blockOf tip))
          pprev.nStakeModifier := by
      rw [hchain, hmodifier, hsucc, hheight]
      simp only [map_cons, modifier, length_map]
    rw [hunfold, recordedKernel_eq hnonce hstake]
    by_cases hrewritten : w.Rewritten pindex.nHeight
    · rw [hkernel hrewritten, if_pos hrewritten.symm]
    · rw [hkeptModifier hrewritten, hheader hrewritten, if_neg fun h => hrewritten h.symm]

theorem Sound.entry_connect (hsound : Sound w node)
    (hentry : node.m_block_index.lookup hash = some pindex) {pindex' : CBlockIndex}
    (hentry' : (node.m_block_index.insert hash (w.connectBlock node.m_block_index pindex
      (w.blockOf hash) checks).1).lookup hash' = some pindex') :
    EntryOk w (node.m_block_index.insert hash
      (w.connectBlock node.m_block_index pindex (w.blockOf hash) checks).1) hash' pindex' := by
  obtain ⟨hkeptPrev, hkeptHeight, hkeptNonce, hkeptModifier⟩ :=
    connectBlock_entry w node.m_block_index pindex (w.blockOf hash) checks
  generalize (w.connectBlock node.m_block_index pindex (w.blockOf hash) checks).1 = written at *
  -- the parent of an entry is written to only where the entry's own modifier is rewritten too
  have hparent {hashPrev : Uint256} {pindex : CBlockIndex}
      (h : ∃ pprev, node.m_block_index.lookup hashPrev = some pprev ∧
        pindex.nHeight = pprev.nHeight + 1 ∧
        (¬w.Rewritten pindex.nHeight → pindex.nStakeModifier = w.hash 0 pprev.nStakeModifier)) :
      ∃ pprev, (node.m_block_index.insert hash written).lookup hashPrev = some pprev ∧
        pindex.nHeight = pprev.nHeight + 1 ∧
        (¬w.Rewritten pindex.nHeight → pindex.nStakeModifier = w.hash 0 pprev.nStakeModifier) := by
    obtain ⟨pprev, hlookup, hsucc, hheader⟩ := h
    by_cases heq : hashPrev = hash
    · subst heq
      obtain rfl := some.inj (hentry.symm.trans hlookup)
      refine ⟨written, lookup_insert _, by rw [hsucc, hkeptHeight], ?_⟩
      intro hnot
      rw [hheader hnot, hkeptModifier]
      rintro ⟨hlate, hgate⟩
      refine hnot ⟨by omega, ?_⟩
      have hle := of_decide_eq_true hgate
      exact decide_eq_true (by omega)
    · exact ⟨pprev, by rw [lookup_insert_eq_ite, if_neg heq, hlookup], hsucc, hheader⟩
  rcases lookup_of_insert hentry' with ⟨rfl, rfl⟩ | hentry'
  · obtain ⟨hnonce, hpos, hparentOf⟩ := hsound.entry hentry
    refine ⟨by rw [hkeptNonce, hnonce], by rwa [hkeptPrev, hkeptHeight, hkeptNonce], ?_⟩
    intro hashPrev hmem
    rw [hkeptPrev] at hmem
    refine hparent ?_
    obtain ⟨pprev, hlookup, hsucc, hheader⟩ := hparentOf hashPrev hmem
    refine ⟨pprev, hlookup, by rw [hkeptHeight, hsucc], ?_⟩
    rw [hkeptHeight]
    intro hnot
    rw [hkeptModifier hnot, hheader hnot]
  · obtain ⟨hnonce, hpos, hparentOf⟩ := hsound.entry hentry'
    exact ⟨hnonce, hpos, fun hashPrev hmem => hparent (hparentOf hashPrev hmem)⟩

theorem Sound.step (hsound : Sound w node) (op : Op) : Sound w (w.step node op) := by
  cases op with
  | header hash headerOk =>
    rw [Setting.step]
    split
    · exact hsound
    · rename_i index' hok
      rcases acceptBlockHeader_ok hok with rfl | ⟨hnew, rfl, pprev, hprev, hnonce⟩
      · exact hsound
      · exact hsound.addToBlockIndex hnew hprev hnonce
  | connect hash checks =>
    simp only [Setting.step]
    split
    · exact hsound
    rename_i pindex hentry
    split
    · rename_i htip
      refine ⟨?_, hsound.entry_connect hentry, ?_⟩
      · split
        · exact cons_ne_nil _ _
        · exact hsound.nonempty
      · intro hash' chain hsuffix
        have hold (hsuffix : hash' :: chain <:+ node.m_chain) :=
          (hsound.chain hsuffix).insert (hsound.not_on_chain hentry htip hsuffix)
            (w.connectBlock node.m_block_index pindex (w.blockOf hash) checks).1
        split at hsuffix
        · rename_i hok
          rcases suffix_cons_iff.mp hsuffix with heq | hsuffix
          · cases heq
            exact (hsound.carries_connect hentry htip hok).1
          · exact hold hsuffix
        · exact hold hsuffix
    · exact hsound
  | disconnect =>
    simp only [Setting.step]
    split
    · rename_i tip pprev chain hchain
      refine ⟨cons_ne_nil _ _, hsound.entry, ?_⟩
      intro hash' chain' hsuffix
      refine hsound.chain ?_
      rw [hchain]
      exact hsuffix.trans (suffix_cons _ _)
    · exact hsound
  | justCheck block checks => exact hsound

theorem sound_run (w : Setting) (ops : List Op) : Sound w (w.run ops) := by
  have hrun := Lib.Run.computes w.step w.genesisNode ops
  refine hrun.invariant (I := Sound w) ?_ (sound_genesisNode w)
  rintro node op _ hsound rfl
  exact hsound.step op

/-! ### Block kinds -/

def KindsFit (w : Setting) (node : Node) : Prop :=
  ∀ hash hashPrev chain, hash :: hashPrev :: chain <:+ node.m_chain →
    (isProofOfStake (w.blockOf hash).vtx = true ↔
      w.params.lastPowBlock < (hashPrev :: chain).length)

theorem KindsFit.step (hsound : Sound w node) (hfit : KindsFit w node) (op : Op) :
    KindsFit w (w.step node op) := by
  intro hash hashPrev chain hsuffix
  cases op with
  | header hash headerOk =>
    rw [Setting.step] at hsuffix
    split at hsuffix <;> exact hfit _ _ _ hsuffix
  | connect hash' checks =>
    simp only [Setting.step] at hsuffix
    split at hsuffix
    · exact hfit _ _ _ hsuffix
    rename_i pindex hentry
    split at hsuffix
    · rename_i htip
      dsimp only at hsuffix
      split at hsuffix
      · rename_i hok
        rcases suffix_cons_iff.mp hsuffix with heq | hsuffix
        · obtain ⟨rfl, htail⟩ := cons_eq_cons.mp heq
          rw [htail]
          exact (hsound.carries_connect hentry htip hok).2
        · exact hfit _ _ _ hsuffix
      · exact hfit _ _ _ hsuffix
    · exact hfit _ _ _ hsuffix
  | disconnect =>
    simp only [Setting.step] at hsuffix
    split at hsuffix
    · rename_i tip pprev chain' hchain
      refine hfit _ _ _ ?_
      rw [hchain]
      exact hsuffix.trans (suffix_cons _ _)
    · exact hfit _ _ _ hsuffix
  | justCheck block checks => exact hfit _ _ _ hsuffix

theorem kindsFit_run (w : Setting) (ops : List Op) : KindsFit w (w.run ops) := by
  have hrun := Lib.Run.computes w.step w.genesisNode ops
  refine (hrun.invariant (I := fun node => Sound w node ∧ KindsFit w node) ?_
    ⟨sound_genesisNode w, fun _ _ _ hsuffix => ?_⟩).2
  · rintro node op _ ⟨hsound, hfit⟩ rfl
    exact ⟨hsound.step op, hfit.step hsound op⟩
  · have hle := hsuffix.length_le
    simp [genesisNode] at hle

def prevStakeModifier (node : Node) (pindex : CBlockIndex) : Option Uint256 :=
  (pindex.pprev.bind node.m_block_index.lookup).map CBlockIndex.nStakeModifier

theorem Sound.prevStakeModifier (hsound : Sound w node) (htip : onTip node pindex = true) :
    prevStakeModifier node pindex = some (w.modifier w.recordedKernel (w.activeBlocks node)) := by
  obtain ⟨tip, chain, hchain, pprev, hlookup, -, -, hmodifier⟩ := hsound.tip
  have hprev : pindex.pprev = some tip := by
    rw [(of_decide_eq_true htip).2, hchain]
    rfl
  rw [Setting.prevStakeModifier, hprev, bind_some, hlookup, map_some, hmodifier,
    activeBlocks, hchain]

/-- The kernel is left out only for a block on top of a proof-of-work block. Where the gate is
above the first proof-of-stake block, it is never left out. -/
theorem Sound.modifier_staked (hsound : Sound w node) (hpow : 0 ≤ w.params.lastPowBlock)
    (hgate : w.params.lastPowBlock + 1 < w.params.nPosStakeModifierV2ActivationHeight)
    (hsuffix : chain <:+ node.m_chain) :
    w.modifier w.recordedKernel (chain.map w.blockOf) =
      w.modifier w.stakedKernel (chain.map w.blockOf) := by
  induction chain with
  | nil => rfl
  | cons hash chain ih =>
    have hsuffixPrev := (suffix_cons hash chain).trans hsuffix
    have hrest := ih hsuffixPrev
    cases chain with
    | nil => rfl
    | cons hashPrev chain =>
      obtain ⟨pprev, hentry, hprev, hheight, -⟩ := hsound.chain hsuffixPrev
      have hkernel : w.recordedKernel (w.blockOf hash) (chain.length + 1) (w.blockOf hashPrev) =
          w.stakedKernel (w.blockOf hash) (chain.length + 1) (w.blockOf hashPrev) := by
        rw [recordedKernel, ite_eq_right_iff]
        intro hnonce
        rw [stakedKernel, if_neg]
        rintro ⟨hle, -⟩
        have hle := of_decide_eq_true hle
        push_cast at hle
        -- the previous block is above the last proof-of-work height, and not the genesis block
        have hsome : pprev.pprev.isSome = true := by
          rw [hprev]
          cases chain with
          | nil =>
            simp only [length_nil] at hle
            omega
          | cons => rfl
        have hzero := (hsound.entry hentry).pos_nonce hsome (by omega)
        rw [(hsound.entry hentry).nNonce] at hzero
        exact hnonce hzero
      simp only [map_cons, modifier, length_map] at hrest ⊢
      rw [hkernel, hrest]

/-- The verdict of `ConnectBlock` needs no more of the index than the previous block's nonce and
modifier, and the nonce is not in it. -/
theorem connectBlock_verdict_eq
    (heq : (pindex.pprev.bind index.lookup).map CBlockIndex.nStakeModifier =
      (pindex.pprev.bind index'.lookup).map CBlockIndex.nStakeModifier) :
    (w.connectBlock index pindex block checks).2 = (w.connectBlock index' pindex block checks).2 := by
  rcases w.connectBlock_cases pindex block checks with ⟨_, -, hsame⟩ | ⟨-, -, _, hsame⟩
  · rw [hsame, hsame]
  rw [hsame, hsame]
  cases hprev : pindex.pprev.bind index.lookup with
  | none =>
    rw [hprev, map_none, eq_comm, map_eq_none_iff] at heq
    rw [heq]
  | some pprev =>
    rw [hprev, map_some, eq_comm, map_eq_some_iff] at heq
    obtain ⟨pprev', hprev', hmodifier⟩ := heq
    rw [hprev']
    dsimp only
    rw [hmodifier]

/-- **The stake modifier is a function of the chain**: after any order of calls `ConnectBlock` reads
the modifier that the recurrence gives for the active chain. -/
theorem prevStakeModifier_run (w : Setting) (ops : List Op) (pindex : CBlockIndex)
    (htip : onTip (w.run ops) pindex = true) :
    prevStakeModifier (w.run ops) pindex =
        some (w.modifier w.recordedKernel (w.activeBlocks (w.run ops))) ∧
      (0 ≤ w.params.lastPowBlock →
        w.params.lastPowBlock + 1 < w.params.nPosStakeModifierV2ActivationHeight →
        prevStakeModifier (w.run ops) pindex =
          some (w.modifier w.stakedKernel (w.activeBlocks (w.run ops)))) ∧
      ∀ ops', (w.run ops').m_chain = (w.run ops).m_chain → ∀ block checks,
        (w.connectBlock (w.run ops').m_block_index pindex block checks).2 =
          (w.connectBlock (w.run ops).m_block_index pindex block checks).2 := by
  have hsound := sound_run w ops
  have hread := hsound.prevStakeModifier htip
  refine ⟨hread, ?_, ?_⟩
  · intro hpow hgate
    rw [hread, activeBlocks, hsound.modifier_staked hpow hgate List.suffix_rfl]
  · intro ops' hchain block checks
    have htip' : onTip (w.run ops') pindex = true := by
      rw [onTip, hchain]
      exact htip
    have hread' := (sound_run w ops').prevStakeModifier htip'
    rw [activeBlocks, hchain] at hread'
    exact connectBlock_verdict_eq (hread'.trans hread.symm)

/-! ### The first proof-of-stake block -/

def sampleStakeBlock (hashPrevBlock kernel : Uint256) : CBlock where
  hashPrevBlock := hashPrevBlock
  nNonce := 0
  vtx :=
    [ { hash := 1, vin := [nullOutPoint], vout := [⟨0, []⟩], isAssetUnlock := false,
        assetUnlockFee := none },
      { hash := 2, vin := [⟨kernel, 0⟩], vout := [⟨0, []⟩, ⟨COIN, [1]⟩], isAssetUnlock := false,
        assetUnlockFee := none } ]

def sampleSetting : Setting where
  params := ⟨0, 0⟩
  hash kernel nStakeModifier := kernel + 2 * nStakeModifier + 1
  blockOf hash :=
    if hash = 101 then sampleStakeBlock 100 7
    else if hash = 102 then sampleStakeBlock 101 8
    else ⟨0, 5, []⟩
  hashGenesisBlock := 100

def sampleChecks : ConnectChecks := ⟨true, true, fun _ => true, true⟩

def sampleOps : List Op :=
  [.header 101 true, .header 102 true, .connect 101 sampleChecks]

theorem prevStakeModifier_sample :
    onTip (sampleSetting.run sampleOps)
        (indexDummy (sampleSetting.run sampleOps) (sampleStakeBlock 101 8)) = true ∧
      prevStakeModifier (sampleSetting.run sampleOps)
          (indexDummy (sampleSetting.run sampleOps) (sampleStakeBlock 101 8)) =
        some (sampleSetting.modifier sampleSetting.recordedKernel
          (sampleSetting.activeBlocks (sampleSetting.run sampleOps))) :=
  ⟨by decide +kernel, (prevStakeModifier_run sampleSetting sampleOps _ (by decide +kernel)).1⟩

/-- The first proof-of-stake block is recorded with a null kernel, because its previous block says
proof of work. -/
theorem first_kernel_not_recorded :
    (sampleSetting.run sampleOps).m_chain = [101, 100] ∧
      sampleSetting.stakeModifierFromKernel 1 = true ∧
      onTip (sampleSetting.run sampleOps)
        (indexDummy (sampleSetting.run sampleOps) (sampleStakeBlock 101 8)) = true ∧
      prevStakeModifier (sampleSetting.run sampleOps)
          (indexDummy (sampleSetting.run sampleOps) (sampleStakeBlock 101 8)) ≠
        some (sampleSetting.modifier sampleSetting.stakedKernel
          (sampleSetting.activeBlocks (sampleSetting.run sampleOps))) := by
  decide +kernel

end Setting

end Defcon.Validation.Stake
