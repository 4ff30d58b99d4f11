import Defcon.Evo.CoinbaseChainlock
import Defcon.Lib.AssocMap
import Defcon.Lib.Threads

/-!
# The ChainLock handler

`ProcessNewChainLock` runs on the message threads, `AcceptedBlockHeader` on the thread that has
accepted a header and still holds `cs_main`, and `CheckActiveState` on both and on the scheduler. The
handler's lock is taken for each piece of work on its fields and released in between, so each of these
pieces is one step here, and the calls interleave freely between their steps.
-/

namespace Defcon.Llmq

open AList (Map)
open Evo (CChainLockSig VerifyRecSigStatus)
open Lib (BlockTree Run Accepts Guarded Threads)

def SIGN_HEIGHT_OFFSET : Int := 8

/-- `CChainLocksHandler`. The times in `seenChainLocks` only tell which entries are dropped. -/
structure CChainLocksHandler (B : Type) where
  isEnabled : Bool := false
  seenChainLocks : List Uint256 := []
  bestChainLockHash : Uint256 := 0
  bestChainLock : CChainLockSig := .null
  bestChainLockWithKnownBlock : CChainLockSig := .null
  bestChainLockBlockIndex : Option B := none

/-- What the threads share. `cs_main` tells whether a thread that accepts a header holds it. -/
structure LockNode (B : Type) extends CChainLocksHandler B where
  m_block_index : Map Uint256 B
  cs_main : Bool := false

/-- The blocks with their hashes, the heights at which locks are paused, and the check of a
signature against a quorum. -/
structure LockContext (B Q : Type) where
  tree : BlockTree B
  getBlockHash : B → Uint256
  chainLocksV2FormationLead : Int
  nChainLocksV2ActivationHeight : Int
  verifyInsecure : Q → CChainLockSig → Bool

structure NewChainLock where
  peer : NodeId
  clsig : CChainLockSig
  hash : Uint256

inductive MessageProcessingResult where
  | nothing
  | misbehaving (score : Nat)
  | inv (hash : Uint256)
  deriving DecidableEq

/-- Where a thread stands. `CheckActiveState` is called alone or at the start of
`ProcessNewChainLock`, which then goes on with `call`. -/
inductive LockPoint (B : Type) where
  | idle (answer : MessageProcessingResult)
  | loadEnabled (call : Option NewChainLock)
  | storeEnabled (oldIsEnabled : Bool) (call : Option NewChainLock)
  | testEnabled (oldIsEnabled : Bool) (call : Option NewChainLock)
  | reset (call : Option NewChainLock)
  | filter (call : NewChainLock)
  | verify (call : NewChainLock)
  | forget (call : NewChainLock)
  | lookup (call : NewChainLock)
  | record (call : NewChainLock) (pindex : Option B)
  | acceptHeader (block : B) (header_only : Bool)
  | conflict (block : B) (header_only : Bool)
  | addConflicting (block : B)
  | add (block : B)
  | notify (pindexNew : B)

/-- What the rest of the node answers. -/
structure LockAnswers (Q : Type) where
  areChainLocksEnabled : Bool := true
  headerChecked : Bool := true
  activeHeight : Int := 0
  quorum : Option Q := none

inductive LockEvent (B Q : Type) where
  | processNewChainLock (call : NewChainLock)
  | checkActiveState
  | acceptBlockHeader (block : B) (header_only : Bool)
  | advance (answers : LockAnswers Q)
  /-- `Cleanup`, or the bound of the map, drops an entry. -/
  | dropSeen (hash : Uint256)

variable {B Q : Type}

def LockPoint.resume : Option NewChainLock → LockPoint B
  | none => .idle .nothing
  | some call => .filter call

def LockPoint.IsIdle : LockPoint B → Prop
  | .idle _ => True
  | _ => False

namespace LockContext

variable (ctx : LockContext B Q)

/-! ### The pieces of work under the lock -/

def isChainLockPaused (nSignedHeight : Int) : Bool :=
  ctx.chainLocksV2FormationLead ≠ 0 ∧
    ctx.nChainLocksV2ActivationHeight - ctx.chainLocksV2FormationLead ≤ nSignedHeight ∧
    nSignedHeight < ctx.nChainLocksV2ActivationHeight

/-- `VerifyChainLock` with `SelectQuorumForSigning`, which reads the height `-1` as the tip. -/
def verifyChainLock (activeHeight : Int) (quorum : Option Q) (clsig : CChainLockSig) :
    VerifyRecSigStatus :=
  let signHeight := if clsig.nHeight = -1 then activeHeight else clsig.nHeight
  let startBlockHeight := signHeight - SIGN_HEIGHT_OFFSET
  if activeHeight < startBlockHeight ∨ startBlockHeight < 0 then .noQuorum
  else
    match quorum with
    | none => .noQuorum
    | some quorum => if ctx.verifyInsecure quorum clsig then .valid else .invalid

def chainLockSupersedesBest (candidate_height : Int) (current_best : CChainLockSig)
    (pindex : Option B) : Bool :=
  if !current_best.isNull ∧ candidate_height ≤ current_best.nHeight then false
  else
    match pindex with
    | none => true
    | some pindex => ctx.tree.height pindex = candidate_height

/-- The first critical section of `ProcessNewChainLock`; `false` where it returns. -/
def filterSeen (s : LockNode B) (call : NewChainLock) : LockNode B × Bool :=
  if call.hash ∈ s.seenChainLocks then (s, false)
  else
    let s := { s with seenChainLocks := call.hash :: s.seenChainLocks }
    (s, !(!s.bestChainLock.isNull ∧ call.clsig.nHeight ≤ s.bestChainLock.nHeight))

/-- The last one. A lock whose block was not found leaves the known block as it is. -/
def recordChainLock (s : LockNode B) (call : NewChainLock) (pindex : Option B) :
    LockNode B × MessageProcessingResult :=
  if ctx.chainLockSupersedesBest call.clsig.nHeight s.bestChainLock pindex then
    let s := { s with bestChainLockHash := call.hash, bestChainLock := call.clsig }
    match pindex with
    | none => (s, .inv call.hash)
    | some pindex =>
      ({ s with
          bestChainLockWithKnownBlock := call.clsig
          bestChainLockBlockIndex := some pindex }, .inv call.hash)
  else (s, .nothing)

def acceptedBlockHeader (s : LockNode B) (pindexNew : B) : LockNode B :=
  if ctx.getBlockHash pindexNew = s.bestChainLock.blockHash then
    if s.bestChainLock.nHeight ≠ ctx.tree.height pindexNew then s
    else
      { s with
        bestChainLockWithKnownBlock := s.bestChainLock
        bestChainLockBlockIndex := some pindexNew }
  else s

def resetLocks (s : LockNode B) : LockNode B :=
  { s with
    bestChainLockHash := 0
    bestChainLock := .null
    bestChainLockWithKnownBlock := .null
    bestChainLockBlockIndex := none }

def hasConflictingChainLock (s : LockNode B) (nHeight : Nat) (blockHash : Uint256) : Bool :=
  s.isEnabled &&
    match s.bestChainLockBlockIndex with
    | none => false
    | some pindex =>
      if ctx.tree.height pindex < nHeight then false
      else
        match ctx.tree.ancestorAt pindex nHeight with
        | none => false
        | some pAncestor => ctx.getBlockHash pAncestor ≠ blockHash

def addToBlockIndex (s : LockNode B) (block : B) : LockNode B :=
  { s with m_block_index := s.m_block_index.emplace (ctx.getBlockHash block) block }

/-! ### The steps of a thread -/

variable [DecidableEq B]

/-- `AcceptBlockHeader` up to the check for conflicts. Only the genesis block skips the checks. -/
def acceptBlockHeader (s : LockNode B) (headerChecked : Bool) (block : B) (header_only : Bool) :
    LockNode B × LockPoint B :=
  match ctx.tree.parent block with
  | none => ({ s with cs_main := true }, .add block)
  | some pprev =>
    if ctx.getBlockHash block ∈ s.m_block_index then (s, .idle .nothing)
    else if headerChecked ∧ s.m_block_index.lookup (ctx.getBlockHash pprev) = some pprev then
      ({ s with cs_main := true }, .conflict block header_only)
    else (s, .idle .nothing)

/-- The next step of a thread that is in a call, `none` while it waits for `cs_main`. -/
def advance (s : LockNode B) (answers : LockAnswers Q) : LockPoint B → Option (LockNode B × LockPoint B)
  | .idle _ => none
  | .loadEnabled call => some (s, .storeEnabled s.isEnabled call)
  | .storeEnabled oldIsEnabled call =>
    some ({ s with isEnabled := answers.areChainLocksEnabled }, .testEnabled oldIsEnabled call)
  | .testEnabled oldIsEnabled call =>
    some (s, if !oldIsEnabled && s.isEnabled then .reset call else .resume call)
  | .reset call => some (resetLocks s, .resume call)
  | .filter call =>
    match filterSeen s call with
    | (s, true) => some (s, .verify call)
    | (s, false) => some (s, .idle .nothing)
  | .verify call =>
    if ctx.isChainLockPaused call.clsig.nHeight then some (s, .idle .nothing)
    else
      match ctx.verifyChainLock answers.activeHeight answers.quorum call.clsig with
      | .valid => some (s, .lookup call)
      | .noQuorum => some (s, .forget call)
      | .invalid => some (s, .idle (if call.peer ≠ -1 then .misbehaving 10 else .nothing))
  | .forget call =>
    some ({ s with seenChainLocks := s.seenChainLocks.erase call.hash }, .idle .nothing)
  | .lookup call =>
    if s.cs_main then none
    else some (s, .record call (s.m_block_index.lookup call.clsig.blockHash))
  | .record call pindex =>
    let recorded := ctx.recordChainLock s call pindex
    some (recorded.1, .idle recorded.2)
  | .acceptHeader block header_only =>
    if s.cs_main then none
    else some (ctx.acceptBlockHeader s answers.headerChecked block header_only)
  | .conflict block header_only =>
    if ctx.hasConflictingChainLock s (ctx.tree.height block) (ctx.getBlockHash block) then
      if header_only then some ({ s with cs_main := false }, .idle .nothing)
      else some (s, .addConflicting block)
    else some (s, .add block)
  | .addConflicting block =>
    -- a block in conflict is refused, and nobody is told about its entry
    some ({ ctx.addToBlockIndex s block with cs_main := false }, .idle .nothing)
  | .add block =>
    some (ctx.addToBlockIndex s block,
      .notify ((s.m_block_index.lookup (ctx.getBlockHash block)).getD block))
  | .notify pindexNew =>
    some ({ ctx.acceptedBlockHeader s pindexNew with cs_main := false }, .idle .nothing)

def next (s : LockNode B) (p : LockPoint B) : LockEvent B Q → Option (LockNode B × LockPoint B)
  | .advance answers => ctx.advance s answers p
  | .dropSeen hash => some ({ s with seenChainLocks := s.seenChainLocks.erase hash }, p)
  | .processNewChainLock call =>
    match p with
    | .idle _ => some (s, .loadEnabled (some call))
    | _ => none
  | .checkActiveState =>
    match p with
    | .idle _ => some (s, .loadEnabled none)
    | _ => none
  | .acceptBlockHeader block header_only =>
    match p with
    | .idle _ => some (s, .acceptHeader block header_only)
    | _ => none

/-! ### What a step can do -/

structure SameLocks (s t : LockNode B) : Prop where
  best : t.bestChainLock = s.bestChainLock
  known : t.bestChainLockWithKnownBlock = s.bestChainLockWithKnownBlock
  blockIndex : t.bestChainLockBlockIndex = s.bestChainLockBlockIndex
  index : t.m_block_index = s.m_block_index

omit [DecidableEq B] in
theorem SameLocks.refl (s : LockNode B) : SameLocks s s :=
  ⟨rfl, rfl, rfl, rfl⟩

def Plain : LockPoint B → Prop
  | .record _ _ => False
  | .notify _ => False
  | _ => True

inductive LockMove (ctx : LockContext B Q) (s : LockNode B) :
    LockPoint B → LockEvent B Q → LockNode B → LockPoint B → Prop where
  | stay {p e t} (hsame : SameLocks s t) : LockMove ctx s p e t p
  | plain {p e t q} (hsame : SameLocks s t) (hbefore : Plain p) (hafter : Plain q) :
      LockMove ctx s p e t q
  | lookup {call answers} :
      LockMove ctx s (.lookup call) (.advance answers) s
        (.record call (s.m_block_index.lookup call.clsig.blockHash))
  | reset {call answers} : LockMove ctx s (.reset call) (.advance answers) (resetLocks s) (.resume call)
  | record {call pindex answers} :
      LockMove ctx s (.record call pindex) (.advance answers) (ctx.recordChainLock s call pindex).1
        (.idle (ctx.recordChainLock s call pindex).2)
  | addConflicting {block answers} :
      LockMove ctx s (.addConflicting block) (.advance answers)
        { ctx.addToBlockIndex s block with cs_main := false } (.idle .nothing)
  | add {block answers} :
      LockMove ctx s (.add block) (.advance answers) (ctx.addToBlockIndex s block)
        (.notify ((s.m_block_index.lookup (ctx.getBlockHash block)).getD block))
  | notify {pindexNew answers} :
      LockMove ctx s (.notify pindexNew) (.advance answers)
        { ctx.acceptedBlockHeader s pindexNew with cs_main := false } (.idle .nothing)

variable {ctx} {s t : LockNode B} {p q : LockPoint B} {e : LockEvent B Q}

omit [DecidableEq B] in
theorem plain_resume (call : Option NewChainLock) : Plain (LockPoint.resume call : LockPoint B) := by
  cases call with
  | none => trivial
  | some call => trivial

omit [DecidableEq B] in
theorem sameLocks_filterSeen (s : LockNode B) (call : NewChainLock) :
    SameLocks s (filterSeen s call).1 := by
  unfold filterSeen
  split
  · exact .refl s
  · exact ⟨rfl, rfl, rfl, rfl⟩

def Dated : LockEvent B Q → Prop
  | .processNewChainLock call => call.clsig.nHeight ≠ -1
  | _ => True

def HeightOk : LockPoint B → Prop
  | .loadEnabled call => ∀ c, call = some c → c.clsig.nHeight ≠ -1
  | .storeEnabled _ call => ∀ c, call = some c → c.clsig.nHeight ≠ -1
  | .testEnabled _ call => ∀ c, call = some c → c.clsig.nHeight ≠ -1
  | .reset call => ∀ c, call = some c → c.clsig.nHeight ≠ -1
  | .filter call => call.clsig.nHeight ≠ -1
  | .verify call => call.clsig.nHeight ≠ -1
  | .lookup call => 0 ≤ call.clsig.nHeight
  | .record call _ => 0 ≤ call.clsig.nHeight
  | _ => True

omit [DecidableEq B] in
theorem heightOk_resume {call : Option NewChainLock}
    (hcall : ∀ c, call = some c → c.clsig.nHeight ≠ -1) :
    HeightOk (LockPoint.resume call : LockPoint B) := by
  cases call with
  | none => trivial
  | some c => exact hcall c rfl

omit [DecidableEq B] in
theorem nonneg_of_valid {activeHeight : Int} {quorum : Option Q} {clsig : CChainLockSig}
    (hvalid : ctx.verifyChainLock activeHeight quorum clsig = .valid) (hne : clsig.nHeight ≠ -1) :
    0 ≤ clsig.nHeight := by
  unfold verifyChainLock at hvalid
  rw [if_neg hne] at hvalid
  by_cases hrange : activeHeight < clsig.nHeight - SIGN_HEIGHT_OFFSET ∨
      clsig.nHeight - SIGN_HEIGHT_OFFSET < 0
  · rw [if_pos hrange] at hvalid
    cases hvalid
  · rw [SIGN_HEIGHT_OFFSET] at hrange
    omega

theorem acceptBlockHeader_plain (headerChecked : Bool) (block : B) (header_only : Bool) :
    SameLocks s (ctx.acceptBlockHeader s headerChecked block header_only).1 ∧
      Plain (ctx.acceptBlockHeader s headerChecked block header_only).2 ∧
      HeightOk (ctx.acceptBlockHeader s headerChecked block header_only).2 := by
  unfold acceptBlockHeader
  cases ctx.tree.parent block with
  | none => exact ⟨⟨rfl, rfl, rfl, rfl⟩, trivial, trivial⟩
  | some pprev =>
    dsimp only
    split
    · exact ⟨.refl s, trivial, trivial⟩
    split
    · exact ⟨⟨rfl, rfl, rfl, rfl⟩, trivial, trivial⟩
    · exact ⟨.refl s, trivial, trivial⟩

theorem advance_move {answers : LockAnswers Q} (hadvance : ctx.advance s answers p = some (t, q)) :
    LockMove ctx s p (.advance answers) t q ∧ (HeightOk p → HeightOk q) := by
  cases p with
  | idle answer => cases hadvance
  | loadEnabled call =>
    cases hadvance
    exact ⟨.plain (.refl s) trivial trivial, id⟩
  | storeEnabled oldIsEnabled call =>
    cases hadvance
    exact ⟨.plain ⟨rfl, rfl, rfl, rfl⟩ trivial trivial, id⟩
  | forget call =>
    cases hadvance
    exact ⟨.plain ⟨rfl, rfl, rfl, rfl⟩ trivial trivial, id⟩
  | testEnabled oldIsEnabled call =>
    cases hadvance
    split
    · exact ⟨.plain (.refl s) trivial trivial, id⟩
    · exact ⟨.plain (.refl s) trivial (plain_resume call), heightOk_resume⟩
  | reset call =>
    cases hadvance
    exact ⟨.reset, heightOk_resume⟩
  | filter call =>
    have hsame := sameLocks_filterSeen s call
    rw [advance] at hadvance
    rcases hfilter : filterSeen s call with ⟨u, passed⟩
    rw [hfilter] at hadvance hsame
    cases passed with
    | true =>
      cases hadvance
      exact ⟨.plain hsame trivial trivial, id⟩
    | false =>
      cases hadvance
      exact ⟨.plain hsame trivial trivial, fun _ => trivial⟩
  | verify call =>
    rw [advance] at hadvance
    split at hadvance
    · cases hadvance
      exact ⟨.plain (.refl s) trivial trivial, fun _ => trivial⟩
    cases hstatus : ctx.verifyChainLock answers.activeHeight answers.quorum call.clsig with
    | noQuorum | invalid =>
      rw [hstatus] at hadvance
      cases hadvance
      exact ⟨.plain (.refl s) trivial trivial, fun _ => trivial⟩
    | valid =>
      rw [hstatus] at hadvance
      cases hadvance
      exact ⟨.plain (.refl s) trivial trivial, nonneg_of_valid hstatus⟩
  | lookup call =>
    rw [advance] at hadvance
    split at hadvance
    · cases hadvance
    · cases hadvance
      exact ⟨.lookup, id⟩
  | record call pindex =>
    cases hadvance
    exact ⟨.record, fun _ => trivial⟩
  | acceptHeader block header_only =>
    rw [advance] at hadvance
    split at hadvance
    · cases hadvance
    · have hplain := @acceptBlockHeader_plain _ _ ctx _ s answers.headerChecked block header_only
      rw [Option.some.inj hadvance] at hplain
      exact ⟨.plain hplain.1 trivial hplain.2.1, fun _ => hplain.2.2⟩
  | conflict block header_only =>
    rw [advance] at hadvance
    split at hadvance
    · cases header_only with
      | true =>
        cases hadvance
        exact ⟨.plain ⟨rfl, rfl, rfl, rfl⟩ trivial trivial, id⟩
      | false =>
        cases hadvance
        exact ⟨.plain (.refl s) trivial trivial, id⟩
    · cases hadvance
      exact ⟨.plain (.refl s) trivial trivial, id⟩
  | addConflicting block =>
    cases hadvance
    exact ⟨.addConflicting, id⟩
  | add block =>
    cases hadvance
    exact ⟨.add, id⟩
  | notify pindexNew =>
    cases hadvance
    exact ⟨.notify, id⟩

theorem next_move (hnext : ctx.next s p e = some (t, q)) :
    LockMove ctx s p e t q ∧ (Dated e → HeightOk p → HeightOk q) := by
  cases e with
  | advance answers =>
    obtain ⟨hmove, hheight⟩ := advance_move hnext
    exact ⟨hmove, fun _ => hheight⟩
  | dropSeen hash =>
    cases hnext
    exact ⟨.stay ⟨rfl, rfl, rfl, rfl⟩, fun _ => id⟩
  | processNewChainLock call =>
    cases p with
    | idle answer =>
      cases hnext
      exact ⟨.plain (.refl s) trivial trivial, fun hdated _ c hc => Option.some.inj hc ▸ hdated⟩
    | _ => cases hnext
  | checkActiveState =>
    cases p with
    | idle answer =>
      cases hnext
      exact ⟨.plain (.refl s) trivial trivial, fun _ _ c hc => nomatch hc⟩
    | _ => cases hnext
  | acceptBlockHeader block header_only =>
    cases p with
    | idle answer =>
      cases hnext
      exact ⟨.plain (.refl s) trivial trivial, fun _ => id⟩
    | _ => cases hnext

omit [DecidableEq B] in
theorem recordChainLock_cases (ctx : LockContext B Q) (s : LockNode B) (call : NewChainLock)
    (pindex : Option B) :
    (ctx.recordChainLock s call pindex).1 = s ∨
      (s.bestChainLock.isNull = true ∨ s.bestChainLock.nHeight < call.clsig.nHeight) ∧
        (∀ b, pindex = some b → (ctx.tree.height b : Int) = call.clsig.nHeight) ∧
        (ctx.recordChainLock s call pindex).1 =
          { s with
            bestChainLockHash := call.hash
            bestChainLock := call.clsig
            bestChainLockWithKnownBlock :=
              if pindex.isSome then call.clsig else s.bestChainLockWithKnownBlock
            bestChainLockBlockIndex := pindex <|> s.bestChainLockBlockIndex } := by
  unfold recordChainLock chainLockSupersedesBest
  split
  · exact Or.inl rfl
  next holder =>
  have hnewer : s.bestChainLock.isNull = true ∨ s.bestChainLock.nHeight < call.clsig.nHeight := by
    rw [not_and_or, Bool.not_eq_true', Bool.not_eq_false, Int.not_le] at holder
    exact holder
  cases pindex with
  | none =>
    refine Or.inr ⟨hnewer, ?_, rfl⟩
    intro b hb
    cases hb
  | some b =>
    by_cases hheight : (ctx.tree.height b : Int) = call.clsig.nHeight
    · refine Or.inr ⟨hnewer, ?_, ?_⟩
      · intro b' hb
        cases hb
        exact hheight
      · simp [hheight]
    · refine Or.inl ?_
      simp [hheight]

/-! ### The known block -/

def Filed (ctx : LockContext B Q) (s : LockNode B) : Prop :=
  ∀ {h b}, s.m_block_index.lookup h = some b → ctx.getBlockHash b = h

/-- There is no known block, or it is the entry of the lock with the known block, at the height of
that lock. -/
def KnownBlock (ctx : LockContext B Q) (s : LockNode B) : Prop :=
  s.bestChainLockBlockIndex = none ∧ s.bestChainLockWithKnownBlock = .null ∨
    ∃ b, s.bestChainLockBlockIndex = some b ∧
      s.m_block_index.lookup s.bestChainLockWithKnownBlock.blockHash = some b ∧
      s.bestChainLockWithKnownBlock.nHeight = ctx.tree.height b

/-- What a thread relies on: the block it has found, and the entry it tells about. -/
def Relies (ctx : LockContext B Q) (s : LockNode B) : LockPoint B → Prop
  | .record call pindex =>
    ∀ b, pindex = some b → s.m_block_index.lookup call.clsig.blockHash = some b
  | .notify pindexNew => s.m_block_index.lookup (ctx.getBlockHash pindexNew) = some pindexNew
  | _ => True

section

omit [DecidableEq B]

theorem relies_of_plain (hplain : Plain p) : ctx.Relies s p := by
  cases p with
  | record call pindex => exact hplain.elim
  | notify pindexNew => exact hplain.elim
  | _ => trivial

theorem LockMove.index (hmove : LockMove ctx s p e t q) :
    t.m_block_index = s.m_block_index ∨
      ∃ block, t.m_block_index = s.m_block_index.emplace (ctx.getBlockHash block) block := by
  cases hmove with
  | stay hsame | plain hsame => exact Or.inl hsame.index
  | lookup | reset => exact Or.inl rfl
  | @record call pindex =>
    rcases ctx.recordChainLock_cases s call pindex with hsame | ⟨-, -, hsame⟩ <;> simp [hsame]
  | @addConflicting block | @add block => exact Or.inr ⟨block, rfl⟩
  | @notify pindexNew =>
    unfold acceptedBlockHeader
    split_ifs <;> exact Or.inl rfl

theorem LockMove.lookup_kept (hmove : LockMove ctx s p e t q) {h : Uint256} {b : B}
    (hlookup : s.m_block_index.lookup h = some b) : t.m_block_index.lookup h = some b := by
  rcases hmove.index with hsame | ⟨block, hadded⟩
  · rwa [hsame]
  · rw [hadded]
    exact AList.lookup_emplace_of_lookup hlookup

theorem LockMove.filed (hmove : LockMove ctx s p e t q) (hfiled : ctx.Filed s) : ctx.Filed t := by
  intro h b hlookup
  rcases hmove.index with hsame | ⟨block, hadded⟩
  · exact hfiled (hsame ▸ hlookup)
  · rw [hadded] at hlookup
    rcases AList.lookup_of_emplace hlookup with ⟨rfl, rfl⟩ | hlookup
    · rfl
    · exact hfiled hlookup

theorem LockMove.relies (hmove : LockMove ctx s p e t q) {r : LockPoint B}
    (hrelies : ctx.Relies s r) : ctx.Relies t r := by
  cases r with
  | record call pindex => exact fun b hb => hmove.lookup_kept (hrelies b hb)
  | notify pindexNew => exact hmove.lookup_kept hrelies
  | _ => trivial

theorem acceptedBlockHeader_cases (ctx : LockContext B Q) (s : LockNode B) (pindexNew : B) :
    ctx.acceptedBlockHeader s pindexNew = s ∧
        ¬(ctx.getBlockHash pindexNew = s.bestChainLock.blockHash ∧
          s.bestChainLock.nHeight = ctx.tree.height pindexNew) ∨
      (ctx.getBlockHash pindexNew = s.bestChainLock.blockHash ∧
          s.bestChainLock.nHeight = ctx.tree.height pindexNew) ∧
        ctx.acceptedBlockHeader s pindexNew =
          { s with
            bestChainLockWithKnownBlock := s.bestChainLock
            bestChainLockBlockIndex := some pindexNew } := by
  unfold acceptedBlockHeader
  split
  next hhash =>
    by_cases hheight : s.bestChainLock.nHeight = ctx.tree.height pindexNew
    · rw [if_neg (not_not.mpr hheight)]
      exact Or.inr ⟨⟨hhash, hheight⟩, rfl⟩
    · rw [if_pos hheight]
      exact Or.inl ⟨rfl, fun h => hheight h.2⟩
  next hhash => exact Or.inl ⟨rfl, fun h => hhash h.1⟩

theorem KnownBlock.of_same (hknown : ctx.KnownBlock s)
    (hlock : t.bestChainLockWithKnownBlock = s.bestChainLockWithKnownBlock)
    (hblock : t.bestChainLockBlockIndex = s.bestChainLockBlockIndex)
    (hkept : ∀ {h b}, s.m_block_index.lookup h = some b → t.m_block_index.lookup h = some b) :
    ctx.KnownBlock t := by
  unfold KnownBlock
  rw [hlock, hblock]
  rcases hknown with hnone | ⟨b, hb, hlookup, hheight⟩
  · exact Or.inl hnone
  · exact Or.inr ⟨b, hb, hkept hlookup, hheight⟩

theorem LockMove.knownBlock (hmove : LockMove ctx s p e t q) (hknown : ctx.KnownBlock s)
    (hrelies : ctx.Relies s p) : ctx.KnownBlock t := by
  have hkept := @LockMove.lookup_kept _ _ _ _ _ _ _ _ hmove
  cases hmove with
  | stay hsame | plain hsame => exact hknown.of_same hsame.known hsame.blockIndex hkept
  | lookup => exact hknown
  | reset => exact Or.inl ⟨rfl, rfl⟩
  | @record call pindex =>
    rcases ctx.recordChainLock_cases s call pindex with hsame | ⟨-, hheight, hsame⟩
    · rwa [hsame]
    rw [hsame]
    cases pindex with
    | none => exact hknown
    | some b => exact Or.inr ⟨b, rfl, hrelies b rfl, (hheight b rfl).symm⟩
  | addConflicting | add => exact hknown.of_same rfl rfl hkept
  | @notify pindexNew =>
    rcases ctx.acceptedBlockHeader_cases s pindexNew with ⟨hsame, -⟩ | ⟨⟨hhash, hheight⟩, hsame⟩
    · rw [hsame]
      exact hknown
    · rw [hsame]
      refine Or.inr ⟨pindexNew, rfl, ?_, hheight⟩
      rw [← hhash]
      exact hrelies

theorem LockMove.relies_own (hmove : LockMove ctx s p e t q) (hfiled : ctx.Filed s)
    (hrelies : ctx.Relies s p) : ctx.Relies t q := by
  have hothers := @LockMove.relies _ _ _ _ _ _ _ _ hmove
  have hfiled' : ctx.Filed t := hmove.filed hfiled
  cases hmove with
  | stay hsame => exact hothers hrelies
  | plain hsame hbefore hafter => exact relies_of_plain hafter
  | lookup => exact fun b hb => hb
  | reset => exact relies_of_plain (plain_resume _)
  | record => trivial
  | addConflicting => trivial
  | @add block =>
    -- the entry that the thread tells about is the new one or the one that was there
    have hentry : (ctx.addToBlockIndex s block).m_block_index.lookup (ctx.getBlockHash block) =
        some ((s.m_block_index.lookup (ctx.getBlockHash block)).getD block) := by
      change (s.m_block_index.emplace _ _).lookup _ = _
      rw [AList.lookup_emplace, if_pos rfl]
    change (ctx.addToBlockIndex s block).m_block_index.lookup (ctx.getBlockHash _) = _
    rw [hfiled' hentry]
    exact hentry
  | notify => trivial

end

/-! ### Interleavings -/

variable {T : Type} [DecidableEq T]

abbrev LockThreads (T B : Type) := Threads T (LockNode B) (LockPoint B)

def step (ctx : LockContext B Q) (s : LockThreads T B) (move : T × LockEvent B Q) :
    Option (LockThreads T B) :=
  s.step ctx.next move

/-- The handler as it is constructed, over a block index with any blocks. -/
structure Initial (ctx : LockContext B Q) (s : LockThreads T B) : Prop where
  best : s.shared.bestChainLock = .null
  known : s.shared.bestChainLockWithKnownBlock = .null
  blockIndex : s.shared.bestChainLockBlockIndex = none
  filed : ctx.Filed s.shared
  idle : ∀ i, (s.pc i).IsIdle

def Quiet (s : LockThreads T B) : Prop :=
  ∀ i, (s.pc i).IsIdle

def Resets (s : LockThreads T B) (move : T × LockEvent B Q) : Prop :=
  ∃ call answers, s.pc move.1 = .reset call ∧ move.2 = .advance answers

abbrev LocksInv (ctx : LockContext B Q) (s : LockThreads T B) : Prop :=
  s.Inv (fun x => ctx.Filed x ∧ ctx.KnownBlock x) ctx.Relies

variable {s₀ x y : LockThreads T B} {move : T × LockEvent B Q} {moves : List (T × LockEvent B Q)}

omit [DecidableEq B] in
theorem exists_of_isIdle (hidle : p.IsIdle) : ∃ answer, p = .idle answer := by
  cases p with
  | idle answer => exact ⟨answer, rfl⟩
  | _ => exact hidle.elim

omit [DecidableEq B] [DecidableEq T] in
theorem Initial.locksInv (hinit : ctx.Initial s₀) : ctx.LocksInv s₀ := by
  refine ⟨⟨hinit.filed, Or.inl ⟨hinit.blockIndex, hinit.known⟩⟩, fun i => ?_⟩
  obtain ⟨answer, hpc⟩ := exists_of_isIdle (hinit.idle i)
  rw [hpc]
  trivial

theorem locksInv_step (hinv : ctx.LocksInv x) (hstep : ctx.step x move = some y) :
    ctx.LocksInv y := by
  refine hinv.step ?_ ?_ hstep
  · intro s p t q hshared hrelies hnext
    have hmove := (next_move hnext).1
    exact ⟨⟨hmove.filed hshared.1, hmove.knownBlock hshared.2 hrelies⟩,
      hmove.relies_own hshared.1 hrelies⟩
  · intro s p t q r _ _ hnext hr
    exact (next_move hnext).1.relies hr

/-! ### Heights -/

omit [DecidableEq B] in
theorem LockMove.best_lt (hmove : LockMove ctx s p e t q) (hok : HeightOk p)
    (hreset : ¬∃ call answers, p = .reset call ∧ e = .advance answers)
    (hchanged : t.bestChainLock ≠ s.bestChainLock) :
    s.bestChainLock.nHeight < t.bestChainLock.nHeight := by
  cases hmove with
  | stay hsame | plain hsame => exact absurd hsame.best hchanged
  | lookup | addConflicting | add => exact absurd rfl hchanged
  | @reset call answers => exact absurd ⟨call, answers, rfl, rfl⟩ hreset
  | @record call pindex =>
    rcases ctx.recordChainLock_cases s call pindex with hsame | ⟨habove, -, hsame⟩
    · rw [hsame] at hchanged
      exact absurd rfl hchanged
    rw [hsame]
    rcases habove with hnull | hlt
    · have hnone : s.bestChainLock.nHeight = -1 := (of_decide_eq_true hnull).1
      have hheight : 0 ≤ call.clsig.nHeight := hok
      change s.bestChainLock.nHeight < call.clsig.nHeight
      omega
    · exact hlt
  | @notify pindexNew =>
    rcases ctx.acceptedBlockHeader_cases s pindexNew with ⟨hsame, -⟩ | ⟨-, hsame⟩
    · rw [hsame] at hchanged
      exact absurd rfl hchanged
    · rw [hsame] at hchanged
      exact absurd rfl hchanged

/-! ### The block of the best lock -/

/-- A lock without a block is recorded only while its block is not known, and no block is added as
one in conflict while the best lock names it. -/
def Orderly (ctx : LockContext B Q) (x : LockThreads T B) (move : T × LockEvent B Q) : Prop :=
  match x.pc move.1, move.2 with
  | .record call none, .advance _ =>
    ∀ b, x.shared.m_block_index.lookup call.clsig.blockHash = some b →
      call.clsig.nHeight ≠ ctx.tree.height b
  | .addConflicting block, .advance _ =>
    ¬(ctx.getBlockHash block = x.shared.bestChainLock.blockHash ∧
      x.shared.bestChainLock.nHeight = ctx.tree.height block)
  | _, _ => True

/-- The block of the best lock, where known, is the known block, or a thread is about to tell the
handler. -/
def Linked (ctx : LockContext B Q) (x : LockThreads T B) : Prop :=
  ∀ b, x.shared.m_block_index.lookup x.shared.bestChainLock.blockHash = some b →
    x.shared.bestChainLock.nHeight = ctx.tree.height b →
    x.shared.bestChainLockBlockIndex = some b ∨ ∃ i, x.pc i = .notify b

omit [DecidableEq B] [DecidableEq T] in
theorem Linked.of_same (hlinked : ctx.Linked x)
    (hbest : y.shared.bestChainLock = x.shared.bestChainLock)
    (hblock : y.shared.bestChainLockBlockIndex = x.shared.bestChainLockBlockIndex)
    (hindex : ∀ b, y.shared.m_block_index.lookup x.shared.bestChainLock.blockHash = some b →
      x.shared.bestChainLock.nHeight = ctx.tree.height b →
      x.shared.m_block_index.lookup x.shared.bestChainLock.blockHash = some b)
    (hnotify : ∀ {i b}, x.pc i = .notify b → ∃ j, y.pc j = .notify b) : ctx.Linked y := by
  intro b hlookup hheight
  rw [hbest] at hlookup hheight
  rw [hblock]
  rcases hlinked b (hindex b hlookup hheight) hheight with hb | ⟨i, hi⟩
  · exact Or.inl hb
  · exact Or.inr (hnotify hi)

theorem linked_step (hlinked : ctx.Linked x) (hinv : ctx.LocksInv x) (horderly : ctx.Orderly x move)
    (hstep : ctx.step x move = some y) : ctx.Linked y := by
  obtain ⟨q, hnext, hpc⟩ := Threads.step_eq_some hstep
  have hmove := (next_move hnext).1
  have hrelies := hinv.pc move.1
  obtain ⟨i, e⟩ := move
  obtain ⟨s, points⟩ := x
  obtain ⟨t, pc⟩ := y
  dsimp only at hpc hrelies hmove
  -- a thread that is to tell about a header still is, unless it is the one that moves
  have hothers {j : T} {b : B} (hj : points j = .notify b) (hne : points i ≠ .notify b) :
      ∃ k, pc k = .notify b := by
    refine ⟨j, ?_⟩
    have hji : j ≠ i := by
      rintro rfl
      exact hne hj
    rw [hpc, Function.update_of_ne hji, hj]
  generalize hp : points i = p at hmove hrelies hothers
  have hat : pc i = q := by
    rw [hpc, Function.update_self]
  unfold Orderly at horderly
  dsimp only at horderly
  rw [hp] at horderly
  cases hmove with
  | stay hsame =>
    refine hlinked.of_same hsame.best hsame.blockIndex ?_ ?_
    · exact fun b hlookup _ => hsame.index ▸ hlookup
    · intro j b hj
      by_cases hown : points i = .notify b
      · exact ⟨i, hat.trans (hp.symm.trans hown)⟩
      · exact hothers hj fun hq => hown (hp.trans hq)
  | plain hsame hbefore =>
    refine hlinked.of_same hsame.best hsame.blockIndex ?_ ?_
    · exact fun b hlookup _ => hsame.index ▸ hlookup
    · intro j b hj
      refine hothers hj ?_
      rintro rfl
      exact hbefore
  | lookup =>
    refine hlinked.of_same rfl rfl (fun b hlookup _ => hlookup) ?_
    exact fun hj => hothers hj (nomatch ·)
  | reset =>
    intro b hlookup hheight
    have hnull : (-1 : Int) = ctx.tree.height b := hheight
    omega
  | @record call pindex =>
    rcases ctx.recordChainLock_cases s call pindex with hsame | ⟨-, hblock, hsame⟩
    · refine hlinked.of_same (by rw [hsame]) (by rw [hsame]) ?_ ?_
      · intro b hlookup _
        rwa [hsame] at hlookup
      · exact fun hj => hothers hj (nomatch ·)
    · rw [Linked, hsame]
      intro b hlookup hheight
      cases pindex with
      | none => exact absurd hheight (horderly b hlookup)
      | some b' =>
        have hfound : s.m_block_index.lookup call.clsig.blockHash = some b' :=
          hrelies b' rfl
        exact Or.inl (hfound.symm.trans hlookup)
  | @addConflicting block =>
    refine hlinked.of_same rfl rfl ?_ ?_
    · intro b hlookup hheight
      rcases AList.lookup_of_emplace hlookup with ⟨hhash, rfl⟩ | hlookup
      · exact absurd ⟨hhash.symm, hheight⟩ horderly
      · exact hlookup
    · exact fun hj => hothers hj (nomatch ·)
  | @add block =>
    intro b hlookup hheight
    change (s.m_block_index.emplace (ctx.getBlockHash block) block).lookup
      s.bestChainLock.blockHash = some b at hlookup
    rw [AList.lookup_emplace] at hlookup
    split at hlookup
    · exact Or.inr ⟨i, hat.trans (congrArg LockPoint.notify (Option.some.inj hlookup))⟩
    · rcases hlinked b hlookup hheight with hb | ⟨j, hj⟩
      · exact Or.inl hb
      · exact Or.inr (hothers hj (nomatch ·))
  | @notify pindexNew =>
    rcases ctx.acceptedBlockHeader_cases s pindexNew with
      ⟨hsame, hother⟩ | ⟨⟨hhash, -⟩, hsame⟩
    · rw [Linked, hsame]
      intro b hlookup hheight
      rcases hlinked b hlookup hheight with hb | ⟨j, hj⟩
      · exact Or.inl hb
      · refine Or.inr (hothers hj ?_)
        rintro hb
        cases hb
        exact hother ⟨hinv.shared.1 hlookup, hheight⟩
    · rw [Linked, hsame]
      intro b hlookup hheight
      have hfound : s.m_block_index.lookup s.bestChainLock.blockHash =
          some pindexNew := by
        rw [← hhash]
        exact hrelies
      exact Or.inl (hfound.symm.trans hlookup)

theorem heightOk_step (hok : ∀ i, HeightOk (x.pc i)) (hdated : Dated move.2)
    (hstep : ctx.step x move = some y) (i : T) : HeightOk (y.pc i) := by
  have hinv : x.Inv (fun _ => True) (fun _ p => HeightOk p) := ⟨trivial, hok⟩
  refine (hinv.step ?_ ?_ hstep).pc i
  · exact fun _ hp hnext => ⟨trivial, (next_move hnext).2 hdated hp⟩
  · exact fun _ _ _ hr => hr

omit [DecidableEq B] [DecidableEq T] in
theorem Initial.heightOk (hinit : ctx.Initial s₀) (i : T) : HeightOk (s₀.pc i) := by
  obtain ⟨answer, hpc⟩ := exists_of_isIdle (hinit.idle i)
  rw [hpc]
  trivial

omit [DecidableEq B] [DecidableEq T] in
theorem Initial.linked (hinit : ctx.Initial s₀) : ctx.Linked s₀ := by
  intro b _ hheight
  rw [hinit.best] at hheight
  have hnull : (-1 : Int) = ctx.tree.height b := hheight
  omega

/-- In every interleaving the known block is the entry of its lock; the best lock only rises; where
the steps are in order, its block is the known block as soon as it is in the index. -/
theorem locks_of_interleaving (hinit : ctx.Initial s₀)
    (hrun : Run (Accepts ctx.step) s₀ moves x) :
    ctx.KnownBlock x.shared ∧
    ((∀ move ∈ moves, Dated move.2) → ∀ move y, ctx.step x move = some y → ¬Resets x move →
      y.shared.bestChainLock ≠ x.shared.bestChainLock →
      x.shared.bestChainLock.nHeight < y.shared.bestChainLock.nHeight) ∧
    (Run (Guarded ctx.Orderly (Accepts ctx.step)) s₀ moves x → Quiet x → ∀ b,
      x.shared.m_block_index.lookup x.shared.bestChainLock.blockHash = some b →
      x.shared.bestChainLock.nHeight = ctx.tree.height b →
      x.shared.bestChainLockBlockIndex = some b) := by
  refine ⟨?_, ?_, ?_⟩
  · exact (hrun.invariant (fun hinv hstep => locksInv_step hinv hstep) hinit.locksInv).shared.2
  · intro hdated move y hstep hreset hchanged
    have hok : ∀ i, HeightOk (x.pc i) := by
      refine hrun.invariant_of_mem (I := fun x => ∀ i, HeightOk (x.pc i)) ?_ hinit.heightOk
      exact fun hmem hok hstep => heightOk_step hok (hdated _ hmem) hstep
    obtain ⟨q, hnext, -⟩ := Threads.step_eq_some hstep
    refine (next_move hnext).1.best_lt (hok move.1) ?_ hchanged
    rintro ⟨call, answers, hpc, hevent⟩
    exact hreset ⟨call, answers, hpc, hevent⟩
  · intro horderly hquiet b hlookup hheight
    have hinv : ctx.LocksInv x ∧ ctx.Linked x := by
      refine horderly.invariant (I := fun x => ctx.LocksInv x ∧ ctx.Linked x) ?_
        ⟨hinit.locksInv, hinit.linked⟩
      rintro x move y ⟨hinv, hlinked⟩ ⟨hmove, hstep⟩
      exact ⟨locksInv_step hinv hstep, linked_step hlinked hinv hmove hstep⟩
    rcases hinv.2 b hlookup hheight with hb | ⟨i, hi⟩
    · exact hb
    · have hidle := hquiet i
      rw [hi] at hidle
      exact hidle.elim

end LockContext

/-! ### A header between the lookup and the record -/

namespace LockSample

def lockContext : LockContext Nat Unit where
  tree :=
    { parent := fun b => if b = 0 then none else some (b - 1)
      height := id
      height_root := by
        intro b hb
        by_cases hzero : b = 0
        · exact hzero
        · rw [if_neg hzero] at hb
          cases hb
      height_parent := by
        intro b p hb
        split at hb
        · cases hb
        next hzero =>
          cases hb
          exact (Nat.succ_pred_eq_of_ne_zero hzero).symm }
  getBlockHash b := BitVec.ofNat 256 (b + 1)
  chainLocksV2FormationLead := 0
  nChainLocksV2ActivationHeight := 0
  verifyInsecure _ _ := true

def lockStart : LockContext.LockThreads Bool Nat where
  shared :=
    { m_block_index := (List.range 8).foldl
        (fun index b => index.insert (lockContext.getBlockHash b) b) ∅ }
  pc := fun _ => .idle .nothing

def lockCall : NewChainLock :=
  { peer := 1, clsig := ⟨8, lockContext.getBlockHash 8, none⟩, hash := 5 }

def lockAdvance : LockEvent Nat Unit :=
  .advance { activeHeight := 7, quorum := some () }

def lockLookup : List (Bool × LockEvent Nat Unit) :=
  (false, .processNewChainLock lockCall) :: List.replicate 7 (false, lockAdvance)

def lockHeader : List (Bool × LockEvent Nat Unit) :=
  (true, .acceptBlockHeader 8 true) :: List.replicate 4 (true, lockAdvance)

theorem initial_lockStart : lockContext.Initial lockStart where
  best := rfl
  known := rfl
  blockIndex := rfl
  filed := by
    intro h b hlookup
    have hall : ∀ entry ∈ lockStart.shared.m_block_index.entries,
        lockContext.getBlockHash entry.2 = entry.1 := by
      decide
    exact hall _ (AList.mem_lookup_iff.mp hlookup)
  idle _ := trivial

theorem locks_of_interleaving_header :
    ∃ x, Run (Guarded lockContext.Orderly (Accepts lockContext.step)) lockStart
        (lockHeader ++ lockLookup ++ [(false, lockAdvance)]) x ∧
      LockContext.Quiet x ∧ x.shared.bestChainLock = lockCall.clsig ∧
      x.shared.bestChainLockBlockIndex = some 8 := by
  obtain ⟨x, hrun, hquiet, hlookup, hbest⟩ : ∃ x,
      Run (Guarded lockContext.Orderly (Accepts lockContext.step)) lockStart
        (lockHeader ++ lockLookup ++ [(false, lockAdvance)]) x ∧
      LockContext.Quiet x ∧
      x.shared.m_block_index.lookup x.shared.bestChainLock.blockHash = some 8 ∧
      x.shared.bestChainLock = lockCall.clsig := by
    apply Exists.intro
    constructor
    · repeat
        apply Run.cons
        · exact ⟨trivial, rfl⟩
      exact .nil _
    · exact ⟨Bool.forall_bool.mpr ⟨trivial, trivial⟩, rfl, rfl⟩
  obtain ⟨-, -, hblock⟩ := LockContext.locks_of_interleaving initial_lockStart hrun.of_guarded
  exact ⟨x, hrun, hquiet, hbest, hblock hrun hquiet 8 hlookup (by rw [hbest]; rfl)⟩

/-- The header comes after the lookup and before the record: the lock is recorded without its block.
-/
theorem header_between_lookup_and_record :
    ∃ x, lockContext.Initial lockStart ∧
      Run (Accepts lockContext.step) lockStart
        (lockLookup ++ lockHeader ++ [(false, lockAdvance)]) x ∧
      LockContext.Quiet x ∧
      x.shared.m_block_index.lookup x.shared.bestChainLock.blockHash = some 8 ∧
      x.shared.bestChainLock.nHeight = lockContext.tree.height 8 ∧
      x.shared.bestChainLockBlockIndex = none := by
  obtain ⟨x, hfold, hend⟩ : ∃ x,
      (lockLookup ++ lockHeader ++ [(false, lockAdvance)]).foldlM lockContext.step lockStart =
        some x ∧
      LockContext.Quiet x ∧
      x.shared.m_block_index.lookup x.shared.bestChainLock.blockHash = some 8 ∧
      x.shared.bestChainLock.nHeight = lockContext.tree.height 8 ∧
      x.shared.bestChainLockBlockIndex = none :=
    ⟨_, rfl, Bool.forall_bool.mpr ⟨trivial, trivial⟩, rfl, rfl, rfl⟩
  exact ⟨x, initial_lockStart, Run.accepts hfold, hend⟩

end LockSample

end Defcon.Llmq
