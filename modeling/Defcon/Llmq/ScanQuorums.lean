import Defcon.Llmq.MinedCycles

/-!
# `ScanQuorums` and its cache

`ScanQuorums` rounds its start back to a block of a mining window, takes what is cached for that
block, and continues the walk over the records before the last cached quorum. On the active chain
this gives the quorums of the newest mined commitments, whatever was looked up before.
-/

namespace Defcon.Llmq

open Lib (Run Accepts BlockTree)
open Lib.BlockTree List Option Nat UnorderedLruCache

variable {B : Type} {net : Network B} {s t : QuorumState B} {llmqType : LLMQType}
  {params : LLMQParams} {tip pindex p base q : B}

/-! ### Where the walk can start -/

theorem minedCycles_eq_of_gap {low high : Nat} (hle : low ≤ high)
    (hgap : ∀ h, low < h → h ≤ high → s.minedByHeight.lookup (llmqType, h) = none) :
    minedCycles net s llmqType pindex high = minedCycles net s llmqType pindex low := by
  induction high with
  | zero =>
    obtain rfl : low = 0 := by omega
    rfl
  | succ high ih =>
    rcases eq_or_lt_of_le hle with rfl | hlt
    · rfl
    · rw [minedCycles, hgap (high + 1) hlt (le_refl _)]
      exact ih (by omega) fun h hlow hhigh => hgap h hlow (by omega)

variable {nHeight : Nat} {bases : List B} {quorums full : List (CQuorum B)} {nRequested : Nat}

theorem ChainInv.minedCycles_eq_of_ancestor (hinv : ChainInv net s) (htip : s.tip = some tip)
    (hanc : net.tree.Ancestor q pindex) (hle : nHeight ≤ net.tree.height q) :
    minedCycles net s llmqType pindex nHeight = minedCycles net s llmqType q nHeight := by
  induction nHeight with
  | zero => rfl
  | succ nHeight ih =>
    rw [minedCycles, minedCycles, ih (by omega)]
    cases hlookup : s.minedByHeight.lookup (llmqType, nHeight + 1) with
    | none => rfl
    | some baseHeight =>
      obtain ⟨c, p, qc, params, first, -, hheight, -, -, -, rfl, hin, -⟩ :=
        hinv.record htip hlookup
      have hbelow := hin.cycle.1.height_le
      rw [bind_some, bind_some, hanc.ancestorAt_eq (by omega)]

theorem ChainInv.minedCycles_eq (hinv : ChainInv net s) (htip : s.tip = some tip)
    (hanc : net.tree.Ancestor q pindex) (hle : net.tree.height q ≤ nHeight)
    (hgap : ∀ h, net.tree.height q < h → h ≤ nHeight → s.minedByHeight.lookup (llmqType, h) = none) :
    minedCycles net s llmqType pindex nHeight =
      minedCycles net s llmqType q (net.tree.height q) := by
  rw [minedCycles_eq_of_gap hle hgap]
  exact hinv.minedCycles_eq_of_ancestor htip hanc (le_refl _)

theorem cycleStart_eq {interval start h : Nat} (hstart : start % interval = 0)
    (hle : start ≤ h) (hlt : h < start + interval) : h - h % interval = start := by
  obtain ⟨offset, rfl⟩ := Nat.exists_eq_add_of_le hle
  have hmod : (start + offset) % interval = offset := by
    rw [Nat.add_mod, hstart, Nat.zero_add, Nat.mod_mod]
    exact Nat.mod_eq_of_lt (by omega)
  omega

theorem cycleStart_mod (interval h : Nat) : (h - h % interval) % interval = 0 := by
  have hstart : h - h % interval = interval * (h / interval) := by
    have := div_add_mod h interval
    omega
  rw [hstart, mul_mod_right]

section

variable (hinv : ChainInv net s) (htip : s.tip = some tip)
  (hparams : net.getLLMQ llmqType = some params)

include hinv htip hparams

theorem ChainInv.phase_of_record {h baseHeight : Nat}
    (hlookup : s.minedByHeight.lookup (llmqType, h) = some baseHeight) :
    isMiningPhase params h = true := by
  obtain ⟨c, p, qc, params', first, -, rfl, -, -, rfl, -, hin, -⟩ := hinv.record htip hlookup
  obtain rfl := some.inj (hparams.symm.trans hin.params_eq)
  exact hin.phase

theorem ChainInv.lookup_outside {start h : Nat} (hstart : start % params.dkgInterval = 0)
    (hle : start ≤ h) (hlt : h < start + params.dkgInterval)
    (houtside : h < start + params.dkgMiningWindowStart ∨ start + params.dkgMiningWindowEnd < h) :
    s.minedByHeight.lookup (llmqType, h) = none := by
  rw [eq_none_iff_forall_ne_some]
  intro baseHeight hlookup
  have hbounds := phase_bounds (hinv.phase_of_record htip hparams hlookup)
  rw [cycleStart_eq hstart hle hlt] at hbounds
  omega

theorem ChainInv.scanStart_spec :
    (scanStart net params pindex = some none ∧
        minedCycles net s llmqType pindex (net.tree.height pindex) = []) ∨
      ∃ q, scanStart net params pindex = some (some q) ∧
        net.tree.Ancestor q pindex ∧
        minedCycles net s llmqType pindex (net.tree.height pindex) =
          minedCycles net s llmqType q (net.tree.height q) := by
  obtain ⟨hwindow, hwithin⟩ := net.window params (mem_llmqs hparams).1
  have hmod := cycleStart_mod params.dkgInterval (net.tree.height pindex)
  have hmodlt := mod_lt (net.tree.height pindex) (by omega : 0 < params.dkgInterval)
  have hcycle : net.tree.height pindex <
      net.tree.height pindex - net.tree.height pindex % params.dkgInterval +
        params.dkgInterval := by
    omega
  generalize hstart : net.tree.height pindex - net.tree.height pindex % params.dkgInterval = start
    at hmod hcycle
  have hstartle : start ≤ net.tree.height pindex := by omega
  simp only [scanStart, hstart]
  split
  · by_cases hgenesis : start + params.dkgMiningWindowEnd < params.dkgInterval
    · -- the first cycle, before its window
      left
      have hzero : start = 0 := by
        rw [mod_eq_of_lt (by omega)] at hmod
        exact hmod
      refine ⟨if_pos hgenesis, ?_⟩
      rw [@minedCycles_eq_of_gap _ net s llmqType pindex 0 _ (zero_le _)]
      · rfl
      · intro h _ hle
        exact hinv.lookup_outside htip hparams hmod (by omega) (by omega) (Or.inl (by omega))
    · right
      rw [if_neg hgenesis]
      obtain ⟨q, hq⟩ : ∃ q, net.tree.ancestorAt pindex
          (start + params.dkgMiningWindowEnd - params.dkgInterval) = some q :=
        exists_ancestorAt (by omega)
      have hheight := height_of_ancestorAt hq
      refine ⟨q, by rw [hq]; rfl, ancestor_of_ancestorAt hq, ?_⟩
      apply hinv.minedCycles_eq htip (ancestor_of_ancestorAt hq) (by omega)
      intro h hlow hhigh
      by_cases hcurrent : start ≤ h
      · exact hinv.lookup_outside htip hparams hmod hcurrent (by omega) (Or.inl (by omega))
      · -- after the window of the cycle before
        have hstartpos : params.dkgInterval ≤ start := by
          by_contra hsmall
          rw [mod_eq_of_lt (by omega)] at hmod
          omega
        have hprevious : (start - params.dkgInterval) % params.dkgInterval = 0 := by
          rw [← mod_eq_sub_mod hstartpos]
          exact hmod
        exact hinv.lookup_outside htip hparams hprevious (by omega) (by omega) (Or.inr (by omega))
  · right
    split
    · obtain ⟨q, hq⟩ : ∃ q, net.tree.ancestorAt pindex (start + params.dkgMiningWindowEnd) = some q :=
        exists_ancestorAt (by omega)
      have hheight := height_of_ancestorAt hq
      refine ⟨q, by rw [hq]; rfl, ancestor_of_ancestorAt hq, ?_⟩
      apply hinv.minedCycles_eq htip (ancestor_of_ancestorAt hq) (by omega)
      intro h hlow hhigh
      exact hinv.lookup_outside htip hparams hmod (by omega) (by omega) (Or.inr (by omega))
    · exact ⟨pindex, rfl, .refl pindex, rfl⟩

end

theorem ChainInv.minedCycles_tail (hinv : ChainInv net s) (htip : s.tip = some tip)
    (hparent : net.tree.parent base = some q) {newer older : List B}
    (hsplit : minedCycles net s llmqType pindex nHeight = newer ++ base :: older) :
    older = minedCycles net s llmqType q (net.tree.height q) := by
  induction nHeight generalizing newer with
  | zero => simp [minedCycles] at hsplit
  | succ nHeight ih =>
    rw [minedCycles] at hsplit
    cases hhead : (s.minedByHeight.lookup (llmqType, nHeight + 1)).bind
        (net.tree.ancestorAt pindex) with
    | none =>
      rw [hhead] at hsplit
      exact ih hsplit
    | some head =>
      rw [hhead] at hsplit
      cases newer with
      | cons first newer => exact ih (cons.inj hsplit).2
      | nil =>
        cases hsplit
        obtain ⟨baseHeight, hlookup, hbase⟩ := bind_eq_some_iff.mp hhead
        obtain rfl := height_of_ancestorAt hbase
        have hheight := net.tree.height_parent hparent
        have hanc : net.tree.Ancestor q pindex :=
          (ancestor_parent hparent).trans (ancestor_of_ancestorAt hbase)
        have hbelow : net.tree.height q ≤ nHeight := by
          obtain ⟨c, p, qc, params, first, -, hc, hp, -, -, hfirst, hin, -⟩ :=
            hinv.record htip hlookup
          have := hin.cycle.1.height_le
          omega
        apply hinv.minedCycles_eq htip hanc hbelow
        intro h hlow hhigh
        rw [eq_none_iff_forall_ne_some]
        intro lowBase hlowLookup
        have := (hinv.record_lt htip (by omega) hlowLookup hlookup).2
        omega

/-! ### The quorums of the records -/

def quorumOf (net : Network B) (s : QuorumState B) (llmqType : LLMQType) (base : B) :
    Option (CQuorum B) :=
  match s.minedCommitments.lookup (llmqType, net.getBlockHash base), net.getLLMQ llmqType with
  | some (qc, minedBlockHash), some params =>
    some
      { params := params
        qc := qc
        quorumBaseBlockIndex := base
        minedBlockHash := minedBlockHash
        members := net.getAllQuorumMembers qc.llmqType base }
  | _, _ => none

def QuorumsOf (net : Network B) (s : QuorumState B) (llmqType : LLMQType) (bases : List B)
    (quorums : List (CQuorum B)) : Prop :=
  bases.map (quorumOf net s llmqType) = quorums.map some

def QuorumsExact (net : Network B) (s : QuorumState B) : Prop :=
  ∀ ⦃llmqType quorumHash quorum⦄, (s.mapQuorumsCache llmqType).find quorumHash = some quorum →
    ∃ base, net.getBlockHash base = quorumHash ∧ quorumOf net s llmqType base = some quorum

def ScansExact (net : Network B) (s : QuorumState B) : Prop :=
  ∀ ⦃llmqType tip b quorums⦄, s.tip = some tip → net.tree.Ancestor b tip →
    (s.scanQuorumsCache llmqType).find (net.getBlockHash b) = some quorums →
    ∃ count, QuorumsOf net s llmqType
      ((minedCycles net s llmqType b (net.tree.height b)).take count) quorums

theorem quorumOf_congr (hsame : t.minedCommitments = s.minedCommitments) :
    quorumOf net t llmqType = quorumOf net s llmqType := by
  funext base
  rw [quorumOf, quorumOf, hsame]

theorem minedCycles_congr (hsame : t.minedByHeight = s.minedByHeight) (nHeight : Nat) :
    minedCycles net t llmqType pindex nHeight = minedCycles net s llmqType pindex nHeight := by
  induction nHeight with
  | zero => rfl
  | succ nHeight ih => rw [minedCycles, minedCycles, hsame, ih]

theorem quorumOf_some {quorum : CQuorum B} (hquorum : quorumOf net s llmqType base = some quorum) :
    quorum.quorumBaseBlockIndex = base ∧
      (llmqType, net.getBlockHash base) ∈ s.minedCommitments := by
  unfold quorumOf at hquorum
  split at hquorum
  · rename_i hlookup _
    cases hquorum
    exact ⟨rfl, AList.lookup_isSome.mp (by rw [hlookup]; rfl)⟩
  · cases hquorum

theorem buildQuorumFromCommitment_fst :
    (buildQuorumFromCommitment net s llmqType base).1 =
      quorumOf net s llmqType base := by
  unfold buildQuorumFromCommitment quorumOf
  dsimp only
  cases s.minedCommitments.lookup (llmqType, net.getBlockHash base) with
  | none => rfl
  | some mined =>
    cases net.getLLMQ llmqType with
    | none => rfl
    | some params => rfl

theorem QuorumsExact.of_same (hexact : QuorumsExact net s)
    (hrecords : t.minedCommitments = s.minedCommitments)
    (hfind : ∀ {llmqType h quorum}, (t.mapQuorumsCache llmqType).find h = some quorum →
      (s.mapQuorumsCache llmqType).find h = some quorum) : QuorumsExact net t := by
  intro llmqType quorumHash quorum hcached
  rw [quorumOf_congr hrecords]
  exact hexact (hfind hcached)

/-- `t` differs from `s` in what is cached of single quorums, which is exact in both. -/
structure Looked (net : Network B) (s t : QuorumState B) : Prop where
  onlyCaches : OnlyCaches net s t
  scans : t.scanQuorumsCache = s.scanQuorumsCache
  exact : QuorumsExact net s → QuorumsExact net t

theorem Looked.trans {u : QuorumState B} (hst : Looked net s t) (htu : Looked net t u) :
    Looked net s u where
  onlyCaches := hst.onlyCaches.trans htu.onlyCaches
  scans := htu.scans.trans hst.scans
  exact := htu.exact ∘ hst.exact

theorem OnlyHasMined.looked (honly : OnlyHasMined s t) : Looked net s t where
  onlyCaches := honly.onlyCaches
  scans := honly.scanQuorumsCache
  exact hexact := hexact.of_same honly.minedCommitments fun hfind => by
    rwa [honly.mapQuorumsCache] at hfind

theorem looked_rule : LookupRule net.toQuorumContext (Looked net) where
  trans := .trans
  hasMined := OnlyHasMined.looked
  quorums hcached := by
    refine ⟨onlyCaches_rule.quorums hcached, rfl, fun hexact type hash quorum hfind => ?_⟩
    rcases hcached hfind with hold | ⟨base, rfl, hbuilt⟩
    · exact hexact hold
    · exact ⟨base, rfl, by rw [← hbuilt, buildQuorumFromCommitment_fst]; rfl⟩

theorem getQuorumAt_eq (hagree : HasMinedAgrees s) (hexact : QuorumsExact net s) :
    (getQuorumAt net s llmqType base).1 = quorumOf net s llmqType base := by
  have honly := onlyHasMined_hasMinedCommitment net s llmqType
    (net.getBlockHash base)
  have hmined {params : LLMQParams} (hparams : net.getLLMQ llmqType = some params) :=
    hasMinedCommitment_fst net hagree
      (by rw [hparams]; exact some_ne_none params : net.getLLMQ llmqType ≠ none)
      (net.getBlockHash base)
  unfold getQuorumAt
  dsimp only
  split
  · -- not mined: there is no record
    rename_i hnot
    unfold quorumOf
    split
    · rename_i qc minedBlockHash params hlookup hparams
      have hmem : (llmqType, net.getBlockHash base) ∈ s.minedCommitments :=
        AList.lookup_isSome.mp (by rw [hlookup]; rfl)
      rw [(hmined hparams).mpr hmem] at hnot
      exact absurd hnot (by decide)
    · rfl
  · generalize (hasMinedCommitment net s llmqType (net.getBlockHash base)).2 = s'
      at honly
    have hget := get_fst (s'.mapQuorumsCache llmqType) (net.getBlockHash base)
    split
    · rename_i quorum cache heq
      rw [heq, honly.mapQuorumsCache] at hget
      obtain ⟨base', hhash, hquorum⟩ := hexact hget.symm
      obtain rfl := net.eq_of_hash_eq hhash
      exact hquorum.symm
    · rw [buildQuorumFromCommitment_fst, quorumOf_congr honly.minedCommitments]

theorem getQuorums_eq (hagree : HasMinedAgrees s) (hexact : QuorumsExact net s) :
    (getQuorums net llmqType s bases).1 = some quorums ↔
      QuorumsOf net s llmqType bases quorums := by
  induction bases generalizing s quorums with
  | nil =>
    cases quorums with
    | nil => exact ⟨fun _ => rfl, fun _ => rfl⟩
    | cons head quorums => constructor <;> intro h <;> cases h
  | cons base rest ih =>
    have hhead : Looked net s (getQuorumAt net s llmqType base).2 :=
      looked_rule.getQuorumAt s llmqType base
    have hvalue := @getQuorumAt_eq _ net s llmqType base hagree hexact
    rw [getQuorums, QuorumsOf, map_cons, ← hvalue]
    split
    · rename_i s' heq
      rw [heq]
      cases quorums <;> simp
    · rename_i quorum s' heq
      rw [heq] at hhead ⊢
      have hrest := fun quorums => @ih s' quorums (hhead.onlyCaches.agrees hagree)
        (hhead.exact hexact)
      simp only [QuorumsOf, quorumOf_congr hhead.onlyCaches.minedCommitments] at hrest
      cases quorums with
      | nil => simp
      | cons head quorums =>
        rw [map_eq_some_iff, map_cons]
        constructor
        · rintro ⟨found, hfound, hcons⟩
          obtain ⟨rfl, rfl⟩ := cons.inj hcons
          rw [(hrest found).mp hfound]
        · intro hcons
          obtain ⟨hquorum, htail⟩ := cons.inj hcons
          exact ⟨quorums, (hrest quorums).mpr htail, by rw [some.inj hquorum]⟩

/-! ### One scan -/

structure CachesExact (net : Network B) (s : QuorumState B) : Prop where
  quorums : QuorumsExact net s
  scans : ScansExact net s

theorem ScansExact.of_same (hexact : ScansExact net s) (hst : OnlyCaches net s t)
    (hfind : ∀ {llmqType b quorums}, (∃ tip, s.tip = some tip ∧ net.tree.Ancestor b tip) →
      (t.scanQuorumsCache llmqType).find (net.getBlockHash b) = some quorums →
      (s.scanQuorumsCache llmqType).find (net.getBlockHash b) = some quorums ∨
        ∃ count, QuorumsOf net s llmqType
          ((minedCycles net s llmqType b (net.tree.height b)).take count) quorums) :
    ScansExact net t := by
  intro llmqType tip b quorums htip hanc hcached
  rw [hst.tip] at htip
  simp only [QuorumsOf, quorumOf_congr hst.minedCommitments,
    minedCycles_congr hst.minedByHeight]
  rcases hfind ⟨tip, htip, hanc⟩ hcached with hold | hnew
  · exact hexact htip hanc hold
  · exact hnew

theorem CachesExact.looked (hexact : CachesExact net s) (hst : Looked net s t) :
    CachesExact net t := by
  refine ⟨hst.exact hexact.quorums, hexact.scans.of_same hst.onlyCaches ?_⟩
  intro type' b quorums _ hcached
  rw [hst.scans] at hcached
  exact Or.inl hcached

theorem ChainInv.exists_quorums (hinv : ChainInv net s) (htip : s.tip = some tip)
    (hanc : net.tree.Ancestor pindex tip) (llmqType : LLMQType) :
    ∃ full, QuorumsOf net s llmqType
      (minedCycles net s llmqType pindex (net.tree.height pindex)) full := by
  have hsome : ∀ base ∈ minedCycles net s llmqType pindex (net.tree.height pindex),
      ∃ quorum, quorumOf net s llmqType base = some quorum := by
    intro base hmem
    obtain ⟨c, qc, hc, hmined, rfl, hhash⟩ := (hinv.mem_minedCycles_iff htip hanc).mp hmem
    have hrecord := hinv.records.mpr ⟨tip, c, htip, hc.trans hanc, hmined, rfl, rfl, rfl⟩
    obtain ⟨p, params, first, -, hin, -⟩ := hinv.mined htip (hc.trans hanc) hmined
    rw [quorumOf, ← hhash, hrecord, hin.params_eq]
    exact ⟨_, rfl⟩
  generalize minedCycles net s llmqType pindex (net.tree.height pindex) = bases at hsome
  induction bases with
  | nil => exact ⟨[], rfl⟩
  | cons base bases ih =>
    rw [forall_mem_cons] at hsome
    obtain ⟨quorum, hquorum⟩ := hsome.1
    obtain ⟨full, hfull⟩ := ih hsome.2
    refine ⟨quorum :: full, ?_⟩
    rw [QuorumsOf, map_cons, map_cons, hquorum, hfull]

section

variable (hfull : QuorumsOf net s llmqType bases full)

include hfull

theorem QuorumsOf.take (count : Nat) :
    QuorumsOf net s llmqType (bases.take count) (full.take count) := by
  rw [QuorumsOf, map_take, map_take, hfull]

theorem QuorumsOf.drop (count : Nat) :
    QuorumsOf net s llmqType (bases.drop count) (full.drop count) := by
  rw [QuorumsOf, map_drop, map_drop, hfull]

theorem QuorumsOf.unique {full' : List (CQuorum B)} (hfull' : QuorumsOf net s llmqType bases full') :
    full = full' :=
  map_injective_iff.mpr (some_injective _) (hfull.symm.trans hfull')

end

theorem ChainInv.scanFrom_spec (hinv : ChainInv net s) (hexact : CachesExact net s)
    (htip : s.tip = some tip)
    (hfull : QuorumsOf net s llmqType
      (minedCycles net s llmqType pindex (net.tree.height pindex)) full) {cachedCount nScan : Nat}
    (hrest : minedCycles net s llmqType q (net.tree.height q) =
      (minedCycles net s llmqType pindex (net.tree.height pindex)).drop cachedCount)
    (henough : nRequested ≤ cachedCount + nScan) :
    ∃ t, scanFrom net s llmqType params pindex q (full.take cachedCount) nScan
        nRequested = some (full.take nRequested, t) ∧
      OnlyCaches net s t ∧ CachesExact net t := by
  have hbases := @ChainInv.getMinedCommitments_eq _ net s llmqType tip q hinv htip nScan
  have hlooked := (@looked_rule _ net).getQuorums s llmqType
    ((minedCycles net s llmqType q (net.tree.height q)).take nScan)
  have hfound : (getQuorums net llmqType s
      ((minedCycles net s llmqType q (net.tree.height q)).take nScan)).1 =
        some ((full.drop cachedCount).take nScan) := by
    rw [getQuorums_eq hinv.hasMined hexact.quorums, hrest]
    exact (hfull.drop cachedCount).take nScan
  have hresult : full.take cachedCount ++ (full.drop cachedCount).take nScan =
      full.take (cachedCount + nScan) := take_add.symm
  unfold scanFrom
  rw [hbases]
  simp only [bind_eq_bind, bind_some]
  generalize getQuorums net llmqType s
    ((minedCycles net s llmqType q (net.tree.height q)).take nScan) = asked at hlooked hfound
  obtain ⟨found, s'⟩ := asked
  subst hfound
  simp only [hresult]
  refine ⟨_, by rw [take_take, min_eq_left henough]; rfl, ?_⟩
  split
  · exact ⟨hlooked.onlyCaches, hexact.looked hlooked⟩
  · have hstored : OnlyCaches net s { s' with
        scanQuorumsCache := Function.update s'.scanQuorumsCache llmqType
          ((s'.scanQuorumsCache llmqType).insert (net.getBlockHash pindex)
            ((full.take (cachedCount + nScan)).take params.keepOldConnections)) } :=
      hlooked.onlyCaches.trans ⟨rfl, rfl, rfl, id, fun h => h, id⟩
    refine ⟨hstored, (hlooked.exact hexact.quorums).of_same rfl id, ?_⟩
    apply hexact.scans.of_same hstored
    intro type' b quorums hchain hcached
    rcases find_update_insert rfl hcached with ⟨hkey, rfl⟩ | hold
    · obtain ⟨rfl, hhash⟩ := Prod.mk.inj hkey
      obtain rfl := net.eq_of_hash_eq hhash
      right
      refine ⟨min params.keepOldConnections (cachedCount + nScan), ?_⟩
      rw [take_take]
      exact hfull.take _
    · left
      rwa [hlooked.scans] at hold

section

variable (hexact : CachesExact net s)

include hexact

theorem CachesExact.touch {cache : UnorderedLruCache Uint256 (List (CQuorum B))}
    (hcache : cache.find = (s.scanQuorumsCache llmqType).find) :
    OnlyCaches net s { s with
        scanQuorumsCache := Function.update s.scanQuorumsCache llmqType cache } ∧
      CachesExact net { s with
        scanQuorumsCache := Function.update s.scanQuorumsCache llmqType cache } := by
  have honly : OnlyCaches net s { s with
      scanQuorumsCache := Function.update s.scanQuorumsCache llmqType cache } :=
    ⟨rfl, rfl, rfl, id, fun h => h, id⟩
  refine ⟨honly, hexact.quorums.of_same rfl id, hexact.scans.of_same honly ?_⟩
  intro type' b quorums _ hcached
  rw [find_update_get hcache] at hcached
  exact Or.inl hcached

theorem ChainInv.scanAt_spec (hinv : ChainInv net s) (htip : s.tip = some tip)
    (hanc : net.tree.Ancestor pindex tip)
    (hfull : QuorumsOf net s llmqType
      (minedCycles net s llmqType pindex (net.tree.height pindex)) full) (nRequested : Nat) :
    ∃ t, scanAt net s llmqType params pindex nRequested =
        some (full.take nRequested, t) ∧
      OnlyCaches net s t ∧ CachesExact net t := by
  have hfst := get_fst (s.scanQuorumsCache llmqType) (net.getBlockHash pindex)
  have hsnd := find_get (s.scanQuorumsCache llmqType) (net.getBlockHash pindex)
  unfold scanAt
  generalize (s.scanQuorumsCache llmqType).get (net.getBlockHash pindex) = got at hfst hsnd
  obtain ⟨found, cache⟩ := got
  cases found with
  | none =>
    obtain ⟨t, hscan, hrest⟩ := @ChainInv.scanFrom_spec _ net s llmqType params tip pindex pindex
      full nRequested hinv hexact htip hfull 0 (max nRequested params.keepOldConnections) rfl
      (by omega)
    exact ⟨t, hscan, hrest⟩
  | some cached =>
    obtain ⟨count, hcached⟩ := hexact.scans htip hanc hfst.symm
    obtain rfl := hcached.unique (hfull.take count)
    obtain ⟨honly, hexact'⟩ := hexact.touch hsnd
    have hinv' := hinv.onlyCaches honly
    dsimp only
    generalize { s with
      scanQuorumsCache := Function.update s.scanQuorumsCache llmqType cache } = s' at *
    have hcycles := fun b => @minedCycles_congr _ net s s' llmqType b honly.minedByHeight
    have hfull' : QuorumsOf net s' llmqType
        (minedCycles net s' llmqType pindex (net.tree.height pindex)) full := by
      rw [QuorumsOf, quorumOf_congr honly.minedCommitments, hcycles]
      exact hfull
    have htip' : s'.tip = some tip := honly.tip.trans htip
    have hscan {q : B} {cachedCount nScan : Nat}
        (hrest : minedCycles net s' llmqType q (net.tree.height q) =
          (minedCycles net s' llmqType pindex (net.tree.height pindex)).drop cachedCount)
        (henough : nRequested ≤ cachedCount + nScan) :
        ∃ t, scanFrom net s' llmqType params pindex q (full.take cachedCount)
            nScan nRequested = some (full.take nRequested, t) ∧
          OnlyCaches net s t ∧ CachesExact net t := by
      obtain ⟨t, hok, hst, hexact''⟩ := hinv'.scanFrom_spec hexact' htip' hfull' hrest henough
      exact ⟨t, hok, honly.trans hst, hexact''⟩
    split
    · rename_i hle
      rw [length_take] at hle
      refine ⟨s', ?_, honly, hexact'⟩
      rw [take_take, min_eq_left (by omega)]
    rename_i hshort
    cases hlast : (full.take count).getLast? with
    | none =>
      exact @hscan pindex 0 nRequested rfl (by omega)
    | some last =>
      -- the walk goes on before the base block of the last cached quorum
      obtain ⟨front, hfront⟩ := getLast?_eq_some_iff.mp hlast
      have hall : full = front ++ last :: full.drop count := by
        conv_lhs => rw [← take_append_drop count full, hfront, append_assoc]
        rfl
      have hmap := hfull'
      rw [QuorumsOf, hall, map_append, map_cons, map_eq_append_iff] at hmap
      obtain ⟨newer, rest, hsplit, hnewer, hrest⟩ := hmap
      obtain ⟨base, older, rfl, hbase, -⟩ := map_eq_cons_iff.mp hrest
      have hlength : (newer ++ [base]).length = (full.take count).length := by
        have := congrArg length hnewer
        rw [length_map, length_map] at this
        rw [hfront, length_append, length_append, this]
        rfl
      obtain ⟨hindex, -⟩ := quorumOf_some hbase
      have hmem : base ∈ minedCycles net s' llmqType pindex (net.tree.height pindex) := by
        rw [hsplit]
        exact mem_append_right _ mem_cons_self
      obtain ⟨c, qc, hc, hmined, -, hhash⟩ :=
        (hinv'.mem_minedCycles_iff htip' hanc).mp hmem
      obtain ⟨-, params', first, -, hin, -⟩ := hinv'.mined htip' (hc.trans hanc) hmined
      obtain rfl : first = base := net.eq_of_hash_eq (hin.hash_eq.trans hhash)
      dsimp only
      rw [hindex]
      cases hparent : net.tree.parent first with
      | none => exact absurd hparent hin.base_parent
      | some pprev =>
        have hdrop : minedCycles net s' llmqType pprev (net.tree.height pprev) =
            (minedCycles net s' llmqType pindex (net.tree.height pindex)).drop
              (full.take count).length := by
          rw [← hinv'.minedCycles_tail htip' hparent hsplit, ← hlength, hsplit,
            append_cons newer first older, drop_left]
        have htake : full.take (full.take count).length = full.take count := by
          rw [length_take, ← take_eq_take_min]
        have hok := @hscan pprev (full.take count).length
          (nRequested - (full.take count).length) hdrop (by omega)
        rwa [htake] at hok

theorem CachesExact.scanAt (htip : s.tip = some tip) (hanc : ¬net.tree.Ancestor pindex tip)
    (hok : Llmq.scanAt net s llmqType params pindex nRequested = some (quorums, t)) :
    CachesExact net t := by
  have hrule : LookupRule net.toQuorumContext fun s t =>
      OnlyCaches net s t ∧ (s.tip = some tip → CachesExact net s → CachesExact net t) := by
    have hlooked {s t : QuorumState B} (h : Looked net s t) : OnlyCaches net s t ∧
        (s.tip = some tip → CachesExact net s → CachesExact net t) :=
      ⟨h.onlyCaches, fun _ hexact => hexact.looked h⟩
    refine ⟨fun hst htu => ⟨hst.1.trans htu.1, fun htip hexact => ?_⟩,
      fun honly => hlooked honly.looked, fun hcached => hlooked (looked_rule.quorums hcached)⟩
    exact htu.2 (hst.1.tip.trans htip) (hst.2 htip hexact)
  refine (hrule.scanAt (fun {s caches} hcached => ?_) hok).2 htip hexact
  have honly : OnlyCaches net s { s with scanQuorumsCache := caches } :=
    ⟨rfl, rfl, rfl, id, fun h => h, id⟩
  refine ⟨honly, fun htip hexact => ⟨hexact.quorums.of_same rfl id, hexact.scans.of_same honly ?_⟩⟩
  rintro type' b quorums' ⟨tip', htip', hb⟩ hfind
  refine (hcached hfind).imp_right fun hhash => ?_
  obtain rfl := net.eq_of_hash_eq hhash
  obtain rfl := some.inj (htip.symm.trans htip')
  exact absurd hb hanc

theorem ChainInv.scanAt_exact (hinv : ChainInv net s) (htip : s.tip = some tip)
    (hok : scanAt net s llmqType params pindex nRequested = some (quorums, t)) :
    CachesExact net t := by
  by_cases hanc : net.tree.Ancestor pindex tip
  · obtain ⟨full, hfull⟩ := hinv.exists_quorums htip hanc llmqType
    obtain ⟨t', hok', -, hexact'⟩ := hinv.scanAt_spec hexact htip hanc hfull nRequested
    obtain ⟨-, rfl⟩ := Prod.mk.inj (some.inj (hok'.symm.trans hok))
    exact hexact'
  · exact hexact.scanAt htip hanc hok

theorem ChainInv.scanQuorums_exact (hinv : ChainInv net s) (htip : s.tip = some tip)
    (hok : scanQuorums net s llmqType p nRequested = some (quorums, t)) :
    CachesExact net t := by
  obtain rfl | ⟨params, pindexStore, hok⟩ := scanQuorums_cases hok
  · exact hexact
  · exact hinv.scanAt_exact hexact htip hok

theorem ChainInv.scanQuorums_spec (hinv : ChainInv net s) (htip : s.tip = some tip)
    (hanc : net.tree.Ancestor p tip) (hparams : net.getLLMQ llmqType = some params)
    (henabled : net.isQuorumTypeEnabled llmqType p = true) (nRequested : Nat) :
    ∃ quorums t, scanQuorums net s llmqType p nRequested = some (quorums, t) ∧
      QuorumsOf net s llmqType
        ((minedCycles net s llmqType p (net.tree.height p)).take nRequested) quorums := by
  by_cases hcount : nRequested = 0
  · refine ⟨[], s, ?_, ?_⟩
    · unfold scanQuorums
      rw [if_pos (Or.inl hcount)]
      rfl
    · rw [hcount]
      rfl
  · rw [scanQuorums_eq hcount henabled hparams]
    rcases hinv.scanStart_spec htip hparams with ⟨hstart, hnone⟩ | ⟨q, hstart, hq, hsame⟩
    · refine ⟨[], s, by rw [hstart]; rfl, ?_⟩
      rw [hnone, take_nil]
      rfl
    · obtain ⟨full, hfull⟩ := hinv.exists_quorums htip (hq.trans hanc) llmqType
      obtain ⟨t, hok, -⟩ := hinv.scanAt_spec hexact htip (hq.trans hanc) hfull nRequested
      refine ⟨full.take nRequested, t, by rw [hstart]; exact hok, ?_⟩
      rw [hsame]
      exact hfull.take nRequested

end

/-! ### Any history of lookups -/

def QuorumOp.IsLookup : QuorumOp B → Prop
  | .connect .. | .disconnect => False
  | .getQuorum .. | .scanQuorums .. => True

theorem CachesExact.getQuorum (hexact : CachesExact net s) (quorumHash : Uint256) :
    CachesExact net (Llmq.getQuorum net s llmqType quorumHash).2 := by
  refine hexact.looked ⟨onlyCaches_getQuorum s llmqType quorumHash, ?_, fun hquorums => ?_⟩
  · unfold Llmq.getQuorum
    split
    · exact (looked_rule.getQuorumAt _ llmqType _).scans
    · split
      · rfl
      · exact (looked_rule.getQuorumAt _ llmqType _).scans
  · unfold Llmq.getQuorum
    split
    · exact (looked_rule.getQuorumAt _ llmqType _).exact (hquorums.of_same rfl id)
    · split
      · exact hquorums.of_same rfl id
      · exact (looked_rule.getQuorumAt _ llmqType _).exact (hquorums.of_same rfl id)

section Runs

variable [DecidableEq B]

theorem ChainInv.lookup_step {op : QuorumOp B} (hinv : ChainInv net s) (hexact : CachesExact net s)
    (htip : s.tip = some tip) (hop : op.IsLookup)
    (hstep : Accepts (stepQuorum net) s op t) :
    CachesExact net t ∧ OnlyCaches net s t := by
  cases op with
  | connect b fBLSChecks => exact hop.elim
  | disconnect => exact hop.elim
  | getQuorum llmqType quorumHash =>
    cases hstep
    exact ⟨hexact.getQuorum quorumHash, onlyCaches_getQuorum s llmqType quorumHash⟩
  | scanQuorums llmqType pindexStart nRequested =>
    obtain ⟨⟨quorums, s'⟩, hok, rfl⟩ := map_eq_some_iff.mp hstep
    exact ⟨hinv.scanQuorums_exact hexact htip hok, onlyCaches_scanQuorums hok⟩

/-- The caches of the quorum manager hold nothing, as after a start of the node. -/
structure CachesEmpty (s : QuorumState B) : Prop where
  quorums : ∀ llmqType quorumHash, (s.mapQuorumsCache llmqType).find quorumHash = none
  scans : ∀ llmqType blockHash, (s.scanQuorumsCache llmqType).find blockHash = none

omit [DecidableEq B] in
theorem CachesEmpty.exact (hempty : CachesEmpty s) : CachesExact net s where
  quorums := by
    intro llmqType quorumHash quorum hfind
    rw [hempty.quorums] at hfind
    cases hfind
  scans := by
    intro llmqType tip b quorums _ _ hfind
    rw [hempty.scans] at hfind
    cases hfind

/-- After any history a scan returns the quorums of the newest commitments that
`GetMinedCommitmentsUntilBlock` lists. -/
theorem scanQuorums_cache_independent {s₀ : QuorumState B} {ops history : List (QuorumOp B)}
    (hinit : InitialRecords net s₀)
    (hrun : Run (Accepts (stepQuorum net.toQuorumContext)) s₀ ops s) (hempty : CachesEmpty s)
    (hhistory : Run (Accepts (stepQuorum net.toQuorumContext)) s history t)
    (hlookups : ∀ op ∈ history, op.IsLookup) (htip : s.tip = some tip)
    (hanc : net.tree.Ancestor p tip) (hparams : net.getLLMQ llmqType = some params)
    (henabled : net.isQuorumTypeEnabled llmqType p = true) (nRequested : Nat) :
    ∃ bases quorums t' s',
      getMinedCommitmentsUntilBlock net.toQuorumContext t llmqType p (net.tree.height p)
        nRequested = some bases ∧
      QuorumsOf net t llmqType bases quorums ∧
      scanQuorums net.toQuorumContext t llmqType p nRequested = some (quorums, t') ∧
      scanQuorums net.toQuorumContext s llmqType p nRequested = some (quorums, s') := by
  have hinv := chainInv_of_run hinit hrun
  have hkept : CachesExact net t ∧ OnlyCaches net.toQuorumContext s t := by
    refine hhistory.invariant_of_mem (I := fun t => CachesExact net t ∧
      OnlyCaches net.toQuorumContext s t) ?_ ⟨hempty.exact, .refl s⟩
    rintro u op v hmem ⟨hexact, honly⟩ hstep
    obtain ⟨hexact', honly'⟩ := (hinv.onlyCaches honly).lookup_step hexact
      (honly.tip.trans htip) (hlookups op hmem) hstep
    exact ⟨hexact', honly.trans honly'⟩
  obtain ⟨hexact, honly⟩ := hkept
  have hinv' := hinv.onlyCaches honly
  have htip' := honly.tip.trans htip
  obtain ⟨quorums, t', hok, hquorums⟩ :=
    hinv'.scanQuorums_spec hexact htip' hanc hparams henabled nRequested
  obtain ⟨quorums', s', hok', hquorums'⟩ :=
    hinv.scanQuorums_spec hempty.exact htip hanc hparams henabled nRequested
  have hsame : quorums' = quorums := by
    apply QuorumsOf.unique hquorums'
    rw [QuorumsOf, quorumOf_congr honly.minedCommitments, minedCycles_congr honly.minedByHeight]
      at hquorums
    exact hquorums
  subst hsame
  exact ⟨_, quorums', t', s', hinv'.getMinedCommitments_eq htip' nRequested, hquorums, hok, hok'⟩

end Runs

def scanHistory : List (QuorumOp (Fin 5)) :=
  [.scanQuorums 1 3 5, .scanQuorums 1 2 1]

theorem scanQuorums_cache_independent_window :
    ∃ s t quorums t' s',
      Run (Accepts (stepQuorum windowNetwork.toQuorumContext)) forkState connectOps s ∧
      Run (Accepts (stepQuorum windowNetwork.toQuorumContext)) s scanHistory t ∧
      scanQuorums windowNetwork.toQuorumContext t 1 3 2 = some (quorums, t') ∧
      scanQuorums windowNetwork.toQuorumContext s 1 3 2 = some (quorums, s') := by
  obtain ⟨s, t, hs, ht, htip, hempty⟩ : ∃ s t,
      connectOps.foldlM (stepQuorum windowNetwork.toQuorumContext) forkState = some s ∧
      scanHistory.foldlM (stepQuorum windowNetwork.toQuorumContext) s = some t ∧
      s.tip = some 3 ∧ CachesEmpty s :=
    ⟨_, _, rfl, rfl, rfl, fun _ _ => rfl, fun _ _ => rfl⟩
  have hlookups : ∀ op ∈ scanHistory, op.IsLookup := by
    intro op hmem
    rcases List.mem_cons.mp hmem with rfl | hmem
    · trivial
    · obtain rfl := List.mem_singleton.mp hmem
      trivial
  obtain ⟨bases, quorums, t', s', -, -, hscan, hscan'⟩ :=
    @scanQuorums_cache_independent _ windowNetwork s t 1 forkParams 3 3 _ forkState connectOps
      scanHistory initial_windowNetwork (Run.accepts hs) hempty (Run.accepts ht) hlookups htip
      (.refl 3) rfl rfl 2
  exact ⟨s, t, quorums, t', s', Run.accepts hs, Run.accepts ht, hscan, hscan'⟩

def retiredNetwork : Network (Fin 5) :=
  { windowNetwork with
    isQuorumTypeEnabled := fun _ b => b ≠ 3
    verify_eq := rfl }

/-- The commitment of block 3 is listed for block 3, and `ScanQuorums` from there returns nothing,
with empty caches. -/
theorem scanQuorums_of_retired_type :
    ∃ s, Run (Accepts (stepQuorum retiredNetwork.toQuorumContext)) forkState connectOps s ∧
      s.tip = some 3 ∧ CachesEmpty s ∧
      getMinedCommitmentsUntilBlock retiredNetwork.toQuorumContext s 1 3 3 1 = some [2] ∧
      (scanQuorums retiredNetwork.toQuorumContext s 1 3 1).map Prod.fst = some [] := by
  obtain ⟨s, hs, htip, hempty, hbases, hscan⟩ : ∃ s,
      connectOps.foldlM (stepQuorum retiredNetwork.toQuorumContext) forkState = some s ∧
      s.tip = some 3 ∧ CachesEmpty s ∧
      getMinedCommitmentsUntilBlock retiredNetwork.toQuorumContext s 1 3 3 1 = some [2] ∧
      (scanQuorums retiredNetwork.toQuorumContext s 1 3 1).map Prod.fst = some [] :=
    ⟨_, rfl, rfl, ⟨fun _ _ => rfl, fun _ _ => rfl⟩, rfl, rfl⟩
  exact ⟨s, Run.accepts hs, htip, hempty, hbases, hscan⟩

end Defcon.Llmq
