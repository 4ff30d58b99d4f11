import Mathlib.Data.Finset.Basic
import Defcon.Lib.AssocMap
import Defcon.Primitives

/-!
# `CBLSBatchVerifier`

Signatures are collected per source and verified in one aggregated step. When that fails the
sources are verified one by one, and the messages of a failing source too. The curve
arithmetic is a parameter; keys and signatures are values that passed `IsValid`.
-/

namespace Defcon.Bls

open List AList
open AList (Map)

structure BlsScheme (K S : Type) where
  verify : K → Uint256 → S → Bool
  aggregateVerify : List K → List Uint256 → S → Bool
  aggregatePubKeys : K → K → K
  aggregateSigs : S → S → S

structure Message (Id K S : Type) where
  msgId : Id
  msgHash : Uint256
  sig : S
  pubKey : K

def Message.Verifies {Id K S : Type} (bls : BlsScheme K S) (msg : Message Id K S) : Prop :=
  bls.verify msg.pubKey msg.msgHash msg.sig = true

instance {Id K S : Type} (bls : BlsScheme K S) (msg : Message Id K S) :
    Decidable (msg.Verifies bls) :=
  inferInstanceAs (Decidable (_ = _))

structure CBLSBatchVerifier (Src Id K S : Type) where
  secureVerification : Bool
  perMessageFallback : Bool
  subBatchSize : Nat
  messages : Map Id (Message Id K S) := ∅
  /-- The messages of each source, by their ids: the source keeps iterators. -/
  messagesBySource : Map Src (List Id) := ∅
  badSources : Finset Src := ∅
  badMessages : Finset Id := ∅

section VerifyBatch

variable {Id K S : Type} [DecidableEq Id] (bls : BlsScheme K S) (msgs : List (Message Id K S))

def groupByHash : Map Uint256 (List (Message Id K S)) :=
  msgs.foldl (fun m msg => m.modifyD msg.msgHash [] (· ++ [msg])) ∅

structure Aggregate (Id K S : Type) where
  aggSig : Option S := none
  pubKeys : List K := []
  msgHashes : List Uint256 := []
  dups : List Id := []

/-- One message of a group: duplicates are skipped, the first signature and key start the
aggregates. -/
def aggregateMessage (acc : Aggregate Id K S × Option K) (msg : Message Id K S) :
    Aggregate Id K S × Option K :=
  if msg.msgId ∈ acc.1.dups then acc
  else
    ({ acc.1 with
        aggSig := some (acc.1.aggSig.elim msg.sig fun sig => bls.aggregateSigs sig msg.sig)
        dups := msg.msgId :: acc.1.dups },
      some (acc.2.elim msg.pubKey fun key => bls.aggregatePubKeys key msg.pubKey))

def aggregateGroup (acc : Aggregate Id K S) (group : Sigma fun _ : Uint256 => List (Message Id K S)) :
    Aggregate Id K S :=
  match group.2.foldl (aggregateMessage bls) (acc, none) with
  | (acc, none) => acc
  | (acc, some aggPubKey) =>
    { acc with
      pubKeys := acc.pubKeys ++ [aggPubKey]
      msgHashes := acc.msgHashes ++ [group.1] }

def verifyBatchInsecure : Bool :=
  let agg := (groupByHash msgs).entries.foldl (aggregateGroup bls) {}
  match agg.aggSig with
  | none => true
  | some aggSig => bls.aggregateVerify agg.pubKeys agg.msgHashes aggSig

/-- `VerifyBatchSecureStep` takes the last message of every group. -/
def secureStep (groups : List (List (Message Id K S))) : Bool :=
  match groups.filterMap List.getLast? with
  | [] => true
  | msg :: rest =>
    bls.aggregateVerify ((msg :: rest).map Message.pubKey) ((msg :: rest).map Message.msgHash)
      (rest.foldl (fun sig msg => bls.aggregateSigs sig msg.sig) msg.sig)

/-- The loop of `VerifyBatchSecure`, which ends when the longest group is used up. -/
def secureLoop : Nat → List (List (Message Id K S)) → Bool
  | 0, _ => true
  | n + 1, groups =>
    secureStep bls groups &&
      secureLoop n ((groups.map List.dropLast).filter fun group => !group.isEmpty)

def verifyBatchSecure : Bool :=
  let groups := (groupByHash msgs).entries.map Sigma.snd
  secureLoop bls ((groups.map List.length).foldl max 0) groups

def verifyBatch (secure : Bool) (msgs : List (Message Id K S)) : Bool :=
  if secure then verifyBatchSecure bls msgs else verifyBatchInsecure bls msgs

variable (Id) in
/-- Batch verification succeeds only if every message verifies. -/
def BatchSound (secure : Bool) : Prop :=
  ∀ msgs : List (Message Id K S),
    (∀ msg ∈ msgs, ∀ msg' ∈ msgs, msg.msgId = msg'.msgId → msg = msg') →
      verifyBatch bls secure msgs = true → ∀ msg ∈ msgs, msg.Verifies bls

variable (Id) in
def BatchComplete (secure : Bool) : Prop :=
  ∀ msgs : List (Message Id K S),
    (∀ msg ∈ msgs, ∀ msg' ∈ msgs, msg.msgId = msg'.msgId → msg = msg') →
      (∀ msg ∈ msgs, msg.Verifies bls) → verifyBatch bls secure msgs = true

end VerifyBatch

namespace CBLSBatchVerifier

variable {Src Id K S : Type}

/-- `w` is `v` with more sources and messages found bad. -/
structure Flagged (v w : CBLSBatchVerifier Src Id K S) : Prop where
  secureVerification : w.secureVerification = v.secureVerification
  perMessageFallback : w.perMessageFallback = v.perMessageFallback
  subBatchSize : w.subBatchSize = v.subBatchSize
  messages : w.messages = v.messages
  messagesBySource : w.messagesBySource = v.messagesBySource
  badSources_subset : v.badSources ⊆ w.badSources
  badMessages_subset : v.badMessages ⊆ w.badMessages

theorem Flagged.refl (v : CBLSBatchVerifier Src Id K S) : Flagged v v :=
  ⟨rfl, rfl, rfl, rfl, rfl, subset_rfl, subset_rfl⟩

theorem Flagged.trans {u v w : CBLSBatchVerifier Src Id K S} (huv : Flagged u v)
    (hvw : Flagged v w) : Flagged u w where
  secureVerification := hvw.secureVerification.trans huv.secureVerification
  perMessageFallback := hvw.perMessageFallback.trans huv.perMessageFallback
  subBatchSize := hvw.subBatchSize.trans huv.subBatchSize
  messages := hvw.messages.trans huv.messages
  messagesBySource := hvw.messagesBySource.trans huv.messagesBySource
  badSources_subset := huv.badSources_subset.trans hvw.badSources_subset
  badMessages_subset := huv.badMessages_subset.trans hvw.badMessages_subset

variable [DecidableEq Id]

/-- The stored messages are those the sources point to, each under its own id. -/
structure WF [DecidableEq Src] (v : CBLSBatchVerifier Src Id K S) : Prop where
  msgId_eq : ∀ {id msg}, v.messages.lookup id = some msg → msg.msgId = id
  mem_iff : ∀ {id}, id ∈ v.messages ↔
    ∃ src ids, v.messagesBySource.lookup src = some ids ∧ id ∈ ids

theorem Flagged.wf [DecidableEq Src] {v w : CBLSBatchVerifier Src Id K S} (h : Flagged v w) (hwf : v.WF) : w.WF where
  msgId_eq := by
    rw [h.messages]
    exact hwf.msgId_eq
  mem_iff := by
    rw [h.messages, h.messagesBySource]
    exact hwf.mem_iff

variable [DecidableEq Src] (bls : BlsScheme K S)

def verifyMessage (v : CBLSBatchVerifier Src Id K S) (bad : Finset Id) (id : Id) : Finset Id :=
  if id ∈ bad then bad
  else
    match v.messages.lookup id with
    | none => bad
    | some msg => if msg.Verifies bls then bad else insert msg.msgId bad

def verifySource (v : CBLSBatchVerifier Src Id K S) (p : Sigma fun _ : Src => List Id) :
    CBLSBatchVerifier Src Id K S :=
  let batchValid := v.messagesBySource.entries.length ≠ 1 ∧
    verifyBatch bls v.secureVerification (p.2.filterMap v.messages.lookup) = true
  if batchValid then v
  else
    { v with
      badSources := insert p.1 v.badSources
      badMessages :=
        if v.perMessageFallback then
          match p.2 with
          | [id] => insert id v.badMessages
          | ids => ids.foldl (v.verifyMessage bls) v.badMessages
        else v.badMessages }

def verify (v : CBLSBatchVerifier Src Id K S) : CBLSBatchVerifier Src Id K S :=
  if verifyBatch bls v.secureVerification (v.messages.entries.map Sigma.snd) then v
  else v.messagesBySource.entries.foldl (verifySource bls) v

def clearMessages (v : CBLSBatchVerifier Src Id K S) : CBLSBatchVerifier Src Id K S :=
  { v with messages := ∅, messagesBySource := ∅ }

def pushMessage (v : CBLSBatchVerifier Src Id K S) (sourceId : Src) (msgId : Id)
    (msgHash : Uint256) (sig : S) (pubKey : K) : CBLSBatchVerifier Src Id K S :=
  let pushed : CBLSBatchVerifier Src Id K S := { v with
    messages := v.messages.emplace msgId ⟨msgId, msgHash, sig, pubKey⟩
    messagesBySource := v.messagesBySource.modifyD sourceId [] (· ++ [msgId]) }
  if v.subBatchSize ≠ 0 ∧ v.subBatchSize ≤ pushed.messages.entries.length then
    (pushed.verify bls).clearMessages
  else pushed

section

variable {bls} {v : CBLSBatchVerifier Src Id K S}

omit [DecidableEq Src] in
theorem subset_verifyMessage (bad : Finset Id) (id : Id) : bad ⊆ v.verifyMessage bls bad id := by
  unfold verifyMessage
  split
  · exact subset_rfl
  · split
    · exact subset_rfl
    · split
      · exact subset_rfl
      · exact Finset.subset_insert _ _

omit [DecidableEq Src] in
theorem subset_foldl_verifyMessage (ids : List Id) (bad : Finset Id) :
    bad ⊆ ids.foldl (v.verifyMessage bls) bad := by
  induction ids generalizing bad with
  | nil => exact subset_rfl
  | cons id ids ih => exact (subset_verifyMessage bad id).trans (ih _)

variable {bad : Finset Id} {id : Id} {ids : List Id} {msg : Message Id K S}
  {p : Sigma fun _ : Src => List Id} {ps : List (Sigma fun _ : Src => List Id)}

theorem mem_foldl_verifyMessage_of_invalid (hwf : v.WF) (hid : id ∈ ids)
    (hmsg : v.messages.lookup id = some msg) (hinvalid : ¬msg.Verifies bls) :
    id ∈ ids.foldl (v.verifyMessage bls) bad := by
  induction ids generalizing bad with
  | nil => cases hid
  | cons id' ids ih =>
    rcases mem_cons.mp hid with rfl | hid
    · refine subset_foldl_verifyMessage ids _ ?_
      unfold verifyMessage
      split
      · assumption
      · simp [hmsg, hinvalid, hwf.msgId_eq hmsg]
    · exact ih hid

theorem mem_verifyMessage (hwf : v.WF) {id' : Id} (hid : id ∈ v.verifyMessage bls bad id') :
    id ∈ bad ∨ id = id' := by
  unfold verifyMessage at hid
  split at hid
  · exact Or.inl hid
  · split at hid
    · exact Or.inl hid
    · rename_i msg hmsg
      split at hid
      · exact Or.inl hid
      · rw [hwf.msgId_eq hmsg] at hid
        exact (Finset.mem_insert.mp hid).symm

theorem mem_foldl_verifyMessage (hwf : v.WF) (hid : id ∈ ids.foldl (v.verifyMessage bls) bad) :
    id ∈ bad ∨ id ∈ ids := by
  induction ids generalizing bad with
  | nil => exact Or.inl hid
  | cons id' ids ih =>
    rcases ih hid with hbad | hmem
    · rcases mem_verifyMessage hwf hbad with hbad | rfl
      · exact Or.inl hbad
      · exact Or.inr mem_cons_self
    · exact Or.inr (mem_cons_of_mem _ hmem)

theorem flagged_verifySource (p : Sigma fun _ : Src => List Id) :
    Flagged v (v.verifySource bls p) := by
  unfold verifySource
  simp only
  split
  · exact .refl v
  · refine ⟨rfl, rfl, rfl, rfl, rfl, Finset.subset_insert _ _, ?_⟩
    split
    · split
      · exact Finset.subset_insert _ _
      · exact subset_foldl_verifyMessage _ _
    · exact subset_rfl

theorem flagged_foldl_verifySource (ps : List (Sigma fun _ : Src => List Id)) :
    Flagged v (ps.foldl (verifySource bls) v) := by
  induction ps generalizing v with
  | nil => exact .refl v
  | cons p ps ih => exact (flagged_verifySource p).trans ih

variable (bls v) in
theorem flagged_verify : Flagged v (v.verify bls) := by
  unfold verify
  split
  · exact .refl v
  · exact flagged_foldl_verifySource _

theorem eq_of_mem_source (hwf : v.WF) (ids : List Id) :
    ∀ msg ∈ ids.filterMap v.messages.lookup, ∀ msg' ∈ ids.filterMap v.messages.lookup,
      msg.msgId = msg'.msgId → msg = msg' := by
  intro m hm m' hm' heq
  obtain ⟨k, -, hk⟩ := mem_filterMap.mp hm
  obtain ⟨k', -, hk'⟩ := mem_filterMap.mp hm'
  rw [hwf.msgId_eq hk, hwf.msgId_eq hk'] at heq
  rw [heq, hk'] at hk
  exact (Option.some.inj hk).symm

theorem eq_of_mem_messages (hwf : v.WF) :
    ∀ msg ∈ v.messages.entries.map Sigma.snd, ∀ msg' ∈ v.messages.entries.map Sigma.snd,
      msg.msgId = msg'.msgId → msg = msg' := by
  intro m hm m' hm' heq
  obtain ⟨⟨k, _⟩, hk, rfl⟩ := mem_map.mp hm
  obtain ⟨⟨k', _⟩, hk', rfl⟩ := mem_map.mp hm'
  have hk := mem_lookup_iff.mpr hk
  have hk' := mem_lookup_iff.mpr hk'
  rw [hwf.msgId_eq hk, hwf.msgId_eq hk'] at heq
  subst heq
  exact Option.some.inj (hk.symm.trans hk')

theorem not_verifyBatch_source (hsound : BatchSound Id bls v.secureVerification) (hwf : v.WF)
    (hid : id ∈ ids) (hmsg : v.messages.lookup id = some msg) (hinvalid : ¬msg.Verifies bls) :
    ¬verifyBatch bls v.secureVerification (ids.filterMap v.messages.lookup) = true := by
  intro hvalid
  have hmem : msg ∈ ids.filterMap v.messages.lookup := mem_filterMap.mpr ⟨id, hid, hmsg⟩
  exact hinvalid (hsound _ (eq_of_mem_source hwf ids) hvalid msg hmem)

theorem not_verifyBatch_messages (hsound : BatchSound Id bls v.secureVerification) (hwf : v.WF)
    (hmsg : v.messages.lookup id = some msg) (hinvalid : ¬msg.Verifies bls) :
    ¬verifyBatch bls v.secureVerification (v.messages.entries.map Sigma.snd) = true := by
  intro hvalid
  have hmem : msg ∈ v.messages.entries.map Sigma.snd :=
    mem_map.mpr ⟨⟨id, msg⟩, mem_lookup_iff.mp hmsg, rfl⟩
  exact hinvalid (hsound _ (eq_of_mem_messages hwf) hvalid msg hmem)

theorem mem_badMessages_verifySource (hsound : BatchSound Id bls v.secureVerification)
    (hfallback : v.perMessageFallback = true) (hwf : v.WF) (hid : id ∈ p.2)
    (hmsg : v.messages.lookup id = some msg) (hinvalid : ¬msg.Verifies bls) :
    id ∈ (v.verifySource bls p).badMessages := by
  unfold verifySource
  rw [if_neg fun hvalid => not_verifyBatch_source hsound hwf hid hmsg hinvalid hvalid.2,
    if_pos hfallback]
  split
  · rename_i id' hp
    rw [hp, mem_singleton] at hid
    rw [hid]
    exact Finset.mem_insert_self _ _
  · exact mem_foldl_verifyMessage_of_invalid hwf hid hmsg hinvalid

theorem mem_badMessages_foldl_verifySource (hsound : BatchSound Id bls v.secureVerification)
    (hfallback : v.perMessageFallback = true) (hwf : v.WF) (hp : p ∈ ps) (hid : id ∈ p.2)
    (hmsg : v.messages.lookup id = some msg) (hinvalid : ¬msg.Verifies bls) :
    id ∈ (ps.foldl (verifySource bls) v).badMessages := by
  induction ps generalizing v with
  | nil => cases hp
  | cons q ps ih =>
    have hflag : Flagged v (v.verifySource bls q) := flagged_verifySource q
    rcases mem_cons.mp hp with rfl | hp
    · exact (flagged_foldl_verifySource ps).badMessages_subset
        (mem_badMessages_verifySource hsound hfallback hwf hid hmsg hinvalid)
    · refine ih ?_ ?_ (hflag.wf hwf) hp ?_
      · rwa [hflag.secureVerification]
      · rwa [hflag.perMessageFallback]
      · rwa [hflag.messages]

/-- **Soundness of `Verify`.** An invalid message is found, whichever way it is verified. -/
theorem mem_badMessages_verify (hsound : BatchSound Id bls v.secureVerification)
    (hfallback : v.perMessageFallback = true) (hwf : v.WF) (hmsg : v.messages.lookup id = some msg)
    (hinvalid : ¬msg.Verifies bls) : id ∈ (v.verify bls).badMessages := by
  unfold verify
  rw [if_neg (not_verifyBatch_messages hsound hwf hmsg hinvalid)]
  obtain ⟨src, ids, hids, hid⟩ := hwf.mem_iff.mp (lookup_isSome.mp (by rw [hmsg]; rfl))
  exact mem_badMessages_foldl_verifySource hsound hfallback hwf
    (mem_lookup_iff.mp hids) hid hmsg hinvalid

theorem mem_of_mem_badMessages_verifySource (hwf : v.WF)
    (hid : id ∈ (v.verifySource bls p).badMessages) : id ∈ v.badMessages ∨ id ∈ p.2 := by
  unfold verifySource at hid
  simp only at hid
  split at hid
  · exact Or.inl hid
  · split at hid
    · split at hid
      · rename_i id' hp
        rw [hp, mem_singleton]
        exact (Finset.mem_insert.mp hid).symm
      · exact mem_foldl_verifyMessage hwf hid
    · exact Or.inl hid

theorem mem_of_mem_badMessages_verify (hwf : v.WF) (hid : id ∈ (v.verify bls).badMessages) :
    id ∈ v.badMessages ∨ id ∈ v.messages := by
  have hfold (ps : List (Sigma fun _ : Src => List Id)) (w : CBLSBatchVerifier Src Id K S)
      (hw : w.WF) (h : id ∈ (ps.foldl (verifySource bls) w).badMessages) :
      id ∈ w.badMessages ∨ ∃ p ∈ ps, id ∈ p.2 := by
    induction ps generalizing w with
    | nil => exact Or.inl h
    | cons p ps ih =>
      have hflag : Flagged w (w.verifySource bls p) := flagged_verifySource p
      rcases ih _ (hflag.wf hw) h with hbad | ⟨q, hq, hmem⟩
      · rcases mem_of_mem_badMessages_verifySource hw hbad with hbad | hmem
        · exact Or.inl hbad
        · exact Or.inr ⟨p, mem_cons_self, hmem⟩
      · exact Or.inr ⟨q, mem_cons_of_mem _ hq, hmem⟩
  unfold verify at hid
  split at hid
  · exact Or.inl hid
  · rcases hfold _ v hwf hid with hbad | ⟨⟨src, ids⟩, hp, hmem⟩
    · exact Or.inl hbad
    · exact Or.inr (hwf.mem_iff.mpr ⟨src, ids, mem_lookup_iff.mpr hp, hmem⟩)

/-! ### Bad sources -/

/-- A message of the source, or the one stored in its place, does not verify. -/
def HoldsInvalid (bls : BlsScheme K S) (v : CBLSBatchVerifier Src Id K S) (src : Src) : Prop :=
  ∃ ids id msg, v.messagesBySource.lookup src = some ids ∧ id ∈ ids ∧
    v.messages.lookup id = some msg ∧ ¬msg.Verifies bls

theorem mem_badSources_foldl_verifySource (hsound : BatchSound Id bls v.secureVerification)
    (hwf : v.WF) (hp : p ∈ ps) (hid : id ∈ p.2) (hmsg : v.messages.lookup id = some msg)
    (hinvalid : ¬msg.Verifies bls) : p.1 ∈ (ps.foldl (verifySource bls) v).badSources := by
  induction ps generalizing v with
  | nil => cases hp
  | cons q ps ih =>
    have hflag : Flagged v (v.verifySource bls q) := flagged_verifySource q
    rcases mem_cons.mp hp with rfl | hp
    · apply (flagged_foldl_verifySource ps).badSources_subset
      unfold verifySource
      rw [if_neg fun hvalid => not_verifyBatch_source hsound hwf hid hmsg hinvalid hvalid.2]
      exact Finset.mem_insert_self _ _
    · refine ih ?_ (hflag.wf hwf) hp ?_
      · rwa [hflag.secureVerification]
      · rwa [hflag.messages]

theorem mem_badSources_verify (hsound : BatchSound Id bls v.secureVerification) (hwf : v.WF)
    {src : Src} (hholds : v.HoldsInvalid bls src) : src ∈ (v.verify bls).badSources := by
  obtain ⟨ids, id, msg, hids, hid, hmsg, hinvalid⟩ := hholds
  unfold verify
  rw [if_neg (not_verifyBatch_messages hsound hwf hmsg hinvalid)]
  exact mem_badSources_foldl_verifySource hsound hwf (mem_lookup_iff.mp hids) hid hmsg
    hinvalid

/-- When the whole batch fails, a source that fails on its own holds an invalid message. -/
theorem holdsInvalid_of_not_batchValid (hcomplete : BatchComplete Id bls v.secureVerification)
    (hwf : v.WF)
    (hall : ¬verifyBatch bls v.secureVerification (v.messages.entries.map Sigma.snd) = true)
    (hp : p ∈ v.messagesBySource.entries)
    (hfail : ¬(v.messagesBySource.entries.length ≠ 1 ∧
      verifyBatch bls v.secureVerification (p.2.filterMap v.messages.lookup) = true)) :
    v.HoldsInvalid bls p.1 := by
  by_cases hone : v.messagesBySource.entries.length = 1
  · have hinvalid : ∃ msg ∈ v.messages.entries.map Sigma.snd, ¬msg.Verifies bls := by
      by_contra hvalid
      push Not at hvalid
      exact hall (hcomplete _ (eq_of_mem_messages hwf) hvalid)
    obtain ⟨msg, hmem, hinvalid⟩ := hinvalid
    obtain ⟨⟨id, _⟩, hentry, rfl⟩ := mem_map.mp hmem
    have hmsg := mem_lookup_iff.mpr hentry
    obtain ⟨src, ids, hids, hid⟩ := hwf.mem_iff.mp (lookup_isSome.mp (by rw [hmsg]; rfl))
    obtain ⟨q, hq⟩ := length_eq_one_iff.mp hone
    have hsrc := mem_lookup_iff.mp hids
    rw [hq, mem_singleton] at hsrc hp
    rw [hp, ← hsrc]
    exact ⟨ids, id, _, hids, hid, hmsg, hinvalid⟩
  · have hinvalid : ∃ msg ∈ p.2.filterMap v.messages.lookup, ¬msg.Verifies bls := by
      by_contra hvalid
      push Not at hvalid
      exact hfail ⟨hone, hcomplete _ (eq_of_mem_source hwf p.2) hvalid⟩
    obtain ⟨msg, hmem, hinvalid⟩ := hinvalid
    obtain ⟨id, hid, hmsg⟩ := mem_filterMap.mp hmem
    exact ⟨p.2, id, msg, mem_lookup_iff.mpr hp, hid, hmsg, hinvalid⟩

theorem holdsInvalid_of_mem_badSources_verify
    (hcomplete : BatchComplete Id bls v.secureVerification) (hwf : v.WF) {src : Src}
    (hsrc : src ∈ (v.verify bls).badSources) :
    src ∈ v.badSources ∨ v.HoldsInvalid bls src := by
  have hfold (ps : List (Sigma fun _ : Src => List Id)) (w : CBLSBatchVerifier Src Id K S)
      (hflag : Flagged v w) (hps : ∀ p ∈ ps, p ∈ v.messagesBySource.entries)
      (hall : ¬verifyBatch bls v.secureVerification (v.messages.entries.map Sigma.snd) = true)
      (h : src ∈ (ps.foldl (verifySource bls) w).badSources) :
      src ∈ w.badSources ∨ v.HoldsInvalid bls src := by
    induction ps generalizing w with
    | nil => exact Or.inl h
    | cons p ps ih =>
      have hw : Flagged w (w.verifySource bls p) := flagged_verifySource p
      rcases ih _ (hflag.trans hw) (fun q hq => hps q (mem_cons_of_mem _ hq)) h
        with hbad | hholds
      · unfold verifySource at hbad
        simp only at hbad
        split at hbad
        · exact Or.inl hbad
        · rename_i hfail
          rcases Finset.mem_insert.mp hbad with rfl | hbad
          · rw [hflag.messages, hflag.messagesBySource, hflag.secureVerification] at hfail
            exact Or.inr (holdsInvalid_of_not_batchValid hcomplete hwf hall
              (hps p mem_cons_self) hfail)
          · exact Or.inl hbad
      · exact Or.inr hholds
  unfold verify at hsrc
  split at hsrc
  · exact Or.inl hsrc
  · rename_i hall
    exact hfold _ v (.refl v) (fun _ hp => hp) hall hsrc

/-! ### Pushing -/

theorem wf_empty {secure fallback : Bool} {subBatchSize : Nat} {badSources : Finset Src}
    {badMessages : Finset Id} :
    WF (⟨secure, fallback, subBatchSize, ∅, ∅, badSources, badMessages⟩ :
      CBLSBatchVerifier Src Id K S) where
  msgId_eq h := by simp at h
  mem_iff := by simp

def store (v : CBLSBatchVerifier Src Id K S) (sourceId : Src) (msg : Message Id K S) :
    CBLSBatchVerifier Src Id K S :=
  { v with
    messages := v.messages.emplace msg.msgId msg
    messagesBySource := v.messagesBySource.modifyD sourceId [] (· ++ [msg.msgId]) }

variable (bls v) in
theorem pushMessage_eq (sourceId : Src) (msgId : Id) (msgHash : Uint256) (sig : S) (pubKey : K) :
    v.pushMessage bls sourceId msgId msgHash sig pubKey =
        ((v.store sourceId ⟨msgId, msgHash, sig, pubKey⟩).verify bls).clearMessages ∨
      v.pushMessage bls sourceId msgId msgHash sig pubKey =
        v.store sourceId ⟨msgId, msgHash, sig, pubKey⟩ := by
  unfold pushMessage
  simp only
  split
  · exact Or.inl rfl
  · exact Or.inr rfl

theorem wf_store (hwf : v.WF) (sourceId : Src) (msg : Message Id K S) :
    (v.store sourceId msg).WF where
  msgId_eq := by
    intro id msg' hlookup
    rcases lookup_of_emplace hlookup with ⟨rfl, rfl⟩ | hlookup
    · rfl
    · exact hwf.msgId_eq hlookup
  mem_iff := by
    intro id
    rw [← lookup_isSome, store, lookup_emplace]
    constructor
    · intro hid
      split at hid
      · rename_i hself
        refine ⟨sourceId, _, by rw [lookup_modifyD, if_pos rfl], ?_⟩
        simp [hself]
      · obtain ⟨src, ids, hids, hmem⟩ := hwf.mem_iff.mp (lookup_isSome.mp hid)
        by_cases hsrc : src = sourceId
        · subst hsrc
          refine ⟨src, _, by rw [lookup_modifyD, if_pos rfl], ?_⟩
          simp [hids, hmem]
        · exact ⟨src, ids, by rw [lookup_modifyD, if_neg hsrc, hids], hmem⟩
    · rintro ⟨src, ids, hids, hmem⟩
      split
      · rfl
      · rename_i hself
        rw [lookup_isSome, hwf.mem_iff]
        rw [lookup_modifyD] at hids
        split at hids
        · rename_i hsrc
          cases hids
          rw [mem_append, mem_singleton, or_iff_left hself] at hmem
          cases hold : v.messagesBySource.lookup sourceId with
          | none => simp [hold] at hmem
          | some old => exact ⟨sourceId, old, hold, by simpa [hold] using hmem⟩
        · exact ⟨src, ids, hids, hmem⟩

def storeAll (v : CBLSBatchVerifier Src Id K S) (pushes : List (Src × Message Id K S)) :
    CBLSBatchVerifier Src Id K S :=
  pushes.foldl (fun v p => v.store p.1 p.2) v

variable (pushes : List (Src × Message Id K S))

theorem storeAll_append (pushes' : List (Src × Message Id K S)) :
    v.storeAll (pushes ++ pushes') = (v.storeAll pushes).storeAll pushes' :=
  foldl_append

theorem wf_storeAll (hwf : v.WF) (pushes : List (Src × Message Id K S)) :
    (v.storeAll pushes).WF := by
  induction pushes generalizing v with
  | nil => exact hwf
  | cons p pushes ih => exact ih (wf_store hwf p.1 p.2)

theorem secureVerification_storeAll :
    (v.storeAll pushes).secureVerification = v.secureVerification := by
  induction pushes generalizing v with
  | nil => rfl
  | cons p pushes ih => exact ih

theorem subBatchSize_storeAll : (v.storeAll pushes).subBatchSize = v.subBatchSize := by
  induction pushes generalizing v with
  | nil => rfl
  | cons p pushes ih => exact ih

theorem pushMessage_eq_store (hsub : v.subBatchSize = 0) (sourceId : Src)
    (msg : Message Id K S) :
    v.pushMessage bls sourceId msg.msgId msg.msgHash msg.sig msg.pubKey = v.store sourceId msg := by
  unfold pushMessage
  rw [if_neg fun h => h.1 hsub]
  rfl

theorem badSources_storeAll : (v.storeAll pushes).badSources = v.badSources := by
  induction pushes generalizing v with
  | nil => rfl
  | cons p pushes ih => exact ih

theorem lookup_messages_storeAll (id : Id) :
    (v.storeAll pushes).messages.lookup id =
      (v.messages.lookup id).or ((pushes.find? fun p => p.2.msgId = id).map Prod.snd) := by
  induction pushes generalizing v with
  | nil => simp [storeAll]
  | cons p pushes ih =>
    have hstep : v.storeAll (p :: pushes) = (v.store p.1 p.2).storeAll pushes := rfl
    rw [hstep, ih, store, lookup_emplace, find?_cons]
    by_cases hid : id = p.2.msgId
    · subst hid
      cases v.messages.lookup p.2.msgId with
      | none => simp
      | some old => simp
    · simp [hid, Ne.symm hid]

theorem mem_messagesBySource_storeAll (src : Src) (id : Id) :
    (∃ ids, (v.storeAll pushes).messagesBySource.lookup src = some ids ∧ id ∈ ids) ↔
      (∃ ids, v.messagesBySource.lookup src = some ids ∧ id ∈ ids) ∨
        ∃ msg, (src, msg) ∈ pushes ∧ msg.msgId = id := by
  induction pushes generalizing v with
  | nil => simp [storeAll]
  | cons p pushes ih =>
    have hstep : v.storeAll (p :: pushes) = (v.store p.1 p.2).storeAll pushes := rfl
    rw [hstep, ih, store]
    simp only [lookup_modifyD, mem_cons]
    by_cases hsrc : src = p.1
    · subst hsrc
      cases v.messagesBySource.lookup p.1 with
      | none => simp; grind
      | some ids => simp; grind
    · have hne (msg : Message Id K S) : (src, msg) ≠ p := fun heq => hsrc (congrArg Prod.fst heq)
      simp [hsrc, hne]

theorem holdsInvalid_storeAll_iff {secure fallback : Bool} {subBatchSize : Nat} (src : Src) :
    (storeAll ⟨secure, fallback, subBatchSize, ∅, ∅, ∅, ∅⟩ pushes).HoldsInvalid bls src ↔
      ∃ msg p, (src, msg) ∈ pushes ∧ pushes.find? (fun p => p.2.msgId = msg.msgId) = some p ∧
        ¬p.2.Verifies bls := by
  have hmem := mem_messagesBySource_storeAll
    (v := ⟨secure, fallback, subBatchSize, ∅, ∅, ∅, ∅⟩) pushes src
  constructor
  · rintro ⟨ids, id, msg, hids, hid, hmsg, hinvalid⟩
    rcases (hmem id).mp ⟨ids, hids, hid⟩ with ⟨_, hnone, -⟩ | ⟨msg', hpush, rfl⟩
    · simp at hnone
    · rw [lookup_messages_storeAll] at hmsg
      simp only [lookup_empty, Option.none_or, Option.map_eq_some_iff] at hmsg
      obtain ⟨p, hp, rfl⟩ := hmsg
      exact ⟨msg', p, hpush, hp, hinvalid⟩
  · rintro ⟨msg, p, hpush, hp, hinvalid⟩
    obtain ⟨ids, hids, hid⟩ := (hmem msg.msgId).mpr (Or.inr ⟨msg, hpush, rfl⟩)
    refine ⟨ids, msg.msgId, p.2, hids, hid, ?_, hinvalid⟩
    rw [lookup_messages_storeAll]
    simp [hp]

def Tracks (v : CBLSBatchVerifier Src Id K S) (msg : Message Id K S) : Prop :=
  v.messages.lookup msg.msgId = some msg ∨ msg.msgId ∈ v.badMessages

structure Ready (bls : BlsScheme K S) (v : CBLSBatchVerifier Src Id K S) : Prop where
  sound : BatchSound Id bls v.secureVerification
  fallback : v.perMessageFallback = true
  wf : v.WF

theorem Ready.pushMessage (h : Ready bls v) (sourceId : Src) (msgId : Id) (msgHash : Uint256)
    (sig : S) (pubKey : K) :
    Ready bls (v.pushMessage bls sourceId msgId msgHash sig pubKey) := by
  have hwf := wf_store h.wf sourceId ⟨msgId, msgHash, sig, pubKey⟩
  have hflag := flagged_verify bls (v.store sourceId ⟨msgId, msgHash, sig, pubKey⟩)
  rcases pushMessage_eq bls v sourceId msgId msgHash sig pubKey with heq | heq
  · rw [heq]
    refine ⟨?_, ?_, wf_empty⟩
    · exact hflag.secureVerification ▸ h.sound
    · exact hflag.perMessageFallback.trans h.fallback
  · rw [heq]
    exact ⟨h.sound, h.fallback, hwf⟩

theorem Tracks.pushMessage (h : Ready bls v) (hinvalid : ¬msg.Verifies bls) (sourceId : Src)
    (msgId : Id) (msgHash : Uint256) (sig : S) (pubKey : K)
    (htracks : (v.store sourceId ⟨msgId, msgHash, sig, pubKey⟩).Tracks msg) :
    (v.pushMessage bls sourceId msgId msgHash sig pubKey).Tracks msg := by
  have hwf := wf_store h.wf sourceId ⟨msgId, msgHash, sig, pubKey⟩
  rcases pushMessage_eq bls v sourceId msgId msgHash sig pubKey with heq | heq
  · rw [heq]
    right
    rcases htracks with hmsg | hbad
    · exact mem_badMessages_verify (v := v.store sourceId _) h.sound h.fallback hwf hmsg hinvalid
    · exact (flagged_verify bls _).badMessages_subset hbad
  · rwa [heq]

theorem Tracks.store (htracks : v.Tracks msg) (sourceId : Src) (msg' : Message Id K S) :
    (v.store sourceId msg').Tracks msg :=
  htracks.imp_left lookup_emplace_of_lookup

theorem tracks_store (hnew : msg.msgId ∉ v.messages) (sourceId : Src) :
    (v.store sourceId msg).Tracks msg := by
  left
  rw [CBLSBatchVerifier.store, lookup_emplace, if_pos rfl, lookup_eq_none.mpr hnew]
  rfl

def Absent (v : CBLSBatchVerifier Src Id K S) (id : Id) : Prop :=
  id ∉ v.messages ∧ id ∉ v.badMessages

theorem Absent.verify (hwf : v.WF) (h : v.Absent id) : (v.verify bls).Absent id := by
  refine ⟨?_, fun hbad => ?_⟩
  · rw [(flagged_verify bls v).messages]
    exact h.1
  · exact (mem_of_mem_badMessages_verify hwf hbad).elim h.2 h.1

theorem Absent.pushMessage (h : Ready bls v) (habsent : v.Absent id) (sourceId : Src) {msgId : Id}
    (hne : id ≠ msgId) (msgHash : Uint256) (sig : S) (pubKey : K) :
    (v.pushMessage bls sourceId msgId msgHash sig pubKey).Absent id := by
  have hstore : (v.store sourceId ⟨msgId, msgHash, sig, pubKey⟩).Absent id := by
    refine ⟨?_, habsent.2⟩
    rw [← lookup_eq_none, CBLSBatchVerifier.store, lookup_emplace, if_neg hne]
    exact lookup_eq_none.mpr habsent.1
  rcases pushMessage_eq bls v sourceId msgId msgHash sig pubKey with heq | heq
  · rw [heq]
    exact ⟨by simp [clearMessages], (hstore.verify (wf_store h.wf _ _)).2⟩
  · rwa [heq]

end

end CBLSBatchVerifier

end Defcon.Bls
