import Defcon.Llmq.DkgRobustness

/-!
# The shares behind a premature commitment

A member should only commit to members whose share it holds. It complains about the others, and a
complaint stays open until the share has been sent again. But to a member with a bad connection it
gives its vote and no complaint.
-/

namespace Defcon.Llmq

open CDKGSession List Function

variable {n : Nat}

/-- Batch verification judges every share, and accepts no share that does not verify on its own. -/
def SharesSound (ctx : DkgContext n) : Prop :=
  ∀ me (shares : List (Option BLSVerificationVector × CBLSSecretKey)),
    let result := ctx.verifyContributionShares me (shares.map Prod.fst) (shares.map Prod.snd)
    result.length = shares.length ∧ ∀ r ∈ shares.zip result, r.2 = true →
      ctx.verifyContributionShare me r.1.1 r.1.2 = true

namespace CDKGSession

def validMembers (ctx : DkgContext n) (s : CDKGSession n) : List Bool :=
  bitset ctx fun i => !(s.members i).bad

/-- The share of `i` is stored, and fits the verification vector that is stored. -/
def Holds (ctx : DkgContext n) (me : Fin n) (s : CDKGSession n) (i : Fin n) : Prop :=
  ∃ sk, s.verifiedSkContributions i = some sk ∧
    ctx.verifyContributionShare me (s.verifiedVvecContributions i) sk = true

/-- The share of `i` is held unless `i` is bad or `disputed`. -/
def Settled (ctx : DkgContext n) (me : Fin n) (disputed : CDKGMember n → Prop)
    (s : CDKGSession n) (i : Fin n) : Prop :=
  (s.members i).bad = true ∨ disputed (s.members i) ∨ Holds ctx me s i

def WeComplain (m : CDKGMember n) : Prop :=
  m.weComplain = true

variable {ctx : DkgContext n} {me : Fin n} {s s' : CDKGSession n} {i j : Fin n}

/-! ### The contribution phase -/

theorem Settled.mono {disputed : CDKGMember n → Prop} (h : Settled ctx me disputed s i)
    (hbad : (s.members i).bad = true → (s'.members i).bad = true)
    (hdisputed : disputed (s.members i) → disputed (s'.members i))
    (hsk : s'.verifiedSkContributions i = s.verifiedSkContributions i)
    (hvvec : s'.verifiedVvecContributions i = s.verifiedVvecContributions i) :
    Settled ctx me disputed s' i := by
  refine h.imp hbad (Or.imp hdisputed ?_)
  rw [Holds, Holds, hsk, hvvec]
  exact id

theorem settled_applyShareResults {results : List (Fin n × Bool)}
    (hresults : ∀ r ∈ results, r.2 = true →
      ctx.verifyContributionShare me (s.verifiedVvecContributions r.1)
        (s.receivedSkContributions r.1) = true)
    (h : Settled ctx me WeComplain s i ∨ i ∈ results.map Prod.fst) :
    Settled ctx me WeComplain (s.applyShareResults results) i := by
  unfold applyShareResults
  induction results generalizing s with
  | nil => exact h.resolve_right (by simp)
  | cons r results ih =>
    rw [forall_mem_cons] at hresults
    rw [foldl_cons]
    split
    next hr =>
      refine ih hresults.2 ?_
      by_cases hi : i = r.1
      · subst hi
        refine .inl (.inr (.inr ⟨_, update_self .., hresults.1 hr⟩))
      · refine (h.imp (fun hset => hset.mono id id (update_of_ne hi ..) rfl) fun hmem => ?_)
        exact (mem_cons.mp hmem).resolve_left hi
    · refine ih hresults.2 ?_
      by_cases hi : i = r.1
      · subst hi
        refine .inl (.inr (.inl ?_))
        rw [members_modifyMember_self]
        rfl
      · refine h.imp (fun hset => ?_) fun hmem => (mem_cons.mp hmem).resolve_left hi
        refine hset.mono ?_ ?_ rfl rfl
        all_goals
          rw [members_modifyMember_of_ne hi]
          exact id

theorem settled_verifyPendingContributions (hsound : SharesSound ctx)
    (hstored : s.verifiedVvecContributions = s.receivedVvecs)
    (h : Settled ctx me WeComplain s i ∨ i ∈ s.pendingContributionVerifications) :
    Settled ctx me WeComplain (verifyPendingContributions ctx me s) i := by
  unfold verifyPendingContributions
  split
  next hnil => exact h.resolve_right (by simp [hnil])
  · dsimp only
    set idxs := s.pendingContributionVerifications.filter fun i =>
      !((s.members i).bad || (s.members i).weComplain) with hidxs
    have hcases : Settled ctx me WeComplain s i ∨ i ∈ idxs := by
      refine h.elim .inl fun hpending => ?_
      by_cases hsettled : (s.members i).bad = true ∨ (s.members i).weComplain = true
      · exact .inl (hsettled.imp_right .inl)
      · exact .inr (mem_filter.mpr ⟨hpending, by simpa [not_or] using hsettled⟩)
    split
    next hnil => exact (hcases.resolve_right (by simp [hnil])).mono id id rfl rfl
    · obtain ⟨hlength, hverified⟩ := hsound me
        (idxs.map fun i => (s.receivedVvecs i, s.receivedSkContributions i))
      rw [map_map, map_map, length_map] at hlength
      rw [map_map, map_map, zip_map_left] at hverified
      split
      next hne => exact absurd hlength hne
      · refine (settled_applyShareResults ?_ (hcases.imp ?_ ?_)).mono id id rfl rfl
        · intro r hr htrue
          change ctx.verifyContributionShare me (s.verifiedVvecContributions r.1) _ = true
          rw [hstored]
          exact hverified _ (mem_map_of_mem hr) htrue
        · exact fun hsettled => hsettled.mono id id rfl rfl
        · exact (congrArg (i ∈ ·) (map_fst_zip hlength.ge)).mpr

/-- What the contribution phase keeps: the share of a member that has contributed is settled or
still to be verified. -/
structure SharesKept (ctx : DkgContext n) (me : Fin n) (s : CDKGSession n) : Prop where
  stored : s.verifiedVvecContributions = s.receivedVvecs
  share : ∀ {i}, (s.members i).contributions ≠ [] →
    Settled ctx me WeComplain s i ∨ i ∈ s.pendingContributionVerifications

theorem stored_verifyPendingContributions (ctx : DkgContext n) (me : Fin n) (s : CDKGSession n) :
    (verifyPendingContributions ctx me s).verifiedVvecContributions =
      s.verifiedVvecContributions := by
  have hresults (results : List (Fin n × Bool)) (s : CDKGSession n) :
      (s.applyShareResults results).verifiedVvecContributions = s.verifiedVvecContributions := by
    refine foldl_keeps CDKGSession.verifiedVvecContributions (fun s r => ?_) results s
    split <;> rfl
  unfold verifyPendingContributions
  dsimp only
  split_ifs
  · rfl
  · rfl
  · rfl
  · exact hresults _ _

theorem sharesKept_verifyPendingContributions (hsound : SharesSound ctx)
    (h : SharesKept ctx me s) : SharesKept ctx me (verifyPendingContributions ctx me s) where
  stored := by
    rw [stored_verifyPendingContributions, h.stored]
    exact (sharesChecked_verifyPendingContributions ctx me s).receivedVvecs.symm
  share {i} hsent := by
    obtain ⟨w, hw⟩ := (sharesChecked_verifyPendingContributions ctx me s).members i
    rw [hw] at hsent
    exact .inl (settled_verifyPendingContributions hsound h.stored (h.share hsent))

theorem sharesKept_acceptContribution (hsound : SharesSound ctx) {qc : CDKGContribution n}
    (hstored : s.verifiedVvecContributions = s.receivedVvecs)
    (hshare : ∀ {i}, i ≠ qc.proTxHash → (s.members i).contributions ≠ [] →
      Settled ctx me WeComplain s i ∨ i ∈ s.pendingContributionVerifications) :
    SharesKept ctx me (acceptContribution ctx me s qc) := by
  unfold acceptContribution
  dsimp only
  rw [hstored]
  split
  · refine ⟨rfl, fun {i} hsent => ?_⟩
    by_cases hi : i = qc.proTxHash
    · subst hi
      refine .inl (.inr (.inl ?_))
      rw [members_modifyMember_self]
      rfl
    · rw [members_modifyMember_of_ne hi] at hsent
      refine (hshare hi hsent).imp_left fun hsettled => ?_
      have hmember := members_modifyMember_of_ne (s := s) hi fun m => { m with weComplain := true }
      exact hsettled.mono (fun h => hmember ▸ h) (fun h => hmember ▸ h) rfl
        (by rw [hstored]; exact update_of_ne hi ..)
  · have hkept : SharesKept ctx me { s with
        receivedVvecs := update s.receivedVvecs qc.proTxHash (some qc.vvec)
        verifiedVvecContributions := update s.receivedVvecs qc.proTxHash (some qc.vvec)
        receivedSkContributions :=
          update s.receivedSkContributions qc.proTxHash ‹CBLSSecretKey›
        vecEncryptedContributions :=
          update s.vecEncryptedContributions qc.proTxHash (some qc.contributions)
        pendingContributionVerifications :=
          s.pendingContributionVerifications ++ [qc.proTxHash] } := by
      refine ⟨rfl, fun {i} hsent => ?_⟩
      by_cases hi : i = qc.proTxHash
      · exact .inr (mem_append_right _ (by simp [hi]))
      · refine (hshare hi hsent).imp (fun hsettled => ?_) (mem_append_left _)
        exact hsettled.mono id id rfl (by rw [hstored]; exact update_of_ne hi ..)
    split
    · exact sharesKept_verifyPendingContributions hsound hkept
    · exact hkept

theorem SharesKept.receive (hsound : SharesSound ctx) (h : SharesKept ctx me s)
    (qc : CDKGContribution n) : SharesKept ctx me (receiveContribution ctx me s qc) := by
  have hother {i : Fin n} (hi : i ≠ qc.proTxHash)
      (hsent : ((recordMessage (contributionKind n) s qc).members i).contributions ≠ []) :
      Settled ctx me WeComplain (recordMessage (contributionKind n) s qc) i ∨
        i ∈ s.pendingContributionVerifications := by
    have hmember : (recordMessage (contributionKind n) s qc).members i = s.members i :=
      members_modifyMember_of_ne hi _
    rw [hmember] at hsent
    exact (h.share hsent).imp_left fun hsettled =>
      hsettled.mono (fun h => hmember ▸ h) (fun h => hmember ▸ h) rfl rfl
  have hreceived := received (contributionKind n) (acceptContribution ctx me) s qc
  unfold receiveContribution
  generalize receiveMessage (contributionKind n) (acceptContribution ctx me) s qc = s'
    at hreceived ⊢
  cases hreceived with
  | full _ => exact h
  | double _ =>
    refine ⟨h.stored, fun {i} hsent => ?_⟩
    by_cases hi : i = qc.proTxHash
    · subst hi
      exact .inl (.inl (bad_markBadMember _ _))
    · have hmember := members_modifyMember_of_ne (s := recordMessage (contributionKind n) s qc) hi
        fun m => { m with bad := true }
      refine (hother hi (hmember ▸ hsent)).imp_left fun hsettled => ?_
      exact hsettled.mono (fun h => hmember ▸ h) (fun h => hmember ▸ h) rfl rfl
  | first _ => exact sharesKept_acceptContribution hsound h.stored hother

/-! ### The complaint phase -/

theorem settled_receiveComplaint (qc : CDKGComplaint n) (h : Settled ctx me WeComplain s i) :
    Settled ctx me WeComplain (receiveComplaint s qc) i := by
  have hcomplain : ((receiveComplaint s qc).members i).weComplain = (s.members i).weComplain :=
    receiveComplaint_keeps (·.weComplain) (fun _ _ => rfl) (fun _ _ => rfl) (fun _ _ _ _ => rfl)
      s qc i
  refine h.mono (bad_receiveMessage fun _ _ _ hbad => hbad) ?_ ?_ ?_
  · rw [WeComplain, WeComplain, hcomplain]
    exact id
  · rw [receiveComplaint_keepsSession CDKGSession.verifiedSkContributions fun _ _ => rfl]
  · rw [receiveComplaint_keepsSession CDKGSession.verifiedVvecContributions fun _ _ => rfl]

theorem SharesKept.receiveComplaint (h : SharesKept ctx me s) (qc : CDKGComplaint n) :
    SharesKept ctx me (receiveComplaint s qc) where
  stored := by
    rw [receiveComplaint_keepsSession CDKGSession.verifiedVvecContributions fun _ _ => rfl,
      receiveComplaint_keepsSession CDKGSession.receivedVvecs fun _ _ => rfl]
    exact h.stored
  share {i} hsent := by
    rw [receiveComplaint_keeps (·.contributions) (fun _ _ => rfl) (fun _ _ => rfl)
      (fun _ _ _ _ => rfl)] at hsent
    rw [receiveComplaint_keepsSession CDKGSession.pendingContributionVerifications fun _ _ => rfl]
    exact (h.share hsent).imp_left (settled_receiveComplaint qc)

theorem verified_verifyAndComplain (ctx : DkgContext n) (me : Fin n) (conn : ConnectionInfo n)
    (s : CDKGSession n) :
    (verifyAndComplain ctx me conn s).1.verifiedVvecContributions = s.verifiedVvecContributions ∧
      (verifyAndComplain ctx me conn s).1.verifiedSkContributions =
        (verifyPendingContributions ctx me s).verifiedSkContributions := by
  rw [← stored_verifyPendingContributions ctx me s]
  unfold verifyAndComplain verifyConnectionAndMinProtoVersions
  split <;> exact ⟨rfl, rfl⟩

theorem settled_verifyAndComplain (hsound : SharesSound ctx) (h : SharesKept ctx me s)
    (conn : ConnectionInfo n) (i : Fin n) :
    Settled ctx me WeComplain (verifyAndComplain ctx me conn s).1 i := by
  have hbad := (complainEffect_verifyAndComplain ctx me conn s i).bad
  by_cases hsent : (s.members i).contributions = []
  · exact .inl (hbad.mpr (.inr hsent))
  · obtain ⟨w, hw⟩ := (sharesChecked_verifyPendingContributions ctx me s).members i
    obtain ⟨c, hc⟩ := members_verifyConnectionAndMinProtoVersions me conn
      (verifyPendingContributions ctx me s).markSilentMembers i
    obtain ⟨hvvec, hsk⟩ := verified_verifyAndComplain ctx me conn s
    refine (settled_verifyPendingContributions hsound h.stored (h.share hsent)).mono
      (fun hb => hbad.mpr (.inl ?_)) ?_ (congrFun hsk i) ?_
    · rwa [hw] at hb
    · intro hcomplain
      have hmember : (verifyAndComplain ctx me conn s).1.members i = _ := hc
      rw [hmember, WeComplain, markSilentMembers]
      dsimp only
      split_ifs <;> exact hcomplain
    · rw [hvvec, stored_verifyPendingContributions]

theorem bit_complainForMembers_sendComplaint {qc : CDKGComplaint n}
    (hsend : sendComplaint ctx me s = some qc) (i : Fin n) :
    bit qc.complainForMembers i =
      (!((s.members i).bad || (s.members i).badConnection) && (s.members i).weComplain) := by
  unfold sendComplaint at hsend
  dsimp only at hsend
  split at hsend
  · cases hsend
  · cases hsend
    exact bit_bitset ctx _ i

theorem exists_sendComplaint (hsign : ∀ hash, (ctx.sign me hash).isSome = true)
    (hbad : (s.members i).bad = false) (hconnection : (s.members i).badConnection = false)
    (hcomplain : WeComplain (s.members i)) :
    ∃ qc, sendComplaint ctx me s = some qc ∧ qc.proTxHash = me ∧
      wellFormedComplaint ctx qc = true ∧ bit qc.complainForMembers i = true := by
  have hsome : ∃ qc, sendComplaint ctx me s = some qc ∧ qc.proTxHash = me ∧
      wellFormedComplaint ctx qc = true := by
    unfold sendComplaint
    dsimp only
    rw [if_neg]
    · refine ⟨_, rfl, rfl, ?_⟩
      simp [wellFormedComplaint, bitset, hsign]
    · intro hnone
      have hi := (hnone i).2
      rw [hbad, hconnection, hcomplain] at hi
      cases hi
  obtain ⟨qc, hsend, hsender, hformed⟩ := hsome
  refine ⟨qc, hsend, hsender, hformed, ?_⟩
  rw [bit_complainForMembers_sendComplaint hsend, hbad, hconnection, hcomplain]
  rfl

/-! ### The justification phase -/

/-- A share that is not held is disputed by a complaint of this node. -/
structure SharesCovered (ctx : DkgContext n) (me : Fin n) (s : CDKGSession n) : Prop where
  stored : s.verifiedVvecContributions = s.receivedVvecs
  share : ∀ i, Settled ctx me (fun m => me ∈ m.complaintsFromOthers) s i

theorem SharesCovered.of_members (h : SharesCovered ctx me s) {members : Fin n → CDKGMember n}
    (hbad : ∀ i, (s.members i).bad = true → (members i).bad = true)
    (hothers : ∀ i, (members i).bad = true ∨ (me ∈ (s.members i).complaintsFromOthers →
      me ∈ (members i).complaintsFromOthers)) : SharesCovered ctx me { s with members } where
  stored := h.stored
  share i := by
    obtain hmarked | hkept := hothers i
    · exact .inl hmarked
    · exact (h.share i).mono (hbad i) hkept rfl rfl

theorem SharesCovered.modifyMember (h : SharesCovered ctx me s) (f : CDKGMember n → CDKGMember n)
    (hbad : (s.members i).bad = true → (f (s.members i)).bad = true)
    (hothers : (f (s.members i)).bad = true ∨ (me ∈ (s.members i).complaintsFromOthers →
      me ∈ (f (s.members i)).complaintsFromOthers)) : SharesCovered ctx me (s.modifyMember i f) := by
  refine h.of_members (fun j => ?_) fun j => ?_
  · by_cases hj : j = i
    · subst hj
      rwa [update_self]
    · rw [update_of_ne hj]
      exact id
  · by_cases hj : j = i
    · subst hj
      rwa [update_self]
    · rw [update_of_ne hj]
      exact .inr id

theorem verified_applyJustified (me member : Fin n) (s : CDKGSession n)
    (c : Fin n × CBLSSecretKey)
    (hverified : ctx.verifyContributionShare c.1 (s.receivedVvecs member) c.2 = true) :
    (applyJustified ctx me member s c).verifiedVvecContributions = s.verifiedVvecContributions ∧
      (applyJustified ctx me member s c).verifiedSkContributions =
        if c.1 = me then Function.update s.verifiedSkContributions member (some c.2)
        else s.verifiedSkContributions := by
  unfold applyJustified
  rw [hverified]
  by_cases hme : c.1 = me
  · simp only [hme, if_true]
    exact ⟨rfl, rfl⟩
  · simp only [hme, if_false]
    exact ⟨rfl, rfl⟩

section

variable (h : SharesCovered ctx me s)

include h

theorem SharesCovered.applyJustified (member : Fin n) (c : Fin n × CBLSSecretKey) :
    SharesCovered ctx me (applyJustified ctx me member s c) := by
  obtain ⟨-, heq⟩ | ⟨hverified, w, hmembers, hreceived, -⟩ := applyJustified_cases ctx me member s c
  · rw [heq]
    exact h.modifyMember _ (fun _ => rfl) (.inl rfl)
  · obtain ⟨hvvec, hsk⟩ := verified_applyJustified me member s c hverified
    refine ⟨by rw [hvvec, hreceived, h.stored], fun i => ?_⟩
    by_cases hi : i = member
    · subst hi
      by_cases hme : c.1 = me
      · -- the share is for this node, so it is stored before the complaint is taken back
        refine .inr (.inr ⟨c.2, ?_, ?_⟩)
        · rw [hsk, if_pos hme, update_self]
        · rw [hvvec, h.stored, ← hme, hverified]
      · refine (h.share i).mono ?_ ?_ (by rw [hsk, if_neg hme]) (by rw [hvvec])
        · rw [hmembers, members_modifyMember_self]
          exact id
        · rw [hmembers, members_modifyMember_self]
          exact fun hmem => Finset.mem_erase.mpr ⟨Ne.symm hme, hmem⟩
    · refine (h.share i).mono ?_ ?_ ?_ (by rw [hvvec])
      · rw [hmembers, members_modifyMember_of_ne hi]
        exact id
      · rw [hmembers, members_modifyMember_of_ne hi]
        exact id
      · rw [hsk]
        split
        · exact update_of_ne hi ..
        · rfl

theorem SharesCovered.receive (qj : CDKGJustification n) :
    SharesCovered ctx me (receiveJustification ctx me s qj) := by
  have hrecord : SharesCovered ctx me (recordMessage (justificationKind n) s qj) :=
    h.modifyMember _ id (.inr id)
  have hreceived := received (justificationKind n) (acceptJustification ctx me) s qj
  unfold receiveJustification
  generalize receiveMessage (justificationKind n) (acceptJustification ctx me) s qj = s'
    at hreceived ⊢
  cases hreceived with
  | full _ => exact h
  | double _ => exact hrecord.modifyMember _ (fun _ => rfl) (.inl rfl)
  | first _ =>
    unfold acceptJustification
    split
    · exact hrecord
    · split
      · exact hrecord.modifyMember _ (fun _ => rfl) (.inl rfl)
      · exact foldlRecOn _ _ hrecord fun s hs c _ => hs.applyJustified _ c

theorem SharesCovered.processJustifications (batches : List (List (CDKGJustification n))) :
    SharesCovered ctx me (processJustifications ctx me s batches) := by
  rw [processJustifications_eq]
  exact foldlRecOn _ _ h fun s hs qj _ => hs.receive qj

theorem SharesCovered.verifyAndJustify : SharesCovered ctx me (verifyAndJustify ctx me s).1 :=
  h.of_members (fun _ => bad_judge_of_bad) fun i => .inr fun hmem => by
    rwa [← @complaintsFromOthers_verifyAndJustify n ctx me] at hmem

end

end CDKGSession

/-! ### A session -/

namespace MemberInput

variable {ctx : DkgContext n} {me : Fin n} {input : MemberInput n}

/-- Where a share is disputed this node complains, and its complaint is processed before the phase
ends. -/
structure ComplaintHeard (ctx : DkgContext n) (me : Fin n) (input : MemberInput n) : Prop where
  connected : ∀ i, let s := (verifyAndComplain ctx me input.connections
    (input.complainStart ctx me)).1
    (s.members i).weComplain = true → (s.members i).badConnection = false
  delivered : Delivered {me} (·.proTxHash) (fun _ => input.complaints.messages)
    fun _ => input.sentComplaint ctx me

theorem sharesKept_complainStart (hsound : SharesSound ctx) :
    SharesKept ctx me (input.complainStart ctx me) := by
  have hprocess {s : CDKGSession n} (h : SharesKept ctx me s)
      (batches : List (List (CDKGContribution n))) :
      SharesKept ctx me (processContributions ctx me s batches) := by
    rw [processContributions_eq]
    exact foldlRecOn _ _ h fun s hs qc _ => hs.receive hsound qc
  have hstart : SharesKept ctx me (input.contributeStart ctx me) :=
    hprocess ⟨rfl, fun hsent => absurd rfl hsent⟩ _
  have hsent : SharesKept ctx me (contribute ctx me (input.contributeStart ctx me)).1 := by
    unfold contribute
    split
    · exact hstart
    · exact ⟨hstart.stored, hstart.share⟩
  unfold complainStart
  rw [processComplaints_eq]
  exact foldlRecOn _ _ (hprocess hsent _) fun s hs qc _ => hs.receiveComplaint qc

theorem sharesCovered_complainEnd (hsound : SharesSound ctx)
    (hsign : ∀ hash, (ctx.sign me hash).isSome = true) (hheard : input.ComplaintHeard ctx me) :
    SharesCovered ctx me (input.complainEnd ctx me) := by
  have hkept : SharesKept ctx me (input.complainStart ctx me) := sharesKept_complainStart hsound
  have hsettled := settled_verifyAndComplain hsound hkept input.connections
  have hseen := input.complaintsSeen_complainEnd ctx me
  have hsession {β : Type} (field : CDKGSession n → β)
      (hmembers : ∀ s members, field { s with members := members } = field s) :
      field (input.complainEnd ctx me) = field (verifyAndComplain ctx me input.connections
        (input.complainStart ctx me)).1 := by
    unfold complainEnd
    rw [processComplaints_eq]
    exact foldl_keeps field (receiveComplaint_keepsSession field hmembers) _ _
  have hvvec := hsession CDKGSession.verifiedVvecContributions fun _ _ => rfl
  refine ⟨?_, fun i => ?_⟩
  · rw [hvvec, hsession CDKGSession.receivedVvecs fun _ _ => rfl, (kept_verifyAndComplain _ _).1,
      (verified_verifyAndComplain _ _ _ _).1, hkept.stored]
  · cases hbad : ((verifyAndComplain ctx me input.connections
        (input.complainStart ctx me)).1.members i).bad with
    | true => exact .inl (bad_processComplaints _ _ hbad)
    | false =>
      obtain hbad' | hcomplain | hholds := hsettled i
      · exact absurd (hbad'.symm.trans hbad) (by simp)
      · obtain ⟨qc, hsent, rfl, hformed, hbit⟩ :=
          exists_sendComplaint hsign hbad (hheard.connected i hcomplain) hcomplain
        have hmem : qc ∈ input.seenComplaints ctx := mem_filter.mpr
          ⟨hheard.delivered.own _ (Finset.mem_singleton_self _) qc hsent, hformed⟩
        have hone := hseen.complaints.eq_singleton (by omega) hmem
          (hheard.delivered.unique (Finset.mem_singleton_self _) (Finset.mem_singleton_self _)
            (DkgRun.seenComplaints_subset ctx input))
        exact .inr (.inl (hseen.recorded hone hbit))
      · refine .inr (.inr ?_)
        rwa [Holds, hvvec, hsession CDKGSession.verifiedSkContributions fun _ _ => rfl]

end MemberInput

/-- Every member that the premature commitment names as valid is one whose share is stored and
verifies. -/
theorem committed_share_held {ctx : DkgContext n} {me : Fin n} {input : MemberInput n}
    (hsound : SharesSound ctx) (hsign : ∀ hash, (ctx.sign me hash).isSome = true)
    (hheard : input.ComplaintHeard ctx me) {i : Fin n}
    (hvalid : bit (validMembers ctx (input.committed ctx me)) i = true) :
    Holds ctx me (input.committed ctx me) i := by
  have hcovered : SharesCovered ctx me (input.justifyEnd ctx me) :=
    ((MemberInput.sharesCovered_complainEnd hsound hsign hheard).processJustifications
      input.justifications.early).verifyAndJustify.processJustifications _
  rw [validMembers, bit_bitset, Bool.not_eq_true', ← Bool.not_eq_true,
    MemberInput.committed, bad_verifyAndCommit, not_or, not_not] at hvalid
  obtain hbad | hopen | hholds := hcovered.share i
  · exact absurd hbad hvalid.1
  · rw [hvalid.2] at hopen
    exact absurd hopen (Finset.notMem_empty me)
  · exact hholds

namespace ShareSample

open SampleSession (context)

/-- The seed of a ciphertext stands for the share, and zero for one that cannot be decrypted. -/
def shareContext : DkgContext 3 :=
  { context with
    decrypt := fun _ objects => if objects.ivSeed = 0 then none else some (some objects.ivSeed)
    verifyContributionShares := fun me => List.zipWith (context.verifyContributionShare me) }

def contribution (i : Fin 3) (ivSeed : Uint256) : CDKGContribution 3 :=
  { SampleSession.contribution i with contributions := ⟨some 0, ivSeed, [[], [], []]⟩ }

def contributions : PhaseInput (CDKGContribution 3) where
  late := [[contribution 0 0, contribution 1 2, contribution 2 3]]
  nodup := by decide +kernel

def complained : MemberInput 3 :=
  { SampleSession.oneComplaint with contributions }

def votedBad : CDKGComplaint 3 :=
  { SampleSession.complaint false with badMembers := [true, false, false] }

def disconnected : MemberInput 3 :=
  { SampleSession.twoComplaints with
    contributions := contributions
    complaints := { late := [[votedBad]] }
    connections :=
      { SampleSession.connections with
        isQuorumPoseEnabled := true
        outboundFailedTooManyTimes := fun i => i = 0 } }

theorem sharesSound_shareContext : SharesSound shareContext := by
  intro me shares
  have hresult : shareContext.verifyContributionShares me (shares.map Prod.fst)
      (shares.map Prod.snd) =
        shares.map fun r => shareContext.verifyContributionShare me r.1 r.2 := by
    induction shares with
    | nil => rfl
    | cons r shares ih => exact congrArg (cons _) ih
  rw [hresult]
  refine ⟨length_map _, fun r hr htrue => ?_⟩
  rw [zip_map_right] at hr
  obtain ⟨q, hq, rfl⟩ := mem_map.mp hr
  obtain ⟨k, hk, rfl⟩ := mem_iff_getElem.mp hq
  simpa using htrue

theorem delivered_own {sent : Option (CDKGComplaint 3)} {received : List (CDKGComplaint 3)}
    (hown : ∀ qc ∈ sent, qc ∈ received) (hauthentic : ∀ qc ∈ received, sent = some qc) :
    Delivered {2} (·.proTxHash) (fun _ : Fin 3 => received) fun _ => sent :=
  SampleSession.delivered_of_eq (fun _ _ => hown) fun qc hqc _ => hauthentic qc hqc

end ShareSample

open ShareSample in
theorem committed_share_held_complained :
    ((complained.complainEnd shareContext 2).members 0).weComplain = true ∧
      bit (validMembers shareContext (complained.committed shareContext 2)) (0 : Fin 3) = true ∧
      Holds shareContext 2 (complained.committed shareContext 2) 0 := by
  have hvalid : bit (validMembers shareContext (complained.committed shareContext 2))
      (0 : Fin 3) = true := by
    decide +kernel
  refine ⟨by decide +kernel, hvalid, ?_⟩
  exact committed_share_held sharesSound_shareContext (fun _ => rfl)
    ⟨by decide +kernel, delivered_own (by decide +kernel) (by decide +kernel)⟩ hvalid

open ShareSample in
/-- The last member votes against the first one instead of complaining, and commits to it. -/
theorem committed_share_missing :
    SharesSound shareContext ∧
      Delivered {2} (·.proTxHash) (fun _ : Fin 3 => disconnected.complaints.messages)
        (fun _ => disconnected.sentComplaint shareContext 2) ∧
      bit (validMembers shareContext (disconnected.committed shareContext 2)) (0 : Fin 3) = true ∧
      (disconnected.committed shareContext 2).verifiedSkContributions 0 = none :=
  ⟨sharesSound_shareContext, delivered_own (by decide +kernel) (by decide +kernel),
    by decide +kernel, by decide +kernel⟩

end Defcon.Llmq
