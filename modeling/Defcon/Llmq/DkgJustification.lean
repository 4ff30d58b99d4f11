import Defcon.Llmq.DkgEffects

/-!
# What the justification phase of a DKG session does

A justification touches the member that sends it and no other.
-/

namespace Defcon.Llmq.CDKGSession

open Lib (LogsPerSender)

variable {n : Nat} {ctx : DkgContext n} {me : Fin n} {s s' s'' : CDKGSession n} {i : Fin n}

def settledRecords (m : CDKGMember n) :
    List (CDKGContribution n) × List (CDKGComplaint n) × Finset (Fin n) :=
  (m.contributions, m.complaints, m.badMemberVotes)

structure Persists (s s' : CDKGSession n) : Prop where
  records : ∀ i, settledRecords (s'.members i) = settledRecords (s.members i)
  bad : ∀ {i}, (s.members i).bad = true → (s'.members i).bad = true
  receivedVvecs : s'.receivedVvecs = s.receivedVvecs
  m_sk_contributions : s'.m_sk_contributions = s.m_sk_contributions

theorem Persists.complaints (h : Persists s s') (i : Fin n) :
    (s'.members i).complaints = (s.members i).complaints :=
  congrArg (·.2.1) (h.records i)

theorem Persists.badMemberVotes (h : Persists s s') (i : Fin n) :
    (s'.members i).badMemberVotes = (s.members i).badMemberVotes :=
  congrArg (·.2.2) (h.records i)

theorem Persists.rfl : Persists s s :=
  ⟨fun _ => Eq.refl _, id, Eq.refl _, Eq.refl _⟩

theorem Persists.trans (h : Persists s s') (h' : Persists s' s'') : Persists s s'' where
  records i := (h'.records i).trans (h.records i)
  bad hbad := h'.bad (h.bad hbad)
  receivedVvecs := h'.receivedVvecs.trans h.receivedVvecs
  m_sk_contributions := h'.m_sk_contributions.trans h.m_sk_contributions

variable (s : CDKGSession n)

theorem Persists.modifyMember {f : CDKGMember n → CDKGMember n}
    (hrecords : settledRecords (f (s.members i)) = settledRecords (s.members i))
    (hbad : (s.members i).bad = true → (f (s.members i)).bad = true) :
    Persists s (s.modifyMember i f) where
  records := modifyMember_keeps settledRecords hrecords
  bad {j} h := by
    by_cases hji : j = i
    · subst hji
      rw [members_modifyMember_self]
      exact hbad h
    · rwa [members_modifyMember_of_ne hji]
  receivedVvecs := Eq.refl _
  m_sk_contributions := Eq.refl _

theorem persists_foldl {α : Type*} {step : CDKGSession n → α → CDKGSession n}
    (hstep : ∀ s a, Persists s (step s a)) (items : List α) (s : CDKGSession n) :
    Persists s (items.foldl step s) := by
  induction items generalizing s with
  | nil => exact .rfl
  | cons a items ih => exact (hstep s a).trans (ih _)

theorem persists_markBadMember (i : Fin n) : Persists s (s.markBadMember i) :=
  Persists.modifyMember s (Eq.refl _) fun _ => Eq.refl _

theorem applyJustified_cases (ctx : DkgContext n) (me member : Fin n) (s : CDKGSession n) (c : Fin n × CBLSSecretKey) :
    (ctx.verifyContributionShare c.1 (s.receivedVvecs member) c.2 = false ∧
      applyJustified ctx me member s c = s.markBadMember member) ∨
    (ctx.verifyContributionShare c.1 (s.receivedVvecs member) c.2 = true ∧
      ∃ w, (applyJustified ctx me member s c).members = (s.modifyMember member fun m =>
          { m with
            weComplain := w
            complaintsFromOthers := m.complaintsFromOthers.erase c.1 }).members ∧
        (applyJustified ctx me member s c).receivedVvecs = s.receivedVvecs ∧
        (applyJustified ctx me member s c).m_sk_contributions = s.m_sk_contributions) := by
  unfold applyJustified
  by_cases hverify : ctx.verifyContributionShare c.1 (s.receivedVvecs member) c.2
  · refine .inr ⟨hverify, ?_⟩
    rw [if_neg (by simp [hverify])]
    split
    · refine ⟨false, ?_, Eq.refl _, Eq.refl _⟩
      simp [modifyMember]
    · refine ⟨(s.members member).weComplain, ?_, Eq.refl _, Eq.refl _⟩
      simp [modifyMember]
  · rw [Bool.not_eq_true] at hverify
    refine .inl ⟨hverify, ?_⟩
    rw [if_pos (by simp [hverify])]

theorem persists_applyJustified (ctx : DkgContext n) (me member : Fin n) (s : CDKGSession n)
    (c : Fin n × CBLSSecretKey) : Persists s (applyJustified ctx me member s c) := by
  obtain ⟨-, heq⟩ | ⟨-, w, hmembers, hvvecs, hsks⟩ := applyJustified_cases ctx me member s c
  · rw [heq]
    exact persists_markBadMember s member
  · have hmodify : Persists s (s.modifyMember member fun m =>
        { m with
          weComplain := w
          complaintsFromOthers := m.complaintsFromOthers.erase c.1 }) :=
      Persists.modifyMember s (Eq.refl _) id
    refine ⟨fun i => ?_, fun {i} hbad => ?_, hvvecs, hsks⟩
    · rw [hmembers]
      exact hmodify.records i
    · rw [hmembers]
      exact hmodify.bad hbad

theorem members_applyJustified_of_ne {member : Fin n} (hne : i ≠ member) (s : CDKGSession n)
    (c : Fin n × CBLSSecretKey) : (applyJustified ctx me member s c).members i = s.members i := by
  obtain ⟨-, heq⟩ | ⟨-, w, hmembers, -, -⟩ := applyJustified_cases ctx me member s c
  · rw [heq]
    exact members_modifyMember_of_ne hne _
  · rw [hmembers]
    exact members_modifyMember_of_ne hne _

theorem justifications_applyJustified (member : Fin n) (s : CDKGSession n)
    (c : Fin n × CBLSSecretKey) (i : Fin n) :
    ((applyJustified ctx me member s c).members i).justifications =
      (s.members i).justifications := by
  obtain ⟨-, heq⟩ | ⟨-, w, hmembers, -, -⟩ := applyJustified_cases ctx me member s c
  · rw [heq]
    exact modifyMember_keeps (·.justifications) (Eq.refl _) i
  · rw [hmembers]
    exact modifyMember_keeps (·.justifications) (Eq.refl _) i

theorem foldl_applyJustified (me : Fin n) {member : Fin n} (entries : List (Fin n × CBLSSecretKey))
    (s : CDKGSession n)
    (hverify : ∀ c ∈ entries,
      ctx.verifyContributionShare c.1 (s.receivedVvecs member) c.2 = true) :
    ((entries.foldl (applyJustified ctx me member) s).members member).bad =
        (s.members member).bad ∧
      ∀ x, x ∈ ((entries.foldl (applyJustified ctx me member) s).members
          member).complaintsFromOthers ↔
        x ∈ (s.members member).complaintsFromOthers ∧ ∀ c ∈ entries, x ≠ c.1 := by
  induction entries generalizing s with
  | nil => simp
  | cons c entries ih =>
    obtain ⟨hfalse, -⟩ | ⟨-, w, hmembers, hvvecs, -⟩ := applyJustified_cases ctx me member s c
    · rw [hverify c List.mem_cons_self] at hfalse
      cases hfalse
    · have hnext := ih (applyJustified ctx me member s c) (by
        intro c' hc'
        rw [hvvecs]
        exact hverify c' (List.mem_cons_of_mem _ hc'))
      rw [List.foldl_cons]
      obtain ⟨hbad, hothers⟩ := hnext
      constructor
      · rw [hbad, hmembers, members_modifyMember_self]
      · intro x
        rw [hothers x, hmembers, members_modifyMember_self, Finset.mem_erase,
          List.forall_mem_cons]
        tauto

theorem justifications_acceptJustification (qj : CDKGJustification n)
    (i : Fin n) :
    ((acceptJustification ctx me s qj).members i).justifications =
      (s.members i).justifications := by
  unfold acceptJustification
  split
  · rfl
  · split
    · exact modifyMember_keeps (·.justifications) (Eq.refl _) i
    · exact foldl_keeps (fun s => (s.members i).justifications)
        (fun s c => justifications_applyJustified _ s c i) _ s

theorem persists_acceptJustification (ctx : DkgContext n) (me : Fin n) (s : CDKGSession n)
    (qj : CDKGJustification n) : Persists s (acceptJustification ctx me s qj) := by
  unfold acceptJustification
  split
  · exact .rfl
  · split
    · exact persists_markBadMember s _
    · exact persists_foldl (persists_applyJustified ctx me qj.proTxHash) _ s

theorem members_acceptJustification_of_ne {qj : CDKGJustification n} (hne : i ≠ qj.proTxHash)
    (s : CDKGSession n) : (acceptJustification ctx me s qj).members i = s.members i := by
  unfold acceptJustification
  split
  · rfl
  · split
    · exact members_modifyMember_of_ne hne _
    · exact foldl_keeps (fun s => s.members i) (fun s c => members_applyJustified_of_ne hne s c) _ s

theorem logsPerSender_receiveJustification (ctx : DkgContext n) (me : Fin n) :
    LogsPerSender 2 (receiveJustification ctx me) (·.proTxHash)
      fun s i => (s.members i).justifications :=
  logsPerSender_receiveMessage justifications_acceptJustification

theorem persists_receiveJustification (ctx : DkgContext n) (me : Fin n) (s : CDKGSession n)
    (qj : CDKGJustification n) : Persists s (receiveJustification ctx me s qj) where
  records i := receiveMessage_keeps settledRecords (fun _ _ => Eq.refl _) (fun _ _ => Eq.refl _)
    (fun s qj => (persists_acceptJustification ctx me s qj).records) i
  bad hbad :=
    bad_receiveMessage (fun s qj _ => (persists_acceptJustification ctx me s qj).bad) hbad
  receivedVvecs := receiveMessage_keepsSession CDKGSession.receivedVvecs (fun _ _ => Eq.refl _)
    fun s qj => (persists_acceptJustification ctx me s qj).receivedVvecs
  m_sk_contributions :=
    receiveMessage_keepsSession CDKGSession.m_sk_contributions (fun _ _ => Eq.refl _)
      fun s qj => (persists_acceptJustification ctx me s qj).m_sk_contributions

theorem members_receiveJustification_of_ne {qj : CDKGJustification n} (hne : i ≠ qj.proTxHash)
    (s : CDKGSession n) : (receiveJustification ctx me s qj).members i = s.members i := by
  have hrecord : (recordMessage (justificationKind n) s qj).members i = s.members i :=
    members_modifyMember_of_ne hne _
  have hreceived := received (justificationKind n) (acceptJustification ctx me) s qj
  unfold receiveJustification
  generalize receiveMessage (justificationKind n) (acceptJustification ctx me) s qj = s'
    at hreceived ⊢
  cases hreceived with
  | full _ => rfl
  | double _ => exact (members_modifyMember_of_ne hne _).trans hrecord
  | first _ => exact (members_acceptJustification_of_ne hne _).trans hrecord

theorem receiveJustification_answered (me : Fin n) {s : CDKGSession n} {qj : CDKGJustification n}
    (hnone : (s.members qj.proTxHash).justifications = [])
    (hbad : (s.members qj.proTxHash).bad = false)
    (hopen : ∀ c ∈ justifiedMembers qj, c.1 ∈ (s.members qj.proTxHash).complaintsFromOthers)
    (hverify : ∀ c ∈ justifiedMembers qj,
      ctx.verifyContributionShare c.1 (s.receivedVvecs qj.proTxHash) c.2 = true) :
    ((receiveJustification ctx me s qj).members qj.proTxHash).bad = false ∧
      ∀ x, x ∈ ((receiveJustification ctx me s qj).members qj.proTxHash).complaintsFromOthers ↔
        x ∈ (s.members qj.proTxHash).complaintsFromOthers ∧
          ∀ c ∈ justifiedMembers qj, x ≠ c.1 := by
  have hreceive : receiveJustification ctx me s qj =
      acceptJustification ctx me (recordMessage (justificationKind n) s qj) qj := by
    have hreceived := received (justificationKind n) (acceptJustification ctx me) s qj
    unfold receiveJustification
    generalize receiveMessage (justificationKind n) (acceptJustification ctx me) s qj = s'
      at hreceived ⊢
    change (justificationKind n).messages
      (s.members ((justificationKind n).proTxHash qj)) = [] at hnone
    cases hreceived with
    | full hfull => simp [hnone] at hfull
    | double hdouble => simp [hnone] at hdouble
    | first _ => rfl
  have hrecord : (recordMessage (justificationKind n) s qj).members qj.proTxHash =
      { s.members qj.proTxHash with
        justifications := (s.members qj.proTxHash).justifications.insert qj } :=
    members_modifyMember_self ..
  have haccept : acceptJustification ctx me (recordMessage (justificationKind n) s qj) qj =
      (justifiedMembers qj).foldl (applyJustified ctx me qj.proTxHash)
        (recordMessage (justificationKind n) s qj) := by
    unfold acceptJustification
    rw [hrecord, if_neg (by simp [hbad]), if_neg]
    rintro ⟨c, hc, hnot⟩
    exact hnot (hopen c hc)
  have hfold := foldl_applyJustified me (justifiedMembers qj)
    (recordMessage (justificationKind n) s qj) hverify
  rw [hrecord] at hfold
  rw [hreceive, haccept]
  exact ⟨hfold.1.trans hbad, hfold.2⟩

theorem processJustifications_eq
    (batches : List (List (CDKGJustification n))) :
    processJustifications ctx me s batches =
      (batches.flatten.filter (wellFormedJustification ctx)).foldl
        (receiveJustification ctx me) s :=
  foldl_processPendingMessageBatch (justificationKind n) (acceptJustification ctx me)
    justifications_acceptJustification _ _ s

theorem persists_processJustifications (ctx : DkgContext n) (me : Fin n) (s : CDKGSession n)
    (batches : List (List (CDKGJustification n))) :
    Persists s (processJustifications ctx me s batches) := by
  rw [processJustifications_eq]
  exact persists_foldl (persists_receiveJustification ctx me) _ s

/-! ### The verdict on a member -/

section Judge

variable {m : CDKGMember n}

theorem judge_bad (ctx : DkgContext n) (me : Fin n) (m : CDKGMember n) :
    (judge ctx me m).1 = { m with bad := (judge ctx me m).1.bad } := by
  unfold judge
  split
  · rfl
  · split
    · rfl
    · split <;> rfl

theorem bad_judge_of_bad (hbad : m.bad = true) : (judge ctx me m).1.bad = true := by
  rw [judge, if_pos hbad]
  exact hbad

theorem bad_judge_of_few (hbad : m.bad = false)
    (hvotes : m.badMemberVotes.card < ctx.getDkgBadVotesThreshold)
    (hcomplaints : m.complaints.length ≤ 1) : (judge ctx me m).1.bad = false := by
  rw [judge, if_neg (by simp [hbad]), if_neg (not_le.mpr hvotes)]
  split
  · exact hbad
  · exact hbad
  · rename_i hnil hone
    match hlist : m.complaints with
    | [] => exact absurd hlist hnil
    | [qc] => exact absurd hlist (hone qc)
    | _ :: _ :: _ =>
      rw [hlist] at hcomplaints
      simp at hcomplaints

theorem judge_answers_iff {x : Fin n} :
    (judge ctx me m).2 = some x ↔
      m.bad = false ∧ m.badMemberVotes.card < ctx.getDkgBadVotesThreshold ∧
        ∃ qc, m.complaints = [qc] ∧ bit qc.complainForMembers me = true ∧ qc.proTxHash = x := by
  unfold judge
  by_cases hbad : m.bad
  · simp [hbad]
  · by_cases hvotes : ctx.getDkgBadVotesThreshold ≤ m.badMemberVotes.card
    · simp [hbad, hvotes]
    · rw [if_neg hbad, if_neg hvotes]
      match hlist : m.complaints with
      | [] => simp
      | [qc] => simp [hbad, not_le.mp hvotes]
      | _ :: _ :: _ => simp

end Judge

theorem persists_verifyAndJustify (ctx : DkgContext n) (me : Fin n) (s : CDKGSession n) :
    Persists s (verifyAndJustify ctx me s).1 where
  records i := by
    change settledRecords (judge ctx me (s.members i)).1 = _
    rw [judge_bad]
    rfl
  bad hbad := bad_judge_of_bad hbad
  receivedVvecs := Eq.refl _
  m_sk_contributions := Eq.refl _

theorem justifications_verifyAndJustify (i : Fin n) :
    ((verifyAndJustify ctx me s).1.members i).justifications = (s.members i).justifications := by
  change (judge ctx me (s.members i)).1.justifications = _
  rw [judge_bad]

theorem complaintsFromOthers_verifyAndJustify (i : Fin n) :
    ((verifyAndJustify ctx me s).1.members i).complaintsFromOthers =
      (s.members i).complaintsFromOthers := by
  change (judge ctx me (s.members i)).1.complaintsFromOthers = _
  rw [judge_bad]

theorem bad_verifyAndCommit (i : Fin n) :
    (s.verifyAndCommit.members i).bad = true ↔
      (s.members i).bad = true ∨ (s.members i).complaintsFromOthers ≠ ∅ := by
  dsimp only [verifyAndCommit]
  by_cases hbad : (s.members i).bad
  · simp [hbad]
  · by_cases hopen : (s.members i).complaintsFromOthers = ∅
    · simp [hbad, hopen]
    · simp [hbad, hopen]

end Defcon.Llmq.CDKGSession
