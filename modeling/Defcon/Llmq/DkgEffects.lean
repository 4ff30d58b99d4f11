import Defcon.Llmq.DkgSession

/-!
# What the steps of a DKG session do

The messages of a phase that a node has processed determine what it has recorded about the
members, whatever their order, except where a member has sent two messages of one kind.
-/

namespace Defcon.Llmq.CDKGSession

open List CDKGSession
open Lib (Saw LogsPerSender)

variable {n : Nat} {ctx : DkgContext n} {me : Fin n} {s s' s'' : CDKGSession n} {i j : Fin n}

@[simp]
theorem members_modifyMember_self (s : CDKGSession n) (i : Fin n)
    (f : CDKGMember n → CDKGMember n) : (s.modifyMember i f).members i = f (s.members i) :=
  Function.update_self ..

theorem members_modifyMember_of_ne (hne : j ≠ i) (f : CDKGMember n → CDKGMember n) :
    (s.modifyMember i f).members j = s.members j :=
  Function.update_of_ne hne ..

variable {β : Type*} {ms cms : List (CDKGContribution n)} (field : CDKGMember n → β)

theorem modifyMember_keeps {f : CDKGMember n → CDKGMember n}
    (hkeeps : field (f (s.members i)) = field (s.members i)) (j : Fin n) :
    field ((s.modifyMember i f).members j) = field (s.members j) := by
  by_cases hji : j = i
  · subst hji
    rw [members_modifyMember_self, hkeeps]
  · rw [members_modifyMember_of_ne hji]

theorem foldl_keeps {σ α : Type*} {step : σ → α → σ} (field : σ → β)
    (hstep : ∀ s a, field (step s a) = field s) (items : List α) (s : σ) :
    field (items.foldl step s) = field s := by
  induction items generalizing s with
  | nil => rfl
  | cons a items ih => rw [foldl_cons, ih, hstep]

/-! ### Receiving a message -/

section Messages

variable {Msg : Type} [DecidableEq Msg] {kind : MessageKind n Msg}
  {accept : CDKGSession n → Msg → CDKGSession n} {msg : Msg}

inductive Received (kind : MessageKind n Msg) (accept : CDKGSession n → Msg → CDKGSession n)
    (s : CDKGSession n) (msg : Msg) : CDKGSession n → Prop where
  | full : 2 ≤ (kind.messages (s.members (kind.proTxHash msg))).length → Received kind accept s msg s
  | double :
      2 ≤ ((kind.messages (s.members (kind.proTxHash msg))).insert msg).length →
      Received kind accept s msg ((recordMessage kind s msg).markBadMember (kind.proTxHash msg))
  | first :
      ((kind.messages (s.members (kind.proTxHash msg))).insert msg).length ≤ 1 →
      Received kind accept s msg (accept (recordMessage kind s msg) msg)

theorem messages_recordMessage :
    kind.messages ((recordMessage kind s msg).members (kind.proTxHash msg)) =
      (kind.messages (s.members (kind.proTxHash msg))).insert msg := by
  rw [recordMessage, members_modifyMember_self, kind.messages_setMessages]

omit [DecidableEq Msg] in
theorem messages_markBadMember :
    kind.messages ((s.markBadMember i).members j) = kind.messages (s.members j) :=
  modifyMember_keeps kind.messages (kind.messages_bad _ _) j

theorem received (kind : MessageKind n Msg) (accept : CDKGSession n → Msg → CDKGSession n)
    (s : CDKGSession n) (msg : Msg) :
    Received kind accept s msg (receiveMessage kind accept s msg) := by
  unfold receiveMessage
  split
  next hfull => exact .full hfull
  · dsimp only
    rw [messages_recordMessage]
    split
    next hdouble => exact .double hdouble
    next hdouble => exact .first (not_lt.mp hdouble)

theorem logsPerSender_receiveMessage
    (haccept : ∀ s msg i, kind.messages ((accept s msg).members i) = kind.messages (s.members i)) :
    LogsPerSender 2 (receiveMessage kind accept) kind.proTxHash
      fun s i => kind.messages (s.members i) where
  step_of_full s msg hfull := if_pos hfull
  logs_step s msg hroom := by
    have hreceived := received kind accept s msg
    generalize receiveMessage kind accept s msg = s' at hreceived ⊢
    cases hreceived with
    | full hfull => exact absurd hfull (not_le.mpr hroom)
    | double _ => rw [messages_markBadMember, messages_recordMessage]
    | first _ => rw [haccept, messages_recordMessage]
  logs_step_of_ne s msg i hne := by
    have hrecord : kind.messages ((recordMessage kind s msg).members i) =
        kind.messages (s.members i) := by
      rw [recordMessage, members_modifyMember_of_ne (Ne.symm hne)]
    have hreceived := received kind accept s msg
    generalize receiveMessage kind accept s msg = s' at hreceived ⊢
    cases hreceived with
    | full _ => rfl
    | double _ => rw [messages_markBadMember, hrecord]
    | first _ => rw [haccept, hrecord]

theorem receiveMessage_keeps {β : Type*} (field : CDKGMember n → β)
    (hset : ∀ l m, field (kind.setMessages l m) = field m)
    (hbad : ∀ m b, field { m with bad := b } = field m)
    (haccept : ∀ s msg i, field ((accept s msg).members i) = field (s.members i)) (i : Fin n) :
    field ((receiveMessage kind accept s msg).members i) = field (s.members i) := by
  have hrecord : field ((recordMessage kind s msg).members i) = field (s.members i) :=
    modifyMember_keeps field (hset _ _) i
  have hreceived := received kind accept s msg
  generalize receiveMessage kind accept s msg = s' at hreceived ⊢
  cases hreceived with
  | full _ => rfl
  | double _ => exact (modifyMember_keeps field (hbad _ _) i).trans hrecord
  | first _ => exact (haccept _ _ i).trans hrecord

theorem receiveMessage_keepsSession {β : Type*} (field : CDKGSession n → β)
    (hmembers : ∀ s members, field { s with members := members } = field s)
    (haccept : ∀ s msg, field (accept s msg) = field s) :
    field (receiveMessage kind accept s msg) = field s := by
  have hreceived := received kind accept s msg
  generalize receiveMessage kind accept s msg = s' at hreceived ⊢
  cases hreceived with
  | full _ => rfl
  | double _ => exact (hmembers _ _).trans (hmembers _ _)
  | first _ => exact (haccept _ _).trans (hmembers _ _)

theorem bad_recordMessage (kind : MessageKind n Msg) (s : CDKGSession n) (msg : Msg) (i : Fin n) :
    ((recordMessage kind s msg).members i).bad = (s.members i).bad :=
  modifyMember_keeps (·.bad) (kind.bad_setMessages _ _) i

theorem bad_markBadMember (s : CDKGSession n) (i : Fin n) :
    ((s.markBadMember i).members i).bad = true := by
  rw [markBadMember, members_modifyMember_self]

theorem bad_markBadMember_of_bad (hbad : (s.members j).bad = true) :
    ((s.markBadMember i).members j).bad = true := by
  by_cases hji : j = i
  · rw [hji]
    exact bad_markBadMember s i
  · rwa [markBadMember, members_modifyMember_of_ne hji]

theorem bad_receiveMessage
    (haccept : ∀ s msg i, (s.members i).bad = true → ((accept s msg).members i).bad = true)
    (hbad : (s.members i).bad = true) :
    ((receiveMessage kind accept s msg).members i).bad = true := by
  have hrecord := (bad_recordMessage kind s msg i).trans hbad
  have hreceived := received kind accept s msg
  generalize receiveMessage kind accept s msg = s' at hreceived ⊢
  cases hreceived with
  | full _ => exact hbad
  | double _ => exact bad_markBadMember_of_bad hrecord
  | first _ => exact haccept _ _ i hrecord

section Double

variable (kind accept)
  (haccept : ∀ s msg i, kind.messages ((accept s msg).members i) = kind.messages (s.members i))
  (hacceptBad : ∀ s msg i, ((accept s msg).members i).bad = (s.members i).bad)

include haccept hacceptBad

theorem bad_of_double
    (hdouble : ∀ i, 2 ≤ (kind.messages (s.members i)).length → (s.members i).bad = true)
    (i : Fin n) (hi : 2 ≤ (kind.messages ((receiveMessage kind accept s msg).members i)).length) :
    ((receiveMessage kind accept s msg).members i).bad = true := by
  have hlogs := logsPerSender_receiveMessage haccept
  by_cases hsender : kind.proTxHash msg = i
  · subst hsender
    have hreceived := received kind accept s msg
    generalize receiveMessage kind accept s msg = s' at hreceived hi ⊢
    cases hreceived with
    | full hfull => exact hdouble _ hfull
    | double _ => exact bad_markBadMember _ _
    | first hfirst =>
      rw [haccept, messages_recordMessage] at hi
      omega
  · rw [hlogs.logs_step_of_ne s msg i hsender] at hi
    apply bad_receiveMessage _ (hdouble i hi)
    intro s msg i hbad
    rw [hacceptBad, hbad]

omit haccept in
theorem bad_or_double_of_bad
    (hbad : ((receiveMessage kind accept s msg).members i).bad = true) :
    (s.members i).bad = true ∨
      2 ≤ (kind.messages ((receiveMessage kind accept s msg).members i)).length := by
  have hrecord := bad_recordMessage kind s msg i
  have hreceived := received kind accept s msg
  generalize receiveMessage kind accept s msg = s' at hreceived hbad ⊢
  cases hreceived with
  | full _ => exact .inl hbad
  | double hdouble =>
    by_cases hsender : i = kind.proTxHash msg
    · subst hsender
      rw [messages_markBadMember, messages_recordMessage]
      exact .inr hdouble
    · rw [markBadMember, members_modifyMember_of_ne hsender, hrecord] at hbad
      exact .inl hbad
  | first _ =>
    rw [hacceptBad, hrecord] at hbad
    exact .inl hbad

end Double

/-- Checking a whole batch before the first message of it is received makes no difference. -/
theorem foldl_processPendingMessageBatch (kind : MessageKind n Msg)
    (accept : CDKGSession n → Msg → CDKGSession n)
    (haccept : ∀ s msg i, kind.messages ((accept s msg).members i) = kind.messages (s.members i))
    (wellFormed : Msg → Bool) (batches : List (List Msg)) (s : CDKGSession n) :
    batches.foldl
        (processPendingMessageBatch (preVerifyMessage kind wellFormed) (receiveMessage kind accept))
        s =
      (batches.flatten.filter wellFormed).foldl (receiveMessage kind accept) s := by
  induction batches generalizing s with
  | nil => rfl
  | cons batch batches ih =>
    rw [foldl_cons, ih, flatten_cons, filter_append, foldl_append]
    congr 1
    exact (logsPerSender_receiveMessage haccept).foldl_filter s batch wellFormed

end Messages

/-! ### The contribution phase -/

/-- `s'` differs from `s` in what this node thinks of the shares it was sent. -/
structure SharesChecked (s s' : CDKGSession n) : Prop where
  members : ∀ i, ∃ w, s'.members i = { s.members i with weComplain := w }
  receivedVvecs : s'.receivedVvecs = s.receivedVvecs
  m_sk_contributions : s'.m_sk_contributions = s.m_sk_contributions

theorem SharesChecked.of_members (hmembers : s'.members = s.members)
    (hvvecs : s'.receivedVvecs = s.receivedVvecs)
    (hsks : s'.m_sk_contributions = s.m_sk_contributions) : SharesChecked s s' :=
  ⟨fun i => ⟨(s.members i).weComplain, congrFun hmembers i⟩, hvvecs, hsks⟩

theorem SharesChecked.trans (h : SharesChecked s s') (h' : SharesChecked s' s'') :
    SharesChecked s s'' where
  members i := by
    obtain ⟨w, hw⟩ := h.members i
    obtain ⟨w', hw'⟩ := h'.members i
    exact ⟨w', by rw [hw', hw]⟩
  receivedVvecs := h'.receivedVvecs.trans h.receivedVvecs
  m_sk_contributions := h'.m_sk_contributions.trans h.m_sk_contributions

theorem SharesChecked.clear (h : SharesChecked s s') (pending : List (Fin n)) :
    SharesChecked s { s' with pendingContributionVerifications := pending } :=
  ⟨h.members, h.receivedVvecs, h.m_sk_contributions⟩

theorem sharesChecked_weComplain (s : CDKGSession n) (i : Fin n) (b : Bool) :
    SharesChecked s (s.modifyMember i fun m => { m with weComplain := b }) where
  members j := by
    by_cases hji : j = i
    · subst hji
      exact ⟨b, members_modifyMember_self ..⟩
    · exact ⟨(s.members j).weComplain, members_modifyMember_of_ne hji _⟩
  receivedVvecs := rfl
  m_sk_contributions := rfl

theorem sharesChecked_applyShareResults (s : CDKGSession n) (results : List (Fin n × Bool)) :
    SharesChecked s (s.applyShareResults results) := by
  unfold applyShareResults
  induction results generalizing s with
  | nil => exact .of_members rfl rfl rfl
  | cons r results ih =>
    rw [foldl_cons]
    refine SharesChecked.trans ?_ (ih _)
    split
    · exact .of_members rfl rfl rfl
    · exact sharesChecked_weComplain s r.1 true

theorem sharesChecked_verifyPendingContributions (ctx : DkgContext n) (me : Fin n)
    (s : CDKGSession n) :
    SharesChecked s (verifyPendingContributions ctx me s) := by
  unfold verifyPendingContributions
  split
  · exact .of_members rfl rfl rfl
  · dsimp only
    split
    · exact .of_members rfl rfl rfl
    · split
      · exact .of_members rfl rfl rfl
      · apply SharesChecked.clear
        refine SharesChecked.trans ?_ (sharesChecked_applyShareResults _ _)
        exact .of_members rfl rfl rfl

theorem sharesChecked_acceptContribution (s : CDKGSession n) (qc : CDKGContribution n) :
    SharesChecked
      { s with receivedVvecs := Function.update s.receivedVvecs qc.proTxHash (some qc.vvec) }
      (acceptContribution ctx me s qc) := by
  unfold acceptContribution
  dsimp only
  split
  · refine SharesChecked.trans ?_ (sharesChecked_weComplain _ _ true)
    exact .of_members rfl rfl rfl
  · split
    · refine SharesChecked.trans ?_ (sharesChecked_verifyPendingContributions ctx me _)
      exact .of_members rfl rfl rfl
    · exact .of_members rfl rfl rfl

theorem acceptContribution_keeps (hfield : ∀ m w, field { m with weComplain := w } = field m)
    (s : CDKGSession n) (qc : CDKGContribution n) (i : Fin n) :
    field ((acceptContribution ctx me s qc).members i) = field (s.members i) := by
  obtain ⟨w, hw⟩ := (sharesChecked_acceptContribution s qc).members i
  rw [hw, hfield]

def laterRecords (m : CDKGMember n) :
    List (CDKGComplaint n) × List (CDKGJustification n) × Finset (Fin n) × Finset (Fin n) :=
  (m.complaints, m.justifications, m.badMemberVotes, m.complaintsFromOthers)

/-- A session in its contribution phase that has processed the contributions `ms`. -/
structure ContributionsSeen (ms : List (CDKGContribution n)) (s : CDKGSession n) : Prop where
  saw : Saw 2 (·.proTxHash) ms fun i => (s.members i).contributions
  vvec : ∀ {i qc}, (s.members i).contributions = [qc] → s.receivedVvecs i = some qc.vvec
  cause : ∀ {i}, (s.members i).bad = true → 2 ≤ (s.members i).contributions.length
  later : ∀ i, laterRecords (s.members i) = ([], [], ∅, ∅)

theorem contributionsSeen_init : ContributionsSeen [] ({} : CDKGSession n) where
  saw := Saw.empty fun _ => rfl
  vvec h := by cases h
  cause h := by cases h
  later _ := rfl

theorem logsPerSender_receiveContribution (ctx : DkgContext n) (me : Fin n) :
    LogsPerSender 2 (receiveContribution ctx me) (·.proTxHash)
      fun s i => (s.members i).contributions :=
  logsPerSender_receiveMessage (acceptContribution_keeps (·.contributions) fun _ _ => rfl)

theorem receiveContribution_keeps (hset : ∀ l m, field { m with contributions := l } = field m)
    (hbad : ∀ m b, field { m with bad := b } = field m)
    (hfield : ∀ m w, field { m with weComplain := w } = field m) (s : CDKGSession n)
    (qc : CDKGContribution n) (i : Fin n) :
    field ((receiveContribution ctx me s qc).members i) = field (s.members i) :=
  receiveMessage_keeps field hset hbad (acceptContribution_keeps field hfield) i

theorem receivedVvecs_receiveContribution
    (hvvec : ∀ {i qc}, (s.members i).contributions = [qc] → s.receivedVvecs i = some qc.vvec)
    {qc qc' : CDKGContribution n}
    (honly : ((receiveContribution ctx me s qc).members i).contributions = [qc']) :
    (receiveContribution ctx me s qc).receivedVvecs i = some qc'.vvec := by
  have hreceived := received (contributionKind n) (acceptContribution ctx me) s qc
  obtain ⟨hsame | hne, hone⟩ | ⟨rfl, rfl, hone⟩ :=
    (logsPerSender_receiveContribution ctx me).step_eq_singleton honly
  · rw [hsame]
    exact hvvec hone
  · rw [← hvvec hone]
    unfold receiveContribution
    generalize receiveMessage _ (acceptContribution ctx me) s qc = s' at hreceived ⊢
    cases hreceived with
    | full | double => rfl
    | first =>
      rw [(sharesChecked_acceptContribution _ qc).receivedVvecs]
      exact Function.update_of_ne (Ne.symm hne) ..
  · unfold receiveContribution at honly ⊢
    generalize receiveMessage _ (acceptContribution ctx me) s qc = s' at hreceived honly ⊢
    cases hreceived with
    | full => exact hvvec honly
    | double hdouble => exact absurd (congrArg length hone ▸ hdouble) (by simp)
    | first =>
      rw [(sharesChecked_acceptContribution _ qc).receivedVvecs]
      exact Function.update_self ..

theorem ContributionsSeen.receive (h : ContributionsSeen ms s) (qc : CDKGContribution n) :
    ContributionsSeen (ms ++ [qc]) (receiveContribution ctx me s qc) where
  saw := (logsPerSender_receiveContribution ctx me).saw_step h.saw qc
  vvec := receivedVvecs_receiveContribution h.vvec
  cause {i} hbad := by
    obtain hbefore | hdouble := bad_or_double_of_bad (contributionKind n)
      (acceptContribution ctx me) (acceptContribution_keeps (·.bad) fun _ _ => rfl) hbad
    · exact (h.cause hbefore).trans
        ((logsPerSender_receiveContribution ctx me).length_le_step s qc i)
    · exact hdouble
  later i :=
    (receiveContribution_keeps laterRecords (fun _ _ => rfl) (fun _ _ => rfl) (fun _ _ => rfl)
      s qc i).trans (h.later i)

theorem processContributions_eq (s : CDKGSession n) (batches : List (List (CDKGContribution n))) :
    processContributions ctx me s batches =
      (batches.flatten.filter (wellFormedContribution ctx)).foldl (receiveContribution ctx me) s :=
  foldl_processPendingMessageBatch (contributionKind n) (acceptContribution ctx me)
    (acceptContribution_keeps (·.contributions) fun _ _ => rfl) _ _ s

theorem ContributionsSeen.process (h : ContributionsSeen ms s)
    (batches : List (List (CDKGContribution n))) :
    ContributionsSeen (ms ++ batches.flatten.filter (wellFormedContribution ctx))
      (processContributions ctx me s batches) := by
  rw [processContributions_eq]
  exact Lib.foldl_history (P := ContributionsSeen) (fun qc h => h.receive qc) h _

theorem ContributionsSeen.contribute (h : ContributionsSeen ms s) :
    ContributionsSeen ms (contribute ctx me s).1 := by
  unfold CDKGSession.contribute
  split
  · exact h
  · exact ⟨h.saw, h.vvec, h.cause, h.later⟩

theorem m_sk_contributions_processContributions (s : CDKGSession n)
    (batches : List (List (CDKGContribution n))) :
    (processContributions ctx me s batches).m_sk_contributions = s.m_sk_contributions := by
  rw [processContributions_eq]
  apply foldl_keeps m_sk_contributions
  intro s qc
  exact receiveMessage_keepsSession m_sk_contributions (fun _ _ => rfl)
    fun s qc => (sharesChecked_acceptContribution s qc).m_sk_contributions

/-! ### The complaint phase -/

theorem logsPerSender_receiveComplaint :
    LogsPerSender 2 (receiveComplaint (n := n)) (·.proTxHash) fun s i => (s.members i).complaints :=
  logsPerSender_receiveMessage fun _ _ _ => rfl

theorem receiveComplaint_keeps (hset : ∀ l m, field { m with complaints := l } = field m)
    (hbad : ∀ m b, field { m with bad := b } = field m)
    (hfield : ∀ m votes others b, field { m with
      badMemberVotes := votes, complaintsFromOthers := others, someoneComplain := b } = field m)
    (s : CDKGSession n) (qc : CDKGComplaint n) (i : Fin n) :
    field ((receiveComplaint s qc).members i) = field (s.members i) := by
  apply receiveMessage_keeps field hset hbad
  intro s qc i
  exact hfield ..

theorem receiveComplaint_keepsSession (field : CDKGSession n → β)
    (hmembers : ∀ s members, field { s with members := members } = field s) (s : CDKGSession n)
    (qc : CDKGComplaint n) : field (receiveComplaint s qc) = field s :=
  receiveMessage_keepsSession field hmembers fun s _ => hmembers s _

theorem receiveComplaint_cases (s : CDKGSession n) (qc : CDKGComplaint n) :
    (2 ≤ ((s.members qc.proTxHash).complaints.insert qc).length ∧
      ∀ i, ((receiveComplaint s qc).members i).badMemberVotes = (s.members i).badMemberVotes ∧
        ((receiveComplaint s qc).members i).complaintsFromOthers =
          (s.members i).complaintsFromOthers) ∨
    ∀ i, ((receiveComplaint s qc).members i).badMemberVotes =
        (if bit qc.badMembers i then insert qc.proTxHash (s.members i).badMemberVotes
          else (s.members i).badMemberVotes) ∧
      ((receiveComplaint s qc).members i).complaintsFromOthers =
        if bit qc.complainForMembers i then insert qc.proTxHash (s.members i).complaintsFromOthers
          else (s.members i).complaintsFromOthers := by
  have hvotes : ∀ i, ((recordMessage (complaintKind n) s qc).members i).badMemberVotes =
      (s.members i).badMemberVotes :=
    modifyMember_keeps (·.badMemberVotes) rfl
  have hothers : ∀ i, ((recordMessage (complaintKind n) s qc).members i).complaintsFromOthers =
      (s.members i).complaintsFromOthers :=
    modifyMember_keeps (·.complaintsFromOthers) rfl
  have hreceived := received (complaintKind n) acceptComplaint s qc
  unfold receiveComplaint
  generalize receiveMessage (complaintKind n) acceptComplaint s qc = s' at hreceived ⊢
  cases hreceived with
  | full hfull => exact .inl ⟨hfull.trans length_le_length_insert, fun _ => ⟨rfl, rfl⟩⟩
  | double hdouble =>
    refine .inl ⟨hdouble, fun i => ⟨?_, ?_⟩⟩
    · exact (modifyMember_keeps (·.badMemberVotes) rfl i).trans (hvotes i)
    · exact (modifyMember_keeps (·.complaintsFromOthers) rfl i).trans (hothers i)
  | first _ =>
    refine .inr fun i => ?_
    rw [← hvotes i, ← hothers i]
    exact ⟨rfl, rfl⟩

/-- A session that has processed the contributions `cms`, and the complaints `ms` of its complaint
phase. -/
structure ComplaintsSeen (cms : List (CDKGContribution n)) (ms : List (CDKGComplaint n))
    (s : CDKGSession n) : Prop where
  contributions : Saw 2 (·.proTxHash) cms fun i => (s.members i).contributions
  vvec : ∀ {i qc}, (s.members i).contributions = [qc] → s.receivedVvecs i = some qc.vvec
  complaints : Saw 2 (·.proTxHash) ms fun i => (s.members i).complaints
  justifications : ∀ i, (s.members i).justifications = []
  double : ∀ i, 2 ≤ (s.members i).complaints.length → (s.members i).bad = true
  cause : ∀ {i}, (s.members i).bad = true →
    (s.members i).contributions.length ≠ 1 ∨ 2 ≤ (s.members i).complaints.length
  votes : ∀ {i x}, x ∈ (s.members i).badMemberVotes →
    ∃ qc ∈ ms, qc.proTxHash = x ∧ bit qc.badMembers i = true
  others : ∀ {i x}, x ∈ (s.members i).complaintsFromOthers →
    ∃ qc ∈ ms, qc.proTxHash = x ∧ bit qc.complainForMembers i = true
  recorded : ∀ {i x qc}, (s.members x).complaints = [qc] → bit qc.complainForMembers i = true →
    x ∈ (s.members i).complaintsFromOthers

theorem ContributionsSeen.complaintsSeen (h : ContributionsSeen ms s) : ComplaintsSeen ms [] s where
  contributions := h.saw
  vvec := h.vvec
  complaints := Saw.empty fun i => congrArg (·.1) (h.later i)
  justifications i := congrArg (·.2.1) (h.later i)
  double i hdouble := by
    have hnil : (s.members i).complaints = [] := congrArg (·.1) (h.later i)
    simp [hnil] at hdouble
  cause {i} hbad := by
    have hlength := h.cause hbad
    exact .inl (by omega)
  votes {i x} hmem := by
    have hempty : (s.members i).badMemberVotes = ∅ := congrArg (·.2.2.1) (h.later i)
    simp [hempty] at hmem
  others {i x} hmem := by
    have hempty : (s.members i).complaintsFromOthers = ∅ := congrArg (·.2.2.2) (h.later i)
    simp [hempty] at hmem
  recorded {i x qc} hone _ := by
    have hnil : (s.members x).complaints = [] := congrArg (·.1) (h.later x)
    simp [hnil] at hone

theorem recorded_receiveComplaint
    (hothers : ∀ {i x qc}, (s.members x).complaints = [qc] → bit qc.complainForMembers i = true →
      x ∈ (s.members i).complaintsFromOthers) {qc qc' : CDKGComplaint n} {x : Fin n}
    (hone : ((receiveComplaint s qc).members x).complaints = [qc'])
    (hbit : bit qc'.complainForMembers i = true) :
    x ∈ ((receiveComplaint s qc).members i).complaintsFromOthers := by
  have hsubset : (s.members i).complaintsFromOthers ⊆
      ((receiveComplaint s qc).members i).complaintsFromOthers := by
    obtain ⟨-, hsame⟩ | hfirst := receiveComplaint_cases s qc
    · rw [(hsame i).2]
    · rw [(hfirst i).2]
      split
      · exact Finset.subset_insert _ _
      · exact subset_rfl
  obtain ⟨-, hone⟩ | ⟨rfl, rfl, hone⟩ := logsPerSender_receiveComplaint.step_eq_singleton hone
  · exact hsubset (hothers hone hbit)
  · obtain ⟨hdouble, -⟩ | hfirst := receiveComplaint_cases s qc
    · exact absurd (congrArg length hone ▸ hdouble) (by simp)
    · rw [(hfirst i).2, if_pos hbit]
      exact Finset.mem_insert_self _ _

theorem mem_receiveComplaint {ms : List (CDKGComplaint n)} {votes votes' : Finset (Fin n)}
    {bits : CDKGComplaint n → Bool} {qc : CDKGComplaint n} {x : Fin n}
    (hvotes : ∀ {x}, x ∈ votes → ∃ qc ∈ ms, qc.proTxHash = x ∧ bits qc = true)
    (hstep : votes' = votes ∨ votes' = if bits qc then insert qc.proTxHash votes else votes)
    (hmem : x ∈ votes') : ∃ qc' ∈ ms ++ [qc], qc'.proTxHash = x ∧ bits qc' = true := by
  have hbefore : x ∈ votes ∨ x = qc.proTxHash ∧ bits qc = true := by
    obtain rfl | rfl := hstep
    · exact .inl hmem
    · split at hmem
      · exact (Finset.mem_insert.mp hmem).symm.imp_right fun hx => ⟨hx, ‹_›⟩
      · exact .inl hmem
  obtain hx | ⟨rfl, hbit⟩ := hbefore
  · obtain ⟨qc', hqc', hx⟩ := hvotes hx
    exact ⟨qc', mem_append_left _ hqc', hx⟩
  · exact ⟨qc, by simp, rfl, hbit⟩

theorem ComplaintsSeen.receive {ms : List (CDKGComplaint n)} (h : ComplaintsSeen cms ms s)
    (qc : CDKGComplaint n) : ComplaintsSeen cms (ms ++ [qc]) (receiveComplaint s qc) := by
  have hcontributions : ∀ i, ((receiveComplaint s qc).members i).contributions =
      (s.members i).contributions :=
    receiveComplaint_keeps (·.contributions) (fun _ _ => rfl) (fun _ _ => rfl)
      (fun _ _ _ _ => rfl) s qc
  constructor
  case contributions => simpa only [hcontributions] using h.contributions
  case vvec =>
    intro i qc' hone
    rw [hcontributions] at hone
    rw [receiveComplaint_keepsSession receivedVvecs (fun _ _ => rfl)]
    exact h.vvec hone
  case complaints => exact logsPerSender_receiveComplaint.saw_step h.complaints qc
  case justifications =>
    intro i
    rw [receiveComplaint_keeps (·.justifications) (fun _ _ => rfl) (fun _ _ => rfl)
      (fun _ _ _ _ => rfl) s qc]
    exact h.justifications i
  case double =>
    exact bad_of_double (complaintKind n) acceptComplaint (fun _ _ _ => rfl) (fun _ _ _ => rfl)
      h.double
  case cause =>
    intro i hbad
    rw [hcontributions]
    obtain hbefore | hdouble := bad_or_double_of_bad (complaintKind n) acceptComplaint
      (fun _ _ _ => rfl) hbad
    · refine (h.cause hbefore).imp_right fun hdouble => ?_
      exact hdouble.trans (logsPerSender_receiveComplaint.length_le_step s qc i)
    · exact .inr hdouble
  case votes =>
    intro i x
    refine mem_receiveComplaint h.votes ?_
    exact (receiveComplaint_cases s qc).imp (fun hsame => (hsame.2 i).1) fun hfirst => (hfirst i).1
  case others =>
    intro i x
    refine mem_receiveComplaint h.others ?_
    exact (receiveComplaint_cases s qc).imp (fun hsame => (hsame.2 i).2) fun hfirst => (hfirst i).2
  case recorded => exact recorded_receiveComplaint h.recorded

theorem processComplaints_eq (s : CDKGSession n) (batches : List (List (CDKGComplaint n))) :
    processComplaints ctx s batches =
      (batches.flatten.filter (wellFormedComplaint ctx)).foldl receiveComplaint s :=
  foldl_processPendingMessageBatch (complaintKind n) acceptComplaint (fun _ _ _ => rfl) _ _ s

theorem ComplaintsSeen.process {ms : List (CDKGComplaint n)} (h : ComplaintsSeen cms ms s)
    (batches : List (List (CDKGComplaint n))) :
    ComplaintsSeen cms (ms ++ batches.flatten.filter (wellFormedComplaint ctx))
      (processComplaints ctx s batches) := by
  rw [processComplaints_eq]
  exact Lib.foldl_history (P := ComplaintsSeen cms) (fun qc h => h.receive qc) h _

theorem m_sk_contributions_processComplaints (s : CDKGSession n)
    (batches : List (List (CDKGComplaint n))) :
    (processComplaints ctx s batches).m_sk_contributions = s.m_sk_contributions := by
  rw [processComplaints_eq]
  apply foldl_keeps m_sk_contributions
  exact receiveComplaint_keepsSession m_sk_contributions fun _ _ => rfl

theorem bad_processComplaints (s : CDKGSession n) (batches : List (List (CDKGComplaint n)))
    (hbad : (s.members i).bad = true) :
    ((processComplaints ctx s batches).members i).bad = true := by
  rw [processComplaints_eq]
  generalize batches.flatten.filter (wellFormedComplaint ctx) = items
  induction items generalizing s with
  | nil => exact hbad
  | cons qc items ih => exact ih _ (bad_receiveMessage (fun _ _ _ hbad => hbad) hbad)

theorem members_verifyConnectionAndMinProtoVersions (me : Fin n) (conn : ConnectionInfo n)
    (s : CDKGSession n) (i : Fin n) :
    ∃ c, (verifyConnectionAndMinProtoVersions me conn s).members i =
      { s.members i with badConnection := c } := by
  unfold verifyConnectionAndMinProtoVersions
  split
  · exact ⟨_, rfl⟩
  · dsimp only
    split
    · exact ⟨_, rfl⟩
    · split
      · split <;> [exact ⟨_, rfl⟩; (split <;> exact ⟨_, rfl⟩)]
      · split <;> [exact ⟨_, rfl⟩; (split <;> exact ⟨_, rfl⟩)]

structure ComplainEffect (m m' : CDKGMember n) : Prop where
  records : (m'.contributions, laterRecords m') = (m.contributions, laterRecords m)
  bad : m'.bad = true ↔ m.bad = true ∨ m.contributions = []

theorem complainEffect_verifyAndComplain (ctx : DkgContext n) (me : Fin n)
    (conn : ConnectionInfo n) (s : CDKGSession n) (i : Fin n) :
    ComplainEffect (s.members i) ((verifyAndComplain ctx me conn s).1.members i) := by
  obtain ⟨w, hw⟩ := (sharesChecked_verifyPendingContributions ctx me s).members i
  obtain ⟨c, hc⟩ := members_verifyConnectionAndMinProtoVersions me conn
    (verifyPendingContributions ctx me s).markSilentMembers i
  have hmember : (verifyAndComplain ctx me conn s).1.members i =
      { (verifyPendingContributions ctx me s).markSilentMembers.members i with
        badConnection := c } := hc
  rw [hmember]
  dsimp only [markSilentMembers]
  rw [hw]
  by_cases hbad : (s.members i).bad
  · rw [if_pos hbad]
    exact ⟨rfl, by simp [hbad]⟩
  · rw [if_neg hbad]
    by_cases hsilent : (s.members i).contributions = []
    · rw [if_pos hsilent]
      exact ⟨rfl, by simp [hsilent]⟩
    · rw [if_neg hsilent]
      exact ⟨rfl, by simp [hbad, hsilent]⟩

theorem kept_verifyAndComplain (conn : ConnectionInfo n) (s : CDKGSession n) :
    (verifyAndComplain ctx me conn s).1.receivedVvecs = s.receivedVvecs ∧
      (verifyAndComplain ctx me conn s).1.m_sk_contributions = s.m_sk_contributions := by
  have hchecked := sharesChecked_verifyPendingContributions ctx me s
  unfold verifyAndComplain verifyConnectionAndMinProtoVersions
  split <;> exact ⟨hchecked.receivedVvecs, hchecked.m_sk_contributions⟩

theorem ComplaintsSeen.verifyAndComplain {ms : List (CDKGComplaint n)} (h : ComplaintsSeen cms ms s)
    (ctx : DkgContext n) (me : Fin n) (conn : ConnectionInfo n) :
    ComplaintsSeen cms ms (verifyAndComplain ctx me conn s).1 := by
  have heffect := complainEffect_verifyAndComplain ctx me conn s
  have hcontributions i := congrArg (·.1) (heffect i).records
  have hcomplaints i := congrArg (·.2.1) (heffect i).records
  have hjustifications i := congrArg (·.2.2.1) (heffect i).records
  have hvotes i := congrArg (·.2.2.2.1) (heffect i).records
  have hothers i := congrArg (·.2.2.2.2) (heffect i).records
  dsimp only [laterRecords] at hcontributions hcomplaints hjustifications hvotes hothers
  constructor
  case contributions => simpa only [hcontributions] using h.contributions
  case vvec =>
    intro i qc hone
    rw [hcontributions] at hone
    rw [(kept_verifyAndComplain conn s).1]
    exact h.vvec hone
  case complaints => simpa only [hcomplaints] using h.complaints
  case justifications =>
    intro i
    rw [hjustifications]
    exact h.justifications i
  case double =>
    intro i hdouble
    rw [hcomplaints] at hdouble
    exact (heffect i).bad.mpr (.inl (h.double i hdouble))
  case cause =>
    intro i hbad
    rw [hcontributions, hcomplaints]
    obtain hbefore | hsilent := (heffect i).bad.mp hbad
    · exact h.cause hbefore
    · exact .inl (by simp [hsilent])
  case votes =>
    intro i x hmem
    rw [hvotes] at hmem
    exact h.votes hmem
  case others =>
    intro i x hmem
    rw [hothers] at hmem
    exact h.others hmem
  case recorded =>
    intro i x qc hone hbit
    rw [hcomplaints] at hone
    rw [hothers]
    exact h.recorded hone hbit

end Defcon.Llmq.CDKGSession
