import Defcon.Lib.Fallible
import Defcon.Llmq.DkgJustification

/-!
# Honest members in a DKG session

A member is honest when it runs the code. No honest member is voted bad by an honest one, so the
votes against it stay below the threshold, and the complaints against it are the only other way
in which it can end up bad. It answers those of the members that it has not found to be bad
itself. The others stay open, at every honest member that has them on record.
-/

namespace Defcon.Llmq

open CDKGSession List MemberInput

variable {n : Nat}

/-- One phase, as the network assumption has it: honest members see the same messages, their own
included, and nobody else can send in their name. -/
structure Delivered {Msg : Type} (honest : Finset (Fin n)) (proTxHash : Msg → Fin n)
    (received : Fin n → List Msg) (sent : Fin n → Option Msg) : Prop where
  reaches : ∀ g ∈ honest, ∀ h ∈ honest, ∀ msg ∈ received g, msg ∈ received h
  own : ∀ h ∈ honest, ∀ msg, sent h = some msg → msg ∈ received h
  authentic : ∀ g ∈ honest, ∀ msg ∈ received g, proTxHash msg ∈ honest →
    sent (proTxHash msg) = some msg

structure BlsCorrect (ctx : DkgContext n) : Prop where
  generate : ∀ i, ∃ vvec sks, ctx.generateContributions i = some (vvec, sks) ∧
    vvec.length = ctx.params.threshold ∧ verifyVerificationVector vvec = true ∧
    ∀ j, (sks j).isSome = true ∧ ctx.verifyContributionShare j (some vvec) (sks j) = true
  encrypt : ∀ i j pk sk, (ctx.encrypt i j pk sk).isSome = pk.isSome
  sign : ∀ i hash, (ctx.sign i hash).isSome = true

/-- A session in which the members of `honest` run the code on their inputs. -/
structure DkgRun (ctx : DkgContext n) (inputs : Fin n → MemberInput n) (honest : Finset (Fin n)) :
    Prop where
  few : honestᶜ.card < ctx.getDkgBadVotesThreshold
  connected : ∀ g ∈ honest, ∀ i, ((verifyAndComplain ctx g (inputs g).connections
    ((inputs g).complainStart ctx g)).1.members i).badConnection = false
  contributions : Delivered honest (·.proTxHash) (fun g => (inputs g).contributions.messages)
    fun g => (inputs g).sentContribution ctx g
  complaints : Delivered honest (·.proTxHash) (fun g => (inputs g).complaints.messages)
    fun g => (inputs g).sentComplaint ctx g
  justifications : Delivered honest (·.proTxHash) (fun g => (inputs g).justifications.messages)
    fun g => (inputs g).sentJustification ctx g

/-- Every member that `g` has on record as complaining about `h` is one that `h` answers. -/
def ComplainersAnswered (ctx : DkgContext n) (inputs : Fin n → MemberInput n) (g h : Fin n) :
    Prop :=
  ∀ x ∈ (((inputs g).complainEnd ctx g).members h).complaintsFromOthers,
    (((inputs h).justifyStart ctx h).members x).bad = false ∧
      (((inputs h).justifyStart ctx h).members x).badMemberVotes.card < ctx.getDkgBadVotesThreshold

/-! ### What an honest member sends -/

namespace MemberInput

variable (ctx : DkgContext n) (me : Fin n) (input : MemberInput n)

def seenContributions : List (CDKGContribution n) :=
  input.contributions.messages.filter (wellFormedContribution ctx)

def seenComplaints : List (CDKGComplaint n) :=
  input.complaints.messages.filter (wellFormedComplaint ctx)

def seenJustifications : List (CDKGJustification n) :=
  input.justifications.messages.filter (wellFormedJustification ctx)

variable {ctx}

theorem sentContribution_of_valid (hbls : BlsCorrect ctx)
    (hkeys : ∀ i, (ctx.pubKeyOperator i).isSome = true) :
    ∃ qc vvec sks, input.sentContribution ctx me = some qc ∧ qc.proTxHash = me ∧
      wellFormedContribution ctx qc = true ∧ qc.vvec = vvec ∧
      ctx.generateContributions me = some (vvec, sks) := by
  obtain ⟨vvec, sks, hgenerate, hlength, hvvec, -⟩ := hbls.generate me
  have hencrypt : ∀ i ∈ finRange n,
      (ctx.encrypt me i (ctx.pubKeyOperator i) (sks i)).isSome = true := by
    intro i _
    rw [hbls.encrypt]
    exact hkeys i
  obtain ⟨blobs, hblobs, hcount⟩ := Lib.exists_mapM_of_forall hencrypt
  rw [length_finRange] at hcount
  unfold sentContribution contribute
  rw [hgenerate]
  dsimp only [sendContributions, encryptContributions]
  rw [hblobs]
  refine ⟨_, vvec, sks, rfl, rfl, ?_, rfl, rfl⟩
  simp [wellFormedContribution, hbls.sign, hcount, hlength, hvvec]

theorem sentContribution_of_invalid (hbls : BlsCorrect ctx) {i : Fin n}
    (hkey : ctx.pubKeyOperator i = none) : input.sentContribution ctx me = none := by
  obtain ⟨vvec, sks, hgenerate, -⟩ := hbls.generate me
  have hnone : ctx.encrypt me i (ctx.pubKeyOperator i) (sks i) = none := by
    have hsome := hbls.encrypt me i (ctx.pubKeyOperator i) (sks i)
    rw [hkey] at hsome ⊢
    exact Option.not_isSome_iff_eq_none.mp (by rw [hsome]; simp)
  unfold sentContribution contribute
  rw [hgenerate]
  dsimp only [sendContributions, encryptContributions]
  rw [Lib.mapM_eq_none_of_mem (mem_finRange i) hnone]

end MemberInput

theorem bit_bitset (ctx : DkgContext n) (p : Fin n → Bool) (i : Fin n) :
    bit (bitset ctx p) i = p i := by
  have hi : i.val < ctx.params.size := i.isLt.trans_le ctx.size_le
  simp [bit, bitset, getMemberAtIndex, getD_eq_getElem?_getD, hi]

theorem bit_badMembers_sendComplaint {ctx : DkgContext n} {me : Fin n} {s : CDKGSession n}
    {qc : CDKGComplaint n} (hsend : sendComplaint ctx me s = some qc) (i : Fin n) :
    bit qc.badMembers i = ((s.members i).bad || (s.members i).badConnection) := by
  unfold sendComplaint at hsend
  dsimp only at hsend
  split at hsend
  · cases hsend
  · cases hsend
    exact bit_bitset ctx _ i

/-! ### The phases at an honest member -/

namespace MemberInput

variable (ctx : DkgContext n) (me : Fin n) (input : MemberInput n)

theorem contributionsSeen_contributeEnd :
    ContributionsSeen (input.seenContributions ctx) (input.contributeEnd ctx me) := by
  have hstart : ContributionsSeen _ (input.contributeStart ctx me) :=
    contributionsSeen_init.process input.contributions.early
  have hend : ContributionsSeen _ (input.contributeEnd ctx me) :=
    hstart.contribute.process input.contributions.late
  rwa [nil_append, ← filter_append] at hend

theorem complaintsSeen_complainStart :
    ComplaintsSeen (input.seenContributions ctx)
      (input.complaints.early.flatten.filter (wellFormedComplaint ctx))
      (input.complainStart ctx me) := by
  have hstart : ComplaintsSeen _ _ (input.complainStart ctx me) :=
    (input.contributionsSeen_contributeEnd ctx me).complaintsSeen.process input.complaints.early
  rwa [nil_append] at hstart

theorem complaintsSeen_complainEnd :
    ComplaintsSeen (input.seenContributions ctx) (input.seenComplaints ctx)
      (input.complainEnd ctx me) := by
  have hstart := input.complaintsSeen_complainStart ctx me
  have hend : ComplaintsSeen _ _ (input.complainEnd ctx me) :=
    (hstart.verifyAndComplain ctx me input.connections).process input.complaints.late
  rwa [← filter_append] at hend

theorem persists_justifyStart :
    Persists (input.complainEnd ctx me) (input.justifyStart ctx me) :=
  persists_processJustifications ctx me _ _

theorem m_sk_contributions_justifyStart {vvec : BLSVerificationVector}
    {sks : Fin n → CBLSSecretKey} (hgenerate : ctx.generateContributions me = some (vvec, sks)) :
    (input.justifyStart ctx me).m_sk_contributions = sks := by
  rw [(input.persists_justifyStart ctx me).m_sk_contributions]
  unfold complainEnd complainStart contributeEnd
  rw [m_sk_contributions_processComplaints, (kept_verifyAndComplain _ _).2,
    m_sk_contributions_processComplaints, m_sk_contributions_processContributions]
  unfold contribute
  rw [hgenerate]

end MemberInput

theorem Delivered.unique {Msg : Type} {honest : Finset (Fin n)} {proTxHash : Msg → Fin n}
    {received : Fin n → List Msg} {sent : Fin n → Option Msg}
    (h : Delivered honest proTxHash received sent) {g i : Fin n} (hg : g ∈ honest)
    (hi : i ∈ honest) {ms : List Msg} (hms : ms ⊆ received g) :
    ∀ b ∈ ms, ∀ c ∈ ms, proTxHash b = i → proTxHash c = i → b = c := by
  rintro b hb c hc rfl hsender
  have hsentB := h.authentic g hg b (hms hb) hi
  have hsentC := h.authentic g hg c (hms hc) (hsender ▸ hi)
  rw [hsender, hsentB] at hsentC
  exact Option.some.inj hsentC

namespace DkgRun

variable {ctx : DkgContext n} {inputs : Fin n → MemberInput n} {honest : Finset (Fin n)}
  {g h : Fin n}

theorem seenContributions_subset (ctx : DkgContext n) (input : MemberInput n) :
    input.seenContributions ctx ⊆ input.contributions.messages :=
  filter_subset_self _

theorem seenComplaints_subset (ctx : DkgContext n) (input : MemberInput n) :
    input.seenComplaints ctx ⊆ input.complaints.messages :=
  filter_subset_self _

theorem contributions_honest (hbls : BlsCorrect ctx) (hrun : DkgRun ctx inputs honest)
    (hkeys : ∀ i, (ctx.pubKeyOperator i).isSome = true) (hg : g ∈ honest) (hh : h ∈ honest)
    {ms : List (CDKGComplaint n)} {s : CDKGSession n}
    (hseen : ComplaintsSeen ((inputs g).seenContributions ctx) ms s) :
    ∃ vvec sks, ctx.generateContributions h = some (vvec, sks) ∧
      (s.members h).contributions.length = 1 ∧ s.receivedVvecs h = some vvec := by
  obtain ⟨qc, vvec, sks, hsent, rfl, hformed, rfl, hgenerate⟩ :=
    sentContribution_of_valid h (inputs h) hbls hkeys
  have hmem : qc ∈ (inputs g).seenContributions ctx :=
    mem_filter.mpr ⟨hrun.contributions.reaches _ hh g hg qc
      (hrun.contributions.own _ hh qc hsent), hformed⟩
  have hone : (s.members qc.proTxHash).contributions = [qc] :=
    hseen.contributions.eq_singleton (by omega) hmem
      (hrun.contributions.unique hg hh (seenContributions_subset ctx _))
  exact ⟨qc.vvec, sks, hgenerate, by rw [hone]; rfl, hseen.vvec hone⟩

theorem not_bad_honest (hbls : BlsCorrect ctx) (hrun : DkgRun ctx inputs honest)
    (hkeys : ∀ i, (ctx.pubKeyOperator i).isSome = true) (hg : g ∈ honest) (hh : h ∈ honest)
    {ms : List (CDKGComplaint n)} (hms : ms ⊆ (inputs g).complaints.messages) {s : CDKGSession n}
    (hseen : ComplaintsSeen ((inputs g).seenContributions ctx) ms s) :
    (s.members h).bad = false := by
  rw [Bool.eq_false_iff]
  intro hbad
  obtain ⟨_, _, -, hone, -⟩ := hrun.contributions_honest hbls hkeys hg hh hseen
  have hcomplaints := hseen.complaints.length_le_one (hrun.complaints.unique hg hh hms)
  obtain hcontributions | hdouble := hseen.cause hbad
  · exact hcontributions hone
  · omega

theorem early_subset (input : MemberInput n) :
    input.complaints.early.flatten.filter (wellFormedComplaint ctx) ⊆ input.complaints.messages :=
  fun _ hmem => mem_append_left _ (mem_filter.mp hmem).1

theorem votes_honest (hbls : BlsCorrect ctx) (hrun : DkgRun ctx inputs honest)
    (hkeys : ∀ i, (ctx.pubKeyOperator i).isSome = true) (hg : g ∈ honest) (hh : h ∈ honest) :
    (((inputs g).complainEnd ctx g).members h).badMemberVotes.card <
      ctx.getDkgBadVotesThreshold := by
  refine lt_of_le_of_lt (Finset.card_le_card ?_) hrun.few
  intro x hx
  rw [Finset.mem_compl]
  intro hhonest
  obtain ⟨qc, hmem, rfl, hbit⟩ := ((inputs g).complaintsSeen_complainEnd ctx g).votes hx
  have hsent := hrun.complaints.authentic g hg qc (seenComplaints_subset ctx _ hmem) hhonest
  have hstart := (inputs qc.proTxHash).complaintsSeen_complainStart ctx qc.proTxHash
  have hnot := hrun.not_bad_honest hbls hkeys hhonest hh (early_subset _)
    (hstart.verifyAndComplain ctx qc.proTxHash (inputs qc.proTxHash).connections)
  rw [bit_badMembers_sendComplaint hsent, Bool.or_eq_true] at hbit
  obtain hbad | hconnection := hbit
  · exact Bool.false_ne_true (hnot.symm.trans hbad)
  · exact Bool.false_ne_true ((hrun.connected _ hhonest h).symm.trans hconnection)

end DkgRun

/-! ### The justification of an honest member -/

section Justification

variable {ctx : DkgContext n} {me : Fin n} {s : CDKGSession n}

theorem mem_justifiedMembers_sendJustification {forMembers : List (Fin n)}
    {c : Fin n × CBLSSecretKey} :
    c ∈ justifiedMembers (sendJustification ctx me s forMembers) ↔
      c.1 ∈ forMembers ∧ c.2 = s.m_sk_contributions c.1 := by
  have hentries : justifiedMembers (sendJustification ctx me s forMembers) =
      ((finRange n).filter fun i => i ∈ forMembers).map fun i =>
        (i, s.m_sk_contributions i) := by
    simp [justifiedMembers, sendJustification, filterMap_map, getMemberAtIndex,
      filterMap_eq_map']
  rw [hentries, mem_map]
  constructor
  · rintro ⟨i, hi, rfl⟩
    exact ⟨by simpa using hi, rfl⟩
  · rintro ⟨hc, hsk⟩
    exact ⟨c.1, by simpa using hc, Prod.ext rfl hsk.symm⟩

theorem wellFormed_sendJustification (me : Fin n) (hbls : BlsCorrect ctx) {forMembers : List (Fin n)}
    (hsome : forMembers ≠ []) (hsks : ∀ i, (s.m_sk_contributions i).isSome = true) :
    wellFormedJustification ctx (sendJustification ctx me s forMembers) = true := by
  obtain ⟨x, hx⟩ := exists_mem_of_ne_nil _ hsome
  have hnodup : ((finRange n).filter fun i => i ∈ forMembers).Nodup :=
    (nodup_finRange n).filter _
  have hnonempty : (finRange n).filter (fun i => i ∈ forMembers) ≠ [] :=
    ne_nil_of_mem (mem_filter.mpr ⟨mem_finRange x, by simpa using hx⟩)
  simp only [wellFormedJustification, sendJustification, hbls.sign, decide_true, Bool.true_and,
    Bool.and_eq_true, all_eq_true, mem_map, map_map, decide_eq_true_eq,
    isEmpty_map]
  refine ⟨⟨?_, ?_⟩, ?_⟩
  · simpa using hnonempty
  · rintro c ⟨i, -, rfl⟩
    exact ⟨i.isLt, hsks i⟩
  · exact hnodup.map Fin.val_injective

theorem mem_justifyFor_iff {ms : List (CDKGComplaint n)}
    (hsaw : Lib.Saw 2 (·.proTxHash) ms fun i => (s.members i).complaints) {x : Fin n} :
    x ∈ justifyFor ctx me s ↔
      (s.members x).bad = false ∧
        (s.members x).badMemberVotes.card < ctx.getDkgBadVotesThreshold ∧
        ∃ qc, (s.members x).complaints = [qc] ∧ bit qc.complainForMembers me = true := by
  unfold justifyFor
  rw [mem_filterMap]
  constructor
  · rintro ⟨i, -, hanswer⟩
    obtain ⟨hbad, hvotes, qc, hone, hbit, rfl⟩ := judge_answers_iff.mp hanswer
    obtain rfl : qc.proTxHash = i := (hsaw.mem (i := i) (a := qc) (by rw [hone]; simp)).2
    exact ⟨hbad, hvotes, qc, hone, hbit⟩
  · rintro ⟨hbad, hvotes, qc, hone, hbit⟩
    refine ⟨x, mem_finRange x, judge_answers_iff.mpr ⟨hbad, hvotes, qc, hone, hbit, ?_⟩⟩
    exact (hsaw.mem (i := x) (a := qc) (by rw [hone]; simp)).2

/-- The member `h` has done nothing wrong, and what was open against it is open unless one of `ms`
answered it. -/
structure Answered (h : Fin n) (vvec : Option BLSVerificationVector) (opened : Finset (Fin n))
    (ms : List (CDKGJustification n)) (s : CDKGSession n) : Prop where
  bad : (s.members h).bad = false
  vvec : s.receivedVvecs h = vvec
  saw : Lib.Saw 2 (·.proTxHash) ms fun i => (s.members i).justifications
  others : ∀ x, x ∈ (s.members h).complaintsFromOthers ↔
    x ∈ opened ∧ ∀ qj ∈ ms, qj.proTxHash = h → ∀ c ∈ justifiedMembers qj, x ≠ c.1

variable {h : Fin n} {vvec : Option BLSVerificationVector} {opened : Finset (Fin n)}
  {ms : List (CDKGJustification n)}

/-- A justification in the name of `h` is the only one, and it answers complaints that are on
record with shares that verify. -/
def Answers (ctx : DkgContext n) (vvec : Option BLSVerificationVector) (opened : Finset (Fin n))
    (qj : CDKGJustification n) : Prop :=
  ∀ c ∈ justifiedMembers qj,
    c.1 ∈ opened ∧ ctx.verifyContributionShare c.1 vvec c.2 = true

theorem Answered.receive (hanswered : Answered h vvec opened ms s) {qj : CDKGJustification n}
    (hfirst : qj.proTxHash = h → ∀ qj' ∈ ms, qj'.proTxHash ≠ h)
    (hanswers : qj.proTxHash = h → Answers ctx vvec opened qj) :
    Answered h vvec opened (ms ++ [qj]) (receiveJustification ctx me s qj) := by
  have hsaw := (logsPerSender_receiveJustification ctx me).saw_step hanswered.saw qj
  have hvvec := (persists_receiveJustification ctx me s qj).receivedVvecs
  by_cases hsender : qj.proTxHash = h
  · subst hsender
    have hbefore : ∀ x, x ∈ (s.members qj.proTxHash).complaintsFromOthers ↔ x ∈ opened := by
      intro x
      rw [hanswered.others x]
      exact and_iff_left fun qj' hmem heq => absurd heq (hfirst rfl qj' hmem)
    have hnone : (s.members qj.proTxHash).justifications = [] := by
      apply eq_nil_iff_forall_not_mem.mpr
      intro qj' hmem
      obtain ⟨hms, heq⟩ := hanswered.saw.mem hmem
      exact hfirst rfl qj' hms heq
    obtain ⟨hbad, hothers⟩ := receiveJustification_answered me hnone hanswered.bad
      (fun c hc => (hbefore c.1).mpr (hanswers rfl c hc).1)
      (fun c hc => by rw [hanswered.vvec]; exact (hanswers rfl c hc).2)
    refine ⟨hbad, by rw [hvvec, hanswered.vvec], hsaw, ?_⟩
    intro x
    rw [hothers x, hbefore x]
    refine and_congr_right fun _ => ?_
    constructor
    · intro hnot qj' hmem heq
      obtain hms | hnew := mem_append.mp hmem
      · exact absurd heq (hfirst rfl qj' hms)
      · rw [mem_singleton.mp hnew]
        exact hnot
    · intro hall
      exact hall qj (by simp) rfl
  · have hsame : (receiveJustification ctx me s qj).members h = s.members h :=
      members_receiveJustification_of_ne (Ne.symm hsender) s
    refine ⟨by rw [hsame, hanswered.bad], by rw [hvvec, hanswered.vvec], hsaw, ?_⟩
    intro x
    rw [hsame, hanswered.others x]
    simp [hsender, or_imp, forall_and]

theorem Answered.foldl (items : List (CDKGJustification n))
    (hanswered : Answered h vvec opened ms s) (hnodup : (ms ++ items).Nodup)
    (honly : ∀ b ∈ ms ++ items, ∀ c ∈ ms ++ items, b.proTxHash = h → c.proTxHash = h → b = c)
    (hanswers : ∀ qj ∈ items, qj.proTxHash = h → Answers ctx vvec opened qj) :
    Answered h vvec opened (ms ++ items) (items.foldl (receiveJustification ctx me) s) := by
  induction items generalizing ms s with
  | nil => simpa using hanswered
  | cons qj items ih =>
    rw [append_cons] at hnodup honly ⊢
    apply ih (hanswered.receive _ (hanswers qj mem_cons_self)) hnodup honly
    · exact fun qj' hmem => hanswers qj' (mem_cons_of_mem _ hmem)
    · -- a second justification in the name of `h` would be a second copy of this one
      intro hsender qj' hmem heq
      have hsame := honly qj' (by simp [hmem]) qj (by simp) heq hsender
      rw [hsame] at hmem
      have hdisjoint := (nodup_append.mp (nodup_append.mp hnodup).1).2.2
      exact hdisjoint qj hmem qj mem_cons_self rfl

theorem Answered.verifyAndJustify (hanswered : Answered h vvec opened ms s)
    (hvotes : (s.members h).badMemberVotes.card < ctx.getDkgBadVotesThreshold)
    (hcomplaints : (s.members h).complaints.length ≤ 1) :
    Answered h vvec opened ms (verifyAndJustify ctx me s).1 where
  bad := bad_judge_of_few hanswered.bad hvotes hcomplaints
  vvec := hanswered.vvec
  saw := by simpa only [justifications_verifyAndJustify] using hanswered.saw
  others x := by
    rw [complaintsFromOthers_verifyAndJustify]
    exact hanswered.others x

end Justification

namespace DkgRun

variable {ctx : DkgContext n} {inputs : Fin n → MemberInput n} {honest : Finset (Fin n)}
  {g h : Fin n}

theorem seenComplaints_iff (hrun : DkgRun ctx inputs honest) (hg : g ∈ honest) (hh : h ∈ honest)
    (qc : CDKGComplaint n) :
    qc ∈ (inputs h).seenComplaints ctx ↔ qc ∈ (inputs g).seenComplaints ctx := by
  simp only [seenComplaints, mem_filter]
  refine and_congr_left fun _ => ?_
  exact ⟨hrun.complaints.reaches h hh g hg qc, hrun.complaints.reaches g hg h hh qc⟩

theorem saw_justifyStart (ctx : DkgContext n) (input : MemberInput n) (h : Fin n) :
    Lib.Saw 2 (·.proTxHash) (input.seenComplaints ctx) fun i =>
      ((input.justifyStart ctx h).members i).complaints := by
  simpa only [(input.persists_justifyStart ctx h).complaints] using (input.complaintsSeen_complainEnd ctx h).complaints

theorem recorded_of_justifyFor (hrun : DkgRun ctx inputs honest) (hg : g ∈ honest)
    (hh : h ∈ honest) {x : Fin n} (hx : x ∈ justifyFor ctx h ((inputs h).justifyStart ctx h)) :
    x ∈ (((inputs g).complainEnd ctx g).members h).complaintsFromOthers := by
  have hsaw := saw_justifyStart ctx (inputs h) h
  obtain ⟨-, -, qc, hone, hbit⟩ := (mem_justifyFor_iff hsaw).mp hx
  have hseen := (inputs g).complaintsSeen_complainEnd ctx g
  have hperm := hsaw.perm hseen.complaints (hrun.seenComplaints_iff hg hh) (i := x) (by simp [hone])
  rw [hone] at hperm
  exact hseen.recorded (singleton_perm.mp hperm).symm hbit

theorem mem_justifyFor_of_recorded (hrun : DkgRun ctx inputs honest) (hg : g ∈ honest)
    (hh : h ∈ honest) {x : Fin n}
    (hx : x ∈ (((inputs g).complainEnd ctx g).members h).complaintsFromOthers) :
    x ∈ justifyFor ctx h ((inputs h).justifyStart ctx h) ↔
      (((inputs h).justifyStart ctx h).members x).bad = false ∧
        (((inputs h).justifyStart ctx h).members x).badMemberVotes.card <
          ctx.getDkgBadVotesThreshold := by
  have hsaw := saw_justifyStart ctx (inputs h) h
  rw [mem_justifyFor_iff hsaw]
  refine ⟨fun hanswer => ⟨hanswer.1, hanswer.2.1⟩, fun ⟨hbad, hvotes⟩ => ⟨hbad, hvotes, ?_⟩⟩
  obtain ⟨qc, hmem, rfl, hbit⟩ := ((inputs g).complaintsSeen_complainEnd ctx g).others hx
  have hmem' : qc ∈ (inputs h).seenComplaints ctx := (hrun.seenComplaints_iff hg hh qc).mpr hmem
  have hpersists := (inputs h).persists_justifyStart ctx h
  have hlength : (((inputs h).justifyStart ctx h).members qc.proTxHash).complaints.length < 2 := by
    by_contra hdouble
    rw [hpersists.complaints] at hdouble
    have hearlier := ((inputs h).complaintsSeen_complainEnd ctx h).double _ (not_lt.mp hdouble)
    exact Bool.false_ne_true (hbad.symm.trans (hpersists.bad hearlier))
  have hrecorded := hsaw.complete hmem' hlength
  obtain ⟨qc', hone⟩ := length_eq_one_iff.mp
    (le_antisymm (Nat.lt_succ_iff.mp hlength) (length_pos_of_mem hrecorded))
  rw [hone, mem_singleton] at hrecorded
  exact ⟨qc', hone, hrecorded ▸ hbit⟩

theorem sentJustification_eq (ctx : DkgContext n) (input : MemberInput n) (h : Fin n) :
    input.sentJustification ctx h =
      if justifyFor ctx h (input.justifyStart ctx h) = [] then none
      else some (sendJustification ctx h (input.justifyStart ctx h)
        (justifyFor ctx h (input.justifyStart ctx h))) :=
  rfl

section

variable (hbls : BlsCorrect ctx) (hrun : DkgRun ctx inputs honest)
  (hkeys : ∀ i, (ctx.pubKeyOperator i).isSome = true) (hg : g ∈ honest) (hh : h ∈ honest)

include hbls hrun hkeys hg hh

theorem answers_honest {qj : CDKGJustification n}
    (hsent : (inputs h).sentJustification ctx h = some qj) :
    Answers ctx (((inputs g).complainEnd ctx g).receivedVvecs h)
      (((inputs g).complainEnd ctx g).members h).complaintsFromOthers qj := by
  obtain ⟨vvec, sks, hgenerate, -, hvvec⟩ := hrun.contributions_honest hbls hkeys hg hh
    ((inputs g).complaintsSeen_complainEnd ctx g)
  obtain ⟨vvec', sks', hgenerate', -, -, hshares⟩ := hbls.generate h
  obtain ⟨rfl, rfl⟩ : vvec = vvec' ∧ sks = sks' := by
    rw [hgenerate] at hgenerate'
    exact Prod.mk.inj (Option.some.inj hgenerate')
  rw [sentJustification_eq] at hsent
  split at hsent
  · cases hsent
  · cases hsent
    intro c hc
    obtain ⟨hfor, hsk⟩ := mem_justifiedMembers_sendJustification.mp hc
    rw [(inputs h).m_sk_contributions_justifyStart ctx h hgenerate] at hsk
    refine ⟨hrun.recorded_of_justifyFor hg hh hfor, ?_⟩
    rw [hvvec, hsk]
    exact (hshares c.1).2

theorem answered_justifyEnd :
    Answered h (((inputs g).complainEnd ctx g).receivedVvecs h)
      (((inputs g).complainEnd ctx g).members h).complaintsFromOthers
      ((inputs g).seenJustifications ctx) ((inputs g).justifyEnd ctx g) := by
  have hseen := (inputs g).complaintsSeen_complainEnd ctx g
  have hmessages : (inputs g).seenJustifications ctx =
      (inputs g).justifications.early.flatten.filter (wellFormedJustification ctx) ++
        (inputs g).justifications.late.flatten.filter (wellFormedJustification ctx) :=
    filter_append ..
  have hnodup : ((inputs g).seenJustifications ctx).Nodup :=
    (inputs g).justifications.nodup.filter _
  have hsubset : (inputs g).seenJustifications ctx ⊆ (inputs g).justifications.messages :=
    filter_subset_self _
  have honly := hrun.justifications.unique hg hh hsubset
  have hanswers : ∀ qj ∈ (inputs g).seenJustifications ctx, qj.proTxHash = h →
      Answers ctx (((inputs g).complainEnd ctx g).receivedVvecs h)
        (((inputs g).complainEnd ctx g).members h).complaintsFromOthers qj := by
    rintro qj hmem rfl
    exact hrun.answers_honest hbls hkeys hg hh
      (hrun.justifications.authentic g hg qj (mem_filter.mp hmem).1 hh)
  rw [hmessages] at hnodup honly hanswers ⊢
  have hbegin : Answered h (((inputs g).complainEnd ctx g).receivedVvecs h)
      (((inputs g).complainEnd ctx g).members h).complaintsFromOthers []
      ((inputs g).complainEnd ctx g) :=
    { bad := hrun.not_bad_honest hbls hkeys hg hh (seenComplaints_subset ctx _) hseen
      vvec := rfl
      saw := Lib.Saw.empty hseen.justifications
      others := by simp }
  have hstart : Answered h (((inputs g).complainEnd ctx g).receivedVvecs h)
      (((inputs g).complainEnd ctx g).members h).complaintsFromOthers
      ([] ++ (inputs g).justifications.early.flatten.filter (wellFormedJustification ctx))
      ((inputs g).justifyStart ctx g) := by
    unfold justifyStart
    rw [processJustifications_eq]
    refine hbegin.foldl _ (nodup_append.mp hnodup).1 ?_ ?_
    · intro b hb c hc
      exact honly b (mem_append_left _ hb) c (mem_append_left _ hc)
    · intro qj hmem
      exact hanswers qj (mem_append_left _ hmem)
  have hpersists := (inputs g).persists_justifyStart ctx g
  have hvotes := hrun.votes_honest hbls hkeys hg hh
  have hcomplaints := hseen.complaints.length_le_one
    (hrun.complaints.unique hg hh (seenComplaints_subset ctx _))
  rw [← hpersists.badMemberVotes h] at hvotes
  rw [← hpersists.complaints h] at hcomplaints
  have hjustify : Answered h _ _ _
      (verifyAndJustify ctx g ((inputs g).justifyStart ctx g)).1 :=
    hstart.verifyAndJustify hvotes hcomplaints
  unfold justifyEnd
  rw [processJustifications_eq]
  refine hjustify.foldl _ hnodup honly ?_
  intro qj hmem
  exact hanswers qj (mem_append_right _ hmem)

theorem mem_complaintsFromOthers_justifyEnd (x : Fin n) :
    x ∈ (((inputs g).justifyEnd ctx g).members h).complaintsFromOthers ↔
      x ∈ (((inputs g).complainEnd ctx g).members h).complaintsFromOthers ∧
        x ∉ justifyFor ctx h ((inputs h).justifyStart ctx h) := by
  rw [(hrun.answered_justifyEnd hbls hkeys hg hh).others x]
  refine and_congr_right fun _ => ?_
  obtain ⟨vvec, sks, hgenerate, -, -, hshares⟩ := hbls.generate h
  have hsent := sentJustification_eq ctx (inputs h) h
  constructor
  · intro hnone hfor
    rw [if_neg (ne_nil_of_mem hfor)] at hsent
    have hsks : ∀ i,
        (((inputs h).justifyStart ctx h).m_sk_contributions i).isSome = true := by
      intro i
      rw [(inputs h).m_sk_contributions_justifyStart ctx h hgenerate]
      exact (hshares i).1
    have hformed := wellFormed_sendJustification h hbls (ne_nil_of_mem hfor) hsks
    have hmem := hrun.justifications.reaches h hh g hg _
      (hrun.justifications.own h hh _ hsent)
    exact hnone _ (mem_filter.mpr ⟨hmem, hformed⟩) rfl
      (x, ((inputs h).justifyStart ctx h).m_sk_contributions x)
      (mem_justifiedMembers_sendJustification.mpr ⟨hfor, rfl⟩) rfl
  · rintro hfor qj hmem rfl c hc rfl
    have hauthentic := hrun.justifications.authentic g hg qj (mem_filter.mp hmem).1 hh
    rw [hsent] at hauthentic
    split at hauthentic
    · cases hauthentic
    · rw [← Option.some.inj hauthentic] at hc
      exact hfor (mem_justifiedMembers_sendJustification.mp hc).1

end

theorem bad_of_invalid (hbls : BlsCorrect ctx) (hrun : DkgRun ctx inputs honest) {i : Fin n}
    (hkey : ctx.pubKeyOperator i = none) (hg : g ∈ honest) (hh : h ∈ honest) :
    (((inputs g).committed ctx g).members h).bad = true := by
  have hstart := (inputs g).complaintsSeen_complainStart ctx g
  have hsilent : (((inputs g).complainStart ctx g).members h).contributions = [] := by
    apply eq_nil_iff_forall_not_mem.mpr
    intro qc hmem
    obtain ⟨hseen, rfl⟩ := hstart.contributions.mem hmem
    have hsent := hrun.contributions.authentic g hg qc (seenContributions_subset ctx _ hseen) hh
    rw [sentContribution_of_invalid _ _ hbls hkey] at hsent
    cases hsent
  have hcomplained := (complainEffect_verifyAndComplain ctx g (inputs g).connections
    ((inputs g).complainStart ctx g) h).bad.mpr (.inr hsilent)
  have hend : (((inputs g).complainEnd ctx g).members h).bad = true :=
    bad_processComplaints _ _ hcomplained
  have hjustified : (((inputs g).justifyEnd ctx g).members h).bad = true :=
    (persists_processJustifications ctx g _ _).bad ((persists_verifyAndJustify ctx g _).bad
      (((inputs g).persists_justifyStart ctx g).bad hend))
  exact (bad_verifyAndCommit _ _).mpr (.inl hjustified)

end DkgRun

/-- An honest member ends up bad at another one unless all operator keys are valid, and it answers
every member on record as complaining about it. -/
theorem honest_not_bad_iff {ctx : DkgContext n} {inputs : Fin n → MemberInput n}
    {honest : Finset (Fin n)} (hbls : BlsCorrect ctx) (hrun : DkgRun ctx inputs honest)
    {g h : Fin n} (hg : g ∈ honest) (hh : h ∈ honest) :
    (((inputs g).committed ctx g).members h).bad = false ↔
      (∀ i, (ctx.pubKeyOperator i).isSome = true) ∧ ComplainersAnswered ctx inputs g h := by
  by_cases hkeys : ∀ i, (ctx.pubKeyOperator i).isSome = true
  · have hnot := (hrun.answered_justifyEnd hbls hkeys hg hh).bad
    have hopen : (((inputs g).committed ctx g).members h).bad = true ↔
        (((inputs g).justifyEnd ctx g).members h).complaintsFromOthers ≠ ∅ := by
      have hcommit := bad_verifyAndCommit ((inputs g).justifyEnd ctx g) h
      rwa [hnot, or_iff_right Bool.false_ne_true] at hcommit
    rw [← Bool.not_eq_true, hopen, not_not, and_iff_right hkeys, Finset.eq_empty_iff_forall_notMem]
    refine forall_congr' fun x => ?_
    rw [hrun.mem_complaintsFromOthers_justifyEnd hbls hkeys hg hh x, not_and, not_not]
    exact forall_congr' fun hx => hrun.mem_justifyFor_of_recorded hg hh hx
  · obtain ⟨i, hi⟩ := not_forall.mp hkeys
    have hbad := hrun.bad_of_invalid hbls (Option.not_isSome_iff_eq_none.mp hi) hg hh
    rw [hbad]
    exact iff_of_false (by simp) fun hcond => hkeys hcond.1

/-! ### Agreement after the complaint phase -/

namespace MemberInput

variable (ctx : DkgContext n) (me : Fin n) (input : MemberInput n) (i : Fin n)

/-- A second contribution makes its sender bad. -/
def DoublesBad (s : CDKGSession n) : Prop :=
  ∀ i, 2 ≤ (s.members i).contributions.length → (s.members i).bad = true

theorem doublesBad_contributeEnd : DoublesBad (input.contributeEnd ctx me) := by
  have hprocess {s : CDKGSession n} (hs : DoublesBad s)
      (batches : List (List (CDKGContribution n))) :
      DoublesBad (processContributions ctx me s batches) := by
    rw [processContributions_eq]
    refine foldlRecOn (motive := DoublesBad) _ _ hs fun s hs qc _ => ?_
    exact bad_of_double (contributionKind n) _
      (acceptContribution_keeps (·.contributions) fun _ _ => rfl)
      (acceptContribution_keeps (·.bad) fun _ _ => rfl) hs
  have hstart : DoublesBad (input.contributeStart ctx me) := hprocess (by simp [DoublesBad]) _
  refine hprocess ?_ _
  unfold contribute
  split
  exacts [hstart, hstart]

theorem bad_complainEnd_iff : ((input.complainEnd ctx me).members i).bad = true ↔
    ((input.complainEnd ctx me).members i).contributions.length ≠ 1 ∨
      2 ≤ ((input.complainEnd ctx me).members i).complaints.length := by
  have hseen := input.complaintsSeen_complainEnd ctx me
  have hkept (s : CDKGSession n) (batches : List (List (CDKGComplaint n))) :
      ((processComplaints ctx s batches).members i).contributions =
        (s.members i).contributions := by
    rw [processComplaints_eq]
    exact foldl_keeps (fun s => (s.members i).contributions) (fun s qc => receiveComplaint_keeps
      (·.contributions) (fun _ _ => rfl) (fun _ _ => rfl) (fun _ _ _ _ => rfl) s qc i) _ s
  have heffect := complainEffect_verifyAndComplain ctx me input.connections
    (input.complainStart ctx me) i
  have hsame : ((input.complainEnd ctx me).members i).contributions =
      ((input.contributeEnd ctx me).members i).contributions :=
    (hkept _ _).trans ((congrArg (·.1) heffect.records).trans (hkept _ _))
  refine ⟨hseen.cause, fun hcause => hcause.elim (fun hlength => ?_) (hseen.double i)⟩
  refine bad_processComplaints _ _ (heffect.bad.mpr ?_)
  rw [hsame] at hlength
  by_cases hsilent : ((input.contributeEnd ctx me).members i).contributions = []
  · exact .inr ((hkept _ _).trans hsilent)
  · left
    refine bad_processComplaints _ _ (input.doublesBad_contributeEnd ctx me i ?_)
    have hpos := length_pos_of_ne_nil hsilent
    omega

end MemberInput

/-- **Agreement.** Neither the order of the messages nor their batches matter. -/
theorem complainEnd_agrees {ctx : DkgContext n} {input input' : MemberInput n}
    (hcontributions : ∀ qc,
      qc ∈ input.contributions.messages ↔ qc ∈ input'.contributions.messages)
    (hcomplaints : ∀ qc, qc ∈ input.complaints.messages ↔ qc ∈ input'.complaints.messages)
    (g h i : Fin n) :
    ((input.complainEnd ctx g).members i).bad = ((input'.complainEnd ctx h).members i).bad ∧
      (((input.complainEnd ctx g).members i).bad = false →
        ∃ vvec, (input.complainEnd ctx g).receivedVvecs i = some vvec ∧
          (input'.complainEnd ctx h).receivedVvecs i = some vvec) := by
  have hseen := input.complaintsSeen_complainEnd ctx g
  have hseen' := input'.complaintsSeen_complainEnd ctx h
  have hlogs := hseen.contributions.perm_or_full hseen'.contributions
    (fun qc => by simp only [seenContributions, mem_filter, hcontributions]) i
  have hlogs' := hseen.complaints.perm_or_full hseen'.complaints
    (fun qc => by simp only [seenComplaints, mem_filter, hcomplaints]) i
  constructor
  · rw [Bool.eq_iff_iff, bad_complainEnd_iff, bad_complainEnd_iff]
    rcases hlogs with hlogs | hlogs <;> rcases hlogs' with hlogs' | hlogs' <;>
      grind [List.Perm.length_eq]
  · intro hgood
    have hgood := mt (bad_complainEnd_iff ctx g input i).mpr (by simp [hgood])
    obtain ⟨qc, hqc⟩ := length_eq_one_iff.mp (not_not.mp (not_or.mp hgood).1)
    rw [hqc] at hlogs
    have hqc' := hlogs.resolve_right (by simp)
    exact ⟨qc.vvec, hseen.vvec hqc, hseen'.vvec (singleton_perm.mp hqc').symm⟩

/-! ### A member that contradicts itself -/

namespace SampleSession

def context : DkgContext 3 where
  params :=
    { type := 1, size := 3, minSize := 2, threshold := 1, dkgInterval := 24
      dkgMiningWindowStart := 10, dkgMiningWindowEnd := 18, dkgBadVotesThreshold := 2
      dkgBadVotesThresholdV2 := 0, signingActiveQuorumCount := 2, keepOldConnections := 3
      keepOldKeys := 4 }
  size_le := le_rfl
  quorumHash := 7
  nHeight := 0
  nDkgBadVotesV2ActivationHeight := 0
  pubKeyOperator i := some (BitVec.ofNat 384 (i + 1))
  generateContributions i :=
    some ([some (BitVec.ofNat 384 (i + 1))], fun _ => some (BitVec.ofNat 256 (i + 1)))
  initEncrypt _ := (some 0, 0)
  encrypt _ _ pk _ := pk.map fun _ => []
  decrypt _ _ := some (some 1)
  publicKeyShare vvec _ := vvec.headD none
  getPublicKey sk := sk.map (BitVec.setWidth 384)
  verifyContributionShares _ vvecs _ := vvecs.map fun _ => true
  sign _ _ := some 1
  contributionSignHash _ := 0
  complaintSignHash _ := 0
  justificationSignHash _ := 0

def connections : ConnectionInfo 3 where
  isQuorumPoseEnabled := false
  isAllMembersConnectedEnabled := false
  protoMap _ := none
  outboundFailedTooManyTimes _ := false

def contribution (i : Fin 3) : CDKGContribution 3 where
  llmqType := 1
  quorumHash := 7
  proTxHash := i
  vvec := [some (BitVec.ofNat 384 (i + 1))]
  contributions := ⟨some 0, 0, [[], [], []]⟩
  sig := some 1

def complaint (aboutFirst : Bool) : CDKGComplaint 3 where
  llmqType := 1
  quorumHash := 7
  proTxHash := 2
  badMembers := [false, false, false]
  complainForMembers := [aboutFirst, false, false]
  sig := some 1

def justification : CDKGJustification 3 where
  llmqType := 1
  quorumHash := 7
  proTxHash := 0
  contributions := [(2, some 1)]
  sig := some 1

def contributions : PhaseInput (CDKGContribution 3) where
  late := [[contribution 0, contribution 1, contribution 2]]
  nodup := by decide +kernel

def oneComplaint : MemberInput 3 where
  contributions := contributions
  complaints := { late := [[complaint true]] }
  justifications := { late := [[justification]] }
  connections := connections

def twoComplaints : MemberInput 3 where
  contributions := contributions
  complaints := { late := [[complaint true], [complaint false]], nodup := by decide +kernel }
  connections := connections

/-- The same complaints in the other order. -/
def reordered : MemberInput 3 where
  contributions := contributions
  complaints :=
    { early := [[complaint false]], late := [[complaint true]], nodup := by decide +kernel }
  connections := connections

theorem blsCorrect_context : BlsCorrect context where
  generate i := by
    refine ⟨_, _, rfl, rfl, rfl, fun j => ⟨rfl, ?_⟩⟩
    revert i j
    decide +kernel
  encrypt _ _ pk _ := by cases pk <;> rfl
  sign _ _ := rfl

theorem delivered_of_eq {Msg : Type} {honest : Finset (Fin 3)} {proTxHash : Msg → Fin 3}
    {received : List Msg} {sent : Fin 3 → Option Msg}
    (hown : ∀ h ∈ honest, ∀ msg ∈ sent h, msg ∈ received)
    (hauthentic : ∀ msg ∈ received, proTxHash msg ∈ honest → sent (proTxHash msg) = some msg) :
    Delivered honest proTxHash (fun _ => received) sent where
  reaches _ _ _ _ _ hmem := hmem
  own h hh msg hsent := hown h hh msg hsent
  authentic _ _ msg hmem hh := hauthentic msg hmem hh

theorem dkgRun_oneComplaint : DkgRun context (fun _ => oneComplaint) {0, 1} where
  few := by decide
  connected := by decide +kernel
  contributions := delivered_of_eq (by decide +kernel) (by decide +kernel)
  complaints := delivered_of_eq (by decide +kernel) (by decide +kernel)
  justifications := delivered_of_eq (by decide +kernel) (by decide +kernel)

theorem dkgRun_twoComplaints : DkgRun context (fun _ => twoComplaints) {0, 1} where
  few := by decide
  connected := by decide +kernel
  contributions := delivered_of_eq (by decide +kernel) (by decide +kernel)
  complaints := delivered_of_eq (by decide +kernel) (by decide +kernel)
  justifications := delivered_of_eq (by decide +kernel) (by decide +kernel)

end SampleSession

open SampleSession in
theorem honest_not_bad_oneComplaint :
    DkgRun context (fun _ => oneComplaint) {0, 1} ∧
      ((oneComplaint.complainEnd context 1).members 0).complaintsFromOthers = {2} ∧
      ((oneComplaint.committed context 1).members 0).bad = false :=
  ⟨dkgRun_oneComplaint, by decide +kernel,
    (honest_not_bad_iff blsCorrect_context dkgRun_oneComplaint (g := 1) (h := 0) (by decide)
      (by decide)).mpr ⟨by decide +kernel, by
        unfold ComplainersAnswered
        decide +kernel⟩⟩

/-- The second complaint makes its sender bad, so the first member does not answer the first one,
which stays on record. -/
theorem honest_bad_of_twoComplaints :
    BlsCorrect SampleSession.context ∧
      DkgRun SampleSession.context (fun _ => SampleSession.twoComplaints) {0, 1} ∧
      ((SampleSession.twoComplaints.committed SampleSession.context 1).members 0).bad = true :=
  ⟨SampleSession.blsCorrect_context, SampleSession.dkgRun_twoComplaints, by decide +kernel⟩

open SampleSession in
theorem complainEnd_agrees_reordered :
    ((twoComplaints.complainEnd context 0).members 2).bad =
      ((reordered.complainEnd context 1).members 2).bad := by
  have hcomplaints (qc : CDKGComplaint 3) :
      qc ∈ twoComplaints.complaints.messages ↔ qc ∈ reordered.complaints.messages := by
    simp [PhaseInput.messages, twoComplaints, reordered, or_comm]
  exact (@complainEnd_agrees 3 context twoComplaints reordered (fun _ => .rfl) hcomplaints 0 1 2).1

end Defcon.Llmq
