import Mathlib.Data.Finset.Basic

/-!
# Logs of a bounded number of messages per sender

A receiver that keeps the distinct messages of each sender, and stops looking at a sender once
it has `k` of them. It keeps all that a sender said unless the log of that sender is full, so two
receivers of the same messages agree on every sender whose log is not full at one of them,
whatever the order of arrival.
-/

namespace Lib

open List

variable {σ ι α : Type*}

theorem foldl_history {P : List α → σ → Prop} {step : σ → α → σ}
    (hstep : ∀ {ms s} a, P ms s → P (ms ++ [a]) (step s a)) {ms : List α} {s : σ} (h : P ms s)
    (items : List α) : P (ms ++ items) (items.foldl step s) := by
  induction items generalizing ms s with
  | nil => simpa using h
  | cons a items ih =>
    have hnext := ih (hstep a h)
    rwa [append_assoc] at hnext

/-- The logs that a receiver of the messages `ms` keeps. -/
structure Saw (k : Nat) (sender : α → ι) (ms : List α) (logs : ι → List α) : Prop where
  mem : ∀ {i a}, a ∈ logs i → a ∈ ms ∧ sender a = i
  complete : ∀ {a}, a ∈ ms → (logs (sender a)).length < k → a ∈ logs (sender a)
  nodup : ∀ i, (logs i).Nodup

namespace Saw

variable {k : Nat} {sender : α → ι} {ms ms' : List α} {logs logs' : ι → List α} {a : α} {i : ι}

theorem empty (hlogs : ∀ i, logs i = []) : Saw k sender [] logs where
  mem := by simp [hlogs]
  complete := by simp
  nodup := by simp [hlogs]

theorem perm (h : Saw k sender ms logs) (h' : Saw k sender ms' logs')
    (hsame : ∀ a, a ∈ ms ↔ a ∈ ms') (hlength : (logs i).length < k) :
    (logs i).Perm (logs' i) := by
  have hsubset : logs' i ⊆ logs i := by
    intro a ha
    obtain ⟨hmem, rfl⟩ := h'.mem ha
    exact h.complete ((hsame a).mpr hmem) hlength
  have hlength' : (logs' i).length < k :=
    lt_of_le_of_lt ((h'.nodup i).subperm hsubset).length_le hlength
  rw [perm_ext_iff_of_nodup (h.nodup i) (h'.nodup i)]
  intro a
  constructor
  · intro ha
    obtain ⟨hmem, rfl⟩ := h.mem ha
    exact h'.complete ((hsame a).mp hmem) hlength'
  · exact fun ha => hsubset ha

theorem perm_or_full (h : Saw k sender ms logs) (h' : Saw k sender ms' logs')
    (hsame : ∀ a, a ∈ ms ↔ a ∈ ms') (i : ι) :
    (logs i).Perm (logs' i) ∨ k ≤ (logs i).length ∧ k ≤ (logs' i).length := by
  by_cases hlength : (logs i).length < k
  · exact .inl (h.perm h' hsame hlength)
  · refine .inr ⟨not_lt.mp hlength, not_lt.mp fun hlength' => hlength ?_⟩
    rwa [← (h'.perm h (fun a => (hsame a).symm) hlength').length_eq]

theorem length_le_one (h : Saw k sender ms logs)
    (honly : ∀ b ∈ ms, ∀ c ∈ ms, sender b = i → sender c = i → b = c) : (logs i).length ≤ 1 := by
  match hlog : logs i with
  | [] => simp
  | [_] => simp
  | b :: c :: rest =>
    have hb := h.mem (i := i) (a := b) (by simp [hlog])
    have hc := h.mem (i := i) (a := c) (by simp [hlog])
    have hnodup := h.nodup i
    rw [hlog, honly b hb.1 c hc.1 hb.2 hc.2] at hnodup
    simp at hnodup

theorem eq_singleton (h : Saw k sender ms logs) (hk : 1 < k) (hmem : a ∈ ms)
    (honly : ∀ b ∈ ms, ∀ c ∈ ms, sender b = sender a → sender c = sender a → b = c) :
    logs (sender a) = [a] := by
  have hlength := h.length_le_one honly
  have ha := h.complete hmem (lt_of_le_of_lt hlength hk)
  obtain ⟨b, hb⟩ := length_eq_one_iff.mp (le_antisymm hlength (length_pos_of_mem ha))
  rw [hb, mem_singleton] at ha
  rw [hb, ha]

end Saw

variable [DecidableEq α]

/-- `step` records a message in the log of its sender, which it does not have `k` messages of, and
does nothing with a message whose sender has a full log. -/
structure LogsPerSender (k : Nat) (step : σ → α → σ) (sender : α → ι) (logs : σ → ι → List α) :
    Prop where
  step_of_full : ∀ s a, k ≤ (logs s (sender a)).length → step s a = s
  logs_step : ∀ s a, (logs s (sender a)).length < k →
    logs (step s a) (sender a) = (logs s (sender a)).insert a
  logs_step_of_ne : ∀ s a i, sender a ≠ i → logs (step s a) i = logs s i

namespace LogsPerSender

variable {k : Nat} {step : σ → α → σ} {sender : α → ι} {logs : σ → ι → List α} {s : σ}
  {ms : List α}

theorem length_le_step (h : LogsPerSender k step sender logs) (s : σ) (a : α) (i : ι) :
    (logs s i).length ≤ (logs (step s a) i).length := by
  by_cases hsender : sender a = i
  · subst hsender
    by_cases hfull : k ≤ (logs s (sender a)).length
    · rw [h.step_of_full s a hfull]
    · rw [h.logs_step s a (not_le.mp hfull)]
      exact length_le_length_insert
  · rw [h.logs_step_of_ne s a i hsender]

theorem step_eq_singleton (h : LogsPerSender k step sender logs) {a b : α} {i : ι}
    (hone : logs (step s a) i = [b]) :
    (step s a = s ∨ sender a ≠ i) ∧ logs s i = [b] ∨
      i = sender b ∧ a = b ∧ (logs s i).insert a = [b] := by
  by_cases hsender : sender a = i
  · subst hsender
    by_cases hfull : k ≤ (logs s (sender a)).length
    · have hsame := h.step_of_full s a hfull
      exact .inl ⟨.inl hsame, hsame ▸ hone⟩
    · rw [h.logs_step s a (not_le.mp hfull)] at hone
      have hmem : a ∈ (logs s (sender a)).insert a := mem_insert_self
      rw [hone, mem_singleton] at hmem
      exact .inr ⟨hmem ▸ rfl, hmem, hone⟩
  · exact .inl ⟨.inr hsender, h.logs_step_of_ne s a i hsender ▸ hone⟩

theorem saw_step (h : LogsPerSender k step sender logs) (hsaw : Saw k sender ms (logs s)) (a : α) :
    Saw k sender (ms ++ [a]) (logs (step s a)) := by
  by_cases hfull : k ≤ (logs s (sender a)).length
  · rw [h.step_of_full s a hfull]
    refine ⟨?_, ?_, hsaw.nodup⟩
    · intro i b hb
      obtain ⟨hmem, hsender⟩ := hsaw.mem hb
      exact ⟨mem_append_left _ hmem, hsender⟩
    · intro b hb hlength
      obtain hmem | hmem := mem_append.mp hb
      · exact hsaw.complete hmem hlength
      · rw [mem_singleton.mp hmem] at hlength
        exact absurd hfull (not_le.mpr hlength)
  · have hlog := h.logs_step s a (not_le.mp hfull)
    refine ⟨?_, ?_, ?_⟩
    · intro i b hb
      by_cases hsender : sender a = i
      · subst hsender
        rw [hlog, mem_insert_iff] at hb
        obtain rfl | hb := hb
        · exact ⟨by simp, rfl⟩
        · exact ⟨mem_append_left _ (hsaw.mem hb).1, (hsaw.mem hb).2⟩
      · rw [h.logs_step_of_ne s a i hsender] at hb
        exact ⟨mem_append_left _ (hsaw.mem hb).1, (hsaw.mem hb).2⟩
    · intro b hb hlength
      have hbefore := lt_of_le_of_lt (h.length_le_step s a (sender b)) hlength
      by_cases hsender : sender a = sender b
      · rw [← hsender, hlog, mem_insert_iff, hsender]
        obtain hmem | hmem := mem_append.mp hb
        · exact .inr (hsaw.complete hmem hbefore)
        · exact .inl (mem_singleton.mp hmem)
      · rw [h.logs_step_of_ne s a _ hsender]
        obtain hmem | hmem := mem_append.mp hb
        · exact hsaw.complete hmem hbefore
        · exact absurd (congrArg sender (mem_singleton.mp hmem)).symm hsender
    · intro i
      by_cases hsender : sender a = i
      · subst hsender
        rw [hlog]
        exact (hsaw.nodup _).insert
      · rw [h.logs_step_of_ne s a i hsender]
        exact hsaw.nodup i

/-- Leaving out the messages of the senders whose logs were full at the start of a batch makes no
difference to what the batch does. -/
theorem foldl_filter (h : LogsPerSender k step sender logs) (s : σ) (items : List α)
    (p : α → Bool) :
    (items.filter fun a => p a && decide ((logs s (sender a)).length < k)).foldl step s =
      (items.filter p).foldl step s := by
  -- a log that is full at the start is full at every message of the batch
  suffices hlater : ∀ t, (∀ i, (logs s i).length ≤ (logs t i).length) →
      (items.filter fun a => p a && decide ((logs s (sender a)).length < k)).foldl step t =
        (items.filter p).foldl step t from hlater s fun _ => le_rfl
  intro t ht
  induction items generalizing t with
  | nil => rfl
  | cons a items ih =>
    have hnext : ∀ i, (logs s i).length ≤ (logs (step t a) i).length := by
      intro i
      exact (ht i).trans (h.length_le_step t a i)
    by_cases hp : p a
    · by_cases hroom : (logs s (sender a)).length < k
      · simp only [filter_cons, hp, hroom, decide_true, Bool.and_self, if_true,
          foldl_cons]
        exact ih (step t a) hnext
      · have hinert : step t a = t := h.step_of_full t a ((not_lt.mp hroom).trans (ht _))
        simp only [filter_cons, hp, hroom, decide_false, Bool.and_false, if_true,
          Bool.false_eq_true, if_false, foldl_cons, hinert]
        exact ih t ht
    · simp only [filter_cons, hp, Bool.false_and, Bool.false_eq_true, if_false]
      exact ih t ht

end LogsPerSender

end Lib
