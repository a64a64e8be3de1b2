/-
# `Base.Interleave` — what the interleavings of several threads have in common

A thread is the list of its actions.  An interleaving takes, in every step, the next
action of one of the threads, until none is left.  Which order comes out is not known, but
what holds in every thread of an action and a later one holds in every interleaving
(`Interleaving.followed`).
-/
import Mathlib.Data.List.Basic

/-- `trace` is an interleaving of the threads. -/
inductive Interleaving {α : Type} : List (List α) → List α → Prop
  | done {threads : List (List α)} : (∀ t ∈ threads, t = []) → Interleaving threads []
  | step {before after : List (List α)} {a : α} {t trace : List α} :
      Interleaving (before ++ t :: after) trace →
      Interleaving (before ++ (a :: t) :: after) (a :: trace)

/-- Behind every `P` of the list there is a `Q`. -/
def FollowedBy {α : Type} (P Q : α → Prop) : List α → Prop
  | [] => True
  | a :: rest => (P a → ∃ b ∈ rest, Q b) ∧ FollowedBy P Q rest

variable {α : Type} {P Q : α → Prop}

theorem FollowedBy.append : ∀ {xs ys : List α}, FollowedBy P Q xs → FollowedBy P Q ys →
    FollowedBy P Q (xs ++ ys) := by
  intro xs ys
  induction xs with
  | nil => intro _ h; exact h
  | cons a xs ih =>
      rintro ⟨ha, hxs⟩ hys
      refine ⟨fun hP => ?_, ih hxs hys⟩
      obtain ⟨b, hb, hQ⟩ := ha hP
      exact ⟨b, List.mem_append_left _ hb, hQ⟩

namespace Interleaving

theorem nil_cons {threads : List (List α)} {trace : List α} (h : Interleaving threads trace) :
    Interleaving ([] :: threads) trace := by
  induction h with
  | done hnil => exact .done fun t ht => (List.mem_cons.mp ht).elim id (hnil t)
  | @step before after a t trace _ ih => exact @step α ([] :: before) after a t trace ih

/-- The threads may run one after the other. -/
theorem sequential : ∀ threads : List (List α), Interleaving threads threads.flatten := by
  intro threads
  induction threads with
  | nil => exact .done fun _ h => absurd h List.not_mem_nil
  | cons t threads ih =>
      rw [List.flatten_cons]
      induction t with
      | nil => exact ih.nil_cons
      | cons a t iht => exact @step α [] threads a t (t ++ threads.flatten) iht

/-- Every action of a thread happens. -/
theorem mem_trace {threads : List (List α)} {trace : List α} (h : Interleaving threads trace) :
    ∀ t ∈ threads, ∀ a ∈ t, a ∈ trace := by
  induction h with
  | done hnil =>
      intro t ht a ha
      rw [hnil t ht] at ha
      exact absurd ha List.not_mem_nil
  | @step before after a t trace _ ih =>
      intro t' ht' b hb
      rcases List.mem_append.mp ht' with hbefore | hrest
      · exact List.mem_cons_of_mem a (ih t' (List.mem_append_left _ hbefore) b hb)
      · rcases List.mem_cons.mp hrest with rfl | hafter
        · rcases List.mem_cons.mp hb with rfl | hb
          · exact List.mem_cons_self
          · exact List.mem_cons_of_mem a (ih t (by simp) b hb)
        · exact List.mem_cons_of_mem a (ih t' (by simp [hafter]) b hb)

/-- Every action that happens is one of a thread. -/
theorem mem_thread {threads : List (List α)} {trace : List α} (h : Interleaving threads trace) :
    ∀ a ∈ trace, ∃ t ∈ threads, a ∈ t := by
  induction h with
  | done _ =>
      intro a ha
      exact absurd ha List.not_mem_nil
  | @step before after a t trace _ ih =>
      intro b hb
      rcases List.mem_cons.mp hb with rfl | hb
      · exact ⟨b :: t, by simp, List.mem_cons_self⟩
      · obtain ⟨t', ht', hbt⟩ := ih b hb
        rcases List.mem_append.mp ht' with hbefore | hrest
        · exact ⟨t', List.mem_append_left _ hbefore, hbt⟩
        · rcases List.mem_cons.mp hrest with rfl | hafter
          · exact ⟨a :: t', by simp, List.mem_cons_of_mem a hbt⟩
          · exact ⟨t', by simp [hafter], hbt⟩

/-- **Order within the threads is kept**: if every thread has a `Q` behind each of its `P`s,
so has every interleaving. -/
theorem followed {threads : List (List α)} {trace : List α} (h : Interleaving threads trace) :
    (∀ t ∈ threads, FollowedBy P Q t) → FollowedBy P Q trace := by
  induction h with
  | done _ => intro _; trivial
  | @step before after a t trace hrest ih =>
      intro hall
      obtain ⟨ha, ht⟩ := hall (a :: t) (by simp)
      refine ⟨fun hP => ?_, ih fun t' ht' => ?_⟩
      · obtain ⟨b, hb, hQ⟩ := ha hP
        exact ⟨b, hrest.mem_trace t (by simp) b hb, hQ⟩
      · rcases List.mem_append.mp ht' with hbefore | hrest
        · exact hall t' (List.mem_append_left _ hbefore)
        · rcases List.mem_cons.mp hrest with rfl | hafter
          · exact ht
          · exact hall t' (by simp [hafter])

end Interleaving
