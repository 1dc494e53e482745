/-
# Progress by a rank

A machine that takes one step after the other, where something else chooses
among the steps that are due. Where every step that is due lowers a rank, a
run of such steps is no longer than the rank, whatever is chosen, and so
comes to a state where no step is due. A scheduler (`next`) names a step that
is due, if there is one: as many steps as the rank and it names none.

Key definitions: `Progress.schedule`.
Key theorems: `Progress.bounded`, `Progress.schedule_done`.
-/
import Tcs.Lib.Run

namespace Progress

variable {σ ι ο : Type*} {step : σ → ι → σ × ο}

/-- **Progress.** An invariant that every step keeps, and a rank that every step that is due lowers:
what is left of the rank and the steps that were taken are no more than the rank at the start. -/
theorem bounded {inv : σ → Prop} {due : σ → ι → Prop} (rank : σ → ℕ)
    (keeps : ∀ s i, inv s → inv (step s i).1)
    (lowers : ∀ s i, inv s → due s i → rank (step s i).1 < rank s) {s : σ} (h : inv s)
    (is : List ι) (hdue : ∀ e ∈ Run.trace step s is, due e.pre e.input) :
    rank (Run.final step s is) + is.length ≤ rank s := by
  induction is generalizing s with
  | nil => exact le_rfl
  | cons i is ih =>
    have hlt := lowers s i h (hdue _ List.mem_cons_self)
    have hrest := ih (keeps s i h) fun e he => hdue e (List.mem_cons_of_mem _ he)
    rw [Run.final, List.length_cons]
    omega

variable (step) (next : σ → Option ι)

/-- At most `n` steps of the scheduler. -/
def schedule : ℕ → σ → List ι
  | 0, _ => []
  | n + 1, s =>
    match next s with
    | none => []
    | some i => i :: schedule n (step s i).1

variable {step next}

theorem schedule_due {due : σ → ι → Prop} (hnext : ∀ s i, next s = some i → due s i) (n : ℕ) (s : σ) :
    ∀ e ∈ Run.trace step s (schedule step next n s), due e.pre e.input := by
  induction n generalizing s with
  | zero => exact fun e => List.not_mem_nil.elim
  | succ n ih =>
    unfold schedule
    cases hi : next s with
    | none => exact fun e => List.not_mem_nil.elim
    | some i =>
      intro e he
      rcases List.mem_cons.mp he with rfl | he
      · exact hnext s i hi
      · exact ih _ e he

/-- A step of the schedule is one that the scheduler names. -/
theorem mem_schedule {n : ℕ} {s : σ} {i : ι} (h : i ∈ schedule step next n s) :
    ∃ s', next s' = some i := by
  induction n generalizing s with
  | zero => exact absurd h List.not_mem_nil
  | succ n ih =>
    unfold schedule at h
    cases hj : next s with
    | none =>
      rw [hj] at h
      exact absurd h List.not_mem_nil
    | some j =>
      rw [hj] at h
      rcases List.mem_cons.mp h with rfl | h
      · exact ⟨s, hj⟩
      · exact ih h

/-- **The scheduler comes to an end**, within the rank. -/
theorem schedule_done {inv : σ → Prop} (rank : σ → ℕ)
    (keeps : ∀ s i, inv s → inv (step s i).1)
    (lowers : ∀ s i, inv s → next s = some i → rank (step s i).1 < rank s) {n : ℕ} {s : σ}
    (h : inv s) (hn : rank s ≤ n) : next (Run.final step s (schedule step next n s)) = none := by
  induction n generalizing s with
  | zero =>
    unfold schedule
    by_contra hi
    obtain ⟨i, hi⟩ := Option.ne_none_iff_exists'.mp hi
    have hlt := lowers s i h hi
    omega
  | succ n ih =>
    unfold schedule
    cases hi : next s with
    | none => exact hi
    | some i =>
      have hlt := lowers s i h hi
      exact ih (keeps s i h) (by omega)

end Progress
