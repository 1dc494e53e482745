/-
# Children of a protection domain

A parent stops and resumes its children by kernel calls that have taken
effect when they return; a child that faults is suspended by the kernel
before its parent is told. `Children` is what the kernel holds: which
children run, and the calls of the parent so far, oldest first.

Key definitions: `Children`, `Children.stop`, `Children.resume`,
`NoRevival`.
Key theorems: `NoRevival.stop`, `NoRevival.resume`.
-/
import Mathlib.Data.List.Basic
import Mathlib.Logic.Function.Basic
import Mathlib.Tactic

namespace Kernel

/-- A call on a child. -/
inductive ChildCall
  | stop (child : ℕ)
  | resume (child : ℕ)
  deriving DecidableEq, Repr

/-- Which children run, and the calls made so far. -/
structure Children where
  running : ℕ → Bool
  calls : List ChildCall

namespace Children

/-- `microkit_pd_stop`. -/
def stop (c : Children) (child : ℕ) : Children :=
  ⟨Function.update c.running child false, c.calls ++ [.stop child]⟩

/-- `microkit_pd_resume`. -/
def resume (c : Children) (child : ℕ) : Children :=
  ⟨Function.update c.running child true, c.calls ++ [.resume child]⟩

/-- The kernel suspends a child that faults. -/
def faulted (c : Children) (child : ℕ) : Children :=
  { c with running := Function.update c.running child false }

@[simp] theorem stop_calls (c : Children) (n : ℕ) : (c.stop n).calls = c.calls ++ [.stop n] := rfl
@[simp] theorem resume_calls (c : Children) (n : ℕ) : (c.resume n).calls = c.calls ++ [.resume n] := rfl
@[simp] theorem faulted_calls (c : Children) (n : ℕ) : (c.faulted n).calls = c.calls := rfl

theorem stop_running (c : Children) (n m : ℕ) :
    (c.stop n).running m = true ↔ m ≠ n ∧ c.running m = true := by
  by_cases h : m = n <;> simp [stop, h]

theorem resume_running (c : Children) (n m : ℕ) :
    (c.resume n).running m = true ↔ m = n ∨ c.running m = true := by
  by_cases h : m = n <;> simp [resume, h]

theorem faulted_running (c : Children) (n m : ℕ) :
    (c.faulted n).running m = true ↔ m ≠ n ∧ c.running m = true := by
  by_cases h : m = n <;> simp [faulted, h]

end Children

/-- No child is resumed after it was stopped. -/
def NoRevival (calls : List ChildCall) : Prop :=
  calls.Pairwise fun a b => ∀ child, a = .stop child → b ≠ .resume child

theorem noRevival_nil : NoRevival [] := List.Pairwise.nil

/-- Stopping a child is always in order. -/
theorem NoRevival.stop {calls : List ChildCall} (h : NoRevival calls) (n : ℕ) :
    NoRevival (calls ++ [.stop n]) := by
  refine List.pairwise_append.mpr ⟨h, List.pairwise_singleton _ _, fun a _ b hb child _ => ?_⟩
  rw [List.mem_singleton.mp hb]
  simp

/-- Resuming a child is in order if it was not stopped before. -/
theorem NoRevival.resume {calls : List ChildCall} (h : NoRevival calls) {n : ℕ}
    (hn : .stop n ∉ calls) : NoRevival (calls ++ [.resume n]) := by
  refine List.pairwise_append.mpr ⟨h, List.pairwise_singleton _ _, fun a ha b hb child hc hr => ?_⟩
  rw [List.mem_singleton.mp hb, ChildCall.resume.injEq] at hr
  rw [hc, ← hr] at ha
  exact hn ha

end Kernel
