/-
# Ring buffers

A queue of bounded length in an array of `n` cells: the oldest element is in
the cell `head`, the others follow it and go around. What the queue holds is
a list (`contents`); writing the next free cell adds an element at the end
(`contents_push`), advancing the head removes the first (`contents_pop`).

Key definitions: `Ring.contents`.
Key theorems: `Ring.contents_push`, `Ring.contents_pop`.
-/
import Mathlib.Tactic

namespace Ring

variable {α : Type*} {n : ℕ} [NeZero n]

/-- The cell that `i` is in, counted around. -/
def cell (cells : Vector α n) (i : ℕ) : α := cells.get (Fin.ofNat n i)

/-- The `count` elements from `head` on, oldest first. -/
def contents (cells : Vector α n) (head count : ℕ) : List α :=
  (List.range count).map fun i => cell cells (head + i)

@[simp] theorem length_contents (cells : Vector α n) (head count : ℕ) :
    (contents cells head count).length = count := by
  rw [contents, List.length_map, List.length_range]

theorem cell_mod (cells : Vector α n) (i : ℕ) : cell cells (i % n) = cell cells i := by
  unfold cell
  congr 1
  ext
  exact Nat.mod_mod i n

theorem cell_of_lt (cells : Vector α n) {i : ℕ} (h : i < n) : cell cells i = cells.get ⟨i, h⟩ := by
  unfold cell
  congr 1
  ext
  exact Nat.mod_eq_of_lt h

omit [NeZero n] in
theorem mod_ne_mod (head : ℕ) {i j : ℕ} (hij : i < j) (hj : j < n) : (head + i) % n ≠ (head + j) % n := by
  intro h
  have hmod : i ≡ j [MOD n] := Nat.ModEq.add_left_cancel' head h
  have := Nat.ModEq.eq_of_lt_of_lt hmod (by omega) hj
  omega

/-- **Push.** The cell after the last element is free, and holds the new one. -/
theorem contents_push (cells : Vector α n) (head : ℕ) {count : ℕ} (h : count < n) (x : α)
    (hi : (head + count) % n < n) :
    contents (cells.set ((head + count) % n) x hi) head (count + 1) =
      contents cells head count ++ [x] := by
  have hlast : cell (cells.set ((head + count) % n) x hi) (head + count) = x := by
    rw [← cell_mod, cell_of_lt _ hi]
    exact Vector.getElem_set_self hi
  have hrest : ∀ i ∈ List.range count,
      cell (cells.set ((head + count) % n) x hi) (head + i) = cell cells (head + i) := by
    intro i hmem
    have hne := mod_ne_mod head (List.mem_range.mp hmem) h
    rw [← cell_mod, ← cell_mod cells, cell_of_lt _ (Nat.mod_lt _ (NeZero.pos n)),
      cell_of_lt _ (Nat.mod_lt _ (NeZero.pos n))]
    exact Vector.getElem_set_ne _ _ (Ne.symm hne)
  unfold contents
  rw [List.range_succ, List.map_append, List.map_congr_left hrest, List.map_singleton, hlast]

/-- **Pop.** The first element is in the cell `head`, and the others follow it. -/
theorem contents_pop (cells : Vector α n) {head : ℕ} (hh : head < n) (count : ℕ) :
    contents cells head (count + 1) =
      cells.get ⟨head, hh⟩ :: contents cells ((head + 1) % n) count := by
  have hnext : ∀ i, cell cells ((head + 1) % n + i) = cell cells (head + (i + 1)) := by
    intro i
    rw [← cell_mod, Nat.mod_add_mod, cell_mod]
    congr 1
    omega
  unfold contents
  rw [List.range_succ_eq_map, List.map_cons, List.map_map, Nat.add_zero, cell_of_lt _ hh]
  simp only [Function.comp_def, Nat.succ_eq_add_one, hnext]

end Ring
