/-
# Runs of a machine with inputs and outputs

A program that serves one call at a time is a step function
`σ → ι → σ × ο`. A run is a list of inputs; it has a last state (`final`)
and a history (`trace`), one `Entry` for each input with the states before
and after it and what it returned.

An invariant of the last state alone follows from the step (`final_induct`).
A statement about the whole run ("earlier in the run there is ...") is an
invariant of the history and the last state together (`trace_induct`), and
one about a place in the run is read off by splitting the history there
(`trace_split`): what comes before the place is a run, what comes after is
a run from the state the place left.

Key definitions: `Run.final`, `Run.trace`, `Run.Entry`.
Key theorems: `Run.final_induct`, `Run.trace_induct`, `Run.trace_split`,
`Run.trace_rel`, `Run.trace_unwinding`.
-/
import Mathlib.Tactic

namespace Run

variable {σ ι ο : Type*}

/-- One call of a run: the state it met, what was asked, what was returned
and the state it left. -/
structure Entry (σ ι ο : Type*) where
  pre : σ
  input : ι
  output : ο
  post : σ

section

variable (step : σ → ι → σ × ο)

/-- The entry of one call. -/
def entry (s : σ) (i : ι) : Entry σ ι ο := ⟨s, i, (step s i).2, (step s i).1⟩

/-- The state after the inputs. -/
def final (s : σ) : List ι → σ
  | [] => s
  | i :: is => final (step s i).1 is

/-- The history of the inputs, oldest first. -/
def trace (s : σ) : List ι → List (Entry σ ι ο)
  | [] => []
  | i :: is => entry step s i :: trace (step s i).1 is

end

variable {step : σ → ι → σ × ο}

@[simp] theorem entry_pre (s : σ) (i : ι) : (entry step s i).pre = s := rfl
@[simp] theorem entry_input (s : σ) (i : ι) : (entry step s i).input = i := rfl
@[simp] theorem entry_output (s : σ) (i : ι) : (entry step s i).output = (step s i).2 := rfl
@[simp] theorem entry_post (s : σ) (i : ι) : (entry step s i).post = (step s i).1 := rfl

theorem final_append (s : σ) : ∀ is js : List ι,
    final step s (is ++ js) = final step (final step s is) js
  | [], _ => rfl
  | i :: is, js => final_append (step s i).1 is js

theorem trace_append (s : σ) : ∀ is js : List ι,
    trace step s (is ++ js) = trace step s is ++ trace step (final step s is) js
  | [], _ => rfl
  | i :: is, js => by
    simp only [List.cons_append, trace, final, trace_append (step s i).1 is js]

theorem final_snoc (s : σ) (is : List ι) (i : ι) :
    final step s (is ++ [i]) = (step (final step s is) i).1 := final_append s is [i]

theorem trace_snoc (s : σ) (is : List ι) (i : ι) :
    trace step s (is ++ [i]) = trace step s is ++ [entry step (final step s is) i] :=
  trace_append s is [i]

/-- **Invariants.** What holds at the start and is kept by every call holds after every run. -/
theorem final_induct {P : σ → Prop} {s : σ} (h0 : P s) (hs : ∀ s i, P s → P (step s i).1) :
    ∀ is : List ι, P (final step s is) := by
  intro is
  induction is generalizing s with
  | nil => exact h0
  | cons i is ih => exact ih (hs s i h0)

/-- **History invariants.** What holds of the empty history at the start, and is kept when a call
adds its entry to the history and its effect to the state, holds of every run. -/
theorem trace_induct {P : List (Entry σ ι ο) → σ → Prop} {s : σ} (h0 : P [] s)
    (hs : ∀ h s i, P h s → P (h ++ [entry step s i]) (step s i).1) :
    ∀ is : List ι, P (trace step s is) (final step s is) := by
  intro is
  induction is using List.reverseRecOn with
  | nil => exact h0
  | append_singleton is i ih =>
    rw [trace_snoc, final_snoc]
    exact hs _ _ i ih

/-- A place in the history is a place in the inputs: a run before it, its call, a run after it. -/
theorem trace_split {s : σ} {is : List ι} {h₁ h₂ : List (Entry σ ι ο)} {e : Entry σ ι ο}
    (h : trace step s is = h₁ ++ e :: h₂) :
    ∃ is₁ i is₂, is = is₁ ++ i :: is₂ ∧ h₁ = trace step s is₁ ∧
      e = entry step (final step s is₁) i ∧ h₂ = trace step (step (final step s is₁) i).1 is₂ := by
  induction h₁ generalizing s is with
  | nil =>
    cases is with
    | nil => cases h
    | cons i is =>
      simp only [trace, List.nil_append, List.cons.injEq] at h
      exact ⟨[], i, is, rfl, rfl, h.1.symm, h.2.symm⟩
  | cons a h₁ ih =>
    cases is with
    | nil => cases h
    | cons i is =>
      simp only [trace, List.cons_append, List.cons.injEq] at h
      obtain ⟨is₁, j, is₂, rfl, h1, h2, h3⟩ := ih h.2
      exact ⟨i :: is₁, j, is₂, rfl, by rw [trace, ← h1, h.1], h2, h3⟩

theorem mem_trace {s : σ} {is : List ι} {e : Entry σ ι ο} (h : e ∈ trace step s is) :
    ∃ is₁ i is₂, is = is₁ ++ i :: is₂ ∧ e = entry step (final step s is₁) i := by
  obtain ⟨h₁, h₂, hh⟩ := List.append_of_mem h
  obtain ⟨is₁, i, is₂, his, -, he, -⟩ := trace_split hh
  exact ⟨is₁, i, is₂, his, he⟩

/-- The call at a place of the history, from the state after the inputs before it. -/
theorem getElem?_trace (s : σ) (is : List ι) (k : ℕ) :
    (trace step s is)[k]? = is[k]?.map (entry step (final step s (is.take k))) := by
  induction is generalizing s k with
  | nil => rfl
  | cons i is ih =>
    cases k with
    | zero => rfl
    | succ k => exact ih _ k

/-- What is selected from a history when an entry is added to it. -/
theorem filter_snoc {α : Type*} (p : α → Bool) (l : List α) (a : α) :
    (l ++ [a]).filter p = if p a then l.filter p ++ [a] else l.filter p := by
  cases h : p a <;> simp [h]

theorem getElem?_snoc {α : Type*} {l : List α} {a b : α} {k : ℕ} (h : (l ++ [a])[k]? = some b) :
    l[k]? = some b ∨ k = l.length ∧ b = a := by
  rw [List.getElem?_append] at h
  split_ifs at h with hk
  · exact Or.inl h
  · obtain ⟨h1, h2⟩ := List.getElem?_eq_some_iff.mp h
    simp only [List.length_singleton] at h1
    exact Or.inr ⟨by omega, by simpa using h2.symm⟩

/-- Every state of a run is related to the states after it by a preorder that every call follows. -/
theorem trace_rel {R : σ → σ → Prop} (hr : ∀ s, R s s) (ht : ∀ a b c, R a b → R b c → R a c)
    {P : σ → Prop} (hP : ∀ s i, P s → P (step s i).1) (hR : ∀ s i, P s → R s (step s i).1)
    {s : σ} (h0 : P s) (is : List ι) :
    ∀ e ∈ trace step s is, P e.pre ∧ R s e.pre ∧ R s e.post := by
  induction is generalizing s with
  | nil => intro e he; cases he
  | cons i is ih =>
    intro e he
    rcases List.mem_cons.mp he with rfl | he
    · exact ⟨h0, hr s, hR s i h0⟩
    · obtain ⟨hp, h1, h2⟩ := ih (hP s i h0) e he
      exact ⟨hp, ht _ _ _ (hR s i h0) h1, ht _ _ _ (hR s i h0) h2⟩

/-- Every state of a run is related to the last one. -/
theorem trace_rel_final {R : σ → σ → Prop} (hr : ∀ s, R s s) (ht : ∀ a b c, R a b → R b c → R a c)
    {P : σ → Prop} (hP : ∀ s i, P s → P (step s i).1) (hR : ∀ s i, P s → R s (step s i).1)
    {s : σ} (h0 : P s) (is : List ι) :
    ∀ e ∈ trace step s is, R e.post (final step s is) := by
  intro e he
  obtain ⟨is₁, i, is₂, rfl, rfl⟩ := mem_trace he
  have hf : P (step (final step s is₁) i).1 := hP _ i (final_induct h0 hP is₁)
  have hrel : ∀ {t : σ}, P t → ∀ js : List ι, R t (final step t js) := by
    intro t hp js
    induction js generalizing t with
    | nil => exact hr t
    | cons j js ih => exact ht _ _ _ (hR t j hp) (ih (hP t j hp))
  rw [entry_post, final_append]
  exact hrel hf is₂

/-! ### Runs that look alike

An observer sees some of the calls, as `view` tells it, and some of the
outputs, as `out` tells it. When a call it does not see shows it nothing
and keeps a relation of states, and calls it sees alike show it the same
from related states and keep the relation, two runs whose calls look alike
show it the same. -/

section Unwinding

variable {V ω : Type*} {view : ι → Option V} {out : Entry σ ι ο → Option ω} {R : σ → σ → Prop}

/-- The calls that are not seen show nothing and keep the relation. -/
theorem trace_unseen
    (hidden : ∀ s s' i, R s s' → view i = none → R s (step s' i).1 ∧ out (entry step s' i) = none)
    {s s' : σ} (h : R s s') {is : List ι} (hs : is.filterMap view = []) :
    (trace step s' is).filterMap out = [] := by
  induction is generalizing s' with
  | nil => rfl
  | cons i is ih =>
    have hi : view i = none := (List.filterMap_eq_nil_iff.mp hs) i List.mem_cons_self
    rw [List.filterMap_cons_none hi] at hs
    obtain ⟨hr, ho⟩ := hidden s s' i h hi
    rw [trace, List.filterMap_cons_none ho]
    exact ih hr hs

/-- **Unwinding.** -/
theorem trace_unwinding (symm : ∀ s s', R s s' → R s' s)
    (hidden : ∀ s s' i, R s s' → view i = none → R s (step s' i).1 ∧ out (entry step s' i) = none)
    (seen : ∀ s s' i i' v, R s s' → view i = some v → view i' = some v →
      R (step s i).1 (step s' i').1 ∧ out (entry step s i) = out (entry step s' i')) :
    ∀ (is js : List ι) {s s' : σ}, R s s' → is.filterMap view = js.filterMap view →
      (trace step s is).filterMap out = (trace step s' js).filterMap out := by
  intro is
  induction is with
  | nil =>
    intro js s s' h hv
    exact (trace_unseen hidden h hv.symm).symm
  | cons i is ih =>
    intro js s s' h hv
    cases hi : view i with
    | none =>
      obtain ⟨hr, ho⟩ := hidden s' s i (symm _ _ h) hi
      rw [List.filterMap_cons_none hi] at hv
      rw [trace, List.filterMap_cons_none ho]
      exact ih js (symm _ _ hr) hv
    | some v =>
      rw [List.filterMap_cons_some hi] at hv
      -- skip what the other run does unseen, up to the call that looks alike
      induction js generalizing s' with
      | nil => cases hv
      | cons j js ihj =>
        cases hj : view j with
        | none =>
          obtain ⟨hr, ho⟩ := hidden s s' j h hj
          rw [List.filterMap_cons_none hj] at hv
          rw [trace, trace, List.filterMap_cons_none ho]
          exact ihj hr hv
        | some w =>
          rw [List.filterMap_cons_some hj, List.cons.injEq] at hv
          obtain ⟨rfl, hv⟩ := hv
          obtain ⟨hr, ho⟩ := seen s s' i j v h hi hj
          rw [trace, trace, List.filterMap_cons, List.filterMap_cons, ho, ih js hr hv]

end Unwinding

end Run
