/-
# Scanning an array

Loops of a C function that move an index over an array as long as the element
there satisfies a test: forwards (`scan`) and backwards (`scanBack`). A read
is checked against the length of the array, and a read beyond it is `none`,
so that a result `some _` says that there was none.

Between two bounds the loops are `takeWhile`, `dropWhile` and `rdropWhile` of
the part between them (`span`), and trimming a list at both ends (`trim`)
finds the middle of any text with such ends.

Key definitions: `Scan.span`, `Scan.scan`, `Scan.scanBack`, `Scan.trim`.
Key theorems: `Scan.scan_eq`, `Scan.scanBack_eq`, `Scan.trim_append`,
`Scan.exists_trim`.
-/
import Mathlib.Data.List.DropRight
import Mathlib.Tactic

namespace Scan

variable {α : Type*} {p : α → Bool} {b : List α} {start stop : ℕ}

/-! ### The part between two bounds -/

/-- The elements from `start` up to `stop`. -/
def span (b : List α) (start stop : ℕ) : List α := (b.take stop).drop start

theorem length_span (h : stop ≤ b.length) : (span b start stop).length = stop - start := by
  rw [span, List.length_drop, List.length_take, Nat.min_eq_left h]

@[simp] theorem span_self : span b start start = [] :=
  List.drop_eq_nil_of_le (List.length_take_le _ _)

theorem span_zero_length : span b 0 b.length = b := by
  rw [span, List.drop_zero, List.take_length]

theorem span_cons (h : start < stop) (hb : stop ≤ b.length) :
    span b start stop = b[start] :: span b (start + 1) stop := by
  have hlt : start < (b.take stop).length := by
    rw [List.length_take]
    omega
  rw [span, List.drop_eq_getElem_cons hlt, List.getElem_take, span]

theorem span_snoc (h : start ≤ stop) (hb : stop < b.length) :
    span b start (stop + 1) = span b start stop ++ [b[stop]] := by
  rw [span, List.take_succ_eq_append_getElem hb, List.drop_append_of_le_length, span]
  rw [List.length_take]
  omega

theorem span_eq_nil_iff (h : start ≤ stop) (hb : stop ≤ b.length) :
    span b start stop = [] ↔ start = stop := by
  rw [List.eq_nil_iff_length_eq_zero, length_span hb]
  omega

/-! ### The loops -/

/-- `while (start < stop && p(b[start])) ++start`: where the loop ends. -/
def scan (p : α → Bool) (b : List α) (start stop : ℕ) : Option ℕ :=
  if start < stop then
    match b[start]? with
    | none => none
    | some x => if p x then scan p b (start + 1) stop else some start
  else some start
termination_by stop - start

/-- `while (stop > start && p(b[stop - 1])) --stop`: where the loop ends. -/
def scanBack (p : α → Bool) (b : List α) (start : ℕ) : ℕ → Option ℕ
  | 0 => some 0
  | stop + 1 =>
    if start < stop + 1 then
      match b[stop]? with
      | none => none
      | some x => if p x then scanBack p b start stop else some (stop + 1)
    else some (stop + 1)

/-- **The forward loop** cuts the part between its bounds where the test fails first. -/
theorem scan_eq (h : start ≤ stop) (hb : stop ≤ b.length) :
    ∃ m, scan p b start stop = some m ∧ start ≤ m ∧ m ≤ stop ∧
      span b start m = (span b start stop).takeWhile p ∧
      span b m stop = (span b start stop).dropWhile p := by
  induction hn : stop - start generalizing start with
  | zero =>
    obtain rfl : start = stop := by omega
    rw [scan, if_neg (lt_irrefl _)]
    exact ⟨start, rfl, le_rfl, le_rfl, by simp, by simp⟩
  | succ n ih =>
    have hlt : start < stop := by omega
    rw [scan, if_pos hlt, List.getElem?_eq_getElem (by omega), span_cons hlt hb]
    dsimp only
    by_cases hp : p b[start] = true
    · obtain ⟨m, heq, h1, h2, h3, h4⟩ := ih (show start + 1 ≤ stop from hlt) (by omega)
      rw [if_pos hp, List.takeWhile_cons_of_pos hp, List.dropWhile_cons_of_pos hp]
      exact ⟨m, heq, by omega, h2, by rw [span_cons (by omega) (by omega), h3], h4⟩
    · rw [if_neg hp, List.takeWhile_cons_of_neg hp, List.dropWhile_cons_of_neg hp]
      exact ⟨start, rfl, le_rfl, h, span_self, span_cons hlt hb⟩

/-- **The backward loop** drops the end of the part between its bounds. -/
theorem scanBack_eq (h : start ≤ stop) (hb : stop ≤ b.length) :
    ∃ m, scanBack p b start stop = some m ∧ start ≤ m ∧ m ≤ stop ∧
      span b start m = (span b start stop).rdropWhile p := by
  induction stop with
  | zero =>
    obtain rfl : start = 0 := by omega
    exact ⟨0, rfl, le_rfl, le_rfl, by simp⟩
  | succ stop ih =>
    unfold scanBack
    by_cases hlt : start < stop + 1
    · rw [if_pos hlt, List.getElem?_eq_getElem (by omega), span_snoc (by omega) (by omega)]
      dsimp only
      by_cases hp : p b[stop] = true
      · obtain ⟨m, heq, h1, h2, h3⟩ := ih (by omega) (by omega)
        rw [if_pos hp, List.rdropWhile_concat_pos _ _ _ hp]
        exact ⟨m, heq, h1, by omega, h3⟩
      · rw [if_neg hp, List.rdropWhile_concat_neg _ _ _ hp]
        exact ⟨stop + 1, rfl, h, le_rfl, span_snoc (by omega) (by omega)⟩
    · obtain rfl : start = stop + 1 := by omega
      rw [if_neg hlt]
      exact ⟨stop + 1, rfl, le_rfl, le_rfl, by simp⟩

/-! ### Trimming -/

/-- The list without what satisfies `p` at its ends. -/
def trim (p : α → Bool) (l : List α) : List α := (l.dropWhile p).rdropWhile p

theorem rdropWhile_append {l post : List α} (h : ∀ x ∈ post, p x = true) :
    (l ++ post).rdropWhile p = l.rdropWhile p := by
  induction post using List.reverseRecOn with
  | nil => rw [List.append_nil]
  | append_singleton post x ih =>
    rw [← List.append_assoc, List.rdropWhile_concat_pos _ _ _ (h x (by simp))]
    exact ih fun y hy => h y (by simp [hy])

theorem dropWhile_of_head {l : List α} (h : ∀ hl : l ≠ [], p (l.head hl) = false) :
    l.dropWhile p = l := by
  cases l with
  | nil => rfl
  | cons x l => exact List.dropWhile_cons_of_neg (by simpa using h (List.cons_ne_nil _ _))

/-- The text between two ends of a trimmed list. -/
structure Trimmed (p : α → Bool) (l : List α) : Prop where
  head : ∀ hl : l ≠ [], p (l.head hl) = false
  last : ∀ hl : l ≠ [], p (l.getLast hl) = false

/-- **Trimming finds the middle**, -/
theorem trim_append {pre mid post : List α} (hpre : ∀ x ∈ pre, p x = true)
    (hpost : ∀ x ∈ post, p x = true) (hmid : Trimmed p mid) : trim p (pre ++ (mid ++ post)) = mid := by
  unfold trim
  rw [List.dropWhile_append_of_pos hpre]
  cases mid with
  | nil =>
    rw [List.nil_append, List.dropWhile_eq_nil_iff.mpr hpost]
    rfl
  | cons x mid =>
    have hx : ¬ p x = true := by simpa using hmid.head (List.cons_ne_nil _ _)
    rw [List.cons_append, List.dropWhile_cons_of_neg hx, ← List.cons_append, rdropWhile_append hpost,
      List.rdropWhile_eq_self_iff]
    exact fun hl => by simpa using hmid.last hl

/-- and every list has one. -/
theorem exists_trim (p : α → Bool) (l : List α) :
    ∃ pre post, l = pre ++ (trim p l ++ post) ∧ (∀ x ∈ pre, p x = true) ∧
      (∀ x ∈ post, p x = true) ∧ Trimmed p (trim p l) := by
  refine ⟨l.takeWhile p, (l.dropWhile p).rtakeWhile p, ?_, fun x => List.mem_takeWhile_imp,
    fun x => List.mem_rtakeWhile_imp, ?_, ?_⟩
  · rw [trim, List.rdropWhile_append_rtakeWhile, List.takeWhile_append_dropWhile]
  · intro hl
    have hprefix := List.rdropWhile_prefix p (l := l.dropWhile p)
    have hne : l.dropWhile p ≠ [] := fun h => hl (by rw [trim, h]; rfl)
    have hhead : (trim p l).head hl = (l.dropWhile p).head hne := hprefix.head hl
    rw [hhead]
    exact List.head_dropWhile_not p hne
  · intro hl
    exact Bool.not_eq_true _ ▸ List.rdropWhile_last_not p (l.dropWhile p) hl

end Scan
