/-
# A queue that loses, and marks what it loses

A stream of items and gaps goes into a queue that may drop what waits, and is
taken out one item at a time. A take has the mark of a loss where something
was dropped before it. `Explains` is what the takes tell of the stream: every
item is taken or is skipped, and only a marked take has skipped anything.
`Waits` is the same of what is still in the queue.

So takes without a mark are a contiguous piece of the stream
(`explains_unmarked`), wherever they stand among the others
(`explains_append`), and words that were taken without a mark one after the
other occur in the stream in this order (`Taken.occur`).

Key definitions: `Lossy.Take`, `Lossy.Explains`, `Lossy.Waits`,
`Lossy.Taken`, `Lossy.Occur`.
Key theorems: `Lossy.explains_append`, `Lossy.explains_unmarked`,
`Lossy.Waits.take`, `Lossy.Taken.occur`.
-/
import Mathlib.Tactic

namespace Lossy

variable {α : Type*}

/-- What is taken out: the mark of a loss, and an item if there is one. -/
structure Take (α : Type*) where
  lost : Bool
  item : Option α

/-- What a take tells of a piece of the stream: its item ends the piece, and only where it is marked
something is skipped before it. -/
def Take.Explains (k : Take α) (piece : List (Option α)) : Prop :=
  ∃ skipped, (k.lost = false → skipped = []) ∧ piece = skipped ++ k.item.toList.map some

/-- The takes tell of every item and every gap of the stream. -/
def Explains : List (Take α) → List (Option α) → Prop
  | [], stream => stream = []
  | k :: takes, stream => ∃ piece rest, stream = piece ++ rest ∧ k.Explains piece ∧
      Explains takes rest

/-- The items that were taken. -/
def items (takes : List (Take α)) : List α := takes.filterMap Take.item

@[simp] theorem items_nil : items ([] : List (Take α)) = [] := rfl

@[simp] theorem items_append (takes more : List (Take α)) :
    items (takes ++ more) = items takes ++ items more := List.filterMap_append

theorem items_cons (k : Take α) (takes : List (Take α)) :
    items (k :: takes) = k.item.toList ++ items takes := by
  unfold items
  cases h : k.item with
  | none => rw [List.filterMap_cons_none h]; rfl
  | some a => rw [List.filterMap_cons_some h]; rfl

theorem explains_append {takes more : List (Take α)} {stream : List (Option α)} :
    Explains (takes ++ more) stream ↔
      ∃ old new, stream = old ++ new ∧ Explains takes old ∧ Explains more new := by
  induction takes generalizing stream with
  | nil =>
    constructor
    · exact fun h => ⟨[], stream, rfl, rfl, h⟩
    · rintro ⟨old, new, rfl, rfl, h⟩
      exact h
  | cons k takes ih =>
    constructor
    · rintro ⟨piece, rest, rfl, hk, hrest⟩
      obtain ⟨old, new, rfl, hold, hnew⟩ := ih.mp hrest
      exact ⟨piece ++ old, new, (List.append_assoc _ _ _).symm, ⟨piece, old, rfl, hk, hold⟩, hnew⟩
    · rintro ⟨_, new, rfl, ⟨piece, old, rfl, hk, hold⟩, hnew⟩
      exact ⟨piece, old ++ new, List.append_assoc _ _ _, hk, ih.mpr ⟨old, new, rfl, hold, hnew⟩⟩

theorem explains_singleton {k : Take α} {stream : List (Option α)} :
    Explains [k] stream ↔ k.Explains stream := by
  constructor
  · rintro ⟨piece, rest, rfl, hk, rfl⟩
    rwa [List.append_nil]
  · exact fun h => ⟨stream, [], (List.append_nil _).symm, h, rfl⟩

/-- **Takes without a mark** are a contiguous piece of the stream. -/
theorem explains_unmarked {takes : List (Take α)} (h : ∀ k ∈ takes, k.lost = false)
    {stream : List (Option α)} (he : Explains takes stream) :
    stream = (items takes).map some := by
  induction takes generalizing stream with
  | nil => exact he
  | cons k takes ih =>
    obtain ⟨_, rest, rfl, ⟨skipped, hskipped, rfl⟩, hrest⟩ := he
    rw [hskipped (h k List.mem_cons_self), items_cons, List.map_append,
      ih (fun k' hk' => h k' (List.mem_cons_of_mem _ hk')) hrest]
    rfl

/-- What waits in the queue, of a piece of the stream. -/
def Waits (lost : Bool) (waiting : List α) (piece : List (Option α)) : Prop :=
  ∃ skipped, (lost = false → skipped = []) ∧ piece = skipped ++ waiting.map some

variable {lost : Bool} {waiting : List α} {piece : List (Option α)}

theorem Waits.push (h : Waits lost waiting piece) (a : α) :
    Waits lost (waiting ++ [a]) (piece ++ [some a]) := by
  obtain ⟨skipped, hskipped, rfl⟩ := h
  exact ⟨skipped, hskipped, by rw [List.map_append, List.append_assoc]; rfl⟩

/-- The queue is dropped, with gaps behind it or none. -/
theorem waits_dropped (piece : List (Option α)) : Waits true ([] : List α) piece :=
  ⟨piece, fun h => Bool.noConfusion h, (List.append_nil _).symm⟩

/-- An item is taken. -/
theorem Waits.take {a : α} (h : Waits lost (a :: waiting) piece) :
    ∃ old new, piece = old ++ new ∧ Explains [⟨lost, some a⟩] old ∧ Waits false waiting new := by
  obtain ⟨skipped, hskipped, rfl⟩ := h
  exact ⟨skipped ++ [some a], waiting.map some, by simp,
    explains_singleton.mpr ⟨skipped, hskipped, rfl⟩, ⟨[], fun _ => rfl, rfl⟩⟩

theorem Waits.take_nothing (h : Waits lost ([] : List α) piece) :
    ∃ old new, piece = old ++ new ∧ Explains [⟨lost, none⟩] old ∧ Waits false ([] : List α) new := by
  obtain ⟨skipped, hskipped, rfl⟩ := h
  exact ⟨skipped, [], rfl, explains_singleton.mpr ⟨skipped, hskipped, (List.append_nil _).symm⟩,
    ⟨[], fun _ => rfl, rfl⟩⟩

/-! ### Words -/

/-- These words were taken one after the other, each without a mark. -/
def Taken : List (List α) → List (Take α) → Prop
  | [], _ => True
  | w :: words, takes => ∃ before word after, takes = before ++ word ++ after ∧
      (∀ k ∈ word, k.lost = false) ∧ items word = w ∧ Taken words after

/-- These words occur in the stream one after the other, each in one piece. -/
def Occur : List (List α) → List (Option α) → Prop
  | [], _ => True
  | w :: words, stream => ∃ before after, stream = before ++ w.map some ++ after ∧ Occur words after

variable {words : List (List α)} {takes : List (Take α)}

theorem Taken.append (h : Taken words takes) (more : List (Take α)) :
    Taken words (takes ++ more) := by
  induction words generalizing takes with
  | nil => trivial
  | cons w words ih =>
    obtain ⟨before, word, after, rfl, hunmarked, hword, hafter⟩ := h
    exact ⟨before, word, after ++ more, List.append_assoc _ _ _, hunmarked, hword, ih hafter⟩

theorem Taken.snoc (h : Taken words takes) {word : List (Take α)}
    (hunmarked : ∀ k ∈ word, k.lost = false) :
    Taken (words ++ [items word]) (takes ++ word) := by
  induction words generalizing takes with
  | nil => exact ⟨takes, word, [], (List.append_nil _).symm, hunmarked, rfl, trivial⟩
  | cons w words ih =>
    obtain ⟨before, first, after, rfl, hfirst, hw, hafter⟩ := h
    exact ⟨before, first, after ++ word, List.append_assoc _ _ _, hfirst, hw, ih hafter⟩

/-- **Words that were taken occur** in the stream that the takes explain. -/
theorem Taken.occur (h : Taken words takes) {stream : List (Option α)}
    (he : Explains takes stream) : Occur words stream := by
  induction words generalizing takes stream with
  | nil => trivial
  | cons w words ih =>
    obtain ⟨before, word, after, rfl, hunmarked, rfl, hafter⟩ := h
    obtain ⟨old, new, rfl, hold, hnew⟩ := explains_append.mp he
    obtain ⟨first, second, rfl, -, hsecond⟩ := explains_append.mp hold
    refine ⟨first, new, ?_, ih hafter hnew⟩
    rw [explains_unmarked hunmarked hsecond]

theorem Occur.append {stream : List (Option α)} (h : Occur words stream) (more : List (Option α)) :
    Occur words (stream ++ more) := by
  induction words generalizing stream with
  | nil => trivial
  | cons w words ih =>
    obtain ⟨before, after, rfl, hafter⟩ := h
    exact ⟨before, after ++ more, List.append_assoc _ _ _, ih hafter⟩

theorem Occur.prepend {stream : List (Option α)} (h : Occur words stream) (more : List (Option α)) :
    Occur words (more ++ stream) := by
  cases words with
  | nil => trivial
  | cons w words =>
    obtain ⟨before, after, rfl, hafter⟩ := h
    exact ⟨more ++ before, after, by simp only [List.append_assoc], hafter⟩

theorem Occur.sublist {some : List (List α)} (hsub : some.Sublist words)
    {stream : List (Option α)} (h : Occur words stream) : Occur some stream := by
  induction hsub generalizing stream with
  | slnil => trivial
  | cons w _ ih =>
    obtain ⟨before, after, rfl, hafter⟩ := h
    exact (ih hafter).prepend _
  | cons_cons w _ ih =>
    obtain ⟨before, after, rfl, hafter⟩ := h
    exact ⟨before, after, rfl, ih hafter⟩

end Lossy
