/-
# A directory with exclusive creation

A directory maps names to contents. An actor can create a name that is not
there, and append to a file; nothing is removed or replaced (`Files.Op`).
Programs that open with exclusive creation append only to files that they
created themselves. A log of operations, each with its actor, that keeps to
this is disciplined.

In a disciplined log a name is created at most once (`Disciplined.once`), and
by one actor only (`Disciplined.owner_unique`); a file that was there at the
start never changes (`Disciplined.initial`), and a file only grows
(`Disciplined.grows`), and only by its creator. Where nobody appends to what
is there, a directory extends the one before (`Extends`).

Key definitions: `Files.Op`, `Files.after`, `Files.Owns`,
`Files.Disciplined`, `Files.Extends`.
Key theorems: `Disciplined.inv`, `Disciplined.once`,
`Disciplined.owner_unique`, `Disciplined.grows`.
-/
import Mathlib.Tactic

namespace Files

variable {π ν β : Type*} [DecidableEq ν]

/-- A directory. -/
abbrev Dir (ν β : Type*) := ν → Option (List β)

/-- What is done to a directory. -/
inductive Op (ν β : Type*)
  | keep
  | create (name : ν)
  | append (name : ν) (bytes : List β)

/-- The effect of an operation. -/
def Op.apply (d : Dir ν β) : Op ν β → Dir ν β
  | .keep => d
  | .create name => Function.update d name (some [])
  | .append name bytes => Function.update d name ((d name).map (· ++ bytes))

@[simp] theorem Op.apply_keep (d : Dir ν β) : Op.apply d .keep = d := rfl

@[simp] theorem Op.apply_create (d : Dir ν β) (name : ν) :
    Op.apply d (.create name) name = some [] := Function.update_self ..

@[simp] theorem Op.apply_append (d : Dir ν β) (name : ν) (bytes : List β) :
    Op.apply d (.append name bytes) name = (d name).map (· ++ bytes) := Function.update_self ..

theorem Op.apply_create_ne (d : Dir ν β) {name other : ν} (h : other ≠ name) :
    Op.apply d (.create name) other = d other := Function.update_of_ne h ..

theorem Op.apply_append_ne (d : Dir ν β) {name other : ν} (bytes : List β) (h : other ≠ name) :
    Op.apply d (.append name bytes) other = d other := Function.update_of_ne h ..

/-- The directory after a log. -/
def after (d : Dir ν β) (log : List (π × Op ν β)) : Dir ν β := log.foldl (fun d r => r.2.apply d) d

theorem after_append (d : Dir ν β) (log more : List (π × Op ν β)) :
    after d (log ++ more) = after (after d log) more := List.foldl_append

theorem after_snoc (d : Dir ν β) (log : List (π × Op ν β)) (p : π) (op : Op ν β) :
    after d (log ++ [(p, op)]) = op.apply (after d log) := after_append d log [(p, op)]

omit [DecidableEq ν] in
/-- The actor created the name in the log. -/
def Owns (log : List (π × Op ν β)) (p : π) (name : ν) : Prop := (p, Op.create name) ∈ log

omit [DecidableEq ν] in
theorem Owns.append {log : List (π × Op ν β)} {p : π} {name : ν} (h : Owns log p name)
    (more : List (π × Op ν β)) : Owns (log ++ more) p name := List.mem_append_left _ h

omit [DecidableEq ν] in
theorem owns_snoc {log : List (π × Op ν β)} {p q : π} {op : Op ν β} {name : ν} :
    Owns (log ++ [(q, op)]) p name ↔ Owns log p name ∨ (p = q ∧ op = .create name) := by
  unfold Owns
  rw [List.mem_append, List.mem_singleton, Prod.mk.injEq]
  exact or_congr_right (and_congr_right fun _ => eq_comm)

/-- What an actor may do after a log. -/
def Permitted (d : Dir ν β) (log : List (π × Op ν β)) (p : π) : Op ν β → Prop
  | .keep => True
  | .create name => after d log name = none
  | .append name _ => Owns log p name

/-- A log whose operations are all permitted. -/
def Disciplined (d : Dir ν β) (log : List (π × Op ν β)) : Prop :=
  ∀ l₁ p op l₂, log = l₁ ++ (p, op) :: l₂ → Permitted d l₁ p op

namespace Disciplined

variable {d : Dir ν β} {log more : List (π × Op ν β)} {p q : π} {op : Op ν β} {name : ν}

theorem nil : Disciplined d ([] : List (π × Op ν β)) := by
  intro l₁ p op l₂ h
  exact absurd (congrArg List.length h) (by simp)

theorem snoc (h : Disciplined d log) (hp : Permitted d log p op) :
    Disciplined d (log ++ [(p, op)]) := by
  intro l₁ q op' l₂ heq
  rcases List.eq_nil_or_concat l₂ with rfl | ⟨l₂, r, rfl⟩
  · obtain ⟨rfl, hlast⟩ := List.append_inj' heq rfl
    obtain ⟨rfl, rfl⟩ := Prod.mk.inj (List.cons.inj hlast).1
    exact hp
  · rw [List.concat_eq_append, ← List.cons_append, ← List.append_assoc] at heq
    exact h l₁ q op' l₂ (List.append_inj' heq rfl).1

theorem left (h : Disciplined d (log ++ more)) : Disciplined d log := by
  intro l₁ p op l₂ heq
  refine h l₁ p op (l₂ ++ more) ?_
  rw [heq, List.append_assoc, List.cons_append]

/-- A file that was there is unchanged and belongs to nobody; any other is there if and only if
somebody created it. -/
theorem inv (h : Disciplined d log) (name : ν) :
    (d name ≠ none → after d log name = d name ∧ ∀ p, ¬Owns log p name) ∧
      (d name = none → (after d log name ≠ none ↔ ∃ p, Owns log p name)) := by
  induction log using List.reverseRecOn with
  | nil =>
    refine ⟨fun _ => ⟨rfl, fun p => List.not_mem_nil⟩, fun hn => ?_⟩
    exact iff_of_false (fun hne => hne hn) fun ⟨p, hp⟩ => List.not_mem_nil hp
  | append_singleton log r ih =>
    obtain ⟨ih1, ih2⟩ := ih h.left
    obtain ⟨p, op⟩ := r
    have hp := h log p op [] rfl
    rw [after_snoc]
    simp only [owns_snoc]
    cases op with
    | keep => simpa using ⟨ih1, ih2⟩
    | create other =>
      by_cases hname : name = other
      · subst hname
        have habsent : d name = none := by
          by_contra hd
          exact hd ((ih1 hd).1 ▸ hp)
        refine ⟨fun hd => absurd habsent hd, fun _ => ?_⟩
        rw [Op.apply_create]
        exact iff_of_true (Option.some_ne_none _) ⟨p, Or.inr ⟨rfl, rfl⟩⟩
      · have hother : Op.create (β := β) other ≠ .create name := fun heq =>
          hname (Op.create.inj heq).symm
        rw [Op.apply_create_ne _ hname]
        simpa [hother] using ⟨ih1, ih2⟩
    | append other bytes =>
      by_cases hname : name = other
      · subst hname
        refine ⟨fun hd => absurd hp ((ih1 hd).2 p), fun hd => ?_⟩
        rw [Op.apply_append, Ne, Option.map_eq_none_iff]
        simpa using ih2 hd
      · rw [Op.apply_append_ne _ _ hname]
        simpa using ⟨ih1, ih2⟩

theorem initial (h : Disciplined d log) (hd : d name ≠ none) : after d log name = d name :=
  ((h.inv name).1 hd).1

theorem owns_absent (h : Disciplined d log) (ho : Owns log p name) : d name = none := by
  by_contra hd
  exact ((h.inv name).1 hd).2 p ho

theorem owns_present (h : Disciplined d log) (ho : Owns log p name) : after d log name ≠ none :=
  ((h.inv name).2 (h.owns_absent ho)).mpr ⟨p, ho⟩

/-- What is there was there, or was created. -/
theorem present (h : Disciplined d log) (hn : after d log name ≠ none) :
    d name ≠ none ∨ ∃ p, Owns log p name := by
  by_cases hd : d name = none
  · exact Or.inr (((h.inv name).2 hd).mp hn)
  · exact Or.inl hd

/-- A creation comes after no other one of the same name. -/
theorem first {l₁ l₂ : List (π × Op ν β)} (h : Disciplined d (l₁ ++ (p, .create name) :: l₂)) (q : π) :
    ¬Owns l₁ q name := by
  intro hq
  exact h.left.owns_present hq (h l₁ p _ l₂ rfl)

/-- **A name is created once.** -/
theorem once {l₁ l₂ : List (π × Op ν β)} (h : Disciplined d (l₁ ++ (p, .create name) :: l₂)) (q : π) :
    ¬Owns (l₁ ++ l₂) q name := by
  intro hq
  rcases List.mem_append.mp hq with hq | hq
  · exact h.first q hq
  · obtain ⟨l₃, l₄, rfl⟩ := List.append_of_mem hq
    rw [← List.cons_append, ← List.append_assoc] at h
    exact h.first p (List.mem_append_right _ List.mem_cons_self)

/-- **A file has one creator.** -/
theorem owner_unique (h : Disciplined d log) (hp : Owns log p name) (hq : Owns log q name) : p = q := by
  obtain ⟨l₁, l₂, rfl⟩ := List.append_of_mem hp
  by_contra hne
  refine h.once q ?_
  rcases List.mem_append.mp hq with hq | hq
  · exact List.mem_append_left _ hq
  · rcases List.mem_cons.mp hq with heq | hq
    · exact absurd (Prod.mk.inj heq).1.symm hne
    · exact List.mem_append_right _ hq

/-- What is permitted to one actor leaves the files of another alone. -/
theorem apply_other (h : Disciplined d log) (hp : Permitted d log p op) (hq : Owns log q name)
    (hne : q ≠ p) : op.apply (after d log) name = after d log name := by
  cases op with
  | keep => rfl
  | create other =>
    refine Op.apply_create_ne _ ?_
    rintro rfl
    exact h.owns_present hq hp
  | append other bytes =>
    refine Op.apply_append_ne _ _ ?_
    rintro rfl
    exact hne (h.owner_unique hq hp)

/-- A file whose creator is known was created by it already, if it is there. -/
theorem owns_left (h : Disciplined d (log ++ more)) (ho : Owns (log ++ more) p name)
    (hn : after d log name ≠ none) : Owns log p name := by
  rcases h.left.present hn with hd | ⟨q, hq⟩
  · exact absurd (h.owns_absent ho) hd
  · rwa [h.owner_unique ho (hq.append more)]

/-- **Files only grow**, and what a file gains is appended by its creator. -/
theorem grows (h : Disciplined d (log ++ more)) {bytes : List β}
    (hb : after d log name = some bytes) :
    ∃ rest, after d (log ++ more) name = some (bytes ++ rest) ∧
      (rest ≠ [] → ∃ p piece, Owns log p name ∧ (p, Op.append name piece) ∈ more) := by
  induction more using List.reverseRecOn with
  | nil =>
    rw [List.append_nil]
    exact ⟨[], by rw [List.append_nil, hb], fun hne => absurd rfl hne⟩
  | append_singleton more r ih =>
    obtain ⟨p, op⟩ := r
    rw [← List.append_assoc] at h ⊢
    obtain ⟨rest, hrest, hgain⟩ := ih h.left
    have hp := h (log ++ more) p op [] rfl
    have hkept : Op.apply (after d (log ++ more)) op name = after d (log ++ more) name →
        ∃ rest, after d (log ++ more ++ [(p, op)]) name = some (bytes ++ rest) ∧
          (rest ≠ [] → ∃ q piece, Owns log q name ∧ (q, Op.append name piece) ∈ more ++ [(p, op)]) := by
      intro hsame
      refine ⟨rest, by rw [after_snoc, hsame, hrest], fun hne => ?_⟩
      obtain ⟨q, piece, hq, hmem⟩ := hgain hne
      exact ⟨q, piece, hq, List.mem_append_left _ hmem⟩
    cases op with
    | keep => exact hkept rfl
    | create other =>
      refine hkept (Op.apply_create_ne _ ?_)
      rintro rfl
      have hnone : after d (log ++ more) name = none := hp
      rw [hrest] at hnone
      exact absurd hnone (Option.some_ne_none _)
    | append other piece =>
      by_cases hname : name = other
      · subst hname
        refine ⟨rest ++ piece, ?_, fun _ => ⟨p, piece, ?_, ?_⟩⟩
        · rw [after_snoc, Op.apply_append, hrest, Option.map_some, List.append_assoc]
        · refine h.left.owns_left hp ?_
          rw [hb]
          exact Option.some_ne_none _
        · exact List.mem_append_right _ List.mem_cons_self
      · exact hkept (Op.apply_append_ne _ _ hname)

end Disciplined

/-! ### Files that stay as they are -/

omit [DecidableEq ν]

/-- What is in the first directory is in the second one, the same. -/
def Extends (d d' : Dir ν β) : Prop := ∀ name bytes, d name = some bytes → d' name = some bytes

theorem Extends.refl (d : Dir ν β) : Extends d d := fun _ _ h => h

theorem Extends.trans {d d' d'' : Dir ν β} (h : Extends d d') (h' : Extends d' d'') :
    Extends d d'' := fun name bytes hb => h' name bytes (h name bytes hb)

theorem extends_update [DecidableEq ν] {d : Dir ν β} {name : ν} (hn : d name = none)
    (file : Option (List β)) : Extends d (Function.update d name file) := by
  intro other bytes hb
  have hne : other ≠ name := by
    rintro rfl
    exact absurd (hb.symm.trans hn) (Option.some_ne_none _)
  rw [Function.update_of_ne hne, hb]

end Files
