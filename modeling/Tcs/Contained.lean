/-
# One generation behind the latch

What `tests/containment/supervisor.c` can do to a slot, told as moves
(`SpMove`): it takes a word, stops the child of a slot that closed, applies an
event of the table, resumes the child of a slot that it has just reserved, or
fails. Every handler is a chain of moves (`spCall_moves`).

No move drains a slot and none completes a ticket, so nothing in use is ever
retired, and a reservation needs that: in every run at most one child is
resumed, once, and at most one ticket of each slot begins
(`contained_once`). The message that the experiment ends with says as much:
"missing drain blocks replacement".

Key definitions: `SpMove`, `resumed`, `OneGeneration`.
Key theorems: `spSync_moves`, `spCall_moves`, `OneGeneration.move`,
`contained_once`.
-/
import Mathlib.Logic.Relation
import Tcs.Closing
import Tcs.Containment

namespace Tcs

open Ipc Kernel

/-! ### Moves -/

/-- What the supervisor does between two statements: on its own, or for an actor. -/
inductive SpMove (s : ReductionSupervisor) : Option LcActor → ReductionSupervisor → Prop
  | fail : SpMove s none (spFail s)
  | fault (child : ℕ) : SpMove s none { s with children := s.children.faulted child }
  | poll (word : UInt64) : SpMove s none (s.polled word)
  | stop (i : Fin 2) (hc : (s.control.life.slots i).state = LcState.closing)
    (h0 : (s.control.life.slots i).stopped = 0) : SpMove s none (s.stopped i)
  | told (stops : UInt64)
    (hs : ∀ k < 64, Word.hasBit stops k = true →
      ∃ i : Fin 2, i.val = k ∧ (s.control.life.slots i).stopped ≠ 0) :
    SpMove s none { s with receipt := s.receipt ||| stops }
  | event {actor : LcActor} {e : LcEvent} {b : Bool} {v : UInt64} {life' : Lifecycle}
    (hs : LcStep s.control.life actor e b v life')
    (hop : e.op = LcOp.activate ∨ e.op = LcOp.started ∨ e.op = LcOp.begin) :
    SpMove s (some actor) { s with control := { s.control with life := life' } }
  | reserve {slot v : UInt64} {life' : Lifecycle}
    (hs : LcStep s.control.life .admin ⟨LcOp.reserve, slot, 0, 0⟩ true v life') :
    SpMove s (some .admin) { s with
      control := { s.control with life := life' }
      children := s.children.resume (slot.toNat + 1) }

/-- Moves of the supervisor, the ones for an actor among those that `may` be made. -/
abbrev SpMoves (may : LcActor → Prop) : ReductionSupervisor → ReductionSupervisor → Prop :=
  Relation.ReflTransGen fun s s' => ∃ who, SpMove s who s' ∧ ∀ actor, who = some actor → may actor

section

variable (may : LcActor → Prop) {s : ReductionSupervisor}

theorem SpMove.alone {s' : ReductionSupervisor} (h : SpMove s none s') : SpMoves may s s' :=
  .single ⟨none, h, fun _ hn => by cases hn⟩

theorem SpMove.single {s' : ReductionSupervisor} {actor : LcActor} (h : SpMove s (some actor) s')
    (ha : may actor) : SpMoves may s s' :=
  .single ⟨some actor, h, fun _ hn => Option.some.inj hn ▸ ha⟩

variable {may} in
/-- **Moves keep what every move keeps.** -/
theorem SpMoves.keeps {P : ReductionSupervisor → Prop}
    (h : ∀ s who s', SpMove s who s' → (∀ actor, who = some actor → may actor) → P s → P s')
    {s s' : ReductionSupervisor} (hm : SpMoves may s s') (hs : P s) : P s' := by
  induction hm with
  | refl => exact hs
  | tail _ hstep ih =>
    obtain ⟨who, hmove, hmay⟩ := hstep
    exact h _ who _ hmove hmay ih

variable {may} in
theorem SpMoves.failed {s s' : ReductionSupervisor} (h : SpMoves may s s') (hf : s.failed = true) :
    s'.failed = true :=
  h.keeps (P := fun s => s.failed = true)
    (fun _ _ _ hm _ hs => by cases hm <;> first | rfl | exact hs) hf

variable {may} in
theorem SpMoves.weaken {may' : LcActor → Prop} {s s' : ReductionSupervisor} (h : SpMoves may s s')
    (himp : ∀ actor, may actor → may' actor) : SpMoves may' s s' := by
  induction h with
  | refl => exact .refl
  | tail _ hstep ih =>
    obtain ⟨who, hmove, hmay⟩ := hstep
    exact ih.tail ⟨who, hmove, fun actor ha => himp actor (hmay actor ha)⟩

/-! ### The handlers are moves -/

theorem spStop_moves (h : SpOk s) (stops : UInt64) (i : Fin 2)
    (hb : Word.hasBit stops i = true → (s.control.life.slots i).state = LcState.closing ∧
      (s.control.life.slots i).stopped = 0) :
    ∃ s', spStop stops s i = .ok s' ∧ SpMoves may s s' ∧ SpOk s' ∧
      (∀ j ≠ i, s'.control.life.slots j = s.control.life.slots j) ∧
      (Word.hasBit stops i = true → (s'.control.life.slots i).stopped ≠ 0) := by
  by_cases hbit : Word.hasBit stops i = true
  · obtain ⟨hc, h0⟩ := hb hbit
    refine ⟨s.stopped i, spStop_eq h hbit hc h0, (SpMove.stop i hc h0).alone may, h.stop hc h0,
      (stopped_slots s i).2, fun _ => ?_⟩
    rw [(stopped_slots s i).1]
    simp [LcSlot.confirmedStop]
  · exact ⟨s, by rw [spStop, if_pos (by simpa using hbit)], .refl, h, fun _ _ => rfl,
      fun hn => absurd hn hbit⟩

theorem rdStopMask_lt (control : Reduction) : (rdStopMask control).toNat < 2 ^ 2 := by
  unfold rdStopMask
  rw [show List.finRange 2 = [0, 1] from rfl]
  simp only [List.foldl_cons, List.foldl_nil]
  split_ifs <;> decide

/-- **The loop over the stops** ends, with every stop it was asked for recorded. -/
theorem spStops_moves (h : SpOk s) (word : UInt64) :
    ∃ t, (List.finRange 2).foldlM (spStop (rdStopMask (s.polled word).control)) (s.polled word) = .ok t ∧
      SpMoves may (s.polled word) t ∧
      ∀ i : Fin 2, Word.hasBit (rdStopMask (s.polled word).control) i = true →
        (t.control.life.slots i).stopped ≠ 0 := by
  have hp := h.poll word
  have hmask := hp.rdOk.of_hasBit_rdStopMask
  obtain ⟨s₁, e₁, m₁, h₁, o₁, c₁⟩ := spStop_moves may hp _ 0 (hmask 0)
  obtain ⟨s₂, e₂, m₂, -, o₂, c₂⟩ := spStop_moves may h₁ _ 1 (by
    rw [o₁ 1 (by decide)]
    exact hmask 1)
  refine ⟨s₂, ?_, m₁.trans m₂, Fin.forall_fin_two.mpr ⟨fun hb => ?_, c₂⟩⟩
  · rw [show List.finRange 2 = [0, 1] from rfl]
    simp [List.foldlM, e₁, e₂, bind, Except.bind, pure, Except.pure]
  · rw [o₂ 0 (by decide)]
    exact c₁ hb

/-- What the poll makes of a supervisor in service. -/
theorem spSync_eq (h : SpOk s) (hf : s.failed = false) (notification : Bool) (word : UInt64)
    {t : ReductionSupervisor} (hfold : (List.finRange 2).foldlM
      (spStop (rdStopMask (s.polled word).control)) (s.polled word) = .ok t) :
    spSync notification word s = (true,
      if notification = true ∧ rdStopMask (s.polled word).control ≠ 0 then
        { t with receipt := t.receipt ||| rdStopMask (s.polled word).control } else t) := by
  unfold spSync
  rw [if_neg (by simp [h.ready, hf])]
  dsimp only
  rw [if_neg (rdPoll_ne_invalidState h.rdOk word), rdPoll_eq h.rdOk]
  unfold ReductionSupervisor.polled at hfold ⊢
  dsimp only at hfold ⊢
  rw [hfold]

/-- **The poll and its stops** are moves of the supervisor alone. -/
theorem spSync_moves (h : SpOk s) (notification : Bool) (word : UInt64) :
    SpMoves may s (spSync notification word s).2 := by
  by_cases hf : s.failed = true
  · rw [spSync_failed hf]
  obtain ⟨t, hfold, hmoves, hstops⟩ := spStops_moves may h word
  have hmoves := ((SpMove.poll word).alone may).trans hmoves
  rw [spSync_eq h (by simpa using hf) notification word hfold]
  dsimp only
  split_ifs
  · refine hmoves.trans ((SpMove.told _ fun k hk hb => ?_).alone may)
    have hslot := Word.lt_of_hasBit hk (rdStopMask_lt _) hb
    exact ⟨⟨k, hslot⟩, rfl, hstops ⟨k, hslot⟩ hb⟩
  · exact hmoves

/-- An event that is applied between the poll and the answer. -/
theorem spApply_moves (h : SpOk s) {actor : LcActor} (ha : may actor) {e : LcEvent}
    (audit : Bool) (hop : e.op = LcOp.activate ∨ e.op = LcOp.started ∨ e.op = LcOp.begin) :
    SpMoves may s { s with control := (rdApply s.control 0 actor e audit).2 } := by
  by_cases hok : (rdApply s.control 0 actor e audit).1.status = LcStatus.ok
  · obtain ⟨v, life', hs, -, heq⟩ := lcStep_of_rdApply h.rdOk hok
    rw [heq]
    exact (SpMove.event hs hop).single may ha
  · have hsame : (rdApply s.control 0 actor e audit).2 = s.control := by
      rw [rdApply_of_ne hok, rdPoll_eq h.rdOk, h.rdOk.observe_zero]
    rw [hsame]

theorem spControl_moves (h : SpOk s) (mr : Registers) (ha : may .admin) {a b : UInt64}
    (hop : a = LcOp.reserve ∨ a = LcOp.activate) : SpMoves may s (spControl s mr a b).2 := by
  unfold spControl
  rcases hop with rfl | rfl
  · rw [if_pos rfl]
    dsimp only
    by_cases hok : (rdApply s.control 0 .admin ⟨LcOp.reserve, b, 0, 0⟩ true).1.status = LcStatus.ok
    · rw [if_pos ⟨hok, rfl⟩]
      obtain ⟨v, life', hs, -, heq⟩ := lcStep_of_rdApply h.rdOk hok
      rw [heq]
      exact (SpMove.reserve hs).single may ha
    · rw [if_neg fun hc => hok hc.1, rdApply_of_ne hok, rdPoll_eq h.rdOk, h.rdOk.observe_zero]
  · rw [if_neg (by decide)]
    dsimp only
    rw [if_neg fun hc => absurd hc.2 (by decide)]
    exact spApply_moves may h ha true (Or.inl rfl)

/-- What is done between the poll and the answer: but for the broker, by the controller alone. -/
theorem spServe_moves (h : SpOk s) (ch : ℕ) (m : Message) (a b : UInt64) :
    SpMoves (fun actor => ch ≠ 1 → actor = .admin) s (spServe ch m a b s).2 := by
  unfold spServe
  split_ifs with c1 c2 c3 c4 c5 c6
  any_goals exact .refl
  · refine spControl_moves _ h m.mr (fun _ => rfl) ?_
    by_contra hn
    exact c3 (Or.inr (not_or.mp hn))
  · exact spApply_moves _ h (fun hch => absurd c4.1 hch) false (Or.inr (Or.inl rfl))
  · exact spApply_moves _ h (fun hch => absurd c6.1 hch) false (Or.inr (Or.inr rfl))

/-- **A protected call is a chain of moves.** -/
theorem spProtected_moves (h : SpOk s) (word : UInt64) (ch : ℕ) (m : Message) :
    SpMoves (fun actor => ch ≠ 1 → actor = .admin) s (spProtected word ch s m).2 := by
  have hsync := spSync_moves (fun actor => ch ≠ 1 → actor = .admin) h false word
  unfold spProtected
  by_cases hf : s.failed = true
  · rw [spSync_failed hf]
    exact .refl
  · obtain ⟨hok, h₁, -⟩ := spSync_spec h (by simpa using hf) false word
    dsimp only
    rw [if_neg (by rw [hok]; decide)]
    exact hsync.trans (spServe_moves h₁ ch m _ _)

/-- No call of the broker, whose channel is 1. -/
def SpCall.Own : SpCall → Prop
  | .call ch _ _ => ch ≠ 1
  | _ => True

/-- **Every callback is a chain of moves**, and but for the broker only the controller applies
events. -/
theorem spCall_moves (h : SpOk s) (x : SpCall) :
    SpMoves (fun actor => x.Own → actor = .admin) s (spCall s x).1 := by
  cases x with
  | init word =>
    have hf : spInit word s = spFail s := by rw [spInit, if_pos h.ready]
    rw [show (spCall s (.init word)).1 = spFail s from hf]
    exact SpMove.fail.alone _
  | notified ch word =>
    by_cases hch : ch = 0
    · rw [show (spCall s (.notified ch word)).1 = (spSync true word s).2 from if_pos hch]
      exact spSync_moves _ h true word
    · rw [show (spCall s (.notified ch word)).1 = s from if_neg hch]
  | call ch m word => exact spProtected_moves h word ch m
  | fault child m =>
    exact ((SpMove.fault child).alone _).trans (SpMove.fail.alone _)

end

/-! ### One generation -/

/-- The child that a call resumes. -/
def resumed : ChildCall → Option ℕ
  | .stop _ => none
  | .resume child => some child

/-- No drain and no completed ticket. -/
structure LcSlot.Undrained (t : LcSlot) : Prop where
  drained : t.drained = 0
  ticket : t.issued = t.pending
  once : t.pending = 0 ∨ t.pending = 1
  kept : t.state = LcState.unused ∨ t.occupied = true

/-- Nothing was reserved, or one slot, once, and its child was resumed once. -/
inductive Generation (base : List ChildCall) (s : ReductionSupervisor) : Prop
  | none (hslots : ∀ i, (s.control.life.slots i).state = LcState.unused)
    (hlast : s.control.life.lastIncarnation = 0)
    (hcalls : ∃ later, s.children.calls = base ++ later ∧ later.filterMap resumed = [])
  | one (i : Fin 2) (hi : (s.control.life.slots i).occupied = true)
    (hother : ∀ j ≠ i, (s.control.life.slots j).state = LcState.unused)
    (hlast : s.control.life.lastIncarnation = 1)
    (hcalls : ∃ later, s.children.calls = base ++ later ∧ later.filterMap resumed = [i.val + 1])

/-- What every move keeps. -/
structure OneGeneration (base : List ChildCall) (s : ReductionSupervisor) : Prop where
  slots : ∀ i, (s.control.life.slots i).Undrained
  generation : Generation base s

theorem LcSlot.Undrained.contained {t : LcSlot} (h : t.Undrained) (inhibited : UInt64) (i : Fin 2) :
    (t.contained inhibited i).Undrained ∧
      ((t.contained inhibited i).occupied = true ↔ t.occupied = true) ∧
      ((t.contained inhibited i).state = LcState.unused ↔ t.state = LcState.unused) := by
  unfold LcSlot.contained
  split_ifs with hc
  · have hlive := (LcSlot.live_iff _).mp hc.2
    have hne : t.state ≠ LcState.unused := by
      intro h0
      rw [h0] at hlive
      exact absurd hlive.1 (by decide)
    have hocc : t.occupied = true := h.kept.resolve_left hne
    have hclosing : ({ t with state := LcState.closing } : LcSlot).occupied = true :=
      (LcSlot.occupied_iff _).mpr ⟨by simp, by simp⟩
    refine ⟨⟨h.drained, h.ticket, h.once, Or.inr hclosing⟩, iff_of_true hclosing hocc, ?_⟩
    exact iff_of_false (by simp) hne
  · exact ⟨h, Iff.rfl, Iff.rfl⟩

section

variable {base : List ChildCall} {s s' : ReductionSupervisor}

/-- What changes neither the use of a slot nor the resumptions. -/
theorem Generation.frame (h : Generation base s)
    (hslots : ∀ i, ((s'.control.life.slots i).occupied = true ↔
      (s.control.life.slots i).occupied = true) ∧
      ((s'.control.life.slots i).state = LcState.unused ↔
        (s.control.life.slots i).state = LcState.unused))
    (hlast : s'.control.life.lastIncarnation = s.control.life.lastIncarnation)
    (hcalls : ∃ more, s'.children.calls = s.children.calls ++ more ∧ more.filterMap resumed = []) :
    Generation base s' := by
  obtain ⟨more, hmore, hnone⟩ := hcalls
  have hlater : ∀ children, (∃ later, s.children.calls = base ++ later ∧
      later.filterMap resumed = children) → ∃ later, s'.children.calls = base ++ later ∧
        later.filterMap resumed = children := by
    rintro children ⟨later, hl, hr⟩
    refine ⟨later ++ more, by rw [hmore, hl, List.append_assoc], ?_⟩
    rw [List.filterMap_append, hr, hnone, List.append_nil]
  cases h with
  | none hunused hzero hc =>
    exact .none (fun i => (hslots i).2.mpr (hunused i)) (hlast.trans hzero) (hlater _ hc)
  | one i hi hother hone hc =>
    exact .one i ((hslots i).1.mpr hi) (fun j hj => (hslots j).2.mpr (hother j hj))
      (hlast.trans hone) (hlater _ hc)

theorem LcSlot.Undrained.confirmedStop {t : LcSlot} (h : t.Undrained) :
    t.confirmedStop = { t with stopped := 1 } := by
  unfold LcSlot.confirmedStop
  rw [if_neg (not_not.mpr h.drained)]

theorem LcSlot.Undrained.event {t t' : LcSlot} {actor : LcActor} {op sequence v : UInt64} {b : Bool}
    (h : t.Undrained) (hs : SlotStep t actor op sequence b v t')
    (hop : op = LcOp.activate ∨ op = LcOp.started ∨ op = LcOp.begin) :
    t'.Undrained ∧ t'.occupied = true ∧ t.occupied = true := by
  have hocc : ∀ t : LcSlot, t.state = LcState.starting ∨ t.state = LcState.ready ∨
      t.state = LcState.active → t.occupied = true := by
    intro t ht
    refine (LcSlot.occupied_iff t).mpr ⟨?_, ?_⟩ <;> rcases ht with ht | ht | ht <;> rw [ht] <;> decide
  cases hs with
  | started b hst =>
    have hnew := hocc { t with state := LcState.ready } (Or.inr (Or.inl rfl))
    exact ⟨⟨h.drained, h.ticket, h.once, Or.inr hnew⟩, hnew, hocc t (Or.inl hst)⟩
  | activate hst =>
    have hnew := hocc { t with state := LcState.active } (Or.inr (Or.inr rfl))
    exact ⟨⟨h.drained, h.ticket, h.once, Or.inr hnew⟩, hnew, hocc t (Or.inr (Or.inl hst))⟩
  | begin b hst hp hm =>
    have hold := hocc t (Or.inr (Or.inr hst))
    have hnew : ({ t with issued := t.issued + 1, pending := t.issued + 1 } : LcSlot).occupied =
        true := hold
    refine ⟨⟨h.drained, rfl, Or.inr ?_, Or.inr hnew⟩, hnew, hold⟩
    show t.issued + 1 = 1
    rw [h.ticket, hp]
    rfl
  | complete => simp at hop
  | contain => simp at hop
  | stopped => simp at hop
  | drained => simp at hop

theorem LcStep.reserves {life life' : Lifecycle} {actor : LcActor} {e : LcEvent} {b : Bool}
    {v : UInt64} (h : LcStep life actor e b v life') (hop : e.op = LcOp.reserve) :
    e.slot < slotCount ∧
      life' = { life with lastIncarnation := life.lastIncarnation + 1 }.set e.slot
        { life.at e.slot with
          incarnation := life.lastIncarnation + 1, state := LcState.starting } := by
  cases h with
  | reserve i hi hunused hfree hmax => exact ⟨hi, rfl⟩
  | slot i hi hn hslot => exact absurd hop (by cases hslot <;> dsimp only <;> decide)

/-- **Every move keeps the one generation.** -/
theorem OneGeneration.move (h : OneGeneration base s) {who : Option LcActor}
    (hm : SpMove s who s') : OneGeneration base s' := by
  cases hm with
  | fail =>
    exact ⟨h.slots, h.generation.frame (fun _ => ⟨Iff.rfl, Iff.rfl⟩) rfl
      ⟨[.stop 1, .stop 2], by simp [spFail], rfl⟩⟩
  | fault child =>
    exact ⟨h.slots, h.generation.frame (fun _ => ⟨Iff.rfl, Iff.rfl⟩) rfl
      ⟨[], (List.append_nil _).symm, rfl⟩⟩
  | told stops hs =>
    exact ⟨h.slots, h.generation.frame (fun _ => ⟨Iff.rfl, Iff.rfl⟩) rfl
      ⟨[], (List.append_nil _).symm, rfl⟩⟩
  | poll word =>
    exact ⟨fun i => ((h.slots i).contained _ i).1, h.generation.frame
      (fun i => ((h.slots i).contained _ i).2) rfl ⟨[], (List.append_nil _).symm, rfl⟩⟩
  | stop i hc h0 =>
    have hslot : ∀ j, ((s.stopped i).control.life.slots j).Undrained ∧
        ((s.stopped i).control.life.slots j).state = (s.control.life.slots j).state := by
      intro j
      by_cases hj : j = i
      · have hold := h.slots i
        rw [hj, (stopped_slots s i).1, hold.confirmedStop]
        exact ⟨⟨hold.drained, hold.ticket, hold.once, hold.kept⟩, rfl⟩
      · rw [(stopped_slots s i).2 j hj]
        exact ⟨h.slots j, rfl⟩
    refine ⟨fun j => (hslot j).1, h.generation.frame (fun j => ?_) rfl ⟨[.stop (i.val + 1)], rfl, rfl⟩⟩
    rw [LcSlot.occupied_iff, LcSlot.occupied_iff, (hslot j).2]
    exact ⟨Iff.rfl, Iff.rfl⟩
  | @event actor e b v life' hs hop =>
    obtain ⟨t, ht, -, rfl⟩ := hs.slotStep (by rcases hop with h | h | h <;> rw [h] <;> decide)
    have hold := h.slots (slotIx e.slot)
    obtain ⟨hnew, hused, hwas⟩ := hold.event ht hop
    have hslot : ∀ j, ((s.control.life.set e.slot t).slots j).Undrained ∧
        (((s.control.life.set e.slot t).slots j).occupied = true ↔
          (s.control.life.slots j).occupied = true) ∧
        (((s.control.life.set e.slot t).slots j).state = LcState.unused ↔
          (s.control.life.slots j).state = LcState.unused) := by
      intro j
      by_cases hj : j = slotIx e.slot
      · rw [hj, Lifecycle.set_slots_self]
        exact ⟨hnew, iff_of_true hused hwas, iff_of_false ((LcSlot.occupied_iff t).mp hused).1
          ((LcSlot.occupied_iff _).mp hwas).1⟩
      · rw [Lifecycle.set_slots_of_ne _ hj]
        exact ⟨h.slots j, Iff.rfl, Iff.rfl⟩
    exact ⟨fun j => (hslot j).1, h.generation.frame (fun j => (hslot j).2) rfl
      ⟨[], (List.append_nil _).symm, rfl⟩⟩
  | @reserve slot v life' hs =>
    obtain ⟨hi, rfl⟩ := hs.reserves rfl
    -- a slot in use, even one that closed, blocks the reservation
    have hfree := hs.free rfl
    dsimp only at hi
    cases h.generation with
    | one j hj _ _ _ =>
      rw [hfree j] at hj
      cases hj
    | none hall hlast hcalls =>
      set t : LcSlot := { s.control.life.at slot with
        incarnation := s.control.life.lastIncarnation + 1, state := LcState.starting } with ht
      have hold := h.slots (slotIx slot)
      have hocc : t.occupied = true := (LcSlot.occupied_iff t).mpr ⟨by simp [ht], by simp [ht]⟩
      have hix : (slotIx slot).val = slot.toNat := slotIx_val hi
      refine ⟨fun j => ?_, .one (slotIx slot) ?_ (fun j hj => ?_) ?_ ?_⟩
      · by_cases hj : j = slotIx slot
        · rw [hj]
          rw [Lifecycle.set_slots_self]
          exact ⟨hold.drained, hold.ticket, hold.once, Or.inr hocc⟩
        · rw [Lifecycle.set_slots_of_ne _ hj]
          exact h.slots j
      · rw [Lifecycle.set_slots_self]
        exact hocc
      · rw [Lifecycle.set_slots_of_ne _ hj]
        exact hall j
      · change s.control.life.lastIncarnation + 1 = 1
        rw [hlast]
        rfl
      · obtain ⟨later, hl, hr⟩ := hcalls
        refine ⟨later ++ [.resume (slot.toNat + 1)], ?_, ?_⟩
        · change s.children.calls ++ _ = _
          rw [hl, List.append_assoc]
        · rw [List.filterMap_append, hr, hix]
          rfl

end

/-! ### Runs -/

/-- The supervisor in its `init`, both children stopped and no word taken yet. -/
def ReductionSupervisor.started (receipt : UInt64) (c : Children) : ReductionSupervisor :=
  { ReductionSupervisor.loaded receipt c with ready := true, children := (c.stop 1).stop 2 }

theorem spOk_started (receipt : UInt64) (c : Children) : SpOk (.started receipt c) where
  ready := rfl
  rdOk := (rdValid_iff Reduction.zero).mp (by decide)
  running i hi := by
    obtain ⟨h2, hi⟩ := (Children.stop_running _ _ _).mp hi
    obtain ⟨h1, -⟩ := (Children.stop_running _ _ _).mp hi
    omega
  sampled _ hw := by cases hw

theorem oneGeneration_started (receipt : UInt64) (c : Children) :
    OneGeneration c.calls (.started receipt c) where
  slots _ := ⟨rfl, rfl, Or.inl rfl, Or.inl rfl⟩
  generation := .none (fun _ => rfl) rfl
    ⟨[.stop 1, .stop 2], by simp [ReductionSupervisor.started], rfl⟩

/-- What the receipt page has come to name since it held `first` is a slot whose stop is recorded. -/
def Receipted (first : UInt64) (s : ReductionSupervisor) : Prop :=
  ∀ k < 64, Word.hasBit first k = false → Word.hasBit s.receipt k = true →
    ∃ i : Fin 2, i.val = k ∧ (s.control.life.slots i).stopped ≠ 0

/-- What takes back no recorded stop and tells nothing. -/
theorem Receipted.frame {first : UInt64} {s s' : ReductionSupervisor} (h : Receipted first s)
    (hr : s'.receipt = s.receipt) (hs : ∀ i, (s.control.life.slots i).stopped ≠ 0 →
      (s'.control.life.slots i).stopped ≠ 0) : Receipted first s' := by
  intro k hk h0 hb
  rw [hr] at hb
  obtain ⟨i, rfl, hi⟩ := h k hk h0 hb
  exact ⟨i, rfl, hs i hi⟩

theorem Receipted.move {first : UInt64} {s s' : ReductionSupervisor} {who : Option LcActor}
    (h : Receipted first s) (hm : SpMove s who s') : Receipted first s' := by
  have hset : ∀ slot (t : LcSlot), t.stopped = (s.control.life.at slot).stopped → ∀ i,
      (s.control.life.slots i).stopped ≠ 0 → ((s.control.life.set slot t).slots i).stopped ≠ 0 := by
    intro slot t ht i hi
    by_cases he : i = slotIx slot
    · rw [he] at hi ⊢
      rwa [Lifecycle.set_slots_self, ht]
    · rwa [Lifecycle.set_slots_of_ne _ he]
  cases hm with
  | fail => exact h.frame rfl fun _ hi => hi
  | fault child => exact h.frame rfl fun _ hi => hi
  | poll word =>
    refine h.frame rfl fun i hi => ?_
    change ((s.control.life.slots i).contained _ i).stopped ≠ 0
    rwa [LcSlot.contained_fields]
  | stop j hc h0 =>
    refine h.frame rfl fun i hi => ?_
    by_cases he : i = j
    · rw [he, (stopped_slots s j).1]
      simp [LcSlot.confirmedStop]
    · rwa [(stopped_slots s j).2 i he]
  | told stops hs =>
    intro k hk h0 hb
    rw [Word.hasBit_or _ _ hk, Bool.or_eq_true] at hb
    exact hb.elim (h k hk h0) (hs k hk)
  | @event actor e b v life' hs hop =>
    obtain ⟨t, ht, -, rfl⟩ := hs.slotStep (by rcases hop with h | h | h <;> rw [h] <;> decide)
    refine h.frame rfl (hset e.slot t ?_)
    generalize e.op = op, e.sequence = sequence at ht hop
    cases ht <;> first | rfl | simp at hop
  | @reserve slot v life' hs =>
    obtain ⟨-, rfl⟩ := hs.reserves rfl
    exact h.frame rfl (hset slot _ rfl)

/-- What holds at the end of every callback. -/
structure Supervised (base : List ChildCall) (s : ReductionSupervisor) : Prop where
  spOk : SpOk s
  settled : Settled s
  one : OneGeneration base s

theorem OneGeneration.moves {base : List ChildCall} {may : LcActor → Prop}
    {s s' : ReductionSupervisor} (h : OneGeneration base s) (hm : SpMoves may s s') :
    OneGeneration base s' :=
  hm.keeps (fun _ _ _ hmove _ hs => hs.move hmove) h

theorem Supervised.call {base : List ChildCall} {s : ReductionSupervisor} (h : Supervised base s)
    (x : SpCall) : Supervised base (spCall s x).1 := by
  have hserved := served_call h.spOk h.settled x
  exact ⟨hserved.spOk, hserved.settled, h.one.moves (spCall_moves h.spOk x)⟩

theorem supervised_init (receipt first : UInt64) (c : Children) :
    Supervised c.calls (spInit first (ReductionSupervisor.loaded receipt c)) := by
  obtain ⟨hok, hset, -⟩ := served_init receipt first c
  exact ⟨hok, hset, (oneGeneration_started receipt c).moves
    (spSync_moves (fun _ => True) (spOk_started receipt c) false first)⟩

theorem receipted_run (receipt first : UInt64) (c : Children) (xs : List SpCall) :
    Receipted receipt (Run.final spCall (spInit first (ReductionSupervisor.loaded receipt c)) xs) := by
  have hmoves : ∀ {may : LcActor → Prop} {s s' : ReductionSupervisor}, SpMoves may s s' →
      Receipted receipt s → Receipted receipt s' :=
    fun hm hs => hm.keeps (fun _ _ _ hmove _ h => h.move hmove) hs
  have hstart : Receipted receipt (.started receipt c) := fun k _ h0 hb =>
    absurd (h0.symm.trans hb) Bool.false_ne_true
  refine (Run.final_induct (P := fun s => Supervised c.calls s ∧ Receipted receipt s)
    ⟨supervised_init receipt first c, ?_⟩ (fun s x hs => ?_) xs).2
  · exact hmoves (spSync_moves (fun _ => True) (spOk_started receipt c) false first) hstart
  · exact ⟨hs.1.call x, hmoves (spCall_moves hs.1.spOk x) hs.2⟩

/-- A slot whose stop is recorded closes for good, for it is not drained, and its child is off. -/
theorem Supervised.stopped_closing {base : List ChildCall} {s : ReductionSupervisor}
    (h : Supervised base s) {i : Fin 2} (hs : (s.control.life.slots i).stopped ≠ 0) :
    (s.control.life.slots i).state = LcState.closing ∧ (s.control.life.slots i).stopped = 1 ∧
      s.children.running (i.val + 1) = false := by
  have hslot := h.spOk.rdOk.lcOk.slots i
  have hle := hslot.state
  have hone := hslot.stopped
  have hlive : ¬ (s.control.life.slots i).state < LcState.closing := fun hc => hs (hslot.live hc).1
  have hretired : (s.control.life.slots i).state ≠ LcState.retired := fun hc =>
    (hslot.retired hc).2.1 (h.one.slots i).drained
  have hoff : (s.control.life.slots i).live = false := by
    rw [Bool.eq_false_iff, Ne, LcSlot.live_iff]
    rintro ⟨-, hactive⟩
    exact hlive (by grind)
  refine ⟨by grind, by grind, Bool.eq_false_iff.mpr fun hrun => ?_⟩
  obtain ⟨-, hl | hc⟩ := h.spOk.running i hrun
  · exact Bool.false_ne_true (hoff.symm.trans hl)
  · exact hs hc.2

/-- **One generation.** In every run of the containment supervisor, whatever it is called for and
whatever the mailbox holds: at most one child is ever resumed, and once; no more than one incarnation
is given out; no slot is drained or retired, and a ticket that begins is the first of its slot and
stays out. So a worker that was stopped is not replaced. Each of the 64 bits that comes on in the
receipt page names a slot, one that is closing, whose stop is recorded and whose child does not
run. -/
theorem contained_once (receipt first : UInt64) (c : Children) (xs : List SpCall) :
    let s := Run.final spCall (spInit first (ReductionSupervisor.loaded receipt c)) xs
    (∃ later, s.children.calls = c.calls ++ later ∧ (later.filterMap resumed).length ≤ 1) ∧
    s.control.life.lastIncarnation ≤ 1 ∧
    (∀ i j, (s.control.life.slots i).state ≠ LcState.unused →
      (s.control.life.slots j).state ≠ LcState.unused → i = j) ∧
    (∀ i, (s.control.life.slots i).drained = 0 ∧ (s.control.life.slots i).state ≠ LcState.retired ∧
      (s.control.life.slots i).issued = (s.control.life.slots i).pending ∧
      (s.control.life.slots i).pending ≤ 1) ∧
    ∀ k < 64, Word.hasBit receipt k = false → Word.hasBit s.receipt k = true →
      ∃ i : Fin 2, i.val = k ∧ (s.control.life.slots i).state = LcState.closing ∧
        (s.control.life.slots i).stopped = 1 ∧ s.children.running (i.val + 1) = false := by
  intro s
  have h : Supervised c.calls s := Run.final_induct (supervised_init receipt first c)
    (fun _ x hs => hs.call x) xs
  have hslots : ∀ i, (s.control.life.slots i).drained = 0 ∧
      (s.control.life.slots i).state ≠ LcState.retired ∧
      (s.control.life.slots i).issued = (s.control.life.slots i).pending ∧
      (s.control.life.slots i).pending ≤ 1 := by
    intro i
    obtain ⟨hdrained, hticket, honce, hkept⟩ := h.one.slots i
    refine ⟨hdrained, ?_, hticket, ?_⟩
    · rcases hkept with hu | hocc
      · rw [hu]
        decide
      · exact ((LcSlot.occupied_iff _).mp hocc).2
    · rcases honce with h0 | h1
      · rw [h0]
        decide
      · rw [h1]
        decide
  have hreceipt : ∀ k < 64, Word.hasBit receipt k = false → Word.hasBit s.receipt k = true →
      ∃ i : Fin 2, i.val = k ∧ (s.control.life.slots i).state = LcState.closing ∧
        (s.control.life.slots i).stopped = 1 ∧ s.children.running (i.val + 1) = false := by
    intro k hk h0 hb
    obtain ⟨i, rfl, hstopped⟩ := receipted_run receipt first c xs k hk h0 hb
    exact ⟨i, rfl, h.stopped_closing hstopped⟩
  refine ⟨?_, ?_, ?_, hslots, hreceipt⟩
  · cases h.one.generation with
    | none _ _ hcalls =>
      obtain ⟨later, hl, hr⟩ := hcalls
      exact ⟨later, hl, by simp [hr]⟩
    | one i _ _ _ hcalls =>
      obtain ⟨later, hl, hr⟩ := hcalls
      exact ⟨later, hl, by simp [hr]⟩
  · cases h.one.generation with
    | none _ hlast _ =>
      rw [hlast]
      decide
    | one i _ _ hlast _ =>
      rw [hlast]
      decide
  · intro i j hi hj
    cases h.one.generation with
    | none hunused _ _ => exact absurd (hunused i) hi
    | one k _ hother _ _ =>
      have hik : i = k := by_contra fun hne => hi (hother i hne)
      have hjk : j = k := by_contra fun hne => hj (hother j hne)
      rw [hik, hjk]

end Tcs
