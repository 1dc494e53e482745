/-
# Containment can always finish

A slot that is contained waits for two confirmations, `STOPPED` and `DRAINED`,
with its incarnation and the last ticket that it issued. While it waits no
other event is accepted at all (`Closing.confirms`): the slot is past all of
them, and the other one can not be used as long as this one is. So what the
confirmations have to name stays what it was at the containment
(`Closing.run`), and they meet in the same retired slot in either order.

Key definitions: `Confirms`, `Closing`, `Awaiting`, `LcSlot.finished`.
Key theorems: `Closing.confirms`, `Closing.run`, `stopped_second`,
`drained_second`, `containment_finishes`.
-/
import Tcs.LifecycleRun
import Tcs.Reduction

namespace Tcs

open LcEntry

/-- An accepted confirmation of slot `i`. -/
def Confirms (i : UInt64) (e : LcEntry) : Prop :=
  ok e ∧ slot e = i ∧ (op e = LcOp.stopped ∨ op e = LcOp.drained)

/-- Slot `i` is closing in a valid lifecycle. -/
structure Closing (life : Lifecycle) (i : UInt64) : Prop where
  valid : lcValid life = true
  slot : i < slotCount
  state : (life.at i).state = LcState.closing

theorem LcSlot.occupied_iff (s : LcSlot) :
    s.occupied = true ↔ s.state ≠ LcState.unused ∧ s.state ≠ LcState.retired := by
  simp only [LcSlot.occupied, decide_eq_true_eq]

/-- A closing slot's lifecycle takes nothing but the slot's confirmations: the slot is past every
other event, and the other slot is not in use and can not be reserved. -/
theorem Closing.confirms {life life' : Lifecycle} {i : UInt64} (h : Closing life i)
    {actor : LcActor} {e : LcEvent} {b : Bool} {v : UInt64} (hstep : LcStep life actor e b v life') :
    e.slot = i ∧ (e.op = LcOp.stopped ∨ e.op = LcOp.drained) := by
  have hstate := h.state
  have hocc : (life.slots (slotIx i)).occupied = true := by
    rw [LcSlot.occupied_iff]
    show (life.at i).state ≠ _ ∧ (life.at i).state ≠ _
    rw [hstate]
    decide
  cases hstep with
  | reserve j hj hs hfree hm =>
    rw [hfree (slotIx i)] at hocc
    cases hocc
  | slot j hj hn hs =>
    obtain rfl : j = i :=
      slotIx_inj hj h.slot (((lcValid_iff _).mp h.valid).alone _ _ hs.occupied hocc)
    refine ⟨rfl, ?_⟩
    cases hs with
    | stopped b hs h0 => exact Or.inl rfl
    | drained b hs h0 => exact Or.inr rfl
    | started b hs => exact absurd (hstate.symm.trans hs) (by decide)
    | activate hs => exact absurd (hstate.symm.trans hs) (by decide)
    | begin b hs hp hm => exact absurd (hstate.symm.trans hs) (by decide)
    | complete b hs hp => exact absurd (hstate.symm.trans hs) (by decide)
    | contain b actor hs ha =>
      rw [hstate] at hs
      exact absurd hs.2 (by decide)

/-- **What waits is not changed.** -/
theorem Closing.unchanged {life : Lifecycle} {i : UInt64} (h : Closing life i) (x : LcCall)
    (hx : ¬ Confirms i (Run.entry lcCall life x)) : (lcCall life x).1 = life := by
  by_cases hok : (lcApply life x.actor x.event x.auditOk).1.status = LcStatus.ok
  · exact absurd ⟨hok, h.confirms (lcStep_of_ok hok).2⟩ hx
  · exact (lcApply_of_ne hok).2

theorem Closing.run {life : Lifecycle} {i : UInt64} (h : Closing life i) {xs : List LcCall}
    (hx : ∀ e ∈ Run.trace lcCall life xs, ¬ Confirms i e) : Run.final lcCall life xs = life := by
  induction xs with
  | nil => rfl
  | cons x xs ih =>
    have hsame := h.unchanged x (hx _ List.mem_cons_self)
    have htail : ∀ e ∈ Run.trace lcCall life xs, ¬ Confirms i e := by
      intro e he
      refine hx e (List.mem_cons_of_mem _ ?_)
      rw [hsame]
      exact he
    show Run.final lcCall (lcCall life x).1 xs = life
    rw [hsame]
    exact ih htail

/-! ### The containment and the confirmations -/

/-- Slot `i` is closing, and no confirmation of it is in yet. -/
structure Awaiting (life : Lifecycle) (i : UInt64) : Prop extends Closing life i where
  incarnation : (life.at i).incarnation ≠ 0
  stopped : (life.at i).stopped = 0
  drained : (life.at i).drained = 0

/-- The slot after its containment. -/
def LcSlot.closing (s : LcSlot) : LcSlot := { s with state := LcState.closing }

/-- The slot after both confirmations. -/
def LcSlot.finished (s : LcSlot) : LcSlot :=
  { s with state := LcState.retired, pending := 0, stopped := 1, drained := 1 }

section

variable {life : Lifecycle} {i : UInt64}

theorem lcApply_slotStep (hv : lcValid life = true) (hi : i < slotCount)
    (hn : (life.at i).incarnation ≠ 0) {actor : LcActor} {op sequence value : UInt64} {b : Bool}
    {s' : LcSlot} (hs : SlotStep (life.at i) actor op sequence b value s') :
    lcApply life actor ⟨op, i, (life.at i).incarnation, sequence⟩ b =
      (⟨LcStatus.ok, value⟩, life.set i s') :=
  lcApply_ok_iff.mpr ⟨hv, .slot i hi hn hs⟩

theorem lcValid_of_ok {life' : Lifecycle} {actor : LcActor} {e : LcEvent} {b : Bool} {v : UInt64}
    (h : lcApply life actor e b = (⟨LcStatus.ok, v⟩, life')) : lcValid life' = true := by
  obtain ⟨hv, hs⟩ := lcApply_ok_iff.mp h
  exact (lcValid_iff _).mpr (hs.lcOk ((lcValid_iff _).mp hv))

/-- A slot in use is not zeroed, and has no confirmation yet. -/
theorem live_facts (hv : lcValid life = true) (hlive : (life.at i).live = true) :
    (life.at i).incarnation ≠ 0 ∧ (life.at i).stopped = 0 ∧ (life.at i).drained = 0 := by
  have hl := (LcSlot.live_iff _).mp hlive
  have hs := ((lcValid_iff _).mp hv).slots (slotIx i)
  have hused : (life.at i).state ≠ LcState.unused := by
    intro h
    rw [h] at hl
    exact absurd hl.1 (by decide)
  obtain ⟨h1, h2⟩ := hs.live (UInt64.lt_of_le_of_lt hl.2 (by decide))
  exact ⟨(hs.incarnation hused).1, h1, h2⟩

/-- **Containment** of a slot in use succeeds, with or without audit. -/
theorem contain_live (hv : lcValid life = true) (hi : i < slotCount)
    (hlive : (life.at i).live = true) {actor : LcActor}
    (ha : actor = .admin ∨ actor = .supervisor ∨ actor = .detector) (b : Bool) :
    lcApply life actor ⟨LcOp.contain, i, (life.at i).incarnation, 0⟩ b =
      (⟨LcStatus.ok, (life.at i).incarnation⟩, life.set i (life.at i).closing) ∧
      Awaiting (life.set i (life.at i).closing) i := by
  obtain ⟨hn, h0, h1⟩ := live_facts hv hlive
  have hcontain := lcApply_slotStep hv hi hn (.contain b actor ((LcSlot.live_iff _).mp hlive) ha)
  have hat : (life.set i (life.at i).closing).at i = (life.at i).closing := Lifecycle.at_set _ _ _
  refine ⟨hcontain, ⟨lcValid_of_ok hcontain, hi, ?_⟩, ?_, ?_, ?_⟩
  all_goals rw [hat]
  · rfl
  · exact hn
  · exact h0
  · exact h1

theorem stopped_first (h : Awaiting life i) (b : Bool) :
    lcApply life .supervisor
        ⟨LcOp.stopped, i, (life.at i).incarnation, (life.at i).issued⟩ b =
      (⟨LcStatus.ok, (life.at i).incarnation⟩, life.set i { life.at i with stopped := 1 }) := by
  rw [lcApply_slotStep h.valid h.slot h.incarnation (.stopped b h.state h.stopped),
    if_neg (not_not.mpr h.drained)]

theorem drained_first (h : Awaiting life i) (b : Bool) :
    lcApply life .broker ⟨LcOp.drained, i, (life.at i).incarnation, (life.at i).issued⟩ b =
      (⟨LcStatus.ok, (life.at i).incarnation⟩,
        life.set i { life.at i with drained := 1, pending := 0 }) := by
  rw [lcApply_slotStep h.valid h.slot h.incarnation (.drained b h.state h.drained),
    if_neg (not_not.mpr h.stopped)]

theorem lcApply_set {s s' : LcSlot} (hv : lcValid (life.set i s) = true) (hi : i < slotCount)
    (hn : s.incarnation ≠ 0) {actor : LcActor} {op sequence value : UInt64} {b : Bool}
    (hs : SlotStep s actor op sequence b value s') :
    lcApply (life.set i s) actor ⟨op, i, s.incarnation, sequence⟩ b =
      (⟨LcStatus.ok, value⟩, life.set i s') := by
  have hat := Lifecycle.at_set life i s
  have hok := lcApply_slotStep hv hi (by rw [hat]; exact hn) (by rw [hat]; exact hs)
  rw [hat, Lifecycle.set_set] at hok
  exact hok

/-- The supervisor's confirmation behind the other one. -/
theorem stopped_second (h : Awaiting life i) (b b' : Bool) :
    lcApply (lcApply life .broker
        ⟨LcOp.drained, i, (life.at i).incarnation, (life.at i).issued⟩ b').2 .supervisor
        ⟨LcOp.stopped, i, (life.at i).incarnation, (life.at i).issued⟩ b =
      (⟨LcStatus.ok, (life.at i).incarnation⟩, life.set i (life.at i).finished) := by
  have hfirst := drained_first h b'
  rw [hfirst]
  exact lcApply_set (s := { life.at i with drained := 1, pending := 0 }) (lcValid_of_ok hfirst)
    h.slot h.incarnation (.stopped b h.state h.stopped)

/-- The broker's confirmation behind the other one. -/
theorem drained_second (h : Awaiting life i) (b b' : Bool) :
    lcApply (lcApply life .supervisor
        ⟨LcOp.stopped, i, (life.at i).incarnation, (life.at i).issued⟩ b').2 .broker
        ⟨LcOp.drained, i, (life.at i).incarnation, (life.at i).issued⟩ b =
      (⟨LcStatus.ok, (life.at i).incarnation⟩, life.set i (life.at i).finished) := by
  have hfirst := stopped_first h b'
  rw [hfirst]
  exact lcApply_set (s := { life.at i with stopped := 1 }) (lcValid_of_ok hfirst) h.slot
    h.incarnation (.drained b h.state h.drained)

theorem slot_eq_of_ne {a b c : Fin 2} (hb : b ≠ a) (hc : c ≠ a) : b = c := by
  revert a b c
  decide

/-- Behind both confirmations the other slot can be reserved, as long as there is an incarnation
for it. -/
theorem reserve_after (h : Closing life i) (hvalid : lcValid (life.set i (life.at i).finished) = true)
    {j : UInt64} (hj : j < slotCount) (hne : j ≠ i) (hunused : (life.at j).state = LcState.unused)
    (hmax : life.lastIncarnation ≠ Word.max) :
    (lcApply (life.set i (life.at i).finished) .admin ⟨LcOp.reserve, j, 0, 0⟩ true).1.status =
      LcStatus.ok := by
  have hfree : ∀ k, ((life.set i (life.at i).finished).slots k).occupied = false := by
    intro k
    rw [← Bool.not_eq_true, LcSlot.occupied_iff]
    rintro ⟨h1, h2⟩
    by_cases hk : k = slotIx i
    · subst hk
      rw [Lifecycle.set_slots_self] at h2
      exact h2 rfl
    · -- there are two slots, so `k` is the unused one
      obtain rfl : k = slotIx j := slot_eq_of_ne hk fun he => hne (slotIx_inj hj h.slot he)
      rw [Lifecycle.set_slots_of_ne _ hk] at h1
      exact h1 hunused
  have hstate : ((life.set i (life.at i).finished).at j).state = LcState.unused := by
    rw [Lifecycle.at_set_ne _ h.slot hj hne]
    exact hunused
  have hok := lcApply_ok_iff.mpr ⟨hvalid, LcStep.reserve j hj hstate hfree hmax⟩
  rw [hok]

end

/-- **Containment can always finish.** A slot in use is contained without audit; whatever is called
afterwards, short of a confirmation of the slot, both confirmations succeed without audit in either
order and retire the slot, and the other slot can be reserved unless it or the incarnations are used
up. -/
theorem containment_finishes {life : Lifecycle} (hv : lcValid life = true) {i : UInt64}
    (hi : i < slotCount) (hlive : (life.at i).live = true) {actor : LcActor}
    (ha : actor = .admin ∨ actor = .supervisor ∨ actor = .detector) :
    let inc := (life.at i).incarnation
    let contained := lcApply life actor ⟨LcOp.contain, i, inc, 0⟩ false
    contained.1.status = LcStatus.ok ∧
      ∀ xs : List LcCall, (∀ e ∈ Run.trace lcCall contained.2 xs, ¬ Confirms i e) →
        let waiting := Run.final lcCall contained.2 xs
        let issued := (waiting.at i).issued
        let stopped := lcApply waiting .supervisor ⟨LcOp.stopped, i, inc, issued⟩ false
        let stoppedDrained := lcApply stopped.2 .broker ⟨LcOp.drained, i, inc, issued⟩ false
        let drained := lcApply waiting .broker ⟨LcOp.drained, i, inc, issued⟩ false
        let drainedStopped := lcApply drained.2 .supervisor ⟨LcOp.stopped, i, inc, issued⟩ false
        issued = (life.at i).issued ∧
          stopped.1.status = LcStatus.ok ∧ stoppedDrained.1.status = LcStatus.ok ∧
          drained.1.status = LcStatus.ok ∧ drainedStopped.1.status = LcStatus.ok ∧
          stoppedDrained.2 = drainedStopped.2 ∧
          (stoppedDrained.2.at i).state = LcState.retired ∧ (stoppedDrained.2.at i).pending = 0 ∧
          ∀ j < slotCount, j ≠ i → (stoppedDrained.2.at j).state = LcState.unused →
            stoppedDrained.2.lastIncarnation ≠ Word.max →
            (lcApply stoppedDrained.2 .admin ⟨LcOp.reserve, j, 0, 0⟩ true).1.status =
              LcStatus.ok := by
  obtain ⟨hcontain, hwaiting⟩ := contain_live hv hi hlive ha false
  have hat : (life.set i (life.at i).closing).at i = (life.at i).closing := Lifecycle.at_set _ _ _
  have hinc : ((life.set i (life.at i).closing).at i).incarnation = (life.at i).incarnation := by
    rw [hat]
    rfl
  have hstop := stopped_first hwaiting false
  have hdrain := drained_first hwaiting false
  have hstopDrain := drained_second hwaiting false false
  have hdrainStop := stopped_second hwaiting false false
  rw [hinc] at hstop hdrain hstopDrain hdrainStop
  dsimp only
  rw [hcontain]
  refine ⟨rfl, fun xs hxs => ?_⟩
  rw [hwaiting.toClosing.run hxs]
  refine ⟨by rw [hat]; rfl, by rw [hstop], by rw [hstopDrain], by rw [hdrain], by rw [hdrainStop],
    by rw [hstopDrain, hdrainStop], ?_, ?_, fun j hj hne hunused hmax => ?_⟩
  · rw [hstopDrain, Lifecycle.at_set]
    rfl
  · rw [hstopDrain, Lifecycle.at_set]
    rfl
  · have hvalid := lcValid_of_ok hstopDrain
    rw [hstopDrain] at hunused hmax ⊢
    refine reserve_after hwaiting.toClosing hvalid hj hne ?_ hmax
    rw [Lifecycle.at_set_ne _ hi hj hne] at hunused
    exact hunused

/-- An active slot whose counters are used up. -/
def exhausted : Lifecycle :=
  ⟨Word.max, (Lifecycle.zero.set 0 ⟨LcState.active, Word.max, Word.max, Word.max, 0, 0⟩).slots⟩

theorem containment_finishes_exhausted :
    (lcApply exhausted .detector ⟨LcOp.contain, 0, Word.max, 0⟩ false).1.status = LcStatus.ok :=
  (containment_finishes (by decide : lcValid exhausted = true) (i := 0) (by decide) (by decide)
    (Or.inr (Or.inr rfl))).1

end Tcs
