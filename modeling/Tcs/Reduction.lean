/-
# The reduction latch

`include/tcs/reduction.h` and `lib/reduction.c`: the lifecycle behind a
latch of two inhibit bits. Every call first takes a sample of the request
word (`rdPoll`): its bits are latched, a bit the word must not have latches
both and the input fault, and a slot that is inhibited and in use is
contained by the detector. An event then reaches the lifecycle unless it
would reserve or activate an inhibited slot.

The loop that contains runs `tcs_lc_apply` and stops at the first failure.
On a valid control no failure is possible, so the poll is the function
`observe` (`rdPoll_eq`), and what it keeps is read off that.

Key definitions: `rdValid`, `rdPoll`, `rdApply`, `RdOk`,
`Reduction.observe`, `LatchKept`, `rdCall`.
Key theorems: `rdValid_iff`, `rdPoll_eq`, `RdOk.observe`, `rdApply_eq`,
`reduction_latch_invariant`.
-/
import Tcs.Lifecycle
import Tcs.Lib.Run

namespace Tcs

/-! ### The data model -/

/-- `TCS_RD_ALL`. -/
@[simp] abbrev rdAll : UInt64 := 3

/-- `struct tcs_reduction`. -/
structure Reduction where
  life : Lifecycle
  inhibited : UInt64
  inputFault : UInt64
  deriving DecidableEq

/-- `enum tcs_rd_poll_status`. -/
inductive RdPollStatus
  | ok
  | malformed
  | invalidState
  deriving DecidableEq, Repr

/-- The zeroed control. -/
def Reduction.zero : Reduction := ⟨Lifecycle.zero, 0, 0⟩

/-- In use and not contained: `STARTING`, `READY` or `ACTIVE`. -/
def LcSlot.live (s : LcSlot) : Bool := s.state ≥ LcState.starting ∧ s.state ≤ LcState.active

/-! ### The operations -/

/-- `tcs_rd_valid`. -/
def rdValid (control : Reduction) : Bool :=
  if !lcValid control.life ∨ control.inhibited &&& ~~~rdAll ≠ 0 ∨ control.inputFault > 1 ∨
      (control.inputFault ≠ 0 ∧ control.inhibited ≠ rdAll) then false
  else
    (List.finRange 2).all fun i =>
      !(Word.hasBit control.inhibited i ∧ (control.life.slots i).live)

/-- A request word with a bit outside the mask. -/
def malformed (sample : UInt64) : Bool := sample &&& ~~~rdAll ≠ 0

/-- One turn of the loop of `tcs_rd_poll`: contain slot `i` if it is inhibited and in use. -/
def rdContain (inhibited : UInt64) (life : Lifecycle) (i : Fin 2) : Option Lifecycle :=
  if Word.hasBit inhibited i ∧ (life.slots i).live then
    let out := lcApply life .detector ⟨LcOp.contain, i.val.toUInt64, (life.slots i).incarnation, 0⟩
      false
    if out.1.status ≠ LcStatus.ok then none else some out.2
  else some life

/-- `tcs_rd_poll`: the status and the control it leaves. -/
def rdPoll (control : Reduction) (sample : UInt64) : RdPollStatus × Reduction :=
  if !rdValid control then (.invalidState, control)
  else
    let bad := malformed sample
    let inhibited := control.inhibited ||| if bad then rdAll else sample
    let inputFault := if bad then 1 else control.inputFault
    match (List.finRange 2).foldlM (rdContain inhibited) control.life with
    | none => (.invalidState, control)
    | some life => (if bad then .malformed else .ok, ⟨life, inhibited, inputFault⟩)

/-- `tcs_rd_apply`: the answer and the control it leaves. -/
def rdApply (control : Reduction) (sample : UInt64) (actor : LcActor) (e : LcEvent)
    (auditOk : Bool) : LcResult × Reduction :=
  let polled := rdPoll control sample
  if polled.1 = .invalidState then (⟨LcStatus.invalid, 0⟩, polled.2)
  else if e.slot < slotCount ∧ Word.hasBit polled.2.inhibited e.slot.toNat ∧
      (e.op = LcOp.reserve ∨ e.op = LcOp.activate) then (⟨LcStatus.denied, 0⟩, polled.2)
  else
    let out := lcApply polled.2.life actor e auditOk
    (out.1, { polled.2 with life := out.2 })

/-- `tcs_rd_stop_mask`. -/
def rdStopMask (control : Reduction) : UInt64 :=
  if !rdValid control then rdAll
  else
    (List.finRange 2).foldl (fun mask i =>
      if (control.life.slots i).state = LcState.closing ∧ (control.life.slots i).stopped = 0 then
        mask ||| (1 <<< i.val.toUInt64)
      else mask) 0

/-- `tcs_rd_allows`. -/
def rdAllows (control : Reduction) (slot incarnation : UInt64) : Bool :=
  rdValid control ∧ slot < slotCount ∧ ¬ Word.hasBit control.inhibited slot.toNat ∧
    lcAllows control.life slot incarnation

/-! ### What the structural check says -/

/-- A valid lifecycle under a latch of two bits, none of whose inhibited slots is in use. -/
structure RdOk (control : Reduction) : Prop where
  lcOk : LcOk control.life
  mask : control.inhibited ≤ rdAll
  fault : control.inputFault ≤ 1
  latched : control.inputFault ≠ 0 → control.inhibited = rdAll
  contained : ∀ i : Fin 2, Word.hasBit control.inhibited i = true →
    (control.life.slots i).live = false

theorem and_not_rdAll {w : UInt64} : w &&& ~~~rdAll = 0 ↔ w ≤ rdAll :=
  Word.and_not_mask (k := 2) rfl

theorem rdValid_iff (control : Reduction) : rdValid control = true ↔ RdOk control := by
  have hall : ((List.finRange 2).all fun i => !(Word.hasBit control.inhibited i ∧
      (control.life.slots i).live)) = true ↔ ∀ i : Fin 2, Word.hasBit control.inhibited i = true →
        (control.life.slots i).live = false := by
    simp only [List.all_eq_true, List.mem_finRange, forall_const, Bool.not_eq_true',
      decide_eq_false_iff_not, not_and, Bool.not_eq_true]
  unfold rdValid
  constructor
  · intro h
    split_ifs at h with h1
    simp only [not_or, not_and, not_not, Bool.not_eq_true', Bool.not_eq_false] at h1
    obtain ⟨h1, h2, h3, h4⟩ := h1
    exact ⟨(lcValid_iff _).mp h1, and_not_rdAll.mp h2, by grind, h4, hall.mp h⟩
  · rintro ⟨h1, h2, h3, h4, h5⟩
    have hv := (lcValid_iff _).mpr h1
    have hm := and_not_rdAll.mpr h2
    rw [if_neg, hall]
    · exact h5
    · rintro (h | h | h | ⟨h, h'⟩)
      · simp [hv] at h
      · exact h hm
      · exact UInt64.not_lt.mpr h3 h
      · exact h' (h4 h)

/-! ### The poll is a function of its sample -/

/-- The slot after a poll that left the mask `inhibited`. -/
def LcSlot.contained (inhibited : UInt64) (i : Fin 2) (s : LcSlot) : LcSlot :=
  if Word.hasBit inhibited i ∧ s.live then { s with state := LcState.closing } else s

/-- The lifecycle after a poll that left the mask `inhibited`. -/
def Lifecycle.contain (life : Lifecycle) (inhibited : UInt64) : Lifecycle :=
  { life with slots := fun i => (life.slots i).contained inhibited i }

/-- The mask after a sample. -/
def Reduction.latch (control : Reduction) (sample : UInt64) : UInt64 :=
  control.inhibited ||| if malformed sample then rdAll else sample

/-- What a valid control becomes when it takes a sample. -/
def Reduction.observe (control : Reduction) (sample : UInt64) : Reduction where
  life := control.life.contain (control.latch sample)
  inhibited := control.latch sample
  inputFault := if malformed sample then 1 else control.inputFault

theorem slotIx_toUInt64 (i : Fin 2) : slotIx i.val.toUInt64 = i := by
  revert i; decide

theorem toUInt64_lt (i : Fin 2) : i.val.toUInt64 < slotCount := by
  revert i; decide

theorem LcSlot.live_iff (s : LcSlot) :
    s.live = true ↔ LcState.starting ≤ s.state ∧ s.state ≤ LcState.active := by
  simp only [LcSlot.live, decide_eq_true_eq, ge_iff_le]

/-- One turn of the loop succeeds and keeps the invariant. -/
theorem rdContain_eq {life : Lifecycle} (h : LcOk life) (inhibited : UInt64) (i : Fin 2) :
    ∃ life', rdContain inhibited life i = some life' ∧ LcOk life' ∧
      life' = { life with
        slots := Function.update life.slots i ((life.slots i).contained inhibited i) } := by
  unfold rdContain LcSlot.contained
  split_ifs with hc
  · have hat : life.at i.val.toUInt64 = life.slots i := by rw [Lifecycle.at, slotIx_toUInt64]
    have hlive := (LcSlot.live_iff _).mp hc.2
    have hn : (life.at i.val.toUInt64).incarnation ≠ 0 := by
      rw [hat]
      exact ((h.slots i).incarnation (by grind)).1
    have hstep : LcStep life .detector ⟨LcOp.contain, i.val.toUInt64, _, 0⟩ false _ _ :=
      .slot i.val.toUInt64 (toUInt64_lt i) hn
        (.contain false .detector (by rw [hat]; exact hlive) (by simp))
    rw [hat] at hstep
    rw [lcApply_ok_iff.mpr ⟨(lcValid_iff _).mpr h, hstep⟩]
    refine ⟨_, by simp, hstep.lcOk h, ?_⟩
    simp [Lifecycle.set, slotIx_toUInt64]
  · exact ⟨life, rfl, h, by simp⟩

/-- The loop succeeds, contains every slot it has to and keeps the invariant. -/
theorem foldlM_rdContain {life : Lifecycle} (h : LcOk life) (inhibited : UInt64) :
    (List.finRange 2).foldlM (rdContain inhibited) life = some (life.contain inhibited) ∧
      LcOk (life.contain inhibited) := by
  obtain ⟨l₁, h1, hl₁, e₁⟩ := rdContain_eq h inhibited 0
  obtain ⟨l₂, h2, hl₂, e₂⟩ := rdContain_eq hl₁ inhibited 1
  have heq : l₂ = life.contain inhibited := by
    rw [e₂, e₁, Lifecycle.contain]
    congr 1
    funext i
    fin_cases i <;> simp
  rw [← heq]
  refine ⟨?_, hl₂⟩
  rw [show List.finRange 2 = [0, 1] from rfl]
  simp [List.foldlM, h1, h2]

/-- **A poll of a valid control does not fail.** -/
theorem rdPoll_eq {control : Reduction} (h : RdOk control) (sample : UInt64) :
    rdPoll control sample = (if malformed sample then .malformed else .ok, control.observe sample) := by
  have hv := (rdValid_iff _).mpr h
  rw [rdPoll, if_neg (by simp [hv])]
  simp only [(foldlM_rdContain h.lcOk (control.latch sample)).1,
    show (control.inhibited ||| if malformed sample then rdAll else sample) = control.latch sample
      from rfl]
  rfl

theorem rdPoll_ne_invalidState {control : Reduction} (h : RdOk control) (sample : UInt64) :
    (rdPoll control sample).1 ≠ .invalidState := by
  rw [rdPoll_eq h]
  dsimp only
  split_ifs <;> simp

/-! ### What a poll keeps -/

theorem eq_of_le_rdAll {w : UInt64} (h : w ≤ rdAll) : w = 0 ∨ w = 1 ∨ w = 2 ∨ w = 3 := by grind

theorem or_le_rdAll {a b : UInt64} (ha : a ≤ rdAll) (hb : b ≤ rdAll) : a ||| b ≤ rdAll := by
  rcases eq_of_le_rdAll ha with rfl | rfl | rfl | rfl <;>
    rcases eq_of_le_rdAll hb with rfl | rfl | rfl | rfl <;> decide

theorem rdAll_or {a b : UInt64} (ha : a ≤ rdAll) (hb : b = rdAll) : a ||| b = rdAll ∧ b ||| a = rdAll := by
  subst hb
  rcases eq_of_le_rdAll ha with rfl | rfl | rfl | rfl <;> decide

theorem malformed_eq_false {sample : UInt64} : malformed sample = false ↔ sample ≤ rdAll := by
  simp only [malformed, decide_eq_false_iff_not, not_not]
  exact and_not_rdAll

theorem latched_le (sample : UInt64) : (if malformed sample then rdAll else sample) ≤ rdAll := by
  split_ifs with hm
  · exact UInt64.le_refl _
  · exact malformed_eq_false.mp (by simpa using hm)

theorem hasBit_rdAll (i : Fin 2) : Word.hasBit rdAll i = true := by
  revert i; decide

/-- The latch keeps its bits and takes those of the sample. -/
theorem hasBit_latch (control : Reduction) (sample : UInt64) (i : Fin 2)
    (h : Word.hasBit control.inhibited i = true ∨ Word.hasBit sample i = true) :
    Word.hasBit (control.latch sample) i = true := by
  have hi : i.val < 64 := by have := i.isLt; omega
  rw [Reduction.latch, Word.hasBit_or _ _ hi, Bool.or_eq_true]
  refine h.imp_right fun hs => ?_
  split_ifs
  · exact hasBit_rdAll i
  · exact hs

theorem eq_rdAll {w : UInt64} (h : w ≤ rdAll) (hb : ∀ i : Fin 2, Word.hasBit w i = true) :
    w = rdAll := by
  rcases eq_of_le_rdAll h with rfl | rfl | rfl | rfl
  · exact absurd (hb 0) (by decide)
  · exact absurd (hb 1) (by decide)
  · exact absurd (hb 0) (by decide)
  · rfl

theorem LcSlot.contained_state_eq_unused {inhibited : UInt64} {i : Fin 2} {s : LcSlot} :
    (s.contained inhibited i).state = LcState.unused ↔ s.state = LcState.unused := by
  unfold LcSlot.contained
  split_ifs with hc
  · have := (LcSlot.live_iff s).mp hc.2
    exact iff_of_false (by simp) (by grind)
  · exact Iff.rfl

theorem LcSlot.contained_live {inhibited : UInt64} {i : Fin 2} {s : LcSlot}
    (h : Word.hasBit inhibited i = true) : (s.contained inhibited i).live = false := by
  unfold LcSlot.contained
  split_ifs with hc
  · rfl
  · simpa [h] using hc

theorem LcSlot.contained_of_not_live {inhibited : UInt64} {i : Fin 2} {s : LcSlot}
    (h : Word.hasBit inhibited i = true → s.live = false) : s.contained inhibited i = s := by
  unfold LcSlot.contained
  rw [if_neg]
  rintro ⟨h1, h2⟩
  simp [h h1] at h2

/-- **A poll keeps the invariant.** -/
theorem RdOk.observe {control : Reduction} (h : RdOk control) (sample : UInt64) :
    RdOk (control.observe sample) where
  lcOk := (foldlM_rdContain h.lcOk _).2
  mask := or_le_rdAll h.mask (latched_le sample)
  fault := by
    simp only [Reduction.observe]
    split_ifs
    · exact UInt64.le_refl _
    · exact h.fault
  latched hf := by
    simp only [Reduction.observe] at hf ⊢
    by_cases hm : malformed sample = true
    · exact (rdAll_or h.mask (by simp [hm])).1
    · rw [if_neg hm] at hf
      exact (rdAll_or (latched_le sample) (h.latched hf)).2
  contained i hi := LcSlot.contained_live hi

/-- A sample of no requests changes nothing. -/
theorem RdOk.observe_zero {control : Reduction} (h : RdOk control) : control.observe 0 = control := by
  have hm : malformed 0 = false := rfl
  have hl : control.latch 0 = control.inhibited := by simp [Reduction.latch, hm]
  have hc : control.life.contain control.inhibited = control.life := by
    rw [Lifecycle.contain]
    congr 1
    funext i
    exact LcSlot.contained_of_not_live (h.contained i)
  simp [Reduction.observe, hl, hc, hm]

/-! ### Events behind the latch -/

/-- A reservation or an activation of an inhibited slot. -/
def Reduction.denies (control : Reduction) (e : LcEvent) : Prop :=
  e.slot < slotCount ∧ Word.hasBit control.inhibited e.slot.toNat ∧
    (e.op = LcOp.reserve ∨ e.op = LcOp.activate)

instance (control : Reduction) (e : LcEvent) : Decidable (control.denies e) :=
  inferInstanceAs (Decidable (_ ∧ _ ∧ _))

/-- An event reaches the lifecycle that the poll left, unless the latch denies it. -/
theorem rdApply_eq {control : Reduction} (h : RdOk control) (sample : UInt64) (actor : LcActor)
    (e : LcEvent) (b : Bool) :
    rdApply control sample actor e b =
      if (control.observe sample).denies e then (⟨LcStatus.denied, 0⟩, control.observe sample)
      else ((lcApply (control.observe sample).life actor e b).1,
        { control.observe sample with life := (lcApply (control.observe sample).life actor e b).2 }) := by
  rw [rdApply, if_neg (rdPoll_ne_invalidState h sample), rdPoll_eq h]
  rfl

/-- A slot comes into use by a reservation only. -/
theorem LcStep.live {life life' : Lifecycle} {actor : LcActor} {e : LcEvent} {v : UInt64} {b : Bool}
    (h : LcStep life actor e b v life') {i : Fin 2} (h0 : (life.slots i).live = false)
    (h1 : (life'.slots i).live = true) : e.op = LcOp.reserve ∧ i = slotIx e.slot := by
  have hi : i = slotIx e.slot := by
    by_contra hne
    rw [(h.moves i).2 hne, h0] at h1
    cases h1
  refine ⟨?_, hi⟩
  subst hi
  cases h with
  | reserve i hi hs hfree hm => rfl
  | slot i hi hn hs =>
    rw [Lifecycle.set_slots_self] at h1
    change (life.at i).live = false at h0
    have h0' : ¬ (LcState.starting ≤ (life.at i).state ∧ (life.at i).state ≤ LcState.active) := by
      rw [← LcSlot.live_iff, h0]; simp
    have h1' := (LcSlot.live_iff _).mp h1
    exfalso
    cases hs <;> grind

theorem LcStep.unused_iff {life life' : Lifecycle} {actor : LcActor} {e : LcEvent} {v : UInt64}
    {b : Bool} (h : LcStep life actor e b v life') (i : Fin 2) :
    (life'.slots i).state = LcState.unused ↔
      (life.slots i).state = LcState.unused ∧ ¬ (e.op = LcOp.reserve ∧ i = slotIx e.slot) := by
  by_cases hi : i = slotIx e.slot
  · subst hi
    cases h with
    | reserve i hi hs hfree hm => simp
    | slot i hi hn hs =>
      have hocc : (life.slots (slotIx i)).occupied = true := hs.occupied
      simp only [LcSlot.occupied, decide_eq_true_eq] at hocc
      rw [Lifecycle.set_slots_self]
      refine iff_of_false (fun h0 => hocc.1 ?_) (fun h0 => hocc.1 h0.1)
      have hle := hs.moves.phase
      rw [h0] at hle
      exact UInt64.le_antisymm hle UInt64.zero_le
  · rw [(h.moves i).2 hi]
    simp [hi]

theorem RdOk.lcApply {control : Reduction} (h : RdOk control) {actor : LcActor} {e : LcEvent}
    {b : Bool} (hd : ¬ control.denies e) :
    RdOk { control with life := (lcApply control.life actor e b).2 } := by
  by_cases hok : (Tcs.lcApply control.life actor e b).1.status = LcStatus.ok
  · have hs := (lcStep_of_ok hok).2
    refine ⟨hs.lcOk h.lcOk, h.mask, h.fault, h.latched, fun i hi => ?_⟩
    by_contra hl
    obtain ⟨hop, rfl⟩ := hs.live (h.contained i hi) (by simpa using hl)
    have hlt := hs.guards.1
    exact hd ⟨hlt, by rwa [slotIx_val hlt] at hi, Or.inl hop⟩
  · rw [(lcApply_of_ne hok).2]
    exact h

theorem RdOk.rdApply {control : Reduction} (h : RdOk control) (sample : UInt64) (actor : LcActor)
    (e : LcEvent) (b : Bool) : RdOk (rdApply control sample actor e b).2 := by
  rw [rdApply_eq h]
  split_ifs with hd
  · exact h.observe sample
  · exact (h.observe sample).lcApply hd

/-! ### What a call keeps -/

section Calls

variable {control : Reduction} {sample : UInt64} {actor : LcActor} {e : LcEvent} {b : Bool} {i : Fin 2}

/-- A refused event leaves what the poll left, whether the control is valid or not. -/
theorem rdApply_of_ne (hne : (rdApply control sample actor e b).1.status ≠ LcStatus.ok) :
    (rdApply control sample actor e b).2 = (rdPoll control sample).2 := by
  unfold rdApply at hne ⊢
  dsimp only at hne ⊢
  split_ifs at hne ⊢ with h1 h2
  · rfl
  · rfl
  · rw [(lcApply_of_ne hne).2]

theorem rdApply_latch : (rdApply control sample actor e b).2.inhibited = (rdPoll control sample).2.inhibited ∧
    (rdApply control sample actor e b).2.inputFault = (rdPoll control sample).2.inputFault := by
  unfold rdApply
  dsimp only
  split_ifs <;> exact ⟨rfl, rfl⟩

/-- The inhibit bits and the input fault of `a` are those of `b` too. -/
structure LatchKept (a b : Reduction) : Prop where
  inhibited : ∀ i < 64, Word.hasBit a.inhibited i = true → Word.hasBit b.inhibited i = true
  inputFault : a.inputFault ≠ 0 → b.inputFault ≠ 0

theorem LatchKept.trans {a b c : Reduction} (h : LatchKept a b) (h' : LatchKept b c) :
    LatchKept a c where
  inhibited i hi := h'.inhibited i hi ∘ h.inhibited i hi
  inputFault := h'.inputFault ∘ h.inputFault

theorem latchKept_observe (control : Reduction) (sample : UInt64) :
    LatchKept control (control.observe sample) where
  inhibited i hi hb := by
    show Word.hasBit (control.inhibited ||| _) i = true
    rw [Word.hasBit_or _ _ hi, hb, Bool.true_or]
  inputFault hf := by
    show (if malformed sample then 1 else control.inputFault) ≠ 0
    split_ifs
    · decide
    · exact hf

theorem latchKept_rdPoll (control : Reduction) (sample : UInt64) :
    LatchKept control (rdPoll control sample).2 := by
  by_cases hv : rdValid control = true
  · rw [rdPoll_eq ((rdValid_iff _).mp hv)]
    exact latchKept_observe control sample
  · rw [rdPoll, if_pos (by simpa using hv)]
    exact ⟨fun _ _ h => h, id⟩

theorem latchKept_rdApply : LatchKept control (rdApply control sample actor e b).2 where
  inhibited := by
    rw [rdApply_latch.1]
    exact (latchKept_rdPoll control sample).inhibited
  inputFault := by
    rw [rdApply_latch.2]
    exact (latchKept_rdPoll control sample).inputFault

/-- An inhibited slot of a valid control is `UNUSED`, `CLOSING` or `RETIRED`. -/
theorem RdOk.phase (h : RdOk control) (hi : Word.hasBit control.inhibited i = true) :
    (control.life.slots i).state = LcState.unused ∨ (control.life.slots i).state = LcState.retired ∨
      (control.life.slots i).state = LcState.closing := by
  have hle := (h.lcOk.slots i).state
  have hlive := h.contained i hi
  unfold LcSlot.live at hlive
  simp only [decide_eq_false_iff_not, ge_iff_le, UInt64.le_iff_toNat_le] at hle hlive
  simp only [← UInt64.toNat_inj]
  change _ ≤ 5 at hle
  change ¬ (1 ≤ _ ∧ _ ≤ 3) at hlive
  change _ = 0 ∨ _ = 5 ∨ _ = 4
  omega

/-- The stop mask asks for every slot that is `CLOSING` without a recorded stop. -/
theorem RdOk.hasBit_rdStopMask (h : RdOk control)
    (hs : (control.life.slots i).state = LcState.closing) (h0 : (control.life.slots i).stopped = 0) :
    Word.hasBit (rdStopMask control) i = true := by
  have hv := (rdValid_iff _).mpr h
  unfold rdStopMask
  rw [if_neg (by simp [hv]), show List.finRange 2 = [0, 1] from rfl]
  simp only [List.foldl_cons, List.foldl_nil]
  fin_cases i
  · have hc : (control.life.slots 0).state = LcState.closing ∧ (control.life.slots 0).stopped = 0 :=
      ⟨hs, h0⟩
    rw [if_pos hc]
    split_ifs <;> decide
  · have hc : (control.life.slots 1).state = LcState.closing ∧ (control.life.slots 1).stopped = 0 :=
      ⟨hs, h0⟩
    rw [if_pos hc]
    split_ifs <;> decide

theorem LcSlot.contained_fields (inhibited : UInt64) (i : Fin 2) (s : LcSlot) :
    s.contained inhibited i = { s with state := (s.contained inhibited i).state } := by
  unfold LcSlot.contained
  split_ifs <;> rfl

end Calls

/-! ### Runs -/

/-- A call on the control. -/
inductive RdCall
  | poll (sample : UInt64)
  | apply (sample : UInt64) (actor : LcActor) (event : LcEvent) (auditOk : Bool)
  deriving DecidableEq, Repr

/-- What a call answers. -/
inductive RdReply
  | polled (status : RdPollStatus)
  | applied (result : LcResult)
  deriving DecidableEq, Repr

/-- One call on the control. -/
def rdCall (control : Reduction) : RdCall → Reduction × RdReply
  | .poll sample => ((rdPoll control sample).2, .polled (rdPoll control sample).1)
  | .apply sample actor event auditOk =>
    ((rdApply control sample actor event auditOk).2,
      .applied (rdApply control sample actor event auditOk).1)

theorem RdOk.rdPoll {control : Reduction} (h : RdOk control) (sample : UInt64) :
    RdOk (rdPoll control sample).2 := by
  rw [rdPoll_eq h]
  exact h.observe sample

theorem rdOk_call {control : Reduction} (h : RdOk control) (x : RdCall) : RdOk (rdCall control x).1 := by
  cases x with
  | poll sample => exact h.rdPoll sample
  | apply sample actor event auditOk => exact h.rdApply sample actor event auditOk

theorem latchKept_call (control : Reduction) (x : RdCall) : LatchKept control (rdCall control x).1 := by
  cases x with
  | poll sample => exact latchKept_rdPoll control sample
  | apply sample actor event auditOk => exact latchKept_rdApply

/-- A valid control stays valid and keeps its latch, whatever calls follow. -/
theorem rdOk_latchKept_run {control : Reduction} (h : RdOk control) (xs : List RdCall) :
    RdOk (Run.final rdCall control xs) ∧ LatchKept control (Run.final rdCall control xs) := by
  refine Run.final_induct (P := fun c => RdOk c ∧ LatchKept control c) ?_ ?_ xs
  · exact ⟨h, fun _ _ hb => hb, id⟩
  · intro c x hc
    exact ⟨rdOk_call hc.1 x, hc.2.trans (latchKept_call c x)⟩

/-- Slot `i` is out of use, and its stop is asked for until it is recorded. -/
structure Shut (control : Reduction) (i : Fin 2) : Prop where
  phase : (control.life.slots i).state = LcState.unused ∨
    (control.life.slots i).state = LcState.retired ∨ (control.life.slots i).state = LcState.closing
  stop : (control.life.slots i).state = LcState.closing → (control.life.slots i).stopped = 0 →
    Word.hasBit (rdStopMask control) i = true

theorem RdOk.shut {control : Reduction} (h : RdOk control) {i : Fin 2}
    (hi : Word.hasBit control.inhibited i = true) : Shut control i :=
  ⟨h.phase hi, h.hasBit_rdStopMask⟩

/-- **The latch.** The poll and the event of a valid control leave a valid control, and the poll
cannot fail. What the latch has taken it keeps, an inhibited slot is out of use, and no run of calls
brings it back. -/
theorem reduction_latch_invariant (control : Reduction) (hv : rdValid control = true)
    (sample : UInt64) (actor : LcActor) (e : LcEvent) (auditOk : Bool) :
    let polled := rdPoll control sample
    let applied := rdApply control sample actor e auditOk
    (rdValid polled.2 = true ∧ rdValid applied.2 = true) ∧
      (polled.1 ≠ .invalidState ∧
        ∀ inhibited, (List.finRange 2).foldlM (rdContain inhibited) control.life ≠ none) ∧
      (LatchKept control polled.2 ∧ LatchKept control applied.2) ∧
      (∀ i : Fin 2, Word.hasBit polled.2.inhibited i = true → Shut polled.2 i) ∧
      (∀ i : Fin 2, Word.hasBit applied.2.inhibited i = true → Shut applied.2 i) ∧
      (∀ i, polled.2.life.slots i =
        { control.life.slots i with state := (polled.2.life.slots i).state }) ∧
      (applied.1.status ≠ LcStatus.ok → applied.2 = polled.2) ∧
      ∀ i : Fin 2, Word.hasBit control.inhibited i = true → ∀ calls : List RdCall,
        ((Run.final rdCall control calls).life.slots i).state ≠ LcState.starting ∧
          ((Run.final rdCall control calls).life.slots i).state ≠ LcState.ready ∧
          ((Run.final rdCall control calls).life.slots i).state ≠ LcState.active := by
  have h := (rdValid_iff _).mp hv
  have hp := h.rdPoll sample
  have ha := h.rdApply sample actor e auditOk
  refine ⟨⟨(rdValid_iff _).mpr hp, (rdValid_iff _).mpr ha⟩,
    ⟨rdPoll_ne_invalidState h sample, ?_⟩,
    ⟨latchKept_rdPoll control sample, latchKept_rdApply⟩,
    fun i hi => hp.shut hi, fun i hi => ha.shut hi, ?_, rdApply_of_ne, ?_⟩
  · intro inhibited
    rw [(foldlM_rdContain h.lcOk inhibited).1]
    simp
  · intro i
    rw [rdPoll_eq h]
    exact LcSlot.contained_fields _ i _
  · intro i hi calls
    obtain ⟨hok, hkept⟩ := rdOk_latchKept_run h calls
    have hb := hkept.inhibited i (by omega) hi
    rcases hok.phase hb with hs | hs | hs <;> rw [hs] <;> decide

/-- A control whose first slot is active, with its ticket out. -/
def workingReduction : Reduction :=
  ⟨{ Lifecycle.zero.set 0 ⟨LcState.active, 1, 1, 1, 0, 0⟩ with lastIncarnation := 1 }, 0, 0⟩

/-- A request for its first slot closes it, with its ticket still out, and no call makes it active
again. -/
theorem reduction_latch_invariant_working :
    rdValid (rdPoll workingReduction 1).2 = true ∧
      (rdPoll workingReduction 1).2.life.at 0 = ⟨LcState.closing, 1, 1, 1, 0, 0⟩ ∧
      ∀ calls, ((Run.final rdCall (rdPoll workingReduction 1).2 calls).life.at 0).state ≠
        LcState.active := by
  have hvalid : rdValid (rdPoll workingReduction 1).2 = true :=
    (reduction_latch_invariant workingReduction (by decide) 1 .admin ⟨LcOp.drained, 0, 1, 1⟩ true).1.1
  have hshut := (reduction_latch_invariant _ hvalid 0 .admin ⟨LcOp.drained, 0, 1, 1⟩
    true).2.2.2.2.2.2.2 (slotIx 0) (by decide)
  exact ⟨hvalid, by decide, fun calls => (hshut calls).2.2⟩

end Tcs
