/-
# The worker lifecycle

`include/tcs/lifecycle.h` and `lib/lifecycle.c`: two one-use slots, each
going from unused through starting, ready, active and closing to retired,
with one ticket in flight at a time. Every event carries the slot's
incarnation; the actor and the audit's outcome come from the caller.

All fields are words, as in the source: a phase is a number, and a value of
`Lifecycle` need not be a state of the machine. `lcValid` is the source's
structural check and `LcOk` what it says (`lcValid_iff`). `LcStep` is the
table of accepted events of `docs/LIFECYCLE.md`; the code accepts an event
exactly when it is in the table (`lcApply_ok_iff`) and otherwise leaves the
state (`lcApply_of_ne`). That a step keeps `LcOk` and moves one slot forward
is read off the table.

Key definitions: `lcValid`, `lcAllows`, `lcApply`, `LcOk`, `SlotStep`,
`LcStep`.
Key theorems: `lcValid_iff`, `lcApply_ok_iff`, `LcStep.lcOk`,
`lifecycle_invariant`.
-/
import Tcs.Lib.Run
import Tcs.Lib.Word

namespace Tcs

/-! ### The data model -/

/-- `TCS_LC_SLOTS`. -/
@[simp] abbrev slotCount : UInt64 := 2

/-! `enum tcs_lc_state`, `enum tcs_lc_op` and `enum tcs_lc_status`, as the words of the fields that
hold them. -/

namespace LcState

@[simp] abbrev unused : UInt64 := 0
@[simp] abbrev starting : UInt64 := 1
@[simp] abbrev ready : UInt64 := 2
@[simp] abbrev active : UInt64 := 3
@[simp] abbrev closing : UInt64 := 4
@[simp] abbrev retired : UInt64 := 5

end LcState

namespace LcOp

@[simp] abbrev reserve : UInt64 := 1
@[simp] abbrev started : UInt64 := 2
@[simp] abbrev activate : UInt64 := 3
@[simp] abbrev begin : UInt64 := 4
@[simp] abbrev complete : UInt64 := 5
@[simp] abbrev contain : UInt64 := 6
@[simp] abbrev stopped : UInt64 := 7
@[simp] abbrev drained : UInt64 := 8

end LcOp

namespace LcStatus

@[simp] abbrev ok : UInt64 := 0
@[simp] abbrev invalid : UInt64 := 1
@[simp] abbrev denied : UInt64 := 2
@[simp] abbrev stale : UInt64 := 3
@[simp] abbrev badState : UInt64 := 4
@[simp] abbrev auditRequired : UInt64 := 5
@[simp] abbrev exhausted : UInt64 := 6

end LcStatus

/-- `enum tcs_lc_actor`. A value cast from outside the enumeration is `other`. -/
inductive LcActor
  | unknown
  | admin
  | supervisor
  | broker
  | detector
  | worker
  | other (n : ℕ)
  deriving DecidableEq, Repr

/-- `struct tcs_lc_slot`. -/
structure LcSlot where
  state : UInt64
  incarnation : UInt64
  issued : UInt64
  pending : UInt64
  stopped : UInt64
  drained : UInt64
  deriving DecidableEq, Repr

/-- `struct tcs_lifecycle`. -/
structure Lifecycle where
  lastIncarnation : UInt64
  slots : Fin 2 → LcSlot
  deriving DecidableEq

/-- `struct tcs_lc_event`. -/
structure LcEvent where
  op : UInt64
  slot : UInt64
  incarnation : UInt64
  sequence : UInt64
  deriving DecidableEq, Repr

/-- `struct tcs_lc_result`. -/
structure LcResult where
  status : UInt64
  value : UInt64
  deriving DecidableEq, Repr

/-- A zeroed slot. -/
def LcSlot.zero : LcSlot := ⟨0, 0, 0, 0, 0, 0⟩

/-- The zeroed lifecycle. -/
def Lifecycle.zero : Lifecycle := ⟨0, fun _ => LcSlot.zero⟩

/-- The place of slot number `n`, used behind `n < TCS_LC_SLOTS`. -/
def slotNth (n : ℕ) : Fin 2 := Fin.ofNat 2 n

/-- The place of a slot word. -/
def slotIx (i : UInt64) : Fin 2 := slotNth i.toNat

/-- `life->slots[i]`. -/
def Lifecycle.at (life : Lifecycle) (i : UInt64) : LcSlot := life.slots (slotIx i)

/-- The lifecycle with `life->slots[i]` replaced. -/
def Lifecycle.set (life : Lifecycle) (i : UInt64) (s : LcSlot) : Lifecycle :=
  { life with slots := Function.update life.slots (slotIx i) s }

/-! ### The operations -/

/-- One turn of the loop of `tcs_lc_valid`: the checks on slot `i`. -/
def lcSlotValid (life : Lifecycle) (i : Fin 2) : Bool :=
  let s := life.slots i
  if s.state > LcState.retired ∨ s.stopped > 1 ∨ s.drained > 1 then false
  else if s.state = LcState.unused then
    !(s.incarnation ≠ 0 ∨ s.issued ≠ 0 ∨ s.pending ≠ 0 ∨ s.stopped ≠ 0 ∨ s.drained ≠ 0)
  else if s.incarnation = 0 ∨ s.incarnation > life.lastIncarnation ∨
      (s.pending ≠ 0 ∧ s.pending ≠ s.issued) then false
  else if ∃ j < i, s.incarnation = (life.slots j).incarnation then false
  else if (s.state = LcState.starting ∨ s.state = LcState.ready) ∧ (s.issued ≠ 0 ∨ s.pending ≠ 0) then
    false
  else if s.state < LcState.closing ∧ (s.stopped ≠ 0 ∨ s.drained ≠ 0) then false
  else if s.drained ≠ 0 ∧ s.pending ≠ 0 then false
  else if s.state = LcState.closing ∧ s.stopped ≠ 0 ∧ s.drained ≠ 0 then false
  else if s.state = LcState.retired ∧ (s.stopped = 0 ∨ s.drained = 0 ∨ s.pending ≠ 0) then false
  else true

/-- Neither unused nor retired. -/
def LcSlot.occupied (s : LcSlot) : Bool := s.state ≠ LcState.unused ∧ s.state ≠ LcState.retired

/-- `tcs_lc_valid`. -/
def lcValid (life : Lifecycle) : Bool :=
  (List.finRange 2).all (lcSlotValid life) &&
    (List.finRange 2).countP (fun i => (life.slots i).occupied) ≤ 1

/-- `tcs_lc_allows`. -/
def lcAllows (life : Lifecycle) (slot incarnation : UInt64) : Bool :=
  lcValid life ∧ slot < slotCount ∧ incarnation ≠ 0 ∧ (life.at slot).state = LcState.active ∧
    (life.at slot).incarnation = incarnation

/-- `permitted`. -/
def permitted (actor : LcActor) (op : UInt64) : Bool :=
  if op = LcOp.reserve ∨ op = LcOp.activate then actor = .admin
  else if op = LcOp.started ∨ op = LcOp.stopped then actor = .supervisor
  else if op = LcOp.begin ∨ op = LcOp.complete ∨ op = LcOp.drained then actor = .broker
  else if op = LcOp.contain then actor = .admin ∨ actor = .supervisor ∨ actor = .detector
  else false

/-- The event's fields do not have the shape its operation asks for. -/
def LcEvent.malformed (e : LcEvent) : Bool :=
  (e.op ≠ LcOp.complete ∧ e.op ≠ LcOp.stopped ∧ e.op ≠ LcOp.drained ∧ e.sequence ≠ 0) ∨
    (e.op = LcOp.complete ∧ e.sequence = 0) ∨
    (if e.op = LcOp.reserve then e.incarnation ≠ 0 else e.incarnation = 0)

/-- The `switch` of `tcs_lc_apply`: the value and the next lifecycle, or the status it fails with. -/
def lcSwitch (life : Lifecycle) (e : LcEvent) (auditOk : Bool) : Except UInt64 (UInt64 × Lifecycle) :=
  let s := life.at e.slot
  if e.op = LcOp.reserve then
    if s.state ≠ LcState.unused then .error LcStatus.badState
    else if ∃ i, (life.slots i).state ≠ LcState.unused ∧ (life.slots i).state ≠ LcState.retired then
      .error LcStatus.badState
    else if life.lastIncarnation = Word.max then .error LcStatus.exhausted
    else if !auditOk then .error LcStatus.auditRequired
    else
      let last := life.lastIncarnation + 1
      .ok (last, { life with lastIncarnation := last }.set e.slot
        { s with incarnation := last, state := LcState.starting })
  else if e.op = LcOp.started then
    if s.state ≠ LcState.starting then .error LcStatus.badState
    else .ok (s.incarnation, life.set e.slot { s with state := LcState.ready })
  else if e.op = LcOp.activate then
    if s.state ≠ LcState.ready then .error LcStatus.badState
    else if !auditOk then .error LcStatus.auditRequired
    else .ok (s.incarnation, life.set e.slot { s with state := LcState.active })
  else if e.op = LcOp.begin then
    if s.state ≠ LcState.active ∨ s.pending ≠ 0 then .error LcStatus.badState
    else if s.issued = Word.max then .error LcStatus.exhausted
    else .ok (s.issued + 1, life.set e.slot { s with issued := s.issued + 1, pending := s.issued + 1 })
  else if e.op = LcOp.complete then
    if s.state ≠ LcState.active then .error LcStatus.badState
    else if s.pending ≠ e.sequence then .error LcStatus.stale
    else .ok (e.sequence, life.set e.slot { s with pending := 0 })
  else if e.op = LcOp.contain then
    if s.state < LcState.starting ∨ s.state > LcState.active then .error LcStatus.badState
    -- the gate closes without audit too, and uncertain work stays pending
    else .ok (s.incarnation, life.set e.slot { s with state := LcState.closing })
  else if e.op = LcOp.stopped ∨ e.op = LcOp.drained then
    if s.state ≠ LcState.closing then .error LcStatus.badState
    else if e.sequence ≠ s.issued then .error LcStatus.stale
    else if e.op = LcOp.stopped then
      if s.stopped ≠ 0 then .error LcStatus.badState
      else .ok (s.incarnation, life.set e.slot
        { s with stopped := 1, state := if s.drained ≠ 0 then LcState.retired else s.state })
    else
      if s.drained ≠ 0 then .error LcStatus.badState
      else .ok (s.incarnation, life.set e.slot
        { s with drained := 1, pending := 0, state := if s.stopped ≠ 0 then LcState.retired else s.state })
  else .error LcStatus.invalid

/-- `tcs_lc_apply`: the answer and the lifecycle it leaves. -/
def lcApply (life : Lifecycle) (actor : LcActor) (e : LcEvent) (auditOk : Bool) :
    LcResult × Lifecycle :=
  if !lcValid life ∨ e.slot ≥ slotCount ∨ e.op < LcOp.reserve ∨ e.op > LcOp.drained then
    (⟨LcStatus.invalid, 0⟩, life)
  else if !permitted actor e.op then (⟨LcStatus.denied, 0⟩, life)
  else if e.malformed then (⟨LcStatus.invalid, 0⟩, life)
  else if e.op ≠ LcOp.reserve ∧ e.incarnation ≠ (life.at e.slot).incarnation then
    (⟨LcStatus.stale, 0⟩, life)
  else
    match lcSwitch life e auditOk with
    | .error status => (⟨status, 0⟩, life)
    | .ok (value, next) => (⟨LcStatus.ok, value⟩, next)

/-! ### What the structural check says -/

/-- A slot in one of its six phases, with the counters and flags the phase allows. -/
structure SlotOk (last : UInt64) (s : LcSlot) : Prop where
  state : s.state ≤ LcState.retired
  stopped : s.stopped ≤ 1
  drained : s.drained ≤ 1
  unused : s.state = LcState.unused → s = LcSlot.zero
  incarnation : s.state ≠ LcState.unused → s.incarnation ≠ 0 ∧ s.incarnation ≤ last
  pending : s.state ≠ LcState.unused → s.pending = 0 ∨ s.pending = s.issued
  fresh : s.state = LcState.starting ∨ s.state = LcState.ready → s.issued = 0 ∧ s.pending = 0
  live : s.state < LcState.closing → s.stopped = 0 ∧ s.drained = 0
  settled : s.drained ≠ 0 → s.pending = 0
  closing : s.state = LcState.closing → s.stopped = 0 ∨ s.drained = 0
  retired : s.state = LcState.retired → s.stopped ≠ 0 ∧ s.drained ≠ 0 ∧ s.pending = 0

/-- Both slots are well formed, no incarnation is shared and at most one slot is occupied. -/
structure LcOk (life : Lifecycle) : Prop where
  slots : ∀ i, SlotOk life.lastIncarnation (life.slots i)
  distinct : ∀ i j, i ≠ j → (life.slots i).state ≠ LcState.unused →
    (life.slots i).incarnation ≠ (life.slots j).incarnation
  alone : ∀ i j, (life.slots i).occupied = true → (life.slots j).occupied = true → i = j

theorem lcSlotValid_iff (life : Lifecycle) (i : Fin 2) :
    lcSlotValid life i = true ↔ SlotOk life.lastIncarnation (life.slots i) ∧
      ((life.slots i).state ≠ LcState.unused →
        ∀ j < i, (life.slots i).incarnation ≠ (life.slots j).incarnation) := by
  unfold lcSlotValid
  dsimp only
  generalize life.slots i = s
  simp only [Bool.if_false_left, Bool.and_eq_true, Bool.not_eq_true', decide_eq_false_iff_not]
  by_cases h0 : s.state = LcState.unused
  · rw [if_pos h0]
    constructor
    · rintro ⟨-, h⟩
      have hz : s = LcSlot.zero := by
        obtain ⟨state, incarnation, issued, pending, stopped, drained⟩ := s
        simp_all [LcSlot.zero]
      refine ⟨?_, fun hne => absurd h0 hne⟩
      rw [hz]
      constructor <;> simp [LcSlot.zero]
    · rintro ⟨h, -⟩
      rw [h.unused h0]
      decide
  · rw [if_neg h0]
    simp only [Bool.and_eq_true, Bool.not_eq_true', decide_eq_false_iff_not]
    constructor
    · rintro ⟨h1, h2, h3, h4, h5, h6, h7, h8, -⟩
      simp only [not_or, gt_iff_lt, UInt64.not_lt] at h1 h2
      obtain ⟨hstate, hstopped, hdrained⟩ := h1
      obtain ⟨hzero, hlast, hpending⟩ := h2
      refine ⟨⟨hstate, hstopped, hdrained, fun h => absurd h h0, fun _ => ⟨hzero, hlast⟩, fun _ => ?_,
        fun hs => ⟨?_, ?_⟩, fun hs => ⟨?_, ?_⟩, fun hd => ?_, fun hs => ?_, fun hs => ⟨?_, ?_, ?_⟩⟩,
        fun _ j hj he => h3 ⟨j, hj, he⟩⟩
      · exact or_iff_not_and_not.mpr hpending
      · exact by_contra fun h => h4 ⟨hs, Or.inl h⟩
      · exact by_contra fun h => h4 ⟨hs, Or.inr h⟩
      · exact by_contra fun h => h5 ⟨hs, Or.inl h⟩
      · exact by_contra fun h => h5 ⟨hs, Or.inr h⟩
      · exact by_contra fun h => h6 ⟨hd, h⟩
      · exact or_iff_not_and_not.mpr fun h => h7 ⟨hs, h⟩
      · exact fun h => h8 ⟨hs, Or.inl h⟩
      · exact fun h => h8 ⟨hs, Or.inr (Or.inl h)⟩
      · exact by_contra fun h => h8 ⟨hs, Or.inr (Or.inr h)⟩
    · rintro ⟨hs, hd⟩
      refine ⟨?_, ?_, ?_, ?_, ?_, ?_, ?_, ?_, trivial⟩
      · simp only [not_or, gt_iff_lt, UInt64.not_lt]
        exact ⟨hs.state, hs.stopped, hs.drained⟩
      · simp only [not_or, gt_iff_lt, UInt64.not_lt]
        exact ⟨(hs.incarnation h0).1, (hs.incarnation h0).2, or_iff_not_and_not.mp (hs.pending h0)⟩
      · rintro ⟨j, hj, he⟩
        exact hd h0 j hj he
      · rintro ⟨hfresh, h | h⟩
        · exact h (hs.fresh hfresh).1
        · exact h (hs.fresh hfresh).2
      · rintro ⟨hlive, h | h⟩
        · exact h (hs.live hlive).1
        · exact h (hs.live hlive).2
      · rintro ⟨hdrained, h⟩
        exact h (hs.settled hdrained)
      · rintro ⟨hclosing, h⟩
        exact or_iff_not_and_not.mp (hs.closing hclosing) h
      · rintro ⟨hretired, h | h | h⟩
        · exact (hs.retired hretired).1 h
        · exact (hs.retired hretired).2.1 h
        · exact h (hs.retired hretired).2.2

theorem lcValid_iff (life : Lifecycle) : lcValid life = true ↔ LcOk life := by
  have hall : (List.finRange 2).all (lcSlotValid life) = true ↔ ∀ i, lcSlotValid life i = true := by
    simp
  have hcount : ((List.finRange 2).countP fun i => (life.slots i).occupied) ≤ 1 ↔
      ∀ i j, (life.slots i).occupied = true → (life.slots j).occupied = true → i = j := by
    rw [show List.finRange 2 = [0, 1] from rfl]
    simp only [List.countP_cons, List.countP_nil, Fin.forall_fin_two]
    cases (life.slots 0).occupied <;> cases (life.slots 1).occupied <;> simp
  rw [lcValid, Bool.and_eq_true, hall, decide_eq_true_iff, hcount]
  simp only [lcSlotValid_iff]
  constructor
  · rintro ⟨hs, hc⟩
    refine ⟨fun i => (hs i).1, fun i j hij h0 he => ?_, hc⟩
    -- the loop compares with earlier slots only; an unused slot has incarnation zero
    rcases lt_or_gt_of_ne hij with hlt | hlt
    · by_cases hj : (life.slots j).state = LcState.unused
      · have hz := congrArg LcSlot.incarnation ((hs j).1.unused hj)
        rw [hz] at he
        exact ((hs i).1.incarnation h0).1 he
      · exact (hs j).2 hj i hlt he.symm
    · exact (hs i).2 h0 j hlt he
  · rintro ⟨hs, hd, hc⟩
    exact ⟨fun i => ⟨hs i, fun h0 j hj => hd i j (ne_of_gt hj) h0⟩, hc⟩

/-! ### The table of accepted events -/

/-- An accepted event after the reservation: who sent it, the operation and its sequence, the audit,
the value it returns and the slot it leaves. -/
inductive SlotStep (s : LcSlot) : LcActor → UInt64 → UInt64 → Bool → UInt64 → LcSlot → Prop
  | started (b : Bool) (hs : s.state = LcState.starting) :
    SlotStep s .supervisor LcOp.started 0 b s.incarnation { s with state := LcState.ready }
  | activate (hs : s.state = LcState.ready) :
    SlotStep s .admin LcOp.activate 0 true s.incarnation { s with state := LcState.active }
  | begin (b : Bool) (hs : s.state = LcState.active) (hp : s.pending = 0) (hm : s.issued ≠ Word.max) :
    SlotStep s .broker LcOp.begin 0 b (s.issued + 1)
      { s with issued := s.issued + 1, pending := s.issued + 1 }
  | complete (b : Bool) (hs : s.state = LcState.active) (hp : s.pending ≠ 0) :
    SlotStep s .broker LcOp.complete s.pending b s.pending { s with pending := 0 }
  | contain (b : Bool) (actor : LcActor) (hs : LcState.starting ≤ s.state ∧ s.state ≤ LcState.active)
    (ha : actor = .admin ∨ actor = .supervisor ∨ actor = .detector) :
    SlotStep s actor LcOp.contain 0 b s.incarnation { s with state := LcState.closing }
  | stopped (b : Bool) (hs : s.state = LcState.closing) (h0 : s.stopped = 0) :
    SlotStep s .supervisor LcOp.stopped s.issued b s.incarnation
      { s with stopped := 1, state := if s.drained ≠ 0 then LcState.retired else s.state }
  | drained (b : Bool) (hs : s.state = LcState.closing) (h0 : s.drained = 0) :
    SlotStep s .broker LcOp.drained s.issued b s.incarnation
      { s with
        drained := 1, pending := 0, state := if s.stopped ≠ 0 then LcState.retired else s.state }

/-- An accepted event: a reservation, which needs every slot unused or retired and hands out the
next incarnation, or an event of a slot under its incarnation. -/
inductive LcStep (life : Lifecycle) : LcActor → LcEvent → Bool → UInt64 → Lifecycle → Prop
  | reserve (i : UInt64) (hi : i < slotCount) (hs : (life.at i).state = LcState.unused)
    (hfree : ∀ j, (life.slots j).occupied = false) (hm : life.lastIncarnation ≠ Word.max) :
    LcStep life .admin ⟨LcOp.reserve, i, 0, 0⟩ true (life.lastIncarnation + 1)
      ({ life with lastIncarnation := life.lastIncarnation + 1 }.set i
        { life.at i with incarnation := life.lastIncarnation + 1, state := LcState.starting })
  | slot (i : UInt64) (hi : i < slotCount) (hn : (life.at i).incarnation ≠ 0) {actor : LcActor}
    {op sequence value : UInt64} {b : Bool} {s' : LcSlot}
    (hs : SlotStep (life.at i) actor op sequence b value s') :
    LcStep life actor ⟨op, i, (life.at i).incarnation, sequence⟩ b value (life.set i s')

theorem lcApply_of_ne {life : Lifecycle} {actor : LcActor} {e : LcEvent} {b : Bool}
    (h : (lcApply life actor e b).1.status ≠ LcStatus.ok) :
    (lcApply life actor e b).1.value = 0 ∧ (lcApply life actor e b).2 = life := by
  unfold lcApply at h ⊢
  split_ifs at h ⊢
  any_goals exact ⟨rfl, rfl⟩
  cases hsw : lcSwitch life e b with
  | error status => exact ⟨rfl, rfl⟩
  | ok out => simp [hsw] at h

/-- The operations the table names pass the guards of the code. -/
theorem LcStep.guards {life life' : Lifecycle} {actor : LcActor} {e : LcEvent} {b : Bool}
    {v : UInt64} (h : LcStep life actor e b v life') :
    e.slot < slotCount ∧ ¬ (e.op < LcOp.reserve ∨ e.op > LcOp.drained) ∧
      permitted actor e.op = true ∧ e.malformed = false ∧
      ¬ (e.op ≠ LcOp.reserve ∧ e.incarnation ≠ (life.at e.slot).incarnation) := by
  cases h with
  | reserve i hi => exact ⟨hi, by simp, by simp [permitted], by simp [LcEvent.malformed], by simp⟩
  | slot i hi hn hs =>
    refine ⟨hi, ?_, ?_, ?_, by simp⟩
    · cases hs <;> simp
    · cases hs with
      | contain b actor _ ha => rcases ha with rfl | rfl | rfl <;> simp [permitted]
      | _ => simp [permitted]
    · cases hs <;> simp [LcEvent.malformed, hn]
      assumption

theorem LcStep.lcSwitch {life life' : Lifecycle} {actor : LcActor} {e : LcEvent} {b : Bool}
    {v : UInt64} (h : LcStep life actor e b v life') : lcSwitch life e b = .ok (v, life') := by
  cases h with
  | reserve i hi hs hfree hm =>
    have hf : ¬ ∃ j, (life.slots j).state ≠ LcState.unused ∧
        (life.slots j).state ≠ LcState.retired := by
      rintro ⟨j, hj⟩
      simpa [LcSlot.occupied, hj] using hfree j
    simp only [Tcs.lcSwitch, if_true, hs, if_neg hf, if_neg hm]
    simp
  | slot i hi hn hs =>
    cases hs with
    | contain b actor hs ha =>
      have h1 : ¬ ((life.at i).state < LcState.starting ∨ (life.at i).state > LcState.active) := by
        grind
      simp only [Tcs.lcSwitch, if_neg h1]
      simp
    | _ => simp_all [Tcs.lcSwitch]

/-- A guard that was passed. -/
theorem ite_error_eq_ok {α : Type} {c : Prop} [Decidable c] {status : UInt64} {x : Except UInt64 α}
    {y : α} : (if c then .error status else x) = .ok y ↔ ¬ c ∧ x = .ok y := by
  split <;> simp_all

theorem ite_else_error_eq_ok {α : Type} {c : Prop} [Decidable c] {status : UInt64}
    {x : Except UInt64 α} {y : α} : (if c then x else .error status) = .ok y ↔ c ∧ x = .ok y := by
  split <;> simp_all

/-- The code's `switch` accepts nothing else. -/
theorem LcStep.of_lcSwitch {life life' : Lifecycle} {actor : LcActor} {e : LcEvent} {b : Bool}
    {v : UInt64} (hslot : e.slot < slotCount) (hop : ¬ (e.op < LcOp.reserve ∨ e.op > LcOp.drained))
    (hp : permitted actor e.op = true) (hm : e.malformed = false)
    (hinc : ¬ (e.op ≠ LcOp.reserve ∧ e.incarnation ≠ (life.at e.slot).incarnation))
    (h : Tcs.lcSwitch life e b = .ok (v, life')) : LcStep life actor e b v life' := by
  obtain ⟨op, i, incarnation, sequence⟩ := e
  simp only [LcEvent.malformed, decide_eq_false_iff_not, not_or, not_and] at hslot hop hp hm hinc
  obtain ⟨hm1, hm2, hm3⟩ := hm
  have hcases : op = LcOp.reserve ∨ op = LcOp.started ∨ op = LcOp.activate ∨ op = LcOp.begin ∨
      op = LcOp.complete ∨ op = LcOp.contain ∨ op = LcOp.stopped ∨ op = LcOp.drained := by grind
  rcases eq_or_ne op LcOp.reserve with rfl | hne
  · obtain rfl : actor = .admin := by simpa [permitted] using hp
    obtain ⟨rfl, rfl⟩ : incarnation = 0 ∧ sequence = 0 := ⟨by simpa using hm3, by simpa using hm1⟩
    simp only [Tcs.lcSwitch, if_true] at h
    split_ifs at h with hs hf hmax hb
    simp only [Except.ok.injEq, Prod.mk.injEq] at h
    obtain ⟨rfl, rfl⟩ := h
    obtain rfl : b = true := by simpa using hb
    refine .reserve i hslot (by simpa using hs) (fun j => ?_) hmax
    simp only [LcSlot.occupied, decide_eq_false_iff_not]
    exact fun hj => hf ⟨j, hj⟩
  -- every other event names the slot's incarnation, which is not zero
  obtain rfl : incarnation = (life.at i).incarnation := by simpa using hinc hne
  have hn : (life.at i).incarnation ≠ 0 := by simpa [hne] using hm3
  rcases hcases with rfl | rfl | rfl | rfl | rfl | rfl | rfl | rfl
  · exact absurd rfl hne
  · obtain rfl : actor = .supervisor := by simpa [permitted] using hp
    obtain rfl : sequence = 0 := by simpa using hm1
    simp [Tcs.lcSwitch, ite_else_error_eq_ok] at h
    obtain ⟨hs, rfl, rfl⟩ := h
    exact .slot i hslot hn (.started b hs)
  · obtain rfl : actor = .admin := by simpa [permitted] using hp
    obtain rfl : sequence = 0 := by simpa using hm1
    simp [Tcs.lcSwitch, ite_error_eq_ok, ite_else_error_eq_ok] at h
    obtain ⟨hs, rfl, rfl, rfl⟩ := h
    exact .slot i hslot hn (.activate hs)
  · obtain rfl : actor = .broker := by simpa [permitted] using hp
    obtain rfl : sequence = 0 := by simpa using hm1
    simp [Tcs.lcSwitch, ite_error_eq_ok] at h
    obtain ⟨⟨hs, hpend⟩, hmax, rfl, rfl⟩ := h
    exact .slot i hslot hn (.begin b hs hpend hmax)
  · obtain rfl : actor = .broker := by simpa [permitted] using hp
    simp [Tcs.lcSwitch, ite_else_error_eq_ok] at h
    obtain ⟨hs, rfl, rfl, rfl⟩ := h
    exact .slot i hslot hn (.complete b hs (by simpa using hm2))
  · obtain rfl : sequence = 0 := by simpa using hm1
    simp [Tcs.lcSwitch, ite_error_eq_ok] at h
    obtain ⟨hs, rfl, rfl⟩ := h
    exact .slot i hslot hn (.contain b actor (by grind) (by simpa [permitted] using hp))
  · obtain rfl : actor = .supervisor := by simpa [permitted] using hp
    simp [Tcs.lcSwitch, ite_else_error_eq_ok] at h
    obtain ⟨hs, rfl, h0, rfl, rfl⟩ := h
    simpa using LcStep.slot i hslot hn (.stopped b hs h0)
  · obtain rfl : actor = .broker := by simpa [permitted] using hp
    simp [Tcs.lcSwitch, ite_else_error_eq_ok] at h
    obtain ⟨hs, rfl, h0, rfl, rfl⟩ := h
    simpa using LcStep.slot i hslot hn (.drained b hs h0)

theorem lcSwitch_ne_error_ok (life : Lifecycle) (e : LcEvent) (b : Bool) :
    Tcs.lcSwitch life e b ≠ .error LcStatus.ok := by
  have hite : ∀ {c : Prop} [Decidable c] {x y : Except UInt64 (UInt64 × Lifecycle)},
      x ≠ .error LcStatus.ok → y ≠ .error LcStatus.ok → (if c then x else y) ≠ .error LcStatus.ok := by
    intro c _ x y hx hy
    split <;> assumption
  simp only [Tcs.lcSwitch]
  repeat' apply hite
  all_goals simp

/-- **The code accepts exactly the events of the table**, on a valid lifecycle. -/
theorem lcApply_ok_iff {life life' : Lifecycle} {actor : LcActor} {e : LcEvent} {b : Bool}
    {v : UInt64} :
    lcApply life actor e b = (⟨LcStatus.ok, v⟩, life') ↔
      lcValid life = true ∧ LcStep life actor e b v life' := by
  constructor
  · intro h
    unfold lcApply at h
    split_ifs at h with h1 h2 h3 h4
    any_goals simp at h
    cases hsw : Tcs.lcSwitch life e b with
    | error status =>
      simp only [hsw, Prod.mk.injEq, LcResult.mk.injEq] at h
      obtain rfl : status = LcStatus.ok := h.1.1
      exact absurd hsw (lcSwitch_ne_error_ok life e b)
    | ok out =>
      simp only [hsw, Prod.mk.injEq, LcResult.mk.injEq, true_and] at h
      obtain ⟨rfl, rfl⟩ := h
      have hv : lcValid life = true := by grind
      exact ⟨hv, .of_lcSwitch (by grind) (by grind) (by simpa using h2) (by simpa using h3) h4 hsw⟩
  · rintro ⟨hv, hs⟩
    obtain ⟨hslot, hop, hp, hm, hinc⟩ := hs.guards
    have h1 : ¬ (!lcValid life ∨ e.slot ≥ slotCount ∨ e.op < LcOp.reserve ∨ e.op > LcOp.drained) := by
      grind
    rw [lcApply, if_neg h1, if_neg (by simp [hp]), if_neg (by simp [hm]), if_neg hinc, hs.lcSwitch]

theorem lcStep_of_ok {life : Lifecycle} {actor : LcActor} {e : LcEvent} {b : Bool}
    (h : (lcApply life actor e b).1.status = LcStatus.ok) :
    lcValid life = true ∧
      LcStep life actor e b (lcApply life actor e b).1.value (lcApply life actor e b).2 :=
  lcApply_ok_iff.mp (by rw [← h])

/-! ### What an accepted event keeps -/

@[simp] theorem Lifecycle.set_slots_self (life : Lifecycle) (i : UInt64) (s : LcSlot) :
    (life.set i s).slots (slotIx i) = s := by
  simp [Lifecycle.set]

theorem Lifecycle.set_slots_of_ne (life : Lifecycle) {i : UInt64} {j : Fin 2} (h : j ≠ slotIx i)
    (s : LcSlot) : (life.set i s).slots j = life.slots j := by
  simp [Lifecycle.set, h]

theorem Lifecycle.set_set (life : Lifecycle) (i : UInt64) (s t : LcSlot) :
    (life.set i s).set i t = life.set i t := by
  unfold Lifecycle.set
  rw [Function.update_idem]

theorem SlotOk.mono {last last' : UInt64} {s : LcSlot} (h : SlotOk last s) (hl : last ≤ last') :
    SlotOk last' s where
  __ := h
  incarnation hs := ⟨(h.incarnation hs).1, UInt64.le_trans (h.incarnation hs).2 hl⟩

/-- How a slot moves: its phase and its ticket counter go up, and once retired it stays. -/
structure SlotMoves (s s' : LcSlot) : Prop where
  phase : s.state ≤ s'.state
  issued : s'.issued.toNat = s.issued.toNat ∨ s'.issued.toNat = s.issued.toNat + 1
  retired : s.state = LcState.retired → s' = s

theorem SlotMoves.refl (s : LcSlot) : SlotMoves s s :=
  ⟨UInt64.le_refl _, Or.inl rfl, fun _ => rfl⟩

section SlotStep

variable {s s' : LcSlot} {actor : LcActor} {op sequence v last : UInt64} {b : Bool}

/-- A slot in use before its closing has no confirmation. -/
theorem SlotOk.of_live {w : UInt64} (hw : s.state = w) (h0 : w ≠ LcState.unused)
    (hc : w < LcState.closing) (hinc : s.incarnation ≠ 0 ∧ s.incarnation ≤ last)
    (hp : s.pending = 0 ∨ s.pending = s.issued)
    (hf : w = LcState.starting ∨ w = LcState.ready → s.issued = 0 ∧ s.pending = 0)
    (hz : s.stopped = 0 ∧ s.drained = 0) : SlotOk last s := by
  subst hw
  exact {
    state := UInt64.le_trans (UInt64.le_of_lt hc) (by decide)
    stopped := by rw [hz.1]; decide
    drained := by rw [hz.2]; decide
    unused := fun h => absurd h h0
    incarnation := fun _ => hinc
    pending := fun _ => hp
    fresh := hf
    live := fun _ => hz
    settled := fun h => absurd hz.2 h
    closing := fun _ => Or.inl hz.1
    retired := fun h => absurd hc (by rw [h]; decide) }

/-- A slot from its closing on is retired as soon as both confirmations are in. -/
theorem SlotOk.of_closed (hc : s.state = LcState.closing ∨ s.state = LcState.retired)
    (hinc : s.incarnation ≠ 0 ∧ s.incarnation ≤ last) (hp : s.pending = 0 ∨ s.pending = s.issued)
    (hs : s.stopped ≤ 1) (hd : s.drained ≤ 1) (hsettled : s.drained ≠ 0 → s.pending = 0)
    (hr : s.state = LcState.retired ↔ s.stopped ≠ 0 ∧ s.drained ≠ 0) : SlotOk last s := by
  have hnot : ∀ w, w < LcState.closing → s.state ≠ w := by
    rintro w hw rfl
    rcases hc with hc | hc <;> rw [hc] at hw <;> exact absurd hw (by decide)
  refine ⟨?_, hs, hd, ?_, fun _ => hinc, fun _ => hp, ?_, ?_, hsettled, ?_, ?_⟩
  · rcases hc with hc | hc <;> rw [hc] <;> decide
  · exact fun h => absurd h (hnot _ (by decide))
  · rintro (h | h)
    · exact absurd h (hnot _ (by decide))
    · exact absurd h (hnot _ (by decide))
  · exact fun h => absurd rfl (hnot _ h)
  · intro h
    have hne : ¬ (s.stopped ≠ 0 ∧ s.drained ≠ 0) := by
      rw [← hr, h]
      decide
    exact or_iff_not_and_not.mpr hne
  · intro h
    obtain ⟨h1, h2⟩ := hr.mp h
    exact ⟨h1, h2, hsettled h2⟩

/-- The state after a confirmation, where `other` is the flag of the other one. -/
theorem confirmed (other : UInt64) {state : UInt64} (h : state = LcState.closing) :
    ((if other ≠ 0 then LcState.retired else state) = LcState.closing ∨
      (if other ≠ 0 then LcState.retired else state) = LcState.retired) ∧
      ((if other ≠ 0 then LcState.retired else state) = LcState.retired ↔ other ≠ 0) := by
  rw [h]
  by_cases ho : other ≠ 0
  · rw [if_pos ho]
    exact ⟨Or.inr rfl, iff_of_true rfl ho⟩
  · rw [if_neg ho]
    exact ⟨Or.inl rfl, iff_of_false (by decide) ho⟩

theorem SlotStep.slotOk (h : SlotStep s actor op sequence b v s') (hs : SlotOk last s) :
    SlotOk last s' := by
  cases h with
  | started b hst =>
    have hf := hs.fresh (Or.inl hst)
    exact .of_live (w := LcState.ready) rfl (by decide) (by decide)
      (hs.incarnation (by rw [hst]; decide)) (Or.inl hf.2) (fun _ => hf)
      (hs.live (by rw [hst]; decide))
  | activate hst =>
    have hf := hs.fresh (Or.inr hst)
    exact .of_live (w := LcState.active) rfl (by decide) (by decide)
      (hs.incarnation (by rw [hst]; decide)) (Or.inl hf.2) (fun _ => hf)
      (hs.live (by rw [hst]; decide))
  | begin b hst hp hm =>
    exact .of_live hst (by decide) (by decide) (hs.incarnation (by rw [hst]; decide)) (Or.inr rfl)
      (fun h => absurd h (by decide)) (hs.live (by rw [hst]; decide))
  | complete b hst hp =>
    exact .of_live hst (by decide) (by decide) (hs.incarnation (by rw [hst]; decide)) (Or.inl rfl)
      (fun h => absurd h (by decide)) (hs.live (by rw [hst]; decide))
  | contain b actor hst ha =>
    have h0 : s.state ≠ LcState.unused := by
      intro h
      rw [h] at hst
      exact absurd hst.1 (by decide)
    obtain ⟨h1, h2⟩ := hs.live (UInt64.lt_of_le_of_lt hst.2 (by decide))
    exact .of_closed (Or.inl rfl) (hs.incarnation h0) (hs.pending h0) hs.stopped hs.drained
      hs.settled (iff_of_false (show LcState.closing ≠ LcState.retired by decide) fun h => h.1 h1)
  | stopped b hst h0 =>
    have hused : s.state ≠ LcState.unused := by rw [hst]; decide
    obtain ⟨hc, hr⟩ := confirmed s.drained hst
    exact .of_closed hc (hs.incarnation hused) (hs.pending hused) (UInt64.le_refl 1) hs.drained
      hs.settled (hr.trans (and_iff_right (show (1 : UInt64) ≠ 0 by decide)).symm)
  | drained b hst h0 =>
    have hused : s.state ≠ LcState.unused := by rw [hst]; decide
    obtain ⟨hc, hr⟩ := confirmed s.stopped hst
    exact .of_closed hc (hs.incarnation hused) (Or.inl rfl) hs.stopped (UInt64.le_refl 1)
      (fun _ => rfl) (hr.trans (and_iff_left (show (1 : UInt64) ≠ 0 by decide)).symm)

theorem SlotStep.moves (h : SlotStep s actor op sequence b v s') : SlotMoves s s' := by
  cases h with
  | begin b hs hp hm => exact ⟨UInt64.le_refl _, Or.inr (Word.toNat_succ hm), by simp [hs]⟩
  | _ => exact ⟨by grind, Or.inl rfl, by grind⟩

/-- Only a slot in use takes an event, and it stays in use until both confirmations are in. -/
theorem SlotStep.occupied (h : SlotStep s actor op sequence b v s') : s.occupied = true := by
  simp only [LcSlot.occupied, decide_eq_true_iff]
  cases h <;> grind

theorem SlotStep.incarnation (h : SlotStep s actor op sequence b v s') :
    s'.incarnation = s.incarnation := by
  cases h <;> rfl

theorem SlotStep.active (h : SlotStep s actor op sequence b v s') (h0 : s.state ≠ LcState.active)
    (h1 : s'.state = LcState.active) : actor = .admin ∧ op = LcOp.activate ∧ b = true := by
  cases h <;> grind

end SlotStep

section LcStep

variable {life life' : Lifecycle} {actor : LcActor} {e : LcEvent} {v : UInt64} {b : Bool}

/-- An incarnation in use is not above the last one handed out, and an unused slot has none. -/
theorem LcOk.incarnation_le (hl : LcOk life) (i : Fin 2) :
    (life.slots i).incarnation ≤ life.lastIncarnation := by
  by_cases h : (life.slots i).state = LcState.unused
  · rw [(hl.slots i).unused h]
    exact UInt64.zero_le
  · exact ((hl.slots i).incarnation h).2

/-- A reservation takes an unused slot of a table that has no other in use. -/
theorem LcOk.reserve (hl : LcOk life) {i : UInt64} (hs : (life.at i).state = LcState.unused)
    (hfree : ∀ j, (life.slots j).occupied = false) (hm : life.lastIncarnation ≠ Word.max) :
    LcOk ({ life with lastIncarnation := life.lastIncarnation + 1 }.set i
      { life.at i with incarnation := life.lastIncarnation + 1, state := LcState.starting }) := by
  have hz : life.at i = LcSlot.zero := (hl.slots (slotIx i)).unused hs
  have hlt : life.lastIncarnation < life.lastIncarnation + 1 := by
    rw [UInt64.lt_iff_toNat_lt, Word.toNat_succ hm]
    omega
  refine ⟨fun j => ?_, fun j k hjk hj => ?_, fun j k hj hk => ?_⟩
  · by_cases hj : j = slotIx i
    · subst hj
      rw [Lifecycle.set_slots_self, hz]
      exact .of_live (w := LcState.starting) rfl (by decide) (by decide)
        ⟨(UInt64.ne_of_lt (UInt64.lt_of_le_of_lt UInt64.zero_le hlt)).symm, UInt64.le_refl _⟩ (Or.inl rfl)
        (fun _ => ⟨rfl, rfl⟩) ⟨rfl, rfl⟩
    · rw [Lifecycle.set_slots_of_ne _ hj]
      exact (hl.slots j).mono (UInt64.le_of_lt hlt)
  · -- the new incarnation is above every other
    have hne : ∀ n, (life.slots n).incarnation ≠ life.lastIncarnation + 1 := fun n =>
      UInt64.ne_of_lt (UInt64.lt_of_le_of_lt (hl.incarnation_le n) hlt)
    by_cases hji : j = slotIx i
    · subst hji
      rw [Lifecycle.set_slots_self, Lifecycle.set_slots_of_ne _ (Ne.symm hjk)]
      exact (hne k).symm
    · rw [Lifecycle.set_slots_of_ne _ hji] at hj ⊢
      by_cases hki : k = slotIx i
      · subst hki
        rw [Lifecycle.set_slots_self]
        exact hne j
      · rw [Lifecycle.set_slots_of_ne _ hki]
        exact hl.distinct j k hjk hj
  · have hall : ∀ n, (({ life with lastIncarnation := life.lastIncarnation + 1 }.set i
        { life.at i with incarnation := life.lastIncarnation + 1,
                         state := LcState.starting }).slots n).occupied = true → n = slotIx i := by
      intro n hn
      by_contra hne
      rw [Lifecycle.set_slots_of_ne _ hne] at hn
      exact Bool.false_ne_true ((hfree n).symm.trans hn)
    rw [hall j hj, hall k hk]

/-- Any other event moves the one slot in use. -/
theorem LcOk.slot (hl : LcOk life) {i op sequence : UInt64} {s' : LcSlot}
    (hs : SlotStep (life.at i) actor op sequence b v s') : LcOk (life.set i s') := by
  have hocc : (life.slots (slotIx i)).occupied = true := hs.occupied
  refine ⟨fun j => ?_, fun j k hjk hj => ?_, fun j k hj hk => ?_⟩
  · by_cases hji : j = slotIx i
    · subst hji
      rw [Lifecycle.set_slots_self]
      exact hs.slotOk (hl.slots (slotIx i))
    · rw [Lifecycle.set_slots_of_ne _ hji]
      exact hl.slots j
  · have hinc : ∀ n, ((life.set i s').slots n).incarnation = (life.slots n).incarnation := by
      intro n
      by_cases hni : n = slotIx i
      · subst hni
        rw [Lifecycle.set_slots_self]
        exact hs.incarnation
      · rw [Lifecycle.set_slots_of_ne _ hni]
    rw [hinc j, hinc k]
    refine hl.distinct j k hjk ?_
    by_cases hji : j = slotIx i
    · subst hji
      exact (by simpa [LcSlot.occupied] using hocc : _ ∧ _).1
    · rwa [Lifecycle.set_slots_of_ne _ hji] at hj
  · -- the slot that moved was occupied, so no other is
    have hall : ∀ n, ((life.set i s').slots n).occupied = true → n = slotIx i := by
      intro n hnocc
      by_contra hne
      rw [Lifecycle.set_slots_of_ne _ hne] at hnocc
      exact hne (hl.alone n (slotIx i) hnocc hocc)
    rw [hall j hj, hall k hk]

/-- **The table keeps the invariant.** -/
theorem LcStep.lcOk (h : LcStep life actor e b v life') (hl : LcOk life) : LcOk life' := by
  cases h with
  | reserve i hi hs hfree hm => exact hl.reserve hs hfree hm
  | slot i hi hn hs => exact hl.slot hs

/-- The events of the table move one slot, forward. -/
theorem LcStep.moves (h : LcStep life actor e b v life') (i : Fin 2) :
    SlotMoves (life.slots i) (life'.slots i) ∧ (i ≠ slotIx e.slot → life'.slots i = life.slots i) := by
  have key : ∀ {i : UInt64} {s' : LcSlot} {l : Lifecycle}, l.slots = life.slots →
      SlotMoves (life.at i) s' → ∀ j, SlotMoves (life.slots j) ((l.set i s').slots j) ∧
        (j ≠ slotIx i → (l.set i s').slots j = life.slots j) := by
    intro i s' l hl hm j
    by_cases hj : j = slotIx i
    · subst hj
      rw [Lifecycle.set_slots_self]
      exact ⟨hm, fun hne => absurd rfl hne⟩
    · rw [Lifecycle.set_slots_of_ne _ hj, hl]
      exact ⟨.refl _, fun _ => rfl⟩
  cases h with
  | reserve i hi hs hfree hm =>
    refine key (l := { life with lastIncarnation := life.lastIncarnation + 1 }) rfl ?_ _
    exact ⟨by rw [hs]; exact UInt64.zero_le, Or.inl rfl, fun h => by simp [hs] at h⟩
  | slot i hi hn hs => exact key rfl hs.moves _

theorem LcStep.lastIncarnation (h : LcStep life actor e b v life') :
    life'.lastIncarnation.toNat = life.lastIncarnation.toNat ∨
      life'.lastIncarnation.toNat = life.lastIncarnation.toNat + 1 := by
  cases h with
  | reserve i hi hs hfree hm => exact Or.inr (Word.toNat_succ hm)
  | slot i hi hn hs => exact Or.inl rfl

theorem LcStep.active (h : LcStep life actor e b v life') {i : Fin 2}
    (h0 : (life.slots i).state ≠ LcState.active) (h1 : (life'.slots i).state = LcState.active) :
    actor = .admin ∧ e.op = LcOp.activate ∧ b = true := by
  have hi : i = slotIx e.slot := by
    by_contra hne
    rw [(h.moves i).2 hne] at h1
    exact h0 h1
  subst hi
  cases h with
  | reserve i hi hs hfree hm => simp at h1
  | slot i hi hn hs => exact hs.active h0 (by simpa using h1)

end LcStep

theorem slotIx_val {i : UInt64} (h : i < slotCount) : (slotIx i).val = i.toNat := by
  have : i.toNat < 2 := UInt64.lt_iff_toNat_lt.mp h
  simpa [slotIx, slotNth, Fin.ofNat] using Nat.mod_eq_of_lt this

/-- **The lifecycle's invariant.** From every lifecycle the structural check accepts, reachable or
not, every call leaves one it accepts. A refused call changes nothing and returns zero. In every
case the last incarnation, the phases and the ticket counters go up without wrapping, a retired slot
and every slot but the event's stay as they are, and a slot becomes active only when the
administrator's `ACTIVATE` was audited. -/
theorem lifecycle_invariant (life : Lifecycle) (actor : LcActor) (e : LcEvent) (auditOk : Bool)
    (hv : lcValid life = true) :
    let out := lcApply life actor e auditOk
    lcValid out.2 = true ∧
    (out.1.status ≠ LcStatus.ok → out.2 = life ∧ out.1.value = 0) ∧
    (out.2.lastIncarnation.toNat = life.lastIncarnation.toNat ∨
      out.2.lastIncarnation.toNat = life.lastIncarnation.toNat + 1) ∧
    ∀ i, (life.slots i).state ≤ (out.2.slots i).state ∧
      ((out.2.slots i).issued.toNat = (life.slots i).issued.toNat ∨
        (out.2.slots i).issued.toNat = (life.slots i).issued.toNat + 1) ∧
      ((life.slots i).state = LcState.retired → out.2.slots i = life.slots i) ∧
      (i.val ≠ e.slot.toNat → out.2.slots i = life.slots i) ∧
      ((life.slots i).state ≠ LcState.active → (out.2.slots i).state = LcState.active →
        out.1.status = LcStatus.ok ∧ actor = .admin ∧ e.op = LcOp.activate ∧ auditOk = true) := by
  intro out
  by_cases hok : out.1.status = LcStatus.ok
  · obtain ⟨-, hs⟩ := lcStep_of_ok hok
    refine ⟨(lcValid_iff _).mpr (hs.lcOk ((lcValid_iff _).mp hv)), fun h => absurd hok h,
      hs.lastIncarnation, fun i => ?_⟩
    obtain ⟨⟨hphase, hissued, hret⟩, hother⟩ := hs.moves i
    refine ⟨hphase, hissued, hret, fun hi => hother ?_, fun h0 h1 => ⟨hok, hs.active h0 h1⟩⟩
    rintro rfl
    exact hi (slotIx_val hs.guards.1)
  · obtain ⟨hval, hsame⟩ := lcApply_of_ne hok
    change out.2 = life at hsame
    rw [hsame]
    exact ⟨hv, fun _ => ⟨rfl, hval⟩, Or.inl rfl, fun i => ⟨UInt64.le_refl _, Or.inl rfl,
      fun _ => rfl, fun _ => rfl, fun h0 h1 => absurd h1 h0⟩⟩

/-- The zeroed lifecycle is valid; the administrator reserves its first slot. -/
theorem lifecycle_invariant_reserve :
    lcValid Lifecycle.zero = true ∧
      lcValid (lcApply Lifecycle.zero .admin ⟨LcOp.reserve, 0, 0, 0⟩ true).2 = true :=
  ⟨by decide, (lifecycle_invariant Lifecycle.zero .admin ⟨LcOp.reserve, 0, 0, 0⟩ true (by decide)).1⟩

end Tcs
