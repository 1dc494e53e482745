/-
# The Python references

The repository checks the three C models against independent references in
Python, over unbounded integers: `reference` of
`tests/lifecycle_model_test.py`, `observe` and `reference` of
`tests/reduction_model_test.py` and of `tests/deadline_model_test.py`, each
composed with the one before. They are translated here over `ℕ`, with the
tests' own tables of roles and phases and their own order of checks. Reading
every word as a number takes a C state to a state of the reference, and on
every valid state each call of the C model is the call of the reference.

The tests compare a few thousand small states; the theorem is about all
words.

Key definitions: `Ref.lcReference`, `Ref.rdObserve`, `Ref.rdReference`,
`Ref.dlObserve`, `Ref.dlReference`, `Lifecycle.ref`, `Reduction.ref`,
`Deadline.ref`.
Key theorems: `lcApply_ref`, `rdPoll_ref`, `rdApply_ref`, `dlPoll_ref`,
`dlApply_ref`, `models_agree_with_references`.
-/
import Tcs.Deadline

namespace Tcs

/-! ### The references -/

namespace Ref

/-- `MAX`. -/
abbrev MAX : ℕ := 2 ^ 64 - 1

/-- A slot: phase, incarnation, issued, pending, stopped, drained. -/
@[ext] structure Slot where
  phase : ℕ
  ident : ℕ
  issued : ℕ
  pending : ℕ
  stopped : ℕ
  drained : ℕ
  deriving DecidableEq, Repr

/-- The lifecycle state: last incarnation, then the slots. -/
@[ext] structure Life where
  last : ℕ
  slots : Fin 2 → Slot
  deriving DecidableEq

/-- The reduction state: lifecycle, inhibited, fault. -/
@[ext] structure Control where
  life : Life
  inhibited : ℕ
  fault : ℕ
  deriving DecidableEq

/-- The deadline state: reduction state, last accepted tick, clock fault, two ends. -/
@[ext] structure Owner where
  control : Control
  tick : ℕ
  fault : ℕ
  ends : Fin 2 → ℕ
  deriving DecidableEq

/-- An event. -/
structure Event where
  actor : ℕ
  op : ℕ
  index : ℕ
  incarnation : ℕ
  sequence : ℕ
  audit : Bool
  deriving DecidableEq, Repr

/-! `UNUSED, …, RETIRED`, `RESERVE, …, DRAINED` and `OK, …, EXHAUSTED`. -/

@[simp] abbrev UNUSED : ℕ := 0
@[simp] abbrev STARTING : ℕ := 1
@[simp] abbrev READY : ℕ := 2
@[simp] abbrev ACTIVE : ℕ := 3
@[simp] abbrev CLOSING : ℕ := 4
@[simp] abbrev RETIRED : ℕ := 5

@[simp, match_pattern] abbrev RESERVE : ℕ := 1
@[simp, match_pattern] abbrev STARTED : ℕ := 2
@[simp, match_pattern] abbrev ACTIVATE : ℕ := 3
@[simp, match_pattern] abbrev BEGIN : ℕ := 4
@[simp, match_pattern] abbrev COMPLETE : ℕ := 5
@[simp, match_pattern] abbrev CONTAIN : ℕ := 6
@[simp, match_pattern] abbrev STOPPED : ℕ := 7
@[simp, match_pattern] abbrev DRAINED : ℕ := 8

@[simp] abbrev OK : ℕ := 0
@[simp] abbrev INVALID : ℕ := 1
@[simp] abbrev DENIED : ℕ := 2
@[simp] abbrev STALE : ℕ := 3
@[simp] abbrev BAD_STATE : ℕ := 4
@[simp] abbrev AUDIT_REQUIRED : ℕ := 5
@[simp] abbrev EXHAUSTED : ℕ := 6

/-- `ROLES`: the actors an operation is for; an operation outside the table has none. -/
def ROLES : ℕ → Option (List ℕ)
  | RESERVE => some [1]
  | STARTED => some [2]
  | ACTIVATE => some [1]
  | BEGIN => some [3]
  | COMPLETE => some [3]
  | CONTAIN => some [1, 2, 4]
  | STOPPED => some [2]
  | DRAINED => some [3]
  | _ => none

/-- `PHASES`: the phases an operation is for. -/
def PHASES : ℕ → List ℕ
  | RESERVE => [UNUSED]
  | STARTED => [STARTING]
  | ACTIVATE => [READY]
  | BEGIN => [ACTIVE]
  | COMPLETE => [ACTIVE]
  | CONTAIN => [STARTING, READY, ACTIVE]
  | STOPPED => [CLOSING]
  | DRAINED => [CLOSING]
  | _ => []

/-- `reference` of the lifecycle test from the phase check on: the value, the last incarnation and
the slot, or the status it fails with. -/
def transition (state : Life) (s : Slot) (e : Event) : Except ℕ (ℕ × ℕ × Slot) :=
  if s.phase ∉ PHASES e.op then .error BAD_STATE
  else if e.op = RESERVE then
    if ∃ i, (state.slots i).phase ≠ UNUSED ∧ (state.slots i).phase ≠ RETIRED then .error BAD_STATE
    else if state.last = MAX then .error EXHAUSTED
    else if !e.audit then .error AUDIT_REQUIRED
    else .ok (state.last + 1, state.last + 1, { s with phase := STARTING, ident := state.last + 1 })
  else if e.op = STARTED ∨ e.op = ACTIVATE then
    if e.op = ACTIVATE ∧ !e.audit then .error AUDIT_REQUIRED
    else .ok (s.ident, state.last, { s with phase := if e.op = STARTED then READY else ACTIVE })
  else if e.op = BEGIN then
    if s.pending ≠ 0 then .error BAD_STATE
    else if s.issued = MAX then .error EXHAUSTED
    else .ok (s.issued + 1, state.last, { s with issued := s.issued + 1, pending := s.issued + 1 })
  else if e.op = COMPLETE then
    if e.sequence ≠ s.pending then .error STALE
    else .ok (e.sequence, state.last, { s with pending := 0 })
  else if e.op = CONTAIN then .ok (s.ident, state.last, { s with phase := CLOSING })
  else
    if e.sequence ≠ s.issued then .error STALE
    else if (if e.op = STOPPED then s.stopped else s.drained) ≠ 0 then .error BAD_STATE
    else
      let s := if e.op = STOPPED then { s with stopped := 1 } else { s with drained := 1, pending := 0 }
      let s := if s.stopped ≠ 0 ∧ s.drained ≠ 0 then { s with phase := RETIRED } else s
      .ok (s.ident, state.last, s)

/-- `reference` of the lifecycle test. -/
def lcReference (state : Life) (e : Event) : (ℕ × ℕ) × Life :=
  if e.index ≥ 2 ∨ ROLES e.op = none then ((INVALID, 0), state)
  else if e.actor ∉ (ROLES e.op).getD [] then ((DENIED, 0), state)
  else if (e.op ∉ [COMPLETE, STOPPED, DRAINED] ∧ e.sequence ≠ 0) ∨
      (e.op = COMPLETE ∧ e.sequence = 0) ∨
      (if e.op = RESERVE then e.incarnation ≠ 0 else e.incarnation = 0) then ((INVALID, 0), state)
  else
    let index := slotNth e.index
    let s := state.slots index
    if e.op ≠ RESERVE ∧ e.incarnation ≠ s.ident then ((STALE, 0), state)
    else
      match transition state s e with
      | .error status => ((status, 0), state)
      | .ok (value, last, s) => ((OK, value), ⟨last, Function.update state.slots index s⟩)

/-- `observe` of the reduction test. `sample & ~3` clears the two low bits. -/
def rdObserve (state : Control) (sample : ℕ) : Control :=
  let malformed := Nat.ldiff sample 3 ≠ 0
  let inhibited := state.inhibited ||| if malformed then 3 else sample
  { life :=
      { state.life with
        slots := fun i =>
          let slot := state.life.slots i
          if inhibited &&& (1 <<< i.val) ≠ 0 ∧ slot.phase ∈ [STARTING, READY, ACTIVE] then
            { slot with phase := CLOSING }
          else slot }
    inhibited := inhibited
    fault := if state.fault ≠ 0 ∨ malformed then 1 else 0 }

/-- `reference` of the reduction test for an event. -/
def rdReference (state : Control) (sample : ℕ) (e : Event) : (ℕ × ℕ) × Control :=
  let state := rdObserve state sample
  if e.index < 2 ∧ state.inhibited &&& (1 <<< e.index) ≠ 0 ∧ e.op ∈ [RESERVE, ACTIVATE] then
    ((DENIED, 0), state)
  else
    let out := lcReference state.life e
    (out.1, { state with life := out.2 })

/-- `reference` of the reduction test for a poll. -/
def rdPollReference (state : Control) (sample : ℕ) : (ℕ × ℕ) × Control :=
  ((if Nat.ldiff sample 3 ≠ 0 then 1 else 0, 0), rdObserve state sample)

/-- `observe` of the deadline test. -/
def dlObserve (state : Owner) (sample : ℕ) (ok : Bool) (tick : ℕ) : Owner :=
  let fault := if state.fault ≠ 0 ∨ !ok ∨ tick < state.tick then 1 else 0
  let last := if fault ≠ 0 then state.tick else tick
  let expired := (List.finRange 2).filter fun i => state.ends i ≠ 0 ∧ state.ends i ≤ tick
  let sample := sample ||| if fault ≠ 0 then 3 else (expired.map fun i => 1 <<< i.val).sum
  ⟨rdObserve state.control sample, last, fault, state.ends⟩

/-- `reference` of the deadline test for a poll. -/
def dlPollReference (state : Owner) (sample : ℕ) (ok : Bool) (tick : ℕ) : (ℕ × ℕ) × Owner :=
  let after := dlObserve state sample ok tick
  ((if after.fault ≠ 0 ∨ after.control.fault ≠ 0 then 1 else 0, 0), after)

/-- `reference` of the deadline test for an event. -/
def dlReference (state : Owner) (sample : ℕ) (ok : Bool) (tick duration : ℕ) (e : Event) :
    (ℕ × ℕ) × Owner :=
  let after := dlObserve state sample ok tick
  if (e.op = RESERVE ∧ ¬ (0 < duration ∧ duration ≤ MAX - after.tick)) ∨
      (e.op ≠ RESERVE ∧ duration ≠ 0) then ((INVALID, 0), after)
  else
    let out := rdReference after.control 0 e
    let ends :=
      if out.1.1 = OK ∧ e.op = RESERVE then
        fun i : Fin 2 => if i.val = e.index then after.tick + duration else after.ends i
      else after.ends
    (out.1, ⟨out.2, after.tick, after.fault, ends⟩)

end Ref

/-! ### Reading words as numbers -/

/-- The value of the enumerator. -/
def LcActor.code : LcActor → ℕ
  | .unknown => 0
  | .admin => 1
  | .supervisor => 2
  | .broker => 3
  | .detector => 4
  | .worker => 5
  | .other n => 6 + n

/-- The value of the enumerator. -/
def RdPollStatus.code : RdPollStatus → ℕ
  | .ok => 0
  | .malformed => 1
  | .invalidState => 2

/-- The value of the enumerator. -/
def DlStatus.code : DlStatus → ℕ
  | .ok => 0
  | .fault => 1
  | .invalidState => 2

def LcSlot.ref (s : LcSlot) : Ref.Slot :=
  ⟨s.state.toNat, s.incarnation.toNat, s.issued.toNat, s.pending.toNat, s.stopped.toNat,
    s.drained.toNat⟩

def Lifecycle.ref (life : Lifecycle) : Ref.Life :=
  ⟨life.lastIncarnation.toNat, fun i => (life.slots i).ref⟩

def Reduction.ref (control : Reduction) : Ref.Control :=
  ⟨control.life.ref, control.inhibited.toNat, control.inputFault.toNat⟩

def Deadline.ref (owner : Deadline) : Ref.Owner :=
  ⟨owner.control.ref, owner.lastTick.toNat, owner.clockFault.toNat, fun i => (owner.ends i).toNat⟩

def LcEvent.ref (e : LcEvent) (actor : LcActor) (auditOk : Bool) : Ref.Event :=
  ⟨actor.code, e.op.toNat, e.slot.toNat, e.incarnation.toNat, e.sequence.toNat, auditOk⟩

def LcResult.ref (r : LcResult) : ℕ × ℕ := (r.status.toNat, r.value.toNat)

/-! ### The lifecycle -/

section Life

variable {e : LcEvent} {actor : LcActor} {b : Bool}

theorem op_cases (op : UInt64) : op = LcOp.reserve ∨ op = LcOp.started ∨ op = LcOp.activate ∨
    op = LcOp.begin ∨ op = LcOp.complete ∨ op = LcOp.contain ∨ op = LcOp.stopped ∨
    op = LcOp.drained ∨ (op < LcOp.reserve ∨ op > LcOp.drained) := by
  grind

theorem roles_eq_none {op : UInt64} (h : op < LcOp.reserve ∨ op > LcOp.drained) :
    Ref.ROLES op.toNat = none := by
  rw [UInt64.lt_iff_toNat_lt, gt_iff_lt, UInt64.lt_iff_toNat_lt] at h
  unfold Ref.ROLES
  split <;> first | rfl | (exfalso; simp_all)

theorem mem_roles {op : UInt64} (h : ¬ (op < LcOp.reserve ∨ op > LcOp.drained)) (actor : LcActor) :
    ∃ roles, Ref.ROLES op.toNat = some roles ∧ (actor.code ∈ roles ↔ permitted actor op = true) := by
  rcases op_cases op with rfl | rfl | rfl | rfl | rfl | rfl | rfl | rfl | hop
  any_goals refine ⟨_, rfl, ?_⟩; cases actor <;> simp [LcActor.code, permitted]; omega
  exact absurd hop h

theorem malformed_ref (e : LcEvent) (actor : LcActor) (b : Bool) :
    (((e.ref actor b).op ∉ [Ref.COMPLETE, Ref.STOPPED, Ref.DRAINED] ∧ (e.ref actor b).sequence ≠ 0) ∨
      ((e.ref actor b).op = Ref.COMPLETE ∧ (e.ref actor b).sequence = 0) ∨
      (if (e.ref actor b).op = Ref.RESERVE then (e.ref actor b).incarnation ≠ 0
        else (e.ref actor b).incarnation = 0)) ↔ e.malformed = true := by
  have h1 : e.op.toNat = 1 ↔ e.op = 1 := Word.toNat_eq_ofNat (by omega)
  have h5 : e.op.toNat = 5 ↔ e.op = 5 := Word.toNat_eq_ofNat (by omega)
  have h7 : e.op.toNat = 7 ↔ e.op = 7 := Word.toNat_eq_ofNat (by omega)
  have h8 : e.op.toNat = 8 ↔ e.op = 8 := Word.toNat_eq_ofNat (by omega)
  simp [LcEvent.malformed, LcEvent.ref, h5, h7, h8, h1, Word.toNat_eq_zero, and_assoc]

@[simp] theorem Lifecycle.ref_last (life : Lifecycle) :
    life.ref.last = life.lastIncarnation.toNat := rfl

@[simp] theorem Lifecycle.ref_slots (life : Lifecycle) (i : Fin 2) :
    life.ref.slots i = (life.slots i).ref := rfl

theorem Lifecycle.ref_set (life : Lifecycle) (i : UInt64) (s : LcSlot) :
    (life.set i s).ref =
      ⟨life.lastIncarnation.toNat, Function.update life.ref.slots (slotIx i) s.ref⟩ := by
  ext1
  · rfl
  · funext j
    by_cases hj : j = slotIx i
    · subst hj
      simp
    · rw [Lifecycle.ref_slots, Lifecycle.set_slots_of_ne _ hj]
      simp [Function.update_of_ne hj]

theorem phase_eq (s : LcSlot) : (s.state.toNat = 0 ↔ s.state = 0) ∧ (s.state.toNat = 1 ↔ s.state = 1) ∧
    (s.state.toNat = 2 ↔ s.state = 2) ∧ (s.state.toNat = 3 ↔ s.state = 3) ∧
    (s.state.toNat = 4 ↔ s.state = 4) ∧ (s.state.toNat = 5 ↔ s.state = 5) :=
  ⟨Word.toNat_eq_ofNat (by omega), Word.toNat_eq_ofNat (by omega), Word.toNat_eq_ofNat (by omega),
    Word.toNat_eq_ofNat (by omega), Word.toNat_eq_ofNat (by omega), Word.toNat_eq_ofNat (by omega)⟩

theorem eq_MAX (x : UInt64) : x.toNat = Ref.MAX ↔ x = Word.max := Word.toNat_eq_max

/-- The reference makes the transition of the code's `switch`. -/
def Agrees (life : Lifecycle) (actor : LcActor) (e : LcEvent) (b : Bool) : Prop :=
  match lcSwitch life e b with
  | .error status =>
    Ref.transition life.ref (life.at e.slot).ref (e.ref actor b) = .error status.toNat
  | .ok (v, life') => ∃ last s,
    life'.ref = ⟨last, Function.update life.ref.slots (slotIx e.slot) s⟩ ∧
      Ref.transition life.ref (life.at e.slot).ref (e.ref actor b) = .ok (v.toNat, last, s)

section Transition

variable (life : Lifecycle) (actor : LcActor) (b : Bool) (i incarnation sequence : UInt64)

theorem agrees_reserve : Agrees life actor ⟨LcOp.reserve, i, incarnation, sequence⟩ b := by
  have hocc : (∃ j, (life.ref.slots j).phase ≠ 0 ∧ (life.ref.slots j).phase ≠ 5) ↔
      ∃ j, (life.slots j).state ≠ 0 ∧ (life.slots j).state ≠ 5 := by
    refine exists_congr fun j => ?_
    obtain ⟨h0, -, -, -, -, h5⟩ := phase_eq (life.slots j)
    exact and_congr (not_congr h0) (not_congr h5)
  obtain ⟨h0, -⟩ := phase_eq (life.at i)
  by_cases hs : (life.at i).state = 0
  · by_cases ho : ∃ j, (life.slots j).state ≠ 0 ∧ (life.slots j).state ≠ 5
    · have ho' := hocc.mpr ho
      simp only [Agrees, lcSwitch, Ref.transition, if_pos ho, if_pos ho', hs]
      simp [LcEvent.ref, LcSlot.ref, Ref.PHASES, hs]
    · have ho' := mt hocc.mp ho
      simp only [Agrees, lcSwitch, Ref.transition, if_neg ho, if_neg ho', hs]
      by_cases hm : life.lastIncarnation = Word.max
      · simp [LcEvent.ref, LcSlot.ref, Ref.PHASES, hs, hm, eq_MAX]
      · cases b
        · simp [LcEvent.ref, LcSlot.ref, Ref.PHASES, hs, hm, eq_MAX]
        · simp [LcEvent.ref, LcSlot.ref, Ref.PHASES, hs, hm, eq_MAX, Lifecycle.ref_set,
            Word.toNat_succ hm]
          rfl
  · simp [Agrees, lcSwitch, Ref.transition, LcEvent.ref, LcSlot.ref, Ref.PHASES, h0, hs]

theorem agrees_started : Agrees life actor ⟨LcOp.started, i, incarnation, sequence⟩ b := by
  obtain ⟨-, h1, -⟩ := phase_eq (life.at i)
  by_cases hs : (life.at i).state = 1
  · simp [Agrees, lcSwitch, Ref.transition, LcEvent.ref, LcSlot.ref, Ref.PHASES, hs,
      Lifecycle.ref_set]
  · simp [Agrees, lcSwitch, Ref.transition, LcEvent.ref, LcSlot.ref, Ref.PHASES, h1, hs]

theorem agrees_activate : Agrees life actor ⟨LcOp.activate, i, incarnation, sequence⟩ b := by
  obtain ⟨-, -, h2, -⟩ := phase_eq (life.at i)
  by_cases hs : (life.at i).state = 2
  · cases b <;> simp [Agrees, lcSwitch, Ref.transition, LcEvent.ref, LcSlot.ref, Ref.PHASES, hs,
      Lifecycle.ref_set]
  · simp [Agrees, lcSwitch, Ref.transition, LcEvent.ref, LcSlot.ref, Ref.PHASES, h2, hs]

theorem agrees_begin : Agrees life actor ⟨LcOp.begin, i, incarnation, sequence⟩ b := by
  obtain ⟨-, -, -, h3, -⟩ := phase_eq (life.at i)
  by_cases hs : (life.at i).state = 3
  · by_cases hp : (life.at i).pending = 0
    · by_cases hm : (life.at i).issued = Word.max
      · simp [Agrees, lcSwitch, Ref.transition, LcEvent.ref, LcSlot.ref, Ref.PHASES, hs, hp, hm,
          eq_MAX]
      · simp [Agrees, lcSwitch, Ref.transition, LcEvent.ref, LcSlot.ref, Ref.PHASES, hs, hp, hm,
          eq_MAX, Lifecycle.ref_set, Word.toNat_succ hm]
    · have hp' := mt Word.toNat_eq_zero.mp hp
      simp [Agrees, lcSwitch, Ref.transition, LcEvent.ref, LcSlot.ref, Ref.PHASES, hs, hp, hp']
  · simp [Agrees, lcSwitch, Ref.transition, LcEvent.ref, LcSlot.ref, Ref.PHASES, h3, hs]

theorem agrees_complete : Agrees life actor ⟨LcOp.complete, i, incarnation, sequence⟩ b := by
  obtain ⟨-, -, -, h3, -⟩ := phase_eq (life.at i)
  by_cases hs : (life.at i).state = 3
  · by_cases hp : (life.at i).pending = sequence
    · subst hp
      simp [Agrees, lcSwitch, Ref.transition, LcEvent.ref, LcSlot.ref, Ref.PHASES, hs,
        Lifecycle.ref_set]
    · have hp' : sequence.toNat ≠ (life.at i).pending.toNat := fun h =>
        hp (UInt64.toNat_inj.mp h.symm)
      simp [Agrees, lcSwitch, Ref.transition, LcEvent.ref, LcSlot.ref, Ref.PHASES, hs, hp, hp']
  · simp [Agrees, lcSwitch, Ref.transition, LcEvent.ref, LcSlot.ref, Ref.PHASES, h3, hs]

theorem agrees_contain : Agrees life actor ⟨LcOp.contain, i, incarnation, sequence⟩ b := by
  obtain ⟨-, h1, h2, h3, -⟩ := phase_eq (life.at i)
  by_cases hs : (life.at i).state = 1 ∨ (life.at i).state = 2 ∨ (life.at i).state = 3
  · rcases hs with hs | hs | hs <;>
      simp [Agrees, lcSwitch, Ref.transition, LcEvent.ref, LcSlot.ref, Ref.PHASES, hs,
        Lifecycle.ref_set]
  · have hs' : (life.at i).state = 0 ∨ 3 < (life.at i).state := by grind
    simp only [not_or] at hs
    simp [Agrees, lcSwitch, Ref.transition, LcEvent.ref, LcSlot.ref, Ref.PHASES, h1, h2, h3, hs, hs']

theorem agrees_stopped : Agrees life actor ⟨LcOp.stopped, i, incarnation, sequence⟩ b := by
  obtain ⟨-, -, -, -, h4, -⟩ := phase_eq (life.at i)
  by_cases hs : (life.at i).state = 4
  · by_cases hq : sequence = (life.at i).issued
    · subst hq
      by_cases hd : (life.at i).stopped = 0
      · by_cases hr : (life.at i).drained = 0
        · simp [Agrees, lcSwitch, Ref.transition, LcEvent.ref, LcSlot.ref, Ref.PHASES, hs, hd, hr,
            Lifecycle.ref_set]
        · have hr' := mt Word.toNat_eq_zero.mp hr
          simp [Agrees, lcSwitch, Ref.transition, LcEvent.ref, LcSlot.ref, Ref.PHASES, hs, hd, hr, hr',
            Lifecycle.ref_set]
      · have hd' := mt Word.toNat_eq_zero.mp hd
        simp [Agrees, lcSwitch, Ref.transition, LcEvent.ref, LcSlot.ref, Ref.PHASES, hs, hd, hd']
    · have hq' := mt UInt64.toNat_inj.mp hq
      simp [Agrees, lcSwitch, Ref.transition, LcEvent.ref, LcSlot.ref, Ref.PHASES, hs, hq, hq']
  · simp [Agrees, lcSwitch, Ref.transition, LcEvent.ref, LcSlot.ref, Ref.PHASES, h4, hs]

theorem agrees_drained : Agrees life actor ⟨LcOp.drained, i, incarnation, sequence⟩ b := by
  obtain ⟨-, -, -, -, h4, -⟩ := phase_eq (life.at i)
  by_cases hs : (life.at i).state = 4
  · by_cases hq : sequence = (life.at i).issued
    · subst hq
      by_cases hd : (life.at i).drained = 0
      · by_cases hr : (life.at i).stopped = 0
        · simp [Agrees, lcSwitch, Ref.transition, LcEvent.ref, LcSlot.ref, Ref.PHASES, hs, hd, hr,
            Lifecycle.ref_set]
        · have hr' := mt Word.toNat_eq_zero.mp hr
          simp [Agrees, lcSwitch, Ref.transition, LcEvent.ref, LcSlot.ref, Ref.PHASES, hs, hd, hr, hr',
            Lifecycle.ref_set]
      · have hd' := mt Word.toNat_eq_zero.mp hd
        simp [Agrees, lcSwitch, Ref.transition, LcEvent.ref, LcSlot.ref, Ref.PHASES, hs, hd, hd']
    · have hq' := mt UInt64.toNat_inj.mp hq
      simp [Agrees, lcSwitch, Ref.transition, LcEvent.ref, LcSlot.ref, Ref.PHASES, hs, hq, hq']
  · simp [Agrees, lcSwitch, Ref.transition, LcEvent.ref, LcSlot.ref, Ref.PHASES, h4, hs]

end Transition

theorem agrees (life : Lifecycle) (actor : LcActor) (b : Bool)
    (hop : ¬ (e.op < LcOp.reserve ∨ e.op > LcOp.drained)) : Agrees life actor e b := by
  obtain ⟨op, i, incarnation, sequence⟩ := e
  rcases op_cases op with rfl | rfl | rfl | rfl | rfl | rfl | rfl | rfl | h
  · exact agrees_reserve ..
  · exact agrees_started ..
  · exact agrees_activate ..
  · exact agrees_begin ..
  · exact agrees_complete ..
  · exact agrees_contain ..
  · exact agrees_stopped ..
  · exact agrees_drained ..
  · exact absurd h hop

/-- **The lifecycle follows its reference**, on every valid state. -/
theorem lcApply_ref {life : Lifecycle} (h : lcValid life = true) (actor : LcActor) (e : LcEvent)
    (b : Bool) :
    Ref.lcReference life.ref (e.ref actor b) =
      ((lcApply life actor e b).1.ref, (lcApply life actor e b).2.ref) := by
  have hslot : (e.ref actor b).index ≥ 2 ↔ e.slot ≥ slotCount := by
    rw [ge_iff_le, ge_iff_le, UInt64.le_iff_toNat_le]
    rfl
  rw [Ref.lcReference, lcApply]
  by_cases h1 : e.slot ≥ slotCount ∨ e.op < LcOp.reserve ∨ e.op > LcOp.drained
  · have hg : (e.ref actor b).index ≥ 2 ∨ Ref.ROLES (e.ref actor b).op = none :=
      h1.imp hslot.mpr roles_eq_none
    rw [if_pos hg, if_pos (Or.inr h1)]
    rfl
  have hop : ¬ (e.op < LcOp.reserve ∨ e.op > LcOp.drained) := fun hc => h1 (Or.inr hc)
  obtain ⟨roles, hroles, hperm⟩ := mem_roles hop actor
  have hroles : Ref.ROLES (e.ref actor b).op = some roles := hroles
  have hg : ¬ ((e.ref actor b).index ≥ 2 ∨ Ref.ROLES (e.ref actor b).op = none) := by
    rw [hslot, hroles]
    simpa using fun hc => h1 (Or.inl hc)
  have hg' : ¬ (!lcValid life ∨ e.slot ≥ slotCount ∨ e.op < LcOp.reserve ∨ e.op > LcOp.drained) := by
    simpa [h] using h1
  rw [if_neg hg, if_neg hg', hroles, Option.getD_some]
  have hperm : (e.ref actor b).actor ∉ roles ↔ (!permitted actor e.op) = true := by
    rw [Bool.not_eq_true', ← Bool.not_eq_true]
    exact not_congr hperm
  by_cases hp : (!permitted actor e.op) = true
  · rw [if_pos (hperm.mpr hp), if_pos hp]
    rfl
  rw [if_neg (mt hperm.mp hp), if_neg hp]
  by_cases hm : e.malformed = true
  · rw [if_pos ((malformed_ref e actor b).mpr hm), if_pos hm]
    rfl
  rw [if_neg (mt (malformed_ref e actor b).mp hm), if_neg hm]
  have hstale : ((e.ref actor b).op ≠ Ref.RESERVE ∧ (e.ref actor b).incarnation ≠
      (life.ref.slots (slotNth (e.ref actor b).index)).ident) ↔
      (e.op ≠ LcOp.reserve ∧ e.incarnation ≠ (life.at e.slot).incarnation) :=
    and_congr (not_congr (Word.toNat_eq_ofNat (by decide))) (not_congr UInt64.toNat_inj)
  by_cases hs : e.op ≠ LcOp.reserve ∧ e.incarnation ≠ (life.at e.slot).incarnation
  · rw [if_pos hs]
    dsimp only
    rw [if_pos (hstale.mpr hs)]
    rfl
  rw [if_neg hs]
  dsimp only
  rw [if_neg (mt hstale.mp hs)]
  have hat : life.ref.slots (slotNth (e.ref actor b).index) = (life.at e.slot).ref := rfl
  have hagree := agrees life actor b hop
  unfold Agrees at hagree
  cases hsw : lcSwitch life e b with
  | error status =>
    rw [hsw] at hagree
    rw [hat, hagree]
    rfl
  | ok out =>
    rw [hsw] at hagree
    obtain ⟨last, s, hlife, htr⟩ := hagree
    rw [hat, htr]
    simp only [hlife]
    rfl

end Life

/-! ### The reduction latch -/

theorem malformed_iff (sample : UInt64) : Nat.ldiff sample.toNat 3 ≠ 0 ↔ malformed sample = true := by
  rw [malformed, decide_eq_true_eq, Ne, Ne, ← Word.toNat_eq_zero, Word.toNat_and_not]
  rfl

theorem inhibited_iff (w : UInt64) {i : ℕ} (hi : i < 64) :
    w.toNat &&& (1 <<< i) ≠ 0 ↔ Word.hasBit w i = true := by
  rw [Word.hasBit, decide_eq_true_eq, Ne, Ne, ← Word.toNat_eq_zero, UInt64.toNat_and,
    Word.toNat_bit hi, Nat.one_shiftLeft]

theorem live_phase (s : LcSlot) : s.ref.phase ∈ [Ref.STARTING, Ref.READY, Ref.ACTIVE] ↔ s.live = true := by
  obtain ⟨-, h1, h2, h3, -⟩ := phase_eq s
  rw [LcSlot.live_iff]
  simp only [LcSlot.ref, List.mem_cons, List.not_mem_nil, or_false, h1, h2, h3]
  grind

theorem latch_ref (control : Reduction) (sample : UInt64) :
    (control.latch sample).toNat =
      control.ref.inhibited ||| if Nat.ldiff sample.toNat 3 ≠ 0 then 3 else sample.toNat := by
  rw [Reduction.latch, UInt64.toNat_or]
  by_cases hm : malformed sample = true
  · rw [if_pos hm, if_pos ((malformed_iff _).mpr hm)]
    rfl
  · rw [if_neg hm, if_neg (mt (malformed_iff _).mp hm)]
    rfl

theorem observe_ref {control : Reduction} (h : RdOk control) (sample : UInt64) :
    Ref.rdObserve control.ref sample.toNat = (control.observe sample).ref := by
  have hf : control.ref.fault ≠ 0 ↔ control.inputFault = 1 := by
    have := h.fault
    rw [show control.ref.fault = control.inputFault.toNat from rfl, Ne, Word.toNat_eq_zero]
    grind
  simp only [Ref.rdObserve, ← latch_ref]
  ext1
  · ext1
    · rfl
    · funext i
      have hi : i.val < 64 := by have := i.isLt; omega
      change _ = ((control.life.slots i).contained (control.latch sample) i).ref
      rw [LcSlot.contained]
      dsimp only
      by_cases hc : Word.hasBit (control.latch sample) i = true ∧ (control.life.slots i).live = true
      · rw [if_pos hc, if_pos ⟨(inhibited_iff _ hi).mpr hc.1, (live_phase _).mpr hc.2⟩]
        rfl
      · rw [if_neg hc, if_neg]
        · rfl
        · exact fun h' => hc ⟨(inhibited_iff _ hi).mp h'.1, (live_phase _).mp h'.2⟩
  · rfl
  · change _ = (if malformed sample then 1 else control.inputFault).toNat
    dsimp only
    by_cases hm : malformed sample = true
    · rw [if_pos (Or.inr ((malformed_iff _).mpr hm)), if_pos hm]
      rfl
    · rw [if_neg hm]
      by_cases h0 : control.inputFault = 1
      · rw [if_pos (Or.inl (hf.mpr h0)), h0]
        rfl
      · rw [if_neg]
        · exact (not_not.mp (mt hf.mp h0)).symm
        · exact fun h' => h'.elim (fun h' => h0 (hf.mp h')) (mt (malformed_iff _).mp hm)

/-- **The latch follows its reference**, on every valid control: a poll. -/
theorem rdPoll_ref {control : Reduction} (h : rdValid control = true) (sample : UInt64) :
    Ref.rdPollReference control.ref sample.toNat =
      (((rdPoll control sample).1.code, 0), (rdPoll control sample).2.ref) := by
  have hok := (rdValid_iff _).mp h
  rw [Ref.rdPollReference, rdPoll_eq hok, observe_ref hok]
  by_cases hm : malformed sample = true
  · rw [if_pos ((malformed_iff _).mpr hm), if_pos hm]
    rfl
  · rw [if_neg (mt (malformed_iff _).mp hm), if_neg hm]
    rfl

/-- **The latch follows its reference**: an event. -/
theorem rdApply_ref {control : Reduction} (h : rdValid control = true) (sample : UInt64)
    (actor : LcActor) (e : LcEvent) (b : Bool) :
    Ref.rdReference control.ref sample.toNat (e.ref actor b) =
      ((rdApply control sample actor e b).1.ref, (rdApply control sample actor e b).2.ref) := by
  have hok := (rdValid_iff _).mp h
  rw [Ref.rdReference, observe_ref hok, rdApply_eq hok]
  have hok' := hok.observe sample
  generalize control.observe sample = mid at hok'
  have hd : ((e.ref actor b).index < 2 ∧ mid.ref.inhibited &&& (1 <<< (e.ref actor b).index) ≠ 0 ∧
      (e.ref actor b).op ∈ [Ref.RESERVE, Ref.ACTIVATE]) ↔ mid.denies e := by
    have h1 : e.op.toNat = 1 ↔ e.op = 1 := Word.toNat_eq_ofNat (by omega)
    have h3 : e.op.toNat = 3 ↔ e.op = 3 := Word.toNat_eq_ofNat (by omega)
    have hs : e.slot.toNat < 2 ↔ e.slot < slotCount := by rw [UInt64.lt_iff_toNat_lt]; rfl
    simp only [LcEvent.ref, Reduction.denies, hs, List.mem_cons, List.not_mem_nil, or_false, h1, h3]
    refine and_congr_right fun hlt => and_congr_left fun _ => ?_
    exact inhibited_iff _ (by have := hs.mpr hlt; omega)
  dsimp only
  by_cases hc : mid.denies e
  · rw [if_pos (hd.mpr hc), if_pos hc]
    rfl
  · rw [if_neg (mt hd.mp hc), if_neg hc]
    have hlife := lcApply_ref ((lcValid_iff _).mpr hok'.lcOk) actor e b
    rw [show mid.ref.life = mid.life.ref from rfl, hlife]
    rfl

/-! ### The deadline owner -/

theorem expire_ref (ends : Fin 2 → UInt64) (tick requests : UInt64) :
    (expire ends tick requests).toNat = requests.toNat |||
      (((List.finRange 2).filter fun i => (ends i).toNat ≠ 0 ∧ (ends i).toNat ≤ tick.toNat).map
        fun i => 1 <<< i.val).sum := by
  have hc : ∀ i, ((ends i).toNat ≠ 0 ∧ (ends i).toNat ≤ tick.toNat) ↔ (ends i ≠ 0 ∧ tick ≥ ends i) :=
    fun i => and_congr (not_congr Word.toNat_eq_zero) UInt64.le_iff_toNat_le.symm
  simp only [expire, hc, show List.finRange 2 = [0, 1] from rfl]
  by_cases h0 : ends 0 ≠ 0 ∧ tick ≥ ends 0 <;> by_cases h1 : ends 1 ≠ 0 ∧ tick ≥ ends 1
  · simp [List.filter, h0, h1, Nat.lor_assoc]
  · simp [List.filter, h0, h1]
  · simp [List.filter, h0, h1]
  · simp [List.filter, h0, h1]

theorem dlObserve_ref {owner : Deadline} (h : DlOk owner) (requests : UInt64) (reading : Reading) :
    Ref.dlObserve owner.ref requests.toNat reading.ok reading.tick.toNat =
      (owner.observe requests reading).ref := by
  have hf : (owner.ref.fault ≠ 0 ∨ (!reading.ok) = true ∨ reading.tick.toNat < owner.ref.tick) ↔
      owner.faulty reading := by
    have h1 : owner.ref.fault ≠ 0 ↔ owner.clockFault ≠ 0 := not_congr Word.toNat_eq_zero
    have h2 : reading.tick.toNat < owner.ref.tick ↔ reading.tick < owner.lastTick :=
      UInt64.lt_iff_toNat_lt.symm
    rw [h1, h2, Deadline.faulty, Bool.not_eq_true', ← Bool.not_eq_true]
    tauto
  have hobs : ∀ w : UInt64, Ref.rdObserve owner.ref.control w.toNat = (owner.control.observe w).ref :=
    observe_ref h.rdOk
  by_cases hfault : owner.faulty reading
  · have hreq : requests.toNat ||| 3 = (requests ||| rdAll).toNat := by
      rw [UInt64.toNat_or]
      rfl
    simp only [Ref.dlObserve, if_pos (hf.mpr hfault), ne_eq, one_ne_zero, not_false_eq_true, if_true,
      hreq, hobs, Deadline.observe, Deadline.requests, if_pos hfault]
    rfl
  · have hctl := hobs (expire owner.ends reading.tick requests)
    rw [expire_ref] at hctl
    simp only [Ref.dlObserve, if_neg (mt hf.mp hfault), ne_eq, not_true_eq_false, if_false,
      Deadline.observe, Deadline.requests, if_neg hfault]
    exact Ref.Owner.ext hctl rfl rfl rfl

/-- **The deadline owner follows its reference**, on every valid owner: a poll. -/
theorem dlPoll_ref {owner : Deadline} (h : dlValid owner = true) (requests : UInt64)
    (reading : Reading) :
    Ref.dlPollReference owner.ref requests.toNat reading.ok reading.tick.toNat =
      (((dlPoll owner requests reading).1.code, 0), (dlPoll owner requests reading).2.ref) := by
  have hok := (dlValid_iff _).mp h
  rw [Ref.dlPollReference, dlObserve_ref hok, dlPoll_eq hok]
  generalize owner.observe requests reading = mid
  have hf : (mid.ref.fault ≠ 0 ∨ mid.ref.control.fault ≠ 0) ↔
      (mid.clockFault ≠ 0 ∨ mid.control.inputFault ≠ 0) :=
    or_congr (not_congr Word.toNat_eq_zero) (not_congr Word.toNat_eq_zero)
  dsimp only
  by_cases hc : mid.clockFault ≠ 0 ∨ mid.control.inputFault ≠ 0
  · rw [if_pos hc, if_pos (hf.mpr hc)]
    rfl
  · rw [if_neg hc, if_neg (mt hf.mp hc)]
    rfl

theorem op_ref_reserve (e : LcEvent) (actor : LcActor) (b : Bool) :
    (e.ref actor b).op = Ref.RESERVE ↔ e.op = LcOp.reserve := Word.toNat_eq_ofNat (by decide)

/-- The reference refuses the durations that `tcs_dl_apply` refuses. -/
theorem badDuration_ref (mid : Deadline) (actor : LcActor) (e : LcEvent) (b : Bool)
    (duration : UInt64) :
    (((e.ref actor b).op = Ref.RESERVE ∧
      ¬ (0 < duration.toNat ∧ duration.toNat ≤ Ref.MAX - mid.ref.tick)) ∨
      ((e.ref actor b).op ≠ Ref.RESERVE ∧ duration.toNat ≠ 0)) ↔
      badDuration mid e duration = true := by
  have hop := op_ref_reserve e actor b
  have h0 := @Word.toNat_eq_zero duration
  have hle : duration.toNat ≤ Ref.MAX - mid.ref.tick ↔ duration ≤ Word.max - mid.lastTick :=
    Word.le_max_sub_iff.symm
  rw [hle, ← UInt64.not_lt, badDuration]
  by_cases hr : e.op = LcOp.reserve
  · rw [if_pos hr, decide_eq_true_eq]
    simp only [hop.mpr hr, true_and, ne_eq, not_true_eq_false, false_and, or_false,
      Nat.pos_iff_ne_zero, h0, not_and_or, not_not]
  · rw [if_neg hr, decide_eq_true_eq]
    simp [mt hop.mp hr, h0]

/-- **The deadline owner follows its reference**: an event. -/
theorem dlApply_ref {owner : Deadline} (h : dlValid owner = true) (requests : UInt64)
    (reading : Reading) (actor : LcActor) (e : LcEvent) (b : Bool) (duration : UInt64) :
    Ref.dlReference owner.ref requests.toNat reading.ok reading.tick.toNat duration.toNat
        (e.ref actor b) =
      ((dlApply owner requests reading actor e b duration).1.ref,
        (dlApply owner requests reading actor e b duration).2.ref) := by
  have hok := (dlValid_iff _).mp h
  have hmid := hok.observe requests reading
  rw [Ref.dlReference, dlObserve_ref hok]
  have hrd := rdApply_ref ((rdValid_iff _).mpr hmid.rdOk) 0 actor e b
  rw [dlApply_eq hok]
  rw [rdApply_eq hmid.rdOk, hmid.rdOk.observe_zero] at hrd
  generalize owner.observe requests reading = mid at hmid hrd
  have hop := op_ref_reserve e actor b
  have hd := badDuration_ref mid actor e b duration
  dsimp only
  by_cases hbad : badDuration mid e duration = true
  · rw [if_pos (hd.mpr hbad), if_pos hbad]
    rfl
  · rw [if_neg (mt hd.mp hbad), if_neg hbad, show mid.ref.control = mid.control.ref from rfl,
      show (0 : ℕ) = (0 : UInt64).toNat from rfl, hrd]
    by_cases hn : mid.control.denies e
    · rw [if_pos hn, if_pos hn]
      rfl
    rw [if_neg hn, if_neg hn]
    have hstatus : (lcApply mid.control.life actor e b).1.ref.1 = Ref.OK ↔
        (lcApply mid.control.life actor e b).1.status = LcStatus.ok := Word.toNat_eq_zero
    by_cases hs : (lcApply mid.control.life actor e b).1.status = LcStatus.ok
    · rw [if_pos hs]
      refine Prod.ext rfl (Ref.Owner.ext rfl rfl rfl ?_)
      dsimp only
      by_cases hr : e.op = LcOp.reserve
      · -- a reservation sets the end, without wrapping
        simp only [badDuration, if_pos hr, decide_eq_true_eq, not_or] at hbad
        have hslot : (slotIx e.slot).val = (e.ref actor b).index :=
          slotIx_val (lcStep_of_ok hs).2.guards.1
        rw [if_pos ⟨hstatus.mpr hs, hop.mpr hr⟩]
        change _ = fun i => ((mid.accept e duration _).ends i).toNat
        rw [mid.accept_ends_of_reserve _ _ hr]
        funext i
        by_cases hi : i = slotIx e.slot
        · subst hi
          rw [if_pos hslot, Function.update_self,
            Word.toNat_add_of_le (UInt64.not_lt.mp hbad.2)]
          rfl
        · rw [if_neg (fun hc => hi (Fin.ext (hc.trans hslot.symm))), Function.update_of_ne hi]
          rfl
      · rw [if_neg (fun hc => hr (hop.mp hc.2))]
        change _ = fun i => ((mid.accept e duration _).ends i).toNat
        rw [mid.accept_ends_of_ne _ _ hr]
        rfl
    · dsimp only
      rw [if_neg hs, if_neg (fun hc => hs (hstatus.mp hc.1)), (lcApply_of_ne hs).2]
      rfl

/-- **The three models agree with the repository's references.** On every state that the model's own
check accepts, whatever the words of the call, `tcs_lc_apply`, `tcs_rd_poll`, `tcs_rd_apply`,
`tcs_dl_poll` and `tcs_dl_apply` answer what the reference answers and reach the state it reaches. -/
theorem models_agree_with_references :
    (∀ life, lcValid life = true → ∀ actor e b,
      Ref.lcReference life.ref (e.ref actor b) =
        ((lcApply life actor e b).1.ref, (lcApply life actor e b).2.ref)) ∧
    (∀ control, rdValid control = true → ∀ sample,
      Ref.rdPollReference control.ref sample.toNat =
        (((rdPoll control sample).1.code, 0), (rdPoll control sample).2.ref)) ∧
    (∀ control, rdValid control = true → ∀ sample actor e b,
      Ref.rdReference control.ref sample.toNat (e.ref actor b) =
        ((rdApply control sample actor e b).1.ref, (rdApply control sample actor e b).2.ref)) ∧
    (∀ owner, dlValid owner = true → ∀ requests reading,
      Ref.dlPollReference owner.ref requests.toNat reading.ok reading.tick.toNat =
        (((dlPoll owner requests reading).1.code, 0), (dlPoll owner requests reading).2.ref)) ∧
    (∀ owner, dlValid owner = true → ∀ requests reading actor e b duration,
      Ref.dlReference owner.ref requests.toNat reading.ok reading.tick.toNat duration.toNat
          (e.ref actor b) =
        ((dlApply owner requests reading actor e b duration).1.ref,
          (dlApply owner requests reading actor e b duration).2.ref)) :=
  ⟨fun _ h => lcApply_ref h, fun _ h => rdPoll_ref h, fun _ h => rdApply_ref h,
    fun _ h => dlPoll_ref h, fun _ h => dlApply_ref h⟩

end Tcs
