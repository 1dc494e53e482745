/-
# The lifecycle supervisor

`tests/lifecycle/supervisor.c`: the owner of a lifecycle over two children,
slot `i` being child `i + 1`. A controller reserves, activates and contains
slots, the broker reports the start of a worker and moves its tickets, and
the kernel reports the faults of a child. A fault that is not the expected
one stops both children for good.

What any handler does to the supervisor is one of five things (`SvStep`):
nothing, an event of the table that starts and ends no worker, a reservation
followed by a resumption, a containment with its stop and its confirmation,
or the failure. The invariant `SvOk` is read off these.

Key definitions: `Supervisor`, `svContain`, `svProtected`, `svFault`,
`SvStep`, `SvOk`.
Key theorems: `svContain_live`, `svStep_protected`, `svStep_fault`,
`SvOk.svStep`, `contained_worker_never_runs`.
-/
import Tcs.Lib.Children
import Tcs.Lib.Run
import Tcs.LifecycleRun
import Tcs.Reduction
import Tcs.Runtime

namespace Tcs

open Ipc Kernel

/-! ### The data model -/

/-- The static variables of the supervisor, and its children as the kernel holds them. -/
structure Supervisor where
  life : Lifecycle
  ready : Bool
  failed : Bool
  faults : UInt64
  ip : UInt64
  address : UInt64
  fsr : UInt64
  children : Children

/-- The supervisor as it is loaded, with children in any state. -/
def Supervisor.loaded (children : Children) : Supervisor :=
  ⟨Lifecycle.zero, false, false, 0, 0, 0, 0, children⟩

/-- `LT_FAULT_ADDRESS`. -/
@[simp] abbrev faultAddress : UInt64 := 0x0dead000
/-- `seL4_Fault_VMFault`. -/
@[simp] abbrev vmFault : UInt64 := 6
/-- `seL4_VMFault_Length`. -/
@[simp] abbrev vmFaultLength : ℕ := 4

/-! ### The handlers -/

/-- `sv_fail`. -/
def svFail (s : Supervisor) : Supervisor :=
  { s with failed := true, children := (s.children.stop 1).stop 2 }

/-- `sv_apply`. -/
def svApply (s : Supervisor) (actor : LcActor) (op slot inc seq : UInt64) (fixtureAudit : Bool) :
    LcResult × Supervisor :=
  let out := lcApply s.life actor ⟨op, slot, inc, seq⟩ fixtureAudit
  (out.1, { s with life := out.2 })

/-- `sv_contain`. -/
def svContain (s : Supervisor) (slot : UInt64) (actor : LcActor) : LcResult × Supervisor :=
  let inc := (s.life.at slot).incarnation
  let seq := (s.life.at slot).issued
  let out := svApply s actor LcOp.contain slot inc 0 false
  if out.1.status ≠ LcStatus.ok then out
  else
    -- the stop has taken effect before it is recorded
    let stopped := { out.2 with children := out.2.children.stop (slot.toNat + 1) }
    let out := svApply stopped .supervisor LcOp.stopped slot inc seq false
    if out.1.status ≠ LcStatus.ok then (out.1, svFail out.2) else out

/-- `init`. -/
def svInit (s : Supervisor) : Supervisor :=
  if s.ready then svFail s
  else { s with ready := true, children := (s.children.stop 1).stop 2 }

/-- `notified`. -/
def svNotified (s : Supervisor) : Supervisor := s

/-- The answer to `LT_STATUS`. -/
def svSnapshot (mr : Registers) (s : Supervisor) : Message :=
  let mr := ((mr.set 0 s.failed.toNat.toUInt64).set 1 s.faults).set 2 s.life.lastIncarnation
  let mr := slotWords (slotWords mr 3 (s.life.at 0)) 9 (s.life.at 1)
  ⟨LtLabel.snapshot, 18, ((mr.set 15 s.ip).set 16 s.address).set 17 s.fsr⟩

/-- `protected`. -/
def svProtected (ch : ℕ) : Peer Supervisor := fun s m =>
  if !s.ready ∨ s.failed ∨ ch > 1 then (ltReply m.mr runtimeFailure 0, s)
  else if ch = 0 ∧ runtimeMessage m LtLabel.status 0 then (svSnapshot m.mr s, s)
  else if ch = 0 ∧ runtimeMessage m LtLabel.control 2 then
    let op := m.mr 0
    let slot := m.mr 1
    if slot ≥ slotCount ∨ (op ≠ LcOp.reserve ∧ op ≠ LcOp.activate ∧ op ≠ LcOp.contain) then
      (ltReply m.mr LcStatus.invalid 0, s)
    else if op = LcOp.contain then
      let out := svContain s slot .admin
      (ltReply m.mr out.1.status out.1.value, out.2)
    else
      let out := svApply s .admin op slot (if op = LcOp.reserve then 0 else (s.life.at slot).incarnation)
        0 true
      let s := if out.1.status = LcStatus.ok ∧ op = LcOp.reserve then
          { out.2 with children := out.2.children.resume (slot.toNat + 1) }
        else out.2
      (ltReply m.mr out.1.status out.1.value, s)
  else if ch = 1 ∧ (runtimeMessage m LtLabel.ready 1 ∨ runtimeMessage m LtLabel.view 1) then
    let slot := m.mr 0
    if slot ≥ slotCount then (ltReply m.mr LcStatus.invalid 0, s)
    else if m.label = LtLabel.view then (⟨LtLabel.slot, 6, slotWords m.mr 0 (s.life.at slot)⟩, s)
    else
      let out := svApply s .supervisor LcOp.started slot (s.life.at slot).incarnation 0 false
      (ltReply m.mr out.1.status out.1.value, out.2)
  else if ch = 1 ∧ runtimeMessage m LtLabel.event 4 then
    let op := m.mr 0
    let slot := m.mr 1
    let inc := m.mr 2
    let seq := m.mr 3
    if op ≠ LcOp.begin ∧ op ≠ LcOp.complete ∧ op ≠ LcOp.drained then
      (ltReply m.mr LcStatus.denied 0, s)
    else if slot ≥ slotCount then (ltReply m.mr LcStatus.invalid 0, s)
    -- stricter than the table: no drain before the stop
    else if op = LcOp.drained ∧ (s.life.at slot).stopped = 0 then (ltReply m.mr LcStatus.badState 0, s)
    else
      let out := svApply s .broker op slot inc seq false
      (ltReply m.mr out.1.status out.1.value, out.2)
  else (ltReply m.mr LcStatus.invalid 0, s)

/-- The words of a fault message that `fault` reads: zero unless the count is right. -/
def faultWord (m : Message) (i : ℕ) : UInt64 := if m.count = vmFaultLength then m.mr i else 0

/-- The fault that is expected: the second child, active with its first ticket, writes to the fixture's
address. -/
def svFaultValid (s : Supervisor) (child : ℕ) (m : Message) : Bool :=
  let ip := faultWord m 0
  let address := faultWord m 1
  let instruction := faultWord m 2
  let fsr := faultWord m 3
  s.ready ∧ !s.failed ∧ s.faults = 0 ∧ child = 2 ∧ m.label = vmFault ∧ m.count = 4 ∧
    ip ≥ 0x200000 ∧ ip < 0x300000 ∧ ip &&& 3 = 0 ∧ address = faultAddress ∧ instruction = 0 ∧
    fsr >>> 32 = 0 ∧ (fsr >>> 26) &&& 63 = 0x24 ∧ fsr &&& ((1 : UInt64) <<< 25) ≠ 0 ∧
    fsr &&& ((15 : UInt64) <<< 7) = 0 ∧ fsr &&& ((1 : UInt64) <<< 6) ≠ 0 ∧ fsr &&& 63 ≥ 4 ∧ fsr &&& 63 ≤ 7 ∧
    (s.life.at 1).state = LcState.active ∧ (s.life.at 1).pending = 1

/-- `fault`: the handler never lets the kernel answer the fault. -/
def svFault (child : ℕ) (m : Message) (s : Supervisor) : Supervisor :=
  if !svFaultValid s child m then svFail s
  else
    let out := svContain { s with
        ip := faultWord m 0, address := faultWord m 1, fsr := faultWord m 3, faults := 1 } 1 .supervisor
    if out.1.status ≠ LcStatus.ok then svFail out.2 else out.2

/-- A callback of the supervisor. -/
inductive SvCall
  | init
  | notified
  | call (ch : ℕ) (m : Message)
  | fault (child : ℕ) (m : Message)

/-- One callback. A child that faults is suspended before its parent is told. -/
def svCall (s : Supervisor) : SvCall → Supervisor × Option Message
  | .init => (svInit s, none)
  | .notified => (svNotified s, none)
  | .call ch m => ((svProtected ch s m).2, some (svProtected ch s m).1)
  | .fault child m => (svFault child m { s with children := s.children.faulted child }, none)

/-! ### What a handler does -/

/-- A slot in use before its closing stays so under every event but its containment. -/
theorem LcStep.stays_live {life life' : Lifecycle} {actor : LcActor} {e : LcEvent} {v : UInt64}
    {b : Bool} (h : LcStep life actor e b v life') (hop : e.op ≠ LcOp.contain) {i : Fin 2}
    (h0 : (life.slots i).live = true) : (life'.slots i).live = true := by
  by_cases hi : i = slotIx e.slot
  · subst hi
    cases h with
    | reserve i hi hs hfree hm => simp [LcSlot.live]
    | slot i hi hn hs =>
      rw [Lifecycle.set_slots_self]
      change (life.at i).live = true at h0
      have hlive := (LcSlot.live_iff _).mp h0
      rw [LcSlot.live_iff]
      cases hs <;> grind
  · rwa [(h.moves i).2 hi]

/-- The confirmation of the stop of a closing slot is accepted; without a drain the slot stays
closing. -/
theorem lcStep_stopped {life : Lifecycle} {slot : UInt64} (hi : slot < slotCount)
    (hn : (life.at slot).incarnation ≠ 0) (hc : (life.at slot).state = LcState.closing)
    (h0 : (life.at slot).stopped = 0) (hd : (life.at slot).drained = 0) :
    LcStep life .supervisor
      ⟨LcOp.stopped, slot, (life.at slot).incarnation, (life.at slot).issued⟩ false
      (life.at slot).incarnation (life.set slot { life.at slot with stopped := 1 }) := by
  have h := LcStep.slot slot hi hn (.stopped false hc h0)
  simpa [hd] using h

theorem LcStep.reserve_slot {life life' : Lifecycle} {actor : LcActor} {e : LcEvent} {v : UInt64}
    {b : Bool} (h : LcStep life actor e b v life') (hop : e.op = LcOp.reserve) :
    (life.at e.slot).state = LcState.unused ∧ (life'.at e.slot).live = true := by
  cases h with
  | reserve i hi hs hfree hm => exact ⟨hs, by simp [Lifecycle.at, LcSlot.live]⟩
  | slot i hi hn hs => cases hs <;> simp at hop

theorem LcStep.reserve_eq {life life' : Lifecycle} {actor : LcActor} {e : LcEvent} {v : UInt64}
    {b : Bool} (h : LcStep life actor e b v life') (hop : e.op = LcOp.reserve) :
    life'.at e.slot = { life.at e.slot with incarnation := v, state := LcState.starting } := by
  cases h with
  | reserve i hi hs hfree hm => exact Lifecycle.at_set _ i _
  | slot i hi hn hs => cases hs <;> simp at hop

theorem LcStep.slotStep {life life' : Lifecycle} {actor : LcActor} {e : LcEvent} {v : UInt64}
    {b : Bool} (h : LcStep life actor e b v life') (hop : e.op ≠ LcOp.reserve) :
    ∃ t, SlotStep (life.at e.slot) actor e.op e.sequence b v t ∧
      (life.at e.slot).incarnation ≠ 0 ∧ life' = life.set e.slot t := by
  cases h with
  | reserve i hi hs hfree hm => exact absurd rfl hop
  | slot i hi hn hs => exact ⟨_, hs, hn, rfl⟩

theorem LcStep.contained_live {life life' : Lifecycle} {actor : LcActor} {e : LcEvent} {v : UInt64}
    {b : Bool} (h : LcStep life actor e b v life') (hop : e.op = LcOp.contain) :
    (life.at e.slot).live = true := by
  cases h with
  | reserve i hi hs hfree hm => simp at hop
  | slot i hi hn hs =>
    cases hs with
    | contain b actor hs ha => exact (LcSlot.live_iff _).mpr hs
    | _ => simp at hop

/-- The slot after its containment and the confirmation of its stop. -/
def LcSlot.shutDown (s : LcSlot) : LcSlot := { s with state := LcState.closing, stopped := 1 }

section

variable {s : Supervisor} {slot : UInt64} {actor : LcActor}

/-- The containment of a slot in use, and the confirmation of its stop. -/
theorem lcStep_shutDown {life : Lifecycle} (h : LcOk life) (hi : slot < slotCount)
    (hlive : (life.at slot).live = true) (ha : actor = .admin ∨ actor = .supervisor) :
    let life₁ := life.set slot { life.at slot with state := LcState.closing }
    LcStep life actor ⟨LcOp.contain, slot, (life.at slot).incarnation, 0⟩ false
        (life.at slot).incarnation life₁ ∧
      LcStep life₁ .supervisor
        ⟨LcOp.stopped, slot, (life.at slot).incarnation, (life.at slot).issued⟩ false
        (life.at slot).incarnation (life.set slot (life.at slot).shutDown) := by
  have hl := (LcSlot.live_iff _).mp hlive
  have hused : (life.at slot).state ≠ LcState.unused := by grind
  have hn := ((h.slots (slotIx slot)).incarnation hused).1
  obtain ⟨h1, h2⟩ := (h.slots (slotIx slot)).live (by
    change (life.at slot).state < LcState.closing
    grind)
  have hat := Lifecycle.at_set life slot { life.at slot with state := LcState.closing }
  have hst := lcStep_stopped hi (by rw [hat]; exact hn) (by rw [hat]) (by rw [hat]; exact h1)
    (by rw [hat]; exact h2)
  rw [hat, Lifecycle.set_set] at hst
  exact ⟨.slot slot hi hn (.contain false actor hl (by tauto)), hst⟩

theorem LcOk.shutDown {life : Lifecycle} (h : LcOk life) (hi : slot < slotCount)
    (hlive : (life.at slot).live = true) : LcOk (life.set slot (life.at slot).shutDown) := by
  obtain ⟨h1, h2⟩ := lcStep_shutDown h hi hlive (Or.inl rfl)
  exact h2.lcOk (h1.lcOk h)

/-- The containment of a slot in use succeeds: the gate closes, the child stops, the stop is recorded. -/
theorem svContain_live (h : LcOk s.life) (hi : slot < slotCount) (hlive : (s.life.at slot).live = true)
    (ha : actor = .admin ∨ actor = .supervisor) :
    svContain s slot actor = (⟨LcStatus.ok, (s.life.at slot).incarnation⟩,
      { s with life := s.life.set slot (s.life.at slot).shutDown,
               children := s.children.stop (slot.toNat + 1) }) := by
  obtain ⟨h1, h2⟩ := lcStep_shutDown h hi hlive ha
  unfold svContain svApply
  dsimp only
  rw [lcApply_ok_iff.mpr ⟨(lcValid_iff _).mpr h, h1⟩, if_neg (by simp)]
  dsimp only
  rw [lcApply_ok_iff.mpr ⟨(lcValid_iff _).mpr (h1.lcOk h), h2⟩, if_neg (by simp)]

theorem svContain_of_not_live (hlive : (s.life.at slot).live = false) :
    (svContain s slot actor).1.status ≠ LcStatus.ok ∧ (svContain s slot actor).2 = s := by
  have hne : (lcApply s.life actor ⟨LcOp.contain, slot, (s.life.at slot).incarnation, 0⟩ false).1.status
      ≠ LcStatus.ok := by
    intro hok
    have hl := (lcStep_of_ok hok).2.contained_live rfl
    exact Bool.false_ne_true (hlive.symm.trans hl)
  unfold svContain svApply
  dsimp only
  rw [if_pos hne, (lcApply_of_ne hne).2]
  exact ⟨hne, rfl⟩

end

/-- What a handler does to the supervisor, for an actor or for the kernel's report of a fault. -/
inductive SvStep (s : Supervisor) : Option LcActor → Supervisor → Prop
  | same (who : Option LcActor) : SvStep s who s
  | event (hf : s.failed = false) {actor : LcActor} {e : LcEvent} {b : Bool} {v : UInt64}
    {life' : Lifecycle} (h : LcStep s.life actor e b v life')
    (hop : e.op ≠ LcOp.reserve ∧ e.op ≠ LcOp.contain ∧ e.op ≠ LcOp.stopped) :
    SvStep s (some actor) { s with life := life' }
  | reserve (hf : s.failed = false) {slot v : UInt64} {life' : Lifecycle}
    (h : LcStep s.life .admin ⟨LcOp.reserve, slot, 0, 0⟩ true v life') :
    SvStep s (some .admin) { s with life := life', children := s.children.resume (slot.toNat + 1) }
  | contain (hf : s.failed = false) (who : Option LcActor) {slot : UInt64} (hi : slot < slotCount)
    (hlive : (s.life.at slot).live = true) (faults ip address fsr : UInt64) :
    SvStep s who { s with
      life := s.life.set slot (s.life.at slot).shutDown
      children := s.children.stop (slot.toNat + 1)
      faults := faults, ip := ip, address := address, fsr := fsr }
  | fail : SvStep s none (svFail s)

section

variable {s : Supervisor}

/-- An event that is neither a reservation, a containment nor a confirmed stop is accepted or
refused. -/
theorem svStep_apply (hf : s.failed = false) (actor : LcActor) {op : UInt64} (slot inc seq : UInt64)
    (b : Bool) (hop : op ≠ LcOp.reserve ∧ op ≠ LcOp.contain ∧ op ≠ LcOp.stopped) :
    SvStep s (some actor) (svApply s actor op slot inc seq b).2 := by
  by_cases hok : (lcApply s.life actor ⟨op, slot, inc, seq⟩ b).1.status = LcStatus.ok
  · exact .event hf (lcStep_of_ok hok).2 hop
  · unfold svApply
    dsimp only
    rw [(lcApply_of_ne hok).2]
    exact .same _

theorem svStep_contain (h : LcOk s.life) (hf : s.failed = false) {slot : UInt64}
    (hi : slot < slotCount) : SvStep s (some .admin) (svContain s slot .admin).2 := by
  by_cases hlive : (s.life.at slot).live = true
  · rw [svContain_live h hi hlive (Or.inl rfl)]
    exact .contain hf _ hi hlive _ _ _ _
  · rw [(svContain_of_not_live (by simpa using hlive)).2]
    exact .same _

/-- **What a protected call does**, whatever its channel and its message. -/
theorem svStep_protected (h : LcOk s.life) (ch : ℕ) (m : Message) :
    ∃ actor, (ch = 0 → actor = .admin) ∧ SvStep s (some actor) (svProtected ch s m).2 := by
  have hsame : ∃ actor, (ch = 0 → actor = LcActor.admin) ∧ SvStep s (some actor) s :=
    ⟨.admin, fun _ => rfl, .same _⟩
  unfold svProtected
  dsimp only
  by_cases h0 : !s.ready ∨ s.failed ∨ ch > 1
  · rw [if_pos h0]
    exact hsame
  rw [if_neg h0]
  have hf : s.failed = false := by
    by_contra hc
    exact h0 (Or.inr (Or.inl (by simpa using hc)))
  split_ifs with h1 h2 h3 h4 h5 h6 h6 h8 h9 h10 h11 h12 h13 h14
  any_goals exact hsame
  · exact ⟨.admin, fun _ => rfl, svStep_contain h hf (by grind)⟩
  · -- accepted: the worker is resumed
    have hs := (lcStep_of_ok h6.1).2
    rw [h5] at hs ⊢
    exact ⟨.admin, fun _ => rfl, .reserve hf hs⟩
  · have hne : (lcApply s.life .admin ⟨m.mr 0, m.mr 1, 0, 0⟩ true).1.status ≠ LcStatus.ok :=
      fun hok => h6 ⟨hok, h5⟩
    unfold svApply
    dsimp only
    rw [(lcApply_of_ne hne).2]
    exact hsame
  · exact absurd h6.2 h5
  · exact ⟨.admin, fun _ => rfl, svStep_apply hf _ _ _ _ _ ⟨h5, h4, by grind⟩⟩
  · exact ⟨.supervisor, by omega, svStep_apply hf _ _ _ _ _ (by simp)⟩
  · exact ⟨.broker, by omega, svStep_apply hf _ _ _ _ _ (by grind)⟩

/-- **What a fault does**: the expected one contains the second slot, any other is the failure. -/
theorem svStep_fault (h : LcOk s.life) (child : ℕ) (m : Message) :
    SvStep s none (svFault child m s) := by
  unfold svFault
  by_cases hv : svFaultValid s child m = true
  · rw [if_neg (by simp [hv])]
    simp only [svFaultValid, decide_eq_true_eq] at hv
    have hf : s.failed = false := by simpa using hv.2.1
    have hactive : (s.life.at 1).state = LcState.active := by tauto
    have hlive : (s.life.at 1).live = true := by
      rw [LcSlot.live_iff, hactive]
      decide
    have hc := svContain_live (s := { s with
      ip := faultWord m 0, address := faultWord m 1, fsr := faultWord m 3, faults := 1 })
      h (by decide) hlive (Or.inr rfl)
    dsimp only
    rw [hc, if_neg (by simp)]
    exact .contain hf _ (by decide) hlive _ _ _ _
  · rw [if_pos (by simpa using hv)]
    exact .fail

end

/-- Whatever every event of the table keeps, a handler keeps. -/
theorem SvStep.life_induct {P : Lifecycle → Prop}
    (hP : ∀ {life life' : Lifecycle} {actor : LcActor} {e : LcEvent} {b : Bool} {v : UInt64},
      LcStep life actor e b v life' → P life → P life')
    {s s' : Supervisor} {who : Option LcActor} (h : SvStep s who s') (hl : LcOk s.life)
    (h0 : P s.life) : P s'.life := by
  cases h with
  | same => exact h0
  | event hf hs => exact hP hs h0
  | reserve hf hs => exact hP hs h0
  | contain hf _ hi hlive =>
    obtain ⟨h1, h2⟩ := lcStep_shutDown hl hi hlive (Or.inl rfl)
    exact hP h2 (hP h1 h0)
  | fail => exact h0

theorem SvStep.failed {s s' : Supervisor} {who : Option LcActor} (h : SvStep s who s')
    (hf : s'.failed = false) : s.failed = false := by
  cases h with
  | same => exact hf
  | event hf => exact hf
  | reserve hf => exact hf
  | contain hf => exact hf
  | fail => cases hf

/-! ### What every handler keeps -/

/-- A child runs only for a slot in use and while nothing has failed, and a child that was stopped
after the calls `base` has its slot used up. -/
structure SvOk (base : List ChildCall) (s : Supervisor) : Prop where
  ready : s.ready = true
  lcOk : LcOk s.life
  running : ∀ i : Fin 2, s.children.running (i.val + 1) = true →
    s.failed = false ∧ (s.life.slots i).live = true
  calls : ∃ later, s.children.calls = base ++ later ∧ NoRevival later ∧
    ∀ i : Fin 2, .stop (i.val + 1) ∈ later → s.failed = true ∨ (s.life.slots i).state ≠ LcState.unused

section

variable {base : List ChildCall} {s s' : Supervisor} {who : Option LcActor}

theorem SvOk.faulted (h : SvOk base s) (child : ℕ) :
    SvOk base { s with children := s.children.faulted child } where
  ready := h.ready
  lcOk := h.lcOk
  running i hi := h.running i ((Children.faulted_running _ _ _).mp hi).2
  calls := h.calls

theorem svFail_running (s : Supervisor) (i : Fin 2) : (svFail s).children.running (i.val + 1) = false := by
  refine Bool.eq_false_iff.mpr fun h => ?_
  obtain ⟨h2, h⟩ := (Children.stop_running _ _ _).mp h
  obtain ⟨h1, -⟩ := (Children.stop_running _ _ _).mp h
  omega

theorem SvOk.fail (h : SvOk base s) : SvOk base (svFail s) where
  ready := h.ready
  lcOk := h.lcOk
  running i hi := by rw [svFail_running s i] at hi; cases hi
  calls := by
    obtain ⟨later, hc, hn, -⟩ := h.calls
    refine ⟨later ++ [.stop 1] ++ [.stop 2], ?_, (hn.stop 1).stop 2, fun _ _ => Or.inl rfl⟩
    simp [svFail, hc]

/-- **Every handler keeps the invariant.** -/
theorem SvOk.svStep (h : SvOk base s) (hs : SvStep s who s') : SvOk base s' := by
  obtain ⟨later, hc, hn, hstop⟩ := h.calls
  cases hs with
  | same => exact h
  | fail => exact h.fail
  | event hf hs hop =>
    refine ⟨h.ready, hs.lcOk h.lcOk, fun i hi => ⟨hf, ?_⟩, later, hc, hn, fun i hi => ?_⟩
    · exact hs.stays_live hop.2.1 (h.running i hi).2
    · exact (hstop i hi).imp_right fun h0 h1 => h0 ((hs.unused_iff i).mp h1).1
  | @reserve hf slot v life' hs =>
    have hi := hs.guards.1
    obtain ⟨hunused, hlive⟩ := hs.reserve_slot rfl
    have hval : (slotIx slot).val + 1 = slot.toNat + 1 := by rw [slotIx_val hi]
    have hnew : .stop (slot.toNat + 1) ∉ later := by
      intro hm
      rw [← hval] at hm
      rcases hstop _ hm with h1 | h1
      · rw [hf] at h1
        cases h1
      · exact h1 hunused
    refine ⟨h.ready, hs.lcOk h.lcOk, fun i hr => ⟨hf, ?_⟩,
      later ++ [.resume (slot.toNat + 1)], by simp [hc], hn.resume hnew, fun i hm => ?_⟩
    · rcases (Children.resume_running _ _ _).mp hr with heq | hr
      · obtain rfl : i = slotIx slot := Fin.ext (by omega)
        exact hlive
      · exact hs.stays_live (by simp) (h.running i hr).2
    · have hm' : .stop (i.val + 1) ∈ later := by simpa using hm
      exact (hstop i hm').imp_right fun h0 h1 => h0 ((hs.unused_iff i).mp h1).1
  | @contain hf _ slot hi hlive faults ip address fsr =>
    have hval : (slotIx slot).val + 1 = slot.toNat + 1 := by rw [slotIx_val hi]
    refine ⟨h.ready, h.lcOk.shutDown hi hlive, fun i hr => ?_,
      later ++ [.stop (slot.toNat + 1)], by simp [hc], hn.stop _, fun i hm => ?_⟩
    · obtain ⟨hne, hr⟩ := (Children.stop_running _ _ _).mp hr
      have hi' : i ≠ slotIx slot := fun he => hne (by rw [he, hval])
      refine ⟨hf, ?_⟩
      rw [Lifecycle.set_slots_of_ne _ hi']
      exact (h.running i hr).2
    · by_cases hi' : i = slotIx slot
      · subst hi'
        rw [Lifecycle.set_slots_self]
        exact Or.inr (show LcState.closing ≠ LcState.unused by decide)
      · rw [Lifecycle.set_slots_of_ne _ hi']
        refine hstop i ?_
        have hne : i.val ≠ slot.toNat := fun he => hi' (Fin.ext (by omega))
        simpa [hne] using hm

theorem SvOk.svCall (h : SvOk base s) (x : SvCall) : SvOk base (svCall s x).1 := by
  cases x with
  | init =>
    have hf : svInit s = svFail s := by rw [svInit, if_pos h.ready]
    change SvOk base (svInit s)
    rw [hf]
    exact h.fail
  | notified => exact h
  | call ch m =>
    obtain ⟨actor, -, hs⟩ := svStep_protected h.lcOk ch m
    exact h.svStep hs
  | fault child m =>
    have hf := h.faulted child
    exact hf.svStep (svStep_fault hf.lcOk child m)

end

/-! ### Runs -/

/-- What `init` leaves: no child runs, no call has been made since. -/
theorem svOk_init (c : Children) :
    SvOk (svInit (Supervisor.loaded c)).children.calls (svInit (Supervisor.loaded c)) where
  ready := rfl
  lcOk := told_zero.lcOk
  running i hi := by
    exfalso
    change ((c.stop 1).stop 2).running (i.val + 1) = true at hi
    obtain ⟨h2, hi⟩ := (Children.stop_running _ _ _).mp hi
    obtain ⟨h1, -⟩ := (Children.stop_running _ _ _).mp hi
    omega
  calls := ⟨[], (List.append_nil _).symm, noRevival_nil, fun i hi => by cases hi⟩

theorem svOk_run (c : Children) (xs : List SvCall) :
    SvOk (svInit (Supervisor.loaded c)).children.calls
      (Run.final svCall (svInit (Supervisor.loaded c)) xs) :=
  Run.final_induct (svOk_init c) (fun _ x h => h.svCall x) xs

/-- **A contained worker never runs again.** After `init`, in every order of callbacks: a child runs
only while its slot is starting, ready or active and the supervisor has not failed, it does not run
once its stop is recorded, and no child that was stopped since `init` is resumed. -/
theorem contained_worker_never_runs (c : Children) (xs : List SvCall) :
    let start := svInit (Supervisor.loaded c)
    let s := Run.final svCall start xs
    (∀ i : Fin 2, s.children.running (i.val + 1) = true →
      s.failed = false ∧ LcState.starting ≤ (s.life.slots i).state ∧
        (s.life.slots i).state ≤ LcState.active) ∧
    (∀ i : Fin 2, (s.life.slots i).stopped ≠ 0 → s.children.running (i.val + 1) = false) ∧
    ∃ later, s.children.calls = start.children.calls ++ later ∧ NoRevival later := by
  intro start s
  have h : SvOk start.children.calls s := svOk_run c xs
  refine ⟨fun i hi => ?_, fun i hi => ?_, ?_⟩
  · obtain ⟨hf, hlive⟩ := h.running i hi
    exact ⟨hf, (LcSlot.live_iff _).mp hlive⟩
  · -- a slot in use has no recorded stop
    refine Bool.eq_false_iff.mpr fun hr => ?_
    have hlive := (LcSlot.live_iff _).mp (h.running i hr).2
    have hlt : (s.life.slots i).state < LcState.closing := by grind
    exact hi ((h.lcOk.slots i).live hlt).1
  · obtain ⟨later, hc, hn, -⟩ := h.calls
    exact ⟨later, hc, hn⟩

end Tcs
