/-
# The containment supervisor

`tests/containment/supervisor.c`: the owner of a lifecycle behind the
reduction latch, over two children. Every handler first takes the word other
parties have left in the mailbox, contains what it asks for, stops the
children of the slots that closed and records the stops; only then it does
what it was called for. Nothing drains a slot here, and any fault is the
failure, after which both children are stopped for good.

The invariant `SpOk` holds between any two statements that change the kernel
or the latch; `Settled` holds at the end of every handler. `SpKept` relates
a state to every later one: inhibit bits and tickets stay, and the child of
an inhibited slot is not resumed.

Key definitions: `ReductionSupervisor`, `spSync`, `spProtected`, `spCall`,
`SpOk`, `Settled`, `SpKept`.
Key theorems: `SpOk.poll`, `SpOk.stop`, `spSync_spec`, `SpOk.event`,
`spProtected_spec`, `observed_reductions_stop`.
-/
import Tcs.Lib.Children
import Tcs.Supervisor

namespace Tcs

open Ipc Kernel

/-! ### The data model -/

/-- The static variables of the supervisor, the receipt page, the children as the kernel holds them,
and the words that were sampled so far. -/
structure ReductionSupervisor where
  control : Reduction
  ready : Bool
  failed : Bool
  receipt : UInt64
  children : Children
  samples : List UInt64

/-- The supervisor as it is loaded, with children in any state. -/
def ReductionSupervisor.loaded (receipt : UInt64) (children : Children) : ReductionSupervisor :=
  ⟨Reduction.zero, false, false, receipt, children, []⟩

/-! ### The handlers -/

/-- `sp_fail`. -/
def spFail (s : ReductionSupervisor) : ReductionSupervisor :=
  { s with failed := true, children := (s.children.stop 1).stop 2 }

/-- One turn of the loop of `sp_sync`: the child of slot `i` is stopped and the stop recorded. The
error is the state of a supervisor that failed. -/
def spStop (stops : UInt64) (s : ReductionSupervisor) (i : Fin 2) :
    Except ReductionSupervisor ReductionSupervisor :=
  if !Word.hasBit stops i then .ok s
  else
    let slot := s.control.life.slots i
    let out := rdApply s.control 0 .supervisor
      ⟨LcOp.stopped, i.val.toUInt64, slot.incarnation, slot.issued⟩ false
    let s := { s with children := s.children.stop (i.val + 1), control := out.2 }
    if out.1.status ≠ LcStatus.ok then .error (spFail s) else .ok s

/-- `sp_sync`, where the mailbox holds `word`. -/
def spSync (notification : Bool) (word : UInt64) (s : ReductionSupervisor) :
    Bool × ReductionSupervisor :=
  if !s.ready ∨ s.failed then (false, s)
  else
    let polled := rdPoll s.control word
    let s := { s with control := polled.2, samples := s.samples ++ [word] }
    if polled.1 = .invalidState then (false, spFail s)
    else
      let stops := rdStopMask s.control
      match (List.finRange 2).foldlM (spStop stops) s with
      | .error s => (false, s)
      | .ok s =>
        (true, if notification ∧ stops ≠ 0 then { s with receipt := s.receipt ||| stops } else s)

/-- `init`. -/
def spInit (word : UInt64) (s : ReductionSupervisor) : ReductionSupervisor :=
  if s.ready then spFail s
  else (spSync false word { s with ready := true, children := (s.children.stop 1).stop 2 }).2

/-- `notified`. -/
def spNotified (ch : ℕ) (word : UInt64) (s : ReductionSupervisor) : ReductionSupervisor :=
  if ch = 0 then (spSync true word s).2 else s

/-- The answer to `CT_STATUS`. -/
def spSnapshot (mr : Registers) (s : ReductionSupervisor) : Message :=
  let mr := ((mr.set 0 s.failed.toNat.toUInt64).set 1 s.control.inhibited).set 2 s.control.inputFault
  let mr := mr.set 3 s.control.life.lastIncarnation
  ⟨CtLabel.snapshot, 16,
    slotWords (slotWords mr 4 (s.control.life.at 0)) 10 (s.control.life.at 1)⟩

/-- An event that the supervisor applies after its poll, and the answer to it. -/
def spApply (s : ReductionSupervisor) (mr : Registers) (actor : LcActor) (e : LcEvent) (audit : Bool) :
    Message × ReductionSupervisor :=
  let out := rdApply s.control 0 actor e audit
  (ctReply mr out.1.status out.1.value, { s with control := out.2 })

/-- The controller's reservation or activation of slot `b`. -/
def spControl (s : ReductionSupervisor) (mr : Registers) (a b : UInt64) : Message × ReductionSupervisor :=
  let out := rdApply s.control 0 .admin
    ⟨a, b, if a = LcOp.reserve then 0 else (s.control.life.at b).incarnation, 0⟩ true
  let s := { s with control := out.2 }
  (ctReply mr out.1.status out.1.value,
    if out.1.status = LcStatus.ok ∧ a = LcOp.reserve then
      { s with children := s.children.resume (b.toNat + 1) }
    else s)

/-- `protected` after its poll; `a` and `b` are the words captured before any kernel call. -/
def spServe (ch : ℕ) (m : Message) (a b : UInt64) (s : ReductionSupervisor) :
    Message × ReductionSupervisor :=
  if ch = 0 ∧ m.label = CtLabel.status ∧ m.count = 0 then (spSnapshot m.mr s, s)
  else if ch = 0 ∧ m.label = CtLabel.control ∧ m.count = 2 then
    if b ≥ 2 ∨ (a ≠ LcOp.reserve ∧ a ≠ LcOp.activate) then (ctReply m.mr LcStatus.invalid 0, s)
    else spControl s m.mr a b
  else if ch = 1 ∧ a < 2 ∧ (m.label = CtLabel.ready ∨ m.label = CtLabel.view) ∧ m.count = 1 then
    if m.label = CtLabel.view then
      (⟨CtLabel.slot, 6, slotWords m.mr 0 (s.control.life.at a)⟩, s)
    else spApply s m.mr .supervisor ⟨LcOp.started, a, (s.control.life.at a).incarnation, 0⟩ false
  else if ch = 1 ∧ m.label = CtLabel.begin ∧ m.count = 2 ∧ a < 2 then
    spApply s m.mr .broker ⟨LcOp.begin, a, b, 0⟩ false
  else (ctReply m.mr LcStatus.denied 0, s)

/-- `protected`, where the mailbox holds `word`. -/
def spProtected (word : UInt64) (ch : ℕ) : Peer ReductionSupervisor := fun s m =>
  let a := if m.count > 0 then m.mr 0 else 0
  let b := if m.count > 1 then m.mr 1 else 0
  let synced := spSync false word s
  if !synced.1 then (ctReply m.mr runtimeFailure 0, synced.2) else spServe ch m a b synced.2

/-- `fault`. -/
def spFault (s : ReductionSupervisor) : ReductionSupervisor := spFail s

/-- A callback of the supervisor, with the word that the mailbox holds when it is served. -/
inductive SpCall
  | init (word : UInt64)
  | notified (ch : ℕ) (word : UInt64)
  | call (ch : ℕ) (m : Message) (word : UInt64)
  | fault (child : ℕ) (m : Message)

/-- One callback. A child that faults is suspended before its parent is told. -/
def spCall (s : ReductionSupervisor) : SpCall → ReductionSupervisor × Option Message
  | .init word => (spInit word s, none)
  | .notified ch word => (spNotified ch word s, none)
  | .call ch m word => ((spProtected word ch s m).2, some (spProtected word ch s m).1)
  | .fault child _ => (spFault { s with children := s.children.faulted child }, none)

/-! ### What holds between two statements -/

/-- A child runs for a slot in use, or for one that closed and whose stop is not yet recorded, and
every word that was sampled is in the latch. -/
structure SpOk (s : ReductionSupervisor) : Prop where
  ready : s.ready = true
  rdOk : RdOk s.control
  running : ∀ i : Fin 2, s.children.running (i.val + 1) = true → s.failed = false ∧
    ((s.control.life.slots i).live = true ∨
      (s.control.life.slots i).state = LcState.closing ∧ (s.control.life.slots i).stopped = 0)
  sampled : ∀ word ∈ s.samples, ∀ i : Fin 2, Word.hasBit word i = true ∨ malformed word = true →
    Word.hasBit s.control.inhibited i = true

/-- Every slot that is closing has a recorded stop. -/
def Settled (s : ReductionSupervisor) : Prop :=
  ∀ i, (s.control.life.slots i).state = LcState.closing → (s.control.life.slots i).stopped ≠ 0

/-- What every later state keeps of a state. -/
structure SpKept (s s' : ReductionSupervisor) : Prop where
  latch : ∀ i : Fin 2, Word.hasBit s.control.inhibited i = true →
    Word.hasBit s'.control.inhibited i = true
  pending : ∀ i, (s.control.life.slots i).pending ≠ 0 →
    (s'.control.life.slots i).pending = (s.control.life.slots i).pending
  calls : ∃ later, s'.children.calls = s.children.calls ++ later ∧
    ∀ i : Fin 2, Word.hasBit s.control.inhibited i = true → .resume (i.val + 1) ∉ later

theorem SpKept.refl (s : ReductionSupervisor) : SpKept s s :=
  ⟨fun _ h => h, fun _ _ => rfl, [], (List.append_nil _).symm, fun _ _ h => by cases h⟩

theorem SpKept.trans {a b c : ReductionSupervisor} (h : SpKept a b) (h' : SpKept b c) : SpKept a c := by
  obtain ⟨l, hl, hn⟩ := h.calls
  obtain ⟨l', hl', hn'⟩ := h'.calls
  refine ⟨fun i hi => h'.latch i (h.latch i hi), fun i hi => ?_, l ++ l', ?_, fun i hi hm => ?_⟩
  · have hp := h.pending i hi
    rw [← hp] at hi ⊢
    exact h'.pending i hi
  · rw [hl', hl, List.append_assoc]
  · rcases List.mem_append.mp hm with hm | hm
    · exact hn i hi hm
    · exact hn' i (h.latch i hi) hm

section

variable {s : ReductionSupervisor}

theorem SpOk.fail (h : SpOk s) : SpOk (spFail s) where
  ready := h.ready
  rdOk := h.rdOk
  running i hi := by
    obtain ⟨h2, hi⟩ := (Children.stop_running _ _ _).mp hi
    obtain ⟨h1, -⟩ := (Children.stop_running _ _ _).mp hi
    omega
  sampled := h.sampled

theorem spKept_fail (s : ReductionSupervisor) : SpKept s (spFail s) where
  latch _ h := h
  pending _ _ := rfl
  calls := ⟨[.stop 1, .stop 2], by simp [spFail], fun i _ hm => by simp at hm⟩

/-- The supervisor after its poll. -/
def ReductionSupervisor.polled (s : ReductionSupervisor) (word : UInt64) : ReductionSupervisor :=
  { s with control := s.control.observe word, samples := s.samples ++ [word] }

/-- **The poll** latches the word; the slots it closes still have their children to stop. -/
theorem SpOk.poll (h : SpOk s) (word : UInt64) : SpOk (s.polled word) where
  ready := h.ready
  rdOk := h.rdOk.observe word
  running i hi := by
    obtain ⟨hf, hr⟩ := h.running i hi
    refine ⟨hf, ?_⟩
    change ((s.control.life.slots i).contained _ i).live = true ∨
      ((s.control.life.slots i).contained _ i).state = LcState.closing ∧
        ((s.control.life.slots i).contained _ i).stopped = 0
    unfold LcSlot.contained
    split_ifs with hc
    · -- in use until now, so no stop is recorded
      have hl := (LcSlot.live_iff _).mp hc.2
      exact Or.inr ⟨rfl, ((h.rdOk.lcOk.slots i).live (by grind)).1⟩
    · exact hr
  sampled w hw i hi := by
    rcases List.mem_append.mp hw with hw | hw
    · exact hasBit_latch _ _ _ (Or.inl (h.sampled w hw i hi))
    · obtain rfl := List.mem_singleton.mp hw
      rcases hi with hi | hi
      · exact hasBit_latch _ _ _ (Or.inr hi)
      · change Word.hasBit (s.control.inhibited ||| if malformed w then rdAll else w) i = true
        rw [if_pos hi, Word.hasBit_or _ _ (by omega), hasBit_rdAll, Bool.or_true]

theorem spKept_poll (s : ReductionSupervisor) (word : UInt64) : SpKept s (s.polled word) where
  latch i hi := hasBit_latch _ _ _ (Or.inl hi)
  pending i _ := by
    change ((s.control.life.slots i).contained _ i).pending = _
    rw [LcSlot.contained_fields]
  calls := ⟨[], (List.append_nil _).symm, fun _ _ h => by cases h⟩

/-- The slot after the confirmation of its stop. -/
def LcSlot.confirmedStop (t : LcSlot) : LcSlot :=
  { t with stopped := 1, state := if t.drained ≠ 0 then LcState.retired else t.state }

/-- The supervisor after it stopped the child of slot `i` and recorded it. -/
def ReductionSupervisor.stopped (s : ReductionSupervisor) (i : Fin 2) : ReductionSupervisor :=
  { s with
    control := { s.control with
      life := s.control.life.set i.val.toUInt64 (s.control.life.slots i).confirmedStop }
    children := s.children.stop (i.val + 1) }

theorem rdApply_of_lcStep {control : Reduction} (h : RdOk control) {actor : LcActor} {e : LcEvent}
    {b : Bool} {v : UInt64} {life' : Lifecycle} (hs : LcStep control.life actor e b v life')
    (hd : ¬ control.denies e) :
    rdApply control 0 actor e b = (⟨LcStatus.ok, v⟩, { control with life := life' }) ∧
      RdOk { control with life := life' } := by
  have hok := lcApply_ok_iff.mpr ⟨(lcValid_iff _).mpr h.lcOk, hs⟩
  have hr : RdOk { control with life := (lcApply control.life actor e b).2 } := h.lcApply hd
  rw [hok] at hr
  refine ⟨?_, hr⟩
  rw [rdApply_eq h, h.observe_zero, if_neg hd, hok]

/-- An event that is accepted behind the latch is in the table, and the latch does not deny it. -/
theorem lcStep_of_rdApply {control : Reduction} (h : RdOk control) {actor : LcActor} {e : LcEvent}
    {b : Bool} (hok : (rdApply control 0 actor e b).1.status = LcStatus.ok) :
    ∃ v life', LcStep control.life actor e b v life' ∧ ¬ control.denies e ∧
      rdApply control 0 actor e b = (⟨LcStatus.ok, v⟩, { control with life := life' }) := by
  have heq := rdApply_eq h 0 actor e b
  rw [h.observe_zero] at heq
  by_cases hd : control.denies e
  · rw [heq, if_pos hd] at hok
    exact absurd hok (by simp)
  · rw [if_neg hd] at heq
    rw [heq] at hok
    have hs := (lcStep_of_ok hok).2
    exact ⟨_, _, hs, hd, (rdApply_of_lcStep h hs hd).1⟩

/-- The confirmation of the stop of a closing slot is in the table, and the latch denies none. -/
theorem SpOk.lcStep_stopped (h : SpOk s) {i : Fin 2}
    (hc : (s.control.life.slots i).state = LcState.closing)
    (h0 : (s.control.life.slots i).stopped = 0) :
    let e : LcEvent := ⟨LcOp.stopped, i.val.toUInt64, (s.control.life.slots i).incarnation,
      (s.control.life.slots i).issued⟩
    LcStep s.control.life .supervisor e false (s.control.life.slots i).incarnation
      (s.stopped i).control.life ∧ ¬ s.control.denies e := by
  have hat : s.control.life.at i.val.toUInt64 = s.control.life.slots i := by
    rw [Lifecycle.at, slotIx_toUInt64]
  have hn : (s.control.life.at i.val.toUInt64).incarnation ≠ 0 := by
    rw [hat]
    exact ((h.rdOk.lcOk.slots i).incarnation (by rw [hc]; decide)).1
  have hstep := LcStep.slot (i.val.toUInt64) (toUInt64_lt i) hn
    (.stopped false (by rw [hat]; exact hc) (by rw [hat]; exact h0))
  rw [hat] at hstep
  refine ⟨hstep, ?_⟩
  rintro ⟨-, -, hop | hop⟩ <;> simp at hop

theorem spStop_eq (h : SpOk s) {stops : UInt64} {i : Fin 2} (hb : Word.hasBit stops i = true)
    (hc : (s.control.life.slots i).state = LcState.closing)
    (h0 : (s.control.life.slots i).stopped = 0) : spStop stops s i = .ok (s.stopped i) := by
  obtain ⟨hs, hd⟩ := h.lcStep_stopped hc h0
  unfold spStop
  dsimp only
  rw [if_neg (by simp [hb]), (rdApply_of_lcStep h.rdOk hs hd).1, if_neg (by simp)]
  rfl

theorem stopped_slots (s : ReductionSupervisor) (i : Fin 2) :
    (s.stopped i).control.life.slots i = (s.control.life.slots i).confirmedStop ∧
      ∀ j ≠ i, (s.stopped i).control.life.slots j = s.control.life.slots j := by
  have hix := slotIx_toUInt64 i
  refine ⟨?_, fun j hj => ?_⟩
  · have h := Lifecycle.set_slots_self s.control.life i.val.toUInt64 (s.control.life.slots i).confirmedStop
    rwa [hix] at h
  · exact Lifecycle.set_slots_of_ne _ (by rwa [hix]) _

/-- **A stop and its confirmation.** -/
theorem SpOk.stop (h : SpOk s) {i : Fin 2} (hc : (s.control.life.slots i).state = LcState.closing)
    (h0 : (s.control.life.slots i).stopped = 0) : SpOk (s.stopped i) where
  ready := h.ready
  rdOk := by
    obtain ⟨hs, hd⟩ := h.lcStep_stopped hc h0
    exact (rdApply_of_lcStep h.rdOk hs hd).2
  running j hj := by
    obtain ⟨hne, hj⟩ := (Children.stop_running _ _ _).mp hj
    rw [(stopped_slots s i).2 j (by rintro rfl; exact hne rfl)]
    exact h.running j hj
  sampled := h.sampled

theorem spKept_stop (s : ReductionSupervisor) (i : Fin 2) : SpKept s (s.stopped i) where
  latch _ h := h
  pending j _ := by
    by_cases hj : j = i
    · rw [hj, (stopped_slots s i).1]
      rfl
    · rw [(stopped_slots s i).2 j hj]
  calls := ⟨[.stop (i.val + 1)], rfl, fun j _ hm => by simp at hm⟩

/-! ### The poll with its stops -/

/-- The stop mask asks for nothing else than what is closing without a recorded stop. -/
theorem RdOk.of_hasBit_rdStopMask {control : Reduction} (h : RdOk control) : ∀ i : Fin 2,
    Word.hasBit (rdStopMask control) i = true →
      (control.life.slots i).state = LcState.closing ∧ (control.life.slots i).stopped = 0 := by
  have hv := (rdValid_iff _).mpr h
  unfold rdStopMask
  rw [if_neg (by simp [hv]), show List.finRange 2 = [0, 1] from rfl]
  simp only [List.foldl_cons, List.foldl_nil]
  refine Fin.forall_fin_two.mpr ⟨fun hb => by_contra fun hn => ?_, fun hb => by_contra fun hn => ?_⟩
  · simp only [if_neg hn] at hb
    split_ifs at hb <;> exact absurd hb (by decide)
  · rw [if_neg hn] at hb
    split_ifs at hb <;> exact absurd hb (by decide)

/-- One turn of the loop: a slot of the mask is stopped, and nothing else happens. -/
theorem spStop_spec (h : SpOk s) (stops : UInt64) (i : Fin 2)
    (hb : Word.hasBit stops i = true → (s.control.life.slots i).state = LcState.closing ∧
      (s.control.life.slots i).stopped = 0) :
    ∃ s', spStop stops s i = .ok s' ∧ SpOk s' ∧ SpKept s s' ∧ s'.failed = s.failed ∧
      s'.samples = s.samples ∧ (∀ j ≠ i, s'.control.life.slots j = s.control.life.slots j) ∧
      (Word.hasBit stops i = true → (s'.control.life.slots i).stopped ≠ 0) ∧
      (Word.hasBit stops i = false → s'.control.life.slots i = s.control.life.slots i) := by
  by_cases hbit : Word.hasBit stops i = true
  · obtain ⟨hc, h0⟩ := hb hbit
    refine ⟨s.stopped i, spStop_eq h hbit hc h0, h.stop hc h0, spKept_stop s i, rfl, rfl,
      (stopped_slots s i).2, fun _ => ?_, fun hn => ?_⟩
    · rw [(stopped_slots s i).1]
      exact (by decide : (1 : UInt64) ≠ 0)
    · rw [hbit] at hn
      cases hn
  · refine ⟨s, ?_, h, .refl s, rfl, rfl, fun _ _ => rfl, fun hn => absurd hn hbit, fun _ => rfl⟩
    rw [spStop, if_pos (by simpa using hbit)]

/-- **What every handler begins with.** A supervisor in service takes the word, and leaves no slot
closing without a recorded stop. -/
theorem spSync_spec (h : SpOk s) (hf : s.failed = false) (notification : Bool) (word : UInt64) :
    let out := spSync notification word s
    out.1 = true ∧ SpOk out.2 ∧ Settled out.2 ∧ SpKept s out.2 ∧ out.2.failed = false ∧
      out.2.samples = s.samples ++ [word] := by
  have hp := h.poll word
  have hmask := hp.rdOk.of_hasBit_rdStopMask
  obtain ⟨s₁, e₁, h₁, k₁, f₁, w₁, o₁, b₁, c₁⟩ := spStop_spec hp _ 0 (hmask 0)
  obtain ⟨s₂, e₂, h₂, k₂, f₂, w₂, o₂, b₂, c₂⟩ := spStop_spec h₁ _ 1 (by
    rw [o₁ 1 (by decide)]
    exact hmask 1)
  have hsettled : Settled s₂ := by
    -- a slot the mask does not ask for is as the poll left it, so its stop is recorded
    refine Fin.forall_fin_two.mpr ⟨fun hc => ?_, fun hc => ?_⟩
    · rw [o₂ 0 (by decide)] at hc ⊢
      by_cases hb : Word.hasBit (rdStopMask (s.polled word).control) (0 : Fin 2) = true
      · exact b₁ hb
      · rw [c₁ (by simpa using hb)] at hc ⊢
        exact fun h0 => hb (hp.rdOk.hasBit_rdStopMask hc h0)
    · by_cases hb : Word.hasBit (rdStopMask (s.polled word).control) (1 : Fin 2) = true
      · exact b₂ hb
      · rw [c₂ (by simpa using hb), o₁ 1 (by decide)] at hc ⊢
        exact fun h0 => hb (hp.rdOk.hasBit_rdStopMask hc h0)
  have hfold : (List.finRange 2).foldlM (spStop (rdStopMask (s.polled word).control)) (s.polled word) =
      .ok s₂ := by
    rw [show List.finRange 2 = [0, 1] from rfl]
    simp [List.foldlM, e₁, e₂, bind, Except.bind, pure, Except.pure]
  have hout : spSync notification word s = (true,
      if notification = true ∧ rdStopMask (s.polled word).control ≠ 0 then
        { s₂ with receipt := s₂.receipt ||| rdStopMask (s.polled word).control } else s₂) := by
    unfold spSync
    rw [if_neg (by simp [h.ready, hf])]
    dsimp only
    rw [if_neg (rdPoll_ne_invalidState h.rdOk word), rdPoll_eq h.rdOk]
    change (match (List.finRange 2).foldlM (spStop (rdStopMask (s.polled word).control))
      (s.polled word) with | .error s => _ | .ok s => _) = _
    rw [hfold]
    rfl
  have hkept := (spKept_poll s word).trans (k₁.trans k₂)
  dsimp only
  rw [hout]
  refine ⟨rfl, ?_⟩
  dsimp only
  split_ifs
  · exact ⟨⟨h₂.ready, h₂.rdOk, h₂.running, h₂.sampled⟩, hsettled, ⟨hkept.latch, hkept.pending, hkept.calls⟩,
      f₂.trans (f₁.trans hf), w₂.trans w₁⟩
  · exact ⟨h₂, hsettled, hkept, f₂.trans (f₁.trans hf), w₂.trans w₁⟩

/-! ### The event after the poll -/

/-- The events that this supervisor applies for others. -/
def Forwarded (op : UInt64) : Prop :=
  op = LcOp.reserve ∨ op = LcOp.activate ∨ op = LcOp.started ∨ op = LcOp.begin

theorem LcStep.forwarded {life life' : Lifecycle} {actor : LcActor} {e : LcEvent} {v : UInt64}
    {b : Bool} (h : LcStep life actor e b v life') (hop : Forwarded e.op) (hl : LcOk life) (i : Fin 2) :
    ((life.slots i).pending ≠ 0 → (life'.slots i).pending = (life.slots i).pending) ∧
      ((life'.slots i).state = LcState.closing → life'.slots i = life.slots i) := by
  by_cases hi : i = slotIx e.slot
  · subst hi
    by_cases hr : e.op = LcOp.reserve
    · have hz : life.slots (slotIx e.slot) = LcSlot.zero := (hl.slots _).unused (h.reserve_slot hr).1
      have hnew : life'.slots (slotIx e.slot) = _ := h.reserve_eq hr
      refine ⟨fun hp => absurd (congrArg LcSlot.pending hz) hp, fun hc => ?_⟩
      rw [hnew] at hc
      exact absurd hc (by simp)
    · obtain ⟨t, ht, -, rfl⟩ := h.slotStep hr
      rw [Lifecycle.set_slots_self]
      change ((life.at e.slot).pending ≠ 0 → t.pending = (life.at e.slot).pending) ∧
        (t.state = LcState.closing → t = life.at e.slot)
      generalize e.op = op, e.sequence = sequence at ht hop
      cases ht <;> simp_all [Forwarded]
  · rw [(h.moves i).2 hi]
    exact ⟨fun _ => rfl, fun _ => rfl⟩

/-- **An event between the poll and the answer**, accepted or refused. -/
theorem SpOk.event (h : SpOk s) (hset : Settled s) (actor : LcActor) {e : LcEvent} (audit : Bool)
    (hop : Forwarded e.op) :
    let s' := { s with control := (rdApply s.control 0 actor e audit).2 }
    SpOk s' ∧ Settled s' ∧ SpKept s s' := by
  by_cases hok : (rdApply s.control 0 actor e audit).1.status = LcStatus.ok
  · obtain ⟨v, life', hs, hd, heq⟩ := lcStep_of_rdApply h.rdOk hok
    have hr := (rdApply_of_lcStep h.rdOk hs hd).2
    rw [heq]
    have hrun : ∀ i : Fin 2, s.children.running (i.val + 1) = true → s.failed = false ∧
        (s.control.life.slots i).live = true := fun i hi =>
      ⟨(h.running i hi).1, (h.running i hi).2.resolve_right fun hc => hset i hc.1 hc.2⟩
    have hop' : e.op ≠ LcOp.contain := by
      rcases hop with h | h | h | h <;> rw [h] <;> decide
    refine ⟨⟨h.ready, hr, fun i hi => ⟨(hrun i hi).1, Or.inl (hs.stays_live hop' (hrun i hi).2)⟩,
      h.sampled⟩, fun i hc => ?_, fun _ h => h, fun i hi => (hs.forwarded hop h.rdOk.lcOk i).1 hi,
      [], (List.append_nil _).symm, fun _ _ hm => by cases hm⟩
    have heq := (hs.forwarded hop h.rdOk.lcOk i).2 hc
    dsimp only at hc ⊢
    rw [heq] at hc ⊢
    exact hset i hc
  · have hsame : (rdApply s.control 0 actor e audit).2 = s.control := by
      rw [rdApply_of_ne hok, rdPoll_eq h.rdOk, h.rdOk.observe_zero]
    dsimp only
    rw [hsame]
    exact ⟨h, hset, .refl s⟩

theorem SpOk.resume (h : SpOk s) (hset : Settled s) (hf : s.failed = false) {i : Fin 2}
    (hlive : (s.control.life.slots i).live = true) :
    let s' := { s with children := s.children.resume (i.val + 1) }
    SpOk s' ∧ Settled s' ∧ SpKept s s' := by
  refine ⟨⟨h.ready, h.rdOk, fun j hj => ?_, h.sampled⟩, hset, fun _ h => h, fun _ _ => rfl,
    [.resume (i.val + 1)], rfl, fun j hj hm => ?_⟩
  · rcases (Children.resume_running _ _ _).mp hj with heq | hj
    · obtain rfl : j = i := Fin.ext (by omega)
      exact ⟨hf, Or.inl hlive⟩
    · exact h.running j hj
  · rw [List.mem_singleton, ChildCall.resume.injEq] at hm
    obtain rfl : j = i := Fin.ext (by omega)
    exact Bool.false_ne_true ((h.rdOk.contained j hj).symm.trans hlive)

/-! ### The handlers -/

theorem spSync_failed (hf : s.failed = true) (notification : Bool) (word : UInt64) :
    spSync notification word s = (false, s) := by
  rw [spSync, if_pos (Or.inr hf)]

/-- What a handler leaves behind. -/
structure Served (s s' : ReductionSupervisor) : Prop where
  spOk : SpOk s'
  settled : Settled s'
  kept : SpKept s s'

theorem Served.trans {a b c : ReductionSupervisor} (h : Served a b) (h' : Served b c) : Served a c :=
  ⟨h'.spOk, h'.settled, h.kept.trans h'.kept⟩

theorem served_control (h : SpOk s) (hset : Settled s) (hf : s.failed = false) (mr : Registers)
    {a b : UInt64} (hb : b < slotCount) (ha : a = LcOp.reserve ∨ a = LcOp.activate) :
    Served s (spControl s mr a b).2 ∧ (spControl s mr a b).2.samples = s.samples := by
  unfold spControl
  generalize (if a = LcOp.reserve then 0 else (s.control.life.at b).incarnation) = inc
  have hevent := h.event hset .admin true
    (show Forwarded (⟨a, b, inc, 0⟩ : LcEvent).op from ha.imp_right Or.inl)
  dsimp only at hevent ⊢
  obtain ⟨h₁, hset₁, hk₁⟩ := hevent
  split_ifs with hc
  · obtain ⟨v, life', hs, hd, heq⟩ := lcStep_of_rdApply h.rdOk hc.1
    have hlive : ((rdApply s.control 0 .admin ⟨a, b, inc, 0⟩ true).2.life.slots (slotIx b)).live = true := by
      rw [heq]
      exact (hs.reserve_slot hc.2).2
    have hres := h₁.resume hset₁ hf hlive
    rw [slotIx_val hb] at hres
    exact ⟨⟨hres.1, hres.2.1, hk₁.trans hres.2.2⟩, rfl⟩
  · exact ⟨⟨h₁, hset₁, hk₁⟩, rfl⟩

theorem served_serve (h : SpOk s) (hset : Settled s) (hf : s.failed = false) (ch : ℕ) (m : Message)
    (a b : UInt64) : Served s (spServe ch m a b s).2 ∧ (spServe ch m a b s).2.samples = s.samples := by
  have hsame : Served s s ∧ s.samples = s.samples := ⟨⟨h, hset, .refl s⟩, rfl⟩
  have happly : ∀ mr actor e, Forwarded e.op → Served s (spApply s mr actor e false).2 ∧
      (spApply s mr actor e false).2.samples = s.samples := by
    intro mr actor e hop
    obtain ⟨h1, h2, h3⟩ := h.event hset actor false hop
    exact ⟨⟨h1, h2, h3⟩, rfl⟩
  unfold spServe
  split_ifs with c1 c2 c3 c4 c5 c6
  any_goals exact hsame
  · exact served_control h hset hf m.mr (by grind) (by grind)
  · exact happly _ _ _ (by simp [Forwarded])
  · exact happly _ _ _ (by simp [Forwarded])

/-- **What a protected call leaves**, whatever its channel, its message and the mailbox. -/
theorem spProtected_spec (h : SpOk s) (hset : Settled s) (word : UInt64) (ch : ℕ) (m : Message) :
    Served s (spProtected word ch s m).2 ∧
      (s.failed = false → (spProtected word ch s m).2.samples = s.samples ++ [word]) := by
  unfold spProtected
  by_cases hf : s.failed = true
  · rw [spSync_failed hf]
    exact ⟨⟨h, hset, .refl s⟩, fun hf' => absurd (hf.symm.trans hf') (by simp)⟩
  obtain ⟨h1, h₁, hset₁, hk₁, hf₁, hw₁⟩ := spSync_spec h (by simpa using hf) false word
  dsimp only
  rw [if_neg (by simp [h1])]
  obtain ⟨hserve, hw⟩ := served_serve h₁ hset₁ hf₁ ch m (if m.count > 0 then m.mr 0 else 0)
    (if m.count > 1 then m.mr 1 else 0)
  exact ⟨Served.trans ⟨h₁, hset₁, hk₁⟩ hserve, fun _ => hw.trans hw₁⟩

/-- **What a notification leaves.** -/
theorem spNotified_spec (h : SpOk s) (hset : Settled s) (ch : ℕ) (word : UInt64) :
    Served s (spNotified ch word s) ∧
      (s.failed = false → ch = 0 → (spNotified ch word s).samples = s.samples ++ [word]) := by
  unfold spNotified
  split_ifs with hc
  · by_cases hf : s.failed = true
    · rw [spSync_failed hf]
      exact ⟨⟨h, hset, .refl s⟩, fun hf' => absurd (hf.symm.trans hf') (by simp)⟩
    · obtain ⟨-, h₁, hset₁, hk₁, -, hw₁⟩ := spSync_spec h (by simpa using hf) true word
      exact ⟨⟨h₁, hset₁, hk₁⟩, fun _ _ => hw₁⟩
  · exact ⟨⟨h, hset, .refl s⟩, fun _ hc' => absurd hc' hc⟩

/-- **What every callback leaves.** -/
theorem served_call (h : SpOk s) (hset : Settled s) (x : SpCall) : Served s (spCall s x).1 := by
  cases x with
  | init word =>
    have hf : spInit word s = spFail s := by rw [spInit, if_pos h.ready]
    change Served s (spInit word s)
    rw [hf]
    exact ⟨h.fail, hset, spKept_fail s⟩
  | notified ch word => exact (spNotified_spec h hset ch word).1
  | call ch m word => exact (spProtected_spec h hset word ch m).1
  | fault child m =>
    have hv : SpOk { s with children := s.children.faulted child } :=
      ⟨h.ready, h.rdOk, fun i hi => h.running i ((Children.faulted_running _ _ _).mp hi).2, h.sampled⟩
    exact ⟨hv.fail, hset, fun _ hb => hb, fun _ _ => rfl, (spKept_fail
      { s with children := s.children.faulted child }).calls⟩

end

/-! ### Runs -/

/-- What `init` leaves: the first word is taken, and no child runs. -/
theorem served_init (receipt word : UInt64) (c : Children) :
    let s := spInit word (ReductionSupervisor.loaded receipt c)
    SpOk s ∧ Settled s ∧ s.samples = [word] := by
  have h : SpOk { ReductionSupervisor.loaded receipt c with
      ready := true, children := (c.stop 1).stop 2 } := by
    refine ⟨rfl, (rdValid_iff Reduction.zero).mp (by decide), fun i hi => ?_, fun w hw => by cases hw⟩
    exfalso
    obtain ⟨h2, hi⟩ := (Children.stop_running _ _ _).mp hi
    obtain ⟨h1, -⟩ := (Children.stop_running _ _ _).mp hi
    omega
  obtain ⟨-, h1, h2, -, -, h3⟩ := spSync_spec h rfl false word
  exact ⟨h1, h2, h3⟩

theorem served_run {s : ReductionSupervisor} (h : SpOk s) (hset : Settled s) (xs : List SpCall) :
    Served s (Run.final spCall s xs) := by
  refine Run.final_induct (P := Served s) ⟨h, hset, .refl s⟩ (fun t x ht => ?_) xs
  exact ht.trans (served_call ht.spOk ht.settled x)

/-- **Observed reductions stop the worker.** After `init`, at the end of every callback and in every
order of them, whatever the mailbox holds: no slot is closing without a recorded stop; a child runs
only while its slot is starting, ready or active and not inhibited, and nothing has failed; the
handlers that poll take the word, and every word taken is in the latch. From there on an inhibited
slot stays so and its child is not resumed, and a pending ticket stays. -/
theorem observed_reductions_stop (receipt first : UInt64) (c : Children) (xs ys : List SpCall) :
    let s := Run.final spCall (spInit first (ReductionSupervisor.loaded receipt c)) xs
    let s' := Run.final spCall s ys
    (∀ i, (s.control.life.slots i).state = LcState.closing → (s.control.life.slots i).stopped ≠ 0) ∧
    (∀ i : Fin 2, s.children.running (i.val + 1) = true → s.failed = false ∧
      (LcState.starting ≤ (s.control.life.slots i).state ∧
        (s.control.life.slots i).state ≤ LcState.active) ∧
      Word.hasBit s.control.inhibited i = false) ∧
    (∀ word ∈ s.samples, ∀ i : Fin 2, Word.hasBit word i = true ∨ malformed word = true →
      Word.hasBit s.control.inhibited i = true) ∧
    (s.failed = false → ∀ word,
      (spCall s (.notified 0 word)).1.samples = s.samples ++ [word] ∧
      ∀ ch m, (spCall s (.call ch m word)).1.samples = s.samples ++ [word]) ∧
    (∀ i : Fin 2, Word.hasBit s.control.inhibited i = true →
      Word.hasBit s'.control.inhibited i = true ∧
      ∃ later, s'.children.calls = s.children.calls ++ later ∧ .resume (i.val + 1) ∉ later) ∧
    ∀ i, (s.control.life.slots i).pending ≠ 0 →
      (s'.control.life.slots i).pending = (s.control.life.slots i).pending := by
  intro s s'
  obtain ⟨h0, hset0, -⟩ := served_init receipt first c
  obtain ⟨h, hset, -⟩ : Served _ s := served_run h0 hset0 xs
  have hkept : SpKept s s' := (served_run h hset ys).kept
  refine ⟨hset, fun i hi => ?_, h.sampled, fun hf word => ⟨?_, fun ch m => ?_⟩, fun i hi => ?_,
    hkept.pending⟩
  · obtain ⟨hf, hr⟩ := h.running i hi
    have hlive := hr.resolve_right fun hc => hset i hc.1 hc.2
    refine ⟨hf, (LcSlot.live_iff _).mp hlive, Bool.eq_false_iff.mpr fun hb => ?_⟩
    exact Bool.false_ne_true ((h.rdOk.contained i hb).symm.trans hlive)
  · exact (spNotified_spec h hset 0 word).2 hf rfl
  · exact (spProtected_spec h hset word ch m).2 hf
  · obtain ⟨later, hl, hn⟩ := hkept.calls
    exact ⟨hkept.latch i hi, later, hl, hn i hi⟩

end Tcs
