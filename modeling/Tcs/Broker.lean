/-
# The ticket broker

`tests/lifecycle/broker.c`: two workers, each on its own channel, get their
tickets through the broker, and the broker asks the lifecycle supervisor, the
owner of the gate, for every one of them. It remembers the incarnation of a
worker that has said hello and the ticket the worker holds; the controller
asks it to wake a worker and to drain a stopped slot.

The broker and the supervisor keep copies of the same incarnation and of the
same ticket and change them at different points of nested calls. `Copied`
says how the copies are related between two handlers; a broker that finds
them otherwise fails for good. Here a handler is one step; what the
supervisor serves in the middle of one is in `Interleaved.lean`.

Key definitions: `Broker`, `brProtected`, `ltCall`, `Copied`.
Key theorems: `svProtected_view`, `svProtected_event`, `brView_eq`,
`brCall_eq`, `ltOk_run`, `drain_view`, `worker_others`.
-/
import Tcs.Supervisor

namespace Tcs

open Ipc Kernel

/-! ### The data model -/

/-- The static variables of the broker, and the workers it has notified. -/
structure Broker where
  ready : Bool
  failed : Bool
  inc : Fin 2 → UInt64
  pending : Fin 2 → UInt64
  bad : UInt64
  stale : UInt64
  begun : UInt64
  drains : UInt64
  notified : List UInt64

/-- The broker as it is loaded. -/
def Broker.zero : Broker := ⟨false, false, fun _ => 0, fun _ => 0, 0, 0, 0, 0, []⟩

/-- `init`. -/
def brInit (b : Broker) : Broker :=
  { b with failed := b.failed || b.ready, ready := true }

/-! ### The handler

`gate` and `gate'` are the supervisor as the first and the second call of a
handler reach it. -/

section

variable {σ : Type*} (gate gate' : Peer σ)

/-- `br_call`. -/
def brCall (b : Broker) (t : σ) (mr : Registers) (op slot inc seq : UInt64) : LcResult × Broker × σ :=
  let out := gate t ⟨LtLabel.event, 4, (((mr.set 0 op).set 1 slot).set 2 inc).set 3 seq⟩
  let r := ltResponse out.1
  (r, if r.status = runtimeFailure then { b with failed := true } else b, out.2)

/-- The six words of a slot. -/
def viewWords (m : Message) : LcSlot := ⟨m.mr 0, m.mr 1, m.mr 2, m.mr 3, m.mr 4, m.mr 5⟩

/-- `br_view`. -/
def brView (b : Broker) (t : σ) (mr : Registers) (slot : UInt64) : Option LcSlot × Broker × σ :=
  let out := gate t ⟨LtLabel.view, 1, mr.set 0 slot⟩
  if !runtimeMessage out.1 LtLabel.slot 6 then (none, { b with failed := true }, out.2)
  else
    let words := viewWords out.1
    if words.state > LcState.retired ∨ words.incarnation ≠ b.inc (slotIx slot) ∨ words.stopped > 1 ∨
        words.drained > 1 then
      (none, { b with failed := true }, out.2)
    else (some words, b, out.2)

/-- Whether a word is not zero, as a word. -/
def nonzeroBit (w : UInt64) : UInt64 := if w ≠ 0 then 1 else 0

/-- One bit for each slot whose word is not zero. -/
def slotBits (words : Fin 2 → UInt64) : UInt64 :=
  nonzeroBit (words (slotIx 0)) ||| (nonzeroBit (words (slotIx 1)) <<< 1)

/-- The answer to `LT_BROKER_STATUS`. -/
def brStats (mr : Registers) (b : Broker) : Message :=
  let mr := (((mr.set 0 b.failed.toNat.toUInt64).set 1 b.bad).set 2 b.stale).set 3 b.begun
  ⟨LtLabel.stats, 7, ((mr.set 4 b.drains).set 5 (slotBits b.pending)).set 6 (slotBits b.inc)⟩

/-- `LT_DRAIN` of a slot that the gate's owner describes by `view`. -/
def brDrain (b : Broker) (t : σ) (mr : Registers) (slot : UInt64) (view : LcSlot) :
    Message × Broker × σ :=
  if view.state ≠ LcState.closing ∨ view.stopped = 0 ∨ view.drained ≠ 0 ∨
      view.pending ≠ b.pending (slotIx slot) then
    (ltReply mr LcStatus.badState 0, b, t)
  else
    -- the ticket is given up before the gate's owner is told
    let b := { b with pending := Function.update b.pending (slotIx slot) 0 }
    let (r, b, t) := brCall gate' b t mr LcOp.drained slot (b.inc (slotIx slot)) view.issued
    (ltReply mr r.status r.value,
      if r.status ≠ LcStatus.ok then { b with failed := true } else { b with drains := b.drains + 1 }, t)

/-- `LT_KICK` of a slot that the gate's owner describes by `view`. -/
def brKick (b : Broker) (t : σ) (mr : Registers) (slot : UInt64) (view : LcSlot) :
    Message × Broker × σ :=
  if view.state ≠ LcState.active ∨ b.pending (slotIx slot) ≠ 0 then
    (ltReply mr LcStatus.badState 0, b, t)
  else
    (ltReply mr LcStatus.ok (b.inc (slotIx slot)), { b with notified := b.notified ++ [slot] }, t)

/-- `protected` on the controller's channel. -/
def brController (b : Broker) (t : σ) (m : Message) : Message × Broker × σ :=
  if runtimeMessage m LtLabel.brokerStatus 0 then (brStats m.mr b, b, t)
  else if runtimeMessage m LtLabel.kick 1 ∨ runtimeMessage m LtLabel.drain 1 then
    let slot := m.mr 0
    if slot ≥ slotCount ∨ b.inc (slotIx slot) = 0 then (ltReply m.mr LcStatus.invalid 0, b, t)
    else
      match brView gate b t m.mr slot with
      | (none, b, t) => (ltReply m.mr runtimeFailure 0, b, t)
      | (some view, b, t) =>
        if m.label = LtLabel.kick then brKick b t m.mr slot view else brDrain gate' b t m.mr slot view
  else (ltReply m.mr LcStatus.invalid 0, b, t)

/-- `LT_HELLO` of the worker on channel `slot`. -/
def brHello (b : Broker) (t : σ) (mr : Registers) (slot : UInt64) : Message × Broker × σ :=
  if b.inc (slotIx slot) ≠ 0 then (ltReply mr LcStatus.badState 0, { b with bad := b.bad + 1 }, t)
  else
    let out := gate t ⟨LtLabel.ready, 1, mr.set 0 slot⟩
    let r := ltResponse out.1
    if r.status = runtimeFailure ∨ (r.status = LcStatus.ok ∧ r.value = 0) then
      (ltReply mr runtimeFailure 0, { b with failed := true }, out.2)
    else
      (ltReply mr r.status r.value,
        if r.status = LcStatus.ok then { b with inc := Function.update b.inc (slotIx slot) r.value }
        else b, out.2)

/-- The ticket of the worker of `slot` is begun or completed. -/
def brTicket (b : Broker) (t : σ) (mr : Registers) (slot : UInt64) (begin complete : Bool)
    (inc sequence : UInt64) : Message × Broker × σ :=
  let (r, b, t) := brCall gate b t mr (if begin then LcOp.begin else LcOp.complete) slot inc sequence
  if r.status = LcStatus.ok ∧ (r.value = 0 ∨ (complete ∧ r.value ≠ sequence)) then
    (ltReply mr runtimeFailure 0, { b with failed := true }, t)
  else
    (ltReply mr r.status r.value,
      if r.status = LcStatus.ok then
        { b with
          pending := Function.update b.pending (slotIx slot) (if begin then r.value else 0)
          begun := if begin then b.begun + 1 else b.begun }
      else b, t)

/-- `protected` on the channel of the worker of `slot`: the payload names no slot. -/
def brWorker (b : Broker) (t : σ) (m : Message) (slot : UInt64) : Message × Broker × σ :=
  if runtimeMessage m LtLabel.hello 0 then brHello gate b t m.mr slot
  else
    let begin := runtimeMessage m LtLabel.begin 1
    let complete := runtimeMessage m LtLabel.complete 2
    if !begin ∧ !complete then (ltReply m.mr LcStatus.invalid 0, { b with bad := b.bad + 1 }, t)
    else
      let inc := m.mr 0
      let sequence := if complete then m.mr 1 else 0
      if inc = 0 ∨ inc ≠ b.inc (slotIx slot) ∨
          (complete ∧ (sequence = 0 ∨ sequence ≠ b.pending (slotIx slot))) then
        (ltReply m.mr LcStatus.stale 0, { b with stale := b.stale + 1 }, t)
      else brTicket gate b t m.mr slot begin complete inc sequence

/-- `protected`. -/
def brProtected (ch : ℕ) : Peer (Broker × σ) := fun (b, t) m =>
  if !b.ready ∨ b.failed ∨ ch > 2 then (ltReply m.mr runtimeFailure 0, b, t)
  else if ch = 2 then brController gate gate' b t m
  else brWorker gate b t m ch.toUInt64

end

/-! ### The broker and the supervisor -/

/-- The supervisor as a call of the broker reaches it. -/
def supervisorCall (noise : Noise) : Peer Supervisor := ppcall noise (svProtected 1)

/-- What happens to the two servers: a call of the controller to either, a message of a worker on
its channel, the fault of a child. -/
inductive LtCall
  | supervisor (m : Message)
  | broker (noise noise' : Noise) (m : Message)
  | worker (ch : Fin 2) (noise noise' : Noise) (m : Message)
  | fault (child : ℕ) (m : Message)

/-- The two servers. -/
structure LtSystem where
  broker : Broker
  supervisor : Supervisor

/-- The two servers after their `init`. -/
def LtSystem.init (children : Children) : LtSystem :=
  ⟨brInit Broker.zero, svInit (Supervisor.loaded children)⟩

/-- A call of the broker, with what it calls. -/
def LtSystem.brokerCall (s : LtSystem) (ch : ℕ) (noise noise' : Noise) (m : Message) :
    LtSystem × Option Message :=
  let out := brProtected (supervisorCall noise) (supervisorCall noise') ch (s.broker, s.supervisor) m
  (⟨out.2.1, out.2.2⟩, some out.1)

/-- One of them. -/
def ltCall (s : LtSystem) : LtCall → LtSystem × Option Message
  | .supervisor m =>
    (⟨s.broker, (svCall s.supervisor (.call 0 m)).1⟩, (svCall s.supervisor (.call 0 m)).2)
  | .broker noise noise' m => s.brokerCall 2 noise noise' m
  | .worker ch noise noise' m => s.brokerCall ch.val noise noise' m
  | .fault child m => (⟨s.broker, (svCall s.supervisor (.fault child m)).1⟩, none)

/-! ### What the broker asks of the supervisor -/

theorem brHello_supervisor {σ : Type*} (gate : Peer σ) (b : Broker) (t : σ) (mr : Registers)
    (slot : UInt64) : (brHello gate b t mr slot).2.2 = t ∨
      (brHello gate b t mr slot).2.2 = (gate t ⟨LtLabel.ready, 1, mr.set 0 slot⟩).2 := by
  unfold brHello
  dsimp only
  by_cases h : b.inc (slotIx slot) ≠ 0
  · rw [if_pos h]
    exact Or.inl rfl
  · rw [if_neg h]
    right
    split_ifs <;> rfl

theorem brTicket_supervisor {σ : Type*} (gate : Peer σ) (b : Broker) (t : σ) (mr : Registers)
    (slot : UInt64) (begin complete : Bool) (inc sequence : UInt64) :
    (brTicket gate b t mr slot begin complete inc sequence).2.2 = (gate t ⟨LtLabel.event, 4,
      (((mr.set 0 (if begin then LcOp.begin else LcOp.complete)).set 1 slot).set 2 inc).set 3
        sequence⟩).2 := by
  unfold brTicket brCall
  dsimp only
  split_ifs <;> rfl

/-- **What a worker's message asks of the supervisor**: nothing, its start, or one event of its own
slot. -/
theorem brWorker_call {σ : Type*} (gate : Peer σ) (b : Broker) (t : σ) (m : Message) (slot : UInt64) :
    (brWorker gate b t m slot).2.2 = t ∨
      (brWorker gate b t m slot).2.2 = (gate t ⟨LtLabel.ready, 1, m.mr.set 0 slot⟩).2 ∨
      ∃ op inc sequence, (brWorker gate b t m slot).2.2 = (gate t ⟨LtLabel.event, 4,
        (((m.mr.set 0 op).set 1 slot).set 2 inc).set 3 sequence⟩).2 := by
  unfold brWorker
  dsimp only
  generalize (if runtimeMessage m LtLabel.complete 2 = true then m.mr 1 else 0) = sequence
  split_ifs
  · exact (brHello_supervisor gate b t m.mr slot).imp_right Or.inl
  · exact Or.inl rfl
  · exact Or.inl rfl
  · exact Or.inr (Or.inr ⟨_, _, _, brTicket_supervisor gate b t m.mr slot _ _ _ _⟩)

section

variable {σ : Type*} {gate gate' : Peer σ} {P : σ → Prop}

/-- Whatever every call of the broker keeps, a handler of the broker keeps. -/
theorem brProtected_keeps (h : ∀ t m, P t → P (gate t m).2) (h' : ∀ t m, P t → P (gate' t m).2)
    (ch : ℕ) (b : Broker) {t : σ} (ht : P t) (m : Message) :
    P (brProtected gate gate' ch (b, t) m).2.2 := by
  have hview : ∀ mr slot, P (brView gate b t mr slot).2.2 := by
    intro mr slot
    unfold brView
    dsimp only
    split_ifs <;> exact h _ _ ht
  have hdrain : ∀ b t mr slot view, P t → P (brDrain gate' b t mr slot view).2.2 := by
    intro b t mr slot view ht
    unfold brDrain brCall
    dsimp only
    split_ifs
    · exact ht
    all_goals exact h' _ _ ht
  have hkick : ∀ b t mr slot view, P t → P (brKick b t mr slot view).2.2 := by
    intro b t mr slot view ht
    unfold brKick
    split_ifs <;> exact ht
  have hcontroller : P (brController gate gate' b t m).2.2 := by
    have hv := hview m.mr (m.mr 0)
    unfold brController
    dsimp only
    generalize brView gate b t m.mr (m.mr 0) = out at hv ⊢
    rcases out with ⟨_ | view, b', t'⟩
    · split_ifs
      any_goals exact ht
      all_goals exact hv
    · split_ifs
      any_goals exact ht
      · exact hkick _ _ _ _ _ hv
      · exact hdrain _ _ _ _ _ hv
  have hworker : ∀ slot, P (brWorker gate b t m slot).2.2 := by
    intro slot
    rcases brWorker_call gate b t m slot with he | he | ⟨op, inc, sequence, he⟩
    · rw [he]
      exact ht
    · rw [he]
      exact h _ _ ht
    · rw [he]
      exact h _ _ ht
  unfold brProtected
  dsimp only
  split_ifs
  · exact ht
  · exact hcontroller
  · exact hworker _

end

/-! ### What the supervisor answers the broker -/

section

variable {s : Supervisor} {m : Message}

theorem svProtected_failed (h : s.failed = true) (ch : ℕ) (m : Message) :
    svProtected ch s m = (ltReply m.mr runtimeFailure 0, s) := by
  unfold svProtected
  rw [if_pos (Or.inr (Or.inl h))]

theorem sv_in_service (hr : s.ready = true) (hf : s.failed = false) :
    ¬ ((!s.ready) = true ∨ s.failed = true ∨ 1 > 1) := by
  simp [hr, hf]

theorem svProtected_view (hr : s.ready = true) (hf : s.failed = false)
    (hm : runtimeMessage m LtLabel.view 1 = true) (hi : m.mr 0 < slotCount) :
    svProtected 1 s m = (⟨LtLabel.slot, 6, slotWords m.mr 0 (s.life.at (m.mr 0))⟩, s) := by
  unfold svProtected
  rw [if_neg (sv_in_service hr hf), if_neg (by simp), if_neg (by simp), if_pos ⟨rfl, Or.inr hm⟩]
  dsimp only
  rw [if_neg (by grind), if_pos (runtimeMessage_iff.mp hm).1]

theorem svProtected_ready (hr : s.ready = true) (hf : s.failed = false)
    (hm : runtimeMessage m LtLabel.ready 1 = true) (hi : m.mr 0 < slotCount) :
    svProtected 1 s m =
      let out := svApply s .supervisor LcOp.started (m.mr 0) (s.life.at (m.mr 0)).incarnation 0 false
      (ltReply m.mr out.1.status out.1.value, out.2) := by
  unfold svProtected
  rw [if_neg (sv_in_service hr hf), if_neg (by simp), if_neg (by simp), if_pos ⟨rfl, Or.inl hm⟩]
  dsimp only
  rw [if_neg (by grind), if_neg (by rw [(runtimeMessage_iff.mp hm).1]; decide)]

theorem svProtected_event (hr : s.ready = true) (hf : s.failed = false)
    (hm : runtimeMessage m LtLabel.event 4 = true)
    (hop : m.mr 0 = LcOp.begin ∨ m.mr 0 = LcOp.complete ∨ m.mr 0 = LcOp.drained)
    (hi : m.mr 1 < slotCount) (hd : m.mr 0 = LcOp.drained → (s.life.at (m.mr 1)).stopped ≠ 0) :
    svProtected 1 s m =
      let out := svApply s .broker (m.mr 0) (m.mr 1) (m.mr 2) (m.mr 3) false
      (ltReply m.mr out.1.status out.1.value, out.2) := by
  have hn : ∀ label, label ≠ LtLabel.event → ∀ n, runtimeMessage m label n = false := by
    intro label hne n
    simp [runtimeMessage, (runtimeMessage_iff.mp hm).1, hne.symm]
  unfold svProtected
  rw [if_neg (sv_in_service hr hf), if_neg (by simp), if_neg (by simp),
    if_neg (by simp [hn]), if_pos ⟨rfl, hm⟩]
  dsimp only
  rw [if_neg (by grind), if_neg (by grind), if_neg (fun h => hd h.1 h.2)]

/-- **What the broker's messages move**: a worker's start or one event of a worker's ticket. -/
theorem svProtected_moves (s : Supervisor) (m : Message) :
    (svProtected 1 s m).2 = s ∨
      (∃ inc, m.label = LtLabel.ready ∧
        (svProtected 1 s m).2 = (svApply s .supervisor LcOp.started (m.mr 0) inc 0 false).2) ∨
      (m.label = LtLabel.event ∧
        (svProtected 1 s m).2 = (svApply s .broker (m.mr 0) (m.mr 1) (m.mr 2) (m.mr 3) false).2) := by
  unfold svProtected
  by_cases h0 : (!s.ready) = true ∨ s.failed = true ∨ 1 > 1
  · rw [if_pos h0]
    exact Or.inl rfl
  rw [if_neg h0, if_neg (by simp), if_neg (by simp)]
  dsimp only
  split_ifs with h1 h2 h3 h4 h5 h6 h7
  any_goals exact Or.inl rfl
  · -- not a view, so the start of a worker
    obtain ⟨-, hm | hm⟩ := h1
    · exact Or.inr (Or.inl ⟨_, (runtimeMessage_iff.mp hm).1, rfl⟩)
    · exact absurd (runtimeMessage_iff.mp hm).1 h3
  · exact Or.inr (Or.inr ⟨(runtimeMessage_iff.mp h4.2).1, rfl⟩)

theorem svApply_eq (s : Supervisor) (actor : LcActor) (op slot inc seq : UInt64) (b : Bool) :
    svApply s actor op slot inc seq b = ((lcApply s.life actor ⟨op, slot, inc, seq⟩ b).1,
      { s with life := (lcApply s.life actor ⟨op, slot, inc, seq⟩ b).2 }) := rfl

/-- The broker has no way to the children, nor to make the supervisor fail. -/
theorem svProtected_children (s : Supervisor) (m : Message) :
    (svProtected 1 s m).2.children = s.children ∧ (svProtected 1 s m).2.failed = s.failed := by
  rcases svProtected_moves s m with h | ⟨inc, -, h⟩ | ⟨-, h⟩ <;> rw [h]
  · exact ⟨rfl, rfl⟩
  · exact ⟨rfl, rfl⟩
  · exact ⟨rfl, rfl⟩

end

theorem lcApply_status (life : Lifecycle) (actor : LcActor) (e : LcEvent) (b : Bool) :
    (lcApply life actor e b).1.status ≤ LcStatus.exhausted := by
  have hite : ∀ {c : Prop} [Decidable c] {x y : Except UInt64 (UInt64 × Lifecycle)},
      (∀ w, x = .error w → w ≤ LcStatus.exhausted) → (∀ w, y = .error w → w ≤ LcStatus.exhausted) →
      ∀ w, (if c then x else y) = .error w → w ≤ LcStatus.exhausted := by
    intro c _ x y hx hy
    split <;> assumption
  have hsw : ∀ w, lcSwitch life e b = .error w → w ≤ LcStatus.exhausted := by
    simp only [lcSwitch]
    repeat' apply hite
    all_goals simp
  unfold lcApply
  split_ifs
  · exact (by decide : LcStatus.invalid ≤ LcStatus.exhausted)
  · exact (by decide : LcStatus.denied ≤ LcStatus.exhausted)
  · exact (by decide : LcStatus.invalid ≤ LcStatus.exhausted)
  · exact (by decide : LcStatus.stale ≤ LcStatus.exhausted)
  · cases h : lcSwitch life e b with
    | error status => exact hsw status h
    | ok out => exact UInt64.zero_le

/-! ### What the broker makes of the answers -/

section

variable {s : Supervisor} {b : Broker} {slot inc seq op : UInt64}

/-- The guard of the view's fields holds of every slot of a valid lifecycle. -/
theorem view_accepted (hl : LcOk s.life) (hinc : b.inc (slotIx slot) = (s.life.at slot).incarnation) :
    ¬ ((s.life.at slot).state > LcState.retired ∨ (s.life.at slot).incarnation ≠ b.inc (slotIx slot) ∨
      (s.life.at slot).stopped > 1 ∨ (s.life.at slot).drained > 1) := by
  have h := hl.slots (slotIx slot)
  rintro (h1 | h1 | h1 | h1)
  · exact UInt64.not_lt.mpr h.state h1
  · exact h1 hinc.symm
  · exact UInt64.not_lt.mpr h.stopped h1
  · exact UInt64.not_lt.mpr h.drained h1

/-- **The view of a slot whose incarnation the broker knows** is the slot. -/
theorem brView_eq (hr : s.ready = true) (hf : s.failed = false) (hl : LcOk s.life)
    (hi : slot < slotCount) (hinc : b.inc (slotIx slot) = (s.life.at slot).incarnation)
    (noise : Noise) (mr : Registers) :
    brView (supervisorCall noise) b s mr slot = (some (s.life.at slot), b, s) := by
  let m : Message := (⟨LtLabel.view, 1, mr.set 0 slot⟩ : Message).deliver noise.callee
  have hslot : m.mr 0 = slot := by simp [m, Message.deliver, Registers.set_apply]
  have hp := svProtected_view (m := m) hr hf (by simp [m, runtimeMessage]) (by rwa [hslot])
  rw [hslot] at hp
  have hcall : supervisorCall noise s ⟨LtLabel.view, 1, mr.set 0 slot⟩ =
      ((⟨LtLabel.slot, 6, slotWords m.mr 0 (s.life.at slot)⟩ : Message).deliver noise.caller, s) := by
    rw [supervisorCall, ppcall_eq, hp]
  have hwords : viewWords ((⟨LtLabel.slot, 6, slotWords m.mr 0 (s.life.at slot)⟩ :
      Message).deliver noise.caller) = s.life.at slot := by
    obtain ⟨h0, h1, h2, h3, h4, h5⟩ := slotWords_deliver LtLabel.slot m.mr noise.caller (s.life.at slot)
    rw [viewWords, h0, h1, h2, h3, h4, h5]
  unfold brView
  dsimp only
  rw [hcall, if_neg (by simp [runtimeMessage]), hwords, if_neg (view_accepted hl hinc)]

theorem brView_failed (hf : s.failed = true) (noise : Noise) (mr : Registers) :
    brView (supervisorCall noise) b s mr slot = (none, { b with failed := true }, s) := by
  unfold brView
  dsimp only
  rw [supervisorCall, ppcall_eq, svProtected_failed hf, if_pos (by simp [runtimeMessage, ltReply, runtimeReply])]

theorem ltResponse_apply (life : Lifecycle) (actor : LcActor) (e : LcEvent) (audit : Bool)
    (mr : Registers) :
    ltResponse (ltReply mr (lcApply life actor e audit).1.status
      (lcApply life actor e audit).1.value) = (lcApply life actor e audit).1 :=
  ltResponse_reply mr (lcApply_status life actor e audit) fun h => (lcApply_of_ne h).1

theorem lcApply_ne_failure (life : Lifecycle) (actor : LcActor) (e : LcEvent) (audit : Bool) :
    (lcApply life actor e audit).1.status ≠ runtimeFailure := by
  intro h
  have hle := lcApply_status life actor e audit
  rw [h] at hle
  exact absurd hle (by decide)

/-- **An event of a worker's ticket** reaches the lifecycle, and the broker reads its answer. -/
theorem brCall_eq (hr : s.ready = true) (hf : s.failed = false)
    (hop : op = LcOp.begin ∨ op = LcOp.complete ∨ op = LcOp.drained) (hi : slot < slotCount)
    (hd : op = LcOp.drained → (s.life.at slot).stopped ≠ 0) (noise : Noise) (mr : Registers) :
    brCall (supervisorCall noise) b s mr op slot inc seq =
      ((lcApply s.life .broker ⟨op, slot, inc, seq⟩ false).1, b,
        { s with life := (lcApply s.life .broker ⟨op, slot, inc, seq⟩ false).2 }) := by
  let m : Message := (⟨LtLabel.event, 4, (((mr.set 0 op).set 1 slot).set 2 inc).set 3 seq⟩ :
    Message).deliver noise.callee
  have h0 : m.mr 0 = op := by simp [m, Message.deliver, Registers.set_apply]
  have h1 : m.mr 1 = slot := by simp [m, Message.deliver, Registers.set_apply]
  have h2 : m.mr 2 = inc := by simp [m, Message.deliver, Registers.set_apply]
  have h3 : m.mr 3 = seq := by simp [m, Message.deliver, Registers.set_apply]
  have hp := svProtected_event (m := m) hr hf (by simp [m, runtimeMessage]) (by rwa [h0])
    (by rwa [h1]) (by rwa [h0, h1])
  rw [h0, h1, h2, h3] at hp
  unfold brCall
  dsimp only
  rw [supervisorCall, ppcall_eq, hp]
  dsimp only
  rw [svApply_eq, ltResponse_deliver, ltResponse_apply, if_neg (lcApply_ne_failure _ _ _ _)]

/-- **The start of a worker** reaches the lifecycle under the incarnation the supervisor has. -/
theorem helloCall_eq (hr : s.ready = true) (hf : s.failed = false) (hi : slot < slotCount)
    (noise : Noise) (mr : Registers) :
    let out := supervisorCall noise s ⟨LtLabel.ready, 1, mr.set 0 slot⟩
    let e : LcEvent := ⟨LcOp.started, slot, (s.life.at slot).incarnation, 0⟩
    ltResponse out.1 = (lcApply s.life .supervisor e false).1 ∧
      out.2 = { s with life := (lcApply s.life .supervisor e false).2 } := by
  let m : Message := (⟨LtLabel.ready, 1, mr.set 0 slot⟩ : Message).deliver noise.callee
  have hslot : m.mr 0 = slot := by simp [m, Message.deliver, Registers.set_apply]
  have hp := svProtected_ready (m := m) hr hf (by simp [m, runtimeMessage]) (by rwa [hslot])
  rw [hslot] at hp
  rw [supervisorCall, ppcall_eq, hp]
  exact ⟨(ltResponse_deliver _ _).trans (ltResponse_apply _ _ _ _ _), rfl⟩

end

/-! ### The two copies -/

/-- The broker's copies of a slot's incarnation and ticket. The incarnation is known from the
worker's hello on, which the slot's phase shows. -/
structure SlotCopied (inc pending : UInt64) (t : LcSlot) : Prop where
  known : inc = 0 ∨ inc = t.incarnation
  ticket : pending = t.pending
  starting : t.state = LcState.starting → inc = 0
  hello : t.state = LcState.ready ∨ t.state = LcState.active → inc ≠ 0

/-- The broker is in service and its copies are those of the gate's owner. -/
structure Copied (b : Broker) (life : Lifecycle) : Prop where
  service : b.ready = true ∧ b.failed = false
  slots : ∀ i, SlotCopied (b.inc i) (b.pending i) (life.slots i)

theorem Copied.update {b b' : Broker} {life life' : Lifecycle} (h : Copied b life) (i : Fin 2)
    (hf : b'.ready = true ∧ b'.failed = false) (hb : ∀ j ≠ i, b'.inc j = b.inc j ∧ b'.pending j = b.pending j)
    (hl : ∀ j ≠ i, life'.slots j = life.slots j)
    (hi : SlotCopied (b'.inc i) (b'.pending i) (life'.slots i)) : Copied b' life' := by
  refine ⟨hf, fun j => ?_⟩
  by_cases hj : j = i
  · rw [hj]
    exact hi
  · rw [(hb j hj).1, (hb j hj).2, hl j hj]
    exact h.slots j

/-- The gate's owner changes one slot, and the broker learns what it has become. -/
theorem Copied.learn {b b' : Broker} {life : Lifecycle} (h : Copied b life) (slot : UInt64)
    {inc pending : UInt64} {t : LcSlot} (hf : b'.ready = true ∧ b'.failed = false)
    (hinc : b'.inc = Function.update b.inc (slotIx slot) inc)
    (hpending : b'.pending = Function.update b.pending (slotIx slot) pending)
    (ht : SlotCopied inc pending t) : Copied b' (life.set slot t) := by
  refine h.update (slotIx slot) hf (fun j hj => ?_) (fun j hj => Lifecycle.set_slots_of_ne _ hj _) ?_
  · rw [hinc, hpending, Function.update_of_ne hj, Function.update_of_ne hj]
    exact ⟨rfl, rfl⟩
  · rw [hinc, hpending, Function.update_self, Function.update_self, Lifecycle.set_slots_self]
    exact ht

theorem Copied.set {b : Broker} {life : Lifecycle} (h : Copied b life) (slot : UInt64) {t : LcSlot}
    (ht : SlotCopied (b.inc (slotIx slot)) (b.pending (slotIx slot)) t) : Copied b (life.set slot t) :=
  h.learn slot h.service (Function.update_eq_self _ _).symm (Function.update_eq_self _ _).symm ht

section

variable {b : Broker} {s s' : Supervisor} {who : Option LcActor}

/-- **What the supervisor does without the broker** changes no ticket and no incarnation the broker
knows. -/
theorem Copied.svStep (h : Copied b s.life) (hl : LcOk s.life) (hs : SvStep s who s')
    (hw : who = none ∨ who = some .admin) (hf : s'.failed = false) : Copied b s'.life := by
  cases hs with
  | same => exact h
  | fail => cases hf
  | @event hf actor e audit v life' hs hop =>
    obtain rfl : actor = .admin := by simpa using hw
    obtain ⟨t, ht, hn, rfl⟩ := hs.slotStep hop.1
    have hi := h.slots (slotIx e.slot)
    generalize e.op = op, e.sequence = sequence at ht hop
    cases ht with
    | activate hst =>
      refine h.set e.slot ⟨hi.known, hi.ticket, ?_, fun _ => hi.hello (Or.inl hst)⟩
      exact fun hc => absurd hc (by simp)
    | contain => exact absurd rfl hop.2.1
  | @reserve hf slot v life' hs =>
    obtain ⟨hunused, -⟩ := hs.reserve_slot rfl
    have hi := h.slots (slotIx slot)
    have hz : s.life.at slot = LcSlot.zero := (hl.slots _).unused hunused
    have hnew : life'.slots (slotIx slot) = _ := hs.reserve_eq rfl
    change SlotCopied _ _ (s.life.at slot) at hi
    rw [hz] at hi hnew
    refine h.update (slotIx slot) h.service (fun _ _ => ⟨rfl, rfl⟩) (fun j hj => (hs.moves j).2 hj) ?_
    rw [hnew]
    have hinc : b.inc (slotIx slot) = 0 := hi.known.elim id id
    exact ⟨Or.inl hinc, hi.ticket, fun _ => hinc, fun hc => absurd hc (by simp)⟩
  | @contain hf _ slot hi hlive faults ip address fsr =>
    have hi := h.slots (slotIx slot)
    exact h.set slot ⟨hi.known, hi.ticket, fun hc => absurd hc (by simp [LcSlot.shutDown]),
      fun hc => absurd hc (by simp [LcSlot.shutDown])⟩

variable {base : List ChildCall} {slot : UInt64}

/-- A worker's hello gives the broker the incarnation that starts. -/
theorem Copied.hello (h : Copied b s.life) (hv : SvOk base s) (hf : s.failed = false)
    (hi : slot < slotCount) (noise : Noise) (mr : Registers) :
    let out := brHello (supervisorCall noise) b s mr slot
    Copied out.2.1 out.2.2.life := by
  unfold brHello
  by_cases h0 : b.inc (slotIx slot) ≠ 0
  · rw [if_pos h0]
    exact ⟨h.service, h.slots⟩
  rw [if_neg h0]
  obtain ⟨h1, h2⟩ := helloCall_eq hv.ready hf hi noise mr
  dsimp only at h1 h2 ⊢
  rw [h1, h2]
  rcases hout : lcApply s.life .supervisor ⟨LcOp.started, slot, (s.life.at slot).incarnation, 0⟩ false
    with ⟨⟨status, value⟩, life'⟩
  have hne : status ≠ runtimeFailure := by
    have := lcApply_ne_failure s.life .supervisor
      ⟨LcOp.started, slot, (s.life.at slot).incarnation, 0⟩ false
    rwa [hout] at this
  dsimp only
  by_cases hok : status = LcStatus.ok
  · subst hok
    obtain ⟨t, ht, hn, rfl⟩ := (lcApply_ok_iff.mp hout).2.slotStep (by simp)
    have ha := h.slots (slotIx slot)
    cases ht with
    | started _ hst =>
      rw [if_neg (by simpa using hn), if_pos rfl]
      refine h.learn slot h.service rfl (Function.update_eq_self _ _).symm ?_
      exact ⟨Or.inr rfl, ha.ticket, fun hc => absurd hc (by simp), fun _ => hn⟩
  · have hsame : life' = s.life := by
      have := (lcApply_of_ne (by rw [hout]; exact hok)).2
      rwa [hout] at this
    rw [if_neg (by simp [hok, hne]), if_neg hok, hsame]
    exact h

/-- A ticket that is begun or completed is so on both sides. -/
theorem Copied.ticket (h : Copied b s.life) (hv : SvOk base s) (hf : s.failed = false)
    (hi : slot < slotCount) {begin complete : Bool} {inc sequence : UInt64}
    (hbc : begin = !complete) (noise : Noise) (mr : Registers) :
    let out := brTicket (supervisorCall noise) b s mr slot begin complete inc sequence
    Copied out.2.1 out.2.2.life := by
  have ha := h.slots (slotIx slot)
  unfold brTicket
  rw [brCall_eq hv.ready hf (by cases begin <;> simp) hi (by cases begin <;> simp)]
  rcases hout : lcApply s.life .broker ⟨if begin then LcOp.begin else LcOp.complete, slot, inc,
    sequence⟩ false with ⟨⟨status, value⟩, life'⟩
  dsimp only
  by_cases hok : status = LcStatus.ok
  · subst hok
    obtain ⟨t, ht, hn, rfl⟩ := (lcApply_ok_iff.mp hout).2.slotStep (by cases begin <;> simp)
    -- what the slot and the value are, for either operation
    have key : value ≠ 0 ∧ (complete = true → value = sequence) ∧
        SlotCopied (b.inc (slotIx slot)) (if begin then value else 0) t := by
      cases complete with
      | false =>
        obtain rfl : begin = true := by simpa using hbc
        simp only [if_true] at ht
        cases ht with
        | begin _ hst hp hm =>
          refine ⟨?_, by simp, ha.known, rfl, ha.starting, ha.hello⟩
          rw [Ne, ← Word.toNat_eq_zero, Word.toNat_succ hm]
          omega
      | true =>
        obtain rfl : begin = false := by simpa using hbc
        simp only [Bool.false_eq_true, if_false] at ht
        clear hout
        cases ht with
        | complete _ hst hp => exact ⟨hp, fun _ => rfl, ha.known, rfl, ha.starting, ha.hello⟩
    obtain ⟨hv0, hvs, ht⟩ := key
    rw [if_neg (by grind), if_pos rfl]
    exact h.learn slot h.service (Function.update_eq_self _ _).symm rfl ht
  · have hsame : life' = s.life := by
      have := (lcApply_of_ne (by rw [hout]; exact hok)).2
      rwa [hout] at this
    rw [if_neg (fun hc => hok hc.1), if_neg hok, hsame]
    exact h

/-- The slot after its drain, which is confirmed last. -/
def LcSlot.drainedOff (t : LcSlot) : LcSlot :=
  { t with drained := 1, pending := 0, state := LcState.retired }

/-- **The drain of a stopped slot** succeeds on both sides. -/
theorem brDrain_eq (hv : SvOk base s) (hf : s.failed = false) (hi : slot < slotCount)
    (hinc : b.inc (slotIx slot) = (s.life.at slot).incarnation)
    (hpend : b.pending (slotIx slot) = (s.life.at slot).pending)
    (hc : (s.life.at slot).state = LcState.closing) (hs : (s.life.at slot).stopped ≠ 0)
    (hd : (s.life.at slot).drained = 0) (noise : Noise) (mr : Registers) :
    brDrain (supervisorCall noise) b s mr slot (s.life.at slot) =
      (ltReply mr LcStatus.ok (s.life.at slot).incarnation,
        { b with pending := Function.update b.pending (slotIx slot) 0, drains := b.drains + 1 },
        { s with life := s.life.set slot (s.life.at slot).drainedOff }) := by
  have hn := ((hv.lcOk.slots (slotIx slot)).incarnation (by
    change (s.life.at slot).state ≠ LcState.unused
    rw [hc]
    decide)).1
  have hstep : LcStep s.life .broker
      ⟨LcOp.drained, slot, (s.life.at slot).incarnation, (s.life.at slot).issued⟩ false _ _ :=
    .slot slot hi hn (.drained false hc hd)
  unfold brDrain
  rw [if_neg (by simp [hc, hs, hd, hpend])]
  dsimp only
  rw [hinc, brCall_eq hv.ready hf (by simp) hi (fun _ => hs),
    lcApply_ok_iff.mpr ⟨(lcValid_iff _).mpr hv.lcOk, hstep⟩]
  simp [hs, LcSlot.drainedOff]

/-- A drain that is refused, or that succeeds, is so on both sides. -/
theorem Copied.drain (h : Copied b s.life) (hv : SvOk base s) (hf : s.failed = false)
    (hi : slot < slotCount) (hinc : b.inc (slotIx slot) ≠ 0) (noise : Noise) (mr : Registers) :
    let out := brDrain (supervisorCall noise) b s mr slot (s.life.at slot)
    Copied out.2.1 out.2.2.life := by
  have ha : SlotCopied _ _ (s.life.at slot) := h.slots (slotIx slot)
  by_cases hc : (s.life.at slot).state = LcState.closing ∧ (s.life.at slot).stopped ≠ 0 ∧
      (s.life.at slot).drained = 0
  · obtain ⟨hc, hs, hd⟩ := hc
    rw [brDrain_eq hv hf hi (ha.known.resolve_left hinc) ha.ticket hc hs hd]
    refine h.learn slot h.service (Function.update_eq_self _ _).symm rfl ?_
    exact ⟨ha.known, rfl, fun hc => absurd hc (by simp [LcSlot.drainedOff]), fun _ => hinc⟩
  · unfold brDrain
    rw [if_pos (by tauto)]
    exact h

theorem Copied.controller (h : Copied b s.life) (hv : SvOk base s) (hf : s.failed = false)
    (noise noise' : Noise) (m : Message) :
    let out := brController (supervisorCall noise) (supervisorCall noise') b s m
    Copied out.2.1 out.2.2.life := by
  unfold brController
  by_cases h1 : runtimeMessage m LtLabel.brokerStatus 0 = true
  · rw [if_pos h1]
    exact h
  rw [if_neg h1]
  by_cases h2 : runtimeMessage m LtLabel.kick 1 = true ∨ runtimeMessage m LtLabel.drain 1 = true
  · rw [if_pos h2]
    dsimp only
    by_cases h3 : m.mr 0 ≥ slotCount ∨ b.inc (slotIx (m.mr 0)) = 0
    · rw [if_pos h3]
      exact h
    · rw [if_neg h3]
      simp only [not_or, ge_iff_le, UInt64.not_le] at h3
      have ha : SlotCopied _ _ (s.life.at (m.mr 0)) := h.slots (slotIx (m.mr 0))
      rw [brView_eq hv.ready hf hv.lcOk h3.1 (ha.known.resolve_left h3.2)]
      dsimp only
      split_ifs
      · unfold brKick
        split_ifs
        · exact h
        · exact ⟨h.service, h.slots⟩
      · exact h.drain hv hf h3.1 h3.2 noise' m.mr
  · rw [if_neg h2]
    exact h

/-- A message of a worker is one of the two, and not both. -/
theorem begin_eq_not_complete {m : Message}
    (h : ¬ ((!runtimeMessage m LtLabel.begin 1) = true ∧ (!runtimeMessage m LtLabel.complete 2) = true)) :
    runtimeMessage m LtLabel.begin 1 = !runtimeMessage m LtLabel.complete 2 := by
  by_cases hc : runtimeMessage m LtLabel.complete 2 = true
  · obtain ⟨hl, hn⟩ := runtimeMessage_iff.mp hc
    simp [runtimeMessage, hl, hn]
  · simpa [hc] using h

/-- **What the broker does keeps the copies.** -/
theorem Copied.brProtected (h : Copied b s.life) (hv : SvOk base s) (hf : s.failed = false)
    (ch : ℕ) (noise noise' : Noise) (m : Message) :
    let out := brProtected (supervisorCall noise) (supervisorCall noise') ch (b, s) m
    Copied out.2.1 out.2.2.life := by
  unfold Tcs.brProtected
  dsimp only
  by_cases h0 : (!b.ready) = true ∨ b.failed = true ∨ ch > 2
  · rw [if_pos h0]
    exact h
  rw [if_neg h0]
  by_cases hch : ch = 2
  · rw [if_pos hch]
    exact h.controller hv hf noise noise' m
  · rw [if_neg hch]
    have hi : ch.toUInt64 < slotCount := by
      obtain rfl | rfl : ch = 0 ∨ ch = 1 := by omega
      · decide
      · decide
    unfold brWorker
    dsimp only
    generalize (if runtimeMessage m LtLabel.complete 2 = true then m.mr 1 else 0) = sequence
    split_ifs with h1 h2 h3
    · exact h.hello hv hf hi noise m.mr
    · exact ⟨h.service, h.slots⟩
    · exact ⟨h.service, h.slots⟩
    · refine h.ticket hv hf hi ?_ noise m.mr
      exact begin_eq_not_complete h2

end

/-! ### Runs -/

/-- The supervisor keeps its invariant, and the copies agree as long as it has not failed. -/
structure LtOk (base : List ChildCall) (s : LtSystem) : Prop where
  supervisor : SvOk base s.supervisor
  agrees : s.supervisor.failed = false → Copied s.broker s.supervisor.life

section

variable {base : List ChildCall} {s : LtSystem}

theorem brokerCall_failed (s : LtSystem) (ch : ℕ) (noise noise' : Noise) (m : Message) :
    (s.brokerCall ch noise noise' m).1.supervisor.failed = s.supervisor.failed := by
  have hgate : ∀ noise t m, t.failed = s.supervisor.failed →
      (supervisorCall noise t m).2.failed = s.supervisor.failed :=
    fun noise t m ht => (svProtected_children t _).2.trans ht
  exact brProtected_keeps (hgate noise) (hgate noise') ch s.broker rfl m

theorem LtOk.brokerCall (h : LtOk base s) (ch : ℕ) (noise noise' : Noise) (m : Message) :
    LtOk base (s.brokerCall ch noise noise' m).1 := by
  have hgate : ∀ noise t m, SvOk base t → SvOk base (supervisorCall noise t m).2 :=
    fun noise t m ht => ht.svCall (.call 1 (m.deliver noise.callee))
  refine ⟨brProtected_keeps (hgate noise) (hgate noise') ch s.broker h.supervisor m, fun hf => ?_⟩
  have hf' : s.supervisor.failed = false := (brokerCall_failed s ch noise noise' m).symm.trans hf
  exact (h.agrees hf').brProtected h.supervisor hf' ch noise noise' m

/-- **Every call keeps the copies.** -/
theorem LtOk.ltCall (h : LtOk base s) (x : LtCall) : LtOk base (ltCall s x).1 := by
  cases x with
  | supervisor m =>
    obtain ⟨actor, ha, hs⟩ := svStep_protected h.supervisor.lcOk 0 m
    refine ⟨h.supervisor.svStep hs, fun hf => ?_⟩
    exact (h.agrees (hs.failed hf)).svStep h.supervisor.lcOk hs (Or.inr (by rw [ha rfl])) hf
  | broker noise noise' m => exact h.brokerCall 2 noise noise' m
  | worker ch noise noise' m => exact h.brokerCall ch.val noise noise' m
  | fault child m =>
    have hv := h.supervisor.faulted child
    have hs := svStep_fault hv.lcOk child m
    refine ⟨hv.svStep hs, fun hf => ?_⟩
    exact Copied.svStep (s := { s.supervisor with children := s.supervisor.children.faulted child })
      (h.agrees (hs.failed hf)) hv.lcOk hs (Or.inl rfl) hf

end

theorem ltOk_init (c : Children) :
    LtOk (LtSystem.init c).supervisor.children.calls (LtSystem.init c) where
  supervisor := svOk_init c
  agrees _ := ⟨⟨rfl, rfl⟩, fun _ => ⟨Or.inl rfl, rfl, fun _ => rfl, fun hc => absurd hc (by
    simp [LtSystem.init, svInit, Supervisor.loaded, Lifecycle.zero, LcSlot.zero])⟩⟩

theorem ltOk_run (c : Children) (xs : List LtCall) :
    LtOk (LtSystem.init c).supervisor.children.calls (Run.final ltCall (LtSystem.init c) xs) :=
  Run.final_induct (ltOk_init c) (fun _ x h => h.ltCall x) xs

/-! ### The drain and the workers' channels -/

theorem brProtected_drain {σ : Type*} (gate gate' : Peer σ) {b : Broker}
    (hb : b.ready = true ∧ b.failed = false) (t : σ) {m : Message}
    (hm : runtimeMessage m LtLabel.drain 1 = true) :
    brProtected gate gate' 2 (b, t) m =
      if m.mr 0 ≥ slotCount ∨ b.inc (slotIx (m.mr 0)) = 0 then (ltReply m.mr LcStatus.invalid 0, b, t)
      else
        match brView gate b t m.mr (m.mr 0) with
        | (none, b, t) => (ltReply m.mr runtimeFailure 0, b, t)
        | (some view, b, t) => brDrain gate' b t m.mr (m.mr 0) view := by
  obtain ⟨hlabel, -⟩ := runtimeMessage_iff.mp hm
  have hkick : m.label ≠ LtLabel.kick := by
    rw [hlabel]
    decide
  unfold brProtected
  dsimp only
  rw [if_neg (by simp [hb]), if_pos rfl]
  unfold brController
  rw [if_neg (by simp [runtimeMessage, hlabel]), if_pos (Or.inr hm)]
  simp only [if_neg hkick]

/-- A drain that is answered with success met a slot that is closing, stopped and not drained. -/
theorem brDrain_ok {σ : Type*} {gate' : Peer σ} {b : Broker} {t : σ} {mr : Registers} {slot : UInt64}
    {view : LcSlot} (h : (ltResponse (brDrain gate' b t mr slot view).1).status = LcStatus.ok) :
    view.state = LcState.closing ∧ view.stopped ≠ 0 ∧ view.drained = 0 := by
  unfold brDrain at h
  by_cases hc : view.state ≠ LcState.closing ∨ view.stopped = 0 ∨ view.drained ≠ 0 ∨
      view.pending ≠ b.pending (slotIx slot)
  · rw [if_pos hc, ltResponse_reply mr (by decide) (fun _ => rfl)] at h
    exact absurd h (by decide)
  · tauto

/-- A drain that is answered with success has got as far as its report, from what the supervisor
says of the slot. -/
theorem drain_view {base : List ChildCall} {s : LtSystem} (h : LtOk base s) {noise : Noise}
    {gate' : Peer Supervisor} {m : Message} (hm : runtimeMessage m LtLabel.drain 1 = true)
    (hok : (ltResponse (brProtected (supervisorCall noise) gate' 2
      (s.broker, s.supervisor) m).1).status = LcStatus.ok) :
    m.mr 0 < slotCount ∧ (ltResponse (brDrain gate' s.broker s.supervisor m.mr (m.mr 0)
      (s.supervisor.life.at (m.mr 0))).1).status = LcStatus.ok := by
  have hfail : ∀ mr, (ltResponse (ltReply mr runtimeFailure 0)).status ≠ LcStatus.ok := by
    intro mr
    rw [ltResponse_failure]
    decide
  by_cases h0 : (!s.broker.ready) = true ∨ s.broker.failed = true ∨ 2 > 2
  · unfold brProtected at hok
    dsimp only at hok
    rw [if_pos h0] at hok
    exact absurd hok (hfail _)
  rw [brProtected_drain _ _ (by simpa using h0) _ hm] at hok
  by_cases h1 : m.mr 0 ≥ slotCount ∨ s.broker.inc (slotIx (m.mr 0)) = 0
  · rw [if_pos h1, ltResponse_reply _ (by decide) (fun _ => rfl)] at hok
    exact absurd hok (by decide)
  rw [if_neg h1] at hok
  simp only [not_or, ge_iff_le, UInt64.not_le] at h1
  by_cases hf : s.supervisor.failed = true
  · rw [brView_failed hf] at hok
    exact absurd hok (hfail _)
  have ha := (h.agrees (by simpa using hf)).slots (slotIx (m.mr 0))
  rw [brView_eq h.supervisor.ready (by simpa using hf) h.supervisor.lcOk h1.1
    (ha.known.resolve_left h1.2)] at hok
  exact ⟨h1.1, hok⟩

/-- The slots other than `slot`, and the children, are the same. -/
structure OthersKept (slot : UInt64) (s s' : Supervisor) : Prop where
  slots : ∀ j, j ≠ slotIx slot → s'.life.slots j = s.life.slots j
  children : s'.children = s.children

theorem OthersKept.refl (slot : UInt64) (s : Supervisor) : OthersKept slot s s :=
  ⟨fun _ _ => rfl, rfl⟩

theorem othersKept_svApply (s : Supervisor) (actor : LcActor) (op slot inc seq : UInt64) (b : Bool) :
    OthersKept slot s (svApply s actor op slot inc seq b).2 := by
  refine ⟨fun j hj => ?_, rfl⟩
  by_cases hok : (lcApply s.life actor ⟨op, slot, inc, seq⟩ b).1.status = LcStatus.ok
  · exact ((lcStep_of_ok hok).2.moves j).2 hj
  · exact congrArg (fun l => l.slots j) (lcApply_of_ne hok).2

/-- What a worker's channel makes the broker ask is about the channel's slot. -/
theorem othersKept_call (noise : Noise) (s : Supervisor) (mr : Registers) (op slot inc seq : UInt64) :
    OthersKept slot s (supervisorCall noise s ⟨LtLabel.ready, 1, mr.set 0 slot⟩).2 ∧
      OthersKept slot s (supervisorCall noise s ⟨LtLabel.event, 4,
        (((mr.set 0 op).set 1 slot).set 2 inc).set 3 seq⟩).2 := by
  have key : ∀ m : Message, (m.label = LtLabel.ready → m.mr 0 = slot) →
      (m.label = LtLabel.event → m.mr 1 = slot) → OthersKept slot s (svProtected 1 s m).2 := by
    intro m h0 h1
    rcases svProtected_moves s m with h | ⟨inc, hl, h⟩ | ⟨hl, h⟩
    · rw [h]
      exact .refl slot s
    · rw [h, h0 hl]
      exact othersKept_svApply _ _ _ _ _ _ _
    · rw [h, h1 hl]
      exact othersKept_svApply _ _ _ _ _ _ _
  refine ⟨key _ (fun _ => ?_) (fun h => ?_), key _ (fun h => ?_) (fun _ => ?_)⟩
  · simp [Message.deliver, Registers.set_apply]
  · simp at h
  · simp at h
  · simp [Message.deliver, Registers.set_apply]

theorem brWorker_others {σ : Type*} (gate : Peer σ) (b : Broker) (t : σ) (m : Message) (slot : UInt64)
    {j : Fin 2} (hj : j ≠ slotIx slot) :
    (brWorker gate b t m slot).2.1.inc j = b.inc j ∧
      (brWorker gate b t m slot).2.1.pending j = b.pending j := by
  unfold brWorker
  dsimp only
  generalize (if runtimeMessage m LtLabel.complete 2 = true then m.mr 1 else 0) = sequence
  split_ifs
  · unfold brHello
    dsimp only
    split_ifs <;> simp [Function.update_of_ne hj]
  · exact ⟨rfl, rfl⟩
  · exact ⟨rfl, rfl⟩
  · unfold brTicket brCall
    dsimp only
    split_ifs <;> simp [Function.update_of_ne hj]

/-- **A worker's message** touches nothing of the other slot, in either server. -/
theorem worker_others (s : LtSystem) (ch : Fin 2) (noise noise' : Noise) (m : Message) :
    let s' := (ltCall s (.worker ch noise noise' m)).1
    s'.supervisor.children = s.supervisor.children ∧
      ∀ j, j ≠ ch → s'.supervisor.life.slots j = s.supervisor.life.slots j ∧
        s'.broker.inc j = s.broker.inc j ∧ s'.broker.pending j = s.broker.pending j := by
  have hch : ch.val ≠ 2 := by omega
  have hix : slotIx ch.val.toUInt64 = ch := slotIx_toUInt64 ch
  have hs : OthersKept ch.val.toUInt64 s.supervisor
      (brWorker (supervisorCall noise) s.broker s.supervisor m ch.val.toUInt64).2.2 := by
    rcases brWorker_call (supervisorCall noise) s.broker s.supervisor m ch.val.toUInt64 with
      h | h | ⟨op, inc, sequence, h⟩ <;> rw [h]
    · exact .refl _ _
    · exact (othersKept_call noise s.supervisor m.mr 0 _ 0 0).1
    · exact (othersKept_call noise s.supervisor m.mr op _ inc sequence).2
  dsimp only [ltCall, LtSystem.brokerCall, brProtected]
  by_cases h0 : (!s.broker.ready) = true ∨ s.broker.failed = true ∨ ch.val > 2
  · rw [if_pos h0]
    exact ⟨rfl, fun _ _ => ⟨rfl, rfl, rfl⟩⟩
  · rw [if_neg h0, if_neg hch]
    refine ⟨hs.children, fun j hj => ?_⟩
    rw [← hix] at hj
    exact ⟨hs.slots j hj, brWorker_others _ _ _ _ _ hj⟩

end Tcs
