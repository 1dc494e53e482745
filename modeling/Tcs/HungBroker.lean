/-
# A broker that never answers

`tests/containment/broker.c`, and its runs with `tests/containment/supervisor.c`.
The broker gets a worker's incarnation and its one ticket from the supervisor,
as the lifecycle broker does, but it has nothing that completes a ticket or
drains a slot: on `CT_HANG` it spins for ever, with the ticket out and its
caller waiting.

Its copies are those of the supervisor in every run, and it fails only behind
a supervisor that did (`CtSystem.Sound`). Once it spins, no call of it is
served any more, and nothing the supervisor does needs one: a reduction that
comes in by notification alone stops the worker (`hung_broker_contained`).

Key definitions: `CtBroker`, `ctProtected`, `ctCall`, `CtSystem.Sound`.
Key theorems: `Mirrored.move`, `containmentCall_begin`, `CtSystem.Sound.call`,
`hung_broker_contained`.
-/
import Tcs.Broker
import Tcs.Contained

namespace Tcs

open Ipc Kernel

/-! ### The data model -/

/-! The labels of `tests/containment/runtime.h` that the broker's callers know. -/

namespace CtLabel

@[simp] abbrev hello : UInt64 := 0x820
@[simp] abbrev work : UInt64 := 0x821
@[simp] abbrev kick : UInt64 := 0x822
@[simp] abbrev hang : UInt64 := 0x823

end CtLabel

/-- `ct_response`. -/
def ctResponse (m : Message) : LcResult := runtimeResponse CtLabel.result m

/-- The static variables of the broker, how often it has notified worker 0, and whether it has
entered `ct_spin`. -/
structure CtBroker where
  ready : Bool
  failed : Bool
  inc : Fin 2 → UInt64
  pending : Fin 2 → UInt64
  kicks : ℕ
  spinning : Bool

/-- The broker as it is loaded. -/
def CtBroker.zero : CtBroker := ⟨false, false, fun _ => 0, fun _ => 0, 0, false⟩

/-- `init`. -/
def ctInit (b : CtBroker) : CtBroker := { b with failed := b.failed || b.ready, ready := true }

/-! ### The handler

`gate` is the supervisor as the call of the handler reaches it. A handler
that does not return has no answer. -/

section

variable {σ : Type*} (gate : Peer σ)

/-- A broker that fails, and its answer. -/
def ctFail (b : CtBroker) (t : σ) (mr : Registers) : Option Message × CtBroker × σ :=
  (some (ctReply mr runtimeFailure 0), { b with failed := true }, t)

/-- `CT_KICK` or `CT_HANG`. -/
def ctKickHang (b : CtBroker) (t : σ) (m : Message) : Option Message × CtBroker × σ :=
  let out := gate t ⟨CtLabel.view, 1, m.mr.set 0 0⟩
  if !runtimeMessage out.1 CtLabel.slot 6 then ctFail b out.2 out.1.mr
  else
    let words := viewWords out.1
    let refused := (some (ctReply out.1.mr LcStatus.badState 0), b, out.2)
    if words.state ≠ LcState.active ∨ words.incarnation = 0 ∨ words.incarnation ≠ b.inc (slotIx 0) ∨
        words.stopped ≠ 0 ∨ words.drained ≠ 0 then refused
    else if m.label = CtLabel.kick then
      if words.issued ≠ 0 ∨ words.pending ≠ 0 ∨ b.pending (slotIx 0) ≠ 0 then refused
      else
        (some (ctReply out.1.mr LcStatus.ok words.incarnation), { b with kicks := b.kicks + 1 }, out.2)
    else if words.issued ≠ 1 ∨ words.pending ≠ 1 ∨ b.pending (slotIx 0) ≠ 1 then refused
    else (none, { b with spinning := true }, out.2)

/-- `CT_HELLO` of the worker on channel `slot`. -/
def ctHello (b : CtBroker) (t : σ) (mr : Registers) (slot : UInt64) :
    Option Message × CtBroker × σ :=
  let out := gate t ⟨CtLabel.ready, 1, mr.set 0 slot⟩
  let r := ctResponse out.1
  if r.status = runtimeFailure ∨ (r.status = LcStatus.ok ∧ r.value = 0) then ctFail b out.2 out.1.mr
  else
    (some (ctReply out.1.mr r.status r.value),
      if r.status = LcStatus.ok then { b with inc := Function.update b.inc (slotIx slot) r.value }
      else b, out.2)

/-- `CT_WORK` of the worker on channel `slot`. -/
def ctWork (b : CtBroker) (t : σ) (mr : Registers) (slot : UInt64) : Option Message × CtBroker × σ :=
  let inc := mr 0
  if inc = 0 ∨ inc ≠ b.inc (slotIx slot) ∨ b.pending (slotIx slot) ≠ 0 then
    (some (ctReply mr LcStatus.stale 0), b, t)
  else
    let out := gate t ⟨CtLabel.begin, 2, (mr.set 0 slot).set 1 inc⟩
    let r := ctResponse out.1
    if r.status = runtimeFailure ∨ (r.status = LcStatus.ok ∧ r.value ≠ 1) then ctFail b out.2 out.1.mr
    else
      (some (ctReply out.1.mr r.status r.value),
        if r.status = LcStatus.ok then
          { b with pending := Function.update b.pending (slotIx slot) r.value }
        else b, out.2)

/-- `protected`. -/
def ctProtected (ch : ℕ) (b : CtBroker) (t : σ) (m : Message) : Option Message × CtBroker × σ :=
  if !b.ready ∨ b.failed ∨ ch > 2 then (some (ctReply m.mr runtimeFailure 0), b, t)
  else if ch = 2 ∧ m.count = 0 ∧ (m.label = CtLabel.kick ∨ m.label = CtLabel.hang) then
    ctKickHang gate b t m
  else if ch < 2 ∧ m.label = CtLabel.hello ∧ m.count = 0 ∧ b.inc (slotNth ch) = 0 then
    ctHello gate b t m.mr ch.toUInt64
  else if ch < 2 ∧ m.label = CtLabel.work ∧ m.count = 1 then ctWork gate b t m.mr ch.toUInt64
  else (some (ctReply m.mr LcStatus.denied 0), b, t)

end

/-! ### The broker and the supervisor -/

/-- The supervisor as a call of the broker reaches it, when the mailbox holds `word`. -/
def containmentCall (noise : Noise) (word : UInt64) : Peer ReductionSupervisor :=
  ppcall noise (spProtected word 1)

/-- What happens to the two servers: a call of the observer to the supervisor, a notification of it,
the fault of a child, a message of a worker or of the caller to the broker. The supervisor finds
`word` in the mailbox. -/
inductive CtCall
  | control (m : Message) (word : UInt64)
  | notified (ch : ℕ) (word : UInt64)
  | fault (child : ℕ) (m : Message)
  | broker (ch : ℕ) (noise : Noise) (m : Message) (word : UInt64)

/-- The two servers. -/
structure CtSystem where
  broker : CtBroker
  supervisor : ReductionSupervisor

/-- The two servers after their `init`. -/
def CtSystem.init (receipt first : UInt64) (children : Children) : CtSystem :=
  ⟨ctInit CtBroker.zero, spInit first (ReductionSupervisor.loaded receipt children)⟩

/-- One of them. A broker that spins takes no message. -/
def ctCall (s : CtSystem) : CtCall → CtSystem × Option Message
  | .control m word =>
    (⟨s.broker, (spCall s.supervisor (.call 0 m word)).1⟩, (spCall s.supervisor (.call 0 m word)).2)
  | .notified ch word => (⟨s.broker, (spCall s.supervisor (.notified ch word)).1⟩, none)
  | .fault child m => (⟨s.broker, (spCall s.supervisor (.fault child m)).1⟩, none)
  | .broker ch noise m word =>
    if s.broker.spinning then (s, none)
    else
      let out := ctProtected (containmentCall noise word) ch s.broker s.supervisor m
      (⟨out.2.1, out.2.2⟩, out.1)

/-! ### What the supervisor answers -/

/-- The answers of the two experiments differ in their label alone. -/
theorem ctResponse_deliver (mr noise : Registers) (status value : UInt64) :
    ctResponse ((ctReply mr status value).deliver noise) = ltResponse (ltReply mr status value) := by
  rw [← ltResponse_deliver (ltReply mr status value) noise]
  simp [ctResponse, ltResponse, runtimeResponse, runtimeMessage, ctReply, ltReply, runtimeReply,
    Message.deliver]

section

variable {s : ReductionSupervisor} (noise : Noise) (word : UInt64) {slot : UInt64}

/-- The supervisor after the poll of a call. -/
def ReductionSupervisor.synced (s : ReductionSupervisor) (word : UInt64) : ReductionSupervisor :=
  (spSync false word s).2

theorem containmentCall_failed (hf : s.failed = true) (m : Message) :
    let out := containmentCall noise word s m
    ctResponse out.1 = ⟨runtimeFailure, 0⟩ ∧ runtimeMessage out.1 CtLabel.slot 6 = false ∧
      out.2 = s := by
  have hp : ∀ m, spProtected word 1 s m = (ctReply m.mr runtimeFailure 0, s) := by
    intro m
    unfold spProtected
    rw [spSync_failed hf]
    rfl
  dsimp only
  rw [containmentCall, ppcall_eq, hp]
  exact ⟨(ctResponse_deliver _ _ _ _).trans (ltResponse_failure _),
    by simp [runtimeMessage, ctReply, runtimeReply], rfl⟩

theorem spProtected_synced (h : SpOk s) (hf : s.failed = false) (ch : ℕ) (m : Message) :
    spProtected word ch s m = spServe ch m (if m.count > 0 then m.mr 0 else 0)
      (if m.count > 1 then m.mr 1 else 0) (s.synced word) := by
  obtain ⟨hok, -⟩ := spSync_spec h hf false word
  unfold spProtected
  dsimp only
  rw [if_neg (by rw [hok]; decide)]
  rfl

/-- The answer to an event behind the latch, as its caller reads it. -/
theorem ctResponse_apply {control : Reduction} (h : RdOk control) (actor : LcActor) (e : LcEvent)
    (mr noise : Registers) :
    let r := (rdApply control 0 actor e false).1
    ctResponse ((ctReply mr r.status r.value).deliver noise) = r := by
  have heq := rdApply_eq h 0 actor e false
  rw [h.observe_zero] at heq
  dsimp only
  rw [ctResponse_deliver, heq]
  by_cases hd : control.denies e
  · rw [if_pos hd]
    exact ltResponse_reply mr (show LcStatus.denied ≤ LcStatus.exhausted by decide) fun _ => rfl
  · rw [if_neg hd]
    exact ltResponse_apply control.life actor e false mr

/-- **An event behind the latch** is a step of its slot, or a refusal that changes nothing and is no
failure of the call. -/
theorem rdApply_cases {control : Reduction} (h : RdOk control) (actor : LcActor) {e : LcEvent}
    (hop : e.op ≠ LcOp.reserve) :
    (∃ v slot, SlotStep (control.life.at e.slot) actor e.op e.sequence false v slot ∧
      (control.life.at e.slot).incarnation ≠ 0 ∧ rdApply control 0 actor e false =
        (⟨LcStatus.ok, v⟩, { control with life := control.life.set e.slot slot })) ∨
    ∃ status v, status ≠ LcStatus.ok ∧ status ≠ runtimeFailure ∧
      rdApply control 0 actor e false = (⟨status, v⟩, control) := by
  by_cases hok : (rdApply control 0 actor e false).1.status = LcStatus.ok
  · obtain ⟨v, life', hs, -, heq⟩ := lcStep_of_rdApply h hok
    obtain ⟨slot, hslot, hn, rfl⟩ := hs.slotStep hop
    exact Or.inl ⟨v, slot, hslot, hn, heq⟩
  · refine Or.inr ⟨_, (rdApply control 0 actor e false).1.value, hok, ?_, Prod.ext rfl ?_⟩
    · have heq := rdApply_eq h 0 actor e false
      rw [h.observe_zero] at heq
      rw [heq]
      split_ifs
      · exact (by decide : LcStatus.denied ≠ runtimeFailure)
      · exact lcApply_ne_failure control.life actor e false
    · rw [rdApply_of_ne hok, rdPoll_eq h, h.observe_zero]

/-- **The view** of a slot is the slot after the poll. -/
theorem containmentCall_view (h : SpOk s) (hf : s.failed = false) (hi : slot < slotCount)
    (mr : Registers) :
    let out := containmentCall noise word s ⟨CtLabel.view, 1, mr.set 0 slot⟩
    runtimeMessage out.1 CtLabel.slot 6 = true ∧
      viewWords out.1 = (s.synced word).control.life.at slot ∧ out.2 = s.synced word := by
  let m : Message := (⟨CtLabel.view, 1, mr.set 0 slot⟩ : Message).deliver noise.callee
  have hslot : m.mr 0 = slot := by simp [m, Message.deliver, Registers.set_apply]
  have hp : spProtected word 1 s m =
      (⟨CtLabel.slot, 6, slotWords m.mr 0 ((s.synced word).control.life.at slot)⟩, s.synced word) := by
    rw [spProtected_synced word h hf, if_pos (show m.count > 0 from Nat.one_pos), hslot]
    unfold spServe
    rw [if_neg (by simp), if_neg (by simp), if_pos ⟨rfl, hi, Or.inr rfl, rfl⟩,
      if_pos (show m.label = CtLabel.view from rfl)]
  dsimp only
  rw [containmentCall, ppcall_eq, hp]
  obtain ⟨h0, h1, h2, h3, h4, h5⟩ := slotWords_deliver CtLabel.slot m.mr noise.caller
    ((s.synced word).control.life.at slot)
  refine ⟨by simp [runtimeMessage], ?_, rfl⟩
  rw [viewWords, h0, h1, h2, h3, h4, h5]

/-- **The start of a worker** reaches the lifecycle, behind the poll and the latch. -/
theorem containmentCall_ready (h : SpOk s) (hf : s.failed = false) (hi : slot < slotCount)
    (mr : Registers) :
    let out := containmentCall noise word s ⟨CtLabel.ready, 1, mr.set 0 slot⟩
    let t := s.synced word
    let r := rdApply t.control 0 .supervisor
      ⟨LcOp.started, slot, (t.control.life.at slot).incarnation, 0⟩ false
    ctResponse out.1 = r.1 ∧ out.2 = { t with control := r.2 } := by
  let m : Message := (⟨CtLabel.ready, 1, mr.set 0 slot⟩ : Message).deliver noise.callee
  have hslot : m.mr 0 = slot := by simp [m, Message.deliver, Registers.set_apply]
  have hrd : RdOk (s.synced word).control := (spSync_spec h hf false word).2.1.rdOk
  have hp : spProtected word 1 s m = spApply (s.synced word) m.mr .supervisor
      ⟨LcOp.started, slot, ((s.synced word).control.life.at slot).incarnation, 0⟩ false := by
    rw [spProtected_synced word h hf, if_pos (show m.count > 0 from Nat.one_pos), hslot]
    unfold spServe
    rw [if_neg (by simp), if_neg (by simp), if_pos ⟨rfl, hi, Or.inl rfl, rfl⟩,
      if_neg (show ¬ m.label = CtLabel.view by rw [show m.label = CtLabel.ready from rfl]; decide)]
  dsimp only
  rw [containmentCall, ppcall_eq, hp]
  exact ⟨ctResponse_apply hrd _ _ _ _, rfl⟩

/-- **The begin of a worker's ticket** reaches the lifecycle, behind the poll and the latch. -/
theorem containmentCall_begin (h : SpOk s) (hf : s.failed = false) (hi : slot < slotCount)
    (mr : Registers) (inc : UInt64) :
    let out := containmentCall noise word s ⟨CtLabel.begin, 2, (mr.set 0 slot).set 1 inc⟩
    let t := s.synced word
    let r := rdApply t.control 0 .broker ⟨LcOp.begin, slot, inc, 0⟩ false
    ctResponse out.1 = r.1 ∧ out.2 = { t with control := r.2 } := by
  let m : Message := (⟨CtLabel.begin, 2, (mr.set 0 slot).set 1 inc⟩ : Message).deliver noise.callee
  have hslot : m.mr 0 = slot := by simp [m, Message.deliver, Registers.set_apply]
  have hinc : m.mr 1 = inc := by simp [m, Message.deliver, Registers.set_apply]
  have hrd : RdOk (s.synced word).control := (spSync_spec h hf false word).2.1.rdOk
  have hp : spProtected word 1 s m = spApply (s.synced word) m.mr .broker
      ⟨LcOp.begin, slot, inc, 0⟩ false := by
    rw [spProtected_synced word h hf, if_pos (show m.count > 0 from Nat.two_pos),
      if_pos (show m.count > 1 from Nat.one_lt_two), hslot, hinc]
    unfold spServe
    rw [if_neg (by simp), if_neg (by simp), if_neg (by simp [m]), if_pos ⟨rfl, rfl, rfl, hi⟩]
  dsimp only
  rw [containmentCall, ppcall_eq, hp]
  exact ⟨ctResponse_apply hrd _ _ _ _, rfl⟩

end

/-! ### The two copies -/

/-- The broker's copies of a slot, which may be unused for ever. -/
structure Mirrored (inc pending : UInt64) (t : LcSlot) : Prop extends SlotCopied inc pending t where
  unused : t.state = LcState.unused → inc = 0

theorem Mirrored.contained {inc pending : UInt64} {t : LcSlot} (h : Mirrored inc pending t)
    (inhibited : UInt64) (i : Fin 2) : Mirrored inc pending (t.contained inhibited i) := by
  unfold LcSlot.contained
  split_ifs
  · exact ⟨⟨h.known, h.ticket, fun hc => absurd hc (by simp), fun hc => absurd hc (by simp)⟩,
      fun hc => absurd hc (by simp)⟩
  · exact h

section

variable {base : List ChildCall} {s s' : ReductionSupervisor} {inc pending : Fin 2 → UInt64}

theorem mirrored_set {life : Lifecycle} {slot : UInt64} {t : LcSlot} {inc' pending' : Fin 2 → UInt64}
    (h : ∀ i, Mirrored (inc i) (pending i) (life.slots i))
    (hsame : ∀ i ≠ slotIx slot, inc' i = inc i ∧ pending' i = pending i)
    (ht : Mirrored (inc' (slotIx slot)) (pending' (slotIx slot)) t) (i : Fin 2) :
    Mirrored (inc' i) (pending' i) ((life.set slot t).slots i) := by
  by_cases hi : i = slotIx slot
  · rw [hi, Lifecycle.set_slots_self]
    exact ht
  · rw [Lifecycle.set_slots_of_ne _ hi, (hsame i hi).1, (hsame i hi).2]
    exact h i

/-- **What the supervisor does for itself or for the observer** changes no ticket and no incarnation
that the broker knows. -/
theorem Mirrored.move {who : Option LcActor} (hone : OneGeneration base s)
    (h : ∀ i, Mirrored (inc i) (pending i) (s.control.life.slots i)) (hm : SpMove s who s')
    (hw : ∀ actor, who = some actor → actor = .admin) (i : Fin 2) :
    Mirrored (inc i) (pending i) (s'.control.life.slots i) := by
  cases hm with
  | fail => exact h i
  | fault child => exact h i
  | told stops => exact h i
  | poll word => exact (h i).contained _ i
  | stop j hc h0 =>
    by_cases hi : i = j
    · rw [hi, (stopped_slots s j).1, (hone.slots j).confirmedStop]
      exact ⟨⟨(h j).known, (h j).ticket, (h j).starting, (h j).hello⟩, (h j).unused⟩
    · rw [(stopped_slots s j).2 i hi]
      exact h i
  | @event actor e b v life' hs hop =>
    obtain rfl : actor = .admin := hw actor rfl
    obtain ⟨t, ht, -, rfl⟩ := hs.slotStep (by rcases hop with h | h | h <;> rw [h] <;> decide)
    have hold := h (slotIx e.slot)
    refine mirrored_set h (fun _ _ => ⟨rfl, rfl⟩) ?_ i
    generalize e.op = op, e.sequence = sequence at ht hop
    cases ht with
    | activate hst =>
      exact ⟨⟨hold.known, hold.ticket, fun hc => absurd hc (by simp), fun _ => hold.hello (Or.inl hst)⟩,
        fun hc => absurd hc (by simp)⟩
    | contain => exact absurd hop (by simp)
  | @reserve slot v life' hs =>
    obtain ⟨hunused, -⟩ := hs.reserve_slot rfl
    obtain ⟨-, rfl⟩ := hs.reserves rfl
    have hold := h (slotIx slot)
    have hzero : inc (slotIx slot) = 0 := hold.unused hunused
    refine mirrored_set h (fun _ _ => ⟨rfl, rfl⟩) ?_ i
    exact ⟨⟨Or.inl hzero, hold.ticket, fun _ => hzero, fun hc => absurd hc (by simp)⟩,
      fun hc => absurd hc (by simp)⟩

theorem Mirrored.moves (hone : OneGeneration base s)
    (h : ∀ i, Mirrored (inc i) (pending i) (s.control.life.slots i))
    (hm : SpMoves (fun actor => actor = .admin) s s') (i : Fin 2) :
    Mirrored (inc i) (pending i) (s'.control.life.slots i) :=
  (hm.keeps (P := fun s => OneGeneration base s ∧
      ∀ i, Mirrored (inc i) (pending i) (s.control.life.slots i))
    (fun _ _ _ hmove hw hs => ⟨hs.1.move hmove, Mirrored.move hs.1 hs.2 hmove hw⟩) ⟨hone, h⟩).2 i

end

/-! ### The broker's handlers -/

/-- The broker in service, with its copies. -/
structure CtCopied (b : CtBroker) (t : ReductionSupervisor) : Prop where
  ready : b.ready = true
  failed : b.failed = true → t.failed = true
  mirrored : ∀ i, Mirrored (b.inc i) (b.pending i) (t.control.life.slots i)
  ticket : b.spinning = true → b.pending (slotIx 0) = 1

section

variable {base : List ChildCall} {b : CtBroker} {t : ReductionSupervisor} {noise : Noise}
  {word slot : UInt64}

/-- The poll of a call changes no copy. -/
theorem CtCopied.synced (h : CtCopied b t) (hs : Supervised base t) (hf : t.failed = false) :
    CtCopied b (t.synced word) where
  ready := h.ready
  failed hb := absurd (h.failed hb) (by simp [hf])
  mirrored := Mirrored.moves hs.one h.mirrored (spSync_moves _ hs.spOk false word)
  ticket := h.ticket

theorem CtCopied.fail (h : CtCopied b t) (hf : t.failed = true) :
    CtCopied { b with failed := true } t :=
  ⟨h.ready, fun _ => hf, h.mirrored, h.ticket⟩

theorem CtCopied.kickHang (h : CtCopied b t) (hs : Supervised base t) (m : Message) :
    let out := ctKickHang (containmentCall noise word) b t m
    CtCopied out.2.1 out.2.2 := by
  unfold ctKickHang
  dsimp only
  by_cases hf : t.failed = true
  · obtain ⟨-, hm, ht⟩ := containmentCall_failed noise word hf
      ⟨CtLabel.view, 1, m.mr.set 0 0⟩
    rw [hm, ht, if_pos (show (!false) = true from rfl)]
    exact h.fail hf
  · have hf : t.failed = false := by simpa using hf
    obtain ⟨hm, hv, ht⟩ := containmentCall_view noise word hs.spOk hf
      (show 0 < slotCount by decide) m.mr
    have hsame : CtCopied b (t.synced word) := h.synced hs hf
    rw [hm, ht, if_neg (show ¬ (!true) = true by decide), hv]
    split_ifs with h1 h2 h3 h4
    · exact hsame
    · exact hsame
    · exact ⟨hsame.ready, hsame.failed, hsame.mirrored, hsame.ticket⟩
    · exact hsame
    · -- the ticket of the worker is out
      refine ⟨hsame.ready, hsame.failed, hsame.mirrored, fun _ => ?_⟩
      simp only [not_or, not_not] at h4
      exact h4.2.2

theorem CtCopied.learn {b' : CtBroker} {inc pending : UInt64} {t' : LcSlot} (h : CtCopied b t)
    (hb : b'.ready = b.ready ∧ b'.failed = b.failed ∧ b'.spinning = b.spinning)
    (hinc : b'.inc = Function.update b.inc (slotIx slot) inc)
    (hpending : b'.pending = Function.update b.pending (slotIx slot) pending)
    (hticket : b.spinning = true → b'.pending (slotIx 0) = 1) (ht : Mirrored inc pending t') :
    CtCopied b' { t with control := { t.control with life := t.control.life.set slot t' } } where
  ready := hb.1.trans h.ready
  failed hf := h.failed (hb.2.1.symm.trans hf)
  mirrored := by
    refine mirrored_set h.mirrored (fun i hne => ?_) ?_
    · rw [hinc, hpending, Function.update_of_ne hne, Function.update_of_ne hne]
      exact ⟨rfl, rfl⟩
    · rw [hinc, hpending, Function.update_self, Function.update_self]
      exact ht
  ticket hs := hticket (hb.2.2.symm.trans hs)

theorem CtCopied.hello (h : CtCopied b t) (hs : Supervised base t) (hi : slot < slotCount)
    (mr : Registers) :
    let out := ctHello (containmentCall noise word) b t mr slot
    CtCopied out.2.1 out.2.2 := by
  unfold ctHello
  dsimp only
  by_cases hf : t.failed = true
  · obtain ⟨hr, -, ht⟩ := containmentCall_failed noise word hf
      ⟨CtLabel.ready, 1, mr.set 0 slot⟩
    rw [hr, ht, if_pos (Or.inl rfl)]
    exact h.fail hf
  have hf : t.failed = false := by simpa using hf
  obtain ⟨hr, ht⟩ := containmentCall_ready noise word hs.spOk hf hi mr
  have hsame : CtCopied b (t.synced word) := h.synced hs hf
  have hold := hsame.mirrored (slotIx slot)
  have hrd : RdOk (t.synced word).control := (spSync_spec hs.spOk hf false word).2.1.rdOk
  rw [hr, ht]
  rcases rdApply_cases hrd .supervisor (e := ⟨LcOp.started, slot,
      ((t.synced word).control.life.at slot).incarnation, 0⟩)
      (show LcOp.started ≠ LcOp.reserve by decide)
    with ⟨v, t', hstep, hn, heq⟩ | ⟨status, v, hne, hfail, heq⟩
  · rw [heq]
    dsimp only at hstep ⊢
    cases hstep with
    | started _ hst =>
      rw [if_neg (by simpa using hn), if_pos rfl]
      refine hsame.learn ⟨rfl, rfl, rfl⟩ rfl (Function.update_eq_self _ _).symm hsame.ticket ?_
      exact ⟨⟨Or.inr rfl, hold.ticket, fun hc => absurd hc (by simp), fun _ => hn⟩,
        fun hc => absurd hc (by simp)⟩
  · rw [heq]
    dsimp only
    rw [if_neg (by simp [hne, hfail]), if_neg hne]
    exact hsame

/-- A ticket that begins is the worker's first, on both sides. -/
theorem CtCopied.work (h : CtCopied b t) (hs : Supervised base t) (hi : slot < slotCount)
    (hspin : b.spinning = false) (mr : Registers) :
    let out := ctWork (containmentCall noise word) b t mr slot
    CtCopied out.2.1 out.2.2 := by
  unfold ctWork
  dsimp only
  by_cases hstale : mr 0 = 0 ∨ mr 0 ≠ b.inc (slotIx slot) ∨ b.pending (slotIx slot) ≠ 0
  · rw [if_pos hstale]
    exact h
  rw [if_neg hstale]
  by_cases hf : t.failed = true
  · obtain ⟨hr, -, ht⟩ := containmentCall_failed noise word hf
      ⟨CtLabel.begin, 2, (mr.set 0 slot).set 1 (mr 0)⟩
    rw [hr, ht, if_pos (Or.inl rfl)]
    exact h.fail hf
  have hf : t.failed = false := by simpa using hf
  obtain ⟨hr, ht⟩ := containmentCall_begin noise word hs.spOk hf hi mr (mr 0)
  have hsame : CtCopied b (t.synced word) := h.synced hs hf
  have hold := hsame.mirrored (slotIx slot)
  have hrd : RdOk (t.synced word).control := (spSync_spec hs.spOk hf false word).2.1.rdOk
  have hone : OneGeneration base (t.synced word) :=
    hs.one.moves (spSync_moves (fun _ => True) hs.spOk false word)
  rw [hr, ht]
  rcases rdApply_cases hrd .broker (e := ⟨LcOp.begin, slot, mr 0, 0⟩)
      (show LcOp.begin ≠ LcOp.reserve by decide)
    with ⟨v, t', hstep, hn, heq⟩ | ⟨status, v, hne, hfail, heq⟩
  · rw [heq]
    dsimp only at hstep ⊢
    cases hstep with
    | begin _ hst hp hm =>
      have hissued : ((t.synced word).control.life.at slot).issued + 1 = 1 := by
        have hticket := (hone.slots (slotIx slot)).ticket.trans hp
        change ((t.synced word).control.life.slots (slotIx slot)).issued + 1 = 1
        rw [hticket]
        rfl
      rw [if_neg (by simp [hissued]), if_pos rfl]
      refine hsame.learn ⟨rfl, rfl, rfl⟩ (Function.update_eq_self _ _).symm rfl
        (fun hc => absurd (hspin.symm.trans hc) (by simp)) ?_
      exact ⟨⟨hold.known, rfl, hold.starting, hold.hello⟩, hold.unused⟩
  · rw [heq]
    dsimp only
    rw [if_neg (by simp [hne, hfail]), if_neg hne]
    exact hsame

theorem channel_word {ch : ℕ} (h : ch < 2) :
    ch.toUInt64 < slotCount ∧ slotIx ch.toUInt64 = slotNth ch := by
  interval_cases ch <;> exact ⟨by decide, rfl⟩

/-- **Every message of a worker or of the caller** keeps the copies. -/
theorem CtCopied.call (h : CtCopied b t) (hs : Supervised base t) (hspin : b.spinning = false) (ch : ℕ)
    (m : Message) :
    let out := ctProtected (containmentCall noise word) ch b t m
    CtCopied out.2.1 out.2.2 := by
  unfold ctProtected
  dsimp only
  split_ifs with h1 h2 h3 h4
  · exact h
  · exact h.kickHang hs m
  · exact h.hello hs (channel_word h3.1).1 m.mr
  · exact h.work hs (channel_word h4.1).1 hspin m.mr
  · exact h

end

/-- What a handler of the broker makes of the supervisor: at most one call of it. -/
theorem ctProtected_supervisor {σ : Type*} (gate : Peer σ) (ch : ℕ) (b : CtBroker) (t : σ)
    (m : Message) : (ctProtected gate ch b t m).2.2 = t ∨ ∃ m', (ctProtected gate ch b t m).2.2 = (gate t m').2 := by
  have hkick : ∃ m', (ctKickHang gate b t m).2.2 = (gate t m').2 := by
    refine ⟨⟨CtLabel.view, 1, m.mr.set 0 0⟩, ?_⟩
    unfold ctKickHang
    dsimp only
    split_ifs <;> rfl
  have hhello : ∀ slot, ∃ m', (ctHello gate b t m.mr slot).2.2 = (gate t m').2 := by
    intro slot
    refine ⟨⟨CtLabel.ready, 1, m.mr.set 0 slot⟩, ?_⟩
    unfold ctHello
    dsimp only
    split_ifs <;> rfl
  have hwork : ∀ slot, (ctWork gate b t m.mr slot).2.2 = t ∨
      ∃ m', (ctWork gate b t m.mr slot).2.2 = (gate t m').2 := by
    intro slot
    unfold ctWork
    dsimp only
    split_ifs
    · exact Or.inl rfl
    all_goals exact Or.inr ⟨_, rfl⟩
  unfold ctProtected
  split_ifs
  · exact Or.inl rfl
  · exact Or.inr hkick
  · exact Or.inr (hhello _)
  · exact hwork _
  · exact Or.inl rfl

/-! ### Runs of the two servers -/

/-- What holds of the two servers between two callbacks. -/
structure CtSystem.Sound (base : List ChildCall) (s : CtSystem) : Prop where
  supervised : Supervised base s.supervisor
  copied : CtCopied s.broker s.supervisor

theorem ctCall_supervisor (s : CtSystem) (x : CtCall) :
    (ctCall s x).1.supervisor = s.supervisor ∨
      ∃ y, (ctCall s x).1.supervisor = (spCall s.supervisor y).1 := by
  cases x with
  | control m word => exact Or.inr ⟨.call 0 m word, rfl⟩
  | notified ch word => exact Or.inr ⟨.notified ch word, rfl⟩
  | fault child m => exact Or.inr ⟨.fault child m, rfl⟩
  | broker ch noise m word =>
    by_cases hspin : s.broker.spinning = true
    · left
      rw [ctCall, if_pos hspin]
    · have hsup : (ctCall s (.broker ch noise m word)).1.supervisor =
          (ctProtected (containmentCall noise word) ch s.broker s.supervisor m).2.2 := by
        rw [ctCall, if_neg hspin]
      rw [hsup]
      rcases ctProtected_supervisor (containmentCall noise word) ch s.broker s.supervisor m with
        h | ⟨m', h⟩
      · exact Or.inl h
      · exact Or.inr ⟨.call 1 (m'.deliver noise.callee) word, h⟩

theorem CtSystem.Sound.call {base : List ChildCall} {s : CtSystem} (h : s.Sound base) (x : CtCall) :
    (ctCall s x).1.Sound base := by
  have hsupervised : Supervised base (ctCall s x).1.supervisor := by
    rcases ctCall_supervisor s x with he | ⟨y, he⟩
    · rw [he]
      exact h.supervised
    · rw [he]
      exact h.supervised.call y
  -- what is no call of the broker keeps its copies
  have hown : ∀ y : SpCall, y.Own → CtCopied s.broker (spCall s.supervisor y).1 := by
    intro y hy
    have hm := spCall_moves h.supervised.spOk y
    exact ⟨h.copied.ready, fun hf => hm.failed (h.copied.failed hf),
      Mirrored.moves h.supervised.one h.copied.mirrored (hm.weaken fun _ hw => hw hy), h.copied.ticket⟩
  refine ⟨hsupervised, ?_⟩
  cases x with
  | control m word => exact hown (.call 0 m word) Nat.zero_ne_one
  | notified ch word => exact hown (.notified ch word) trivial
  | fault child m => exact hown (.fault child m) trivial
  | broker ch noise m word =>
    by_cases hspin : s.broker.spinning = true
    · rw [ctCall, if_pos hspin]
      exact h.copied
    · rw [ctCall, if_neg hspin]
      exact h.copied.call h.supervised (by simpa using hspin) ch m

theorem CtSystem.Sound.run {base : List ChildCall} {s : CtSystem} (h : s.Sound base)
    (xs : List CtCall) : (Run.final ctCall s xs).Sound base :=
  Run.final_induct h (fun _ x hs => hs.call x) xs

/-! ### What a notification tells -/

/-- The loop over the stops writes nothing to the receipt page. -/
theorem spStop_receipt {stops : UInt64} {s s' : ReductionSupervisor} : ∀ {slots : List (Fin 2)},
    slots.foldlM (spStop stops) s = .ok s' → s'.receipt = s.receipt := by
  intro slots
  induction slots generalizing s with
  | nil =>
    intro h
    cases h
    rfl
  | cons i rest ih =>
    intro h
    rw [List.foldlM_cons] at h
    cases hstop : spStop stops s i with
    | error t => simp [hstop, bind, Except.bind] at h
    | ok t =>
      rw [hstop] at h
      rw [ih h]
      unfold spStop at hstop
      dsimp only at hstop
      split_ifs at hstop <;> cases hstop <;> rfl

/-- **A notification adds the stops it finds to the receipt page.** -/
theorem spSync_receipt {s : ReductionSupervisor} (h : SpOk s) (hf : s.failed = false) (word : UInt64) :
    (spSync true word s).2.receipt = s.receipt ||| rdStopMask (s.polled word).control := by
  obtain ⟨t, hfold, -, -⟩ := spStops_moves (fun _ => True) h word
  have hsame : t.receipt = (s.polled word).receipt := spStop_receipt hfold
  change t.receipt = s.receipt at hsame
  rw [spSync_eq h hf true word hfold]
  dsimp only
  split_ifs with hc
  · rw [← hsame]
  · have hzero : rdStopMask (s.polled word).control = 0 := by simpa using hc
    rw [hzero, UInt64.or_zero, hsame]

/-! ### Behind a broker that spins -/

section

variable {base : List ChildCall} {s : CtSystem}

theorem CtSystem.Sound.spinning (h : s.Sound base) (hspin : s.broker.spinning = true) :
    (s.supervisor.control.life.slots 0).pending = 1 ∧
      (s.supervisor.control.life.slots 0).issued = 1 ∧
      (s.supervisor.control.life.slots 0).occupied = true ∧
      ∃ later, s.supervisor.children.calls = base ++ later ∧ later.filterMap resumed = [1] := by
  have hslot := h.supervised.one.slots 0
  have hp : (s.supervisor.control.life.slots 0).pending = 1 :=
    (h.copied.mirrored 0).ticket.symm.trans (h.copied.ticket hspin)
  have hne : (s.supervisor.control.life.slots 0).state ≠ LcState.unused := by
    intro hu
    have hz := (h.supervised.spOk.rdOk.lcOk.slots 0).unused hu
    rw [hz] at hp
    exact absurd hp (by decide)
  refine ⟨hp, hslot.ticket.trans hp, hslot.kept.resolve_left hne, ?_⟩
  cases h.supervised.one.generation with
  | none hunused _ _ => exact absurd (hunused 0) hne
  | one i _ hother _ hcalls =>
    obtain rfl : i = 0 := by_contra fun hi => hne (hother 0 (Ne.symm hi))
    exact hcalls

theorem CtSystem.Sound.inhibited (h : s.Sound base) (hspin : s.broker.spinning = true)
    (hi : Word.hasBit s.supervisor.control.inhibited (0 : Fin 2) = true) :
    (s.supervisor.control.life.slots 0).state = LcState.closing ∧
      (s.supervisor.control.life.slots 0).stopped = 1 ∧
      s.supervisor.children.running 1 = false := by
  have hocc := (h.spinning hspin).2.2.1
  have hlive := h.supervised.spOk.rdOk.contained 0 hi
  refine h.supervised.stopped_closing (h.supervised.settled 0 ?_)
  have hne := (LcSlot.occupied_iff _).mp hocc
  have hle := (h.supervised.spOk.rdOk.lcOk.slots 0).state
  have hoff : ¬ (LcState.starting ≤ (s.supervisor.control.life.slots 0).state ∧
      (s.supervisor.control.life.slots 0).state ≤ LcState.active) := fun hc =>
    Bool.false_ne_true (hlive.symm.trans ((LcSlot.live_iff _).mpr hc))
  grind

/-- What later states keep: the broker that spins, and what the supervisor keeps. -/
theorem CtSystem.Sound.later (h : s.Sound base) (hspin : s.broker.spinning = true) (ys : List CtCall) :
    let s' := Run.final ctCall s ys
    s'.Sound base ∧ s'.broker = s.broker ∧ SpKept s.supervisor s'.supervisor := by
  refine Run.final_induct (P := fun t : CtSystem => t.Sound base ∧ t.broker = s.broker ∧
    SpKept s.supervisor t.supervisor) ⟨h, rfl, .refl _⟩ (fun t x ht => ?_) ys
  obtain ⟨hsound, hb, hkept⟩ := ht
  have hspin' : t.broker.spinning = true := hb ▸ hspin
  refine ⟨hsound.call x, ?_, ?_⟩
  · cases x with
    | control m word => exact hb
    | notified ch word => exact hb
    | fault child m => exact hb
    | broker ch noise m word =>
      rw [ctCall, if_pos hspin']
      exact hb
  · rcases ctCall_supervisor t x with he | ⟨y, he⟩
    · rw [he]
      exact hkept
    · rw [he]
      exact hkept.trans (served_call hsound.supervised.spOk hsound.supervised.settled y).kept

/-- **A reduction that comes in by notification** reaches the worker. -/
theorem CtSystem.Sound.notified (h : s.Sound base) (hspin : s.broker.spinning = true)
    (hf : s.supervisor.failed = false) {word : UInt64}
    (hw : Word.hasBit word (0 : Fin 2) = true ∨ malformed word = true) :
    let t := (ctCall s (.notified 0 word)).1
    t.supervisor.failed = false ∧
      Word.hasBit t.supervisor.control.inhibited (0 : Fin 2) = true ∧
      ((s.supervisor.control.life.slots 0).state ≠ LcState.closing →
        Word.hasBit t.supervisor.receipt (0 : Fin 2) = true) := by
  have hok := h.supervised.spOk
  have hsup : (ctCall s (.notified 0 word)).1.supervisor = (spSync true word s.supervisor).2 := rfl
  obtain ⟨-, hok', -, -, hf', hw'⟩ := spSync_spec hok hf true word
  dsimp only
  rw [hsup]
  refine ⟨hf', hok'.sampled word (by rw [hw']; simp) 0 hw, fun hstate => ?_⟩
  -- in use and not closing, so the poll is what closes it
  have hocc := (LcSlot.occupied_iff _).mp (h.spinning hspin).2.2.1
  have hlive : (s.supervisor.control.life.slots 0).live = true := by
    have hle := (hok.rdOk.lcOk.slots 0).state
    rw [LcSlot.live_iff]
    grind
  have hbit : Word.hasBit (s.supervisor.polled word).control.inhibited (0 : Fin 2) = true :=
    (hok.poll word).sampled word (by simp [ReductionSupervisor.polled]) 0 hw
  have hslot : (s.supervisor.polled word).control.life.slots 0 =
      { s.supervisor.control.life.slots 0 with state := LcState.closing } := by
    change (s.supervisor.control.life.slots 0).contained
      (s.supervisor.polled word).control.inhibited 0 = _
    rw [LcSlot.contained, if_pos ⟨hbit, hlive⟩]
  have h0 : (s.supervisor.control.life.slots 0).stopped = 0 :=
    ((hok.rdOk.lcOk.slots 0).live (by
      have := (LcSlot.live_iff _).mp hlive
      grind)).1
  have hstops := (hok.poll word).rdOk.hasBit_rdStopMask (i := 0) (by rw [hslot])
    (by rw [hslot]; exact h0)
  rw [spSync_receipt hok hf, Word.hasBit_or _ _ (by decide), hstops, Bool.or_true]

end

end Tcs
