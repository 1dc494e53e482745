/-
# The broker's handlers among the supervisor's other calls

A handler of the broker waits in its calls of the supervisor, and the
supervisor serves others meanwhile: a child may fault at any time, and while
the broker handles a worker's message the controller may call the supervisor.
The controller's own call of the broker keeps the controller waiting, so
only faults come in the middle of that one. What comes after the last nested
call does not meet the handler any more and counts as coming after it.

What comes before the first nested call might as well come before the
handler (`brProtected_interrupted`). Between the two calls of a drain the
slot is closing; no fault is the expected one then, so the supervisor fails,
and the drain with it (`moved_closing`, `brDrain_cut`). The copies of
`Broker.lean` are therefore right at the end of every handler.

Key definitions: `LtMove`, `interrupted`, `LtTurn`, `ltTurn`.
Key theorems: `final_turns`, `brProtected_interrupted`, `moved_closing`,
`brDrain_cut`, `LtOk.ltTurn`, `broker_gate_agree`.
-/
import Tcs.Broker

namespace Tcs

open Ipc Kernel

/-! ### The system -/

/-- The fault of a child, with the kernel's message about it. -/
structure ChildFault where
  child : ℕ
  info : Message

/-- What the supervisor serves while a handler of the broker waits. -/
inductive LtMove
  | supervisor (m : Message)
  | fault (f : ChildFault)

/-- The callback of the supervisor that serves it. -/
def LtMove.call : LtMove → SvCall
  | .supervisor m => .call 0 m
  | .fault f => .fault f.child f.info

/-- The supervisor after some of them. -/
def moved (moves : List LtMove) (s : Supervisor) : Supervisor :=
  Run.final svCall s (moves.map LtMove.call)

/-- A call of the supervisor that comes after some of them. -/
def interrupted (moves : List LtMove) (gate : Peer Supervisor) : Peer Supervisor :=
  fun s m => gate (moved moves s) m

/-- What happens to the two servers. A call of the controller comes with the faults before each of
the broker's nested calls, a worker's message with all that comes before its one nested call. What
is listed before a call that the handler does not make does not happen. -/
inductive LtTurn
  | supervisor (m : Message)
  | broker (noise noise' : Noise) (faults faults' : List ChildFault) (m : Message)
  | worker (ch : Fin 2) (noise noise' : Noise) (moves : List LtMove) (m : Message)
  | fault (f : ChildFault)

/-- A handler of the broker, with what the supervisor serves before each of its two calls. -/
def LtSystem.brokerTurn (s : LtSystem) (ch : ℕ) (noise noise' : Noise) (moves moves' : List LtMove)
    (m : Message) : LtSystem × Option Message :=
  let out := brProtected (interrupted moves (supervisorCall noise))
    (interrupted moves' (supervisorCall noise')) ch (s.broker, s.supervisor) m
  (⟨out.2.1, out.2.2⟩, some out.1)

/-- One turn of the two servers. -/
def ltTurn (s : LtSystem) : LtTurn → LtSystem × Option Message
  | .supervisor m => ltCall s (.supervisor m)
  | .broker noise noise' faults faults' m =>
    s.brokerTurn 2 noise noise' (faults.map .fault) (faults'.map .fault) m
  | .worker ch noise noise' moves m => s.brokerTurn ch.val noise noise' moves [] m
  | .fault f => ltCall s (.fault f.child f.info)

/-- Turns in which nothing comes between are the calls of `Broker.lean`. -/
def LtCall.turn : LtCall → LtTurn
  | .supervisor m => .supervisor m
  | .broker noise noise' m => .broker noise noise' [] [] m
  | .worker ch noise noise' m => .worker ch noise noise' [] m
  | .fault child m => .fault ⟨child, m⟩

theorem ltTurn_turn (s : LtSystem) (x : LtCall) : ltTurn s x.turn = ltCall s x := by
  cases x <;> rfl

/-- Their runs are the runs of `Broker.lean`. -/
theorem final_turns (s : LtSystem) (xs : List LtCall) :
    Run.final ltTurn s (xs.map LtCall.turn) = Run.final ltCall s xs := by
  induction xs generalizing s with
  | nil => rfl
  | cons x xs ih =>
    rw [List.map_cons, Run.final, Run.final, ltTurn_turn]
    exact ih _

/-! ### Before the first nested call -/

section

variable {σ : Type*} (move : σ → σ) (b : Broker) (m : Message)

/-- A worker's message makes no call, or what comes before its call might as well come before it. -/
theorem brWorker_moved (slot : UInt64) :
    (∃ reply b', ∀ (gate : Peer σ) t, brWorker gate b t m slot = (reply, b', t)) ∨
      ∀ (gate : Peer σ) t,
        brWorker (fun t m => gate (move t) m) b t m slot = brWorker gate b (move t) m slot := by
  unfold brWorker
  dsimp only
  generalize (if runtimeMessage m LtLabel.complete 2 = true then m.mr 1 else 0) = sequence
  split_ifs
  · unfold brHello
    by_cases h : b.inc (slotIx slot) ≠ 0
    · simp only [if_pos h]
      exact Or.inl ⟨_, _, fun _ _ => rfl⟩
    · refine Or.inr fun gate t => ?_
      rw [if_neg h, if_neg h]
  · exact Or.inl ⟨_, _, fun _ _ => rfl⟩
  · exact Or.inl ⟨_, _, fun _ _ => rfl⟩
  · exact Or.inr fun _ _ => rfl

theorem brController_moved :
    (∃ reply b', ∀ (gate gate' : Peer σ) t, brController gate gate' b t m = (reply, b', t)) ∨
      ∀ (gate gate' : Peer σ) t, brController (fun t m => gate (move t) m) gate' b t m =
        brController gate gate' b (move t) m := by
  unfold brController
  dsimp only
  by_cases h1 : runtimeMessage m LtLabel.brokerStatus 0 = true
  · simp only [if_pos h1]
    exact Or.inl ⟨_, _, fun _ _ _ => rfl⟩
  by_cases h2 : runtimeMessage m LtLabel.kick 1 = true ∨ runtimeMessage m LtLabel.drain 1 = true
  · by_cases h3 : m.mr 0 ≥ slotCount ∨ b.inc (slotIx (m.mr 0)) = 0
    · simp only [if_neg h1, if_pos h2, if_pos h3]
      exact Or.inl ⟨_, _, fun _ _ _ => rfl⟩
    · simp only [if_neg h1, if_pos h2, if_neg h3]
      exact Or.inr fun _ _ _ => rfl
  · simp only [if_neg h1, if_neg h2]
    exact Or.inl ⟨_, _, fun _ _ _ => rfl⟩

theorem brProtected_moved (ch : ℕ) :
    (∃ reply b', ∀ (gate gate' : Peer σ) t, brProtected gate gate' ch (b, t) m = (reply, b', t)) ∨
      ∀ (gate gate' : Peer σ) t, brProtected (fun t m => gate (move t) m) gate' ch (b, t) m =
        brProtected gate gate' ch (b, move t) m := by
  unfold brProtected
  dsimp only
  split_ifs
  · exact Or.inl ⟨_, _, fun _ _ _ => rfl⟩
  · exact brController_moved move b m
  · refine (brWorker_moved move b m _).imp ?_ fun h gate _ t => h gate t
    rintro ⟨reply, b', h⟩
    exact ⟨reply, b', fun gate _ t => h gate t⟩

variable (gate gate' : Peer σ) (t : σ)

/-- **What comes before the first nested call** comes before the handler, or the handler makes no
call. -/
theorem brProtected_interrupted (ch : ℕ) :
    brProtected (fun t m => gate (move t) m) gate' ch (b, t) m =
        brProtected gate gate' ch (b, move t) m ∨
      brProtected (fun t m => gate (move t) m) gate' ch (b, t) m = brProtected gate gate' ch (b, t) m := by
  rcases brProtected_moved move b m ch with ⟨reply, b', h⟩ | h
  · exact Or.inr ((h _ _ t).trans (h _ _ t).symm)
  · exact Or.inl (h gate gate' t)

/-- The reply is in either case the one from the state after what came. -/
theorem brProtected_reply (ch : ℕ) :
    (brProtected (fun t m => gate (move t) m) gate' ch (b, t) m).1 =
      (brProtected gate gate' ch (b, move t) m).1 := by
  rcases brProtected_moved move b m ch with ⟨reply, b', h⟩ | h
  · rw [h, h]
  · rw [h]

end

/-! ### Between the two calls of a drain -/

theorem svFault_failed {s : Supervisor} (h : s.failed = true) (child : ℕ) (m : Message) :
    (svFault child m s).failed = true := by
  have hv : svFaultValid s child m = false := by simp [svFaultValid, h]
  unfold svFault
  rw [if_pos (by simp [hv])]
  rfl

/-- **A fault while a slot is closing** is not the expected one: no slot is active then. -/
theorem svFault_closing {s : Supervisor} (hl : LcOk s.life) {slot : UInt64}
    (hc : (s.life.at slot).state = LcState.closing) (child : ℕ) (m : Message) :
    (svFault child m s).failed = true := by
  have hv : svFaultValid s child m = false := by
    by_contra h
    simp only [Bool.not_eq_false, svFaultValid, decide_eq_true_eq] at h
    have hactive : (s.life.at 1).state = LcState.active := by tauto
    have hone : slotIx slot = slotIx 1 := by
      refine hl.alone _ _ ?_ ?_
      · change (s.life.at slot).occupied = true
        simp [LcSlot.occupied, hc]
      · change (s.life.at 1).occupied = true
        simp [LcSlot.occupied, hactive]
    have hs : s.life.at slot = s.life.at 1 := congrArg s.life.slots hone
    rw [hs, hactive] at hc
    exact absurd hc (by decide)
  unfold svFault
  rw [if_pos (by simp [hv])]
  rfl

theorem moved_failed {s : Supervisor} (h : s.failed = true) (faults : List ChildFault) :
    (moved (faults.map .fault) s).failed = true := by
  induction faults generalizing s with
  | nil => exact h
  | cons f faults ih => exact ih (svFault_failed (by exact h) f.child f.info)

theorem moved_closing {s : Supervisor} (hl : LcOk s.life) (slot : UInt64)
    (hc : (s.life.at slot).state = LcState.closing) {faults : List ChildFault} (hne : faults ≠ []) :
    (moved (faults.map .fault) s).failed = true := by
  cases faults with
  | nil => exact absurd rfl hne
  | cons f faults =>
    exact moved_failed (svFault_closing (s := { s with children := s.children.faulted f.child }) hl hc
      f.child f.info) faults

theorem brCall_failed {s : Supervisor} (hf : s.failed = true) (b : Broker) (noise : Noise)
    (mr : Registers) (op slot inc seq : UInt64) :
    brCall (supervisorCall noise) b s mr op slot inc seq =
      (⟨runtimeFailure, 0⟩, { b with failed := true }, s) := by
  unfold brCall
  dsimp only
  rw [supervisorCall, ppcall_eq, svProtected_failed hf, ltResponse_deliver, ltResponse_failure,
    if_pos rfl]

/-- **A drain that is interrupted** reports to a failed supervisor. -/
theorem brDrain_cut {s : Supervisor} (hl : LcOk s.life) {b : Broker} {slot : UInt64}
    (hp : ¬ ((s.life.at slot).state ≠ LcState.closing ∨ (s.life.at slot).stopped = 0 ∨
      (s.life.at slot).drained ≠ 0 ∨ (s.life.at slot).pending ≠ b.pending (slotIx slot)))
    {faults : List ChildFault} (hne : faults ≠ []) (noise : Noise) (mr : Registers) :
    brDrain (interrupted (faults.map .fault) (supervisorCall noise)) b s mr slot (s.life.at slot) =
      (ltReply mr runtimeFailure 0,
        { b with pending := Function.update b.pending (slotIx slot) 0, failed := true },
        moved (faults.map .fault) s) := by
  have hf : (moved (faults.map .fault) s).failed = true := moved_closing hl slot (by tauto) hne
  have hcall : ∀ b op inc seq,
      brCall (interrupted (faults.map .fault) (supervisorCall noise)) b s mr op slot inc seq =
        (⟨runtimeFailure, 0⟩, { b with failed := true }, moved (faults.map .fault) s) :=
    fun b op inc seq => brCall_failed hf b noise mr op slot inc seq
  unfold brDrain
  rw [if_neg hp]
  dsimp only
  rw [hcall]
  dsimp only
  rw [if_pos (by decide)]

/-- A drain that nothing but faults can interrupt is the one that nothing interrupts, or the
supervisor has failed. -/
theorem brDrain_interrupted {s : Supervisor} (hl : LcOk s.life) (b : Broker) (noise : Noise)
    (mr : Registers) (slot : UInt64) (faults : List ChildFault) :
    let out := brDrain (interrupted (faults.map .fault) (supervisorCall noise)) b s mr slot
      (s.life.at slot)
    out = brDrain (supervisorCall noise) b s mr slot (s.life.at slot) ∨ out.2.2.failed = true := by
  by_cases hne : faults = []
  · subst hne
    exact Or.inl rfl
  by_cases hp : (s.life.at slot).state ≠ LcState.closing ∨ (s.life.at slot).stopped = 0 ∨
      (s.life.at slot).drained ≠ 0 ∨ (s.life.at slot).pending ≠ b.pending (slotIx slot)
  · unfold brDrain
    rw [if_pos hp, if_pos hp]
    exact Or.inl rfl
  · rw [brDrain_cut hl hp hne]
    exact Or.inr (moved_closing hl slot (by tauto) hne)

/-- A drain that is answered with success was not interrupted at all. -/
theorem brDrain_ok_alone {s : Supervisor} (hl : LcOk s.life) {b : Broker} {noise : Noise}
    {mr : Registers} {slot : UInt64} {faults : List ChildFault}
    (hok : (ltResponse (brDrain (interrupted (faults.map .fault) (supervisorCall noise)) b s mr slot
      (s.life.at slot)).1).status = LcStatus.ok) : faults = [] := by
  by_contra hne
  by_cases hp : (s.life.at slot).state ≠ LcState.closing ∨ (s.life.at slot).stopped = 0 ∨
      (s.life.at slot).drained ≠ 0 ∨ (s.life.at slot).pending ≠ b.pending (slotIx slot)
  · unfold brDrain at hok
    rw [if_pos hp, ltResponse_reply mr (by decide) (fun _ => rfl)] at hok
    exact absurd hok (by decide)
  · rw [brDrain_cut hl hp hne, ltResponse_failure] at hok
    exact absurd hok (by decide)

/-! ### Turns -/

theorem SvOk.moved {base : List ChildCall} {s : Supervisor} (h : SvOk base s) (moves : List LtMove) :
    SvOk base (moved moves s) :=
  Run.final_induct h (fun _ x h => h.svCall x) _

section

variable {base : List ChildCall} {s : LtSystem}

theorem LtOk.moved (h : LtOk base s) (moves : List LtMove) :
    LtOk base ⟨s.broker, Tcs.moved moves s.supervisor⟩ := by
  induction moves generalizing s with
  | nil => exact h
  | cons x moves ih =>
    cases x with
    | supervisor m => exact ih (h.ltCall (.supervisor m))
    | fault f => exact ih (h.ltCall (.fault f.child f.info))

/-- The controller's call with faults between its two nested calls is the call without them, or the
supervisor has failed. -/
theorem LtOk.controller_interrupted (h : LtOk base s) (noise noise' : Noise)
    (faults : List ChildFault) (m : Message) :
    let gate' := supervisorCall noise'
    let out := brProtected (supervisorCall noise) (interrupted (faults.map .fault) gate') 2
      (s.broker, s.supervisor) m
    out = brProtected (supervisorCall noise) gate' 2 (s.broker, s.supervisor) m ∨
      out.2.2.failed = true := by
  unfold brProtected brController
  dsimp only
  by_cases h0 : (!s.broker.ready) = true ∨ s.broker.failed = true ∨ 2 > 2
  · rw [if_pos h0, if_pos h0]
    exact Or.inl rfl
  rw [if_neg h0, if_neg h0, if_pos rfl, if_pos rfl]
  by_cases h1 : runtimeMessage m LtLabel.brokerStatus 0 = true
  · rw [if_pos h1, if_pos h1]
    exact Or.inl rfl
  rw [if_neg h1, if_neg h1]
  by_cases h2 : runtimeMessage m LtLabel.kick 1 = true ∨ runtimeMessage m LtLabel.drain 1 = true
  swap
  · rw [if_neg h2, if_neg h2]
    exact Or.inl rfl
  rw [if_pos h2, if_pos h2]
  by_cases h3 : m.mr 0 ≥ slotCount ∨ s.broker.inc (slotIx (m.mr 0)) = 0
  · rw [if_pos h3, if_pos h3]
    exact Or.inl rfl
  rw [if_neg h3, if_neg h3]
  simp only [not_or, ge_iff_le, UInt64.not_le] at h3
  by_cases hf : s.supervisor.failed = true
  · rw [brView_failed hf]
    exact Or.inl rfl
  have ha := (h.agrees (by simpa using hf)).slots (slotIx (m.mr 0))
  rw [brView_eq h.supervisor.ready (by simpa using hf) h.supervisor.lcOk h3.1
    (ha.known.resolve_left h3.2)]
  dsimp only
  by_cases hk : m.label = LtLabel.kick
  · rw [if_pos hk, if_pos hk]
    exact Or.inl rfl
  · rw [if_neg hk, if_neg hk]
    exact brDrain_interrupted h.supervisor.lcOk _ _ _ _ _

/-- The broker's handler on the controller's channel keeps the copies, whatever faults. -/
theorem LtOk.controllerTurn (h : LtOk base s) (noise noise' : Noise) (faults : List ChildFault)
    (m : Message) :
    let out := brProtected (supervisorCall noise)
      (interrupted (faults.map .fault) (supervisorCall noise')) 2 (s.broker, s.supervisor) m
    LtOk base ⟨out.2.1, out.2.2⟩ := by
  intro out
  rcases h.controller_interrupted noise noise' faults m with he | hf
  · rw [show out = _ from he]
    exact h.brokerCall 2 noise noise' m
  · have hgate : ∀ noise t m, SvOk base t → SvOk base (supervisorCall noise t m).2 :=
      fun noise t m ht => ht.svCall (.call 1 (m.deliver noise.callee))
    refine ⟨?_, fun hn => absurd hn (by simp [show out.2.2.failed = true from hf])⟩
    exact brProtected_keeps (hgate noise) (fun t m ht => hgate noise' _ m (ht.moved _)) 2 s.broker
      h.supervisor m

/-- A handler with what comes before its first nested call is one with nothing there, from the state
after what came or, where it makes no call, from the state it met. -/
theorem LtSystem.brokerTurn_cases (s : LtSystem) (ch : ℕ) (noise noise' : Noise)
    (moves moves' : List LtMove) (m : Message) :
    let t : LtSystem := ⟨s.broker, Tcs.moved moves s.supervisor⟩
    (s.brokerTurn ch noise noise' moves moves' m).1 = (t.brokerTurn ch noise noise' [] moves' m).1 ∨
      (s.brokerTurn ch noise noise' moves moves' m).1 =
        (s.brokerTurn ch noise noise' [] moves' m).1 := by
  let after : Message × Broker × Supervisor → LtSystem := fun out => ⟨out.2.1, out.2.2⟩
  exact (brProtected_interrupted (Tcs.moved moves) s.broker m (supervisorCall noise)
    (interrupted moves' (supervisorCall noise')) s.supervisor ch).imp (congrArg after) (congrArg after)

/-- **Every turn keeps the copies.** -/
theorem LtOk.ltTurn (h : LtOk base s) (x : LtTurn) : LtOk base (ltTurn s x).1 := by
  cases x with
  | supervisor m => exact h.ltCall (.supervisor m)
  | fault f => exact h.ltCall (.fault f.child f.info)
  | broker noise noise' faults faults' m =>
    show LtOk base (s.brokerTurn 2 noise noise' (faults.map .fault) (faults'.map .fault) m).1
    rcases s.brokerTurn_cases 2 noise noise' (faults.map .fault) (faults'.map .fault) m with he | he
    · rw [he]
      exact (h.moved (faults.map .fault)).controllerTurn noise noise' faults' m
    · rw [he]
      exact h.controllerTurn noise noise' faults' m
  | worker ch noise noise' moves m =>
    show LtOk base (s.brokerTurn ch.val noise noise' moves [] m).1
    rcases s.brokerTurn_cases ch.val noise noise' moves [] m with he | he
    · rw [he]
      exact (h.moved moves).brokerCall ch.val noise noise' m
    · rw [he]
      exact h.brokerCall ch.val noise noise' m

end

theorem ltOk_turns (c : Children) (xs : List LtTurn) :
    LtOk (LtSystem.init c).supervisor.children.calls (Run.final ltTurn (LtSystem.init c) xs) :=
  Run.final_induct (ltOk_init c) (fun _ x h => h.ltTurn x) xs

/-- **A successful drain**, whatever comes in the middle of it: the slot the broker looked at is
closing, stopped and not drained, and nothing came between the look and the report. -/
theorem drain_ok {base : List ChildCall} {s : LtSystem} (h : LtOk base s) {noise noise' : Noise}
    {faults faults' : List ChildFault} {m reply : Message}
    (hm : runtimeMessage m LtLabel.drain 1 = true)
    (hr : (ltTurn s (.broker noise noise' faults faults' m)).2 = some reply)
    (hok : (ltResponse reply).status = LcStatus.ok) :
    let life := (moved (faults.map .fault) s.supervisor).life
    faults' = [] ∧ m.mr 0 < slotCount ∧ (life.at (m.mr 0)).state = LcState.closing ∧
      (life.at (m.mr 0)).stopped ≠ 0 ∧ (life.at (m.mr 0)).drained = 0 := by
  intro life
  have ht := h.moved (faults.map .fault)
  have hreply : (brProtected (supervisorCall noise)
      (interrupted (faults'.map .fault) (supervisorCall noise')) 2
      (s.broker, moved (faults.map .fault) s.supervisor) m).1 = reply := by
    rw [← Option.some.inj hr]
    exact (brProtected_reply (moved (faults.map .fault)) s.broker m (supervisorCall noise) _
      s.supervisor 2).symm
  rw [← hreply] at hok
  obtain ⟨hi, hok⟩ := drain_view ht hm hok
  exact ⟨brDrain_ok_alone ht.supervisor.lcOk hok, hi, brDrain_ok hok⟩

/-- A worker's message, whatever comes in the middle of it, touches nothing of the other slot beyond
what came. -/
theorem workerTurn_others (s : LtSystem) (ch : Fin 2) (noise noise' : Noise) (moves : List LtMove)
    (m : Message) :
    let s' := (ltTurn s (.worker ch noise noise' moves m)).1
    ∃ t, (t = s.supervisor ∨ t = moved moves s.supervisor) ∧ s'.supervisor.children = t.children ∧
      ∀ j, j ≠ ch → s'.supervisor.life.slots j = t.life.slots j ∧
        s'.broker.inc j = s.broker.inc j ∧ s'.broker.pending j = s.broker.pending j := by
  intro s'
  rcases s.brokerTurn_cases ch.val noise noise' moves [] m with he | he
  · refine ⟨moved moves s.supervisor, Or.inr rfl, ?_⟩
    rw [show s' = _ from he]
    exact worker_others ⟨s.broker, moved moves s.supervisor⟩ ch noise noise' m
  · refine ⟨s.supervisor, Or.inl rfl, ?_⟩
    rw [show s' = _ from he]
    exact worker_others s ch noise noise' m

/-- **Broker and gate owner never disagree.** After any sequence of turns, with any faults and calls
in the middle of the broker's handlers, as long as the supervisor has not failed the broker has not
failed, and it remembers of each slot no incarnation or the supervisor's, and the supervisor's
pending ticket. A drain succeeds only on a slot that is closing, stopped and not drained, and a
worker's message touches nothing of the other slot. -/
theorem broker_gate_agree (c : Children) (xs : List LtTurn) :
    let s := Run.final ltTurn (LtSystem.init c) xs
    (s.supervisor.failed = false → s.broker.failed = false ∧
      ∀ i, (s.broker.inc i = 0 ∨ s.broker.inc i = (s.supervisor.life.slots i).incarnation) ∧
        s.broker.pending i = (s.supervisor.life.slots i).pending) ∧
    (∀ noise noise' faults faults' m reply, runtimeMessage m LtLabel.drain 1 = true →
      (ltTurn s (.broker noise noise' faults faults' m)).2 = some reply →
      (ltResponse reply).status = LcStatus.ok →
      let life := (moved (faults.map .fault) s.supervisor).life
      faults' = [] ∧ m.mr 0 < slotCount ∧ (life.at (m.mr 0)).state = LcState.closing ∧
        (life.at (m.mr 0)).stopped ≠ 0 ∧ (life.at (m.mr 0)).drained = 0) ∧
    ∀ ch noise noise' moves m,
      let s' := (ltTurn s (.worker ch noise noise' moves m)).1
      ∃ t, (t = s.supervisor ∨ t = moved moves s.supervisor) ∧ s'.supervisor.children = t.children ∧
        ∀ j, j ≠ ch → s'.supervisor.life.slots j = t.life.slots j ∧
          s'.broker.inc j = s.broker.inc j ∧ s'.broker.pending j = s.broker.pending j := by
  intro s
  have h : LtOk (LtSystem.init c).supervisor.children.calls s := ltOk_turns c xs
  refine ⟨fun hf => ?_, fun noise noise' faults faults' m reply hm hr hok => drain_ok h hm hr hok,
    workerTurn_others s⟩
  have ha := h.agrees hf
  exact ⟨ha.service.2, fun i => ⟨(ha.slots i).known, (ha.slots i).ticket⟩⟩

end Tcs
