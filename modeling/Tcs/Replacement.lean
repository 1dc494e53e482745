/-
# Draining and replacing a stopped worker

A slot of the two servers that is closing, stopped and not drained should be
drained by the controller, and then the other slot be reserved. The broker
answers a drain only for a worker whose hello it has heard, so a slot that
was contained while its worker was starting stays closing for good: it is
never drained, and no other slot can be reserved. For every other slot the
drain and the reservation succeed (`replaceable_iff`).

Key definitions: `Numbered`, `Replaceable`.
Key theorems: `numbered_run`, `replaceable_of_inc`, `contained_inc`,
`replaceable_iff`.
-/
import Tcs.Broker

namespace Tcs

open Ipc Kernel

/-! ### Incarnations are numbered by slots -/

/-- The slots that are not unused. -/
def Lifecycle.used (life : Lifecycle) : Finset (Fin 2) :=
  Finset.univ.filter fun i => (life.slots i).state ≠ LcState.unused

/-- As many incarnations were handed out as slots are in use or used up. -/
def Numbered (life : Lifecycle) : Prop := life.lastIncarnation.toNat = life.used.card

theorem Numbered.lcStep {life life' : Lifecycle} {actor : LcActor} {e : LcEvent} {b : Bool}
    {v : UInt64} (h : LcStep life actor e b v life') (hn : Numbered life) : Numbered life' := by
  have hmem : ∀ i, i ∈ life'.used ↔ i ∈ life.used ∨ e.op = LcOp.reserve ∧ i = slotIx e.slot := by
    intro i
    simp only [Lifecycle.used, Finset.mem_filter, Finset.mem_univ, true_and, Ne, h.unused_iff]
    tauto
  unfold Numbered at hn ⊢
  by_cases hop : e.op = LcOp.reserve
  · have hnew : slotIx e.slot ∉ life.used := by
      have h0 : (life.slots (slotIx e.slot)).state = LcState.unused := (h.reserve_slot hop).1
      simp [Lifecycle.used, h0]
    have hins : life'.used = insert (slotIx e.slot) life.used := by
      ext i
      rw [hmem, Finset.mem_insert]
      tauto
    rw [hins, Finset.card_insert_of_notMem hnew, ← hn]
    cases h with
    | reserve i hi hs hfree hm => exact Word.toNat_succ hm
    | slot i hi hn hs => cases hs <;> simp at hop
  · have hsame : life'.used = life.used := by
      ext i
      rw [hmem]
      tauto
    rw [hsame, ← hn]
    cases h with
    | reserve i hi hs hfree hm => exact absurd rfl hop
    | slot i hi hn hs => rfl

theorem Numbered.ne_max {life : Lifecycle} (h : Numbered life) : life.lastIncarnation ≠ Word.max := by
  have hle : life.used.card ≤ 2 := (Finset.card_le_univ _).trans (by simp)
  rw [Word.ne_max_iff, h]
  omega

/-- Whatever every event of the table keeps, the two servers keep. -/
theorem ltCall_life {P : Lifecycle → Prop}
    (hP : ∀ {life life' : Lifecycle} {actor : LcActor} {e : LcEvent} {b : Bool} {v : UInt64},
      LcStep life actor e b v life' → P life → P life')
    {base : List ChildCall} {s : LtSystem} (h : LtOk base s) (h0 : P s.supervisor.life) (x : LtCall) :
    P (ltCall s x).1.supervisor.life := by
  have hbroker : ∀ ch noise noise' m, P (s.brokerCall ch noise noise' m).1.supervisor.life := by
    intro ch noise noise' m
    have hgate : ∀ noise t m, LcOk t.life ∧ P t.life →
        LcOk (supervisorCall noise t m).2.life ∧ P (supervisorCall noise t m).2.life := by
      rintro noise t m ⟨hl, hp⟩
      obtain ⟨actor, -, hs⟩ := svStep_protected hl 1 (m.deliver noise.callee)
      exact ⟨hs.life_induct (P := LcOk) (fun h => h.lcOk) hl hl, hs.life_induct (P := P) hP hl hp⟩
    exact (brProtected_keeps (hgate noise) (hgate noise') ch s.broker ⟨h.supervisor.lcOk, h0⟩ m).2
  cases x with
  | supervisor m =>
    obtain ⟨actor, -, hs⟩ := svStep_protected h.supervisor.lcOk 0 m
    exact hs.life_induct (P := P) hP h.supervisor.lcOk h0
  | broker noise noise' m => exact hbroker 2 noise noise' m
  | worker ch noise noise' m => exact hbroker ch.val noise noise' m
  | fault child m =>
    have hv := h.supervisor.faulted child
    exact (svStep_fault hv.lcOk child m).life_induct (P := P) hP hv.lcOk h0

theorem numbered_run (c : Children) (xs : List LtCall) :
    Numbered (Run.final ltCall (LtSystem.init c) xs).supervisor.life := by
  refine (Run.final_induct (P := fun s => LtOk (LtSystem.init c).supervisor.children.calls s ∧
    Numbered s.supervisor.life) ⟨ltOk_init c, ?_⟩ (fun s x h => ⟨h.1.ltCall x, ?_⟩) xs).2
  · rfl
  · exact ltCall_life (P := Numbered) (fun h => Numbered.lcStep h) h.1 h.2 x

/-! ### The drain and the reservation -/

/-- A call was answered with success. -/
def Succeeds (reply : Option Message) : Prop :=
  (reply.map fun m => (ltResponse m).status) = some LcStatus.ok

/-- Every drain of the slot by the controller succeeds and retires it, and then every reservation of
the other slot succeeds, if that is still unused. -/
def Replaceable (s : LtSystem) (slot : UInt64) : Prop :=
  ∀ noise noise' m, runtimeMessage m LtLabel.drain 1 = true → m.mr 0 = slot →
    let out := ltCall s (.broker noise noise' m)
    Succeeds out.2 ∧ (out.1.supervisor.life.at slot).state = LcState.retired ∧
      ∀ m', runtimeMessage m' LtLabel.control 2 = true → m'.mr 0 = LcOp.reserve →
        m'.mr 1 < slotCount → m'.mr 1 ≠ slot →
        (s.supervisor.life.at (m'.mr 1)).state = LcState.unused →
        Succeeds (ltCall out.1 (.supervisor m')).2

section

variable {base : List ChildCall} {s : LtSystem} {slot : UInt64} {noise noise' : Noise} {m : Message}

/-- A worker the broker has not heard of is not drained. -/
theorem not_replaceable (h : Copied s.broker s.supervisor.life)
    (h0 : s.broker.inc (slotIx slot) = 0) : ¬ Replaceable s slot := by
  intro hr
  let m : Message := ⟨LtLabel.drain, 1, fun _ => slot⟩
  let noise : Noise := ⟨m.mr, m.mr⟩
  have hm : runtimeMessage m LtLabel.drain 1 = true := by simp [m, runtimeMessage]
  have hout := brProtected_drain (supervisorCall noise) (supervisorCall noise) h.service s.supervisor hm
  rw [if_pos (Or.inr h0)] at hout
  have hs := (hr noise noise m hm rfl).1
  simp only [ltCall, LtSystem.brokerCall, hout, Succeeds, Option.map_some,
    ltResponse_reply m.mr (show LcStatus.invalid ≤ LcStatus.exhausted by decide) (fun _ => rfl)] at hs
  exact absurd hs (by decide)

theorem reserve_succeeds {t : Supervisor} (ht : SvOk base t) (hf : t.failed = false)
    (hn : t.life.lastIncarnation ≠ Word.max) (hfree : ∀ j, (t.life.slots j).occupied = false)
    (hm : runtimeMessage m LtLabel.control 2 = true) (hop : m.mr 0 = LcOp.reserve)
    (hi : m.mr 1 < slotCount) (hs : (t.life.at (m.mr 1)).state = LcState.unused) :
    (ltResponse (svProtected 0 t m).1).status = LcStatus.ok := by
  obtain ⟨hlabel, -⟩ := runtimeMessage_iff.mp hm
  have hstep := LcStep.reserve (m.mr 1) hi hs hfree hn
  unfold svProtected
  dsimp only
  rw [if_neg (by simp [ht.ready, hf]), if_neg (by simp [runtimeMessage, hlabel]), if_pos ⟨rfl, hm⟩,
    if_neg (by grind), if_neg (by rw [hop]; decide), if_pos hop, hop, svApply_eq,
    lcApply_ok_iff.mpr ⟨(lcValid_iff _).mpr ht.lcOk, hstep⟩,
    ltResponse_reply m.mr (by decide) (fun h => absurd rfl h)]

/-- **A stopped slot whose worker the broker has heard of** is drained, and the other slot reserved. -/
theorem replaceable_of_inc (h : LtOk base s) (hn : Numbered s.supervisor.life)
    (hf : s.supervisor.failed = false) (hi : slot < slotCount)
    (hc : (s.supervisor.life.at slot).state = LcState.closing)
    (hs : (s.supervisor.life.at slot).stopped ≠ 0) (hd : (s.supervisor.life.at slot).drained = 0)
    (hinc : s.broker.inc (slotIx slot) ≠ 0) : Replaceable s slot := by
  rintro noise noise' m hm rfl
  have hcopy := h.agrees hf
  have ha : SlotCopied _ _ (s.supervisor.life.at (m.mr 0)) := hcopy.slots (slotIx (m.mr 0))
  have hout := brProtected_drain (supervisorCall noise) (supervisorCall noise') hcopy.service s.supervisor hm
  have hguard : ¬ (m.mr 0 ≥ slotCount ∨ s.broker.inc (slotIx (m.mr 0)) = 0) := by
    simp [hinc, UInt64.not_le.mpr hi]
  rw [if_neg hguard, brView_eq h.supervisor.ready hf h.supervisor.lcOk hi (ha.known.resolve_left hinc)]
    at hout
  dsimp only at hout
  rw [brDrain_eq h.supervisor hf hi (ha.known.resolve_left hinc) ha.ticket hc hs hd] at hout
  have hcall := h.brokerCall 2 noise noise' m
  dsimp only [ltCall, LtSystem.brokerCall] at hcall ⊢
  rw [hout] at hcall ⊢
  refine ⟨?_, ?_, fun m' hm' hop hi' hne hs' => ?_⟩
  · simp only [Succeeds, Option.map_some]
    rw [ltResponse_reply m.mr (by decide) (fun h => absurd rfl h)]
  · rw [Lifecycle.at_set]
    rfl
  · have hother : (s.supervisor.life.set (m.mr 0) (s.supervisor.life.at (m.mr 0)).drainedOff).at
        (m'.mr 1) = s.supervisor.life.at (m'.mr 1) := Lifecycle.at_set_ne _ hi hi' hne _
    have hfree : ∀ j, ((s.supervisor.life.set (m.mr 0)
        (s.supervisor.life.at (m.mr 0)).drainedOff).slots j).occupied = false := by
      intro j
      by_cases hj : j = slotIx (m.mr 0)
      · rw [hj, Lifecycle.set_slots_self]
        rfl
      · rw [Lifecycle.set_slots_of_ne _ hj]
        -- the closing slot is the one occupied slot
        refine Bool.eq_false_iff.mpr fun ho => hj (h.supervisor.lcOk.alone j _ ho ?_)
        change (s.supervisor.life.at (m.mr 0)).occupied = true
        simp [LcSlot.occupied, hc]
    simp only [svCall, Succeeds, Option.map_some, Option.some.injEq]
    exact reserve_succeeds hcall.supervisor hf hn.ne_max hfree hm' hop hi' (by rw [hother]; exact hs')

end

/-! ### When the broker hears of a worker -/

theorem brController_inc {σ : Type*} (gate gate' : Peer σ) (b : Broker) (t : σ) (m : Message) :
    (brController gate gate' b t m).2.1.inc = b.inc := by
  have hview : (brView gate b t m.mr (m.mr 0)).2.1.inc = b.inc := by
    unfold brView
    dsimp only
    split_ifs <;> rfl
  have hdrain : ∀ b t mr slot view, (brDrain gate' b t mr slot view).2.1.inc = b.inc := by
    intro b t mr slot view
    unfold brDrain brCall
    dsimp only
    split_ifs <;> rfl
  have hkick : ∀ b (t : σ) mr slot view, (brKick b t mr slot view).2.1.inc = b.inc := by
    intro b t mr slot view
    unfold brKick
    split_ifs <;> rfl
  unfold brController
  dsimp only
  generalize brView gate b t m.mr (m.mr 0) = out at hview ⊢
  rcases out with ⟨_ | view, b', t'⟩
  · split_ifs
    any_goals rfl
    all_goals exact hview
  · split_ifs
    any_goals rfl
    · exact (hkick _ _ _ _ _).trans hview
    · exact (hdrain _ _ _ _ _).trans hview

section

variable {base : List ChildCall} {s : LtSystem}

theorem brHello_inc {b : Broker} {t : Supervisor} (ht : SvOk base t) (hf : t.failed = false)
    {slot : UInt64} (hi : slot < slotCount) (noise : Noise) (mr : Registers) :
    let out := brHello (supervisorCall noise) b t mr slot
    out.2.1.inc = b.inc ∨
      (t.life.at slot).state = LcState.starting ∧ (out.2.2.life.at slot).state = LcState.ready := by
  unfold brHello
  by_cases h0 : b.inc (slotIx slot) ≠ 0
  · rw [if_pos h0]
    exact Or.inl rfl
  rw [if_neg h0]
  obtain ⟨h1, h2⟩ := helloCall_eq ht.ready hf hi noise mr
  dsimp only at h1 h2 ⊢
  rw [h1, h2]
  rcases hout : lcApply t.life .supervisor ⟨LcOp.started, slot, (t.life.at slot).incarnation, 0⟩ false
    with ⟨⟨status, value⟩, life'⟩
  dsimp only
  by_cases hok : status = LcStatus.ok
  · subst hok
    obtain ⟨u, hu, -, rfl⟩ := (lcApply_ok_iff.mp hout).2.slotStep (by simp)
    right
    cases hu with
    | started _ hst =>
      refine ⟨hst, ?_⟩
      split_ifs <;> simp [Lifecycle.at]
  · left
    split_ifs <;> rfl

/-- **The broker learns an incarnation only from the start of its worker.** -/
theorem inc_changed (h : LtOk base s) (hf : s.supervisor.failed = false) (x : LtCall) (i : Fin 2) :
    (ltCall s x).1.broker.inc i = s.broker.inc i ∨
      (s.supervisor.life.slots i).state = LcState.starting ∧
        ((ltCall s x).1.supervisor.life.slots i).state = LcState.ready := by
  cases x with
  | supervisor m => exact Or.inl rfl
  | fault child m => exact Or.inl rfl
  | broker noise noise' m =>
    left
    dsimp only [ltCall, LtSystem.brokerCall, brProtected]
    by_cases h0 : (!s.broker.ready) = true ∨ s.broker.failed = true ∨ 2 > 2
    · rw [if_pos h0]
    · rw [if_neg h0, if_pos rfl, brController_inc]
  | worker ch noise noise' m =>
    have hix : slotIx ch.val.toUInt64 = ch := slotIx_toUInt64 ch
    by_cases hi : i = ch
    · subst hi
      dsimp only [ltCall, LtSystem.brokerCall, brProtected]
      by_cases h0 : (!s.broker.ready) = true ∨ s.broker.failed = true ∨ i.val > 2
      · rw [if_pos h0]
        exact Or.inl rfl
      rw [if_neg h0, if_neg (by omega)]
      unfold brWorker
      dsimp only
      generalize (if runtimeMessage m LtLabel.complete 2 = true then m.mr 1 else 0) = sequence
      split_ifs
      · have hh := brHello_inc (b := s.broker) h.supervisor hf (toUInt64_lt i) noise m.mr
        simp only [Lifecycle.at, hix] at hh
        exact hh.imp_left fun he => by rw [he]
      · exact Or.inl rfl
      · exact Or.inl rfl
      · left
        unfold brTicket brCall
        dsimp only
        split_ifs <;> rfl
    · exact Or.inl ((worker_others s ch noise noise' m).2 i hi).2.1

theorem ltCall_failed (h : LtOk base s) (x : LtCall)
    (hf : (ltCall s x).1.supervisor.failed = false) : s.supervisor.failed = false := by
  cases x with
  | supervisor m =>
    obtain ⟨actor, -, hs⟩ := svStep_protected h.supervisor.lcOk 0 m
    exact hs.failed hf
  | broker noise noise' m => exact (brokerCall_failed s 2 noise noise' m).symm.trans hf
  | worker ch noise noise' m => exact (brokerCall_failed s ch.val noise noise' m).symm.trans hf
  | fault child m =>
    have hv := h.supervisor.faulted child
    exact (svStep_fault hv.lcOk child m).failed hf

/-- What the broker knows of a slot from its closing on. -/
theorem inc_of_closed (h : LtOk base s) (zs : List LtCall) {i : Fin 2}
    (hc : LcState.closing ≤ (s.supervisor.life.slots i).state)
    (hf : (Run.final ltCall s zs).supervisor.failed = false) :
    s.supervisor.failed = false ∧ (Run.final ltCall s zs).broker.inc i = s.broker.inc i := by
  induction zs generalizing s with
  | nil => exact ⟨hf, rfl⟩
  | cons x zs ih =>
    have hc' : LcState.closing ≤ ((ltCall s x).1.supervisor.life.slots i).state :=
      ltCall_life (P := fun life => LcState.closing ≤ (life.slots i).state)
        (fun hs hp => UInt64.le_trans hp (hs.moves i).1.phase) h hc x
    obtain ⟨hf', heq⟩ := ih (h.ltCall x) hc' hf
    have hf'' := ltCall_failed h x hf'
    refine ⟨hf'', heq.trans ((inc_changed h hf'' x i).resolve_right fun hst => ?_)⟩
    rw [hst.1] at hc
    exact absurd hc (by decide)

/-- **The phase a slot was contained in** decides whether the broker knows its incarnation. -/
theorem contained_inc (h : LtOk base s) (x : LtCall) (zs : List LtCall) {i : Fin 2}
    (hlive : (s.supervisor.life.slots i).live = true)
    (hc : ((ltCall s x).1.supervisor.life.slots i).state = LcState.closing)
    (hf : (Run.final ltCall (ltCall s x).1 zs).supervisor.failed = false) :
    (Run.final ltCall (ltCall s x).1 zs).broker.inc i ≠ 0 ↔
      (s.supervisor.life.slots i).state ≠ LcState.starting := by
  obtain ⟨hf', heq⟩ := inc_of_closed (h.ltCall x) zs (i := i) (UInt64.le_of_eq hc.symm) hf
  have hf'' := ltCall_failed h x hf'
  have heq' := (inc_changed h hf'' x i).resolve_right fun hst => absurd (hc.symm.trans hst.2) (by decide)
  have ha := (h.agrees hf'').slots i
  rw [heq, heq']
  constructor
  · exact fun hne hst => hne (ha.starting hst)
  · intro hst
    have hl := (LcSlot.live_iff _).mp hlive
    exact ha.hello (by grind)

end

/-- **When a stopped worker is drained and replaced.** In every state that any calls lead to and in
which the supervisor has not failed, of a slot that is closing, stopped and not drained: it is
drained, and the other slot can be reserved, exactly if the broker knows the slot's incarnation, that
is if the slot was not contained while its worker was starting. -/
theorem replaceable_iff (c : Children) (xs : List LtCall) (slot : UInt64) (hi : slot < slotCount)
    (hf : (Run.final ltCall (LtSystem.init c) xs).supervisor.failed = false)
    (hc : ((Run.final ltCall (LtSystem.init c) xs).supervisor.life.at slot).state = LcState.closing)
    (hs : ((Run.final ltCall (LtSystem.init c) xs).supervisor.life.at slot).stopped ≠ 0)
    (hd : ((Run.final ltCall (LtSystem.init c) xs).supervisor.life.at slot).drained = 0) :
    let s := Run.final ltCall (LtSystem.init c) xs
    (Replaceable s slot ↔ s.broker.inc (slotIx slot) ≠ 0) ∧
      ∀ ys x zs, xs = ys ++ x :: zs →
        let t := Run.final ltCall (LtSystem.init c) ys
        (t.supervisor.life.at slot).live = true →
        ((ltCall t x).1.supervisor.life.at slot).state = LcState.closing →
        (Replaceable s slot ↔ (t.supervisor.life.at slot).state ≠ LcState.starting) := by
  intro s
  have h : LtOk (LtSystem.init c).supervisor.children.calls s := ltOk_run c xs
  have key : Replaceable s slot ↔ s.broker.inc (slotIx slot) ≠ 0 :=
    ⟨fun hr h0 => not_replaceable (h.agrees hf) h0 hr,
      replaceable_of_inc h (numbered_run c xs) hf hi hc hs hd⟩
  refine ⟨key, ?_⟩
  rintro ys x zs rfl t hlive hclosing
  rw [key]
  have hfinal : s = Run.final ltCall (ltCall t x).1 zs := Run.final_append _ _ _
  have hf' : s.supervisor.failed = false := hf
  rw [hfinal] at hf' ⊢
  exact contained_inc (ltOk_run c ys) x zs hlive hclosing hf'

/-- A control message of the controller. -/
def controlMessage (op slot : UInt64) : Message :=
  ⟨LtLabel.control, 2, fun i => if i = 0 then op else slot⟩

/-- The first slot is reserved, its worker says hello, and it is contained. -/
def containedWhenReady : List LtCall :=
  [.supervisor (controlMessage LcOp.reserve 0),
    .worker (slotIx 0) ⟨fun _ => 0, fun _ => 0⟩ ⟨fun _ => 0, fun _ => 0⟩ ⟨LtLabel.hello, 0, fun _ => 0⟩,
    .supervisor (controlMessage LcOp.contain 0)]

/-- The first slot is reserved, and contained before its worker says hello. -/
def containedWhileStarting : List LtCall :=
  [.supervisor (controlMessage LcOp.reserve 0), .supervisor (controlMessage LcOp.contain 0)]

/-- A slot that was contained when ready is drained and replaced. -/
theorem replaceable_when_ready :
    Replaceable (Run.final ltCall (LtSystem.init ⟨fun _ => false, []⟩) containedWhenReady) 0 :=
  (replaceable_iff ⟨fun _ => false, []⟩ containedWhenReady 0 (by decide) (by decide +kernel)
    (by decide +kernel) (by decide +kernel) (by decide +kernel)).1.mpr (by decide +kernel)

/-- A slot that was contained while starting is closing, stopped and not drained, and the drain is
refused. -/
theorem not_every_stopped_worker_replaceable :
    ¬ ∀ (c : Children) (xs : List LtCall) (slot : UInt64), slot < slotCount →
      let s := Run.final ltCall (LtSystem.init c) xs
      s.supervisor.failed = false → (s.supervisor.life.at slot).state = LcState.closing →
        (s.supervisor.life.at slot).stopped ≠ 0 → (s.supervisor.life.at slot).drained = 0 →
          Replaceable s slot := by
  intro h
  have hr := h ⟨fun _ => false, []⟩ containedWhileStarting 0 (by decide) (by decide +kernel)
    (by decide +kernel) (by decide +kernel) (by decide +kernel) ⟨fun _ => 0, fun _ => 0⟩
    ⟨fun _ => 0, fun _ => 0⟩ ⟨LtLabel.drain, 1, fun _ => 0⟩ (by decide) rfl
  exact absurd hr.1 (by unfold Succeeds; decide +kernel)

end Tcs
