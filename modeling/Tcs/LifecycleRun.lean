/-
# What the accepted events of a slot can be

Over every run of `tcs_lc_apply` from the zeroed lifecycle, the accepted
events of one slot tell its whole story: a reservation, a start, an
activation, tickets that are begun and completed in turn, a containment and
the two confirmations, cut off at some point. `Story` lists the cut-off
points together with the slot that the events leave; it is an invariant of
history and state (`told_run`). What the gate lets through and what has to
come before a replacement are then read off the list.

Key definitions: `accepted`, `Work`, `Live`, `Story`.
Key theorems: `Story.slotStep`, `told_run`, `replacement_needs_evidence`,
`work_follows_history`.
-/
import Tcs.Lifecycle

namespace Tcs

/-! ### Runs and their accepted events -/

/-- The arguments of one `tcs_lc_apply`. -/
structure LcCall where
  actor : LcActor
  event : LcEvent
  auditOk : Bool
  deriving DecidableEq, Repr

/-- One call on the owner's lifecycle. -/
def lcCall (life : Lifecycle) (x : LcCall) : Lifecycle × LcResult :=
  ((lcApply life x.actor x.event x.auditOk).2, (lcApply life x.actor x.event x.auditOk).1)

abbrev LcEntry := Run.Entry Lifecycle LcCall LcResult

/-- The lifecycle after the calls, from zero. -/
def lcRun (xs : List LcCall) : Lifecycle := Run.final lcCall Lifecycle.zero xs

/-- The history of the calls, from zero. -/
def lcTrace (xs : List LcCall) : List LcEntry := Run.trace lcCall Lifecycle.zero xs

namespace LcEntry

/-- The operation asked for. -/
abbrev op (e : LcEntry) : UInt64 := e.input.event.op
/-- The slot asked for. -/
abbrev slot (e : LcEntry) : UInt64 := e.input.event.slot
/-- The incarnation the event carries. -/
abbrev incarnation (e : LcEntry) : UInt64 := e.input.event.incarnation
/-- The sequence the event carries. -/
abbrev sequence (e : LcEntry) : UInt64 := e.input.event.sequence
/-- The event succeeded. -/
abbrev ok (e : LcEntry) : Prop := e.output.status = LcStatus.ok

/-- A reservation that handed out `inc`. -/
def Reserves (inc : UInt64) (e : LcEntry) : Prop := op e = LcOp.reserve ∧ e.output.value = inc

/-- A containment of `inc`. -/
def Contains (inc : UInt64) (e : LcEntry) : Prop := op e = LcOp.contain ∧ incarnation e = inc

/-- The supervisor's confirmation that `inc` stopped after `n` tickets. -/
def Stops (inc n : UInt64) (e : LcEntry) : Prop :=
  e.input.actor = .supervisor ∧ op e = LcOp.stopped ∧ incarnation e = inc ∧ sequence e = n

/-- The broker's confirmation that the work of `inc` has drained after `n` tickets. -/
def Drains (inc n : UInt64) (e : LcEntry) : Prop :=
  e.input.actor = .broker ∧ op e = LcOp.drained ∧ incarnation e = inc ∧ sequence e = n

end LcEntry

open LcEntry

/-- The accepted events of slot `i`, oldest first. -/
def accepted (i : UInt64) (h : List LcEntry) : List LcEntry := h.filter fun e => ok e ∧ slot e = i

/-- The tickets of slot `i`: what was begun and completed, oldest first. -/
def tickets (i : UInt64) (h : List LcEntry) : List LcEntry :=
  (accepted i h).filter fun e => op e = LcOp.begin ∨ op e = LcOp.complete

/-! ### The story of a slot -/

/-- Tickets begun and completed in turn under `inc`, how many were issued and which is pending. -/
inductive Work (inc : UInt64) : List LcEntry → UInt64 → UInt64 → Prop
  | nil : Work inc [] 0 0
  | begin {l : List LcEntry} {n : UInt64} (hw : Work inc l n 0) (hn : n ≠ Word.max) (e : LcEntry)
    (hop : op e = LcOp.begin) (hinc : incarnation e = inc) (hv : e.output.value = n + 1) :
    Work inc (l ++ [e]) (n + 1) (n + 1)
  | complete {l : List LcEntry} {n : UInt64} (hw : Work inc l n n) (hn : n ≠ 0) (e : LcEntry)
    (hop : op e = LcOp.complete) (hinc : incarnation e = inc) (hs : sequence e = n) :
    Work inc (l ++ [e]) n 0

/-- The events of a slot that has not been contained, with its phase, counter and pending ticket. -/
inductive Live (inc : UInt64) : List LcEntry → UInt64 → UInt64 → UInt64 → Prop
  | starting (r : LcEntry) (hr : Reserves inc r) : Live inc [r] LcState.starting 0 0
  | ready (r s : LcEntry) (hr : Reserves inc r) (hs : op s = LcOp.started ∧ incarnation s = inc) :
    Live inc [r, s] LcState.ready 0 0
  | active (r s a : LcEntry) (hr : Reserves inc r) (hs : op s = LcOp.started ∧ incarnation s = inc)
    (ha : op a = LcOp.activate ∧ incarnation a = inc) {w : List LcEntry} {n p : UInt64}
    (hw : Work inc w n p) : Live inc (r :: s :: a :: w) LcState.active n p

/-- The accepted events of a slot and the slot they leave. -/
inductive Story : List LcEntry → LcSlot → Prop
  | unused : Story [] LcSlot.zero
  | live {inc state n p : UInt64} {l : List LcEntry} (hl : Live inc l state n p) :
    Story l ⟨state, inc, n, p, 0, 0⟩
  | closing {inc state n p : UInt64} {l : List LcEntry} (hl : Live inc l state n p) (c : LcEntry)
    (hc : Contains inc c) : Story (l ++ [c]) ⟨LcState.closing, inc, n, p, 0, 0⟩
  | stopped {inc state n p : UInt64} {l : List LcEntry} (hl : Live inc l state n p) (c e : LcEntry)
    (hc : Contains inc c) (he : Stops inc n e) :
    Story (l ++ [c, e]) ⟨LcState.closing, inc, n, p, 1, 0⟩
  | drained {inc state n p : UInt64} {l : List LcEntry} (hl : Live inc l state n p) (c e : LcEntry)
    (hc : Contains inc c) (he : Drains inc n e) :
    Story (l ++ [c, e]) ⟨LcState.closing, inc, n, 0, 0, 1⟩
  | retired {inc state n p : UInt64} {l : List LcEntry} (hl : Live inc l state n p)
    (c e₁ e₂ : LcEntry) (hc : Contains inc c)
    (he : (Stops inc n e₁ ∧ Drains inc n e₂) ∨ (Drains inc n e₁ ∧ Stops inc n e₂)) :
    Story (l ++ [c, e₁, e₂]) ⟨LcState.retired, inc, n, 0, 1, 1⟩

theorem Live.state {inc state n p : UInt64} {l : List LcEntry} (h : Live inc l state n p) :
    LcState.starting ≤ state ∧ state ≤ LcState.active := by
  cases h <;> simp

theorem Work.pending {inc n p : UInt64} {l : List LcEntry} (h : Work inc l n p) :
    p = 0 ∨ p = n := by
  cases h <;> simp

theorem Story.eq_nil {l : List LcEntry} {s : LcSlot} (h : Story l s)
    (hs : s.state = LcState.unused) : l = [] := by
  cases h with
  | unused => rfl
  | live hl =>
    have hle := hl.state.1
    simp only at hs
    simp [hs] at hle
  | _ => simp at hs

/-- A slot that is starting, ready or active has not been contained. -/
theorem Story.running {l : List LcEntry} {s : LcSlot} (h : Story l s)
    (hs : LcState.starting ≤ s.state ∧ s.state ≤ LcState.active) :
    ∃ inc state n p, s = ⟨state, inc, n, p, 0, 0⟩ ∧ Live inc l state n p := by
  cases h with
  | live hl => exact ⟨_, _, _, _, rfl, hl⟩
  | _ => simp [LcSlot.zero] at hs

/-- **A slot event continues the story.** -/
theorem Story.slotStep {l : List LcEntry} {s s' : LcSlot} {actor : LcActor}
    {op i sequence v : UInt64} {b : Bool} (hst : Story l s)
    (h : SlotStep s actor op sequence b v s') (e : LcEntry)
    (hin : e.input = ⟨actor, ⟨op, i, s.incarnation, sequence⟩, b⟩) (hv : e.output.value = v) :
    Story (l ++ [e]) s' := by
  have hact : e.input.actor = actor := by rw [hin]
  have hop : LcEntry.op e = op := by simp only [LcEntry.op, hin]
  have hinc : incarnation e = s.incarnation := by simp only [incarnation, hin]
  have hseq : LcEntry.sequence e = sequence := by simp only [LcEntry.sequence, hin]
  clear hin
  cases h with
  | started b hs =>
    obtain ⟨inc, state, n, p, rfl, hl⟩ := hst.running (by simp [hs])
    cases hl with
    | starting r hr => exact .live (.ready r e hr ⟨hop, hinc⟩)
    | _ => simp at hs
  | activate hs =>
    obtain ⟨inc, state, n, p, rfl, hl⟩ := hst.running (by simp [hs])
    cases hl with
    | ready r s hr hs' => exact .live (.active r s e hr hs' ⟨hop, hinc⟩ .nil)
    | _ => simp at hs
  | begin b hs hp hm =>
    obtain ⟨inc, state, n, p, rfl, hl⟩ := hst.running (by simp [hs])
    cases hl with
    | active r s a hr hs' ha hw =>
      simp only at hp
      subst hp
      exact .live (.active r s a hr hs' ha (.begin hw hm e hop hinc hv))
    | _ => simp at hs
  | complete b hs hp =>
    obtain ⟨inc, state, n, p, rfl, hl⟩ := hst.running (by simp [hs])
    cases hl with
    | active r s a hr hs' ha hw =>
      -- the pending ticket is the last one issued
      obtain rfl := hw.pending.resolve_left hp
      exact .live (.active r s a hr hs' ha (.complete hw hp e hop hinc hseq))
    | _ => simp at hs
  | contain b actor hs ha =>
    obtain ⟨inc, state, n, p, rfl, hl⟩ := hst.running hs
    exact .closing hl e ⟨hop, hinc⟩
  | stopped b hs h0 =>
    have he : Stops s.incarnation s.issued e := ⟨hact, hop, hinc, hseq⟩
    cases hst with
    | closing hl c hc => simpa using Story.stopped hl c e hc he
    | drained hl c d hc hd => simpa using Story.retired hl c d e hc (Or.inr ⟨hd, he⟩)
    | live hl =>
      have hle := hl.state.2
      simp only at hs
      simp [hs] at hle
    | stopped => simp at h0
    | _ => simp [LcSlot.zero] at hs
  | drained b hs h0 =>
    have he : Drains s.incarnation s.issued e := ⟨hact, hop, hinc, hseq⟩
    cases hst with
    | closing hl c hc => simpa using Story.drained hl c e hc he
    | stopped hl c d hc hd => simpa using Story.retired hl c d e hc (Or.inl ⟨hd, he⟩)
    | live hl =>
      have hle := hl.state.2
      simp only at hs
      simp [hs] at hle
    | drained => simp at h0
    | _ => simp [LcSlot.zero] at hs

/-! ### Every run tells a story -/

/-- The successful reservations, oldest first. -/
def reservations (h : List LcEntry) : List LcEntry := h.filter fun e => ok e ∧ op e = LcOp.reserve

/-- What history and state have in common: each slot has its story, and the incarnations handed out
so far go up to the last one. -/
structure Told (h : List LcEntry) (life : Lifecycle) : Prop where
  lcOk : LcOk life
  story : ∀ i < slotCount, Story (accepted i h) (life.at i)
  below : ∀ e ∈ reservations h, e.output.value ≤ life.lastIncarnation
  increasing : (reservations h).Pairwise fun a b => a.output.value < b.output.value

theorem told_zero : Told [] Lifecycle.zero where
  lcOk := (lcValid_iff _).mp (by decide)
  story _ _ := .unused
  below e he := by simp [reservations] at he
  increasing := by simp [reservations]

theorem accepted_snoc (i : UInt64) (h : List LcEntry) (e : LcEntry) :
    accepted i (h ++ [e]) = if ok e ∧ slot e = i then accepted i h ++ [e] else accepted i h := by
  simp only [accepted, Run.filter_snoc, decide_eq_true_eq]

theorem reservations_snoc (h : List LcEntry) (e : LcEntry) :
    reservations (h ++ [e]) =
      if ok e ∧ op e = LcOp.reserve then reservations h ++ [e] else reservations h := by
  simp only [reservations, Run.filter_snoc, decide_eq_true_eq]

theorem slotIx_inj {i j : UInt64} (hi : i < slotCount) (hj : j < slotCount)
    (h : slotIx i = slotIx j) : i = j := by
  rw [← UInt64.toNat_inj, ← slotIx_val hi, ← slotIx_val hj, h]

theorem Lifecycle.at_set (life : Lifecycle) (i : UInt64) (s : LcSlot) : (life.set i s).at i = s :=
  Lifecycle.set_slots_self life i s

theorem Lifecycle.at_set_ne (life : Lifecycle) {i j : UInt64} (hi : i < slotCount)
    (hj : j < slotCount) (h : j ≠ i) (s : LcSlot) : (life.set i s).at j = life.at j :=
  Lifecycle.set_slots_of_ne life (fun he => h (slotIx_inj hj hi he)) s

theorem LcStep.lastIncarnation_le {life life' : Lifecycle} {actor : LcActor} {e : LcEvent}
    {v : UInt64} {b : Bool} (h : LcStep life actor e b v life') :
    life.lastIncarnation ≤ life'.lastIncarnation := by
  rw [UInt64.le_iff_toNat_le]
  have := h.lastIncarnation
  omega

/-- A reservation returns the new last incarnation. -/
theorem LcStep.reserved {life life' : Lifecycle} {actor : LcActor} {e : LcEvent} {v : UInt64}
    {b : Bool} (h : LcStep life actor e b v life') (hop : e.op = LcOp.reserve) :
    life'.lastIncarnation = v ∧ life.lastIncarnation < v := by
  cases h with
  | reserve i hi hs hfree hm => exact ⟨rfl, by grind⟩
  | slot i hi hn hs => cases hs <;> simp at hop

theorem LcStep.free {life life' : Lifecycle} {actor : LcActor} {e : LcEvent} {v : UInt64}
    {b : Bool} (h : LcStep life actor e b v life') (hop : e.op = LcOp.reserve) (i : Fin 2) :
    (life.slots i).occupied = false := by
  cases h with
  | reserve i hi hs hfree hm => exact hfree _
  | slot i hi hn hs => cases hs <;> simp at hop

/-- Only a reservation carries no incarnation. -/
theorem LcStep.incarnation_eq_zero_iff {life life' : Lifecycle} {actor : LcActor} {e : LcEvent}
    {v : UInt64} {b : Bool} (h : LcStep life actor e b v life') :
    e.incarnation = 0 ↔ e.op = LcOp.reserve := by
  cases h with
  | reserve i hi hs hfree hm => simp
  | slot i hi hn hs =>
    refine iff_of_false hn ?_
    cases hs <;> simp

/-- An accepted event continues the story of its slot and leaves the other's. -/
theorem Told.of_lcStep {h : List LcEntry} {life life' : Lifecycle} {v : UInt64} (ht : Told h life)
    (e : LcEntry) (hs : LcStep life e.input.actor e.input.event e.input.auditOk v life')
    (hout : e.output = ⟨LcStatus.ok, v⟩) : Told (h ++ [e]) life' := by
  have hok : ok e := by simp [ok, hout]
  have hval : e.output.value = v := by rw [hout]
  obtain ⟨pre, ⟨actor, event, b⟩, output, post⟩ := e
  refine ⟨hs.lcOk ht.lcOk, fun j hj => ?_, ?_, ?_⟩
  · rw [accepted_snoc]
    cases hs with
    | reserve i hi hs hfree hm =>
      by_cases hji : j = i
      · subst hji
        rw [if_pos ⟨hok, rfl⟩, Lifecycle.at_set]
        have hz : life.at j = LcSlot.zero := (ht.lcOk.slots _).unused hs
        rw [(ht.story j hj).eq_nil hs, hz]
        exact .live (.starting _ ⟨rfl, hval⟩)
      · rw [if_neg (fun hc => hji hc.2.symm), Lifecycle.at_set_ne _ hi hj hji]
        exact ht.story j hj
    | slot i hi hn hs =>
      by_cases hji : j = i
      · subst hji
        rw [if_pos ⟨hok, rfl⟩, Lifecycle.at_set]
        exact (ht.story j hj).slotStep hs _ rfl hval
      · rw [if_neg (fun hc => hji hc.2.symm), Lifecycle.at_set_ne _ hi hj hji]
        exact ht.story j hj
  · intro a ha
    rw [reservations_snoc] at ha
    split_ifs at ha with hres
    · rcases List.mem_append.mp ha with ha | ha
      · exact UInt64.le_trans (ht.below a ha) hs.lastIncarnation_le
      · rw [List.mem_singleton.mp ha, hval]
        rw [(hs.reserved hres.2).1]
        exact UInt64.le_refl _
    · exact UInt64.le_trans (ht.below a ha) hs.lastIncarnation_le
  · rw [reservations_snoc]
    split_ifs with hres
    · refine List.pairwise_append.mpr ⟨ht.increasing, by simp, fun a ha b hb => ?_⟩
      rw [List.mem_singleton.mp hb, hval]
      exact UInt64.lt_of_le_of_lt (ht.below a ha) (hs.reserved hres.2).2
    · exact ht.increasing

theorem told_step {h : List LcEntry} {life : Lifecycle} (ht : Told h life) (x : LcCall) :
    Told (h ++ [Run.entry lcCall life x]) (lcCall life x).1 := by
  by_cases hok : (lcApply life x.actor x.event x.auditOk).1.status = LcStatus.ok
  · exact ht.of_lcStep _ (lcStep_of_ok hok).2 (by simp [lcCall, ← hok])
  · -- a refused call is not in the story and leaves the state
    have hn : ¬ ok (Run.entry lcCall life x) := hok
    have hsame : (lcCall life x).1 = life := (lcApply_of_ne hok).2
    rw [hsame]
    refine ⟨ht.lcOk, fun i hi => ?_, ?_, ?_⟩
    · rw [accepted_snoc, if_neg (fun hc => hn hc.1)]
      exact ht.story i hi
    all_goals rw [reservations_snoc, if_neg (fun hc => hn hc.1)]
    · exact ht.below
    · exact ht.increasing

/-- **Every run tells a story.** -/
theorem told_run (xs : List LcCall) : Told (lcTrace xs) (lcRun xs) :=
  Run.trace_induct told_zero (fun _ _ x ht => told_step ht x) xs

/-! ### Reading the story -/

/-- The incarnation an accepted event is about: the one a reservation hands out, else the one the
event carries. -/
def LcEntry.under (e : LcEntry) : UInt64 := if op e = LcOp.reserve then e.output.value else incarnation e

theorem LcEntry.under_of_ne {e : LcEntry} (h : op e ≠ LcOp.reserve) : under e = incarnation e :=
  if_neg h

/-- A begun or completed ticket. -/
abbrev LcEntry.ticket (e : LcEntry) : Prop := op e = LcOp.begin ∨ op e = LcOp.complete

theorem Work.mem {inc n p : UInt64} {l : List LcEntry} (h : Work inc l n p) :
    ∀ e ∈ l, incarnation e = inc ∧ ticket e := by
  induction h with
  | nil => intro e he; cases he
  | begin hw hn e hop hinc hv ih =>
    intro a ha
    rcases List.mem_append.mp ha with ha | ha
    · exact ih a ha
    · rw [List.mem_singleton.mp ha]
      exact ⟨hinc, Or.inl hop⟩
  | complete hw hn e hop hinc hs ih =>
    intro a ha
    rcases List.mem_append.mp ha with ha | ha
    · exact ih a ha
    · rw [List.mem_singleton.mp ha]
      exact ⟨hinc, Or.inr hop⟩

/-- The events before a containment: the reservation, then starts and work under its incarnation. -/
theorem Live.cons {inc state n p : UInt64} {l : List LcEntry} (h : Live inc l state n p) :
    ∃ r mid, l = r :: mid ∧ Reserves inc r ∧ ∀ e ∈ mid, incarnation e = inc ∧
      (op e = LcOp.started ∨ op e = LcOp.activate ∨ op e = LcOp.begin ∨ op e = LcOp.complete) := by
  cases h with
  | starting r hr => exact ⟨r, [], rfl, hr, by simp⟩
  | ready r s hr hs => exact ⟨r, [s], rfl, hr, by simpa using ⟨hs.2, Or.inl hs.1⟩⟩
  | active r s a hr hs ha hw =>
    refine ⟨r, s :: a :: _, rfl, hr, fun e he => ?_⟩
    rcases List.mem_cons.mp he with rfl | he
    · exact ⟨hs.2, Or.inl hs.1⟩
    rcases List.mem_cons.mp he with rfl | he
    · exact ⟨ha.2, Or.inr (Or.inl ha.1)⟩
    · obtain ⟨hi, ho⟩ := hw.mem e he
      exact ⟨hi, Or.inr (Or.inr ho)⟩

/-- The tickets among the events before a containment. -/
theorem Live.work {inc state n p : UInt64} {l : List LcEntry} (h : Live inc l state n p) :
    Work inc (l.filter fun e => ticket e) n p := by
  cases h with
  | starting r hr => simpa [ticket, hr.1] using Work.nil
  | ready r s hr hs => simpa [ticket, hr.1, hs.1] using Work.nil
  | @active r s a hr hs ha w n p hw =>
    have hself : w.filter (fun e => ticket e) = w :=
      List.filter_eq_self.mpr fun e he => by simpa using (hw.mem e he).2
    have hskip : (r :: s :: a :: w).filter (fun e => ticket e) = w.filter fun e => ticket e := by
      simp [ticket, hr.1, hs.1, ha.1]
    rw [hskip, hself]
    exact hw

/-- What a story consists of: the events up to a containment, and the containment with its
confirmations. -/
theorem Story.parts {l : List LcEntry} {s : LcSlot} (h : Story l s) (hne : l ≠ []) :
    ∃ state p l₁ l₂, l = l₁ ++ l₂ ∧ Live s.incarnation l₁ state s.issued p ∧
      (l₂ = [] ∨ ∃ c l₃, l₂ = c :: l₃ ∧ Contains s.incarnation c ∧
        ∀ e ∈ l₃, Stops s.incarnation s.issued e ∨ Drains s.incarnation s.issued e) := by
  cases h with
  | unused => exact absurd rfl hne
  | live hl => exact ⟨_, _, l, [], by simp, hl, Or.inl rfl⟩
  | closing hl c hc => exact ⟨_, _, _, [c], rfl, hl, Or.inr ⟨c, [], rfl, hc, by simp⟩⟩
  | stopped hl c e hc he => exact ⟨_, _, _, [c, e], rfl, hl, Or.inr ⟨c, [e], rfl, hc, by simp [he]⟩⟩
  | drained hl c e hc he => exact ⟨_, _, _, [c, e], rfl, hl, Or.inr ⟨c, [e], rfl, hc, by simp [he]⟩⟩
  | retired hl c e₁ e₂ hc he =>
    refine ⟨_, _, _, [c, e₁, e₂], rfl, hl, Or.inr ⟨c, [e₁, e₂], rfl, hc, ?_⟩⟩
    rcases he with ⟨h1, h2⟩ | ⟨h1, h2⟩ <;> simp [h1, h2]

theorem Story.eq_zero {l : List LcEntry} {s : LcSlot} (h : Story l s) (hl : l = []) :
    s = LcSlot.zero := by
  cases h with
  | unused => rfl
  | live h =>
    obtain ⟨r, mid, rfl, -⟩ := h.cons
    cases hl
  | _ => simp at hl

/-- The events of a slot are about its incarnation. -/
theorem Story.under {l : List LcEntry} {s : LcSlot} (h : Story l s) :
    ∀ e ∈ l, under e = s.incarnation := by
  intro e he
  obtain ⟨state, p, l₁, l₂, rfl, hl, htail⟩ := h.parts (List.ne_nil_of_mem he)
  rcases List.mem_append.mp he with he | he
  · obtain ⟨r, mid, rfl, hr, hmid⟩ := hl.cons
    rcases List.mem_cons.mp he with rfl | he
    · rw [LcEntry.under, if_pos hr.1, hr.2]
    · obtain ⟨hi, ho⟩ := hmid e he
      rw [under_of_ne (by rcases ho with ho | ho | ho | ho <;> simp [ho]), hi]
  · rcases htail with rfl | ⟨c, l₃, rfl, hc, hl₃⟩
    · cases he
    rcases List.mem_cons.mp he with rfl | he
    · rw [under_of_ne (by simp [hc.1]), hc.2]
    · rcases hl₃ e he with h | h <;> rw [under_of_ne (by simp [h.2.1]), h.2.2.1]

/-- After a containment there are only confirmations. -/
theorem Story.after_contain {l : List LcEntry} {s : LcSlot} (h : Story l s) :
    l.Pairwise fun a b => op a = LcOp.contain → op b = LcOp.stopped ∨ op b = LcOp.drained := by
  by_cases hne : l = []
  · simp [hne]
  obtain ⟨state, p, l₁, l₂, rfl, hl, htail⟩ := h.parts hne
  have hno : ∀ a ∈ l₁, op a ≠ LcOp.contain := by
    obtain ⟨r, mid, rfl, hr, hmid⟩ := hl.cons
    intro a ha
    rcases List.mem_cons.mp ha with rfl | ha
    · simp [hr.1]
    · rcases (hmid a ha).2 with ho | ho | ho | ho <;> simp [ho]
  refine List.pairwise_append.mpr ⟨?_, ?_, fun a ha b _ hc => absurd hc (hno a ha)⟩
  · exact List.Pairwise.imp_of_mem (fun ha _ _ hc => absurd hc (hno _ ha))
      (List.pairwise_of_forall (R := fun _ _ => True) fun _ _ => trivial)
  · rcases htail with rfl | ⟨c, l₃, rfl, hc, hl₃⟩
    · simp
    have hconf : ∀ e ∈ l₃, op e = LcOp.stopped ∨ op e = LcOp.drained := fun e he =>
      (hl₃ e he).imp (·.2.1) (·.2.1)
    refine List.pairwise_cons.mpr ⟨fun b hb _ => hconf b hb, ?_⟩
    exact List.pairwise_of_forall_mem_list fun a ha b hb _ => hconf b hb

theorem Story.reserve_once {l : List LcEntry} {s : LcSlot} (h : Story l s) :
    (l.filter fun e => op e = LcOp.reserve).length ≤ 1 := by
  by_cases hne : l = []
  · simp [hne]
  obtain ⟨state, p, l₁, l₂, rfl, hl, htail⟩ := h.parts hne
  obtain ⟨r, mid, rfl, hr, hmid⟩ := hl.cons
  have hnot : ∀ e ∈ mid ++ l₂, op e ≠ LcOp.reserve := by
    intro e he
    rcases List.mem_append.mp he with he | he
    · rcases (hmid e he).2 with ho | ho | ho | ho <;> simp [ho]
    · rcases htail with rfl | ⟨c, l₃, rfl, hc, hl₃⟩
      · cases he
      rcases List.mem_cons.mp he with rfl | he
      · simp [hc.1]
      · rcases hl₃ e he with h | h <;> simp [h.2.1]
  have hnil : (mid ++ l₂).filter (fun e => op e = LcOp.reserve) = [] :=
    List.filter_eq_nil_iff.mpr fun e he => by simpa using hnot e he
  rw [List.cons_append, List.filter_cons_of_pos (by simpa using hr.1), hnil]
  simp

/-- The tickets of a slot are the work of its incarnation. -/
theorem Story.work {l : List LcEntry} {s : LcSlot} (h : Story l s) :
    ∃ p, Work s.incarnation (l.filter fun e => ticket e) s.issued p := by
  by_cases hne : l = []
  · rw [hne, h.eq_zero hne]
    exact ⟨0, .nil⟩
  obtain ⟨state, p, l₁, l₂, rfl, hl, htail⟩ := h.parts hne
  have hnil : l₂.filter (fun e => ticket e) = [] := by
    refine List.filter_eq_nil_iff.mpr fun e he => ?_
    rcases htail with rfl | ⟨c, l₃, rfl, hc, hl₃⟩
    · cases he
    rcases List.mem_cons.mp he with rfl | he
    · simp [ticket, hc.1]
    · rcases hl₃ e he with h | h <;> simp [ticket, h.2.1]
  rw [List.filter_append, hnil, List.append_nil]
  exact ⟨p, hl.work⟩

/-- Tickets are begun and completed in turn, numbered from one. -/
theorem Work.numbered {inc n p : UInt64} {l : List LcEntry} (h : Work inc l n p) :
    (if p = 0 then l.length = 2 * n.toNat else l.length + 1 = 2 * n.toNat) ∧
      ∀ k e, l[k]? = some e → (k % 2 = 0 → op e = LcOp.begin ∧ e.output.value.toNat = k / 2 + 1) ∧
        (k % 2 = 1 → op e = LcOp.complete ∧ (sequence e).toNat = k / 2 + 1) := by
  induction h with
  | nil => simp
  | @begin l n hw hn e hop hinc hv ih =>
    obtain ⟨hlen, hget⟩ := ih
    rw [if_pos rfl] at hlen
    have hsucc := Word.toNat_succ hn
    have hpos : n + 1 ≠ 0 := by rw [Ne, ← Word.toNat_eq_zero, hsucc]; omega
    refine ⟨by rw [if_neg hpos, List.length_append, hlen, hsucc]; simp; omega, fun k a ha => ?_⟩
    rcases Run.getElem?_snoc ha with ha | ⟨rfl, rfl⟩
    · exact hget k a ha
    · exact ⟨fun _ => ⟨hop, by rw [hv, hsucc]; omega⟩, fun h1 => by omega⟩
  | @complete l n hw hn e hop hinc hs ih =>
    obtain ⟨hlen, hget⟩ := ih
    rw [if_neg hn] at hlen
    refine ⟨by rw [if_pos rfl, List.length_append]; simpa using hlen, fun k a ha => ?_⟩
    rcases Run.getElem?_snoc ha with ha | ⟨rfl, rfl⟩
    · exact hget k a ha
    · exact ⟨fun h1 => by omega, fun _ => ⟨hop, by rw [hs]; omega⟩⟩

theorem Work.begins {inc n p : UInt64} {l : List LcEntry} (h : Work inc l n p) :
    (l.filter fun e => op e = LcOp.begin).length = n.toNat := by
  induction h with
  | nil => simp
  | begin hw hn e hop hinc hv ih => rw [Run.filter_snoc, if_pos (by simpa using hop),
      List.length_append, ih, Word.toNat_succ hn, List.length_singleton]
  | complete hw hn e hop hinc hs ih => rw [Run.filter_snoc, if_neg (by simp [hop]), ih]

/-- Completed tickets carry increasing sequences, below the pending one. -/
theorem Work.completes {inc n p : UInt64} {l : List LcEntry} (h : Work inc l n p) :
    (∀ e ∈ l, op e = LcOp.complete → sequence e ≤ n ∧ (p ≠ 0 → sequence e < n)) ∧
      l.Pairwise fun a b => op a = LcOp.complete → op b = LcOp.complete → sequence a < sequence b := by
  induction h with
  | nil => simp
  | @begin l n hw hn e hop hinc hv ih =>
    obtain ⟨hb, hp⟩ := ih
    refine ⟨fun a ha hc => ?_, List.pairwise_append.mpr ⟨hp, by simp, fun a _ b hb' _ hc => ?_⟩⟩
    · rcases List.mem_append.mp ha with ha | ha
      · have hle := (hb a ha hc).1
        exact ⟨by grind, fun _ => by grind⟩
      · rw [List.mem_singleton.mp ha, hop] at hc
        simp at hc
    · rw [List.mem_singleton.mp hb', hop] at hc
      simp at hc
  | @complete l n hw hn e hop hinc hs ih =>
    obtain ⟨hb, hp⟩ := ih
    refine ⟨fun a ha hc => ?_, List.pairwise_append.mpr ⟨hp, by simp, fun a ha b hb' hc _ => ?_⟩⟩
    · rcases List.mem_append.mp ha with ha | ha
      · exact ⟨(hb a ha hc).1, fun h0 => absurd rfl h0⟩
      · rw [List.mem_singleton.mp ha, hs]
        exact ⟨UInt64.le_refl _, fun h0 => absurd rfl h0⟩
    · rw [List.mem_singleton.mp hb', hs]
      exact (hb a ha hc).2 hn

/-! ### Over whole runs -/

section Run

variable {xs : List LcCall}

theorem mem_accepted {e : LcEntry} (he : e ∈ lcTrace xs) (hok : ok e) :
    slot e < slotCount ∧ e ∈ accepted (slot e) (lcTrace xs) := by
  refine ⟨?_, List.mem_filter.mpr ⟨he, by simpa using hok⟩⟩
  obtain ⟨xs₁, x, -, -, rfl⟩ := Run.mem_trace he
  exact (lcStep_of_ok hok).2.guards.1

theorem accepted_eq_nil {i : UInt64} (hi : ¬ i < slotCount) : accepted i (lcTrace xs) = [] := by
  refine List.filter_eq_nil_iff.mpr fun e he h => hi ?_
  obtain ⟨hok, rfl⟩ := of_decide_eq_true h
  exact (mem_accepted he hok).1

theorem incarnation_eq_zero_iff {e : LcEntry} (he : e ∈ lcTrace xs) (hok : ok e) :
    incarnation e = 0 ↔ op e = LcOp.reserve := by
  obtain ⟨xs₁, x, -, -, rfl⟩ := Run.mem_trace he
  exact (lcStep_of_ok hok).2.incarnation_eq_zero_iff

theorem under_eq {e : LcEntry} (he : e ∈ lcTrace xs) (hok : ok e) :
    under e = ((lcRun xs).at (slot e)).incarnation ∧
      ((lcRun xs).at (slot e)).state ≠ LcState.unused := by
  obtain ⟨hs, hmem⟩ := mem_accepted he hok
  have hst := (told_run xs).story _ hs
  refine ⟨hst.under e hmem, fun h0 => ?_⟩
  rw [hst.eq_nil h0] at hmem
  cases hmem

/-- No incarnation is shared: an event about the incarnation of slot `i` is an event of slot `i`. -/
theorem slot_eq {e : LcEntry} (he : e ∈ lcTrace xs) (hok : ok e) {i : UInt64} (hi : i < slotCount)
    (h : under e = ((lcRun xs).at i).incarnation) : slot e = i := by
  obtain ⟨h1, h2⟩ := under_eq he hok
  by_contra hne
  refine (told_run xs).lcOk.distinct _ _ (fun heq => hne ?_) h2 (h1.symm.trans h)
  exact slotIx_inj (mem_accepted he hok).1 hi heq

theorem slot_eq_of_under {a b : LcEntry} (ha : a ∈ lcTrace xs) (hb : b ∈ lcTrace xs) (hoa : ok a)
    (hob : ok b) (h : under a = under b) : slot a = slot b :=
  slot_eq ha hoa (mem_accepted hb hob).1 (h.trans (under_eq hb hob).1)

/-- Two accepted events of one slot, in their order. -/
theorem sublist_accepted {a b : LcEntry} (h : [a, b].Sublist (lcTrace xs)) (hoa : ok a) (hob : ok b)
    (hslot : slot a = slot b) : [a, b].Sublist (accepted (slot b) (lcTrace xs)) := by
  have hf := h.filter fun e => ok e ∧ slot e = slot b
  have hself : [a, b].filter (fun e => ok e ∧ slot e = slot b) = [a, b] := by
    refine List.filter_eq_self.mpr fun e he => decide_eq_true ?_
    rcases List.mem_pair.mp he with rfl | rfl
    · exact ⟨hoa, hslot⟩
    · exact ⟨hob, rfl⟩
  rwa [hself] at hf

/-- The successful `BEGIN`s of an incarnation, on whichever slot. -/
def begins (inc : UInt64) (h : List LcEntry) : List LcEntry :=
  h.filter fun e => ok e ∧ op e = LcOp.begin ∧ incarnation e = inc

/-- They are those of the slot that has the incarnation. -/
theorem begins_length {i : UInt64} (hi : i < slotCount) :
    (begins ((lcRun xs).at i).incarnation (lcTrace xs)).length =
      ((lcRun xs).at i).issued.toNat := by
  obtain ⟨p, hw⟩ := ((told_run xs).story i hi).work
  rw [← hw.begins]
  congr 1
  rw [begins, accepted, List.filter_filter, List.filter_filter]
  refine List.filter_congr fun e he => ?_
  rw [Bool.eq_iff_iff]
  simp only [Bool.and_eq_true, decide_eq_true_eq]
  constructor
  · rintro ⟨hok, hop, hinc⟩
    have hu : under e = ((lcRun xs).at i).incarnation := by
      rw [under_of_ne (by simp [hop]), hinc]
    exact ⟨⟨hop, Or.inl hop⟩, hok, slot_eq he hok hi hu⟩
  · rintro ⟨⟨hop, -⟩, hok, rfl⟩
    exact ⟨hok, hop, by rw [← (under_eq he hok).1, under_of_ne (by simp [hop])]⟩

/-- **A replacement needs both confirmations.** -/
theorem replaced_of_reserve {x : LcCall} (hop : x.event.op = LcOp.reserve)
    (hok : (lcApply (lcRun xs) x.actor x.event x.auditOk).1.status = LcStatus.ok) {j : UInt64}
    (hj : j ≠ x.event.slot) (hr : ∃ r ∈ accepted j (lcTrace xs), op r = LcOp.reserve) :
    ∃ inc n r mid c e₁ e₂, accepted j (lcTrace xs) = r :: mid ++ [c, e₁, e₂] ∧ Reserves inc r ∧
      (∀ e ∈ mid, incarnation e = inc ∧ (op e = LcOp.started ∨ op e = LcOp.activate ∨
        op e = LcOp.begin ∨ op e = LcOp.complete)) ∧ Contains inc c ∧
      ((Stops inc n e₁ ∧ Drains inc n e₂) ∨ (Drains inc n e₁ ∧ Stops inc n e₂)) ∧
      n.toNat = (begins inc (lcTrace xs)).length := by
  obtain ⟨r, hr, hrop⟩ := hr
  obtain ⟨hrt, hrs⟩ := List.mem_filter.mp hr
  obtain ⟨hrok, rfl⟩ := of_decide_eq_true hrs
  have hlt := (mem_accepted hrt hrok).1
  have hst := (told_run xs).story _ hlt
  have hbegins := @begins_length xs _ hlt
  have hused := (under_eq hrt hrok).2
  -- a reservation needs the other slot out of use, so it is retired
  have hfree := (lcStep_of_ok hok).2.free hop
  have hret : ((lcRun xs).at (slot r)).state = LcState.retired := by
    have := hfree (slotIx (slot r))
    simp only [LcSlot.occupied, decide_eq_false_iff_not, not_and, not_not] at this
    exact this hused
  generalize (lcRun xs).at (slot r) = s at hst hret hbegins
  generalize accepted (slot r) (lcTrace xs) = l at hst ⊢
  cases hst with
  | retired hl c e₁ e₂ hc he =>
    obtain ⟨r, mid, rfl, hres, hmid⟩ := hl.cons
    exact ⟨_, _, r, mid, c, e₁, e₂, rfl, hres, hmid, hc, he, hbegins.symm⟩
  | live hl =>
    have hle := hl.state.2
    simp only at hret
    simp [hret] at hle
  | _ => simp [LcSlot.zero] at hret

/-- The gate is open on the stories that end in work. -/
theorem allows_iff {i inc : UInt64} :
    lcAllows (lcRun xs) i inc = true ↔ ∃ r s a work, accepted i (lcTrace xs) = r :: s :: a :: work ∧
      op r = LcOp.reserve ∧ r.output.value = inc ∧ op s = LcOp.started ∧ op a = LcOp.activate ∧
      ∀ e ∈ work, op e = LcOp.begin ∨ op e = LcOp.complete := by
  have hvalid : lcValid (lcRun xs) = true := (lcValid_iff _).mpr (told_run xs).lcOk
  simp only [lcAllows, hvalid, true_and, decide_eq_true_eq]
  constructor
  · rintro ⟨hi, -, hact, rfl⟩
    have hst := (told_run xs).story i hi
    generalize (lcRun xs).at i = s at hst hact ⊢
    generalize accepted i (lcTrace xs) = l at hst ⊢
    cases hst with
    | live hl =>
      cases hl with
      | active r s a hr hs ha hw =>
        exact ⟨r, s, a, _, rfl, hr.1, hr.2, hs.1, ha.1, fun e he => (hw.mem e he).2⟩
      | _ => simp at hact
    | _ => simp [LcSlot.zero] at hact
  · rintro ⟨r, s, a, work, hacc, hr, hv, hs, ha, hw⟩
    have hi : i < slotCount := by
      by_contra hi
      simp [accepted_eq_nil hi] at hacc
    have hst := (told_run xs).story i hi
    -- a containment would be one of the events
    have hno : ∀ c ∈ accepted i (lcTrace xs), op c ≠ LcOp.contain := by
      intro c hc
      simp only [hacc, List.mem_cons] at hc
      rcases hc with rfl | rfl | rfl | hc
      · simp [hr]
      · simp [hs]
      · simp [ha]
      · rcases hw c hc with h | h <;> simp [h]
    have hinc := ((told_run xs).lcOk.slots (slotIx i)).incarnation
    change ((lcRun xs).at i).state ≠ _ → ((lcRun xs).at i).incarnation ≠ 0 ∧ _ at hinc
    generalize (lcRun xs).at i = t at hst hinc
    generalize accepted i (lcTrace xs) = l at hst hno hacc
    cases hst with
    | unused => cases hacc
    | live hl =>
      cases hl with
      | active r' s' a' hr' hs' ha' hw' =>
        cases hacc
        exact ⟨hi, hv ▸ hr'.2 ▸ (hinc (by simp)).1, rfl, hr'.2.symm.trans hv⟩
      | _ => simp at hacc
    | closing hl c hc => exact absurd hc.1 (hno c (by simp))
    | stopped hl c e hc he => exact absurd hc.1 (hno c (by simp))
    | drained hl c e hc he => exact absurd hc.1 (hno c (by simp))
    | retired hl c e₁ e₂ hc he => exact absurd hc.1 (hno c (by simp))

end Run

/-- **Replacement requires both pieces of evidence.** Over every run from the zeroed lifecycle:

* a reservation accepted while the other slot was ever reserved finds the other slot's accepted
  events complete: its reservation, starts and work under its incarnation, one containment and then
  exactly the supervisor's `STOPPED` and the broker's `DRAINED`, in either order, both carrying the
  number of tickets begun under that incarnation;
* after a containment only the confirmations are accepted under its incarnation;
* a slot is reserved at most once, incarnations are handed out strictly increasing, and events about
  the same incarnation are events of the same slot;
* at most one slot is neither unused nor retired. -/
theorem replacement_needs_evidence (xs : List LcCall) :
    (∀ x : LcCall, x.event.op = LcOp.reserve →
      (lcApply (lcRun xs) x.actor x.event x.auditOk).1.status = LcStatus.ok →
      ∀ j, j ≠ x.event.slot → (∃ r ∈ accepted j (lcTrace xs), op r = LcOp.reserve) →
      ∃ inc n r mid c e₁ e₂, accepted j (lcTrace xs) = r :: mid ++ [c, e₁, e₂] ∧ Reserves inc r ∧
        (∀ e ∈ mid, incarnation e = inc ∧ (op e = LcOp.started ∨ op e = LcOp.activate ∨
          op e = LcOp.begin ∨ op e = LcOp.complete)) ∧ Contains inc c ∧
        ((Stops inc n e₁ ∧ Drains inc n e₂) ∨ (Drains inc n e₁ ∧ Stops inc n e₂)) ∧
        n.toNat = (begins inc (lcTrace xs)).length) ∧
    ((lcTrace xs).Pairwise fun a b => ok a → ok b → op a = LcOp.contain →
      incarnation b = incarnation a → op b = LcOp.stopped ∨ op b = LcOp.drained) ∧
    (∀ j, ((accepted j (lcTrace xs)).filter fun e => op e = LcOp.reserve).length ≤ 1) ∧
    ((reservations (lcTrace xs)).Pairwise fun a b => a.output.value < b.output.value) ∧
    (∀ a ∈ lcTrace xs, ∀ b ∈ lcTrace xs, ok a → ok b → under a = under b → slot a = slot b) ∧
    (∀ i j, ((lcRun xs).slots i).occupied = true → ((lcRun xs).slots j).occupied = true → i = j) := by
  refine ⟨fun x hop hok j hj hr => replaced_of_reserve hop hok hj hr, ?_, fun j => ?_,
    (told_run xs).increasing, fun a ha b hb hoa hob h => slot_eq_of_under ha hb hoa hob h,
    (told_run xs).lcOk.alone⟩
  · refine List.pairwise_iff_forall_sublist.mpr fun {a b} hab hoa hob hc hinc => ?_
    have ha : a ∈ lcTrace xs := hab.subset (by simp)
    have hb : b ∈ lcTrace xs := hab.subset (by simp)
    have hca : op a ≠ LcOp.reserve := by simp [hc]
    have hcb : op b ≠ LcOp.reserve := by
      rwa [Ne, ← incarnation_eq_zero_iff hb hob, hinc, incarnation_eq_zero_iff ha hoa]
    have hslot := slot_eq_of_under ha hb hoa hob (by rw [under_of_ne hca, under_of_ne hcb, hinc])
    have hst := (told_run xs).story _ (mem_accepted hb hob).1
    exact List.pairwise_iff_forall_sublist.mp hst.after_contain
      (sublist_accepted hab hoa hob hslot) hc
  · by_cases hj : j < slotCount
    · exact ((told_run xs).story j hj).reserve_once
    · simp [accepted_eq_nil hj]

/-- **The work gate and the tickets follow the accepted history.** Over every run from the zeroed
lifecycle: the gate is open for `inc` exactly when the slot's accepted events are a reservation that
returned `inc`, a start, an activation and then tickets only; the tickets of a slot are begun and
completed in turn, `BEGIN` returning 1, 2, 3, …, and each `COMPLETE` carrying the incarnation of the
`BEGIN` just before it and the sequence that this returned; no ticket is completed twice. -/
theorem work_follows_history (xs : List LcCall) (i inc : UInt64) :
    (lcAllows (lcRun xs) i inc = true ↔ ∃ r s a work, accepted i (lcTrace xs) = r :: s :: a :: work ∧
      op r = LcOp.reserve ∧ r.output.value = inc ∧ op s = LcOp.started ∧ op a = LcOp.activate ∧
      ∀ e ∈ work, op e = LcOp.begin ∨ op e = LcOp.complete) ∧
    (∀ k e, (tickets i (lcTrace xs))[k]? = some e →
      (k % 2 = 0 → op e = LcOp.begin ∧ e.output.value.toNat = k / 2 + 1) ∧
      (k % 2 = 1 → op e = LcOp.complete ∧ ∃ b, (tickets i (lcTrace xs))[k - 1]? = some b ∧
        op b = LcOp.begin ∧ incarnation e = incarnation b ∧ sequence e = b.output.value)) ∧
    ((lcTrace xs).Pairwise fun a b => ok a → ok b → op a = LcOp.complete → op b = LcOp.complete →
      ¬ (incarnation a = incarnation b ∧ sequence a = sequence b)) := by
  refine ⟨allows_iff, fun k e he => ?_, ?_⟩
  · have hi : i < slotCount := by
      by_contra hi
      simp [tickets, accepted_eq_nil hi] at he
    obtain ⟨p, hw⟩ := ((told_run xs).story i hi).work
    have hnum := hw.numbered.2
    refine ⟨(hnum k e he).1, fun hk => ⟨((hnum k e he).2 hk).1, ?_⟩⟩
    -- the ticket just before a completed one was begun
    have hlt : k - 1 < (tickets i (lcTrace xs)).length := by
      have := (List.getElem?_eq_some_iff.mp he).1
      omega
    have hb := List.getElem?_eq_getElem hlt
    obtain ⟨hop, hv⟩ := (hnum _ _ hb).1 (by omega)
    refine ⟨_, hb, hop, ?_, ?_⟩
    · rw [(hw.mem _ (List.mem_of_getElem? he)).1, (hw.mem _ (List.mem_of_getElem? hb)).1]
    · rw [← UInt64.toNat_inj, hv, ((hnum k e he).2 hk).2]
      omega
  · refine List.pairwise_iff_forall_sublist.mpr ?_
    rintro a b hab hoa hob hca hcb ⟨hinc, hseq⟩
    have ha : a ∈ lcTrace xs := hab.subset (by simp)
    have hb : b ∈ lcTrace xs := hab.subset (by simp)
    have hslot := slot_eq_of_under ha hb hoa hob (by
      rw [under_of_ne (by simp [hca]), under_of_ne (by simp [hcb]), hinc])
    obtain ⟨p, hw⟩ := ((told_run xs).story _ (mem_accepted hb hob).1).work
    have hlt := List.pairwise_iff_forall_sublist.mp (List.pairwise_filter.mp hw.completes.2)
      (sublist_accepted hab hoa hob hslot) (by simp [hca]) (by simp [hcb]) hca hcb
    rw [hseq] at hlt
    exact UInt64.lt_irrefl _ hlt

end Tcs
