/-
# No work after expiry

Runs of `tcs_dl_poll` and `tcs_dl_apply` from the zeroed owner. Two things
carry the argument. An inhibit bit, a clock fault, the last accepted tick
and an end never go back (`Kept`), and the event of a call that finds its
slot's bit set is refused, so a successful event shows that the bit is clear
after its call (`clear_of_worked`, `clear_of_reserved`); a clear bit shows
in turn that the call's reading was good and before the end
(`clear_reading`).

Key definitions: `DlCall`, `dlCall`, `Reserved`, `Worked`, `Kept`.
Key theorems: `dlCall_cases`, `clear_reading`, `endTold_run`,
`no_work_after_expiry`.
-/
import Tcs.Deadline

namespace Tcs

/-! ### Runs -/

/-- A call on the owner. -/
inductive DlCall
  | poll (requests : UInt64) (reading : Reading)
  | apply (requests : UInt64) (reading : Reading) (actor : LcActor) (event : LcEvent)
    (auditOk : Bool) (duration : UInt64)
  deriving DecidableEq, Repr

/-- What a call answers. -/
inductive DlReply
  | polled (status : DlStatus)
  | applied (result : LcResult)
  deriving DecidableEq, Repr

def DlCall.requests : DlCall → UInt64
  | .poll requests _ => requests
  | .apply requests _ _ _ _ _ => requests

def DlCall.reading : DlCall → Reading
  | .poll _ reading => reading
  | .apply _ reading _ _ _ _ => reading

/-- The duration of a call; a poll has none. -/
def DlCall.duration : DlCall → UInt64
  | .poll _ _ => 0
  | .apply _ _ _ _ _ duration => duration

/-- One call on the owner. -/
def dlCall (owner : Deadline) : DlCall → Deadline × DlReply
  | .poll requests reading =>
    ((dlPoll owner requests reading).2, .polled (dlPoll owner requests reading).1)
  | .apply requests reading actor event auditOk duration =>
    ((dlApply owner requests reading actor event auditOk duration).2,
      .applied (dlApply owner requests reading actor event auditOk duration).1)

abbrev DlEntry := Run.Entry Deadline DlCall DlReply

/-- The owner after the calls, from zero. -/
def dlRun (xs : List DlCall) : Deadline := Run.final dlCall Deadline.zero xs

/-- The history of the calls, from zero. -/
def dlTrace (xs : List DlCall) : List DlEntry := Run.trace dlCall Deadline.zero xs

namespace DlEntry

/-- The reading of the call. -/
abbrev reading (e : DlEntry) : Reading := e.input.reading

/-- The event of the call, if it succeeded. -/
def succeeded (e : DlEntry) : Option LcEvent :=
  match e.input, e.output with
  | .apply _ _ _ event _ _, .applied result =>
    if result.status = LcStatus.ok then some event else none
  | _, _ => none

/-- A successful `RESERVE` of slot `i`. -/
def Reserved (i : Fin 2) (e : DlEntry) : Prop :=
  ∃ event, succeeded e = some event ∧ event.slot.toNat = i ∧ event.op = LcOp.reserve

/-- A successful `STARTED`, `ACTIVATE`, `BEGIN` or `COMPLETE` on slot `i`. -/
def Worked (i : Fin 2) (e : DlEntry) : Prop :=
  ∃ event, succeeded e = some event ∧ event.slot.toNat = i ∧
    (event.op = LcOp.started ∨ event.op = LcOp.activate ∨ event.op = LcOp.begin ∨
      event.op = LcOp.complete)

/-- Slot `i` is inhibited after the call. -/
def inhibits (i : Fin 2) (e : DlEntry) : Bool := Word.hasBit e.post.control.inhibited i

end DlEntry

open DlEntry

/-! ### One call -/

/-- What the poll of a call leaves. -/
abbrev Deadline.polled (owner : Deadline) (x : DlCall) : Deadline :=
  owner.observe x.requests x.reading

/-- **A call is its poll, followed by an event of the lifecycle's table or by nothing.** -/
theorem dlCall_cases {owner : Deadline} (h : DlOk owner) (x : DlCall) :
    ((dlCall owner x).1 = owner.polled x ∧ succeeded (Run.entry dlCall owner x) = none) ∨
    ∃ actor event b v life', succeeded (Run.entry dlCall owner x) = some event ∧
      badDuration (owner.polled x) event x.duration = false ∧
      ¬ (owner.polled x).control.denies event ∧
      LcStep (owner.polled x).control.life actor event b v life' ∧
      (dlCall owner x).1 = (owner.polled x).accept event x.duration life' := by
  cases x with
  | poll requests reading =>
    refine Or.inl ⟨?_, rfl⟩
    simp only [dlCall, dlPoll_eq h]
    rfl
  | apply requests reading actor event b duration =>
    by_cases hok : (dlApply owner requests reading actor event b duration).1.status = LcStatus.ok
    · obtain ⟨hd, hn, v, life', hs, heq⟩ := dlApply_of_ok h hok
      refine Or.inr ⟨actor, event, b, v, life', if_pos hok, hd, hn, hs, ?_⟩
      simp only [dlCall, heq]
      rfl
    · exact Or.inl ⟨dlApply_of_ne h hok, if_neg hok⟩

theorem LcStep.live_of_work {life life' : Lifecycle} {actor : LcActor} {e : LcEvent} {v : UInt64}
    {b : Bool} (h : LcStep life actor e b v life') (hop : e.op = LcOp.started ∨
      e.op = LcOp.activate ∨ e.op = LcOp.begin ∨ e.op = LcOp.complete) :
    (life.slots (slotIx e.slot)).live = true := by
  rw [LcSlot.live_iff]
  cases h with
  | reserve i hi hs hfree hm => simp at hop
  | slot i hi hn hs =>
    change LcState.starting ≤ (life.at i).state ∧ (life.at i).state ≤ LcState.active
    cases hs <;> first | (simp at hop; done) | grind

section Call

variable {owner : Deadline} {x : DlCall} {i : Fin 2}

theorem dlOk_call (h : DlOk owner) (x : DlCall) : DlOk (dlCall owner x).1 := by
  cases x with
  | poll requests reading => simp only [dlCall, dlPoll_eq h]; exact h.observe _ _
  | apply => exact h.dlApply

/-- The event changes neither the mask nor the clock. -/
theorem dlCall_clock (h : DlOk owner) (x : DlCall) :
    (dlCall owner x).1.control.inhibited = (owner.polled x).control.inhibited ∧
      (dlCall owner x).1.lastTick = (owner.polled x).lastTick ∧
      (dlCall owner x).1.clockFault = (owner.polled x).clockFault := by
  rcases dlCall_cases h x with ⟨heq, -⟩ | ⟨actor, event, b, v, life', -, -, -, -, heq⟩ <;> rw [heq]
  · exact ⟨rfl, rfl, rfl⟩
  · exact ⟨rfl, rfl, rfl⟩

/-- What never goes back. -/
structure Kept (a b : Deadline) : Prop where
  inhibited : ∀ i : Fin 2, Word.hasBit a.control.inhibited i = true →
    Word.hasBit b.control.inhibited i = true
  lastTick : a.lastTick ≤ b.lastTick
  ends : ∀ i, a.ends i ≠ 0 → b.ends i = a.ends i

theorem Kept.refl (a : Deadline) : Kept a a := ⟨fun _ h => h, UInt64.le_refl _, fun _ _ => rfl⟩

theorem Kept.trans {a b c : Deadline} (h : Kept a b) (h' : Kept b c) : Kept a c where
  inhibited i hi := h'.inhibited i (h.inhibited i hi)
  lastTick := UInt64.le_trans h.lastTick h'.lastTick
  ends i hi := by rw [h'.ends i (by rwa [h.ends i hi]), h.ends i hi]

theorem ends_of_reserved (h : DlOk owner) (hr : Reserved i (Run.entry dlCall owner x)) :
    owner.ends i = 0 ∧ x.duration ≠ 0 ∧
      ((dlCall owner x).1.ends i).toNat = (owner.polled x).lastTick.toNat + x.duration.toNat := by
  obtain ⟨event, hsucc, hslot, hop⟩ := hr
  rcases dlCall_cases h x with ⟨-, hnone⟩ | ⟨actor, event', b, v, life', hsome, hd, hn, hs, heq⟩
  · rw [hnone] at hsucc; cases hsucc
  · obtain rfl : event' = event := by simpa [hsome] using hsucc
    have hi : slotIx event'.slot = i := Fin.ext (by rw [slotIx_val hs.guards.1, hslot])
    simp only [badDuration, if_pos hop, decide_eq_false_iff_not, not_or] at hd
    have hunused : ((owner.polled x).control.life.slots i).state = LcState.unused := by
      cases hs with
      | reserve j hj hs => rwa [← hi]
      | slot j hj hn hs => cases hs <;> simp at hop
    refine ⟨((h.observe _ _).used i).mp hunused, hd.1, ?_⟩
    rw [heq, Deadline.accept_ends_of_reserve _ _ _ hop, hi, Function.update_self]
    exact Word.toNat_add_of_le (UInt64.not_lt.mp hd.2)

theorem ends_of_not_reserved (h : DlOk owner) (hr : ¬ Reserved i (Run.entry dlCall owner x)) :
    (dlCall owner x).1.ends i = owner.ends i := by
  rcases dlCall_cases h x with ⟨heq, -⟩ | ⟨actor, event, b, v, life', hsome, hd, hn, hs, heq⟩
  · rw [heq]
    rfl
  · rw [heq]
    by_cases hop : event.op = LcOp.reserve
    · rw [Deadline.accept_ends_of_reserve _ _ _ hop]
      refine Function.update_of_ne (fun hi => hr ⟨event, hsome, ?_, hop⟩) _ _
      rw [hi, slotIx_val hs.guards.1]
    · rw [Deadline.accept_ends_of_ne _ _ _ hop]
      rfl

theorem kept_call (h : DlOk owner) (x : DlCall) : Kept owner (dlCall owner x).1 := by
  obtain ⟨h1, h2, -⟩ := dlCall_clock h x
  refine ⟨fun i hi => ?_, ?_, fun i hi => ends_of_not_reserved h fun hr => ?_⟩
  · rw [h1]
    exact hasBit_observe i (Or.inl hi)
  · rw [h2]
    simp only [Deadline.polled, Deadline.observe]
    split_ifs with hf
    · exact UInt64.le_refl _
    · simp only [Deadline.faulty, not_or] at hf
      exact UInt64.not_lt.mp hf.2.1
  · exact hi (ends_of_reserved h hr).1

/-- **A clear bit shows a good reading before the end.** -/
theorem clear_reading (h : DlOk owner) (hc : inhibits i (Run.entry dlCall owner x) = false) :
    x.reading.ok = true ∧ owner.lastTick ≤ x.reading.tick ∧
      (dlCall owner x).1.lastTick = x.reading.tick ∧
      ((dlCall owner x).1.ends i ≠ 0 → x.reading.tick < (dlCall owner x).1.ends i) := by
  obtain ⟨h1, h2, -⟩ := dlCall_clock h x
  simp only [inhibits, Run.entry_post] at hc
  have hf : ¬ owner.faulty x.reading := by
    intro hf
    rw [h1, hasBit_observe i (Or.inr (Or.inr (Or.inl hf)))] at hc
    cases hc
  have htick : (dlCall owner x).1.lastTick = x.reading.tick := by
    rw [h2]
    exact if_neg hf
  simp only [Deadline.faulty, not_or, not_not] at hf
  refine ⟨hf.1, UInt64.not_lt.mp hf.2.1, htick, fun h0 => ?_⟩
  by_contra hle
  have := (dlOk_call h x).expired i h0 (by rw [htick]; exact UInt64.not_lt.mp hle)
  rw [hc] at this
  cases this

theorem clear_of_reserved (h : DlOk owner) (hr : Reserved i (Run.entry dlCall owner x)) :
    inhibits i (Run.entry dlCall owner x) = false := by
  obtain ⟨event, hsucc, hslot, hop⟩ := hr
  rcases dlCall_cases h x with ⟨-, hnone⟩ | ⟨actor, event', b, v, life', hsome, hd, hn, hs, heq⟩
  · rw [hnone] at hsucc; cases hsucc
  · obtain rfl : event' = event := by simpa [hsome] using hsucc
    rw [inhibits, Run.entry_post, (dlCall_clock h x).1]
    by_contra hb
    exact hn ⟨hs.guards.1, by rw [hslot]; simpa using hb, Or.inl hop⟩

theorem clear_of_worked (h : DlOk owner) (hw : Worked i (Run.entry dlCall owner x)) :
    inhibits i (Run.entry dlCall owner x) = false := by
  obtain ⟨event, hsucc, hslot, hop⟩ := hw
  rcases dlCall_cases h x with ⟨-, hnone⟩ | ⟨actor, event', b, v, life', hsome, hd, hn, hs, heq⟩
  · rw [hnone] at hsucc; cases hsucc
  · obtain rfl : event' = event := by simpa [hsome] using hsucc
    rw [inhibits, Run.entry_post, (dlCall_clock h x).1]
    have hi : slotIx event'.slot = i := Fin.ext (by rw [slotIx_val hs.guards.1, hslot])
    by_contra hb
    have hlive := (h.observe x.requests x.reading).rdOk.contained i (by simpa using hb)
    rw [← hi, hs.live_of_work hop] at hlive
    cases hlive

end Call

/-! ### Whole runs -/

theorem dlOk_zero : DlOk Deadline.zero := (dlValid_iff _).mp (by decide)

theorem dlOk_run (xs : List DlCall) : DlOk (dlRun xs) :=
  Run.final_induct dlOk_zero (fun _ x h => dlOk_call h x) xs

/-- The end of slot `i` is the one that its reservation set, if there was one. -/
structure EndTold (i : Fin 2) (h : List DlEntry) (owner : Deadline) : Prop where
  dlOk : DlOk owner
  set : ∀ e ∈ h, Reserved i e → owner.ends i ≠ 0 ∧
    (owner.ends i).toNat = (reading e).tick.toNat + e.input.duration.toNat
  unset : (∀ e ∈ h, ¬ Reserved i e) → owner.ends i = 0
  once : h.Pairwise fun a b => ¬ (Reserved i a ∧ Reserved i b)

theorem endTold_step {i : Fin 2} {h : List DlEntry} {owner : Deadline} (ht : EndTold i h owner)
    (x : DlCall) : EndTold i (h ++ [Run.entry dlCall owner x]) (dlCall owner x).1 := by
  have hok := dlOk_call ht.dlOk x
  by_cases hr : Reserved i (Run.entry dlCall owner x)
  · obtain ⟨h0, hd, hsum⟩ := ends_of_reserved ht.dlOk hr
    have hclear := clear_of_reserved ht.dlOk hr
    obtain ⟨-, -, htick, -⟩ := clear_reading ht.dlOk hclear
    rw [← (dlCall_clock ht.dlOk x).2.1, htick] at hsum
    have hno : ∀ e ∈ h, ¬ Reserved i e := fun e he hre => (ht.set e he hre).1 h0
    refine ⟨hok, fun e he hre => ?_, fun hall => ?_, ?_⟩
    · rcases List.mem_append.mp he with he | he
      · exact absurd hre (hno e he)
      · rw [List.mem_singleton.mp he]
        refine ⟨fun hz => ?_, hsum⟩
        rw [hz, UInt64.toNat_zero] at hsum
        exact hd (Word.toNat_eq_zero.mp (by omega))
    · exact absurd hr (hall _ (by simp))
    · refine List.pairwise_append.mpr ⟨ht.once, by simp, fun a ha b _ hab => ?_⟩
      exact hno a ha hab.1
  · have hkeep := ends_of_not_reserved ht.dlOk hr
    refine ⟨hok, fun e he hre => ?_, fun hall => ?_, ?_⟩
    · rw [hkeep]
      rcases List.mem_append.mp he with he | he
      · exact ht.set e he hre
      · rw [List.mem_singleton.mp he] at hre
        exact absurd hre hr
    · rw [hkeep]
      exact ht.unset fun e he => hall e (List.mem_append_left _ he)
    · refine List.pairwise_append.mpr ⟨ht.once, by simp, fun a _ b hb hab => ?_⟩
      rw [List.mem_singleton.mp hb] at hab
      exact hr hab.2

theorem endTold_run (i : Fin 2) (xs : List DlCall) : EndTold i (dlTrace xs) (dlRun xs) :=
  Run.trace_induct (P := EndTold i) ⟨dlOk_zero, by simp, fun _ => rfl, by simp⟩
    (fun _ _ x ht => endTold_step ht x) xs

section Split

variable {xs : List DlCall} {h₁ h₂ : List DlEntry} {e : DlEntry} {i : Fin 2}

theorem mem_dlTrace {e : DlEntry} (he : e ∈ dlTrace xs) :
    ∃ owner x, DlOk owner ∧ e = Run.entry dlCall owner x := by
  obtain ⟨ys, x, -, -, rfl⟩ := Run.mem_trace he
  exact ⟨_, x, dlOk_run ys, rfl⟩

/-- What an earlier call left is kept by a later one. -/
theorem kept_before (hs : dlTrace xs = h₁ ++ e :: h₂) : ∀ a ∈ h₁, Kept a.post e.pre := by
  obtain ⟨ys, x, zs, -, rfl, rfl, -⟩ := Run.trace_split hs
  exact Run.trace_rel_final Kept.refl (fun _ _ _ => Kept.trans) (fun _ x h => dlOk_call h x)
    (fun _ x h => kept_call h x) dlOk_zero ys

theorem kept_after (hs : dlTrace xs = h₁ ++ e :: h₂) :
    Kept e.post (dlRun xs) ∧ ∀ a ∈ h₂, Kept e.post a.post := by
  have he : e ∈ dlTrace xs := by rw [hs]; simp
  refine ⟨Run.trace_rel_final Kept.refl (fun _ _ _ => Kept.trans) (fun _ x h => dlOk_call h x)
    (fun _ x h => kept_call h x) dlOk_zero xs e he, ?_⟩
  obtain ⟨ys, x, zs, -, -, rfl, rfl⟩ := Run.trace_split hs
  intro a ha
  exact (Run.trace_rel Kept.refl (fun _ _ _ => Kept.trans) (fun _ x h => dlOk_call h x)
    (fun _ x h => kept_call h x) (dlOk_call (dlOk_run ys) x) zs a ha).2.2

/-- While the bit is clear, every reading so far was good and none was later than this one. -/
theorem readings_before (hs : dlTrace xs = h₁ ++ e :: h₂) (hc : inhibits i e = false) :
    ∀ a ∈ h₁, (reading a).ok = true ∧ (reading a).tick ≤ (reading e).tick := by
  intro a ha
  have hk := kept_before hs a ha
  have hat : a ∈ dlTrace xs := by rw [hs]; exact List.mem_append_left _ ha
  have het : e ∈ dlTrace xs := by rw [hs]; simp
  obtain ⟨owner, x, hok, rfl⟩ := mem_dlTrace hat
  obtain ⟨owner', x', hok', rfl⟩ := mem_dlTrace het
  have hca : inhibits i (Run.entry dlCall owner x) = false := by
    by_contra hb
    have h1 := hk.inhibited i (by simpa [inhibits] using hb)
    have h2 := (kept_call hok' x').inhibited i h1
    rw [inhibits, Run.entry_post, h2] at hc
    cases hc
  obtain ⟨h1, -, h3, -⟩ := clear_reading hok hca
  obtain ⟨-, h2, -, -⟩ := clear_reading hok' hc
  refine ⟨h1, ?_⟩
  have := hk.lastTick
  simp only [Run.entry_post, Run.entry_pre, h3] at this
  exact UInt64.le_trans this h2

/-- A call whose reading fails, or is before an earlier one. -/
def ClockFails (h₁ : List DlEntry) (e : DlEntry) : Prop :=
  (reading e).ok = false ∨ (reading e).tick < e.pre.lastTick ∨
    ∃ a ∈ h₁, (reading a).ok = true ∧ (reading e).tick < (reading a).tick

theorem inhibits_of_clockFails (hs : dlTrace xs = h₁ ++ e :: h₂) (hf : ClockFails h₁ e) (i : Fin 2) :
    inhibits i e = true := by
  by_contra hc
  have hc : inhibits i e = false := by simpa using hc
  have hbefore := readings_before hs hc
  have het : e ∈ dlTrace xs := by rw [hs]; simp
  obtain ⟨owner, x, hok, rfl⟩ := mem_dlTrace het
  obtain ⟨h1, h2, -, -⟩ := clear_reading hok hc
  rcases hf with h | h | ⟨a, ha, -, h⟩
  · cases h.symm.trans h1
  · exact UInt64.not_lt.mpr h2 h
  · exact UInt64.not_lt.mpr (hbefore a ha).2 h

theorem inhibits_of_expired (he : e ∈ dlTrace xs) (h0 : e.post.ends i ≠ 0)
    (hle : e.post.ends i ≤ (reading e).tick) : inhibits i e = true := by
  by_contra hc
  obtain ⟨owner, x, hok, rfl⟩ := mem_dlTrace he
  obtain ⟨-, -, -, hlt⟩ := clear_reading (i := i) hok (by simpa using hc)
  exact UInt64.not_lt.mpr hle (hlt h0)

theorem closed_after (hs : dlTrace xs = h₁ ++ e :: h₂) (hi : inhibits i e = true) :
    (∀ inc, dlAllows (dlRun xs) i.val.toUInt64 inc = false) ∧
      ∀ a ∈ e :: h₂, ¬ Worked i a ∧ ¬ Reserved i a := by
  obtain ⟨hfinal, hafter⟩ := kept_after hs
  refine ⟨fun inc => ?_, fun a ha => ?_⟩
  · have hbit := hfinal.inhibited i hi
    have hi' : i.val.toUInt64.toNat = i := by rw [← slotIx_val (toUInt64_lt i), slotIx_toUInt64]
    simp [dlAllows, rdAllows, hi', hbit]
  · have hia : inhibits i a = true := by
      rcases List.mem_cons.mp ha with rfl | ha
      · exact hi
      · exact (hafter a ha).inhibited i hi
    have hat : a ∈ dlTrace xs := by rw [hs]; exact List.mem_append_right _ ha
    obtain ⟨owner, x, hok, rfl⟩ := mem_dlTrace hat
    refine ⟨fun hw => ?_, fun hr => ?_⟩
    · simp [clear_of_worked hok hw] at hia
    · simp [clear_of_reserved hok hr] at hia

/-- A successful event of the work needs an end that is set. -/
theorem ends_ne_zero_of_worked (he : e ∈ dlTrace xs) (hw : Worked i e) : e.post.ends i ≠ 0 := by
  obtain ⟨owner, x, hok, rfl⟩ := mem_dlTrace he
  have hpost := dlOk_call hok x
  obtain ⟨event, hsucc, hslot, hop⟩ := hw
  rcases dlCall_cases hok x with ⟨-, hnone⟩ | ⟨actor, event', b, v, life', hsome, hd, hn, hs, heq⟩
  · rw [hnone] at hsucc; cases hsucc
  · obtain rfl : event' = event := by simpa [hsome] using hsucc
    have hi : slotIx event'.slot = i := Fin.ext (by rw [slotIx_val hs.guards.1, hslot])
    have hlive := (LcSlot.live_iff _).mp (hs.live_of_work hop)
    rw [hi] at hlive
    rw [Run.entry_post, Ne, ← hpost.used i, heq]
    intro h0
    have hle := (hs.moves i).1.phase
    simp only [Deadline.accept] at h0
    rw [h0] at hle
    exact absurd (UInt64.le_trans hlive.1 hle) (by simp)

end Split

/-- **No work after expiry.** Over every run from the zeroed owner, for each slot:

* it is reserved at most once; its end is the tick of that call plus its duration, as numbers, and
  zero while there was no such call;
* an event of the work succeeds only in a call whose reading is good, not before any earlier
  reading, all of which were good, and before the end;
* from a call on whose reading fails, goes back or is at or past the end, the gate is closed and no
  event of the work succeeds; and from a failure or a step back on no reservation succeeds. -/
theorem no_work_after_expiry (xs : List DlCall) (i : Fin 2) :
    ((dlTrace xs).Pairwise fun a b => ¬ (Reserved i a ∧ Reserved i b)) ∧
    (∀ e ∈ dlTrace xs, Reserved i e → (dlRun xs).ends i ≠ 0 ∧
      ((dlRun xs).ends i).toNat = (reading e).tick.toNat + e.input.duration.toNat) ∧
    ((∀ e ∈ dlTrace xs, ¬ Reserved i e) → (dlRun xs).ends i = 0) ∧
    ∀ h₁ e h₂, dlTrace xs = h₁ ++ e :: h₂ →
      (Worked i e → (reading e).ok = true ∧
        (∀ a ∈ h₁, (reading a).ok = true ∧ (reading a).tick ≤ (reading e).tick) ∧
        e.post.ends i ≠ 0 ∧ (reading e).tick < e.post.ends i) ∧
      ((e.post.ends i ≠ 0 ∧ e.post.ends i ≤ (reading e).tick) ∨ ClockFails h₁ e →
        (∀ inc, dlAllows (dlRun xs) i.val.toUInt64 inc = false) ∧ ∀ a ∈ e :: h₂, ¬ Worked i a) ∧
      (ClockFails h₁ e → ∀ a ∈ e :: h₂, ¬ Reserved i a) := by
  have ht := endTold_run i xs
  refine ⟨ht.once, ht.set, ht.unset, fun h₁ e h₂ hs => ⟨fun hw => ?_, fun hbad => ?_, fun hf => ?_⟩⟩
  · have he : e ∈ dlTrace xs := by rw [hs]; simp
    have h0 := ends_ne_zero_of_worked he hw
    have hbefore : inhibits i e = false → ∀ a ∈ h₁, _ := readings_before hs
    obtain ⟨owner, x, hok, rfl⟩ := mem_dlTrace he
    have hc := clear_of_worked hok hw
    obtain ⟨h1, -, -, hlt⟩ := clear_reading hok hc
    exact ⟨h1, hbefore hc, h0, hlt h0⟩
  · have hi : inhibits i e = true := by
      rcases hbad with ⟨h0, hle⟩ | hf
      · exact inhibits_of_expired (by rw [hs]; simp) h0 hle
      · exact inhibits_of_clockFails hs hf i
    obtain ⟨hgate, hno⟩ := closed_after hs hi
    exact ⟨hgate, fun a ha => (hno a ha).1⟩
  · exact fun a ha => ((closed_after hs (inhibits_of_clockFails hs hf i)).2 a ha).2

end Tcs
