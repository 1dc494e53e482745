/-
# The deadline owner

`include/tcs/deadline.h` and `lib/deadline.c`: the reduction latch behind a
clock. A successful reservation fixes the slot's end once and for all; every
call first takes a reading and a request word (`dlPoll`), and a reading at
or past an end adds that slot to the requests. A reading that fails or goes
back is a clock fault, which is kept and requests both slots.

As with the latch, the poll of a valid owner cannot fail and is the function
`Deadline.observe` (`dlPoll_eq`).

Key definitions: `dlValid`, `dlPoll`, `dlApply`, `DlOk`, `Deadline.observe`,
`ClockKept`.
Key theorems: `dlValid_iff`, `dlPoll_eq`, `DlOk.observe`, `DlOk.dlApply`,
`deadline_owner_invariant`.
-/
import Tcs.Reduction

namespace Tcs

/-! ### The data model -/

/-- `struct tcs_deadline`; `ends` is the array `end`. -/
structure Deadline where
  control : Reduction
  lastTick : UInt64
  clockFault : UInt64
  ends : Fin 2 → UInt64
  deriving DecidableEq

/-- `struct tcs_dl_reading`. -/
structure Reading where
  tick : UInt64
  ok : Bool
  deriving DecidableEq, Repr

/-- `enum tcs_dl_status`. -/
inductive DlStatus
  | ok
  | fault
  | invalidState
  deriving DecidableEq, Repr

/-- The zeroed owner. -/
def Deadline.zero : Deadline := ⟨Reduction.zero, 0, 0, fun _ => 0⟩

/-! ### The operations -/

/-- `tcs_dl_valid`. -/
def dlValid (owner : Deadline) : Bool :=
  if !rdValid owner.control ∨ owner.clockFault > 1 ∨
      (owner.clockFault ≠ 0 ∧ owner.control.inhibited ≠ rdAll) then false
  else
    (List.finRange 2).all fun i =>
      let unused : Bool := (owner.control.life.slots i).state = LcState.unused
      if unused ≠ (owner.ends i = 0 : Bool) then false
      else
        !(owner.ends i ≠ 0 ∧ owner.lastTick ≥ owner.ends i ∧ ¬ Word.hasBit owner.control.inhibited i)

/-- The loop of `tcs_dl_poll`: the requests with the slots whose end the tick has reached. -/
def expire (ends : Fin 2 → UInt64) (tick requests : UInt64) : UInt64 :=
  (List.finRange 2).foldl (fun requests i =>
    if ends i ≠ 0 ∧ tick ≥ ends i then requests ||| (1 <<< i.val.toUInt64) else requests) requests

/-- `tcs_dl_poll`: the status and the owner it leaves. -/
def dlPoll (owner : Deadline) (requests : UInt64) (reading : Reading) : DlStatus × Deadline :=
  if !dlValid owner then (.invalidState, owner)
  else
    let clockFault := if !reading.ok ∨ reading.tick < owner.lastTick then 1 else owner.clockFault
    let lastTick := if clockFault ≠ 0 then owner.lastTick else reading.tick
    let requests :=
      if clockFault ≠ 0 then requests ||| rdAll else expire owner.ends reading.tick requests
    let polled := rdPoll owner.control requests
    if polled.1 = .invalidState then (.invalidState, owner)
    else
      (if clockFault ≠ 0 ∨ polled.2.inputFault ≠ 0 then .fault else .ok,
        ⟨polled.2, lastTick, clockFault, owner.ends⟩)

/-- The duration does not have the shape the operation asks for. -/
def badDuration (owner : Deadline) (e : LcEvent) (duration : UInt64) : Bool :=
  if e.op = LcOp.reserve then duration = 0 ∨ duration > Word.max - owner.lastTick else duration ≠ 0

/-- `tcs_dl_apply`: the answer and the owner it leaves. -/
def dlApply (owner : Deadline) (requests : UInt64) (reading : Reading) (actor : LcActor)
    (e : LcEvent) (auditOk : Bool) (duration : UInt64) : LcResult × Deadline :=
  let polled := dlPoll owner requests reading
  let owner := polled.2
  if polled.1 = .invalidState then (⟨LcStatus.invalid, 0⟩, owner)
  else if badDuration owner e duration then (⟨LcStatus.invalid, 0⟩, owner)
  else
    let out := rdApply owner.control 0 actor e auditOk
    if out.1.status = LcStatus.ok then
      let ends :=
        if e.op = LcOp.reserve then
          Function.update owner.ends (slotIx e.slot) (owner.lastTick + duration)
        else owner.ends
      (out.1, { owner with control := out.2, ends := ends })
    else (out.1, owner)

/-- `tcs_dl_stop_mask`. -/
def dlStopMask (owner : Deadline) : UInt64 :=
  if dlValid owner then rdStopMask owner.control else rdAll

/-- `tcs_dl_allows`. -/
def dlAllows (owner : Deadline) (slot incarnation : UInt64) : Bool :=
  dlValid owner ∧ rdAllows owner.control slot incarnation

/-! ### What the structural check says -/

/-- A valid control whose slots have an end as soon as they are used, and are inhibited from then
on that the end is reached or the clock has failed. -/
structure DlOk (owner : Deadline) : Prop where
  rdOk : RdOk owner.control
  fault : owner.clockFault ≤ 1
  latched : owner.clockFault ≠ 0 → owner.control.inhibited = rdAll
  used : ∀ i, (owner.control.life.slots i).state = LcState.unused ↔ owner.ends i = 0
  expired : ∀ i : Fin 2, owner.ends i ≠ 0 → owner.lastTick ≥ owner.ends i →
    Word.hasBit owner.control.inhibited i = true

theorem dlValid_iff (owner : Deadline) : dlValid owner = true ↔ DlOk owner := by
  have hturn : ∀ i : Fin 2, (let unused : Bool := (owner.control.life.slots i).state = LcState.unused
      if unused ≠ (owner.ends i = 0 : Bool) then false
      else !(owner.ends i ≠ 0 ∧ owner.lastTick ≥ owner.ends i ∧
        ¬ Word.hasBit owner.control.inhibited i)) = true ↔
      ((owner.control.life.slots i).state = LcState.unused ↔ owner.ends i = 0) ∧
        (owner.ends i ≠ 0 → owner.lastTick ≥ owner.ends i →
          Word.hasBit owner.control.inhibited i = true) := by
    intro i
    simp only
    split_ifs with hne
    · simp only [false_iff, not_and]
      intro h
      exact absurd (decide_eq_decide.mpr h) hne
    · simp only [ne_eq, not_not, decide_eq_decide] at hne
      simp only [hne, true_and, Bool.not_eq_true', decide_eq_false_iff_not, not_and, not_not]
  unfold dlValid
  constructor
  · intro h
    split_ifs at h with h1
    simp only [not_or, not_and, not_not, Bool.not_eq_true', Bool.not_eq_false] at h1
    obtain ⟨h1, h2, h3⟩ := h1
    simp only [List.all_eq_true, List.mem_finRange, forall_const] at h
    exact ⟨(rdValid_iff _).mp h1, by grind, h3, fun i => ((hturn i).mp (h i)).1,
      fun i => ((hturn i).mp (h i)).2⟩
  · rintro ⟨h1, h2, h3, h4, h5⟩
    have hv := (rdValid_iff _).mpr h1
    rw [if_neg]
    · simp only [List.all_eq_true, List.mem_finRange, forall_const]
      exact fun i => (hturn i).mpr ⟨h4 i, h5 i⟩
    · rintro (h | h | ⟨h, h'⟩)
      · simp [hv] at h
      · exact UInt64.not_lt.mpr h2 h
      · exact h' (h3 h)

/-! ### The poll is a function of its reading and its requests -/

/-- The reading is a clock fault, or the clock has failed before. -/
def Deadline.faulty (owner : Deadline) (reading : Reading) : Prop :=
  ¬ reading.ok ∨ reading.tick < owner.lastTick ∨ owner.clockFault ≠ 0

instance (owner : Deadline) (reading : Reading) : Decidable (owner.faulty reading) :=
  inferInstanceAs (Decidable (_ ∨ _ ∨ _))

/-- The requests a poll passes on to the latch. -/
def Deadline.requests (owner : Deadline) (requests : UInt64) (reading : Reading) : UInt64 :=
  if owner.faulty reading then requests ||| rdAll else expire owner.ends reading.tick requests

/-- What a valid owner becomes when it takes requests and a reading. -/
def Deadline.observe (owner : Deadline) (requests : UInt64) (reading : Reading) : Deadline where
  control := owner.control.observe (owner.requests requests reading)
  lastTick := if owner.faulty reading then owner.lastTick else reading.tick
  clockFault := if owner.faulty reading then 1 else 0
  ends := owner.ends

/-- **A poll of a valid owner does not fail.** -/
theorem dlPoll_eq {owner : Deadline} (h : DlOk owner) (requests : UInt64) (reading : Reading) :
    dlPoll owner requests reading =
      (if (owner.observe requests reading).clockFault ≠ 0 ∨
          (owner.observe requests reading).control.inputFault ≠ 0 then .fault else .ok,
        owner.observe requests reading) := by
  have hv := (dlValid_iff _).mpr h
  have hfault : (if !reading.ok ∨ reading.tick < owner.lastTick then 1 else owner.clockFault) =
      if owner.faulty reading then 1 else 0 := by
    have := h.fault
    simp only [Deadline.faulty, Bool.not_eq_true, Bool.not_eq_true']
    split_ifs <;> grind
  have hne : (if owner.faulty reading then 1 else 0 : UInt64) ≠ 0 ↔ owner.faulty reading := by
    split_ifs with hf <;> simp [hf]
  rw [dlPoll, if_neg (by simp [hv])]
  simp only [hfault, hne]
  rw [if_neg (rdPoll_ne_invalidState h.rdOk _), rdPoll_eq h.rdOk]
  simp only [Deadline.observe, Deadline.requests, hne]

/-- The bits that `expire` adds. -/
theorem hasBit_expire (ends : Fin 2 → UInt64) (tick requests : UInt64) (i : Fin 2) :
    Word.hasBit (expire ends tick requests) i = true ↔
      Word.hasBit requests i = true ∨ (ends i ≠ 0 ∧ tick ≥ ends i) := by
  have hturn : ∀ (w : UInt64) (j k : Fin 2),
      Word.hasBit (if ends j ≠ 0 ∧ tick ≥ ends j then w ||| (1 <<< j.val.toUInt64) else w) k = true ↔
        Word.hasBit w k = true ∨ (j = k ∧ ends j ≠ 0 ∧ tick ≥ ends j) := by
    intro w j k
    have hj := j.isLt
    have hk := k.isLt
    split_ifs with hc
    · rw [Word.hasBit_or _ _ (by omega), Word.hasBit_bit (by omega) (by omega), Bool.or_eq_true,
        decide_eq_true_eq, ← Fin.ext_iff]
      simp [hc]
    · simp [hc]
  rw [expire, show List.finRange 2 = [0, 1] from rfl]
  simp only [List.foldl_cons, List.foldl_nil, hturn]
  fin_cases i <;> simp

/-! ### What a poll keeps -/

section Observe

variable {owner : Deadline} {requests : UInt64} {reading : Reading}

/-- A slot is inhibited after a poll when it was before, when it was requested, when the clock has
failed and when its end is reached. -/
theorem hasBit_observe (i : Fin 2) (h : Word.hasBit owner.control.inhibited i = true ∨
      Word.hasBit requests i = true ∨ owner.faulty reading ∨
      (owner.ends i ≠ 0 ∧ reading.tick ≥ owner.ends i)) :
    Word.hasBit (owner.observe requests reading).control.inhibited i = true := by
  refine hasBit_latch _ _ i ?_
  rcases h with h | h
  · exact Or.inl h
  refine Or.inr ?_
  have hi : i.val < 64 := by have := i.isLt; omega
  unfold Deadline.requests
  split_ifs with hf
  · rw [Word.hasBit_or _ _ hi, Bool.or_eq_true]
    exact Or.inr (hasBit_rdAll i)
  · rw [hasBit_expire]
    tauto

theorem observe_faulty (h : DlOk owner) (hf : owner.faulty reading) :
    (owner.observe requests reading).control.inhibited = rdAll :=
  eq_rdAll (h.rdOk.observe _).mask fun i => hasBit_observe i (Or.inr (Or.inr (Or.inl hf)))

/-- **A poll keeps the invariant.** -/
theorem DlOk.observe (h : DlOk owner) (requests : UInt64) (reading : Reading) :
    DlOk (owner.observe requests reading) where
  rdOk := h.rdOk.observe _
  fault := by
    simp only [Deadline.observe]
    split_ifs <;> decide
  latched hf := by
    refine observe_faulty h ?_
    simpa [Deadline.observe] using hf
  used i := LcSlot.contained_state_eq_unused.trans (h.used i)
  expired i h0 hle := by
    refine hasBit_observe i ?_
    by_cases hf : owner.faulty reading
    · exact Or.inr (Or.inr (Or.inl hf))
    · simp only [Deadline.observe, if_neg hf] at hle
      exact Or.inr (Or.inr (Or.inr ⟨h0, hle⟩))

end Observe

/-! ### Events behind the clock -/

/-- The owner after an accepted event: a reservation sets its slot's end. -/
def Deadline.accept (owner : Deadline) (e : LcEvent) (duration : UInt64) (life : Lifecycle) :
    Deadline where
  control := { owner.control with life := life }
  lastTick := owner.lastTick
  clockFault := owner.clockFault
  ends :=
    if e.op = LcOp.reserve then
      Function.update owner.ends (slotIx e.slot) (owner.lastTick + duration)
    else owner.ends

theorem Deadline.accept_ends_of_reserve (owner : Deadline) {e : LcEvent} (duration : UInt64)
    (life : Lifecycle) (h : e.op = LcOp.reserve) : (owner.accept e duration life).ends =
      Function.update owner.ends (slotIx e.slot) (owner.lastTick + duration) := if_pos h

theorem Deadline.accept_ends_of_ne (owner : Deadline) {e : LcEvent} (duration : UInt64)
    (life : Lifecycle) (h : e.op ≠ LcOp.reserve) : (owner.accept e duration life).ends = owner.ends :=
  if_neg h

/-- An event reaches the lifecycle that the poll left, unless its duration or the latch is in the
way. -/
theorem dlApply_eq {owner : Deadline} (h : DlOk owner) (requests : UInt64) (reading : Reading)
    (actor : LcActor) (e : LcEvent) (b : Bool) (duration : UInt64) :
    dlApply owner requests reading actor e b duration =
      let mid := owner.observe requests reading
      if badDuration mid e duration then (⟨LcStatus.invalid, 0⟩, mid)
      else if mid.control.denies e then (⟨LcStatus.denied, 0⟩, mid)
      else
        let out := lcApply mid.control.life actor e b
        if out.1.status = LcStatus.ok then (out.1, mid.accept e duration out.2) else (out.1, mid) := by
  have hmid := h.observe requests reading
  have hne : (dlPoll owner requests reading).1 ≠ .invalidState := by
    rw [dlPoll_eq h]
    dsimp only
    split_ifs <;> simp
  simp only [dlApply]
  rw [if_neg hne, dlPoll_eq h]
  simp only [rdApply_eq hmid.rdOk, hmid.rdOk.observe_zero]
  split_ifs <;> simp_all [Deadline.accept]

section Apply

variable {owner : Deadline} {requests duration : UInt64} {reading : Reading} {actor : LcActor}
  {e : LcEvent} {b : Bool}

theorem dlApply_refused
    (hne : (dlApply owner requests reading actor e b duration).1.status ≠ LcStatus.ok) :
    (dlApply owner requests reading actor e b duration).2 = (dlPoll owner requests reading).2 := by
  unfold dlApply at hne ⊢
  dsimp only at hne ⊢
  generalize dlPoll owner requests reading = polled at hne ⊢
  by_cases hinvalid : polled.1 = .invalidState
  · rw [if_pos hinvalid]
  rw [if_neg hinvalid] at hne ⊢
  by_cases hbad : badDuration polled.2 e duration = true
  · rw [if_pos hbad]
  rw [if_neg hbad] at hne ⊢
  by_cases hok : (rdApply polled.2.control 0 actor e b).1.status = LcStatus.ok
  · rw [if_pos hok] at hne
    exact absurd hok hne
  · rw [if_neg hok]

theorem dlApply_of_ne (h : DlOk owner)
    (hne : (dlApply owner requests reading actor e b duration).1.status ≠ LcStatus.ok) :
    (dlApply owner requests reading actor e b duration).2 = owner.observe requests reading := by
  rw [dlApply_refused hne, dlPoll_eq h]

/-- An accepted event is an event of the lifecycle's table, on what the poll left. -/
theorem dlApply_of_ok (h : DlOk owner)
    (hok : (dlApply owner requests reading actor e b duration).1.status = LcStatus.ok) :
    let mid := owner.observe requests reading
    badDuration mid e duration = false ∧ ¬ mid.control.denies e ∧
      ∃ v life', LcStep mid.control.life actor e b v life' ∧
        dlApply owner requests reading actor e b duration =
          (⟨LcStatus.ok, v⟩, mid.accept e duration life') := by
  rw [dlApply_eq h] at hok ⊢
  dsimp only at hok ⊢
  split_ifs at hok ⊢ with h1 h2 h3
  · simp at hok
  · simp at hok
  · refine ⟨by simpa using h1, h2, _, _, (lcStep_of_ok h3).2, ?_⟩
    rw [← h3]
  · contradiction

theorem DlOk.accept (h : DlOk owner) {v : UInt64} {life' : Lifecycle}
    (hd : badDuration owner e duration = false) (hn : ¬ owner.control.denies e)
    (hs : LcStep owner.control.life actor e b v life') : DlOk (owner.accept e duration life') := by
  have hv : lcValid owner.control.life = true := (lcValid_iff _).mpr h.rdOk.lcOk
  have heq := lcApply_ok_iff.mpr ⟨hv, hs⟩
  have hrd := @RdOk.lcApply _ h.rdOk actor e b hn
  rw [heq] at hrd
  by_cases hop : e.op = LcOp.reserve
  · -- the end is past the tick, since the duration is positive and fits
    simp only [badDuration, if_pos hop, decide_eq_false_iff_not, not_or] at hd
    have hsum := Word.toNat_add_of_le (UInt64.not_lt.mp hd.2)
    have hpos : 0 < duration.toNat := by
      have := mt Word.toNat_eq_zero.mp hd.1
      omega
    have hlt : owner.lastTick < owner.lastTick + duration := by
      rw [UInt64.lt_iff_toNat_lt, hsum]
      omega
    have hends := owner.accept_ends_of_reserve duration life' hop
    refine ⟨hrd, h.fault, h.latched, fun i => ?_, fun i h0 hle => ?_⟩
    · refine (hs.unused_iff i).trans ?_
      rw [hends]
      by_cases hi : i = slotIx e.slot
      · subst hi
        rw [Function.update_self]
        refine iff_of_false (fun h0 => h0.2 ⟨hop, rfl⟩) fun h0 => ?_
        rw [h0] at hlt
        exact absurd hlt (by simp)
      · rw [Function.update_of_ne hi]
        simpa [hi] using h.used i
    · rw [hends] at h0 hle
      by_cases hi : i = slotIx e.slot
      · subst hi
        rw [Function.update_self] at hle
        exact absurd hlt (UInt64.not_lt.mpr hle)
      · rw [Function.update_of_ne hi] at h0 hle
        exact h.expired i h0 hle
  · have hends := owner.accept_ends_of_ne duration life' hop
    refine ⟨hrd, h.fault, h.latched, fun i => ?_, fun i h0 hle => ?_⟩
    · refine (hs.unused_iff i).trans ?_
      rw [hends]
      simpa [hop] using h.used i
    · rw [hends] at h0 hle
      exact h.expired i h0 hle

/-- **An event keeps the invariant.** -/
theorem DlOk.dlApply (h : DlOk owner) : DlOk (dlApply owner requests reading actor e b duration).2 := by
  by_cases hok : (Tcs.dlApply owner requests reading actor e b duration).1.status = LcStatus.ok
  · obtain ⟨hd, hn, v, life', hs, heq⟩ := dlApply_of_ok h hok
    rw [heq]
    exact (h.observe requests reading).accept hd hn hs
  · rw [dlApply_of_ne h hok]
    exact h.observe requests reading

end Apply

/-! ### What no call takes back -/

/-- The tick of `b` is not before that of `a` and stays where a clock fault found it, and the faults
and the inhibit bits of `a` are those of `b` too. -/
structure ClockKept (a b : Deadline) : Prop where
  lastTick : a.lastTick ≤ b.lastTick
  frozen : b.clockFault ≠ 0 → b.lastTick = a.lastTick
  clockFault : a.clockFault ≠ 0 → b.clockFault ≠ 0
  latch : LatchKept a.control b.control

theorem ClockKept.refl (a : Deadline) : ClockKept a a :=
  ⟨UInt64.le_refl _, fun _ => rfl, id, fun _ _ h => h, id⟩

section Kept

variable {owner : Deadline} {requests duration : UInt64} {reading : Reading} {actor : LcActor}
  {e : LcEvent} {b : Bool}

theorem clockKept_observe (owner : Deadline) (requests : UInt64) (reading : Reading) :
    ClockKept owner (owner.observe requests reading) where
  lastTick := by
    show _ ≤ if owner.faulty reading then owner.lastTick else reading.tick
    split_ifs with hf
    · exact UInt64.le_refl _
    · unfold Deadline.faulty at hf
      exact UInt64.not_lt.mp fun h => hf (Or.inr (Or.inl h))
  frozen h := by
    have hf : owner.faulty reading := by simpa [Deadline.observe] using h
    exact if_pos hf
  clockFault h := by
    have hf : owner.faulty reading := Or.inr (Or.inr h)
    show (if owner.faulty reading then 1 else 0 : UInt64) ≠ 0
    rw [if_pos hf]
    decide
  latch := latchKept_observe owner.control _

theorem dlPoll_of_invalid (h : dlValid owner = false) :
    dlPoll owner requests reading = (.invalidState, owner) := by
  unfold dlPoll
  rw [if_pos (by simpa using h)]

theorem dlApply_of_invalid (h : dlValid owner = false) :
    dlApply owner requests reading actor e b duration = (⟨LcStatus.invalid, 0⟩, owner) := by
  unfold dlApply
  rw [dlPoll_of_invalid h]
  rfl

theorem clockKept_dlPoll : ClockKept owner (dlPoll owner requests reading).2 := by
  by_cases hv : dlValid owner = true
  · rw [dlPoll_eq ((dlValid_iff _).mp hv)]
    exact clockKept_observe owner requests reading
  · rw [dlPoll_of_invalid (by simpa using hv)]
    exact ClockKept.refl owner

/-- The clock and the latch after an event are those after its poll. -/
theorem clockKept_dlApply : ClockKept owner (dlApply owner requests reading actor e b duration).2 := by
  by_cases hok : (dlApply owner requests reading actor e b duration).1.status = LcStatus.ok
  · by_cases hv : dlValid owner = true
    · obtain ⟨-, -, v, life', -, heq⟩ := dlApply_of_ok ((dlValid_iff _).mp hv) hok
      rw [heq]
      obtain ⟨h1, h2, h3, h4⟩ := clockKept_observe owner requests reading
      exact ⟨h1, h2, h3, h4.inhibited, h4.inputFault⟩
    · rw [dlApply_of_invalid (by simpa using hv)]
      exact ClockKept.refl owner
  · rw [dlApply_refused hok]
    exact clockKept_dlPoll

end Kept

/-- No poll of the owner fails, nor one of its latch, nor a containment of its lifecycle. -/
structure Pollable (owner : Deadline) : Prop where
  clock : ∀ requests reading, (dlPoll owner requests reading).1 ≠ .invalidState
  latch : ∀ sample, (rdPoll owner.control sample).1 ≠ .invalidState
  contain : ∀ inhibited, (List.finRange 2).foldlM (rdContain inhibited) owner.control.life ≠ none
  life : lcValid owner.control.life = true

theorem DlOk.pollable {owner : Deadline} (h : DlOk owner) : Pollable owner where
  clock requests reading := by
    rw [dlPoll_eq h]
    dsimp only
    split_ifs <;> simp
  latch := rdPoll_ne_invalidState h.rdOk
  contain inhibited := by
    rw [(foldlM_rdContain h.rdOk.lcOk inhibited).1]
    simp
  life := (lcValid_iff _).mpr h.rdOk.lcOk

theorem DlOk.dlPoll {owner : Deadline} (h : DlOk owner) (requests : UInt64) (reading : Reading) :
    DlOk (dlPoll owner requests reading).2 := by
  rw [dlPoll_eq h]
  exact h.observe requests reading

/-- **The owner fails closed.** A call on a valid owner leaves a valid owner and meets no failure
inside: neither its own poll nor, on what that poll left, the event's. A call on an invalid owner
changes nothing, and such an owner allows nothing and asks for both stops. No call takes back a
tick, a fault or an inhibit bit, and a refused event leaves what its poll left. -/
theorem deadline_owner_invariant (owner : Deadline) (requests : UInt64) (reading : Reading)
    (actor : LcActor) (e : LcEvent) (auditOk : Bool) (duration : UInt64) :
    let polled := dlPoll owner requests reading
    let applied := dlApply owner requests reading actor e auditOk duration
    (dlValid owner = true → dlValid polled.2 = true ∧ dlValid applied.2 = true ∧
        Pollable owner ∧ Pollable polled.2) ∧
      (dlValid owner = false → polled = (.invalidState, owner) ∧
        applied = (⟨LcStatus.invalid, 0⟩, owner) ∧ (∀ slot incarnation,
          dlAllows owner slot incarnation = false) ∧ dlStopMask owner = rdAll) ∧
      ClockKept owner polled.2 ∧ ClockKept owner applied.2 ∧
      (applied.1.status ≠ LcStatus.ok → applied.2 = polled.2) := by
  refine ⟨fun hv => ?_, fun hv => ?_, clockKept_dlPoll, clockKept_dlApply, dlApply_refused⟩
  · have h := (dlValid_iff _).mp hv
    have hp := h.dlPoll requests reading
    exact ⟨(dlValid_iff _).mpr hp, (dlValid_iff _).mpr h.dlApply, h.pollable, hp.pollable⟩
  · refine ⟨dlPoll_of_invalid hv, dlApply_of_invalid hv, fun slot incarnation => ?_, ?_⟩
    · unfold dlAllows
      simp [hv]
    · unfold dlStopMask
      rw [if_neg (by simp [hv])]

/-- A reservation whose end would pass the last word leaves a valid owner. -/
theorem deadline_owner_invariant_overflow :
    dlValid Deadline.zero = true ∧
      dlValid (dlApply Deadline.zero 0 ⟨1, true⟩ .admin ⟨LcOp.reserve, 0, 0, 0⟩ true Word.max).2 =
        true :=
  ⟨by decide, ((deadline_owner_invariant Deadline.zero 0 ⟨1, true⟩ .admin ⟨LcOp.reserve, 0, 0, 0⟩ true
    Word.max).1 (by decide)).2.1⟩

end Tcs
