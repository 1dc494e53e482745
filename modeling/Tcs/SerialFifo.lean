/-
# The receive queue is a FIFO with honest gap markers

Any sequence of `tcs_serial_receive`, `tcs_serial_loss` and `tcs_serial_take`
from the zeroed queue. A byte that waits has the place in the sequence of the
call that received it. The calls that receive or lose are the arrivals; the
bytes that wait are the last `count` of them (`waiting`), since a gap empties
the queue and a take removes the oldest. So what a take returns is told from
the sequence, and two bytes with no mark between them are two arrivals with
none between them (`Joined`).

Key definitions: `RxCall`, `rxStep`, `rxArrivals`, `waiting`, `Gap`, `Joined`,
`SerialFifo`.
Key theorems: `waiting_snoc`, `lost_iff`, `joined_after`, `conserved_snoc`,
`serial_fifo`.
-/
import Tcs.Serial
import Tcs.Lib.Run

namespace Tcs

/-! ### Calls -/

/-- One call on the queue. -/
inductive RxCall
  | receive (byte : UInt8)
  | loss
  | take
  deriving DecidableEq, Repr

/-- The queue after a call, and the flags and the byte of a take. -/
def rxStep (rx : SerialRx) : RxCall → SerialRx × Option (UInt64 × UInt8)
  | .receive byte => (serialReceive rx byte, none)
  | .loss => (serialLoss rx, none)
  | .take =>
    let (flags, byte, rx) := serialTake rx
    (rx, some (flags, byte))

/-- The queue after the calls. -/
def rxAfter (calls : List RxCall) : SerialRx := Run.final rxStep SerialRx.zero calls

/-- What the call at `k` returned. -/
def rxReturned (calls : List RxCall) (k : ℕ) : Option (UInt64 × UInt8) :=
  (Run.trace rxStep SerialRx.zero calls)[k]?.bind (·.output)

/-- The take at `k` returned a byte. -/
def TookByte (calls : List RxCall) (k : ℕ) (byte : UInt8) : Prop :=
  ∃ flags, rxReturned calls k = some (flags, byte) ∧ flags &&& serialByte ≠ 0

/-- The take at `k` reported a loss. -/
def Marked (calls : List RxCall) (k : ℕ) : Prop :=
  ∃ flags byte, rxReturned calls k = some (flags, byte) ∧ flags &&& serialLossFlag ≠ 0

/-- At `k` bytes are lost: a reported loss, or a byte for which there is no room. -/
def Gap (calls : List RxCall) (k : ℕ) : Prop :=
  calls[k]? = some .loss ∨
    ∃ byte, calls[k]? = some (.receive byte) ∧ (rxAfter (calls.take k)).count = serialCapacity

theorem rxAfter_snoc (calls : List RxCall) (call : RxCall) :
    rxAfter (calls ++ [call]) = (rxStep (rxAfter calls) call).1 := Run.final_snoc _ _ _

theorem take_succ_of_getElem? {calls : List RxCall} {k : ℕ} {call : RxCall}
    (h : calls[k]? = some call) : calls.take (k + 1) = calls.take k ++ [call] := by
  rw [List.take_add_one, h]
  rfl

/-! ### What a take returns -/

theorem flags_byte (lost byte : Bool) : serialFlags lost byte &&& serialByte ≠ 0 ↔ byte = true := by
  cases lost <;> cases byte <;> decide

theorem flags_lost (lost byte : Bool) :
    serialFlags lost byte &&& serialLossFlag ≠ 0 ↔ lost = true := by
  cases lost <;> cases byte <;> decide

/-- The flags and the byte of a take, from what waits. -/
theorem rxStep_take (rx : SerialRx) :
    (rxStep rx .take).2 =
        some (serialFlags rx.lost (!rx.contents.isEmpty), rx.contents.headD 0) ∧
      (rxStep rx .take).1.contents = rx.contents.tail ∧ (rxStep rx .take).1.lost = false := by
  cases h : rx.contents with
  | nil =>
    have htake := serialTake_nil h
    unfold rxStep
    rw [htake]
    exact ⟨rfl, h, rfl⟩
  | cons byte rest =>
    obtain ⟨h1, h2, h3, h4⟩ := serialTake_cons h
    refine ⟨?_, h3, h4⟩
    show some ((serialTake rx).1, (serialTake rx).2.1) = _
    rw [h1, h2]
    rfl

theorem rxReturned_eq (calls : List RxCall) (k : ℕ) :
    rxReturned calls k = calls[k]?.bind fun call => (rxStep (rxAfter (calls.take k)) call).2 := by
  unfold rxReturned
  rw [Run.getElem?_trace]
  cases calls[k]? <;> rfl

/-- **Takes.** A take returns the oldest byte that waits, if there is one. -/
theorem tookByte_iff {calls : List RxCall} {k : ℕ} {byte : UInt8} :
    TookByte calls k byte ↔
      calls[k]? = some .take ∧ (rxAfter (calls.take k)).contents.head? = some byte := by
  unfold TookByte
  rw [rxReturned_eq]
  cases hk : calls[k]? with
  | none => simp
  | some call =>
    cases call with
    | receive b => simp [rxStep]
    | loss => simp [rxStep]
    | take =>
      rw [Option.bind_some, (rxStep_take _).1]
      generalize rxAfter (calls.take k) = rx
      constructor
      · rintro ⟨flags, h, hflags⟩
        obtain ⟨rfl, rfl⟩ := Prod.mk.inj (Option.some.inj h)
        rw [flags_byte] at hflags
        refine ⟨rfl, ?_⟩
        cases hc : rx.contents with
        | nil => simp [hc] at hflags
        | cons b rest => rfl
      · rintro ⟨-, h⟩
        refine ⟨_, ?_, (flags_byte rx.lost true).mpr rfl⟩
        cases hc : rx.contents with
        | nil => simp [hc] at h
        | cons b rest =>
          rw [hc, List.head?_cons, Option.some.injEq] at h
          rw [h]
          rfl

theorem marked_iff {calls : List RxCall} {k : ℕ} :
    Marked calls k ↔ calls[k]? = some .take ∧ (rxAfter (calls.take k)).lost = true := by
  unfold Marked
  rw [rxReturned_eq]
  cases hk : calls[k]? with
  | none => simp
  | some call =>
    cases call with
    | receive b => simp [rxStep]
    | loss => simp [rxStep]
    | take =>
      rw [Option.bind_some, (rxStep_take _).1]
      constructor
      · rintro ⟨flags, byte, h, hflags⟩
        obtain ⟨rfl, rfl⟩ := Prod.mk.inj (Option.some.inj h)
        exact ⟨rfl, (flags_lost _ _).mp hflags⟩
      · rintro ⟨-, h⟩
        exact ⟨_, _, rfl, (flags_lost _ _).mpr h⟩

/-! ### Marks -/

/-- One more call, on the mark of the queue. -/
theorem rxStep_lost (rx : SerialRx) (call : RxCall) :
    (rxStep rx call).1.lost = true ↔
      (call ≠ .take ∧ rx.lost = true) ∨ call = .loss ∨
        (∃ byte, call = .receive byte) ∧ rx.count = serialCapacity := by
  cases call with
  | receive byte =>
    show (serialReceive rx byte).lost = true ↔ _
    rw [serialReceive_lost]
    simp
  | loss => simp [rxStep, serialLoss]
  | take => simp [(rxStep_take rx).2.2]

theorem getElem?_snoc_length {calls : List RxCall} {call : RxCall} :
    (calls ++ [call])[calls.length]? = some call := List.getElem?_concat_length

/-- Earlier calls are not changed by one more. -/
theorem gap_snoc_of_lt {calls : List RxCall} {call : RxCall} {k : ℕ} (h : k < calls.length) :
    Gap (calls ++ [call]) k ↔ Gap calls k := by
  unfold Gap
  rw [List.getElem?_append_left h, List.take_append_of_le_length h.le]

theorem gap_snoc_length {calls : List RxCall} {call : RxCall} :
    Gap (calls ++ [call]) calls.length ↔
      call = .loss ∨ ∃ byte, call = .receive byte ∧ (rxAfter calls).count = serialCapacity := by
  unfold Gap
  rw [getElem?_snoc_length, List.take_left]
  simp only [Option.some.injEq]

/-- **Marks.** The queue is marked after a gap that no take followed. -/
theorem lost_iff (calls : List RxCall) :
    (rxAfter calls).lost = true ↔
      ∃ j < calls.length, Gap calls j ∧
        ∀ i, j < i → i < calls.length → calls[i]? ≠ some .take := by
  induction calls using List.reverseRecOn with
  | nil =>
    constructor
    · intro h
      cases h
    · rintro ⟨j, hj, -⟩
      cases hj
  | append_singleton calls call ih =>
    rw [rxAfter_snoc, rxStep_lost, ih, List.length_append, List.length_singleton]
    constructor
    · rintro (⟨hne, j, hj, hgap, hbetween⟩ | hgap)
      · refine ⟨j, by omega, (gap_snoc_of_lt hj).mpr hgap, fun i hji hi => ?_⟩
        rcases Nat.lt_succ_iff_lt_or_eq.mp hi with hlt | rfl
        · rw [List.getElem?_append_left hlt]
          exact hbetween i hji hlt
        · rw [getElem?_snoc_length]
          exact fun h => hne (Option.some.inj h)
      · refine ⟨calls.length, by omega, gap_snoc_length.mpr ?_, fun i h1 h2 => by omega⟩
        rcases hgap with h | ⟨⟨byte, h⟩, hfull⟩
        · exact Or.inl h
        · exact Or.inr ⟨byte, h, hfull⟩
    · rintro ⟨j, hj, hgap, hbetween⟩
      rcases Nat.lt_succ_iff_lt_or_eq.mp hj with hlt | rfl
      · left
        have hlast := hbetween calls.length hlt (by omega)
        rw [getElem?_snoc_length] at hlast
        refine ⟨fun h => hlast (congrArg some h), j, hlt, (gap_snoc_of_lt hlt).mp hgap,
          fun i hji hi => ?_⟩
        have := hbetween i hji (by omega)
        rwa [List.getElem?_append_left hi] at this
      · right
        rcases gap_snoc_length.mp hgap with h | ⟨byte, h, hfull⟩
        · exact Or.inl h
        · exact Or.inr ⟨⟨byte, h⟩, hfull⟩

/-! ### Places -/

/-- The places of the calls that receive a byte or lose some. -/
def rxArrivals (calls : List RxCall) : List ℕ :=
  (List.range calls.length).filter fun i => calls[i]? ≠ some .take

/-- The places of the bytes that wait, oldest first. -/
def waiting (calls : List RxCall) : List ℕ :=
  (rxArrivals calls).drop ((rxArrivals calls).length - (rxAfter calls).count)

theorem rxArrivals_snoc (calls : List RxCall) (call : RxCall) :
    rxArrivals (calls ++ [call]) =
      rxArrivals calls ++ if call = .take then [] else [calls.length] := by
  unfold rxArrivals
  rw [List.length_append, List.length_singleton, List.range_succ, List.filter_append]
  congr 1
  · refine List.filter_congr fun i hi => ?_
    rw [List.getElem?_append_left (List.mem_range.mp hi)]
  · rw [List.filter_singleton, getElem?_snoc_length]
    by_cases h : call = .take <;> simp [h]

theorem mem_rxArrivals {calls : List RxCall} {i : ℕ} :
    i ∈ rxArrivals calls ↔ i < calls.length ∧ calls[i]? ≠ some .take := by
  unfold rxArrivals
  rw [List.mem_filter, List.mem_range, decide_eq_true_iff]

theorem rxArrivals_sorted (calls : List RxCall) : (rxArrivals calls).Pairwise (· < ·) :=
  List.Pairwise.filter _ List.pairwise_lt_range

theorem waiting_suffix (calls : List RxCall) : waiting calls <:+ rxArrivals calls :=
  List.drop_suffix _ _

/-- The calls after which the places of what waits are known. -/
structure PlacesOk (calls : List RxCall) : Prop where
  count : (rxAfter calls).count ≤ (rxArrivals calls).length
  bytes : (waiting calls).map (calls[·]?) =
    (rxAfter calls).contents.map fun byte => some (.receive byte)

theorem rxStep_count (rx : SerialRx) (call : RxCall) :
    (rxStep rx call).1.count =
      match call with
      | .receive _ => if rx.count = serialCapacity then 1 else rx.count + 1
      | .loss => 0
      | .take => rx.count - 1 := by
  cases call with
  | receive byte =>
    show (serialReceive rx byte).count = _
    rw [← SerialRx.length_contents, contents_serialReceive]
    dsimp only
    split_ifs <;> simp
  | loss => rfl
  | take =>
    dsimp only
    rw [← SerialRx.length_contents, (rxStep_take rx).2.1, List.length_tail, rx.length_contents]

/-- **What waits after one more call.** -/
theorem waiting_snoc {calls : List RxCall} (h : (rxAfter calls).count ≤ (rxArrivals calls).length)
    (call : RxCall) :
    waiting (calls ++ [call]) =
      match call with
      | .receive _ =>
        if (rxAfter calls).count = serialCapacity then [calls.length]
        else waiting calls ++ [calls.length]
      | .loss => []
      | .take => (waiting calls).tail := by
  unfold waiting
  rw [rxAfter_snoc, rxStep_count, rxArrivals_snoc]
  cases call with
  | receive byte =>
    rw [if_neg (by simp), List.length_append, List.length_singleton]
    dsimp only
    split_ifs with hfull
    · rw [Nat.add_sub_cancel, List.drop_left]
    · rw [Nat.add_sub_add_right, List.drop_append_of_le_length (Nat.sub_le _ _)]
  | loss =>
    dsimp only
    rw [Nat.sub_zero, List.drop_length]
  | take =>
    rw [if_pos rfl, List.append_nil]
    dsimp only
    rw [List.tail_drop]
    by_cases h0 : (rxAfter calls).count = 0
    · rw [h0, List.drop_eq_nil_of_le (by omega), List.drop_eq_nil_of_le (by omega)]
    · congr 1
      omega

theorem waiting_lt {calls : List RxCall} {i : ℕ} (h : i ∈ waiting calls) : i < calls.length :=
  (mem_rxArrivals.mp ((waiting_suffix calls).subset h)).1

/-- Earlier places hold the calls that they held. -/
theorem map_getElem?_snoc {calls : List RxCall} {places : List ℕ} (call : RxCall)
    (h : ∀ i ∈ places, i < calls.length) :
    places.map ((calls ++ [call])[·]?) = places.map (calls[·]?) :=
  List.map_congr_left fun i hi => List.getElem?_append_left (h i hi)

/-- **A call keeps the places.** -/
theorem placesOk_snoc {calls : List RxCall} (h : PlacesOk calls) (call : RxCall) :
    PlacesOk (calls ++ [call]) := by
  have hcount := h.count
  have hcap := (rxAfter calls).count_le
  refine ⟨?_, ?_⟩
  · rw [rxAfter_snoc, rxStep_count, rxArrivals_snoc, List.length_append]
    cases call with
    | receive byte =>
      have hplace : (if RxCall.receive byte = .take then [] else [calls.length]).length = 1 := rfl
      rw [hplace]
      dsimp only
      split_ifs <;> omega
    | loss => exact Nat.zero_le _
    | take =>
      dsimp only
      omega
  · rw [waiting_snoc hcount, rxAfter_snoc]
    cases call with
    | receive byte =>
      dsimp only
      show _ = List.map _ (serialReceive (rxAfter calls) byte).contents
      rw [contents_serialReceive]
      split_ifs with hfull
      · rw [List.map_singleton, List.map_singleton, getElem?_snoc_length]
      · rw [List.map_append, List.map_append, map_getElem?_snoc _ fun i => waiting_lt, h.bytes,
          List.map_singleton, List.map_singleton, getElem?_snoc_length]
    | loss => rfl
    | take =>
      dsimp only
      rw [map_getElem?_snoc _ fun i hi => waiting_lt (List.mem_of_mem_tail hi),
        (rxStep_take _).2.1, List.map_tail, List.map_tail, h.bytes]

theorem placesOk (calls : List RxCall) : PlacesOk calls := by
  induction calls using List.reverseRecOn with
  | nil => exact ⟨Nat.le_refl _, rfl⟩
  | append_singleton calls call ih => exact placesOk_snoc ih call

/-- The place of the byte that the take at `k` returns. -/
def placeOf (calls : List RxCall) (k : ℕ) : ℕ := (waiting (calls.take k)).headD 0

theorem tookByte_waiting {calls : List RxCall} {k : ℕ} {byte : UInt8} (h : TookByte calls k byte) :
    ∃ rest, waiting (calls.take k) = placeOf calls k :: rest ∧
      waiting (calls.take (k + 1)) = rest ∧
      (calls.take k)[placeOf calls k]? = some (.receive byte) := by
  obtain ⟨hk, hhead⟩ := tookByte_iff.mp h
  have hok := placesOk (calls.take k)
  have hnext : waiting (calls.take (k + 1)) = (waiting (calls.take k)).tail := by
    rw [take_succ_of_getElem? hk, waiting_snoc hok.count]
  unfold placeOf
  cases hc : (rxAfter (calls.take k)).contents with
  | nil =>
    rw [hc] at hhead
    cases hhead
  | cons b bs =>
    rw [hc, List.head?_cons, Option.some.injEq] at hhead
    have hbytes := hok.bytes
    rw [hc, List.map_cons, hhead] at hbytes
    obtain ⟨place, rest, hw, hplace, -⟩ := List.map_eq_cons_iff.mp hbytes
    rw [hw] at hnext ⊢
    exact ⟨rest, rfl, hnext, hplace⟩

/-- The place is before the take, and the byte was received there. -/
theorem placeOf_source {calls : List RxCall} {k : ℕ} {byte : UInt8} (h : TookByte calls k byte) :
    placeOf calls k < k ∧ calls[placeOf calls k]? = some (.receive byte) := by
  obtain ⟨rest, hw, -, hbyte⟩ := tookByte_waiting h
  have hlt : placeOf calls k < (calls.take k).length :=
    waiting_lt (by rw [hw]; exact List.mem_cons_self)
  rw [List.length_take] at hlt
  rw [List.getElem?_take_of_lt (by omega)] at hbyte
  exact ⟨by omega, hbyte⟩

/-- What waits later arrived later. -/
theorem waiting_after {calls : List RxCall} {j k : ℕ} {byte : UInt8} (h : TookByte calls j byte)
    (hjk : j < k) : ∀ i ∈ waiting (calls.take k), placeOf calls j < i := by
  obtain ⟨rest, hw, hnext, -⟩ := tookByte_waiting h
  obtain ⟨hplace, -⟩ := placeOf_source h
  induction k, hjk using Nat.le_induction with
  | base =>
    intro i hi
    rw [hnext] at hi
    have hsorted := (rxArrivals_sorted (calls.take j)).sublist (waiting_suffix _).sublist
    rw [hw] at hsorted
    exact (List.pairwise_cons.mp hsorted).1 i hi
  | succ k hk ih =>
    intro i hi
    cases hcall : calls[k]? with
    | none =>
      rw [List.take_add_one, hcall] at hi
      exact ih i (by simpa using hi)
    | some call =>
      have hlen : (calls.take k).length = k := by
        have := (List.getElem?_eq_some_iff.mp hcall).1
        rw [List.length_take]
        omega
      rw [take_succ_of_getElem? hcall, waiting_snoc (placesOk _).count, hlen] at hi
      cases call with
      | receive b =>
        dsimp only at hi
        split_ifs at hi
        · rw [List.mem_singleton.mp hi]
          omega
        · rcases List.mem_append.mp hi with hi | hi
          · exact ih i hi
          · rw [List.mem_singleton.mp hi]
            omega
      | loss => cases hi
      | take => exact ih i (List.mem_of_mem_tail hi)

/-! ### Neighbours -/

/-- Unless the queue is marked, the arrivals are the places `front` and then what waits. -/
def Joined (front : List ℕ) (calls : List RxCall) : Prop :=
  (rxAfter calls).lost = true ∨ rxArrivals calls = front ++ waiting calls

/-- A call other than a take adds one place at the end, or marks the queue. -/
theorem joined_snoc {front : List ℕ} {calls : List RxCall} (h : Joined front calls) {call : RxCall}
    (htake : call ≠ .take) : Joined front (calls ++ [call]) := by
  unfold Joined
  rw [rxAfter_snoc, rxStep_lost]
  rcases h with hlost | h
  · exact Or.inl (Or.inl ⟨htake, hlost⟩)
  · rw [waiting_snoc (placesOk calls).count, rxArrivals_snoc, if_neg htake]
    cases call with
    | receive byte =>
      by_cases hfull : (rxAfter calls).count = serialCapacity
      · exact Or.inl (Or.inr (Or.inr ⟨⟨byte, rfl⟩, hfull⟩))
      · right
        dsimp only
        rw [if_neg hfull, h, List.append_assoc]
    | loss => exact Or.inl (Or.inr (Or.inl rfl))
    | take => exact absurd rfl htake

theorem joined_take {front : List ℕ} {calls : List RxCall} (h : Joined front calls)
    (hlost : (rxAfter calls).lost = false) (hempty : (rxAfter calls).contents = []) :
    Joined front (calls ++ [.take]) := by
  have hwaiting : waiting calls = [] := by
    have hbytes := (placesOk calls).bytes
    rw [hempty] at hbytes
    exact List.map_eq_nil_iff.mp hbytes
  right
  rw [rxArrivals_snoc, if_pos rfl, List.append_nil, waiting_snoc (placesOk calls).count]
  dsimp only
  rw [hwaiting, List.tail_nil]
  rcases h with h | h
  · rw [hlost] at h
    cases h
  · rw [h, hwaiting]

/-- **Neighbours stay neighbours** as long as no take returns a byte or a mark. -/
theorem joined_after {front : List ℕ} {calls : List RxCall} {j k : ℕ} (hjk : j ≤ k)
    (hk : k ≤ calls.length) (h : Joined front (calls.take j))
    (hquiet : ∀ i, j ≤ i → i < k → ¬ Marked calls i ∧ ∀ byte, ¬ TookByte calls i byte) :
    Joined front (calls.take k) := by
  induction k, hjk using Nat.le_induction with
  | base => exact h
  | succ k hjk ih =>
    have ih := ih (by omega) fun i hji hi => hquiet i hji (by omega)
    obtain ⟨hmark, hbyte⟩ := hquiet k hjk (by omega)
    have hcall : calls[k]? = some calls[k] := List.getElem?_eq_getElem (by omega)
    rw [take_succ_of_getElem? hcall]
    by_cases htake : calls[k] = .take
    · rw [htake] at hcall ⊢
      refine joined_take ih ?_ ?_
      · by_contra hlost
        exact hmark (marked_iff.mpr ⟨hcall, by simpa using hlost⟩)
      · cases hc : (rxAfter (calls.take k)).contents with
        | nil => rfl
        | cons byte rest => exact absurd (tookByte_iff.mpr ⟨hcall, by rw [hc]; rfl⟩) (hbyte byte)
    · exact joined_snoc ih htake

/-- Between the places in front and a byte that is taken without a mark nothing arrived. -/
theorem joined_between {front : List ℕ} {calls : List RxCall} {k : ℕ} {byte : UInt8}
    (h : Joined front (calls.take k)) (hbyte : TookByte calls k byte) (hmark : ¬ Marked calls k)
    {i : ℕ} (hfront : ∀ place ∈ front, place < i) (hi : i < placeOf calls k) :
    calls[i]? = some .take := by
  obtain ⟨hk, -⟩ := tookByte_iff.mp hbyte
  obtain ⟨rest, hw, -, -⟩ := tookByte_waiting hbyte
  obtain ⟨hplace, -⟩ := placeOf_source hbyte
  have hlen : (calls.take k).length = k := by
    have := (List.getElem?_eq_some_iff.mp hk).1
    rw [List.length_take]
    omega
  have hplaces : rxArrivals (calls.take k) = front ++ placeOf calls k :: rest := by
    rcases h with h | h
    · exact absurd (marked_iff.mpr ⟨hk, h⟩) hmark
    · rw [h, hw]
  by_contra hne
  have hmem : i ∈ rxArrivals (calls.take k) :=
    mem_rxArrivals.mpr ⟨by omega, by rw [List.getElem?_take_of_lt (by omega)]; exact hne⟩
  have hsorted := rxArrivals_sorted (calls.take k)
  rw [hplaces] at hmem hsorted
  rcases List.mem_append.mp hmem with hmem | hmem
  · exact absurd (hfront i hmem) (lt_irrefl i)
  · rcases List.mem_cons.mp hmem with rfl | hmem
    · omega
    · have := (List.pairwise_cons.mp (List.pairwise_append.mp hsorted).2.1).1 i hmem
      omega

/-! ### Conservation -/

/-- The bytes that are received, in order. -/
def receivedBytes (calls : List RxCall) : List UInt8 :=
  calls.filterMap fun call => match call with
    | .receive byte => some byte
    | _ => none

/-- The byte of a take that returns one. -/
def byteReturned (returned : Option (UInt64 × UInt8)) : Option UInt8 :=
  match returned with
  | some (flags, byte) => if flags &&& serialByte ≠ 0 then some byte else none
  | none => none

/-- The bytes that are returned, in order. -/
def returnedBytes (calls : List RxCall) : List UInt8 :=
  (Run.trace rxStep SerialRx.zero calls).filterMap fun entry => byteReturned entry.output

theorem returnedBytes_snoc (calls : List RxCall) (call : RxCall) :
    returnedBytes (calls ++ [call]) =
      returnedBytes calls ++ (byteReturned (rxStep (rxAfter calls) call).2).toList := by
  unfold returnedBytes
  rw [Run.trace_snoc, List.filterMap_append]
  congr 1

theorem receivedBytes_snoc (calls : List RxCall) (call : RxCall) :
    receivedBytes (calls ++ [call]) = receivedBytes calls ++ receivedBytes [call] :=
  List.filterMap_append

theorem byteReturned_take (rx : SerialRx) :
    (byteReturned (rxStep rx .take).2).toList ++ rx.contents.tail = rx.contents := by
  have hflags := flags_byte rx.lost (!rx.contents.isEmpty)
  rw [(rxStep_take rx).1]
  unfold byteReturned
  dsimp only
  cases hc : rx.contents with
  | nil =>
    rw [hc] at hflags
    rw [if_neg (by rw [hflags]; simp)]
    rfl
  | cons byte rest =>
    rw [hc] at hflags
    rw [if_pos (by rw [hflags]; rfl)]
    rfl

/-- Nothing is lost: what was received is what was returned and what waits. -/
structure Conserved (calls : List RxCall) : Prop where
  clean : (rxAfter calls).lost = false
  bytes : returnedBytes calls ++ (rxAfter calls).contents = receivedBytes calls

/-- A byte for which there is room, or a take, loses nothing. -/
theorem conserved_snoc {calls : List RxCall} (h : Conserved calls) {call : RxCall}
    (hloss : call ≠ .loss)
    (hroom : ∀ byte, call = .receive byte → (rxAfter calls).count ≠ serialCapacity) :
    Conserved (calls ++ [call]) := by
  refine ⟨?_, ?_⟩
  · rw [rxAfter_snoc, ← Bool.not_eq_true, rxStep_lost, h.clean]
    rintro (⟨-, hl⟩ | hl | ⟨⟨byte, hr⟩, hfull⟩)
    · cases hl
    · exact hloss hl
    · exact hroom byte hr hfull
  · rw [returnedBytes_snoc, receivedBytes_snoc, rxAfter_snoc, ← h.bytes]
    cases call with
    | receive byte =>
      show returnedBytes calls ++ [] ++ (serialReceive (rxAfter calls) byte).contents =
        returnedBytes calls ++ (rxAfter calls).contents ++ [byte]
      rw [contents_serialReceive, if_neg (hroom byte rfl), List.append_nil, List.append_assoc]
    | loss => exact absurd rfl hloss
    | take =>
      rw [(rxStep_take _).2.1, List.append_assoc, byteReturned_take]
      exact (List.append_nil _).symm

/-- No loss is reported, and at most as many bytes as the queue holds are outstanding at any
time. -/
structure Bounded (calls : List RxCall) : Prop where
  noLoss : RxCall.loss ∉ calls
  outstanding : ∀ front, front <+: calls →
    (receivedBytes front).length ≤ (returnedBytes front).length + serialCapacity

theorem Bounded.initial {calls front : List RxCall} (h : Bounded calls) (hf : front <+: calls) :
    Bounded front :=
  ⟨fun hl => h.noLoss (hf.subset hl), fun inner hi => h.outstanding inner (hi.trans hf)⟩

theorem conserved_of_bounded {calls : List RxCall} (h : Bounded calls) : Conserved calls := by
  induction calls using List.reverseRecOn with
  | nil => exact ⟨rfl, rfl⟩
  | append_singleton calls call ih =>
    have ih := ih (h.initial (List.prefix_append _ _))
    refine conserved_snoc ih ?_ ?_
    · rintro rfl
      exact h.noLoss (by simp)
    · rintro byte rfl hfull
      have hout := h.outstanding _ List.prefix_rfl
      have hlen := congrArg List.length ih.bytes
      rw [receivedBytes_snoc, returnedBytes_snoc, List.length_append, List.length_append] at hout
      rw [List.length_append, SerialRx.length_contents, hfull] at hlen
      have hone : (receivedBytes [.receive byte]).length = 1 := rfl
      have hnone : (byteReturned (rxStep (rxAfter calls) (.receive byte)).2).toList.length = 0 := rfl
      omega

/-- Takes lose nothing and empty the queue. -/
theorem conserved_takes {calls : List RxCall} (h : Conserved calls) (n : ℕ) :
    Conserved (calls ++ List.replicate n .take) ∧
      (rxAfter (calls ++ List.replicate n .take)).contents = (rxAfter calls).contents.drop n := by
  induction n with
  | zero => exact ⟨by simpa using h, by simp⟩
  | succ n ih =>
    obtain ⟨hc, hw⟩ := ih
    rw [List.replicate_succ', ← List.append_assoc]
    refine ⟨conserved_snoc hc (by simp) (fun byte hb => by cases hb), ?_⟩
    rw [rxAfter_snoc, (rxStep_take _).2.1, hw, List.tail_drop]

theorem not_marked_of_bounded {calls : List RxCall} (h : Bounded calls) (n k : ℕ) :
    ¬ Marked (calls ++ List.replicate n .take) k := by
  intro hm
  obtain ⟨-, hlost⟩ := marked_iff.mp hm
  have hclean : Conserved ((calls ++ List.replicate n RxCall.take).take k) := by
    rw [List.take_append, List.take_replicate]
    by_cases hk : k ≤ calls.length
    · rw [Nat.sub_eq_zero_of_le hk, Nat.zero_min]
      exact (conserved_takes (conserved_of_bounded (h.initial (List.take_prefix _ _))) 0).1
    · rw [List.take_of_length_le (by omega)]
      exact (conserved_takes (conserved_of_bounded h) _).1
  rw [hclean.clean] at hlost
  cases hlost

/-! ### The queue is a FIFO -/

/-- What takes return, when the byte of the take at `k` was received at `place k`. -/
structure SerialFifo (calls : List RxCall) (place : ℕ → ℕ) : Prop where
  /-- A take is marked if bytes were lost since the take before it. -/
  marked : ∀ k, calls[k]? = some .take →
    (Marked calls k ↔ ∃ j < k, Gap calls j ∧ ∀ i, j < i → i < k → calls[i]? ≠ some .take)
  /-- A byte that is returned was received before. -/
  source : ∀ k byte, TookByte calls k byte → place k < k ∧ calls[place k]? = some (.receive byte)
  /-- Bytes are returned in the order of their reception, and none twice. -/
  order : ∀ j k byte byte', j < k → TookByte calls j byte → TookByte calls k byte' →
    place j < place k
  /-- Without a mark between two bytes, one was received right after the other. -/
  adjacent : ∀ j k byte byte', j < k → TookByte calls j byte → TookByte calls k byte' →
    (∀ i, j < i → i < k → ∀ b, ¬ TookByte calls i b) → (∀ i, j < i → i ≤ k → ¬ Marked calls i) →
    ∀ i, place j < i → i < place k → calls[i]? = some .take
  /-- Without a mark before the first byte, it was received first. -/
  first : ∀ k byte, TookByte calls k byte → (∀ i < k, ∀ b, ¬ TookByte calls i b) →
    (∀ i ≤ k, ¬ Marked calls i) → ∀ i < place k, calls[i]? = some .take

theorem length_take_of_getElem? {calls : List RxCall} {k : ℕ} {call : RxCall}
    (h : calls[k]? = some call) : (calls.take k).length = k := by
  have := (List.getElem?_eq_some_iff.mp h).1
  rw [List.length_take]
  omega

theorem gap_take {calls : List RxCall} {j k : ℕ} (h : j < k) : Gap (calls.take k) j ↔ Gap calls j := by
  unfold Gap
  rw [List.getElem?_take_of_lt h, List.take_take, Nat.min_eq_left h.le]

/-- The mark of a take tells of a gap since the take before it. -/
theorem marked_iff_gap {calls : List RxCall} {k : ℕ} (hk : calls[k]? = some .take) :
    Marked calls k ↔ ∃ j < k, Gap calls j ∧ ∀ i, j < i → i < k → calls[i]? ≠ some .take := by
  rw [marked_iff, lost_iff, length_take_of_getElem? hk]
  constructor
  · rintro ⟨-, j, hj, hgap, hbetween⟩
    refine ⟨j, hj, (gap_take hj).mp hgap, fun i hji hi => ?_⟩
    rw [← List.getElem?_take_of_lt hi]
    exact hbetween i hji hi
  · rintro ⟨j, hj, hgap, hbetween⟩
    refine ⟨hk, j, hj, (gap_take hj).mpr hgap, fun i hji hi => ?_⟩
    rw [List.getElem?_take_of_lt hi]
    exact hbetween i hji hi

/-- Behind a take that returns a byte, the arrivals end with its place and what waits. -/
theorem joined_tookByte {calls : List RxCall} {j : ℕ} {byte : UInt8} (h : TookByte calls j byte) :
    ∃ front, Joined front (calls.take (j + 1)) ∧ ∀ place ∈ front, place ≤ placeOf calls j := by
  obtain ⟨hcall, -⟩ := tookByte_iff.mp h
  obtain ⟨rest, hw, hnext, -⟩ := tookByte_waiting h
  obtain ⟨front, hfront⟩ := waiting_suffix (calls.take j)
  refine ⟨front ++ [placeOf calls j], Or.inr ?_, fun place hp => ?_⟩
  · rw [take_succ_of_getElem? hcall, rxArrivals_snoc, if_pos rfl, List.append_nil,
      ← take_succ_of_getElem? hcall, hnext, ← hfront, hw, List.append_assoc]
    rfl
  · have hsorted := rxArrivals_sorted (calls.take j)
    rw [← hfront, hw] at hsorted
    rcases List.mem_append.mp hp with hp | hp
    · exact ((List.pairwise_append.mp hsorted).2.2 place hp _ List.mem_cons_self).le
    · exact (List.mem_singleton.mp hp).le

theorem serialFifo_placeOf (calls : List RxCall) : SerialFifo calls (placeOf calls) := by
  refine ⟨fun k hk => marked_iff_gap hk, fun k byte h => placeOf_source h,
    fun j k byte byte' hjk hj hk => ?_, fun j k byte byte' hjk hj hk hbytes hmarks i hji hik => ?_,
    fun k byte hk hbytes hmarks i hik => ?_⟩
  · obtain ⟨rest, hw, -, -⟩ := tookByte_waiting hk
    exact waiting_after hj hjk _ (by rw [hw]; exact List.mem_cons_self)
  · obtain ⟨front, hbase, hfront⟩ := joined_tookByte hj
    have hlen := (List.getElem?_eq_some_iff.mp (tookByte_iff.mp hk).1).1
    have hjoined := joined_after hjk hlen.le hbase fun i hji hi =>
      ⟨hmarks i hji hi.le, hbytes i hji hi⟩
    exact joined_between hjoined hk (hmarks k hjk le_rfl)
      (fun place hp => (hfront place hp).trans_lt hji) hik
  · have hlen := (List.getElem?_eq_some_iff.mp (tookByte_iff.mp hk).1).1
    have hjoined : Joined [] (calls.take k) :=
      joined_after (Nat.zero_le k) hlen.le (Or.inr rfl) fun j _ hj =>
        ⟨hmarks j hj.le, hbytes j hj⟩
    exact joined_between hjoined hk (hmarks k le_rfl) (fun place hp => by cases hp) hik

/-- **The receive queue is a FIFO with honest gap markers**, over every sequence of calls; and where
nothing is lost and no more than 256 bytes are outstanding, draining it returns every byte once. -/
theorem serial_fifo (calls : List RxCall) :
    (rxAfter calls).head < 256 ∧ (rxAfter calls).count ≤ 256 ∧
      (∃ place, SerialFifo calls place) ∧
      (Bounded calls → ∀ n, (rxAfter calls).count ≤ n →
        returnedBytes (calls ++ List.replicate n .take) = receivedBytes calls ∧
          ∀ k, ¬ Marked (calls ++ List.replicate n .take) k) := by
  refine ⟨(rxAfter calls).head_lt, (rxAfter calls).count_le, ⟨_, serialFifo_placeOf calls⟩,
    fun h n hn => ⟨?_, not_marked_of_bounded h n⟩⟩
  obtain ⟨hc, hw⟩ := conserved_takes (conserved_of_bounded h) n
  have hreceived : receivedBytes (List.replicate n .take) = [] := by
    unfold receivedBytes
    rw [List.filterMap_replicate_of_none rfl]
  have hbytes := hc.bytes
  rw [hw, List.drop_eq_nil_of_le (by rw [SerialRx.length_contents]; exact hn),
    List.append_nil] at hbytes
  rw [hbytes]
  show receivedBytes (calls ++ _) = _
  unfold receivedBytes at hreceived ⊢
  rw [List.filterMap_append, hreceived, List.append_nil]

end Tcs
