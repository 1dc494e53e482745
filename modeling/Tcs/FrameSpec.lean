/-
# What the frame decoder decodes

A sequence of bytes and discards after `tcs_signed_begin`, and what
`tcs_signed_feed` makes of it, told from the sequence alone. Behind the line
feed of an earlier `\r\n` the text of a frame goes up to the first delimiter
(`frameText`, `frameEnd`). The text is a frame if it is hexadecimal digits and
nothing else (`frameHex`), and a whole one if there are 384 of them.

`frameState` is the state for a sequence. One more input is one case of
`frameEnd`, and the decoder follows it (`frameState_byte`), so the feedback of
every byte and the packet after it are those of the sequence.

Key definitions: `frameText`, `frameEnd`, `frameHex`, `hexPacket`,
`frameState`.
Key theorems: `hexPacket_snoc`, `frameState_byte`, `frameState_run`,
`signed_frame_grammar`.
-/
import Tcs.LineInput
import Tcs.Lib.Run

namespace Tcs

/-- One call of `tcs_signed_feed` or `tcs_signed_discard`. -/
def frameStep (s : SignedInput) : EditorInput → SignedInput × LineFeedback
  | .byte b => ((signedFeed s b).2, (signedFeed s b).1)
  | .discard => (signedDiscard, .silent)

/-! ### The text of a frame -/

/-- The value of a digit. -/
def EditorInput.digit : EditorInput → Option UInt8
  | .byte b => hexNibble b
  | .discard => none

/-- The sequence without the line feed that belongs to a delimiter before it. -/
def frameBody (cr : Bool) (ins : List EditorInput) : List EditorInput :=
  if cr ∧ ins.head? = some (.byte lineFeedByte) then ins.tail else ins

/-- What stands before the first delimiter. -/
def frameText (cr : Bool) (ins : List EditorInput) : List EditorInput :=
  (frameBody cr ins).takeWhile (!·.delimits)

/-- The first delimiter and what follows. -/
def frameEnd (cr : Bool) (ins : List EditorInput) : List EditorInput :=
  (frameBody cr ins).dropWhile (!·.delimits)

/-- The digits of a text, if nothing was lost, there is nothing else in it and they are at most
384. -/
def frameHex (text : List EditorInput) : Option (List UInt8) :=
  (text.mapM EditorInput.digit).bind fun digits =>
    if digits.length ≤ 2 * adminPacketBytes then some digits else none

/-- The text is exactly 384 digits. -/
def frameWhole (text : List EditorInput) : Bool :=
  (frameHex text).any (·.length = 2 * adminPacketBytes)

/-- The bytes that digits stand for: two for a byte, the high one first. A digit that is missing
is zero. -/
def hexPacket (digits : List UInt8) : Vector UInt8 adminPacketBytes :=
  Vector.ofFn fun i => 16 * digits.getD (2 * i) 0 + digits.getD (2 * i + 1) 0

/-- No bytes. -/
def zeroPacket : Vector UInt8 adminPacketBytes := Vector.replicate adminPacketBytes 0

/-! ### Digits in place -/

theorem hexPacket_nil : hexPacket [] = zeroPacket := by
  ext i hi
  simp [hexPacket, zeroPacket]

theorem hexNibble_lt {byte nibble : UInt8} (h : hexNibble byte = some nibble) : nibble < 16 := by
  unfold hexNibble at h
  split_ifs at h with h1 h2
  · cases h
    grind
  · cases h
    grind

theorem nibble_place {x y : UInt8} (hx : x < 16) (hy : y < 16) :
    x <<< 4 = 16 * x ∧ 16 * x ||| y = 16 * x + y := by
  have key : ∀ a < 16, ∀ b < 16, UInt8.ofNat a <<< 4 = 16 * UInt8.ofNat a ∧
      16 * UInt8.ofNat a ||| UInt8.ofNat b = 16 * UInt8.ofNat a + UInt8.ofNat b := by
    decide +kernel
  have h := key x.toNat (UInt8.lt_iff_toNat_lt.mp hx) y.toNat (UInt8.lt_iff_toNat_lt.mp hy)
  rwa [UInt8.ofNat_toNat, UInt8.ofNat_toNat] at h

theorem getD_snoc (digits : List UInt8) (x : UInt8) (k : ℕ) :
    (digits ++ [x]).getD k 0 = if k = digits.length then x else digits.getD k 0 := by
  rcases Nat.lt_trichotomy k digits.length with h | rfl | h
  · rw [if_neg (Nat.ne_of_lt h), List.getD_append _ _ _ _ h]
  · rw [if_pos rfl, List.getD_append_right _ _ _ _ le_rfl, Nat.sub_self]
    rfl
  · rw [if_neg (Nat.ne_of_gt h), List.getD_eq_default _ _ (by simpa using h),
      List.getD_eq_default _ _ (Nat.le_of_lt h)]

theorem getElem_hexPacket (digits : List UInt8) {i : ℕ} (hi : i < adminPacketBytes) :
    (hexPacket digits)[i] = 16 * digits.getD (2 * i) 0 + digits.getD (2 * i + 1) 0 := by
  rw [hexPacket, Vector.getElem_ofFn]

/-- **The next digit** is written to its half of the byte in place. -/
theorem hexPacket_snoc {digits : List UInt8} {x : UInt8} (hd : ∀ y ∈ digits, y < 16)
    (hx : x < 16) :
    (hexPacket digits).setIfInBounds (digits.length / 2)
        (if digits.length % 2 ≠ 0 then
          (hexPacket digits).toList.getD (digits.length / 2) 0 ||| x
        else x <<< 4) =
      hexPacket (digits ++ [x]) := by
  ext i hi
  rw [Vector.getElem_setIfInBounds hi, getElem_hexPacket _ hi, getElem_hexPacket _ hi, getD_snoc,
    getD_snoc]
  by_cases hplace : digits.length / 2 = i
  swap
  · rw [if_neg hplace, if_neg (by omega), if_neg (by omega)]
  rw [if_pos hplace]
  rcases Nat.mod_two_eq_zero_or_one digits.length with heven | hodd
  · have hn : digits.length = 2 * i := by omega
    rw [if_neg (by omega), if_pos hn.symm, if_neg (by omega), List.getD_eq_default _ _ (by omega),
      (nibble_place hx hx).1, UInt8.add_zero]
  · have hn : digits.length = 2 * i + 1 := by omega
    -- the high digit stands alone so far
    have hhigh : digits.getD (2 * i) 0 < 16 := by
      rw [List.getD_eq_getElem _ _ (by omega)]
      exact hd _ (List.getElem_mem _)
    have hlist : (hexPacket digits).toList.getD (digits.length / 2) 0 = 16 * digits.getD (2 * i) 0 := by
      rw [hplace, List.getD_eq_getElem _ _ (by rw [Vector.length_toList]; exact hi),
        Vector.getElem_toList, getElem_hexPacket _ hi,
        List.getD_eq_default (n := 2 * i + 1) _ _ (by omega), UInt8.add_zero]
    rw [if_pos (by omega), if_neg (by omega), if_pos hn.symm, hlist, (nibble_place hhigh hx).2]

/-! ### The state for a sequence -/

/-- The state that holds a text, with the flag `previous_cr`. -/
def frameHeld (text : List EditorInput) (previousCr : Bool) : SignedInput :=
  match frameHex text with
  | some digits => ⟨hexPacket digits, digits.length, false, previousCr, false⟩
  | none => { signedDiscard with previousCr := previousCr }

/-- The state after the delimiter of a text. -/
def frameDone (text : List EditorInput) (d : EditorInput) : SignedInput :=
  { (if d ≠ .byte ctrlC ∧ frameWhole text then frameHeld text false else signedDiscard)
    with previousCr := d = .byte returnByte, completed := true }

/-- The state of the decoder for a sequence. -/
def frameState (cr : Bool) (ins : List EditorInput) : SignedInput :=
  match frameEnd cr ins with
  | [] => frameHeld (frameText cr ins) (cr && ins.isEmpty)
  | d :: _ => frameDone (frameText cr ins) d

/-- The byte is the line feed that belongs to a delimiter before the sequence. -/
def Folded (cr : Bool) (ins : List EditorInput) (i : EditorInput) : Prop :=
  cr = true ∧ ins = [] ∧ i = .byte lineFeedByte

instance (cr : Bool) (ins : List EditorInput) (i : EditorInput) : Decidable (Folded cr ins i) :=
  inferInstanceAs (Decidable (_ ∧ _ ∧ _))

/-- The feedback of a byte after a sequence. -/
def frameFeedback (cr : Bool) (ins : List EditorInput) (b : UInt8) : LineFeedback :=
  if frameEnd cr ins ≠ [] ∨ Folded cr ins (.byte b) then .silent
  else if b = ctrlC then ⟨.cancelled, "^C\r\n".toList⟩
  else if b = returnByte ∨ b = lineFeedByte then
    ⟨if frameWhole (frameText cr ins) then .ready else .rejected, "\r\n".toList⟩
  else if (frameHex (frameText cr ins ++ [.byte b])).isSome then ⟨.none, [byteChar b]⟩
  else .silent

/-! ### One more input -/

section

variable {cr : Bool} {ins : List EditorInput} {i : EditorInput}

theorem frameBody_snoc (h : ¬ Folded cr ins i) : frameBody cr (ins ++ [i]) = frameBody cr ins ++ [i] := by
  unfold frameBody
  cases ins with
  | nil =>
    have hne : ¬ (cr = true ∧ ([] ++ [i]).head? = some (.byte lineFeedByte)) := by
      rintro ⟨hcr, hi⟩
      exact h ⟨hcr, rfl, Option.some.inj hi⟩
    rw [if_neg hne, if_neg (by simp)]
  | cons a ins =>
    by_cases ha : cr = true ∧ (a :: ins).head? = some (.byte lineFeedByte)
    · rw [if_pos ha]
      exact if_pos ha
    · rw [if_neg ha]
      exact if_neg ha

/-- Behind a delimiter nothing belongs to the text. -/
theorem frame_snoc_done (h : frameEnd cr ins ≠ []) :
    frameText cr (ins ++ [i]) = frameText cr ins ∧
      frameEnd cr (ins ++ [i]) = frameEnd cr ins ++ [i] := by
  have hf : ¬ Folded cr ins i := by
    rintro ⟨rfl, rfl, -⟩
    exact h rfl
  unfold frameEnd at h ⊢
  unfold frameText
  rw [frameBody_snoc hf, List.takeWhile_append, List.dropWhile_append]
  have hne : ((frameBody cr ins).takeWhile (!·.delimits)).length ≠ (frameBody cr ins).length := by
    intro hl
    have hsum := congrArg List.length
      (List.takeWhile_append_dropWhile (p := (!·.delimits)) (l := frameBody cr ins))
    rw [List.length_append, hl] at hsum
    exact h (List.length_eq_zero_iff.mp (by omega))
  rw [if_neg hne, if_neg (by simpa using h)]
  exact ⟨rfl, rfl⟩

/-- Before the delimiter the next input is one, or belongs to the text. -/
theorem frame_snoc_going (h : frameEnd cr ins = []) (hf : ¬ Folded cr ins i) :
    frameText cr (ins ++ [i]) = (if i.delimits then frameText cr ins else frameText cr ins ++ [i]) ∧
      frameEnd cr (ins ++ [i]) = if i.delimits then [i] else [] := by
  unfold frameEnd at h ⊢
  unfold frameText
  have hall := List.dropWhile_eq_nil_iff.mp h
  rw [frameBody_snoc hf, List.takeWhile_append_of_pos hall, List.dropWhile_append_of_pos hall,
    List.takeWhile_eq_self_iff.mpr hall]
  cases hd : i.delimits with
  | true => simp [hd]
  | false => simp [hd]

theorem frameHex_snoc (text : List EditorInput) (i : EditorInput) :
    frameHex (text ++ [i]) = (frameHex text).bind fun digits =>
      if digits.length < 2 * adminPacketBytes then i.digit.map (digits ++ [·]) else none := by
  unfold frameHex
  rw [List.mapM_append, List.mapM_cons, List.mapM_nil]
  cases text.mapM EditorInput.digit with
  | none => rfl
  | some digits =>
    cases i.digit with
    | none =>
      exact (Option.bind_eq_none_iff.mpr fun digits _ => by rw [Option.map_none, ite_self]).symm
    | some x =>
      show (if (digits ++ [x]).length ≤ 2 * adminPacketBytes then some (digits ++ [x]) else none) =
        Option.bind (if digits.length ≤ 2 * adminPacketBytes then some digits else none) _
      rw [List.length_append, List.length_singleton]
      by_cases hl : digits.length < 2 * adminPacketBytes
      · rw [if_pos (by omega), if_pos (by omega), Option.bind_some, if_pos hl]
        rfl
      · rw [if_neg (by omega)]
        by_cases he : digits.length ≤ 2 * adminPacketBytes
        · rw [if_pos he, Option.bind_some, if_neg hl]
        · rw [if_neg he, Option.bind_none]

theorem frameHex_lt {text : List EditorInput} {digits : List UInt8} (h : frameHex text = some digits) :
    (∀ y ∈ digits, y < 16) ∧ digits.length ≤ 2 * adminPacketBytes := by
  induction text using List.reverseRecOn generalizing digits with
  | nil =>
    cases h
    exact ⟨fun y hy => absurd hy (List.not_mem_nil), Nat.zero_le _⟩
  | append_singleton text i ih =>
    rw [frameHex_snoc, Option.bind_eq_some_iff] at h
    obtain ⟨before, hb, h⟩ := h
    by_cases hl : before.length < 2 * adminPacketBytes
    swap
    · rw [if_neg hl] at h
      cases h
    rw [if_pos hl, Option.map_eq_some_iff] at h
    obtain ⟨x, hx, rfl⟩ := h
    refine ⟨fun y hy => ?_, ?_⟩
    · rcases List.mem_append.mp hy with hy | hy
      · exact (ih hb).1 y hy
      · rw [List.mem_singleton.mp hy]
        cases i with
        | byte b => exact hexNibble_lt hx
        | discard => cases hx
    · rw [List.length_append, List.length_singleton]
      exact hl

/-! ### The decoder follows the sequence -/

section

variable {text : List EditorInput} {previousCr : Bool} {b : UInt8}

theorem frameHeld_facts (text : List EditorInput) (previousCr : Bool) :
    (frameHeld text previousCr).completed = false ∧
      (frameHeld text previousCr).previousCr = previousCr := by
  unfold frameHeld
  cases frameHex text with
  | none => exact ⟨rfl, rfl⟩
  | some digits => exact ⟨rfl, rfl⟩

theorem frameWhole_none (h : frameHex text = none) : frameWhole text = false := by
  rw [frameWhole, h]
  rfl

theorem frameWhole_some {digits : List UInt8} (h : frameHex text = some digits) :
    frameWhole text = decide (digits.length = 2 * adminPacketBytes) := by
  rw [frameWhole, h]
  rfl

theorem signedFeed_delimiter (hb : (EditorInput.byte b).delimits = true)
    (hf : ¬ (b = lineFeedByte ∧ previousCr = true)) :
    signedFeed (frameHeld text previousCr) b =
      (if b = ctrlC then ⟨.cancelled, "^C\r\n".toList⟩
        else ⟨if frameWhole text then .ready else .rejected, "\r\n".toList⟩,
        frameDone text (.byte b)) := by
  obtain ⟨h1, h2⟩ := frameHeld_facts text previousCr
  unfold signedFeed
  rw [if_neg (by simp [h1]), if_neg (by rwa [h2])]
  dsimp only
  by_cases hc : b = ctrlC
  · subst hc
    rw [if_pos rfl, if_pos rfl]
    rfl
  rw [if_neg hc, if_neg hc, if_pos (EditorInput.end_of_delimits hb hc)]
  unfold frameDone frameHeld
  cases hx : frameHex text with
  | none =>
    rw [frameWhole_none hx]
    simp [signedDiscard]
  | some digits =>
    rw [frameWhole_some hx]
    by_cases hl : digits.length = 2 * adminPacketBytes
    · simp [hl, hc]
    · have hne : ¬ digits.length = 384 := hl
      simp [hne, hc, signedDiscard]

theorem signedFeed_text (hb : (EditorInput.byte b).delimits = false) :
    signedFeed (frameHeld text previousCr) b =
      (if (frameHex (text ++ [.byte b])).isSome then ⟨.none, [byteChar b]⟩ else .silent,
        frameHeld (text ++ [.byte b]) false) := by
  obtain ⟨hr, hl, hc⟩ := EditorInput.not_delimits hb
  obtain ⟨h1, -⟩ := frameHeld_facts text previousCr
  unfold signedFeed
  rw [if_neg (by simp [h1]), if_neg (fun h => hl h.1)]
  dsimp only
  rw [if_neg hc, if_neg (by simp [hr, hl])]
  unfold frameHeld
  rw [frameHex_snoc]
  cases hx : frameHex text with
  | none => simp [signedDiscard, hr]
  | some digits =>
    have hdigits := frameHex_lt hx
    rw [Option.bind_some]
    rw [if_neg Bool.false_ne_true]
    have hdigit : (EditorInput.byte b).digit = hexNibble b := rfl
    rw [hdigit]
    cases hn : hexNibble b with
    | none =>
      rw [Option.map_none, ite_self]
      rfl
    | some nibble =>
      dsimp only
      by_cases hfull : digits.length ≥ 2 * adminPacketBytes
      · rw [if_pos hfull, if_neg (Nat.not_lt.mpr hfull)]
        rfl
      · rw [if_neg hfull, if_pos (Nat.not_le.mp hfull), Option.map_some]
        have hpacket := hexPacket_snoc hdigits.1 (hexNibble_lt hn)
        dsimp only
        rw [hpacket, List.length_append, List.length_singleton]
        simp [hr]

end

end

section

variable {cr : Bool} {ins : List EditorInput}

theorem frameState_byte_done (h : frameEnd cr ins ≠ []) (b : UInt8) :
    signedFeed (frameState cr ins) b = (.silent, frameState cr (ins ++ [.byte b])) := by
  obtain ⟨d, later, hend⟩ := List.exists_cons_of_ne_nil h
  obtain ⟨htext, hsnoc⟩ := frame_snoc_done (i := .byte b) h
  have hstate : frameState cr (ins ++ [.byte b]) = frameState cr ins := by
    unfold frameState
    rw [hsnoc, htext, hend]
    rfl
  have hcompleted : (frameState cr ins).completed = true := by
    unfold frameState
    rw [hend]
    rfl
  rw [hstate]
  unfold signedFeed
  rw [if_pos hcompleted]

theorem frameState_byte_going (h : frameEnd cr ins = []) {b : UInt8}
    (hf : ¬ Folded cr ins (.byte b)) :
    signedFeed (frameState cr ins) b = (frameFeedback cr ins b, frameState cr (ins ++ [.byte b])) := by
  have hstate : frameState cr ins = frameHeld (frameText cr ins) (cr && ins.isEmpty) := by
    unfold frameState
    rw [h]
  obtain ⟨htext, hsnoc⟩ := frame_snoc_going h hf
  have hopen : ¬ (frameEnd cr ins ≠ [] ∨ Folded cr ins (.byte b)) := by
    rintro (hne | hfolded)
    · exact hne h
    · exact hf hfolded
  rw [hstate]
  unfold frameFeedback
  rw [if_neg hopen]
  cases hd : (EditorInput.byte b).delimits with
  | true =>
    rw [hd, if_pos rfl] at htext hsnoc
    have hdone : frameState cr (ins ++ [.byte b]) = frameDone (frameText cr ins) (.byte b) := by
      unfold frameState
      rw [hsnoc, htext]
    have hcr : ¬ (b = lineFeedByte ∧ (cr && ins.isEmpty) = true) := by
      rintro ⟨rfl, h⟩
      rw [Bool.and_eq_true, List.isEmpty_iff] at h
      exact hf ⟨h.1, h.2, rfl⟩
    rw [signedFeed_delimiter hd hcr, hdone]
    by_cases hc : b = ctrlC
    · rw [if_pos hc, if_pos hc]
    · rw [if_neg hc, if_neg hc, if_pos (EditorInput.end_of_delimits hd hc)]
  | false =>
    rw [hd, if_neg Bool.false_ne_true] at htext hsnoc
    have hgoing : frameState cr (ins ++ [.byte b]) =
        frameHeld (frameText cr ins ++ [.byte b]) false := by
      have hempty : (ins ++ [EditorInput.byte b]).isEmpty = false := by cases ins <;> rfl
      unfold frameState
      rw [hsnoc, htext, hempty, Bool.and_false]
    obtain ⟨hr, hl, hc⟩ := EditorInput.not_delimits hd
    rw [signedFeed_text hd, hgoing, if_neg hc, if_neg (not_or.mpr ⟨hr, hl⟩)]

/-- **A byte**, whatever came before it. -/
theorem frameState_byte (b : UInt8) :
    signedFeed (frameState cr ins) b = (frameFeedback cr ins b, frameState cr (ins ++ [.byte b])) := by
  by_cases h : frameEnd cr ins = []
  · by_cases hf : Folded cr ins (.byte b)
    · have hfeedback : frameFeedback cr ins b = .silent := if_pos (Or.inr hf)
      rw [hfeedback]
      -- the line feed of the `\r\n` before the frame is the first byte
      obtain ⟨rfl, rfl, hb⟩ := hf
      cases hb
      rfl
    · exact frameState_byte_going h hf
  · have hfeedback : frameFeedback cr ins b = .silent := if_pos (Or.inl h)
    rw [hfeedback]
    exact frameState_byte_done h b

theorem frameState_discard (h : frameEnd cr ins = []) :
    frameState cr (ins ++ [.discard]) = signedDiscard := by
  have hf : ¬ Folded cr ins .discard := fun h => by cases h.2.2
  obtain ⟨htext, hsnoc⟩ := frame_snoc_going h hf
  have hd : EditorInput.discard.delimits = false := rfl
  rw [hd, if_neg Bool.false_ne_true] at htext hsnoc
  unfold frameState
  rw [hsnoc, htext]
  unfold frameHeld
  rw [frameHex_snoc]
  have hnone : ((frameHex (frameText cr ins)).bind fun digits =>
      if digits.length < 2 * adminPacketBytes then
        EditorInput.discard.digit.map (digits ++ [·]) else none) = none :=
    Option.bind_eq_none_iff.mpr fun digits _ => ite_self none
  rw [hnone]
  simp [signedDiscard, SignedInput.zero]

/-- **A run of the decoder** is told by its sequence, if nothing is lost behind the delimiter. -/
theorem frameState_run (h : EditorInput.discard ∉ frameEnd cr ins) :
    Run.final frameStep (signedBegin cr) ins = frameState cr ins := by
  induction ins using List.reverseRecOn with
  | nil =>
    have hbody : frameText cr [] = [] ∧ frameEnd cr [] = [] := by
      unfold frameText frameEnd frameBody
      simp
    show signedBegin cr = frameState cr []
    unfold frameState
    rw [hbody.1, hbody.2]
    show _ = SignedInput.mk (hexPacket []) 0 false (cr && true) false
    rw [hexPacket_nil, Bool.and_true]
    rfl
  | append_singleton ins i ih =>
    rw [Run.final_snoc]
    by_cases hend : frameEnd cr ins = []
    · rw [ih (by rw [hend]; exact List.not_mem_nil)]
      cases i with
      | byte b =>
        show (signedFeed (frameState cr ins) b).2 = _
        rw [frameState_byte]
      | discard => exact (frameState_discard hend).symm
    · rw [(frame_snoc_done hend).2, List.mem_append, not_or] at h
      rw [ih h.1]
      cases i with
      | byte b =>
        show (signedFeed (frameState cr ins) b).2 = _
        rw [frameState_byte]
      | discard => exact absurd (List.mem_singleton.mpr rfl) h.2

end

/-! ### The grammar -/

/-- The characters `0-9a-f`. -/
def HexDigit (b : UInt8) : Prop := (0x30 ≤ b ∧ b ≤ 0x39) ∨ (0x61 ≤ b ∧ b ≤ 0x66)

theorem hexNibble_isSome (b : UInt8) : (hexNibble b).isSome = true ↔ HexDigit b := by
  unfold hexNibble HexDigit
  split_ifs with h1 h2
  · simp [h1]
  · simp [h2]
  · simp [h1, h2]

theorem mapM_digit {text : List EditorInput} {n : ℕ} :
    (∃ digits, text.mapM EditorInput.digit = some digits ∧ digits.length = n) ↔
      ∃ bytes : List UInt8, text = bytes.map .byte ∧ bytes.length = n ∧ ∀ b ∈ bytes, HexDigit b := by
  induction text generalizing n with
  | nil =>
    constructor
    · rintro ⟨digits, h, rfl⟩
      cases h
      exact ⟨[], rfl, rfl, fun b hb => absurd hb List.not_mem_nil⟩
    · rintro ⟨bytes, h, rfl, -⟩
      rw [List.map_eq_nil_iff.mp h.symm]
      exact ⟨[], rfl, rfl⟩
  | cons i text ih =>
    constructor
    · rintro ⟨digits, h, rfl⟩
      rw [List.mapM_cons, Option.bind_eq_bind, Option.bind_eq_some_iff] at h
      obtain ⟨x, hx, h⟩ := h
      rw [Option.bind_eq_bind, Option.bind_eq_some_iff] at h
      obtain ⟨rest, hrest, heq⟩ := h
      cases heq
      obtain ⟨bytes, rfl, hl, hb⟩ := ih.mp ⟨rest, hrest, rfl⟩
      cases i with
      | discard => cases hx
      | byte b =>
        have hdigit : HexDigit b := (hexNibble_isSome b).mp (by rw [show hexNibble b = some x from hx]; rfl)
        exact ⟨b :: bytes, rfl, by rw [List.length_cons, List.length_cons, hl],
          List.forall_mem_cons.mpr ⟨hdigit, hb⟩⟩
    · rintro ⟨bytes, h, rfl, hb⟩
      cases bytes with
      | nil => cases h
      | cons b bytes =>
        cases h
        obtain ⟨hdigit, hb⟩ := List.forall_mem_cons.mp hb
        obtain ⟨rest, hrest, hl⟩ := ih.mpr ⟨bytes, rfl, rfl, hb⟩
        obtain ⟨x, hx⟩ := Option.isSome_iff_exists.mp ((hexNibble_isSome b).mpr hdigit)
        refine ⟨x :: rest, ?_, by rw [List.length_cons, List.length_cons, hl]⟩
        rw [List.mapM_cons, hrest, show (EditorInput.byte b).digit = some x from hx]
        rfl

theorem frameWhole_iff (text : List EditorInput) :
    frameWhole text = true ↔ ∃ bytes : List UInt8, text = bytes.map .byte ∧
      bytes.length = 2 * adminPacketBytes ∧ ∀ b ∈ bytes, HexDigit b := by
  rw [← mapM_digit]
  unfold frameWhole frameHex
  cases text.mapM EditorInput.digit with
  | none =>
    constructor
    · intro h
      cases h
    · rintro ⟨digits, h, -⟩
      cases h
  | some digits =>
    rw [Option.bind_some]
    by_cases hl : digits.length = 2 * adminPacketBytes
    · rw [if_pos (Nat.le_of_eq hl), Option.any_some, decide_eq_true_iff]
      exact ⟨fun _ => ⟨digits, rfl, hl⟩, fun _ => hl⟩
    · constructor
      · intro h
        split_ifs at h
        · exact absurd (of_decide_eq_true h) hl
        · cases h
      · rintro ⟨digits', h, hl'⟩
        cases h
        exact absurd hl' hl

/-- The packet for a sequence: the digits of its text, as long as it can be a frame and, behind a
delimiter, if that ended a whole one. -/
def framePacket (cr : Bool) (ins : List EditorInput) : Vector UInt8 adminPacketBytes :=
  let digits := ((frameHex (frameText cr ins)).map hexPacket).getD zeroPacket
  match frameEnd cr ins with
  | [] => digits
  | d :: _ => if d ≠ .byte ctrlC ∧ frameWhole (frameText cr ins) then digits else zeroPacket

theorem frameHeld_packet (text : List EditorInput) (previousCr : Bool) :
    (frameHeld text previousCr).packet = ((frameHex text).map hexPacket).getD zeroPacket := by
  unfold frameHeld
  cases frameHex text with
  | none => rfl
  | some digits => rfl

theorem frameState_packet (cr : Bool) (ins : List EditorInput) :
    (frameState cr ins).packet = framePacket cr ins := by
  unfold frameState framePacket
  cases frameEnd cr ins with
  | nil => exact frameHeld_packet _ _
  | cons d later =>
    dsimp only
    unfold frameDone
    dsimp only
    by_cases hw : d ≠ .byte ctrlC ∧ frameWhole (frameText cr ins) = true
    · rw [if_pos hw, if_pos hw]
      exact frameHeld_packet _ _
    · rw [if_neg hw, if_neg hw]
      rfl

/-- Ready is the answer to the delimiter of a whole frame. -/
theorem frameFeedback_ready {cr : Bool} {ins : List EditorInput} (b : UInt8) :
    (frameFeedback cr ins b).event = .ready ↔
      (frameEnd cr ins = [] ∧ ¬ Folded cr ins (.byte b) ∧ (b = returnByte ∨ b = lineFeedByte) ∧
        ∃ digits : List UInt8, frameText cr ins = digits.map .byte ∧ digits.length = 384 ∧
          ∀ d ∈ digits, HexDigit d) := by
  have hwhole := frameWhole_iff (frameText cr ins)
  rw [show 2 * adminPacketBytes = 384 from rfl] at hwhole
  rw [← hwhole]
  unfold frameFeedback
  by_cases h1 : frameEnd cr ins ≠ [] ∨ Folded cr ins (.byte b)
  · rw [if_pos h1]
    constructor
    · intro h
      cases h
    · rintro ⟨hend, hf, -⟩
      rcases h1 with h | h
      · exact absurd hend h
      · exact absurd h hf
  rw [if_neg h1]
  simp only [not_or, not_not] at h1
  by_cases h2 : b = ctrlC
  · rw [if_pos h2]
    constructor
    · intro h
      cases h
    · rintro ⟨-, -, hb, -⟩
      rw [h2] at hb
      exact absurd hb (by decide)
  rw [if_neg h2]
  by_cases h3 : b = returnByte ∨ b = lineFeedByte
  · rw [if_pos h3]
    dsimp only
    by_cases h4 : frameWhole (frameText cr ins) = true
    · rw [if_pos h4]
      exact ⟨fun _ => ⟨h1.1, h1.2, h3, h4⟩, fun _ => rfl⟩
    · rw [if_neg h4]
      exact ⟨fun h => (by cases h), fun h => absurd h.2.2.2 h4⟩
  · rw [if_neg h3]
    refine ⟨fun h => ?_, fun h => absurd h.2.2.1 h3⟩
    by_cases h4 : (frameHex (frameText cr ins ++ [.byte b])).isSome = true
    · rw [if_pos h4] at h
      cases h
    · rw [if_neg h4] at h
      cases h

/-- **The frame decoder accepts exactly one grammar.** For every sequence of bytes and losses after
`tcs_signed_begin`, with no loss behind the delimiter: the feedback of the next byte, the packet,
and, behind the delimiter, that no byte does anything; a delimiter is answered with ready exactly
when the text before it is 384 digits and nothing else. -/
theorem signed_frame_grammar (cr : Bool) (ins : List EditorInput)
    (h : EditorInput.discard ∉ frameEnd cr ins) :
    let s := Run.final frameStep (signedBegin cr) ins
    (∀ b, (signedFeed s b).1 = frameFeedback cr ins b) ∧
      s.packet = framePacket cr ins ∧
      (frameEnd cr ins ≠ [] → ∀ b, signedFeed s b = (.silent, s)) ∧
      ∀ b, (signedFeed s b).1.event = .ready ↔
        (frameEnd cr ins = [] ∧ ¬ Folded cr ins (.byte b) ∧ (b = returnByte ∨ b = lineFeedByte) ∧
          ∃ digits : List UInt8, frameText cr ins = digits.map .byte ∧ digits.length = 384 ∧
            ∀ d ∈ digits, HexDigit d) := by
  intro s
  have hs : s = frameState cr ins := frameState_run h
  rw [hs]
  have hfeedback : ∀ b, (signedFeed (frameState cr ins) b).1 = frameFeedback cr ins b := by
    intro b
    rw [frameState_byte]
  refine ⟨hfeedback, frameState_packet cr ins, ?_, ?_⟩
  · intro hend b
    rw [frameState_byte]
    refine Prod.ext (if_pos (Or.inl hend)) ?_
    unfold frameState
    rw [(frame_snoc_done hend).1, (frame_snoc_done hend).2]
    obtain ⟨d, later, hd⟩ := List.exists_cons_of_ne_nil hend
    rw [hd]
    rfl
  · intro b
    rw [hfeedback]
    exact frameFeedback_ready b

/-- A whole frame behind the line feed of an earlier delimiter, and what its own delimiter gets. -/
theorem zero_frame_ready :
    let ins := .byte lineFeedByte :: List.replicate 384 (.byte 0x30)
    let s := Run.final frameStep (signedBegin true) ins
    (signedFeed s returnByte).1.event = .ready ∧ s.packet = framePacket true ins := by
  have h := signed_frame_grammar true (.byte lineFeedByte :: List.replicate 384 (.byte 0x30))
    (by decide +kernel)
  exact ⟨(congrArg LineFeedback.event (h.1 returnByte)).trans (by decide +kernel), h.2.1⟩

end Tcs
