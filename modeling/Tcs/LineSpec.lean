/-
# What the line editor edits

`struct tcs_line` with its buffer of 128 bytes, and what `tcs_line_feed` makes
of a sequence of bytes and discards, told from the sequence alone. The line
that a delimiter ends is what stands behind the delimiter before it
(`lineSegment`), read as a stack: a printable byte or a tab is pushed, a
backspace pops, and a loss, any other byte or a 128th entry spoils it
(`lineStack`).

The buffer with its length refines the list of `Line` and is terminated at any
time (`bufferFeed_view`); the list follows the stack (`lineHeld_step`).

Key definitions: `LineBuffer`, `bufferFeed`, `lineSegment`, `lineStack`,
`lineEvent`.
Key theorems: `bufferFeed_view`, `lineHeld_step`, `line_editor_exact`.
-/
import Tcs.LineInput
import Tcs.Lib.Run

namespace Tcs

/-! ### The buffer -/

/-- `struct tcs_line`, with its array. -/
structure LineBuffer where
  bytes : Vector Char lineCapacity
  length : ℕ
  rejected : Bool
  previousCr : Bool
  completed : Bool

/-- The zeroed line. -/
def LineBuffer.zero : LineBuffer := ⟨Vector.replicate lineCapacity '\x00', 0, false, false, false⟩

/-- `line->bytes[i] = c`. -/
def LineBuffer.write (line : LineBuffer) (i : ℕ) (c : Char) : LineBuffer :=
  { line with bytes := line.bytes.setIfInBounds i c }

/-- `reset_line`. -/
def LineBuffer.reset (line : LineBuffer) : LineBuffer :=
  { line.write 0 '\x00' with length := 0, rejected := false, completed := false }

/-- `tcs_line_discard`. -/
def bufferDiscard (line : LineBuffer) : LineBuffer :=
  { line.reset with rejected := true, previousCr := false }

/-- `tcs_line_feed`. -/
def bufferFeed (line : LineBuffer) (byte : UInt8) : LineEvent × LineBuffer :=
  let line := if line.completed then line.reset else line
  if byte = lineFeedByte ∧ line.previousCr then (.none, { line with previousCr := false })
  else
    let line := { line with previousCr := byte = returnByte }
    if byte = ctrlC then (.cancelled, line.reset)
    else if byte = returnByte ∨ byte = lineFeedByte then
      (if line.rejected then .rejected else .ready, { line with completed := true })
    else if line.rejected then (.none, line)
    else if byte = 8 ∨ byte = 127 then
      if line.length ≠ 0 then
        let line := { line with length := line.length - 1 }
        (.none, line.write line.length '\x00')
      else (.none, line)
    else if (byte < 32 ∧ byte ≠ 9) ∨ byte > 126 ∨ line.length = lineCapacity - 1 then
      (.none, bufferDiscard line)
    else
      let line := { line.write line.length (byteChar byte) with length := line.length + 1 }
      (.none, line.write line.length '\x00')

/-- One call of `tcs_line_feed` or `tcs_line_discard`. -/
def bufferStep (line : LineBuffer) : EditorInput → LineBuffer × LineEvent
  | .byte b => ((bufferFeed line b).2, (bufferFeed line b).1)
  | .discard => (bufferDiscard line, .none)

/-- `bytes[0..length)`. -/
def LineBuffer.text (line : LineBuffer) : List Char := line.bytes.toList.take line.length

/-- The line without its array. -/
def LineBuffer.view (line : LineBuffer) : Line :=
  ⟨line.text, line.rejected, line.previousCr, line.completed⟩

/-- The length is inside the array, and the text is terminated. -/
structure BufferOk (line : LineBuffer) : Prop where
  length : line.length < lineCapacity
  terminated : line.bytes.toList[line.length]? = some '\x00'

theorem BufferOk.congr {line line' : LineBuffer} (h : BufferOk line) (hb : line'.bytes = line.bytes)
    (hl : line'.length = line.length) : BufferOk line' :=
  ⟨by rw [hl]; exact h.length, by rw [hb, hl]; exact h.terminated⟩

theorem length_text {line : LineBuffer} (h : BufferOk line) : line.text.length = line.length := by
  have := h.length
  rw [LineBuffer.text, List.length_take, Vector.length_toList]
  omega

theorem bufferOk_zero : BufferOk LineBuffer.zero := ⟨by decide, by decide⟩

theorem bufferOk_reset (line : LineBuffer) : BufferOk line.reset := by
  refine ⟨(by decide : 0 < lineCapacity), ?_⟩
  show (line.bytes.setIfInBounds 0 '\x00').toList[0]? = _
  rw [Vector.toList_setIfInBounds, List.getElem?_set_self]
  rw [Vector.length_toList]
  decide

theorem reset_view (line : LineBuffer) : line.reset.view = line.view.reset := by
  unfold LineBuffer.view LineBuffer.text
  show Line.mk (List.take 0 _) _ _ _ = _
  rw [List.take_zero]
  rfl

theorem discard_view (line : LineBuffer) : (bufferDiscard line).view = lineDiscard line.view := by
  have h := reset_view line
  unfold bufferDiscard lineDiscard
  rw [← h]
  rfl

theorem bufferOk_pop {line : LineBuffer} (h : BufferOk line) :
    let out := { line with length := line.length - 1 }.write (line.length - 1) '\x00'
    BufferOk out ∧ out.text = line.text.dropLast := by
  have hlt := h.length
  have hlen : line.bytes.toList.length = lineCapacity := Vector.length_toList
  refine ⟨⟨(by omega : line.length - 1 < lineCapacity), ?_⟩, ?_⟩
  · show (line.bytes.setIfInBounds (line.length - 1) '\x00').toList[line.length - 1]? = _
    rw [Vector.toList_setIfInBounds, List.getElem?_set_self (by omega)]
  · show (line.bytes.setIfInBounds (line.length - 1) '\x00').toList.take (line.length - 1) = _
    rw [Vector.toList_setIfInBounds, List.take_set_of_le le_rfl, LineBuffer.text,
      List.dropLast_take (by omega)]

/-- A byte is put behind the others, with the terminator behind it. -/
theorem bufferOk_push {line : LineBuffer} (h : line.length < lineCapacity - 1) (c : Char) :
    let out := { line.write line.length c with length := line.length + 1 }.write (line.length + 1)
      '\x00'
    BufferOk out ∧ out.text = line.text ++ [c] := by
  have hlen : line.bytes.toList.length = lineCapacity := Vector.length_toList
  have hlt : line.length + 1 < lineCapacity := by omega
  refine ⟨⟨hlt, ?_⟩, ?_⟩
  · show ((line.bytes.setIfInBounds line.length c).setIfInBounds (line.length + 1)
      '\x00').toList[line.length + 1]? = _
    rw [Vector.toList_setIfInBounds, Vector.toList_setIfInBounds,
      List.getElem?_set_self (by rw [List.length_set]; omega)]
  · show ((line.bytes.setIfInBounds line.length c).setIfInBounds (line.length + 1)
      '\x00').toList.take (line.length + 1) = _
    rw [Vector.toList_setIfInBounds, Vector.toList_setIfInBounds, List.take_set_of_le le_rfl,
      List.take_succ_eq_append_getElem (by rw [List.length_set]; omega), List.getElem_set_self,
      List.take_set_of_le le_rfl, LineBuffer.text]

/-- The line that the next byte meets. -/
def LineBuffer.met (line : LineBuffer) : LineBuffer := if line.completed then line.reset else line

theorem bufferOk_met {line : LineBuffer} (h : BufferOk line) :
    BufferOk line.met ∧ line.met.view = line.view.met := by
  unfold LineBuffer.met Line.met
  by_cases hc : line.completed = true
  · rw [if_pos hc, if_pos (show line.view.completed = true from hc)]
    exact ⟨bufferOk_reset line, reset_view line⟩
  · rw [if_neg hc, if_neg (show ¬ line.view.completed = true from hc)]
    exact ⟨h, rfl⟩

/-- **The buffer refines the line**, and stays terminated. -/
theorem bufferFeed_view {line : LineBuffer} (h : BufferOk line) (byte : UInt8) :
    (bufferFeed line byte).1 = (lineFeed line.view byte).1 ∧
      (bufferFeed line byte).2.view = (lineFeed line.view byte).2 ∧
      BufferOk (bufferFeed line byte).2 := by
  obtain ⟨hok, hview⟩ := bufferOk_met h
  have hbuffer : (if line.completed then line.reset else line) = line.met := rfl
  have hline : (if line.view.completed then line.view.reset else line.view) = line.met.view :=
    hview.symm
  unfold bufferFeed lineFeed
  rw [hbuffer, hline]
  generalize line.met = met at hok
  have hlength : met.view.bytes.length = met.length := length_text hok
  dsimp only
  by_cases h1 : byte = lineFeedByte ∧ met.previousCr = true
  · rw [if_pos h1, if_pos (show byte = lineFeedByte ∧ met.view.previousCr = true from h1)]
    exact ⟨rfl, rfl, hok.congr rfl rfl⟩
  rw [if_neg h1, if_neg (show ¬ (byte = lineFeedByte ∧ met.view.previousCr = true) from h1)]
  by_cases h2 : byte = ctrlC
  · rw [if_pos h2, if_pos h2]
    exact ⟨rfl, reset_view _, bufferOk_reset _⟩
  rw [if_neg h2, if_neg h2]
  by_cases h3 : byte = returnByte ∨ byte = lineFeedByte
  · rw [if_pos h3, if_pos h3]
    exact ⟨rfl, rfl, hok.congr rfl rfl⟩
  rw [if_neg h3, if_neg h3]
  by_cases h4 : met.rejected = true
  · rw [if_pos h4, if_pos (show met.view.rejected = true from h4)]
    exact ⟨rfl, rfl, hok.congr rfl rfl⟩
  rw [if_neg h4, if_neg (show ¬ met.view.rejected = true from h4)]
  by_cases h5 : byte = 8 ∨ byte = 127
  · rw [if_pos h5, if_pos h5]
    by_cases h0 : met.length ≠ 0
    · rw [if_pos h0]
      obtain ⟨hpop, htext⟩ := bufferOk_pop hok
      exact ⟨rfl, congrArg (Line.mk · _ _ _) htext, hpop.congr rfl rfl⟩
    · -- nothing is left to take back
      have hnil : met.view.bytes = [] := by
        rw [← List.length_eq_zero_iff, hlength]
        exact not_not.mp h0
      rw [if_neg h0]
      refine ⟨rfl, ?_, hok.congr rfl rfl⟩
      show Line.mk met.view.bytes _ _ _ = Line.mk met.view.bytes.dropLast _ _ _
      rw [hnil]
      rfl
  rw [if_neg h5, if_neg h5, hlength]
  by_cases h6 : (byte < 32 ∧ byte ≠ 9) ∨ byte > 126 ∨ met.length = lineCapacity - 1
  · rw [if_pos h6, if_pos h6]
    exact ⟨rfl, discard_view _, (bufferOk_reset _).congr rfl rfl⟩
  · simp only [not_or] at h6
    have hlt : met.length < lineCapacity - 1 := by
      have := hok.length
      omega
    obtain ⟨hpush, htext⟩ := bufferOk_push hlt (byteChar byte)
    rw [if_neg (by simpa using h6), if_neg (by simpa using h6)]
    exact ⟨rfl, congrArg (Line.mk · _ _ _) htext, hpush.congr rfl rfl⟩

/-! ### The text of a line -/

/-- What stands behind the last delimiter. A line feed that belongs to a carriage return has
nothing before it. -/
def lineSegment (ins : List EditorInput) : List EditorInput := ins.rtakeWhile (!·.delimits)

/-- The sequence ends with a carriage return. -/
def endsWithReturn (ins : List EditorInput) : Bool := ins.getLast? = some (.byte returnByte)

/-- One input on the stack of a line. -/
def stackStep (stack : List Char) : EditorInput → Option (List Char)
  | .discard => none
  | .byte b =>
    if b = 8 ∨ b = 127 then some stack.dropLast
    else if (32 ≤ b ∧ b ≤ 126) ∨ b = 9 then
      if stack.length < 127 then some (stack ++ [byteChar b]) else none
    else none

/-- The stack of a text, if nothing spoils it. -/
def lineStack (text : List EditorInput) : Option (List Char) := text.foldlM stackStep []

/-- The event of a byte after a sequence. -/
def lineEvent (ins : List EditorInput) (b : UInt8) : LineEvent :=
  if b = lineFeedByte ∧ endsWithReturn ins then .none
  else if b = ctrlC then .cancelled
  else if b = returnByte ∨ b = lineFeedByte then
    if (lineStack (lineSegment ins)).isSome then .ready else .rejected
  else .none

/-- The line that holds a text. -/
def lineHeld (text : List EditorInput) (previousCr : Bool) : Line :=
  match lineStack text with
  | some stack => ⟨stack, false, previousCr, false⟩
  | none => ⟨[], true, previousCr, false⟩

section

variable {ins : List EditorInput} {b : UInt8}

theorem lineSegment_snoc (ins : List EditorInput) (i : EditorInput) :
    lineSegment (ins ++ [i]) = if i.delimits then [] else lineSegment ins ++ [i] := by
  unfold lineSegment
  rw [List.rtakeWhile_concat]
  cases i.delimits <;> rfl

theorem endsWithReturn_snoc (ins : List EditorInput) (i : EditorInput) :
    endsWithReturn (ins ++ [i]) = decide (i = .byte returnByte) := by
  unfold endsWithReturn
  rw [List.getLast?_append_of_ne_nil _ (List.cons_ne_nil _ _), List.getLast?_singleton]
  exact decide_eq_decide.mpr (Option.some_inj)

theorem lineSegment_return (h : endsWithReturn ins = true) : lineSegment ins = [] := by
  obtain ⟨init, rfl⟩ := List.getLast?_eq_some_iff.mp (of_decide_eq_true h)
  rw [lineSegment_snoc]
  rfl

theorem lineStack_snoc (text : List EditorInput) (i : EditorInput) :
    lineStack (text ++ [i]) = (lineStack text).bind fun stack => stackStep stack i := by
  unfold lineStack
  rw [List.foldlM_append]
  cases text.foldlM stackStep [] with
  | none => rfl
  | some stack =>
    show ([i].foldlM stackStep stack) = stackStep stack i
    rw [List.foldlM_cons]
    cases stackStep stack i <;> rfl

theorem stackStep_byte (stack : List Char) (b : UInt8) :
    stackStep stack (.byte b) =
      if b = 8 ∨ b = 127 then some stack.dropLast
      else if (32 ≤ b ∧ b ≤ 126) ∨ b = 9 then
        if stack.length < 127 then some (stack ++ [byteChar b]) else none
      else none := rfl

theorem stackStep_length {stack stack' : List Char} {i : EditorInput}
    (h : stackStep stack i = some stack') (hl : stack.length ≤ 127) : stack'.length ≤ 127 := by
  cases i with
  | discard => cases h
  | byte b =>
    rw [stackStep_byte] at h
    split_ifs at h with h1 h2 h3
    · cases h
      rw [List.length_dropLast]
      omega
    · cases h
      rw [List.length_append, List.length_singleton]
      omega

theorem lineStack_length {text : List EditorInput} {stack : List Char}
    (h : lineStack text = some stack) : stack.length ≤ 127 := by
  induction text using List.reverseRecOn generalizing stack with
  | nil =>
    cases h
    exact Nat.zero_le _
  | append_singleton text i ih =>
    rw [lineStack_snoc, Option.bind_eq_some_iff] at h
    obtain ⟨before, hb, h⟩ := h
    exact stackStep_length h (ih hb)

theorem lineHeld_flags (text : List EditorInput) (previousCr : Bool) :
    (lineHeld text previousCr).previousCr = previousCr ∧
      (lineHeld text previousCr).completed = false ∧
      (lineHeld text previousCr).rejected = !(lineStack text).isSome ∧
      ∀ stack, lineStack text = some stack → (lineHeld text previousCr).bytes = stack := by
  unfold lineHeld
  cases lineStack text with
  | none => exact ⟨rfl, rfl, rfl, fun stack h => by cases h⟩
  | some stack => exact ⟨rfl, rfl, rfl, fun stack' h => Option.some.inj h⟩

theorem lineFeed_text (text : List EditorInput) (previousCr : Bool)
    (hd : (EditorInput.byte b).delimits = false) :
    lineFeed (lineHeld text previousCr) b = (.none, lineHeld (text ++ [.byte b]) false) := by
  obtain ⟨hr, hl, hc⟩ := EditorInput.not_delimits hd
  obtain ⟨-, hcompleted, -, -⟩ := lineHeld_flags text previousCr
  unfold lineFeed
  rw [if_neg (show ¬ (lineHeld text previousCr).completed = true by simp [hcompleted])]
  dsimp only
  rw [if_neg (fun h => hl h.1), if_neg hc, if_neg (by simp [hr, hl])]
  unfold lineHeld
  rw [lineStack_snoc]
  cases hs : lineStack text with
  | none => simp [hr]
  | some stack =>
    have hlen := lineStack_length hs
    rw [Option.bind_some, stackStep_byte]
    dsimp only
    rw [if_neg Bool.false_ne_true, decide_eq_false hr]
    by_cases h5 : b = 8 ∨ b = 127
    · rw [if_pos h5, if_pos h5]
    rw [if_neg h5, if_neg h5]
    by_cases h6 : (32 ≤ b ∧ b ≤ 126) ∨ b = 9
    swap
    · have hbad : (b < 32 ∧ b ≠ 9) ∨ b > 126 ∨ stack.length = lineCapacity - 1 := by
        simp only [not_or, not_and_or, UInt8.not_le] at h6
        rcases h6.1 with h | h
        · exact Or.inl ⟨h, h6.2⟩
        · exact Or.inr (Or.inl h)
      rw [if_pos hbad, if_neg h6]
      rfl
    rw [if_pos h6]
    by_cases h7 : stack.length < 127
    · have hgood : ¬ ((b < 32 ∧ b ≠ 9) ∨ b > 126 ∨ stack.length = lineCapacity - 1) := by
        rintro (⟨hlt, hne⟩ | hgt | hfull)
        · rcases h6 with ⟨h, -⟩ | h
          · exact UInt8.not_lt.mpr h hlt
          · exact hne h
        · rcases h6 with ⟨-, h⟩ | rfl
          · exact UInt8.not_lt.mpr h hgt
          · exact absurd hgt (by decide)
        · exact absurd hfull (by simp only [lineCapacity]; omega)
      rw [if_neg hgood, if_pos h7]
    · rw [if_pos (Or.inr (Or.inr (by simp only [lineCapacity]; omega))), if_neg h7]
      rfl

theorem lineFeed_delimiter (text : List EditorInput) {previousCr : Bool}
    (hd : (EditorInput.byte b).delimits = true) (hf : ¬ (b = lineFeedByte ∧ previousCr = true)) :
    (lineFeed (lineHeld text previousCr) b).1 =
        (if b = ctrlC then .cancelled
          else if (lineStack text).isSome then .ready else .rejected) ∧
      (lineFeed (lineHeld text previousCr) b).2.met = lineHeld [] (b = returnByte) ∧
      ((lineFeed (lineHeld text previousCr) b).1 = .ready →
        lineStack text = some (lineFeed (lineHeld text previousCr) b).2.bytes) := by
  obtain ⟨hcr, hcompleted, hrejected, hbytes⟩ := lineHeld_flags text previousCr
  unfold lineFeed
  rw [if_neg (show ¬ (lineHeld text previousCr).completed = true by simp [hcompleted])]
  dsimp only
  rw [hcr, if_neg hf]
  by_cases hc : b = ctrlC
  · subst hc
    rw [if_pos rfl, if_pos rfl]
    exact ⟨rfl, rfl, fun h => by cases h⟩
  rw [if_neg hc, if_neg hc, if_pos (EditorInput.end_of_delimits hd hc), hrejected]
  cases hs : lineStack text with
  | none => exact ⟨rfl, rfl, fun h => by cases h⟩
  | some stack => exact ⟨rfl, rfl, fun _ => congrArg some (hbytes stack hs).symm⟩

/-- **A byte**, on the line of a sequence. -/
theorem lineHeld_step {line : Line}
    (hm : line.met = lineHeld (lineSegment ins) (endsWithReturn ins)) (b : UInt8) :
    (lineFeed line b).1 = lineEvent ins b ∧
      (lineFeed line b).2.met =
        lineHeld (lineSegment (ins ++ [.byte b])) (endsWithReturn (ins ++ [.byte b])) ∧
      ((lineFeed line b).1 = .ready → lineStack (lineSegment ins) = some (lineFeed line b).2.bytes) := by
  rw [← lineFeed_met, hm, lineSegment_snoc, endsWithReturn_snoc]
  unfold lineEvent
  by_cases hf : b = lineFeedByte ∧ endsWithReturn ins = true
  · rw [if_pos hf, lineSegment_return hf.2, hf.1, hf.2]
    exact ⟨rfl, rfl, fun h => by cases h⟩
  rw [if_neg hf]
  cases hd : (EditorInput.byte b).delimits with
  | true =>
    obtain ⟨h1, h2, h3⟩ := lineFeed_delimiter (lineSegment ins) hd hf
    have hreturn : decide (EditorInput.byte b = .byte returnByte) = decide (b = returnByte) :=
      decide_eq_decide.mpr ⟨EditorInput.byte.inj, congrArg EditorInput.byte⟩
    rw [if_pos rfl, hreturn]
    refine ⟨h1.trans ?_, h2, h3⟩
    by_cases hc : b = ctrlC
    · rw [if_pos hc, if_pos hc]
    · rw [if_neg hc, if_neg hc, if_pos (EditorInput.end_of_delimits hd hc)]
  | false =>
    obtain ⟨hr, hl, hc⟩ := EditorInput.not_delimits hd
    have hreturn : decide (EditorInput.byte b = .byte returnByte) = false :=
      decide_eq_false fun h => hr (EditorInput.byte.inj h)
    obtain ⟨-, hcompleted, -, -⟩ := lineHeld_flags (lineSegment ins ++ [.byte b]) false
    rw [lineFeed_text _ _ hd, if_neg Bool.false_ne_true, hreturn, if_neg hc,
      if_neg (not_or.mpr ⟨hr, hl⟩)]
    exact ⟨rfl, Line.met_of_not_completed hcompleted, fun h => by cases h⟩

/-- A loss spoils the line of a sequence. -/
theorem lineHeld_discard (ins : List EditorInput) (line : Line) :
    (lineDiscard line).met =
      lineHeld (lineSegment (ins ++ [.discard])) (endsWithReturn (ins ++ [.discard])) := by
  rw [lineSegment_snoc, endsWithReturn_snoc, if_neg (by decide : ¬ EditorInput.discard.delimits = true)]
  unfold lineHeld
  have hnone : ((lineStack (lineSegment ins)).bind fun stack => stackStep stack .discard) = none :=
    Option.bind_eq_none_iff.mpr fun stack _ => rfl
  rw [lineStack_snoc, hnone]
  rfl

end

/-! ### Runs -/

/-- What holds of the buffer after a sequence. -/
structure LineOk (ins : List EditorInput) (line : LineBuffer) : Prop where
  buffer : BufferOk line
  held : line.view.met = lineHeld (lineSegment ins) (endsWithReturn ins)

theorem lineOk_run (ins : List EditorInput) :
    LineOk ins (Run.final bufferStep LineBuffer.zero ins) := by
  induction ins using List.reverseRecOn with
  | nil => exact ⟨bufferOk_zero, rfl⟩
  | append_singleton ins i ih =>
    rw [Run.final_snoc]
    cases i with
    | byte b =>
      obtain ⟨-, hview, hok⟩ := bufferFeed_view ih.buffer b
      refine ⟨hok, ?_⟩
      show (bufferFeed _ b).2.view.met = _
      rw [hview]
      exact (lineHeld_step ih.held b).2.1
    | discard =>
      refine ⟨(bufferOk_reset _).congr rfl rfl, ?_⟩
      show (bufferDiscard _).view.met = _
      rw [discard_view]
      exact lineHeld_discard ins _

/-- **The line editor computes exactly its specification.** After every sequence of bytes and
discards the text is shorter than 128 bytes and terminated, the next byte gets the event of the
sequence, and a line that is ready is the stack of its text. -/
theorem line_editor_exact (ins : List EditorInput) :
    let line := Run.final bufferStep LineBuffer.zero ins
    line.length < 128 ∧ line.bytes.toList[line.length]? = some '\x00' ∧
      ∀ b, (bufferFeed line b).1 = lineEvent ins b ∧
        ((bufferFeed line b).1 = .ready →
          lineStack (lineSegment ins) = some (bufferFeed line b).2.text) := by
  intro line
  obtain ⟨hok, hheld⟩ : LineOk ins line := lineOk_run ins
  refine ⟨hok.length, hok.terminated, fun b => ?_⟩
  obtain ⟨hevent, hview, -⟩ := bufferFeed_view hok b
  obtain ⟨h1, -, h3⟩ := lineHeld_step hheld b
  rw [hevent]
  refine ⟨h1, fun h => ?_⟩
  rw [h3 h, ← hview]
  rfl

end Tcs
