/-
# What is displayed is what is executed

`tcs_terminal_input` edits the line and answers each byte with at most four
characters to display, in a zeroed array of five. It does not say what it did
to the line: the echo is found by comparing lengths afterwards. Here the echo
is read by a display of one row (`display`) and the row is compared with the
line that the next byte meets (`row_step`).

A row may lag behind a line that is refused; nothing is shown for it until its
delimiter, which starts an empty row for the next line.

Key definitions: `bufferInput`, `display`, `shown`, `EchoText`.
Key theorems: `bufferInput_terminal`, `terminalInput_echo`, `row_step`,
`display_is_line`.
-/
import Tcs.LineSpec

namespace Tcs

/-! ### The echo and its array -/

/-- `char echo[5]`. -/
@[simp] abbrev echoCapacity : ℕ := 5

/-- `struct tcs_line_feedback`, with its array. -/
structure BufferFeedback where
  event : LineEvent
  echo : Vector Char echoCapacity

/-- The zeroed array. -/
def echoZero : Vector Char echoCapacity := Vector.replicate echoCapacity '\x00'

/-- `tcs_terminal_input`, on the buffer. -/
def bufferInput (line : LineBuffer) (byte : UInt8) : BufferFeedback × LineBuffer :=
  let previousLength := if line.completed then 0 else line.length
  let (event, line) := bufferFeed line byte
  let echo :=
    if event = .ready ∨ event = .rejected then (echoZero.set 0 '\r').set 1 '\n'
    else if event = .cancelled then
      (((echoZero.set 0 '^').set 1 'C').set 2 '\r').set 3 '\n'
    else if !line.rejected ∧ (byte = 8 ∨ byte = 127) ∧ line.length < previousLength then
      ((echoZero.set 0 '\x08').set 1 ' ').set 2 '\x08'
    else if !line.rejected ∧ line.length = previousLength + 1 then
      echoZero.set 0 (if byte = 9 then ' ' else byteChar byte)
    else echoZero
  (⟨event, echo⟩, line)

/-- The text of a terminated array. -/
def cString {n : ℕ} (bytes : Vector Char n) : List Char := bytes.toList.takeWhile (· ≠ '\x00')

/-- How a character of a line looks: a tab takes one blank cell. -/
def shown (c : Char) : Char := if c = '\t' then ' ' else c

/-- What may be echoed for a byte, with the event of the byte. -/
inductive EchoText (b : UInt8) : LineEvent → List Char → Prop
  | nothing : EchoText b .none []
  | cell (c : Char) (own : c = shown (byteChar b)) (low : 32 ≤ c.toNat) (high : c.toNat ≤ 126) :
    EchoText b .none [c]
  | erase (back : b = 8 ∨ b = 127) : EchoText b .none ['\x08', ' ', '\x08']
  | ready : EchoText b .ready ['\r', '\n']
  | rejected : EchoText b .rejected ['\r', '\n']
  | cancelled : EchoText b .cancelled ['^', 'C', '\r', '\n']

/-! ### What a byte does to the line and what it shows of it -/

/-- The line that a byte meets, the feedback it gets and the line it leaves. -/
inductive Edited (met : Line) (b : UInt8) (feedback : LineFeedback) (after : Line) : Prop
  | kept (event : feedback.event = .none) (echo : feedback.echo = [])
      (bytes : after.bytes = met.bytes) (rejected : after.rejected = met.rejected)
      (completed : after.completed = false)
  | refused (event : feedback.event = .none) (echo : feedback.echo = [])
      (rejected : after.rejected = true) (completed : after.completed = false)
  | erased (back : b = 8 ∨ b = 127) (event : feedback.event = .none)
      (echo : feedback.echo = ['\x08', ' ', '\x08']) (bytes : after.bytes = met.bytes.dropLast)
      (clean : met.rejected = false) (completed : after.completed = false)
  | stored (own : 32 ≤ b ∧ b ≤ 126 ∨ b = 9) (event : feedback.event = .none)
      (echo : feedback.echo = [shown (byteChar b)]) (bytes : after.bytes = met.bytes ++ [byteChar b])
      (clean : met.rejected = false) (completed : after.completed = false)
  | ready (event : feedback.event = .ready) (echo : feedback.echo = ['\r', '\n'])
      (bytes : after.bytes = met.bytes) (clean : met.rejected = false)
      (completed : after.completed = true)
  | rejected (event : feedback.event = .rejected) (echo : feedback.echo = ['\r', '\n'])
      (completed : after.completed = true)
  | cancelled (event : feedback.event = .cancelled) (echo : feedback.echo = ['^', 'C', '\r', '\n'])
      (bytes : after.bytes = []) (completed : after.completed = false)

/-- The echo of a tab is a blank, and that of a printable byte the byte. -/
theorem shown_byteChar {b : UInt8} (h : 32 ≤ b ∧ b ≤ 126 ∨ b = 9) :
    shown (byteChar b) = (if b = 9 then ' ' else byteChar b) ∧
      32 ≤ (shown (byteChar b)).toNat ∧ (shown (byteChar b)).toNat ≤ 126 := by
  rcases h with ⟨hlo, hhi⟩ | rfl
  · have hlo : 32 ≤ b.toNat := UInt8.le_iff_toNat_le.mp hlo
    have hhi : b.toNat ≤ 126 := UInt8.le_iff_toNat_le.mp hhi
    have hcode := toNat_byteChar b
    have htab : byteChar b ≠ '\t' := by
      intro h
      rw [h] at hcode
      have : '\t'.toNat = 9 := rfl
      omega
    have hnine : b ≠ 9 := by
      rintro rfl
      exact absurd hlo (by decide)
    unfold shown
    rw [if_neg htab, if_neg hnine, hcode]
    exact ⟨rfl, hlo, hhi⟩
  · decide

/-- **A byte, its echo and the line.** -/
theorem terminalInput_edited (line : Line) (b : UInt8) :
    Edited line.met b (terminalInput line b).1 (terminalInput line b).2 := by
  have hprevious : (if line.completed then 0 else line.bytes.length) = line.met.bytes.length := by
    unfold Line.met
    cases line.completed <;> rfl
  obtain ⟨-, hc⟩ := line.met_facts
  unfold terminalInput
  rw [hprevious, ← lineFeed_met]
  generalize line.met = met at hc
  unfold lineFeed
  rw [if_neg (show ¬ met.completed = true by simp [hc])]
  dsimp only
  by_cases h1 : b = lineFeedByte ∧ met.previousCr = true
  · rw [if_pos h1]
    refine .kept rfl ?_ rfl rfl hc
    simp [h1.1]
  rw [if_neg h1]
  by_cases h2 : b = ctrlC
  · rw [if_pos h2]
    exact .cancelled rfl rfl rfl rfl
  rw [if_neg h2]
  by_cases h3 : b = returnByte ∨ b = lineFeedByte
  · rw [if_pos h3]
    by_cases h4 : met.rejected = true
    · rw [if_pos h4]
      exact .rejected rfl rfl rfl
    · rw [if_neg h4]
      exact .ready rfl rfl rfl (by simpa using h4) rfl
  rw [if_neg h3]
  by_cases h4 : met.rejected = true
  · rw [if_pos h4]
    refine .kept rfl ?_ rfl rfl hc
    simp [h4]
  rw [if_neg h4]
  have hclean : met.rejected = false := by simpa using h4
  by_cases h5 : b = 8 ∨ b = 127
  · rw [if_pos h5]
    by_cases h0 : met.bytes = []
    · refine .kept rfl ?_ (by simp [h0]) rfl hc
      simp [h0]
    · refine .erased h5 rfl ?_ rfl hclean hc
      simp [hclean, h5, h0]
  rw [if_neg h5]
  by_cases h6 : (b < 32 ∧ b ≠ 9) ∨ b > 126 ∨ met.bytes.length = lineCapacity - 1
  · rw [if_pos h6]
    exact .refused rfl rfl rfl rfl
  · rw [if_neg h6]
    have hown : 32 ≤ b ∧ b ≤ 126 ∨ b = 9 := by
      simp only [not_or, not_and_or, UInt8.not_lt, gt_iff_lt, not_not] at h6
      rcases h6.1 with h | h
      · exact Or.inl ⟨h, h6.2.1⟩
      · exact Or.inr h
    refine .stored hown rfl ?_ rfl hclean hc
    rw [(shown_byteChar hown).1]
    simp [hclean, h5]

/-- **Every echo is safe.** -/
theorem terminalInput_echo (line : Line) (b : UInt8) :
    EchoText b (terminalInput line b).1.event (terminalInput line b).1.echo := by
  rcases terminalInput_edited line b with ⟨event, echo, -, -, -⟩ | ⟨event, echo, -, -⟩ |
    ⟨back, event, echo, -, -, -⟩ | ⟨own, event, echo, -, -, -⟩ | ⟨event, echo, -, -, -⟩ |
    ⟨event, echo, -⟩ | ⟨event, echo, -, -⟩
  · rw [event, echo]
    exact .nothing
  · rw [event, echo]
    exact .nothing
  · rw [event, echo]
    exact .erase back
  · obtain ⟨-, low, high⟩ := shown_byteChar own
    rw [event, echo]
    exact .cell _ rfl low high
  · rw [event, echo]
    exact .ready
  · rw [event, echo]
    exact .rejected
  · rw [event, echo]
    exact .cancelled

/-! ### The row -/

/-- What a text does to the row it is displayed on: backspace, blank, backspace removes the last
cell, a new line starts an empty row, and any other character takes a cell. -/
def display : List Char → List Char → List Char
  | row, [] => row
  | row, '\x08' :: ' ' :: '\x08' :: rest => display row.dropLast rest
  | _, '\r' :: '\n' :: rest => display [] rest
  | row, c :: rest => display (row ++ [c]) rest

theorem display_nil (row : List Char) : display row [] = row := by
  unfold display
  rfl

theorem display_cell (row : List Char) (c : Char) : display row [c] = row ++ [c] := by
  simp [display]

theorem display_erase (row : List Char) : display row ['\x08', ' ', '\x08'] = row.dropLast := by
  unfold display
  exact display_nil _

theorem display_newline (row : List Char) : display row ['\r', '\n'] = [] := by
  unfold display
  exact display_nil _

theorem display_cancelled (row : List Char) : display row ['^', 'C', '\r', '\n'] = [] := by
  unfold display
  unfold display
  exact display_newline _

/-- A row shows the line that the next byte meets, as long as that line is not refused. -/
def Shows (row : List Char) (line : Line) : Prop :=
  line.met.rejected = false → row = line.met.bytes.map shown

theorem shows_zero : Shows [] Line.zero := fun _ => rfl

theorem shows_of_refused {row : List Char} {line : Line} (hc : line.completed = false)
    (hr : line.rejected = true) : Shows row line := by
  intro h
  rw [Line.met_of_not_completed hc, hr] at h
  cases h

theorem shows_of_open {row : List Char} {line : Line} (hc : line.completed = false)
    (h : row = line.bytes.map shown) : Shows row line := by
  intro _
  rw [Line.met_of_not_completed hc]
  exact h

theorem shows_of_completed {line : Line} (hc : line.completed = true) : Shows [] line := by
  intro _
  unfold Line.met
  rw [if_pos hc]
  rfl

/-- **A byte keeps the row and the line together**, and a line that is ready is on the row. -/
theorem row_step {row : List Char} {line : Line} (h : Shows row line) (b : UInt8) :
    Shows (display row (terminalInput line b).1.echo) (terminalInput line b).2 ∧
      ((terminalInput line b).1.event = .ready →
        row = (terminalInput line b).2.bytes.map shown) := by
  rcases terminalInput_edited line b with ⟨event, echo, bytes, rejected, completed⟩ |
    ⟨event, echo, rejected, completed⟩ | ⟨-, event, echo, bytes, clean, completed⟩ |
    ⟨-, event, echo, bytes, clean, completed⟩ | ⟨event, echo, bytes, clean, completed⟩ |
    ⟨event, echo, completed⟩ | ⟨event, echo, bytes, completed⟩
  all_goals rw [event, echo]
  · refine ⟨fun hr => ?_, fun h => by cases h⟩
    rw [Line.met_of_not_completed completed] at hr ⊢
    rw [display_nil, bytes]
    exact h (rejected ▸ hr)
  · exact ⟨shows_of_refused completed rejected, fun h => by cases h⟩
  · refine ⟨shows_of_open completed ?_, fun h => by cases h⟩
    rw [display_erase, bytes, h clean, List.map_dropLast]
  · refine ⟨shows_of_open completed ?_, fun h => by cases h⟩
    rw [display_cell, bytes, h clean, List.map_append]
    rfl
  · rw [display_newline, bytes]
    exact ⟨shows_of_completed completed, fun _ => h clean⟩
  · rw [display_newline]
    exact ⟨shows_of_completed completed, fun h => by cases h⟩
  · refine ⟨shows_of_open completed ?_, fun h => by cases h⟩
    rw [display_cancelled, bytes]
    rfl

theorem shows_discard (row : List Char) (line : Line) : Shows row (lineDiscard line) :=
  shows_of_refused rfl rfl

/-! ### The array -/

theorem cString_cell {c : Char} (h : c ≠ '\x00') : cString (echoZero.set 0 c) = [c] := by
  have hlist : (echoZero.set 0 c).toList = c :: ['\x00', '\x00', '\x00', '\x00'] := rfl
  unfold cString
  rw [hlist, List.takeWhile_cons_of_pos (by simpa using h)]
  rfl

/-- What an echo shows is not a terminator. -/
theorem EchoText.ne_terminator {b : UInt8} {event : LineEvent} {c : Char}
    (h : EchoText b event [c]) : c ≠ '\x00' := by
  cases h with
  | cell _ _ low _ =>
    rintro rfl
    exact absurd low (by decide)

/-- **The array holds the echo**, and the buffer the line. -/
theorem bufferInput_terminal {line : LineBuffer} (h : BufferOk line) (b : UInt8) :
    (bufferInput line b).1.event = (terminalInput line.view b).1.event ∧
      cString (bufferInput line b).1.echo = (terminalInput line.view b).1.echo ∧
      (bufferInput line b).1.echo.toList[4]? = some '\x00' ∧
      (bufferInput line b).2.view = (terminalInput line.view b).2 ∧
      BufferOk (bufferInput line b).2 := by
  obtain ⟨hevent, hview, hok⟩ := bufferFeed_view h b
  have hprevious : (if line.view.completed then 0 else line.view.bytes.length) =
      if line.completed then 0 else line.length := by
    show (if line.completed then 0 else line.text.length) = _
    rw [length_text h]
  have hrejected : (lineFeed line.view b).2.rejected = (bufferFeed line b).2.rejected := by
    rw [← hview]
    rfl
  have hlength : (lineFeed line.view b).2.bytes.length = (bufferFeed line b).2.length := by
    rw [← hview]
    exact length_text hok
  have hsafe := terminalInput_echo line.view b
  refine ⟨hevent, ?_, ?_, hview, hok⟩
  · unfold bufferInput
    unfold terminalInput at hsafe ⊢
    dsimp only at hsafe ⊢
    rw [hprevious, hrejected, hlength, ← hevent] at hsafe ⊢
    split_ifs at hsafe ⊢
    all_goals first
      | rfl
      | exact cString_cell hsafe.ne_terminator
  · unfold bufferInput
    dsimp only
    split_ifs <;> rfl

/-! ### Runs -/

/-- A line and the row that its echo is displayed on. -/
structure Screen where
  line : LineBuffer
  row : List Char

/-- The zeroed line and an empty row. -/
def Screen.zero : Screen := ⟨LineBuffer.zero, []⟩

/-- One call of `tcs_terminal_input` or `tcs_line_discard`, with its echo displayed. -/
def displayStep (screen : Screen) : EditorInput → Screen × BufferFeedback
  | .byte b =>
    let (feedback, line) := bufferInput screen.line b
    (⟨line, display screen.row (cString feedback.echo)⟩, feedback)
  | .discard => (⟨bufferDiscard screen.line, screen.row⟩, ⟨.none, echoZero⟩)

/-- The buffer is terminated and the row shows it. -/
structure ScreenOk (screen : Screen) : Prop where
  buffer : BufferOk screen.line
  shows : Shows screen.row screen.line.view

theorem screenOk_step {screen : Screen} (h : ScreenOk screen) (i : EditorInput) :
    ScreenOk (displayStep screen i).1 := by
  cases i with
  | byte b =>
    obtain ⟨-, hecho, -, hview, hok⟩ := bufferInput_terminal h.buffer b
    refine ⟨hok, ?_⟩
    show Shows (display screen.row (cString (bufferInput screen.line b).1.echo))
      (bufferInput screen.line b).2.view
    rw [hecho, hview]
    exact (row_step h.shows b).1
  | discard =>
    refine ⟨(bufferOk_reset _).congr rfl rfl, ?_⟩
    show Shows screen.row (bufferDiscard screen.line).view
    rw [discard_view]
    exact shows_discard _ _

theorem screenOk_run (ins : List EditorInput) : ScreenOk (Run.final displayStep Screen.zero ins) :=
  Run.final_induct (P := ScreenOk) ⟨bufferOk_zero, shows_zero⟩ (fun _ i h => screenOk_step h i) ins

/-- **What is displayed is what is executed.** After every sequence of bytes and discards the row
is the line, unless the line is refused or ended; a line that the next byte makes ready is on the
row before that byte; and every echo is terminated inside its array and safe to display. -/
theorem display_is_line (ins : List EditorInput) :
    let screen := Run.final displayStep Screen.zero ins
    (screen.line.rejected = false → screen.line.completed = false →
        screen.row = screen.line.text.map shown) ∧
      ∀ b, ((bufferInput screen.line b).1.event = .ready →
          screen.row = (bufferInput screen.line b).2.text.map shown) ∧
        (bufferInput screen.line b).1.echo.toList[4]? = some '\x00' ∧
        EchoText b (bufferInput screen.line b).1.event
          (cString (bufferInput screen.line b).1.echo) := by
  intro screen
  obtain ⟨hok, hshows⟩ : ScreenOk screen := screenOk_run ins
  refine ⟨fun hr hc => ?_, fun b => ?_⟩
  · have hmet : screen.line.view.met = screen.line.view := Line.met_of_not_completed hc
    have hrow := hshows (by rw [hmet]; exact hr)
    rw [hmet] at hrow
    exact hrow
  · obtain ⟨hevent, hecho, hend, hview, -⟩ := bufferInput_terminal hok b
    refine ⟨fun h => ?_, hend, ?_⟩
    · rw [hevent] at h
      have hrow := (row_step hshows b).2 h
      rw [← hview] at hrow
      exact hrow
    · rw [hevent, hecho]
      exact terminalInput_echo _ _

end Tcs
