/-
# A session of packets

What the operator types takes effect. A packet is typed as the line `submit`
and its 384 digits, each with Enter; the packets need not be signed, or in
turn, or different. If the queue has room for what is typed, then, when the
image has nothing left to do, administrator, policy and audit are what the
administrator makes of the packets one after the other, and the operator has
been shown every receipt and every rejection (`session_exact`).

The shell prints what is typed and the texts of its two events, so a typed
packet is one call of the administrator (`shell_packet`). That is what a
packet does for any administrator; the book (`Book`) is what it does for the
one of the image.

Key definitions: `submitText`, `Book`, `Book.submit`.
Key theorems: `shell_submit`, `shell_digits`, `shell_packet`,
`Tallies.submit`, `session_exact`.
-/
import Tcs.Decimal
import Tcs.Interactive

namespace Tcs

open Ipc

/-! ### The text of a session -/

/-- What the line `submit` prints. -/
def enterText : List Char :=
  "Enter exactly 384 lowercase hex digits; Enter submits, Ctrl-C cancels.\r\n".toList ++
    "packet> ".toList

/-- What is printed up to the answer to a packet. -/
def submitText (packet : List UInt8) : List Char :=
  "submit".toList ++ "\r\n".toList ++ enterText ++ (hexText packet ++ "\r\n".toList)

/-! ### What a byte prints -/

section

variable {τ : Type*} (profile : Profile) (client administrator : Peer τ) {s : Shell τ}

/-- A terminal that has printed nothing prints a text that fits. -/
theorem Editors.fresh_append (e : Editors) {text : List Char} (h : text.length ≤ outputBytes) :
    e.fresh.append text = { e.fresh with output := text } :=
  Terminal.append_eq text e.fresh (by simpa [Editors.fresh] using h)

theorem shellStep_line (h : s.editors.packetMode = false) (b : UInt8) :
    (shellStep profile client administrator s (typed b)).1 =
      (⟨{ s.editors with line := (terminalInput s.editors.line b).2 }, s.peer,
        s.printed ++ (terminalInput s.editors.line b).1.echo⟩ : Shell τ).serve profile client
          administrator (terminalInput s.editors.line b).1.event := by
  have hfeed : s.editors.fresh.feed b = ((terminalInput s.editors.line b).1,
      ({ s.editors with line := (terminalInput s.editors.line b).2 } : Editors).fresh) :=
    if_neg (show ¬ s.editors.fresh.packetMode = true by
      rw [show s.editors.fresh.packetMode = false from h]; exact Bool.false_ne_true)
  have hecho := length_terminalInput_echo s.editors.line b
  have hstep : s.feed (typed b) = (s.went ((s.editors.fresh.feed b).2.append
      (s.editors.fresh.feed b).1.echo, s.peer), (s.editors.fresh.feed b).1.event) := rfl
  unfold shellStep
  rw [hstep, hfeed]
  dsimp only
  rw [Editors.fresh_append _ (by simp only [outputBytes]; omega)]
  rfl

theorem shellStep_packet (h : s.editors.packetMode = true) (b : UInt8) :
    (shellStep profile client administrator s (typed b)).1 =
      (⟨{ s.editors with signedInput := (signedFeed s.editors.signedInput b).2 }, s.peer,
        s.printed ++ (signedFeed s.editors.signedInput b).1.echo⟩ : Shell τ).serve profile client
          administrator (signedFeed s.editors.signedInput b).1.event := by
  have hfeed : s.editors.fresh.feed b = ((signedFeed s.editors.signedInput b).1,
      ({ s.editors with signedInput := (signedFeed s.editors.signedInput b).2 } : Editors).fresh) :=
    if_pos (show s.editors.fresh.packetMode = true from h)
  have hecho := length_signedFeed_echo s.editors.signedInput b
  have hstep : s.feed (typed b) = (s.went ((s.editors.fresh.feed b).2.append
      (s.editors.fresh.feed b).1.echo, s.peer), (s.editors.fresh.feed b).1.event) := rfl
  unfold shellStep
  rw [hstep, hfeed]
  dsimp only
  rw [Editors.fresh_append _ (by simp only [outputBytes]; omega)]
  rfl

theorem serve_none (s : Shell τ) : s.serve profile client administrator .none = s := if_pos rfl

/-- The line `submit` is answered with the prompt of a packet. -/
theorem serve_begin (hsigned : profile.signed = true) (h : s.editors.packetMode = false)
    (hline : s.editors.line.bytes = "submit".toList) :
    s.serve profile client administrator .ready =
      ⟨⟨s.editors.line, signedBegin s.editors.line.previousCr, true⟩, s.peer,
        s.printed ++ enterText⟩ := by
  have hhandle : s.editors.fresh.handle profile (fun _ => 0) client administrator .ready s.peer =
      execute profile (fun _ => 0) client s.editors.fresh s.peer := by
    unfold Terminal.handle
    rw [if_neg (show ¬ s.editors.fresh.packetMode = true by
      rw [show s.editors.fresh.packetMode = false from h]; exact Bool.false_ne_true)]
  have hexecute : execute profile (fun _ => 0) client s.editors.fresh s.peer =
      ((⟨s.editors.line, signedBegin s.editors.line.previousCr, true⟩ : Editors).fresh.append
        enterText, s.peer) := if_pos ⟨hsigned, hline⟩
  unfold Shell.serve
  rw [if_neg (by decide), hhandle, hexecute, Editors.fresh_append _ (by decide)]
  rfl

/-- A packet that is complete is submitted, and the answer is printed. -/
theorem serve_submit (h : s.editors.packetMode = true) :
    let packet := s.editors.signedInput.packet.toList
    let out := administrator s.peer (submission (fun _ => 0) packet)
    s.serve profile client administrator .ready =
      ⟨⟨{ Line.zero with previousCr := s.editors.signedInput.previousCr }, signedDiscard, false⟩,
        out.2, s.printed ++ (packetText (signedCommand packet) out.1 ++ promptText)⟩ := by
  intro packet out
  have hhandle : s.editors.fresh.handle profile (fun _ => 0) client administrator .ready s.peer =
      finishPacket administrator (fun _ => 0) .ready s.editors.fresh s.peer := by
    unfold Terminal.handle
    rw [if_pos (show s.editors.fresh.packetMode = true from h)]
  have hlength := length_packetText (signedCommand packet) out.1
  have hreply := packetReply_eq s.editors.fresh (signedCommand packet) out.1
  have hfinish := finishPacket_ready administrator (fun _ => 0) s.peer (t := s.editors.fresh) rfl
    (by simp only [outputBytes]; omega) hreply
  unfold Shell.serve
  rw [if_neg (by decide), hhandle, hfinish]
  rfl

/-! ### The line -/

/-- A line is being read, and holds this text. -/
def Editors.Holds (e : Editors) (text : List Char) : Prop :=
  e.packetMode = false ∧ ∃ previousCr, e.line.met = ⟨text, false, previousCr, false⟩

/-- The characters that a completed line holds do not count. -/
theorem Line.length_met (line : Line) :
    line.met.bytes.length = if line.completed then 0 else line.bytes.length := by
  unfold Line.met
  split_ifs <;> rfl

theorem terminalInput_visible {line : Line} {text : List Char} {previousCr : Bool}
    (h : line.met = ⟨text, false, previousCr, false⟩) {c : Char} (hc : Visible c)
    (hl : text.length < 127) :
    terminalInput line (charByte c) = (⟨.none, [c]⟩, ⟨text ++ [c], false, false, false⟩) := by
  have hb := charByte_visible hc
  have hne : ∀ b : UInt8, ¬ (32 ≤ b ∧ b ≤ 126) → charByte c ≠ b := fun b hlow heq => hlow (heq ▸ hb)
  have hlow : ¬ charByte c < 32 := by simpa using hb.1
  have hhigh : ¬ charByte c > 126 := by simpa using hb.2
  have hfeed : lineFeed line (charByte c) = (.none, ⟨text ++ [c], false, false, false⟩) := by
    rw [← lineFeed_met, h]
    unfold lineFeed
    rw [if_neg Bool.false_ne_true,
      if_neg (fun hf => hne lineFeedByte (by decide) hf.1)]
    dsimp only
    rw [if_neg (hne ctrlC (by decide)),
      if_neg (not_or.mpr ⟨hne returnByte (by decide), hne lineFeedByte (by decide)⟩),
      if_neg Bool.false_ne_true, if_neg (not_or.mpr ⟨hne 8 (by decide), hne 127 (by decide)⟩),
      if_neg (by simp only [lineCapacity]; rintro (hf | hf | hf) <;> [exact hlow hf.1; exact hhigh hf; omega]),
      byteChar_charByte (lt_of_le_of_lt hc.2 (by decide)),
      decide_eq_false (hne returnByte (by decide))]
  have hlength : (if line.completed then 0 else line.bytes.length) = text.length := by
    rw [← line.length_met, h]
  unfold terminalInput
  rw [hfeed, hlength]
  dsimp only
  rw [if_neg (by decide), if_neg (by decide), if_neg (by simp [hne 8, hne 127]),
    if_pos (by simp), if_neg (hne 9 (by decide)),
    byteChar_charByte (lt_of_le_of_lt hc.2 (by decide))]

theorem terminalInput_enter {line : Line} {text : List Char} {previousCr : Bool}
    (h : line.met = ⟨text, false, previousCr, false⟩) :
    terminalInput line returnByte = (⟨.ready, "\r\n".toList⟩, ⟨text, false, true, true⟩) := by
  have hfeed : lineFeed line returnByte = (.ready, ⟨text, false, true, true⟩) := by
    rw [← lineFeed_met, h]
    rfl
  unfold terminalInput
  rw [hfeed]
  rfl

/-- A text that is typed in a line is printed. -/
theorem shell_text {text before : List Char} (h : s.editors.Holds before)
    (hvisible : ∀ c ∈ text, Visible c) (hl : before.length + text.length ≤ 127) :
    ∃ line : Line, ({ s.editors with line := line } : Editors).Holds (before ++ text) ∧
      Run.final (shellStep profile client administrator) s ((text.map charByte).map typed) =
        ⟨{ s.editors with line := line }, s.peer, s.printed ++ text⟩ := by
  induction text generalizing s before with
  | nil =>
    obtain ⟨hmode, previousCr, hmet⟩ := h
    refine ⟨s.editors.line, ?_, ?_⟩
    · rw [List.append_nil]
      exact ⟨hmode, previousCr, hmet⟩
    · rw [List.append_nil]
      rfl
  | cons c text ih =>
    rw [List.length_cons] at hl
    obtain ⟨hmode, previousCr, hmet⟩ := h
    obtain ⟨hc, hrest⟩ := List.forall_mem_cons.mp hvisible
    have hinput := terminalInput_visible hmet hc (by omega)
    have hstep : (shellStep profile client administrator s (typed (charByte c))).1 =
        ⟨{ s.editors with line := ⟨before ++ [c], false, false, false⟩ }, s.peer,
          s.printed ++ [c]⟩ := by
      rw [shellStep_line profile client administrator hmode, hinput]
      exact serve_none profile client administrator _
    have hnext : ({ s.editors with line := ⟨before ++ [c], false, false, false⟩ } : Editors).Holds
        (before ++ [c]) := ⟨hmode, false, rfl⟩
    obtain ⟨line, hholds, hfinal⟩ := ih (s := ⟨_, s.peer, s.printed ++ [c]⟩) hnext hrest
      (by rw [List.length_append, List.length_singleton]; omega)
    rw [List.append_assoc, List.singleton_append] at hholds
    refine ⟨line, hholds, ?_⟩
    rw [List.map_cons, List.map_cons, Run.final, hstep, hfinal, List.append_assoc,
      List.singleton_append]

/-- **The line `submit`** begins a packet. -/
theorem shell_submit (hsigned : profile.signed = true) (h : s.editors.Holds []) :
    ∃ line : Line, Run.final (shellStep profile client administrator) s
      (("submit".toList.map charByte ++ [returnByte]).map typed) =
        ⟨⟨line, signedBegin true, true⟩, s.peer,
          s.printed ++ "submit".toList ++ "\r\n".toList ++ enterText⟩ := by
  have hvisible : ∀ c ∈ "submit".toList, Visible c := by
    have hall : "submit".toList.all (fun c => 32 ≤ c.toNat && c.toNat ≤ 126) = true := by decide
    intro c hc
    have hc := List.all_eq_true.mp hall c hc
    rw [Bool.and_eq_true, decide_eq_true_eq, decide_eq_true_eq] at hc
    exact hc
  obtain ⟨line, ⟨hmode, previousCr, hmet⟩, hfinal⟩ := shell_text profile client administrator h
    hvisible (by decide)
  rw [List.nil_append] at hmet
  refine ⟨⟨"submit".toList, false, true, true⟩, ?_⟩
  rw [List.map_append, Run.final_append, hfinal]
  show (shellStep profile client administrator _ (typed returnByte)).1 = _
  rw [shellStep_line profile client administrator
    (s := ⟨{ s.editors with line := line }, s.peer, s.printed ++ "submit".toList⟩) hmode,
    terminalInput_enter hmet]
  exact serve_begin profile client administrator hsigned hmode rfl

/-! ### The packet -/

/-- Digits are the text of the frame, and have no end. -/
theorem frame_digits (cr : Bool) {digits : List UInt8} (hex : ∀ d ∈ digits, HexDigit d) :
    frameText cr (digits.map .byte) = digits.map .byte ∧ frameEnd cr (digits.map .byte) = [] := by
  have hnot : ∀ d, HexDigit d → d ≠ returnByte ∧ d ≠ lineFeedByte ∧ d ≠ ctrlC := by
    rintro d hd
    refine ⟨?_, ?_, ?_⟩ <;> rintro rfl <;> revert hd <;> unfold HexDigit <;> decide
  have hopen : ∀ i ∈ digits.map EditorInput.byte, (!i.delimits) = true := by
    intro i hi
    obtain ⟨d, hd, rfl⟩ := List.mem_map.mp hi
    obtain ⟨h1, h2, h3⟩ := hnot d (hex d hd)
    simp [EditorInput.delimits, h1, h2, h3]
  have hbody : frameBody cr (digits.map .byte) = digits.map .byte := by
    refine if_neg ?_
    rintro ⟨-, hhead⟩
    cases digits with
    | nil => cases hhead
    | cons d digits =>
      have hd : d = lineFeedByte := EditorInput.byte.inj (Option.some.inj hhead)
      exact (hnot d (hex d List.mem_cons_self)).2.1 hd
  unfold frameText frameEnd
  rw [hbody]
  exact ⟨List.takeWhile_eq_self_iff.mpr hopen, List.dropWhile_eq_nil_iff.mpr hopen⟩

/-- What a digit in its place prints. -/
theorem frameFeedback_digit {cr : Bool} {digits : List UInt8} {d : UInt8}
    (hex : ∀ x ∈ digits ++ [d], HexDigit x) (hl : digits.length < 2 * adminPacketBytes) :
    frameFeedback cr (digits.map .byte) d = ⟨.none, [byteChar d]⟩ := by
  obtain ⟨hfront, hd⟩ := List.forall_mem_append.mp hex
  have hd := hd d (List.mem_singleton_self d)
  obtain ⟨htext, hend⟩ := frame_digits cr hfront
  have hne : d ≠ returnByte ∧ d ≠ lineFeedByte ∧ d ≠ ctrlC := by
    refine ⟨?_, ?_, ?_⟩ <;> rintro rfl <;> revert hd <;> unfold HexDigit <;> decide
  have hfolded : ¬ Folded cr (digits.map .byte) (.byte d) := fun h =>
    hne.2.1 (EditorInput.byte.inj h.2.2)
  have hsome : (frameHex (frameText cr (digits.map .byte) ++ [.byte d])).isSome = true := by
    rw [htext, show [EditorInput.byte d] = [d].map .byte from rfl, ← List.map_append,
      frameHex_digits hex (by rw [List.length_append, List.length_singleton]; omega)]
    rfl
  unfold frameFeedback
  rw [if_neg (not_or.mpr ⟨not_not.mpr hend, hfolded⟩), if_neg hne.2.2,
    if_neg (not_or.mpr ⟨hne.1, hne.2.1⟩), if_pos hsome]

/-- **Digits** are printed, and kept. -/
theorem shell_digits (line : Line) (peer : τ) (printed : List Char) (before digits : List UInt8)
    (hex : ∀ d ∈ before ++ digits, HexDigit d)
    (hl : before.length + digits.length ≤ 2 * adminPacketBytes) :
    Run.final (shellStep profile client administrator)
        ⟨⟨line, frameState true (before.map .byte), true⟩, peer, printed⟩ (digits.map typed) =
      ⟨⟨line, frameState true ((before ++ digits).map .byte), true⟩, peer,
        printed ++ digits.map byteChar⟩ := by
  induction digits generalizing before printed with
  | nil =>
    simp only [List.append_nil, List.map_nil]
    rfl
  | cons d digits ih =>
    rw [List.length_cons] at hl
    have hfront : ∀ x ∈ before ++ [d], HexDigit x := by
      intro x hx
      refine hex x ?_
      rcases List.mem_append.mp hx with hx | hx
      · exact List.mem_append_left _ hx
      · rw [List.mem_singleton.mp hx]
        exact List.mem_append_right _ List.mem_cons_self
    have hfeed : signedFeed (frameState true (before.map .byte)) d = _ := frameState_byte d
    rw [frameFeedback_digit hfront (by omega), show [EditorInput.byte d] = [d].map .byte from rfl,
      ← List.map_append] at hfeed
    have hstep : (shellStep profile client administrator
        ⟨⟨line, frameState true (before.map .byte), true⟩, peer, printed⟩ (typed d)).1 =
          ⟨⟨line, frameState true ((before ++ [d]).map .byte), true⟩, peer,
            printed ++ [byteChar d]⟩ := by
      rw [shellStep_packet profile client administrator rfl, hfeed]
      exact serve_none profile client administrator _
    rw [← List.singleton_append, ← List.append_assoc] at hex
    rw [List.map_cons, Run.final, hstep, ih _ _ hex
      (by rw [List.length_append, List.length_singleton]; omega)]
    simp only [List.append_assoc, List.singleton_append, List.map_cons]

theorem frameStep_bytes (s : SignedInput) (bytes : List UInt8) :
    Run.final frameStep s (bytes.map .byte) = Run.final signedFeedStep s bytes := by
  induction bytes generalizing s with
  | nil => rfl
  | cons b bytes ih => exact ih _

theorem hexText_digits (packet : List UInt8) :
    ∀ d ∈ (hexText packet).map charByte, HexDigit d := by
  intro d hd
  obtain ⟨c, hc, rfl⟩ := List.mem_map.mp hd
  obtain ⟨b, -, hb⟩ := List.mem_flatMap.mp hc
  rw [← hexNibble_isSome]
  rcases List.mem_cons.mp hb with rfl | hb
  · rw [hexNibble_hexDigit (byte_halves_lt b).1]
    rfl
  · rw [List.mem_singleton.mp hb, hexNibble_hexDigit (byte_halves_lt b).2]
    rfl

theorem length_hexText (packet : List UInt8) : (hexText packet).length = 2 * packet.length := by
  unfold hexText
  rw [List.length_flatMap]
  simp [Nat.mul_comm]

/-- The digits are shown as they are. -/
theorem hexText_shown (packet : List UInt8) :
    ((hexText packet).map charByte).map byteChar = hexText packet := by
  rw [List.map_map]
  refine (List.map_congr_left fun c hc => ?_).trans (List.map_id _)
  obtain ⟨b, -, hb⟩ := List.mem_flatMap.mp hc
  have key : ∀ k < 16, byteChar (charByte (hexDigit (UInt8.ofNat k))) = hexDigit (UInt8.ofNat k) := by
    decide +kernel
  obtain ⟨h1, h2⟩ := byte_halves_lt b
  have hhigh := key (b >>> 4).toNat (UInt8.lt_iff_toNat_lt.mp h1)
  have hlow := key (b &&& 15).toNat (UInt8.lt_iff_toNat_lt.mp h2)
  rw [UInt8.ofNat_toNat] at hhigh hlow
  rcases List.mem_cons.mp hb with rfl | hb
  · exact hhigh
  · rw [List.mem_singleton.mp hb]
    exact hlow

/-- The digits of a packet and Enter are the packet. -/
theorem frame_hexText {packet : List UInt8} (hlength : packet.length = adminPacketBytes) :
    let digits := (hexText packet).map charByte
    frameFeedback true (digits.map .byte) returnByte = ⟨.ready, "\r\n".toList⟩ ∧
      (frameState true (digits.map .byte ++ [.byte returnByte])).packet.toList = packet ∧
      (frameState true (digits.map .byte ++ [.byte returnByte])).previousCr = true := by
  intro digits
  have hex : ∀ d ∈ digits, HexDigit d := hexText_digits packet
  have hdigits : digits.length = 2 * adminPacketBytes := by
    rw [List.length_map, length_hexText, hlength]
  obtain ⟨htext, hend⟩ := frame_digits true hex
  have hwhole : frameWhole (frameText true (digits.map .byte)) = true := by
    rw [htext]
    exact (frameWhole_iff _).mpr ⟨digits, rfl, hdigits, hex⟩
  have hfolded : ¬ Folded true (digits.map .byte) (.byte returnByte) := fun h => by cases h.2.2
  have hready : frameFeedback true (digits.map .byte) returnByte = ⟨.ready, "\r\n".toList⟩ := by
    unfold frameFeedback
    rw [if_neg (not_or.mpr ⟨not_not.mpr hend, hfolded⟩), if_neg (by decide), if_pos (Or.inl rfl),
      hwhole]
    rfl
  refine ⟨hready, ?_, ?_⟩
  · -- the decoder, as it is fed
    obtain ⟨hpacket, -⟩ := feed_packet hlength true (Or.inl (rfl : returnByte = returnByte))
    have hclean : EditorInput.discard ∉
        frameEnd true ((digits ++ [returnByte]).map EditorInput.byte) := by
      intro hmem
      obtain ⟨fold, -, hsplit⟩ := frame_split true ((digits ++ [returnByte]).map EditorInput.byte)
      have hall : EditorInput.discard ∈ (digits ++ [returnByte]).map EditorInput.byte := by
        rw [hsplit]
        exact List.mem_append_right _ hmem
      obtain ⟨_, -, h⟩ := List.mem_map.mp hall
      cases h
    have hrun := frameState_run hclean
    rw [frameStep_bytes, List.map_append] at hrun
    rw [show [EditorInput.byte returnByte] = [returnByte].map .byte from rfl, ← hrun]
    exact hpacket
  · have hne : (frameFeedback true (digits.map .byte) returnByte).event ≠ .none := by
      rw [hready]
      decide
    rw [(frameState_closed hend hne).2]
    rfl

theorem shell_hexText (line : Line) (peer : τ) (printed : List Char) {packet : List UInt8}
    (hlength : packet.length = adminPacketBytes) :
    let out := administrator peer (submission (fun _ => 0) packet)
    Run.final (shellStep profile client administrator) ⟨⟨line, signedBegin true, true⟩, peer, printed⟩
        (((hexText packet).map charByte ++ [returnByte]).map typed) =
      ⟨⟨{ Line.zero with previousCr := true }, signedDiscard, false⟩, out.2,
        printed ++ hexText packet ++ "\r\n".toList ++
          (packetText (signedCommand packet) out.1 ++ promptText)⟩ := by
  intro out
  have hdigits := shell_digits profile client administrator line peer printed []
    ((hexText packet).map charByte) (hexText_digits packet)
    (by rw [List.length_nil, List.length_map, length_hexText, hlength]; omega)
  rw [List.map_nil, frameState_nil, List.nil_append, hexText_shown] at hdigits
  obtain ⟨hready, hpacket, hreturn⟩ := frame_hexText hlength
  have hfeed : signedFeed (frameState true (((hexText packet).map charByte).map .byte)) returnByte =
      _ := frameState_byte returnByte
  rw [hready] at hfeed
  rw [List.map_append, Run.final_append, hdigits, List.map_singleton, Run.final, Run.final,
    shellStep_packet profile client administrator rfl, hfeed]
  have hserve := serve_submit profile client administrator (s := ⟨⟨line,
    frameState true (((hexText packet).map charByte).map .byte ++ [.byte returnByte]), true⟩, peer,
    printed ++ hexText packet ++ "\r\n".toList⟩) rfl
  dsimp only at hserve
  rw [hpacket, hreturn] at hserve
  exact hserve

/-- **A packet that is typed** is one call of the administrator. -/
theorem shell_packet (hsigned : profile.signed = true) (h : s.editors.Holds [])
    {packet : List UInt8} (hlength : packet.length = adminPacketBytes) :
    let out := administrator s.peer (submission (fun _ => 0) packet)
    Run.final (shellStep profile client administrator) s ((submitBytes packet).map typed) =
      ⟨⟨{ Line.zero with previousCr := true }, signedDiscard, false⟩, out.2,
        s.printed ++ submitText packet ++ (packetText (signedCommand packet) out.1 ++ promptText)⟩ := by
  intro out
  obtain ⟨line, hsubmit⟩ := shell_submit profile client administrator hsigned h
  have htext := shell_hexText profile client administrator line s.peer
    (s.printed ++ "submit".toList ++ "\r\n".toList ++ enterText) hlength
  have hprinted : s.printed ++ "submit".toList ++ "\r\n".toList ++ enterText ++ hexText packet ++
      "\r\n".toList = s.printed ++ submitText packet := by
    unfold submitText
    simp only [List.append_assoc]
  rw [← hsubmit, hprinted, ← Run.final_append, ← List.map_append] at htext
  exact htext

end

/-! ### The book -/

/-- What administrator, policy and audit have, and what the operator was shown. -/
structure Book where
  admin : Admin
  table : Policy
  audit : AuditLog
  printed : List Char

/-- The book as the image starts. -/
def Book.start (profile : Profile)
    (config : Option (Vector UInt8 32 × Vector UInt8 32 × Vector UInt8 32)) : Book :=
  ⟨(SignedSystem.start config).admin, Policy.zero, AuditLog.empty, bannerText profile⟩

section

variable (check : List UInt8 → List UInt8 → List UInt8 → Bool)

/-- A packet is entered: it is executed and its receipt is shown, or it is rejected with a reason. -/
def Book.submit (b : Book) (packet : List UInt8) : Book :=
  let shown := b.printed ++ submitText packet
  match (adminAdmit check b.admin packet).1 with
  | .accepted =>
    let command := packetCommand packet
    let executed := adminExecute b.table command b.audit.room
    ⟨b.admin.completed, executed.2, b.audit.decided b.table command,
      shown ++ (receiptText executed.1 ++ promptText)⟩
  | status => { b with printed := shown ++ (rejectedText status ++ promptText) }

end

variable {check : List UInt8 → List UInt8 → List UInt8 → Bool}

theorem Book.submit_admitted {b : Book} {packet : List UInt8} (ha : Admits check b.admin packet) :
    b.submit check packet = ⟨b.admin.completed,
      (adminExecute b.table (packetCommand packet) b.audit.room).2,
      b.audit.decided b.table (packetCommand packet), b.printed ++ submitText packet ++
        (receiptText (adminExecute b.table (packetCommand packet) b.audit.room).1 ++ promptText)⟩ := by
  unfold Book.submit
  rw [adminAdmit_accepted_iff.mpr ha]

theorem Book.submit_rejected {b : Book} {packet : List UInt8} (ha : ¬ Admits check b.admin packet) :
    b.submit check packet = { b with printed := b.printed ++ submitText packet ++
      (rejectedText (adminAdmit check b.admin packet).1 ++ promptText) } := by
  have hne : (adminAdmit check b.admin packet).1 ≠ .accepted := (not_congr adminAdmit_accepted_iff).mpr ha
  unfold Book.submit
  generalize (adminAdmit check b.admin packet).1 = status at hne
  cases status with
  | accepted => exact absurd rfl hne
  | _ => rfl

theorem adminCall_reason (s : Admin × PolicyServer × AuditLog) (hops : Hops) (mr : Registers)
    {packet : List UInt8} (hlength : packet.length = adminPacketBytes)
    (ha : ¬ Admits check s.1 packet) :
    adminCall check hops s (submission mr packet) =
      ((adminAdmissionReply ((submission mr packet).deliver hops.first.callee).mr
        (adminAdmit check s.1 packet).1).deliver hops.first.caller, s) := by
  obtain ⟨status, hne, -, hanswer⟩ := adminAdmit_of_not_admits ha
  have hserver : adminServerRequest check (policyCall hops 0) 0 s
      ((submission mr packet).deliver hops.first.callee) =
        (adminAdmissionReply ((submission mr packet).deliver hops.first.callee).mr status, s) := by
    obtain ⟨a, t⟩ := s
    unfold adminServerRequest
    rw [bytesFromWords_submission mr hlength]
    dsimp only at hanswer ⊢
    rw [hanswer, if_neg (not_not.mpr rfl), if_neg (by simp [submission])]
    exact if_pos hne
  unfold adminCall
  rw [ppcall_eq, hserver, hanswer]

theorem packetText_receipt {command : AdminCommand} {reply : Message} {r : AdminReceipt}
    (hd : adminReceiptDecode reply = some r) (hv : adminReceiptValid command r = true) :
    packetText command reply = receiptText r := by
  unfold packetText
  rw [hd, Option.filter_some_pos hv]

/-- A rejection is printed with its reason. -/
theorem packetText_rejected (command : AdminCommand) (mr : Registers) {status : AdminStatus}
    (h1 : status ≠ .accepted) (h2 : status ≠ .badCompletion) (noise : Registers) :
    packetText command ((adminAdmissionReply mr status).deliver noise) = rejectedText status := by
  have hl := length_packetText command ((adminAdmissionReply mr status).deliver noise)
  have hr := length_rejectedText status
  have h := packetReply_rejected Terminal.zero command mr h1 h2 noise
  have hempty : Terminal.zero.output.length = 0 := rfl
  rw [packetReply_eq, Terminal.append_eq _ _ (by omega), Terminal.append_eq _ _ (by omega)] at h
  exact congrArg Terminal.output h

/-- A packet that is not admitted changes nothing, and its rejection is printed with the reason. -/
theorem imageAdministrator_rejected (s : Image) (mr : Registers) {packet : List UInt8}
    (hlength : packet.length = adminPacketBytes) (ha : ¬ Admits check s.admin packet) :
    let out := imageAdministrator check s (submission mr packet)
    (∀ command, packetText command out.1 = rejectedText (adminAdmit check s.admin packet).1) ∧
      out.2 = { s with calls := s.calls + 1 } := by
  intro out
  have hcall := adminCall_reason (s.admin, s.policy, s.audit) (s.noise s.calls).2 mr hlength ha
  obtain ⟨status, h1, h2, hanswer⟩ := adminAdmit_of_not_admits ha
  have hout : out = ((adminCall check (s.noise s.calls).2 (s.admin, s.policy, s.audit)
      (submission mr packet)).1, _) := rfl
  rw [hcall] at hout
  rw [hout, hanswer]
  exact ⟨fun command => packetText_rejected command _ h1 h2 _, rfl⟩

/-- The image is between two packets, as the book has it. -/
structure Tallies (b : Book) (s : Shell Image) : Prop where
  synced : Synced s.peer.system
  admin : s.peer.admin = b.admin
  table : s.peer.policy.live = b.table
  audit : s.peer.audit = b.audit
  printed : s.printed = b.printed
  editors : s.editors.Holds []

/-- **The image keeps the book**: a packet that is typed is entered. -/
theorem Tallies.submit {profile : Profile} (hsigned : profile.signed = true) {b : Book}
    {s : Shell Image} (h : Tallies b s) {packet : List UInt8}
    (hlength : packet.length = adminPacketBytes) :
    Tallies (b.submit check packet)
      (Run.final (shellStep profile imageClient (imageAdministrator check)) s
        ((submitBytes packet).map typed)) := by
  have hshell := shell_packet profile imageClient (imageAdministrator check) hsigned h.editors hlength
  dsimp only at hshell
  rw [hshell]
  have hholds : Editors.Holds ⟨{ Line.zero with previousCr := true }, signedDiscard, false⟩ [] :=
    ⟨rfl, true, rfl⟩
  by_cases ha : Admits check s.peer.admin packet
  · obtain ⟨hdecode, hvalid, hstate⟩ := imageAdministrator_admitted h.synced (fun _ => 0) hlength ha
    have htext : packetText (signedCommand packet) (imageAdministrator check s.peer
        (submission (fun _ => 0) packet)).1 = _ := packetText_receipt hdecode hvalid
    rw [hstate, htext]
    rw [h.admin] at ha
    rw [Book.submit_admitted ha, ← h.admin, ← h.table, ← h.audit, ← h.printed]
    rw [← h.admin] at ha
    exact ⟨Image.synced_admitted h.synced ha, rfl, rfl, rfl, rfl, hholds⟩
  · obtain ⟨htext, hstate⟩ := imageAdministrator_rejected s.peer (fun _ => 0) hlength ha
    rw [htext (signedCommand packet), hstate]
    rw [h.admin] at ha
    rw [Book.submit_rejected ha, ← h.admin, ← h.printed]
    exact ⟨h.synced, rfl, h.table, h.audit, rfl, hholds⟩

/-- The packets of a session are entered one after the other. -/
theorem Tallies.session {profile : Profile} (hsigned : profile.signed = true) {b : Book}
    {s : Shell Image} (h : Tallies b s) {packets : List (List UInt8)}
    (hlength : ∀ packet ∈ packets, packet.length = adminPacketBytes) :
    Tallies (packets.foldl (Book.submit check) b)
      (Run.final (shellStep profile imageClient (imageAdministrator check)) s
        ((packets.flatMap submitBytes).map typed)) := by
  induction packets generalizing b s with
  | nil => exact h
  | cons packet packets ih =>
    obtain ⟨hfirst, hrest⟩ := List.forall_mem_cons.mp hlength
    rw [List.foldl_cons, List.flatMap_cons, List.map_append, Run.final_append]
    exact ih (h.submit hsigned hfirst) hrest

/-- The image starts with the book's first page. -/
theorem tallies_start (profile : Profile)
    (config : Option (Vector UInt8 32 × Vector UInt8 32 × Vector UInt8 32))
    (noise : ℕ → Noise × Hops) :
    Tallies (Book.start profile config) (Shell.start profile (Image.start config noise)) := by
  have h := synced_start config
  refine ⟨⟨h.idle, h.sequence, h.exhausted, h.ready, h.table, rfl⟩, rfl, ?_, ?_, rfl, rfl, false, rfl⟩
  · cases config <;> rfl
  · cases config <;> rfl

/-- **A session is exact.** Packets are typed at the signed image, each as the line `submit` and its
digits, and nothing else; signed or not, in turn or not, whatever the audit has room for. The
interrupts bring no error and no more than the queue has room for, and are otherwise arbitrary, as
are the schedule and the transmitter. Where nothing is due any more, administrator, table and audit
are what `Book.submit` makes of the packets in their order, and the wire carries what it shows, down
to the last byte. -/
theorem session_exact {profile : Profile} (hbuilt : profile.Built) (hsigned : profile.signed = true)
    (check : List UInt8 → List UInt8 → List UInt8 → Bool)
    (config : Option (Vector UInt8 32 × Vector UInt8 32 × Vector UInt8 32))
    (noise : ℕ → Noise × Hops) (packets : List (List UInt8))
    (hlength : ∀ packet ∈ packets, packet.length = adminPacketBytes) (actions : List LinkAction)
    (hroomy : ∀ e ∈ Run.trace (linkStep profile imageClient (imageAdministrator check))
      (Link.boot profile (Image.start config noise)) actions, LinkEntry.Roomy e)
    (harrived : actions.flatMap arrivals = (packets.flatMap submitBytes).map some) :
    let s := Run.final (linkStep profile imageClient (imageAdministrator check))
      (Link.boot profile (Image.start config noise)) actions
    let book := packets.foldl (Book.submit check) (Book.start profile config)
    (∀ a, ¬ s.Due a) → s.peer.admin = book.admin ∧ s.peer.policy.live = book.table ∧
      s.peer.audit = book.audit ∧ s.driver.wire = book.printed.map charByte := by
  intro s book hnone
  obtain ⟨-, hpeer, hwire⟩ := typed_drained hbuilt counted_imageClient
    (counted_imageAdministrator check) _ actions hroomy harrived.symm hnone
  have h : Tallies book _ := (tallies_start profile config noise).session hsigned hlength
  rw [hpeer, hwire, h.printed]
  exact ⟨h.admin, h.table, h.audit, rfl⟩

/-- What the operator is shown where the grant is typed twice: it is executed, and then it is out of
its turn. -/
def grantShown : List Char :=
  bannerText fixtureProfile ++
    submitText grantPacket ++
    ("ADMIN seq=1 decision=0 audit=1 applied=1 state=1 generation=1\r\n".toList ++ promptText) ++
    submitText grantPacket ++ ("ADMIN REJECTED status=5\r\n".toList ++ promptText)

theorem session_exact_grant :
    let s := Run.final (linkStep fixtureProfile imageClient (imageAdministrator grantCheck))
      fixtureBoot grantSession
    s.peer.admin.nextSequence = 2 ∧ (s.peer.policy.live.at 0).generation = 1 ∧
      s.driver.wire = grantShown.map charByte := by
  obtain ⟨hroomy, harrived, hquiet⟩ := grantSession_quiet
  have hlength : ∀ packet ∈ [grantPacket, grantPacket], packet.length = adminPacketBytes := by
    intro packet hp
    rcases List.mem_cons.mp hp with rfl | hp
    · rfl
    · rw [List.mem_singleton.mp hp]
      rfl
  unfold fixtureBoot at hroomy hquiet ⊢
  obtain ⟨hadmin, htable, -, hwire⟩ := session_exact fixtureProfile_built rfl grantCheck
    (some (grantKey, Vector.replicate 32 1, Vector.replicate 32 2)) quietNoise
    [grantPacket, grantPacket] hlength grantSession hroomy harrived hquiet
  dsimp only
  rw [hadmin, htable, hwire]
  have hbook : ∀ book, book = [grantPacket, grantPacket].foldl (Book.submit grantCheck) (Book.start
      fixtureProfile (some (grantKey, Vector.replicate 32 1, Vector.replicate 32 2))) →
        book.admin.nextSequence = 2 ∧ (book.table.at 0).generation = 1 ∧
          book.printed = grantShown := by
    intro book hb
    rw [hb]
    decide +kernel
  obtain ⟨hnext, hgeneration, hshown⟩ := hbook _ rfl
  exact ⟨hnext, hgeneration, by rw [hshown]⟩

end Tcs
