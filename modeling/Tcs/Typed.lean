/-
# What the administrator is told was typed

The shell calls the administrator with packets only, and a packet is read
from what is typed and from nothing else: a line `submit`, and then 384
hexadecimal digits and Enter, with nothing lost from the first byte of the
line to the last Enter (`TypedPacket`). Any servers may be called, with any
state: the servers after a run are those that calls of the client and the
typed packets lead to (`Called`).

The two editors know their lines as functions of the inputs (`lineHeld`,
`frameState`). A line is read from the takes behind the last delimiter
(`InLine`); a packet from those behind the line `submit`, which are known
with it (`InPacket`).

Key definitions: `TypedPacket`, `Called`, `InLine`, `InPacket`, `TypedOk`.
Key theorems: `inLine_step`, `inPacket_step`, `typedOk_step`,
`submitted_is_typed`.
-/
import Tcs.EndToEnd
import Tcs.FrameSpec
import Tcs.LineSpec
import Tcs.Shell

namespace Tcs

open Ipc

/-! ### What reaches the editors -/

/-- What reaches an editor with a take: the notice of a loss, and the byte. -/
def takeInputs (k : Take) : List EditorInput :=
  (if k.lost then [.discard] else []) ++ k.item.toList.map .byte

def editorInputs (takes : List Take) : List EditorInput := takes.flatMap takeInputs

theorem editorInputs_append (takes more : List Take) :
    editorInputs (takes ++ more) = editorInputs takes ++ editorInputs more := List.flatMap_append

theorem editorInputs_snoc (takes : List Take) (k : Take) :
    editorInputs (takes ++ [k]) = editorInputs takes ++ takeInputs k := by
  rw [editorInputs_append]
  exact congrArg _ (List.flatMap_singleton ..)

/-- Where no loss was noticed, no take was marked, and the inputs are the bytes. -/
theorem editorInputs_clean {takes : List Take} (h : .discard ∉ editorInputs takes) :
    (∀ k ∈ takes, k.lost = false) ∧ editorInputs takes = (Lossy.items takes).map .byte := by
  induction takes with
  | nil => exact ⟨fun k => List.not_mem_nil.elim, rfl⟩
  | cons k takes ih =>
    have hcons : editorInputs (k :: takes) = takeInputs k ++ editorInputs takes :=
      List.flatMap_cons
    rw [hcons, List.mem_append, not_or] at h
    obtain ⟨hunmarked, hbytes⟩ := ih h.2
    have hlost : k.lost = false := by
      by_contra hl
      refine h.1 (List.mem_append_left _ ?_)
      rw [if_pos (by simpa using hl)]
      exact List.mem_singleton_self _
    refine ⟨List.forall_mem_cons.mpr ⟨hlost, hunmarked⟩, ?_⟩
    rw [hcons, hbytes, Lossy.items_cons, List.map_append]
    unfold takeInputs
    rw [hlost]
    rfl

/-- A text that is a stack has no loss in it. -/
theorem lineStack_clean {text : List EditorInput} {stack : List Char}
    (h : lineStack text = some stack) : .discard ∉ text := by
  induction text using List.reverseRecOn generalizing stack with
  | nil => exact List.not_mem_nil
  | append_singleton text i ih =>
    rw [lineStack_snoc, Option.bind_eq_some_iff] at h
    obtain ⟨before, hbefore, hstep⟩ := h
    rw [List.mem_append, not_or]
    refine ⟨ih hbefore, fun hi => ?_⟩
    rw [← List.mem_singleton.mp hi] at hstep
    cases hstep

/-! ### A typed packet -/

/-- A packet as it is typed: a line that the editor reads as `submit`, Enter, perhaps the line feed
that belongs to it, 384 hexadecimal digits, and Enter. -/
structure TypedPacket where
  line : List UInt8
  enter : UInt8
  fold : List UInt8
  digits : List UInt8
  last : UInt8
  reads : lineStack (line.map .byte) = some "submit".toList
  undelimited : ∀ b ∈ line, (EditorInput.byte b).delimits = false
  entered : enter = returnByte ∨ enter = lineFeedByte
  folded : fold = [] ∨ (enter = returnByte ∧ fold = [lineFeedByte])
  length : digits.length = 384
  hex : ∀ d ∈ digits, HexDigit d
  ended : last = returnByte ∨ last = lineFeedByte

/-- The bytes that are typed. -/
def TypedPacket.bytes (p : TypedPacket) : List UInt8 :=
  p.line ++ [p.enter] ++ (p.fold ++ p.digits ++ [p.last])

/-- The value of a digit. -/
def hexValue (digit : UInt8) : UInt8 := (hexNibble digit).getD 0

/-- The packet that the digits stand for. -/
def TypedPacket.packet (p : TypedPacket) : List UInt8 := (hexPacket (p.digits.map hexValue)).toList

theorem frameHex_digits {digits : List UInt8} (hex : ∀ d ∈ digits, HexDigit d)
    (hl : digits.length ≤ 2 * adminPacketBytes) :
    frameHex (digits.map .byte) = some (digits.map hexValue) := by
  have hmap : (digits.map EditorInput.byte).mapM EditorInput.digit =
      some (digits.map hexValue) := by
    clear hl
    induction digits with
    | nil => rfl
    | cons d digits ih =>
      obtain ⟨hd, hrest⟩ := List.forall_mem_cons.mp hex
      obtain ⟨x, hx⟩ := Option.isSome_iff_exists.mp ((hexNibble_isSome d).mpr hd)
      have hdigit : (EditorInput.byte d).digit = some (hexValue d) := by
        unfold hexValue
        rw [hx]
        exact hx
      rw [List.map_cons, List.mapM_cons, hdigit, ih hrest]
      rfl
  unfold frameHex
  rw [hmap, Option.bind_some, if_pos (by rwa [List.length_map])]

/-! ### The servers that are called -/

section

variable {τ : Type*} (profile : Profile) (client administrator : Peer τ)

/-- What calls of the client and typed packets make of the servers. -/
inductive Called (start : τ) : List TypedPacket → τ → Prop
  | start : Called start [] start
  | client {packets : List TypedPacket} {peer : τ} (h : Called start packets peer) (m : Message) :
      Called start packets (client peer m).2
  | submit {packets : List TypedPacket} {peer : τ} (h : Called start packets peer)
      (p : TypedPacket) :
      Called start (packets ++ [p]) (administrator peer (submission (fun _ => 0) p.packet)).2

/-! ### What a take and an event do to the editors -/

theorem feed_peer (s : Shell τ) (k : Take) : (s.feed k).1.peer = s.peer := by
  unfold Shell.feed
  cases k.item <;> rfl

theorem marked_line {t : Terminal} (h : t.packetMode = false) (lost : Bool) :
    (t.marked lost).packetMode = false ∧
      (t.marked lost).line = if lost then lineDiscard t.line else t.line := by
  cases lost with
  | false => exact ⟨h, rfl⟩
  | true =>
    have hmarked : t.marked true = ({ t with line := lineDiscard t.line } : Terminal).append
        lossText := by
      show t.inputLost = _
      unfold Terminal.inputLost
      rw [if_neg (by rw [h]; exact Bool.false_ne_true)]
      rfl
    rw [hmarked, Terminal.append_packetMode, Terminal.append_line]
    exact ⟨h, rfl⟩

theorem marked_packet {t : Terminal} (h : t.packetMode = true) (lost : Bool) :
    (t.marked lost).packetMode = true ∧
      (t.marked lost).signedInput = if lost then signedDiscard else t.signedInput := by
  cases lost with
  | false => exact ⟨h, rfl⟩
  | true =>
    have hmarked : t.marked true = ({ t with
        signedInput := signedDiscard, line := lineDiscard t.line } : Terminal).append lossText := by
      show t.inputLost = _
      unfold Terminal.inputLost
      rw [if_pos h]
      rfl
    rw [hmarked, Terminal.append_packetMode, Terminal.append_signedInput]
    exact ⟨h, rfl⟩

/-- What a byte behind the mark of a loss does to the editors, and its event. -/
theorem feed_byte (s : Shell τ) (lost : Bool) (b : UInt8) :
    (s.feed ⟨lost, some b⟩).1.editors = ((s.editors.fresh.marked lost).feed b).2.editors ∧
      (s.feed ⟨lost, some b⟩).2 = ((s.editors.fresh.marked lost).feed b).1.event := by
  constructor
  · show (((s.editors.fresh.marked lost).feed b).2.append _).editors = _
    rw [Terminal.editors_append]
  · rfl

theorem feed_inLine {s : Shell τ} (h : s.editors.packetMode = false) (k : Take) :
    let line := if k.lost then lineDiscard s.editors.line else s.editors.line
    (s.feed k).1.editors.packetMode = false ∧
      (s.feed k).1.editors.line = (k.item.elim line fun b => (lineFeed line b).2) ∧
      (s.feed k).2 = k.item.elim .none fun b => (lineFeed line b).1 := by
  intro line
  obtain ⟨lost, item⟩ := k
  obtain ⟨hmode, hline⟩ := marked_line (t := s.editors.fresh) h lost
  change _ = line at hline
  cases item with
  | none => exact ⟨hmode, hline, rfl⟩
  | some b =>
    have hfeed : (s.editors.fresh.marked lost).feed b = ((terminalInput line b).1,
        { s.editors.fresh.marked lost with line := (terminalInput line b).2 }) := by
      rw [← hline]
      exact if_neg (by rw [hmode]; exact Bool.false_ne_true)
    obtain ⟨heditors, hevent⟩ := feed_byte s lost b
    rw [heditors, hevent, hfeed]
    exact ⟨hmode, rfl, rfl⟩

theorem feed_inPacket {s : Shell τ} (h : s.editors.packetMode = true) (k : Take) :
    let input := if k.lost then signedDiscard else s.editors.signedInput
    (s.feed k).1.editors.packetMode = true ∧
      (s.feed k).1.editors.signedInput = (k.item.elim input fun b => (signedFeed input b).2) ∧
      (s.feed k).2 = k.item.elim .none fun b => (signedFeed input b).1.event := by
  intro input
  obtain ⟨lost, item⟩ := k
  obtain ⟨hmode, hinput⟩ := marked_packet (t := s.editors.fresh) h lost
  change _ = input at hinput
  cases item with
  | none => exact ⟨hmode, hinput, rfl⟩
  | some b =>
    have hfeed : (s.editors.fresh.marked lost).feed b = ((signedFeed input b).1,
        { s.editors.fresh.marked lost with signedInput := (signedFeed input b).2 }) := by
      rw [← hinput]
      exact if_pos hmode
    obtain ⟨heditors, hevent⟩ := feed_byte s lost b
    rw [heditors, hevent, hfeed]
    exact ⟨hmode, rfl, rfl⟩

theorem execute_submit (mr : Registers) {t : Terminal} (peer : τ)
    (hs : profile.signed = true ∧ t.line.bytes = "submit".toList) :
    (execute profile mr client t peer).1.editors = ⟨t.line, signedBegin t.line.previousCr, true⟩ ∧
      (execute profile mr client t peer).2 = peer := by
  unfold execute
  rw [if_pos hs]
  dsimp only
  rw [Terminal.editors_append]
  exact ⟨rfl, rfl⟩

/-- Any other line calls the client at most. -/
theorem execute_calls (mr : Registers) {t : Terminal} (peer : τ)
    (hs : ¬ (profile.signed = true ∧ t.line.bytes = "submit".toList)) :
    (execute profile mr client t peer).1.editors = t.editors ∧
      ((execute profile mr client t peer).2 = peer ∨
        ∃ m, (execute profile mr client t peer).2 = (client peer m).2) := by
  constructor
  · obtain ⟨text, htext⟩ := execute_prints profile mr client t peer hs
    rw [htext, Terminal.editors_append]
  · unfold execute
    rw [if_neg hs]
    dsimp only
    cases (commandParse t.line.bytes).kind with
    | empty => exact Or.inl rfl
    | help => exact Or.inl rfl
    | version => exact Or.inl rfl
    | status => exact Or.inr ⟨_, rfl⟩
    | read => exact Or.inr ⟨_, rfl⟩
    | invalid => exact Or.inl rfl

/-- The event of a line: the line `submit` begins a packet, any other calls the client at most. -/
theorem serve_line {s : Shell τ} (h : s.editors.packetMode = false) (event : LineEvent) :
    (event = .ready ∧ s.editors.line.bytes = "submit".toList ∧
        (s.serve profile client administrator event).editors =
          ⟨s.editors.line, signedBegin s.editors.line.previousCr, true⟩ ∧
        (s.serve profile client administrator event).peer = s.peer) ∨
      ((s.serve profile client administrator event).editors = s.editors ∧
        ((s.serve profile client administrator event).peer = s.peer ∨
          ∃ m, (s.serve profile client administrator event).peer = (client s.peer m).2)) := by
  unfold Shell.serve
  by_cases he : event = .none
  · rw [if_pos he]
    exact Or.inr ⟨rfl, Or.inl rfl⟩
  rw [if_neg he]
  unfold Terminal.handle
  rw [if_neg (show ¬ s.editors.fresh.packetMode = true by simp [Editors.fresh, h])]
  cases event with
  | none => exact absurd rfl he
  | rejected =>
    dsimp only [Shell.went]
    rw [Terminal.editors_append]
    exact Or.inr ⟨rfl, Or.inl rfl⟩
  | cancelled =>
    dsimp only [Shell.went]
    rw [Terminal.editors_append]
    exact Or.inr ⟨rfl, Or.inl rfl⟩
  | ready =>
    dsimp only
    by_cases hs : profile.signed = true ∧ s.editors.fresh.line.bytes = "submit".toList
    · obtain ⟨heditors, hpeer⟩ := execute_submit profile client (fun _ => 0) s.peer hs
      exact Or.inl ⟨rfl, hs.2, heditors, hpeer⟩
    · obtain ⟨heditors, hpeer⟩ := execute_calls profile client (fun _ => 0) s.peer hs
      exact Or.inr ⟨heditors, hpeer⟩

/-- The event of a packet: one that is ready is submitted, and a line comes next. -/
theorem serve_packet {s : Shell τ} (h : s.editors.packetMode = true) {event : LineEvent}
    (he : event ≠ .none) :
    (s.serve profile client administrator event).editors =
        ⟨{ Line.zero with previousCr := s.editors.signedInput.previousCr }, signedDiscard, false⟩ ∧
      (s.serve profile client administrator event).peer =
        if event = .ready then
          (administrator s.peer (submission (fun _ => 0) s.editors.signedInput.packet.toList)).2
        else s.peer := by
  unfold Shell.serve
  rw [if_neg he]
  unfold Terminal.handle
  rw [if_pos (show s.editors.fresh.packetMode = true from h)]
  unfold finishPacket
  dsimp only [Shell.went]
  rw [Terminal.editors_append]
  cases event with
  | none => exact absurd rfl he
  | ready => exact ⟨rfl, rfl⟩
  | rejected => exact ⟨rfl, rfl⟩
  | cancelled => exact ⟨rfl, rfl⟩

end

/-! ### Lines -/

/-- The terminal reads a line, and its text is what was taken in `since`. -/
structure InLine (takes since : List Take) (e : Editors) : Prop where
  mode : e.packetMode = false
  segment : editorInputs since = lineSegment (editorInputs takes)
  line : e.line.met =
    lineHeld (lineSegment (editorInputs takes)) (endsWithReturn (editorInputs takes))

/-- The terminal reads a packet: what was taken in `line` is the line `submit`, and what was taken
in `frame` is behind it. -/
structure InPacket (line frame : List Take) (text : List UInt8) (enter : UInt8) (e : Editors) :
    Prop where
  mode : e.packetMode = true
  unmarked : ∀ k ∈ line, k.lost = false
  bytes : Lossy.items line = text ++ [enter]
  reads : lineStack (text.map .byte) = some "submit".toList
  undelimited : ∀ b ∈ text, (EditorInput.byte b).delimits = false
  entered : enter = returnByte ∨ enter = lineFeedByte
  input : e.signedInput = frameState (enter = returnByte) (editorInputs frame)
  going : frameEnd (enter = returnByte) (editorInputs frame) = []

/-- The notice of a loss, if there is one. -/
def lossInputs (lost : Bool) : List EditorInput := if lost then [.discard] else []

theorem lineSegment_loss (ins : List EditorInput) (lost : Bool) :
    lineSegment (ins ++ lossInputs lost) = lineSegment ins ++ lossInputs lost := by
  cases lost with
  | false =>
    rw [show lossInputs false = [] from rfl, List.append_nil, List.append_nil]
  | true =>
    rw [show lossInputs true = [.discard] from rfl, lineSegment_snoc]
    exact if_neg Bool.false_ne_true

theorem lineHeld_loss {ins : List EditorInput} {line : Line}
    (h : line.met = lineHeld (lineSegment ins) (endsWithReturn ins)) (lost : Bool) :
    (if lost then lineDiscard line else line).met =
      lineHeld (lineSegment (ins ++ lossInputs lost)) (endsWithReturn (ins ++ lossInputs lost)) := by
  cases lost with
  | false =>
    rw [show lossInputs false = [] from rfl, List.append_nil]
    exact h
  | true => exact lineHeld_discard ins line

theorem Line.met_previousCr (line : Line) : line.met.previousCr = line.previousCr := by
  unfold Line.met
  split_ifs <;> rfl

theorem frameEnd_nil (cr : Bool) : frameEnd cr [] = [] := by
  simp [frameEnd, frameBody]

theorem frameState_nil (cr : Bool) : frameState cr [] = signedBegin cr := by
  have h : EditorInput.discard ∉ frameEnd cr [] := by simp [frameEnd_nil]
  exact (frameState_run h).symm

section

variable {τ : Type*} {profile : Profile} {client administrator : Peer τ}
  {takes since : List Take} {s : Shell τ}

/-- **A take in a line**: the line goes on, or is over, or begins a packet. -/
theorem inLine_step (h : InLine takes since s.editors) (k : Take) :
    let s' := (shellStep profile client administrator s k).1
    (InLine (takes ++ [k]) (since ++ [k]) s'.editors ∨ InLine (takes ++ [k]) [] s'.editors) ∧
        (s'.peer = s.peer ∨ ∃ m, s'.peer = (client s.peer m).2) ∨
      s'.peer = s.peer ∧
        ∃ text enter, InPacket (since ++ [k]) [] text enter s'.editors := by
  intro s'
  obtain ⟨hmode, hline, hevent⟩ := feed_inLine h.mode k
  have hloss := lineHeld_loss h.line k.lost
  have hsegment := lineSegment_loss (editorInputs takes) k.lost
  have hpeer := feed_peer s k
  have hs' : s' = (s.feed k).1.serve profile client administrator (s.feed k).2 := rfl
  generalize (if k.lost then lineDiscard s.editors.line else s.editors.line) = line at *
  have htakes : editorInputs (takes ++ [k]) =
      editorInputs takes ++ lossInputs k.lost ++ k.item.toList.map .byte := by
    rw [editorInputs_snoc, List.append_assoc]
    rfl
  have hsince : editorInputs (since ++ [k]) =
      lineSegment (editorInputs takes ++ lossInputs k.lost) ++ k.item.toList.map .byte := by
    rw [editorInputs_snoc, h.segment, hsegment, List.append_assoc]
    rfl
  cases hitem : k.item with
  | none =>
    rw [hitem] at hline hevent htakes hsince
    rw [show List.map EditorInput.byte (none : Option UInt8).toList = [] from rfl,
      List.append_nil] at htakes hsince
    have hnone : s' = (s.feed k).1 := by
      rw [hs', hevent]
      exact if_pos rfl
    rw [hnone]
    refine Or.inl ⟨Or.inl ⟨hmode, hsince.trans (by rw [htakes]), ?_⟩, Or.inl hpeer⟩
    rw [hline, htakes]
    exact hloss
  | some b =>
    rw [hitem] at hline hevent htakes hsince
    change (s.feed k).1.editors.line = (lineFeed line b).2 at hline
    change (s.feed k).2 = (lineFeed line b).1 at hevent
    rw [show List.map EditorInput.byte (some b).toList = [.byte b] from rfl] at htakes hsince
    obtain ⟨hlineEvent, hmet, hready⟩ := lineHeld_step hloss b
    rcases serve_line profile client administrator hmode (s.feed k).2 with
      ⟨he, hsubmit, heditors, hsame⟩ | ⟨heditors, hcalls⟩
    · -- the line `submit`
      right
      rw [hline] at hsubmit heditors
      rw [hevent] at he
      have hstack := hready he
      have hclean := lineStack_clean hstack
      rw [hsubmit] at hstack
      rw [hlineEvent] at he
      have hb : b = returnByte ∨ b = lineFeedByte := by
        unfold lineEvent at he
        split_ifs at he with h1 h2 h3
        · exact h3
      rw [hsegment, List.mem_append, not_or] at hclean
      have hlost : k.lost = false := by
        by_contra hl
        refine hclean.2 ?_
        rw [lossInputs, if_pos (by simpa using hl)]
        exact List.mem_singleton_self _
      rw [hsegment, hlost, show lossInputs false = [] from rfl, List.append_nil] at hstack
      rw [← h.segment] at hclean hstack
      obtain ⟨hunmarked, hbytes⟩ := editorInputs_clean hclean.1
      refine ⟨hsame.trans hpeer, Lossy.items since, b, ?_⟩
      rw [hs', heditors]
      refine ⟨rfl, ?_, ?_, hbytes ▸ hstack, ?_, hb, ?_, frameEnd_nil _⟩
      · intro k' hk'
        rcases List.mem_append.mp hk' with hk' | hk'
        · exact hunmarked k' hk'
        · rw [List.mem_singleton.mp hk']
          exact hlost
      · rw [Lossy.items_append, Lossy.items_cons, hitem]
        rfl
      · intro d hd
        have hmem : EditorInput.byte d ∈ lineSegment (editorInputs takes) := by
          rw [← h.segment, hbytes]
          exact List.mem_map_of_mem hd
        simpa using List.mem_rtakeWhile_imp hmem
      · have hcr := congrArg Line.previousCr hmet
        rw [Line.met_previousCr, (lineHeld_flags _ _).1, endsWithReturn_snoc] at hcr
        show signedBegin (lineFeed line b).2.previousCr = frameState _ []
        rw [frameState_nil, hcr]
        exact congrArg signedBegin (decide_eq_decide.mpr
          ⟨EditorInput.byte.inj, congrArg EditorInput.byte⟩)
    · left
      rw [hpeer] at hcalls
      refine ⟨?_, hcalls⟩
      rw [hs', heditors]
      have hsegment' := lineSegment_snoc (editorInputs takes ++ lossInputs k.lost) (.byte b)
      cases hd : (EditorInput.byte b).delimits with
      | true =>
        rw [hd, if_pos rfl] at hsegment'
        refine Or.inr ⟨hmode, by rw [htakes, hsegment']; rfl, ?_⟩
        rw [hline, htakes]
        exact hmet
      | false =>
        rw [hd, if_neg Bool.false_ne_true] at hsegment'
        refine Or.inl ⟨hmode, by rw [hsince, htakes, hsegment'], ?_⟩
        rw [hline, htakes]
        exact hmet

end

/-! ### Packets -/

section

variable {cr : Bool} {ins : List EditorInput}

/-- A sequence is a line feed that belongs to a delimiter before it, the text, and the rest. -/
theorem frame_split (cr : Bool) (ins : List EditorInput) :
    ∃ fold : List UInt8, (fold = [] ∨ (cr = true ∧ fold = [lineFeedByte])) ∧
      ins = fold.map .byte ++ frameText cr ins ++ frameEnd cr ins := by
  have hbody : frameText cr ins ++ frameEnd cr ins = frameBody cr ins :=
    List.takeWhile_append_dropWhile
  by_cases h : cr = true ∧ ins.head? = some (.byte lineFeedByte)
  · refine ⟨[lineFeedByte], Or.inr ⟨h.1, rfl⟩, ?_⟩
    rw [List.append_assoc, hbody, frameBody, if_pos h]
    exact (List.cons_head?_tail h.2).symm
  · refine ⟨[], Or.inl rfl, ?_⟩
    rw [List.append_assoc, hbody, frameBody, if_neg h]
    rfl

/-- Before the delimiter, a byte has no event if it is no delimiter, or belongs to one before. -/
theorem frameFeedback_none (h : frameEnd cr ins = []) {b : UInt8} :
    (frameFeedback cr ins b).event = .none ↔
      Folded cr ins (.byte b) ∨ (EditorInput.byte b).delimits = false := by
  unfold frameFeedback
  by_cases hf : Folded cr ins (.byte b)
  · rw [if_pos (Or.inr hf)]
    exact ⟨fun _ => Or.inl hf, fun _ => rfl⟩
  rw [if_neg (show ¬ (frameEnd cr ins ≠ [] ∨ Folded cr ins (.byte b)) from
    not_or.mpr ⟨not_not.mpr h, hf⟩)]
  have hopen : (EditorInput.byte b).delimits = false ↔
      Folded cr ins (.byte b) ∨ (EditorInput.byte b).delimits = false := by
    rw [or_iff_right hf]
  rw [← hopen]
  cases hd : (EditorInput.byte b).delimits with
  | true =>
    refine ⟨fun he => ?_, fun he => Bool.noConfusion he⟩
    by_cases hc : b = ctrlC
    · rw [if_pos hc] at he
      cases he
    · rw [if_neg hc, if_pos (EditorInput.end_of_delimits hd hc)] at he
      dsimp only at he
      split_ifs at he
  | false =>
    obtain ⟨hr, hl, hc⟩ := EditorInput.not_delimits hd
    refine ⟨fun _ => rfl, fun _ => ?_⟩
    rw [if_neg hc, if_neg (not_or.mpr ⟨hr, hl⟩)]
    split_ifs <;> rfl

/-- A byte without an event leaves the text open. -/
theorem frameEnd_open (h : frameEnd cr ins = []) {b : UInt8}
    (he : (frameFeedback cr ins b).event = .none) : frameEnd cr (ins ++ [.byte b]) = [] := by
  rcases (frameFeedback_none h).mp he with ⟨rfl, rfl, hb⟩ | hd
  · rw [hb]
    rfl
  · have hf : ¬ Folded cr ins (.byte b) := by
      rintro ⟨-, -, hb⟩
      rw [hb] at hd
      cases hd
    rw [(frame_snoc_going h hf).2, hd]
    exact if_neg Bool.false_ne_true

/-- The state behind the delimiter. -/
theorem frameState_closed (h : frameEnd cr ins = []) {b : UInt8}
    (he : (frameFeedback cr ins b).event ≠ .none) :
    (EditorInput.byte b).delimits = true ∧
      frameState cr (ins ++ [.byte b]) = frameDone (frameText cr ins) (.byte b) := by
  rw [ne_eq, frameFeedback_none h, not_or] at he
  have hd : (EditorInput.byte b).delimits = true := by simpa using he.2
  obtain ⟨htext, hend⟩ := frame_snoc_going h he.1
  rw [hd, if_pos rfl] at htext hend
  refine ⟨hd, ?_⟩
  unfold frameState
  rw [hend, htext]

/-- A text with an event that is ready is 384 digits, and stands for the packet. -/
theorem frame_ready (h : frameEnd cr ins = []) {b : UInt8}
    (he : (frameFeedback cr ins b).event = .ready) :
    ∃ fold digits : List UInt8, (fold = [] ∨ (cr = true ∧ fold = [lineFeedByte])) ∧
      ins = (fold ++ digits).map .byte ∧ digits.length = 384 ∧ (∀ d ∈ digits, HexDigit d) ∧
      (b = returnByte ∨ b = lineFeedByte) ∧
      (frameState cr (ins ++ [.byte b])).packet = hexPacket (digits.map hexValue) := by
  obtain ⟨-, -, hb, digits, htext, hlength, hex⟩ := (frameFeedback_ready b).mp he
  obtain ⟨fold, hfold, hins⟩ := frame_split cr ins
  refine ⟨fold, digits, hfold, ?_, hlength, hex, hb, ?_⟩
  · rw [h, List.append_nil, htext, ← List.map_append] at hins
    exact hins
  · have hwhole : frameWhole (digits.map .byte) = true :=
      (frameWhole_iff _).mpr ⟨digits, rfl, hlength, hex⟩
    have hc : EditorInput.byte b ≠ .byte ctrlC := by
      rintro hbyte
      rw [EditorInput.byte.inj hbyte] at hb
      revert hb
      decide
    rw [(frameState_closed h (by rw [he]; decide)).2, htext]
    unfold frameDone
    rw [if_pos ⟨hc, hwhole⟩]
    have hpacket := frameHeld_packet (digits.map .byte) false
    rw [frameHex_digits hex (Nat.le_of_eq hlength)] at hpacket
    exact hpacket

end

section

variable {τ : Type*} {profile : Profile} {client administrator : Peer τ}
  {line frame : List Take} {text : List UInt8} {enter : UInt8} {s : Shell τ}

theorem frameState_loss {cr : Bool} {ins : List EditorInput} (h : frameEnd cr ins = [])
    (lost : Bool) :
    frameEnd cr (ins ++ lossInputs lost) = [] ∧
      (if lost then signedDiscard else frameState cr ins) = frameState cr (ins ++ lossInputs lost) := by
  cases lost with
  | false =>
    rw [show lossInputs false = [] from rfl, List.append_nil]
    exact ⟨h, rfl⟩
  | true =>
    have hf : ¬ Folded cr ins .discard := fun h => by cases h.2.2
    exact ⟨(frame_snoc_going h hf).2, (frameState_discard h).symm⟩

/-- **A take in a packet**: the packet goes on, or is over, or is submitted as it was typed. -/
theorem inPacket_step (h : InPacket line frame text enter s.editors) (takes : List Take)
    (k : Take) :
    let s' := (shellStep profile client administrator s k).1
    InPacket line (frame ++ [k]) text enter s'.editors ∧ s'.peer = s.peer ∨
      InLine (takes ++ [k]) [] s'.editors ∧ (s'.peer = s.peer ∨
        ∃ p : TypedPacket, (∀ t ∈ line ++ frame ++ [k], t.lost = false) ∧
          Lossy.items (line ++ frame ++ [k]) = p.bytes ∧
          s'.peer = (administrator s.peer (submission (fun _ => 0) p.packet)).2) := by
  intro s'
  obtain ⟨hmode, hinput, hevent⟩ := feed_inPacket h.mode k
  obtain ⟨hgoing, hloss⟩ := frameState_loss h.going k.lost
  have hpeer := feed_peer s k
  have hs' : s' = (s.feed k).1.serve profile client administrator (s.feed k).2 := rfl
  rw [h.input, hloss] at hinput hevent
  have hframe : editorInputs (frame ++ [k]) =
      editorInputs frame ++ lossInputs k.lost ++ k.item.toList.map .byte := by
    rw [editorInputs_snoc, List.append_assoc]
    rfl
  generalize hcr : decide (enter = returnByte) = cr at *
  cases hitem : k.item with
  | none =>
    rw [hitem] at hinput hevent hframe
    rw [show List.map EditorInput.byte (none : Option UInt8).toList = [] from rfl,
      List.append_nil] at hframe
    have hnone : s' = (s.feed k).1 := by
      rw [hs', hevent]
      exact if_pos rfl
    rw [hnone]
    refine Or.inl ⟨⟨hmode, h.unmarked, h.bytes, h.reads, h.undelimited, h.entered, ?_, ?_⟩, hpeer⟩
    · rw [hcr, hframe]
      exact hinput
    · rw [hcr, hframe]
      exact hgoing
  | some b =>
    rw [hitem] at hinput hevent hframe
    change (s.feed k).1.editors.signedInput = (signedFeed _ b).2 at hinput
    change (s.feed k).2 = (signedFeed _ b).1.event at hevent
    rw [show List.map EditorInput.byte (some b).toList = [.byte b] from rfl] at hframe
    rw [frameState_byte] at hinput hevent
    by_cases he : (frameFeedback cr (editorInputs frame ++ lossInputs k.lost) b).event = .none
    · -- the packet goes on
      have hnone : s' = (s.feed k).1 := by
        rw [hs', hevent, he]
        exact if_pos rfl
      rw [hnone]
      refine Or.inl ⟨⟨hmode, h.unmarked, h.bytes, h.reads, h.undelimited, h.entered, ?_, ?_⟩, hpeer⟩
      · rw [hcr, hframe]
        exact hinput
      · rw [hcr, hframe]
        exact frameEnd_open hgoing he
    · -- the packet is over
      right
      obtain ⟨hd, hclosed⟩ := frameState_closed hgoing he
      have hne : (s.feed k).2 ≠ .none := by rwa [hevent]
      obtain ⟨heditors, hserved⟩ := serve_packet profile client administrator hmode hne
      rw [hpeer, hinput] at hserved
      constructor
      · have hbytes : editorInputs (takes ++ [k]) =
            editorInputs takes ++ lossInputs k.lost ++ [.byte b] := by
          rw [editorInputs_snoc, List.append_assoc]
          unfold takeInputs
          rw [hitem]
          rfl
        rw [hs', heditors, hinput, hclosed]
        refine ⟨rfl, ?_, ?_⟩
        · rw [hbytes, lineSegment_snoc, hd]
          rfl
        · rw [hbytes, lineSegment_snoc, hd, if_pos rfl, endsWithReturn_snoc]
          rfl
      · by_cases hready : (frameFeedback cr (editorInputs frame ++ lossInputs k.lost) b).event = .ready
        swap
        · left
          rw [hs', hserved, hevent, if_neg hready]
        · right
          obtain ⟨fold, digits, hfold, hins, hlength, hex, hb, hpacket⟩ := frame_ready hgoing hready
          have hclean : EditorInput.discard ∉ editorInputs (frame ++ [k]) := by
            rw [hframe, hins]
            simp
          obtain ⟨hunmarked, hitems⟩ := editorInputs_clean hclean
          rw [hframe, hins, show [EditorInput.byte b] = [b].map .byte from rfl,
            ← List.map_append] at hitems
          have hitems := List.map_injective_iff.mpr (fun _ _ => EditorInput.byte.inj) hitems
          have hfold : fold = [] ∨ (enter = returnByte ∧ fold = [lineFeedByte]) :=
            hfold.imp_right fun h => ⟨of_decide_eq_true (hcr.trans h.1), h.2⟩
          refine ⟨⟨text, enter, fold, digits, b, h.reads, h.undelimited, h.entered, hfold, hlength,
            hex, hb⟩, ?_, ?_, ?_⟩
          · intro t ht
            rw [List.append_assoc] at ht
            rcases List.mem_append.mp ht with ht | ht
            · exact h.unmarked t ht
            · exact hunmarked t ht
          · rw [List.append_assoc, Lossy.items_append, h.bytes, ← hitems]
            rfl
          · rw [hs', hserved, hevent, if_pos hready, hpacket]
            rfl

end

/-! ### Runs -/

section

variable {τ : Type*} {profile : Profile} {client administrator : Peer τ} {start : τ}

/-- The servers are those that the client's calls and the packets that were typed lead to; what was
taken behind the last of these packets is in the editors. -/
def TypedOk (client administrator : Peer τ) (start : τ) (takes : List Take) (s : Shell τ) : Prop :=
  ∃ packets before since, takes = before ++ since ∧
    Lossy.Taken (packets.map TypedPacket.bytes) before ∧
    Called client administrator start packets s.peer ∧
    (InLine takes since s.editors ∨
      ∃ line frame text enter, since = line ++ frame ∧ InPacket line frame text enter s.editors)

theorem typedOk_step {takes : List Take} {s : Shell τ}
    (h : TypedOk client administrator start takes s) (k : Take) :
    TypedOk client administrator start (takes ++ [k])
      (shellStep profile client administrator s k).1 := by
  obtain ⟨packets, before, since, htakes, htaken, hcalled, hmode⟩ := h
  have hnext : ∀ {peer : τ}, (peer = s.peer ∨ ∃ m, peer = (client s.peer m).2) →
      Called client administrator start packets peer := by
    rintro _ (rfl | ⟨m, rfl⟩)
    · exact hcalled
    · exact hcalled.client m
  rcases hmode with hline | ⟨line, frame, text, enter, rfl, hpacket⟩
  · rcases inLine_step hline k with ⟨hline' | hline', hpeer⟩ | ⟨hpeer, text, enter, hpacket⟩
    · exact ⟨packets, before, since ++ [k], by rw [htakes, List.append_assoc], htaken, hnext hpeer,
        Or.inl hline'⟩
    · refine ⟨packets, takes ++ [k], [], (List.append_nil _).symm, ?_, hnext hpeer, Or.inl hline'⟩
      rw [htakes, List.append_assoc]
      exact htaken.append _
    · exact ⟨packets, before, since ++ [k], by rw [htakes, List.append_assoc], htaken,
        hnext (Or.inl hpeer), Or.inr ⟨since ++ [k], [], text, enter, (List.append_nil _).symm,
          hpacket⟩⟩
  · rcases inPacket_step hpacket takes k with ⟨hpacket', hpeer⟩ | ⟨hline, hpeer⟩
    · exact ⟨packets, before, line ++ (frame ++ [k]), by rw [htakes]; simp only [List.append_assoc],
        htaken, hnext (Or.inl hpeer), Or.inr ⟨line, frame ++ [k], text, enter, rfl, hpacket'⟩⟩
    · have htakes' : takes ++ [k] = before ++ (line ++ frame ++ [k]) := by
        rw [htakes]
        simp only [List.append_assoc]
      rcases hpeer with hpeer | ⟨p, hunmarked, hitems, hpeer⟩
      · refine ⟨packets, takes ++ [k], [], (List.append_nil _).symm, ?_, hnext (Or.inl hpeer),
          Or.inl hline⟩
        rw [htakes']
        exact htaken.append _
      · refine ⟨packets ++ [p], takes ++ [k], [], (List.append_nil _).symm, ?_, ?_, Or.inl hline⟩
        · rw [htakes', List.map_append, List.map_singleton, ← hitems]
          exact htaken.snoc hunmarked
        · rw [hpeer]
          exact hcalled.submit p

theorem typedOk_start :
    TypedOk client administrator start [] (Shell.start profile start) :=
  ⟨[], [], [], rfl, trivial, .start, Or.inl ⟨rfl, rfl, rfl⟩⟩

theorem typedOk_run (profile : Profile) (client administrator : Peer τ) (start : τ)
    (takes : List Take) :
    TypedOk client administrator start takes
      (Run.final (shellStep profile client administrator) (Shell.start profile start) takes) := by
  induction takes using List.reverseRecOn with
  | nil => exact typedOk_start
  | append_singleton takes k ih =>
    rw [Run.final_snoc]
    exact typedOk_step ih k

/-- A step leaves the servers, or serves an event. -/
theorem linkStep_peer (profile : Profile) (client administrator : Peer τ) (s : Link τ)
    (a : LinkAction) :
    (linkStep profile client administrator s a).1.peer = s.peer ∨
      (linkStep profile client administrator s a).1.console.pendingEvent = .none := by
  cases a with
  | interrupt ch pending fifo => exact Or.inl rfl
  | deliver ch =>
    left
    unfold linkStep
    dsimp only
    split_ifs <;> rfl
  | turn full mr noise =>
    unfold linkStep consoleTurn
    cases s.console.phase with
    | idle => exact Or.inl rfl
    | loop step =>
      left
      dsimp only
      split_ifs <;> rfl
    | body step =>
      dsimp only
      by_cases he : s.console.pendingEvent ≠ .none
      · rw [if_pos he]
        exact Or.inr rfl
      · rw [if_neg he]
        exact Or.inl rfl
    | last => exact Or.inl rfl

end

/-- **What the servers are told was typed.** In every run, with any servers that read the words of a
call only: the servers are those that some calls of the client and some packets lead to; and these
packets occur in what has arrived, one behind the other, each in one piece with the line `submit`
before it. -/
theorem submitted_is_typed {τ : Type*} {profile : Profile} (hbuilt : profile.Built)
    {client administrator : Peer τ} (hclient : Counted client)
    (hadministrator : Counted administrator) (start : τ) (actions : List LinkAction) :
    ∃ packets : List TypedPacket,
      Lossy.Occur (packets.map TypedPacket.bytes) (actions.flatMap arrivals) ∧
      Called client administrator start packets (Run.final (linkStep profile client administrator)
        (Link.boot profile start) actions).peer := by
  induction actions using List.reverseRecOn with
  | nil => exact ⟨[], trivial, .start⟩
  | append_singleton actions a ih =>
    rcases linkStep_peer profile client administrator
      (Run.final (linkStep profile client administrator) (Link.boot profile start) actions) a
      with hsame | hserved
    · obtain ⟨packets, hoccur, hcalled⟩ := ih
      refine ⟨packets, ?_, ?_⟩
      · rw [List.flatMap_append]
        exact hoccur.append _
      · rw [Run.final_snoc, hsame]
        exact hcalled
    · rw [← Run.final_snoc] at hserved
      have hpeer := ((follows_run hbuilt hclient hadministrator start (actions ++ [a])).served
        hserved).peer
      obtain ⟨old, new, hstream, hexplains, -⟩ := accounted_run profile client administrator start
        (actions ++ [a])
      obtain ⟨packets, before, since, htakes, htaken, hcalled, -⟩ := typedOk_run
        profile client administrator start (taken (Run.trace (linkStep profile client administrator) (Link.boot profile start)
          (actions ++ [a])))
      refine ⟨packets, ?_, ?_⟩
      · rw [hstream]
        refine Lossy.Occur.append (Lossy.Taken.occur ?_ hexplains) new
        rw [htakes]
        exact htaken.append since
      · rw [hpeer]
        exact hcalled

end Tcs
