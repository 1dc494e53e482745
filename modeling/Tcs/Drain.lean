/-
# Everything typed is done

That the terminal is woken where it has work (`no_lost_wakeup`) does not say
that the work ends. Here nothing more arrives, and something chooses among
what is due (`Link.Due`): the transmit interrupt where it is enabled, the
notification of the idle terminal, a turn of a terminal that runs while the
transmitter has room for a byte. A transmitter that is full whenever the
terminal turns would keep it from its end; it is the hardware's to make room.
Every such step lowers a rank (`due_lowers`), so there is an end, and there
is nothing left to do at the end (`console_drains`).

The rank counts what waits in the queue, then the event of a line, then what
is unwritten, then the wakeups, then the phase: a byte that is taken may end
a line, a line may print a full buffer, and what the driver takes of it may
enable an interrupt and notify.

A queue that never overflows marks nothing (`Roomy`), and then the interrupts
and turns between the bytes decide nothing: what is printed and what is
called is what the shell does with the bytes (`typed_decides`). Every text
can be typed so (`typing_quiet`).

Key definitions: `Link.Due`, `Link.rank`, `LinkEntry.Roomy`, `typing`.
Key theorems: `due_lowers`, `console_drains`, `typing_quiet`,
`typed_decides`.
-/
import Tcs.Shell
import Tcs.Lib.Progress

namespace Tcs

open Ipc

/-! ### What is due -/

/-- What can happen where nothing arrives: the transmitter interrupts if it may, the notification
of the idle terminal is delivered, the terminal takes a turn. A turn is due only with room for a
byte in the transmitter (`full 0 = false`). -/
def Link.Due {τ : Type*} (s : Link τ) : LinkAction → Prop
  | .interrupt ch pending fifo => ch = 0 ∧ fifo = [] ∧ pending &&& errorIrq = 0 ∧
      pending &&& txIrq ≠ 0 ∧ s.driver.transmitEnabled
  | .deliver ch => ch = 0 ∧ s.console.phase = .idle ∧ s.notified = true
  | .turn full _ _ => s.console.phase ≠ .idle ∧ full 0 = false

theorem due_none_iff {τ : Type*} (s : Link τ) :
    (∀ a, ¬ s.Due a) ↔
      s.console.phase = .idle ∧ s.notified = false ∧ ¬ s.driver.transmitEnabled := by
  constructor
  · intro hnone
    have hidle : s.console.phase = .idle := by
      by_contra hrun
      exact hnone roomyTurn ⟨hrun, rfl⟩
    refine ⟨hidle, ?_, fun ht => ?_⟩
    · exact Bool.eq_false_iff.mpr fun hn => hnone (.deliver 0) ⟨rfl, hidle, hn⟩
    · exact hnone (.interrupt 0 txIrq []) ⟨rfl, rfl, by decide, by decide, ht⟩
  · rintro ⟨hidle, hnotified, htransmit⟩ a hdue
    cases a with
    | interrupt ch pending fifo => exact htransmit hdue.2.2.2.2
    | deliver ch => exact absurd hdue.2.2 (by rw [hnotified]; exact Bool.false_ne_true)
    | turn full mr noise => exact hdue.1 hidle

/-- A scheduler: it takes a step that is due, if there is one. -/
def Link.next {τ : Type*} (s : Link τ) : Option LinkAction :=
  if s.console.phase ≠ .idle then some roomyTurn
  else if s.notified then some (.deliver 0)
  else if s.driver.imsc &&& txIrq ≠ 0 then some (.interrupt 0 txIrq [])
  else none

theorem next_due {τ : Type*} {s : Link τ} {a : LinkAction} (h : s.next = some a) : s.Due a := by
  unfold Link.next at h
  split_ifs at h with hrun hnotified henabled
  · cases h
    exact ⟨hrun, rfl⟩
  · cases h
    exact ⟨rfl, not_not.mp hrun, hnotified⟩
  · cases h
    exact ⟨rfl, rfl, by decide, by decide, henabled⟩

/-! ### The rank -/

/-- How far a call is from its end. -/
@[simp] def Phase.rank : Phase → ℕ
  | .idle => 0
  | .last => 1
  | .body _ => 2
  | .loop _ => 3

theorem Phase.rank_le (p : Phase) : p.rank ≤ 3 := by
  cases p <;> simp

/-- What waits in the queue, with the mark of a loss. -/
def SerialRx.waiting (rx : SerialRx) : ℕ := rx.count + rx.lost.toNat

/-- Whether the event of a line waits. -/
def Console.waiting (c : Console) : ℕ := if c.pendingEvent = .none then 0 else 1

/-- The wakeups that are due: the transmit interrupt before the notification that it makes. -/
def Link.wakeups {τ : Type*} (s : Link τ) : ℕ :=
  (if s.driver.imsc &&& txIrq ≠ 0 then 2 else 0) + s.notified.toNat

/-- The rank. -/
def Link.rank {τ : Type*} (s : Link τ) : ℕ :=
  (((s.driver.rx.waiting * 2 + s.console.waiting) * 257 + s.console.unwritten.length) * 4 +
    s.wakeups) * 4 + s.console.phase.rank

section

variable {τ : Type*} {s s' : Link τ}

theorem Link.wakeups_le (s : Link τ) : s.wakeups ≤ 3 := by
  have hnotified := Bool.toNat_le s.notified
  unfold Link.wakeups
  split_ifs <;> omega

theorem Console.waiting_le (c : Console) : c.waiting ≤ 1 := by
  unfold Console.waiting
  split_ifs <;> omega

theorem Console.Buffered.length_unwritten {c : Console} (h : c.Buffered) :
    c.unwritten.length ≤ outputBytes := by
  unfold Console.unwritten
  rw [List.length_map, List.length_drop]
  exact (Nat.sub_le _ _).trans h.bound

/-- No reachable state has a higher rank. -/
theorem Link.rank_le (h : s.console.Buffered) : s.rank ≤ 2121791 := by
  have hunwritten := h.length_unwritten
  have hcount := s.driver.rx.count_le
  have hlost := Bool.toNat_le s.driver.rx.lost
  have hwaiting := s.console.waiting_le
  have hwakeups := s.wakeups_le
  have hphase := s.console.phase.rank_le
  unfold Link.rank SerialRx.waiting
  simp only [outputBytes, serialCapacity] at hunwritten hcount
  omega

/-- Something is taken from the queue, -/
theorem rank_lt_queue (hbuffered : s'.console.Buffered)
    (h : s'.driver.rx.waiting < s.driver.rx.waiting) : s'.rank < s.rank := by
  have hunwritten := hbuffered.length_unwritten
  have hwaiting := s'.console.waiting_le
  have hwakeups := s'.wakeups_le
  have hphase := s'.console.phase.rank_le
  unfold Link.rank
  simp only [outputBytes] at hunwritten
  omega

/-- or the event is served, -/
theorem rank_lt_event (hbuffered : s'.console.Buffered) (hrx : s'.driver.rx = s.driver.rx)
    (h : s'.console.waiting < s.console.waiting) : s'.rank < s.rank := by
  have hunwritten := hbuffered.length_unwritten
  have hwakeups := s'.wakeups_le
  have hphase := s'.console.phase.rank_le
  unfold Link.rank
  rw [hrx]
  simp only [outputBytes] at hunwritten
  omega

/-- or something is written, -/
theorem rank_lt_output (hrx : s'.driver.rx = s.driver.rx)
    (hevent : s'.console.pendingEvent = s.console.pendingEvent)
    (h : s'.console.unwritten.length < s.console.unwritten.length) : s'.rank < s.rank := by
  have hwakeups := s'.wakeups_le
  have hphase := s'.console.phase.rank_le
  unfold Link.rank Console.waiting
  rw [hrx, hevent]
  omega

/-- or a wakeup is spent, -/
theorem rank_lt_wakeup (hrx : s'.driver.rx = s.driver.rx)
    (hevent : s'.console.pendingEvent = s.console.pendingEvent)
    (hunwritten : s'.console.unwritten = s.console.unwritten) (h : s'.wakeups < s.wakeups) :
    s'.rank < s.rank := by
  have hphase := s'.console.phase.rank_le
  unfold Link.rank Console.waiting
  rw [hrx, hevent, hunwritten]
  omega

/-- or the call goes on. -/
theorem rank_lt_phase (hdriver : s'.driver = s.driver) (hnotified : s'.notified = s.notified)
    (hevent : s'.console.pendingEvent = s.console.pendingEvent)
    (hunwritten : s'.console.unwritten = s.console.unwritten)
    (h : s'.console.phase.rank < s.console.phase.rank) : s'.rank < s.rank := by
  unfold Link.rank Console.waiting Link.wakeups
  rw [hdriver, hnotified, hevent, hunwritten]
  omega

end

/-! ### Every step that is due lowers the rank -/

theorem transmitCount_pos {full : ℕ → Bool} (h : full 0 = false) {count : ℕ} (hc : 0 < count) :
    0 < transmitCount full count := by
  obtain ⟨n, rfl⟩ := Nat.exists_eq_succ_of_ne_zero (by omega : count ≠ 0)
  unfold transmitCount
  rw [List.range_succ_eq_map, List.takeWhile_cons, h]
  exact Nat.succ_pos _

theorem flush_writes {full : ℕ → Bool} (h : full 0 = false) (mr : Registers) (noise : Noise)
    {c : Console} (hb : c.Buffered) (hc : c.Unsent) (driver : SerialServer) (notified : Bool) :
    (flush mr (ppcall noise (driverPeer mr full)) c (driver, notified)).2.1.unwritten.length <
      c.unwritten.length := by
  have hchunk := c.chunk_pos hb hc
  have hcount := transmitCount_pos h hchunk
  have hwire : (flush mr (ppcall noise (driverPeer mr full)) c (driver, notified)).2.2.1.wire =
      driver.wire ++ c.chunk.take (transmitCount full c.chunk.length) := by
    unfold flush
    rw [if_neg hc, ppcall_eq]
    unfold driverPeer
    rw [serialProtected_offer mr noise.callee full driver hchunk]
  have hwhole := congrArg List.length (flushes mr full noise hb driver notified).whole
  rw [hwire, List.append_assoc, List.length_append, List.length_append, List.length_append,
    List.length_take, Nat.min_eq_left (transmitCount_le full _)] at hwhole
  omega

section

variable {τ : Type*} {profile : Profile} {client administrator : Peer τ} {start : τ}
  {takes : List Take} {s : Link τ}

/-- A turn that flushes writes, or goes on. -/
theorem flush_lowers (hb : s.console.Buffered) {full : ℕ → Bool} (h : full 0 = false)
    (mr : Registers) (noise : Noise) {phase : Phase}
    (hphase : ¬ s.console.Unsent → phase.rank < s.console.phase.rank) :
    let out := flush mr (ppcall noise (driverPeer mr full)) s.console (s.driver, s.notified)
    (⟨out.2.2.1, out.2.2.2, { out.2.1 with phase := phase }, s.peer⟩ : Link τ).rank < s.rank := by
  intro out
  have hf : Flushed s.console s.driver s.notified out :=
    flushed mr full noise s.console s.driver s.notified
  by_cases hu : s.console.Unsent
  · exact rank_lt_output hf.queue hf.event (flush_writes h mr noise hb hu s.driver s.notified)
  · have hquiet := hf.quiet hu
    rw [hquiet]
    exact rank_lt_phase rfl rfl rfl rfl (hphase hu)

theorem read_lowers (hbuilt : profile.Built) (hclient : Counted client)
    (hadministrator : Counted administrator)
    (h : Follows profile client administrator start takes s) (full : ℕ → Bool) (mr : Registers)
    (noise : Noise) {step : ℕ} (hphase : s.console.phase = .body step)
    (he : s.console.pendingEvent = .none) :
    (linkStep profile client administrator s (.turn full mr noise)).1.rank < s.rank := by
  have hnext := follows_turn hbuilt hclient hadministrator h full mr noise
  have hread : driverPeer mr full (s.driver, s.notified) ((readRequest mr).deliver noise.callee) =
      ((serialAnswer mr s.driver.rx).1, { s.driver with rx := (serialAnswer mr s.driver.rx).2 },
        s.notified || decide ((serialAnswer mr s.driver.rx).2.count ≠ 0)) := rfl
  have hrx : (linkStep profile client administrator s (.turn full mr noise)).1.driver.rx = _ :=
    turn_rx s full mr noise
  rw [Console.reads_body hphase, decide_eq_true he, if_pos rfl] at hrx
  cases hc : s.driver.rx.contents with
  | cons byte rest =>
    -- a byte is taken
    apply rank_lt_queue hnext.buffered
    obtain ⟨htaken, hlost, -⟩ := serialAnswer_cons mr noise.caller hc s.console step
    have hcount : s.driver.rx.count = rest.length + 1 := by
      rw [← s.driver.rx.length_contents, hc, List.length_cons]
    have hcount' : (serialAnswer mr s.driver.rx).2.count = rest.length := by
      rw [← SerialRx.length_contents, htaken]
    unfold SerialRx.waiting
    rw [hrx, hlost, hcount, hcount', Bool.toNat_false]
    omega
  | nil =>
    have hzero : s.driver.rx.count = 0 := by
      rw [← s.driver.rx.length_contents, hc, List.length_nil]
    have hanswer : (serialAnswer mr s.driver.rx).2 = { s.driver.rx with lost := false } :=
      (serialAnswer_nil mr noise.caller hc s.console step).1
    cases hlost : s.driver.rx.lost with
    | true =>
      -- a mark is taken
      apply rank_lt_queue hnext.buffered
      unfold SerialRx.waiting
      rw [hrx, hanswer, hlost]
      simp
    | false =>
      have hsame : (serialAnswer mr s.driver.rx).2 = s.driver.rx := by
        rw [hanswer, ← hlost]
      unfold linkStep consoleTurn
      rw [hphase]
      dsimp only
      rw [if_neg (not_not.mpr he), ppcall_eq, hread]
      dsimp only
      rw [(serialAnswer_nil mr noise.caller hc s.console step).2, hlost, hsame, hzero]
      exact rank_lt_phase rfl (by simp) rfl rfl (by rw [hphase]; simp)

theorem turn_lowers (hbuilt : profile.Built) (hclient : Counted client)
    (hadministrator : Counted administrator)
    (h : Follows profile client administrator start takes s) {full : ℕ → Bool}
    (hfull : full 0 = false) (hrun : s.console.phase ≠ .idle) (mr : Registers) (noise : Noise) :
    (linkStep profile client administrator s (.turn full mr noise)).1.rank < s.rank := by
  cases hphase : s.console.phase with
  | idle => exact absurd hphase hrun
  | loop step =>
    unfold linkStep consoleTurn
    rw [hphase]
    dsimp only
    by_cases hstep : step < 32 ∧ (!s.console.terminal.failed) = true
    · rw [if_pos hstep]
      refine flush_lowers h.buffered hfull mr noise fun hu => ?_
      have hquiet := (flushed mr full noise s.console s.driver s.notified).quiet hu
      rw [hquiet, hphase]
      simp
    · rw [if_neg hstep]
      refine rank_lt_phase rfl rfl rfl rfl ?_
      rw [hphase]
      dsimp only
      split_ifs <;> simp
  | body step =>
    by_cases he : s.console.pendingEvent = .none
    · exact read_lowers hbuilt hclient hadministrator h full mr noise hphase he
    · have hnext := follows_turn hbuilt hclient hadministrator h full mr noise
      unfold linkStep consoleTurn at hnext ⊢
      rw [hphase] at hnext ⊢
      dsimp only at hnext ⊢
      rw [if_pos he] at hnext ⊢
      refine rank_lt_event hnext.buffered rfl ?_
      unfold Console.waiting
      rw [if_pos rfl, if_neg he]
      exact Nat.one_pos
  | last =>
    unfold linkStep consoleTurn
    rw [hphase]
    dsimp only
    refine flush_lowers h.buffered hfull mr noise fun hu => ?_
    rw [hphase]
    simp

/-- **Every step that is due lowers the rank.** -/
theorem due_lowers (hbuilt : profile.Built) (hclient : Counted client)
    (hadministrator : Counted administrator)
    (h : Follows profile client administrator start takes s) {a : LinkAction} (hdue : s.Due a) :
    (linkStep profile client administrator s a).1.rank < s.rank := by
  cases a with
  | interrupt ch pending fifo =>
    obtain ⟨rfl, rfl, herror, htx, henabled⟩ := hdue
    have hnotified : serialNotified s.driver 0 pending [] =
        ({ s.driver with imsc := receiveIrqs }, true) := by
      unfold serialNotified
      rw [if_neg (by simp)]
      dsimp only
      rw [if_neg (not_not.mpr herror), if_pos htx]
      exact Prod.ext rfl (decide_eq_true (Or.inr (Or.inr htx)))
    unfold linkStep
    dsimp only
    rw [hnotified]
    refine rank_lt_wakeup rfl rfl rfl ?_
    unfold SerialServer.transmitEnabled at henabled
    unfold Link.wakeups
    rw [if_pos henabled, if_neg (show ¬ receiveIrqs &&& txIrq ≠ 0 by decide)]
    simp only [Bool.or_true, Bool.toNat_true]
    omega
  | deliver ch =>
    obtain ⟨rfl, hidle, hnotified⟩ := hdue
    unfold linkStep
    dsimp only
    rw [if_pos ⟨hidle, fun _ => hnotified⟩]
    refine rank_lt_wakeup rfl rfl rfl ?_
    unfold Link.wakeups
    rw [hnotified]
    simp
  | turn full mr noise => exact turn_lowers hbuilt hclient hadministrator h hdue.2 hdue.1 mr noise

end

/-! ### The end -/

section

variable {τ : Type*} {profile : Profile} {client administrator : Peer τ} {start : τ}
  {takes : List Take} {s : Link τ}

theorem drained (h : Follows profile client administrator start takes s) (hawake : Awake s)
    (hnone : ∀ a, ¬ s.Due a) :
    s.console.phase = .idle ∧ s.console.terminal.output = [] ∧ s.console.pendingEvent = .none ∧
      s.driver.rx.contents = [] ∧ s.driver.rx.lost = false := by
  obtain ⟨hidle, hnotified, htransmit⟩ := (due_none_iff s).mp hnone
  unfold Awake at hawake
  rw [hidle] at hawake
  have hwork : ¬ s.HasWork := by
    rcases hawake with hfailed | hwakes
    · rw [h.buffered.failed] at hfailed
      cases hfailed
    · exact fun hwork => (hwakes hwork).elim (Bool.eq_false_iff.mp hnotified) htransmit
  refine ⟨hidle, ?_, ?_, ?_, ?_⟩
  · by_contra ho
    refine hwork (Or.inl ?_)
    rcases h.buffered.sent with hlt | ⟨hnil, -⟩
    · exact hlt.ne
    · exact absurd hnil ho
  · by_contra he
    exact hwork (Or.inr (Or.inl he))
  · have hcount : s.driver.rx.count = 0 := by
      by_contra hc
      exact hwork (Or.inr (Or.inr (Or.inl hc)))
    rw [← List.length_eq_zero_iff, s.driver.rx.length_contents, hcount]
  · by_contra hl
    exact hwork (Or.inr (Or.inr (Or.inr (Bool.not_eq_false _ ▸ hl))))

/-- Where nothing is due, terminal, servers and wire are where the shell is. -/
theorem drained_shell (h : Follows profile client administrator start takes s) (hawake : Awake s)
    (hnone : ∀ a, ¬ s.Due a) :
    let shell := Run.final (shellStep profile client administrator) (Shell.start profile start) takes
    s.console.terminal.editors = shell.editors ∧ s.peer = shell.peer ∧
      s.driver.wire = shell.printed.map charByte := by
  intro shell
  obtain ⟨-, ho, he, -⟩ := drained h hawake hnone
  have hmirrors : Mirrors s shell := h.served he
  have hprinted := hmirrors.printed
  unfold Console.unwritten at hprinted
  rw [ho, List.drop_nil, List.map_nil, List.append_nil] at hprinted
  exact ⟨hmirrors.editors, hmirrors.peer, hprinted⟩

end

/-- **Everything typed is done.** From every reachable state, where nothing more arrives: whatever
is chosen among what is due (a turn is, while the transmitter has room for a byte), no more than
2121791 steps are taken; and where nothing is due any more, the terminal is idle and has read, served
and written everything, the servers are in the state of the shell, and the wire carries what the
shell has printed. -/
theorem console_drains {τ : Type*} {profile : Profile} (hbuilt : profile.Built)
    {client administrator : Peer τ} (hclient : Counted client)
    (hadministrator : Counted administrator) (start : τ) (actions more : List LinkAction)
    (hdue : ∀ e ∈ Run.trace (linkStep profile client administrator)
      (Run.final (linkStep profile client administrator) (Link.boot profile start) actions) more,
      e.pre.Due e.input) :
    let s := Run.final (linkStep profile client administrator) (Link.boot profile start)
      (actions ++ more)
    let shell := Run.final (shellStep profile client administrator) (Shell.start profile start)
      (taken (Run.trace (linkStep profile client administrator) (Link.boot profile start)
        (actions ++ more)))
    more.length ≤ 2121791 ∧
    ((∀ a, ¬ s.Due a) → s.console.phase = .idle ∧ s.console.terminal.output = [] ∧
      s.console.pendingEvent = .none ∧ s.driver.rx.contents = [] ∧ s.peer = shell.peer ∧
      s.driver.wire = shell.printed.map charByte) := by
  intro s shell
  constructor
  · have hfollows := follows_run hbuilt hclient hadministrator start actions
    have hrank := Progress.bounded Link.rank
      (fun s a (h : ∃ takes, Follows profile client administrator start takes s) =>
        h.elim fun _ h => ⟨_, follows_step hbuilt hclient hadministrator h a⟩)
      (fun _ _ h => h.elim fun _ h => due_lowers hbuilt hclient hadministrator h) ⟨_, hfollows⟩
      more hdue
    have hle := Link.rank_le hfollows.buffered
    omega
  · intro hnone
    have h : Follows profile client administrator start _ s :=
      follows_run hbuilt hclient hadministrator start (actions ++ more)
    have hawake : Awake s :=
      Run.final_induct (awake_boot start) (fun _ a h => awake_step h a) (actions ++ more)
    obtain ⟨hidle, ho, he, hempty, -⟩ := drained h hawake hnone
    exact ⟨hidle, ho, he, hempty, (drained_shell h hawake hnone).2⟩

/-! ### A line, typed and done -/

/-- A line is typed while the terminal writes its banner. -/
def typedLine (line : String) : List LinkAction :=
  [roomyTurn, .interrupt 0 0x10 (line.toList.map typedWord)]

/-- The line `help` is typed, and done. -/
def helpSession : List LinkAction :=
  typedLine "help\r" ++ Progress.schedule (linkStep testProfile silentPeer silentPeer)
    Link.next 60 (Run.final (linkStep testProfile silentPeer silentPeer) (Link.boot testProfile ())
      (typedLine "help\r"))

/-- The terminal after it. -/
def helpDone : Link Unit :=
  Run.final (linkStep testProfile silentPeer silentPeer) (Link.boot testProfile ()) helpSession

theorem helpDone_quiet : ∀ a, ¬ helpDone.Due a := by
  have h : helpDone.console.phase = .idle ∧ helpDone.notified = false ∧
      helpDone.driver.imsc &&& txIrq = 0 := by decide +kernel
  exact (due_none_iff helpDone).mpr ⟨h.1, h.2.1, not_not.mpr h.2.2⟩

/-- The line is read and run, and the queue is empty. -/
theorem console_drains_help : helpDone.driver.rx.contents = [] := by
  have hquiet := helpDone_quiet
  unfold helpDone helpSession at hquiet ⊢
  exact ((console_drains testProfile_built counted_silentPeer counted_silentPeer ()
    (typedLine "help\r") _ (Progress.schedule_due (fun _ _ => next_due) 60 _)).2 hquiet).2.2.2.1

/-! ### What is typed decides -/

/-- No take had the mark of a loss, and the queue has none. -/
def Unmarked {τ : Type*} (takes : List Take) (s : Link τ) : Prop :=
  (∀ k ∈ takes, k.lost = false) ∧ s.driver.rx.lost = false

/-- Without a mark, what was taken and what waits in the queue is everything that has arrived. -/
theorem Accounted.unmarked {τ : Type*} {stream : List (Option UInt8)} {takes : List Take}
    {s : Link τ} (h : Accounted stream takes s) (hu : Unmarked takes s) :
    (Lossy.items takes ++ s.driver.rx.contents).map some = stream := by
  obtain ⟨old, new, rfl, hold, skipped, hskipped, rfl⟩ := h
  rw [hskipped hu.2, Lossy.explains_unmarked hu.1 hold, List.map_append]
  rfl

/-- The interrupt of a step brings no error, and the queue has room for what it brings. -/
def LinkEntry.Roomy {τ : Type*} (e : LinkEntry τ) : Prop :=
  match e.input with
  | .interrupt ch pending fifo => ch = 0 → pending &&& errorIrq = 0 ∧
      (∀ word ∈ fifo.take 64, word &&& 0xf00 = 0) ∧
      e.pre.driver.rx.count + (fifo.take 64).length ≤ serialCapacity
  | _ => True

theorem serialReceive_count {rx : SerialRx} (h : rx.count < serialCapacity) (byte : UInt8) :
    (serialReceive rx byte).count = rx.count + 1 := by
  rw [← SerialRx.length_contents, contents_serialReceive, if_neg (by omega), List.length_append,
    rx.length_contents, List.length_singleton]

theorem serialWord_lost {words : List UInt32} {rx : SerialRx} (hlost : rx.lost = false)
    (hclean : ∀ word ∈ words, word &&& 0xf00 = 0)
    (hroom : rx.count + words.length ≤ serialCapacity) :
    (words.foldl serialWord rx).lost = false := by
  induction words generalizing rx with
  | nil => exact hlost
  | cons word words ih =>
    rw [List.length_cons] at hroom
    have hlt : rx.count < serialCapacity := by omega
    have hword : serialWord rx word = serialReceive rx word.toUInt8 :=
      if_neg (not_not.mpr (hclean word List.mem_cons_self))
    rw [List.foldl_cons, hword]
    apply ih
    · rw [serialReceive_lost, hlost, Bool.false_or]
      exact decide_eq_false hlt.ne
    · exact fun w hw => hclean w (List.mem_cons_of_mem _ hw)
    · rw [serialReceive_count hlt]
      omega

section

variable {τ : Type*} {profile : Profile} {client administrator : Peer τ}

theorem unmarked_step {takes : List Take} {s : Link τ} (h : Unmarked takes s) {a : LinkAction}
    (hroomy : LinkEntry.Roomy (Run.entry (linkStep profile client administrator) s a)) :
    Unmarked (takes ++ LinkEntry.taken (Run.entry (linkStep profile client administrator) s a))
      (linkStep profile client administrator s a).1 := by
  obtain ⟨htakes, hlost⟩ := h
  cases a with
  | interrupt ch pending fifo =>
    refine ⟨by simpa [LinkEntry.taken] using htakes, ?_⟩
    unfold linkStep serialNotified
    dsimp only
    by_cases hch : ch ≠ 0
    · rw [if_pos hch]
      exact hlost
    · obtain ⟨herror, hclean, hroom⟩ := hroomy (not_not.mp hch)
      rw [if_neg hch, if_neg (not_not.mpr herror)]
      exact serialWord_lost hlost hclean hroom
  | deliver ch =>
    refine ⟨by simpa [LinkEntry.taken] using htakes, ?_⟩
    unfold linkStep
    dsimp only
    split_ifs <;> exact hlost
  | turn full mr noise =>
    constructor
    · intro k hk
      rcases List.mem_append.mp hk with hk | hk
      · exact htakes k hk
      · have hk : k ∈ s.take := hk
        unfold Link.take at hk
        by_cases hr : s.console.reads = true
        · rw [if_pos hr] at hk
          rw [List.mem_singleton.mp hk]
          exact hlost
        · rw [if_neg hr] at hk
          cases hk
    · rw [turn_rx]
      split_ifs
      · cases hc : s.driver.rx.contents with
        | nil => rw [(serialAnswer_nil mr mr hc s.console 0).1]
        | cons byte rest => exact (serialAnswer_cons mr mr hc s.console 0).2.1
      · exact hlost

/-- A queue that never overflows never marks a byte. -/
theorem unmarked_run (start : τ) (actions : List LinkAction)
    (hroomy : ∀ e ∈ Run.trace (linkStep profile client administrator) (Link.boot profile start)
      actions, LinkEntry.Roomy e) :
    Unmarked (taken (Run.trace (linkStep profile client administrator) (Link.boot profile start)
        actions))
      (Run.final (linkStep profile client administrator) (Link.boot profile start) actions) := by
  induction actions using List.reverseRecOn with
  | nil => exact ⟨fun k => List.not_mem_nil.elim, rfl⟩
  | append_singleton actions a ih =>
    rw [Run.trace_snoc] at hroomy ⊢
    rw [Run.final_snoc, taken_snoc]
    exact unmarked_step (ih fun e he => hroomy e (List.mem_append_left _ he))
      (hroomy _ (List.mem_append_right _ List.mem_cons_self))

/-- A byte that is typed, as the shell takes it. -/
def typed (byte : UInt8) : Take := ⟨false, some byte⟩

theorem shellStep_nothing (s : Shell τ) :
    (shellStep profile client administrator s ⟨false, none⟩).1 = s := by
  obtain ⟨editors, peer, printed⟩ := s
  show (⟨editors, peer, printed ++ []⟩ : Shell τ) = _
  rw [List.append_nil]

theorem shell_typed (s : Shell τ) {takes : List Take} (h : ∀ k ∈ takes, k.lost = false) :
    Run.final (shellStep profile client administrator) s takes =
      Run.final (shellStep profile client administrator) s
        ((Lossy.items takes).map typed) := by
  induction takes generalizing s with
  | nil => rfl
  | cons k takes ih =>
    have hrest := fun t => ih t fun k' hk' => h k' (List.mem_cons_of_mem _ hk')
    have hlost : k.lost = false := h k List.mem_cons_self
    obtain ⟨lost, byte⟩ := k
    subst hlost
    cases byte with
    | none =>
      rw [Run.final, shellStep_nothing, hrest]
      rfl
    | some byte =>
      rw [Run.final, hrest]
      rfl

theorem shell_printed (profile : Profile) (client administrator : Peer τ) (s : Shell τ)
    (takes : List Take) :
    s.printed <+: (Run.final (shellStep profile client administrator) s takes).printed := by
  refine Run.final_induct (P := fun t : Shell τ => s.printed <+: t.printed) List.prefix_rfl
    (fun t k ht => ht.trans ?_) takes
  have hfeed : t.printed <+: (t.feed k).1.printed := by
    unfold Shell.feed
    cases k.item <;> exact List.prefix_append _ _
  have hserve : ∀ u : Shell τ, ∀ event, u.printed <+:
      (u.serve profile client administrator event).printed := by
    intro u event
    unfold Shell.serve
    split_ifs
    · exact List.prefix_rfl
    · exact List.prefix_append _ _
  exact hfeed.trans (hserve _ _)

end

/-- **Without a loss**, the shell after the bytes that have arrived is the one that the terminal
follows, with what waits in the queue. -/
theorem typed_follows {τ : Type*} {profile : Profile} (hbuilt : profile.Built)
    {client administrator : Peer τ} (hclient : Counted client)
    (hadministrator : Counted administrator) (start : τ) (actions : List LinkAction)
    (hroomy : ∀ e ∈ Run.trace (linkStep profile client administrator) (Link.boot profile start)
      actions, LinkEntry.Roomy e) :
    let s := Run.final (linkStep profile client administrator) (Link.boot profile start) actions
    ∃ (bytes : List UInt8) (takes : List Take), bytes.map some = actions.flatMap arrivals ∧
      Follows profile client administrator start takes s ∧
      Run.final (shellStep profile client administrator) (Shell.start profile start)
          (bytes.map typed) =
        Run.final (shellStep profile client administrator)
          (Run.final (shellStep profile client administrator) (Shell.start profile start) takes)
          (s.driver.rx.contents.map typed) := by
  intro s
  have hunmarked := unmarked_run start actions hroomy
  have hstream := (accounted_run profile client administrator start actions).unmarked hunmarked
  refine ⟨_, _, hstream, follows_run hbuilt hclient hadministrator start actions, ?_⟩
  rw [List.map_append, Run.final_append, shell_typed _ hunmarked.1]

/-- Where nothing is due, the shell after the bytes that have arrived is what is seen. -/
theorem typed_drained {τ : Type*} {profile : Profile} (hbuilt : profile.Built)
    {client administrator : Peer τ} (hclient : Counted client)
    (hadministrator : Counted administrator) (start : τ) (actions : List LinkAction)
    (hroomy : ∀ e ∈ Run.trace (linkStep profile client administrator) (Link.boot profile start)
      actions, LinkEntry.Roomy e) {bytes : List UInt8}
    (hbytes : bytes.map some = actions.flatMap arrivals) :
    let s := Run.final (linkStep profile client administrator) (Link.boot profile start) actions
    let shell := Run.final (shellStep profile client administrator) (Shell.start profile start)
      (bytes.map typed)
    (∀ a, ¬ s.Due a) → s.console.terminal.editors = shell.editors ∧ s.peer = shell.peer ∧
      s.driver.wire = shell.printed.map charByte := by
  intro s shell hnone
  obtain ⟨bytes', takes, hstream, h, hshell⟩ :=
    typed_follows hbuilt hclient hadministrator start actions hroomy
  obtain rfl : bytes = bytes' :=
    List.map_injective_iff.mpr (Option.some_injective _) (hbytes.trans hstream.symm)
  have hawake : Awake s :=
    Run.final_induct (awake_boot start) (fun _ a h => awake_step h a) actions
  obtain ⟨-, -, -, hempty, -⟩ := drained h hawake hnone
  change shell = _ at hshell
  rw [hempty] at hshell
  rw [hshell]
  exact drained_shell h hawake hnone

/-- What is due brings nothing. -/
theorem due_roomy {τ : Type*} {e : LinkEntry τ} (h : e.pre.Due e.input) : LinkEntry.Roomy e := by
  unfold LinkEntry.Roomy
  cases hinput : e.input with
  | interrupt ch pending fifo =>
    rw [hinput] at h
    obtain ⟨-, rfl, herror, -⟩ := h
    exact fun _ => ⟨herror, fun word => List.not_mem_nil.elim, e.pre.driver.rx.count_le⟩
  | deliver ch => trivial
  | turn full mr noise => trivial

/-! ### Every text can be typed -/

section

variable {τ : Type*} (profile : Profile) (client administrator : Peer τ)

/-- Everything that is due is done. -/
def settle (s : Link τ) : List LinkAction :=
  Progress.schedule (linkStep profile client administrator) Link.next s.rank s

/-- A text is typed byte after byte, and everything that is due is done in between. -/
def typing : List UInt8 → Link τ → List LinkAction
  | [], s => settle profile client administrator s
  | byte :: bytes, s =>
    let before := settle profile client administrator s ++ [.interrupt 0 0x10 [byte.toUInt32]]
    before ++ typing bytes (Run.final (linkStep profile client administrator) s before)

variable {profile client administrator} {start : τ} {s : Link τ}

theorem due_arrivals {a : LinkAction} (h : s.Due a) : arrivals a = [] := by
  cases a with
  | interrupt ch pending fifo =>
    obtain ⟨rfl, rfl, herror, -⟩ := h
    unfold arrivals
    dsimp only
    rw [if_neg (not_not.mpr rfl), if_neg (not_not.mpr herror)]
    rfl
  | deliver ch => rfl
  | turn full mr noise => rfl

theorem next_none (h : s.next = none) : ∀ a, ¬ s.Due a := by
  unfold Link.next at h
  split_ifs at h with hrun hnotified henabled
  exact (due_none_iff s).mpr ⟨not_not.mp hrun, Bool.eq_false_iff.mpr hnotified, henabled⟩

/-- The states that the boot leads to. -/
def Reached (profile : Profile) (client administrator : Peer τ) (start : τ) (s : Link τ) : Prop :=
  Awake s ∧ ∃ takes, Follows profile client administrator start takes s

theorem reached_step (hbuilt : profile.Built) (hclient : Counted client)
    (hadministrator : Counted administrator)
    (h : Reached profile client administrator start s) (a : LinkAction) :
    Reached profile client administrator start (linkStep profile client administrator s a).1 :=
  ⟨awake_step h.1 a, h.2.elim fun _ h => ⟨_, follows_step hbuilt hclient hadministrator h a⟩⟩

/-- Nothing arrives while what is due is done, and then nothing is due. -/
theorem settle_quiet (hbuilt : profile.Built) (hclient : Counted client)
    (hadministrator : Counted administrator) (h : Reached profile client administrator start s) :
    let actions := settle profile client administrator s
    (∀ e ∈ Run.trace (linkStep profile client administrator) s actions, e.pre.Due e.input) ∧
      actions.flatMap arrivals = [] ∧
      ∀ a, ¬ (Run.final (linkStep profile client administrator) s actions).Due a := by
  intro actions
  have hdue : ∀ e ∈ Run.trace (linkStep profile client administrator) s actions,
      e.pre.Due e.input := Progress.schedule_due (fun _ _ => next_due) s.rank s
  refine ⟨hdue, ?_, next_none ?_⟩
  · rw [List.flatMap_eq_nil_iff]
    intro a ha
    obtain ⟨s', hnext⟩ := Progress.mem_schedule ha
    exact due_arrivals (next_due hnext)
  · exact Progress.schedule_done Link.rank
      (fun _ a h => reached_step hbuilt hclient hadministrator h a)
      (fun _ _ h hnext =>
        h.2.elim fun _ h => due_lowers hbuilt hclient hadministrator h (next_due hnext)) h le_rfl

theorem byte_word (byte : UInt8) :
    byte.toUInt32 &&& 0xf00 = 0 ∧ wordArrival byte.toUInt32 = some byte := by
  have hclean : ∀ k < 256, (UInt8.ofNat k).toUInt32 &&& 0xf00 = 0 := by decide +kernel
  have hzero := hclean byte.toNat byte.toNat_lt
  rw [UInt8.ofNat_toNat] at hzero
  refine ⟨hzero, ?_⟩
  unfold wordArrival
  rw [if_neg (not_not.mpr hzero), UInt8.toUInt8_toUInt32]

/-- **Every text can be typed**: nothing of it is lost, and at the end everything is done. -/
theorem typing_quiet (hbuilt : profile.Built) (hclient : Counted client)
    (hadministrator : Counted administrator) (h : Reached profile client administrator start s)
    (bytes : List UInt8) :
    let actions := typing profile client administrator bytes s
    (∀ e ∈ Run.trace (linkStep profile client administrator) s actions, LinkEntry.Roomy e) ∧
      actions.flatMap arrivals = bytes.map some ∧
      ∀ a, ¬ (Run.final (linkStep profile client administrator) s actions).Due a := by
  induction bytes generalizing s with
  | nil =>
    obtain ⟨hdue, hnothing, hquiet⟩ := settle_quiet hbuilt hclient hadministrator h
    exact ⟨fun e he => due_roomy (hdue e he), hnothing, hquiet⟩
  | cons byte bytes ih =>
    obtain ⟨hdue, hnothing, hquiet⟩ := settle_quiet hbuilt hclient hadministrator h
    have hsettled : Reached profile client administrator start (Run.final
        (linkStep profile client administrator) s (settle profile client administrator s)) :=
      Run.final_induct h (fun _ a h => reached_step hbuilt hclient hadministrator h a) _
    obtain ⟨takes, hfollows⟩ := hsettled.2
    obtain ⟨-, -, -, hempty, -⟩ := drained hfollows hsettled.1 hquiet
    have hcount := SerialRx.length_contents (Run.final (linkStep profile client administrator) s
      (settle profile client administrator s)).driver.rx
    rw [hempty, List.length_nil] at hcount
    obtain ⟨hclean, hword⟩ := byte_word byte
    have hbefore : Reached profile client administrator start (Run.final
        (linkStep profile client administrator) s (settle profile client administrator s ++
          [.interrupt 0 0x10 [byte.toUInt32]])) :=
      Run.final_induct h (fun _ a h => reached_step hbuilt hclient hadministrator h a) _
    obtain ⟨hroomy, harrived, hdone⟩ := ih hbefore
    unfold typing
    refine ⟨?_, ?_, ?_⟩
    · intro e he
      rw [Run.trace_append, Run.trace_snoc] at he
      rcases List.mem_append.mp he with he | he
      · rcases List.mem_append.mp he with he | he
        · exact due_roomy (hdue e he)
        · rw [List.mem_singleton.mp he]
          refine fun _ => ⟨by decide, fun word hw => ?_, ?_⟩
          · rw [List.mem_singleton.mp hw]
            exact hclean
          · show _ + 1 ≤ serialCapacity
            rw [Run.entry_pre, ← hcount]
            decide
      · exact hroomy e he
    · rw [List.flatMap_append, List.flatMap_append, hnothing, harrived, List.flatMap_singleton]
      show [wordArrival byte.toUInt32] ++ _ = _
      rw [hword]
      rfl
    · rw [Run.final_append]
      exact hdone

end

/-! ### What is seen -/

theorem helpSession_roomy :
    ∀ e ∈ Run.trace (linkStep testProfile silentPeer silentPeer) (Link.boot testProfile ())
      helpSession, LinkEntry.Roomy e := by
  unfold helpSession
  rw [Run.trace_append]
  intro e he
  rcases List.mem_append.mp he with he | he
  · simp only [typedLine, Run.trace, List.mem_cons, List.not_mem_nil, or_false] at he
    rcases he with rfl | rfl
    · trivial
    · have hclean : (("help\r".toList.map typedWord).take 64).all
          (fun word => word &&& 0xf00 == 0) = true := by decide +kernel
      refine fun _ => ⟨by decide, fun word hw => ?_, by decide +kernel⟩
      exact beq_iff_eq.mp (List.all_eq_true.mp hclean word hw)
  · have hdue : ∀ (s : Link Unit) a, s.next = some a → s.Due a := fun _ _ => next_due
    exact due_roomy (Progress.schedule_due hdue 60 _ e he)

/-- **What is typed decides.** In a run whose interrupts bring no error and no more than the queue
has room for, with the shell after the bytes that have arrived: the wire carries the beginning of
what the shell has printed; and where nothing is due any more, it carries all of it, and the editors
and the servers that are called are in the shell's state. When the interrupts came, when the
terminal ran and how much the transmitter took decides nothing. -/
theorem typed_decides {τ : Type*} {profile : Profile} (hbuilt : profile.Built)
    {client administrator : Peer τ} (hclient : Counted client)
    (hadministrator : Counted administrator) (start : τ) (actions : List LinkAction)
    (hroomy : ∀ e ∈ Run.trace (linkStep profile client administrator) (Link.boot profile start)
      actions, LinkEntry.Roomy e) :
    ∃ bytes : List UInt8, bytes.map some = actions.flatMap arrivals ∧
      let s := Run.final (linkStep profile client administrator) (Link.boot profile start) actions
      let shell := Run.final (shellStep profile client administrator) (Shell.start profile start)
        (bytes.map typed)
      s.driver.wire <+: shell.printed.map charByte ∧
      ((∀ a, ¬ s.Due a) → s.console.terminal.editors = shell.editors ∧ s.peer = shell.peer ∧
        s.driver.wire = shell.printed.map charByte) := by
  obtain ⟨bytes, takes, hstream, h, hshell⟩ :=
    typed_follows hbuilt hclient hadministrator start actions hroomy
  refine ⟨bytes, hstream, ?_, typed_drained hbuilt hclient hadministrator start actions hroomy hstream⟩
  obtain ⟨fed, hmirrors, hserve⟩ := h.shell
  have hwire : (Run.final (linkStep profile client administrator) (Link.boot profile start)
      actions).driver.wire <+: fed.printed.map charByte := ⟨_, hmirrors.printed⟩
  have hfed : fed.printed <+: (fed.serve profile client administrator
      (Run.final (linkStep profile client administrator) (Link.boot profile start)
        actions).console.pendingEvent).printed := by
    unfold Shell.serve
    split_ifs
    · exact List.prefix_rfl
    · exact List.prefix_append _ _
  rw [hserve] at hfed
  rw [hshell]
  exact hwire.trans ((hfed.trans (shell_printed profile client administrator _ _)).map charByte)

/-- The wire carries what the shell prints for the five bytes. -/
theorem typed_decides_help :
    helpDone.driver.wire =
      (Run.final (shellStep testProfile silentPeer silentPeer) (Shell.start testProfile ())
        (("help\r".toList.map charByte).map typed)).printed.map charByte := by
  obtain ⟨bytes, hbytes, h⟩ := typed_decides testProfile_built counted_silentPeer
    counted_silentPeer () helpSession helpSession_roomy
  have harrived : helpSession.flatMap arrivals = ("help\r".toList.map charByte).map some := by
    decide +kernel
  have htyped : bytes = "help\r".toList.map charByte :=
    List.map_injective_iff.mpr (Option.some_injective _) (hbytes.trans harrived)
  have hquiet := helpDone_quiet
  unfold helpDone at hquiet ⊢
  rw [htyped] at h
  exact (h.2 hquiet).2.2

end Tcs
