/-
# One launch of a session, one request of a number

Processes of the operator's tool on one session: `launch_guest` and
`review_or_sign` of `tools/operator.c`, any number of them, in any order of
steps. A process makes one step for each call to the operating system that
matters to the others: it reads the session's context, opens a new file,
writes some bytes, synchronizes, closes. Every call can fail, a write can be
short or interrupted, and a process that stops is one that is not given
another step. A session is a directory with exclusive creation
(`Lib/Files.lean`).

The step lemma (`procStep_ok`) says that a process creates a file only
if there is none, and appends only to the file that it created and is still
writing. So the log of a run is disciplined, and what each process remembers
(`StageOk`) is in it: whatever stops and fails, at most one process reaches
`execv`, at most one has written the request of a number, and a file that is
completely written stays as it is (`session_exclusive`).

Key definitions: `writeStep`, `LaunchArgs.ready`, `procStep`,
`sessionStep`, `StageOk`, `SessionOk`.
Key theorems: `procStep_ok`, `sessionOk_step`, `sessionOk_run`,
`session_exclusive`.
-/
import Tcs.Approval
import Tcs.Lib.Files
import Tcs.Lib.Run

namespace Tcs
namespace Operator

/-! ### Processes -/

/-- `absolute_argument`. -/
def absoluteArgument (path : List UInt8) : Bool :=
  path.head? = some 0x2f ∧ path.length ≤ 4095 ∧ path.all fun c => 32 ≤ c ∧ c ≠ 0x2c ∧ c ≠ 127

/-- What `launch_guest` is given: the identity, whether the session is a private directory, the
paths, the size of the image if it is a regular file, and what reading it yields up to its end. -/
structure LaunchArgs where
  identity : IdentityDir
  opened : Bool
  image : List UInt8
  qemu : List UInt8
  imageSize : Option ℕ
  imageRead : Option (List UInt8)

/-- A process: a review, a sign (with an approval), or a launch. -/
inductive Program
  | request (identity : IdentityDir) (opened : Bool) (args : Args) (approval : Option (List Char))
  | launch (args : LaunchArgs)

/-- The checks of `launch_guest` before it consumes the session: the context and the size of the
image. -/
def LaunchArgs.ready (args : LaunchArgs) (mode : LaunchMode) (file : Option (List UInt8)) :
    Option (List UInt8 × ℕ) :=
  if !absoluteArgument args.image ∨ !absoluteArgument args.qemu ∨ !args.opened then none
  else
    (identityRead mode args.identity).bind fun identity =>
      (readFile file launchBytes).bind fun context =>
        let launch := launchDecode context mode
        if !launch.1 ∨ identity.realm ≠ launch.2.identity.realm ∨
            identity.publicKey ≠ launch.2.identity.publicKey then none
        else
          args.imageSize.bind fun size =>
            if size = 0 ∨ size > 64 * 1024 * 1024 then none else some (context, size)

/-- The calls of `write_new`. -/
inductive Task
  | used (size : ℕ)
  | img
  | request (sequence : UInt64)
  deriving DecidableEq

/-- `launch.used`. -/
def launchUsed : List Char := "launch.used".toList
/-- `launch.img`. -/
def launchImg : List Char := "launch.img".toList
/-- `launch.context`. -/
def launchContext : List Char := "launch.context".toList

/-- The file of a call. -/
def Task.name : Task → List Char
  | .used _ => launchUsed
  | .img => launchImg
  | .request sequence => requestName sequence

/-- Where a process is in `write_new`: at a call to the operating system, with the bytes that have
been written or whether all went well so far. -/
inductive Call
  | create
  | acl
  | write (done : ℕ)
  | sync (ok : Bool)
  | close (ok : Bool)
  | syncDir (ok : Bool)

/-- Where a process is. -/
inductive Stage
  | start
  | writing (task : Task) (bytes : List UInt8) (call : Call)
  | image (size : ℕ)
  | chdir
  | descriptors
  | exec
  | ended (ok : Bool)

/-- What the operating system answers. -/
inductive Answer
  | fail
  | interrupted
  | done (n : ℕ)

/-- What a step does that can be seen. -/
inductive Event
  | quiet
  | created (name : List Char)
  | appended (name : List Char) (bytes : List UInt8)
  /-- `write_new` succeeds; a request is reported. -/
  | wrote (task : Task) (bytes : List UInt8)
  /-- `execv` is reached. -/
  | exec
  deriving DecidableEq

/-- What an event does to the session. -/
def Event.op : Event → Files.Op (List Char) UInt8
  | .created name => .create name
  | .appended name bytes => .append name bytes
  | _ => .keep

@[simp] theorem Event.op_create {event : Event} {name : List Char} :
    event.op = .create name ↔ event = .created name := by
  cases event <;> simp [Event.op]

@[simp] theorem Event.op_append {event : Event} {name : List Char} {bytes : List UInt8} :
    event.op = .append name bytes ↔ event = .appended name bytes := by
  cases event <;> simp [Event.op]

/-- Where a process goes on after `write_new` has succeeded. -/
def Task.next : Task → Stage
  | .used size => .image size
  | .img => .chdir
  | .request _ => .ended true

/-- Whether a call succeeded. -/
def Answer.ok : Answer → Bool
  | .done _ => true
  | _ => false

/-- `write_new`, one call at a time. -/
def writeStep (files : Files.Dir (List Char) UInt8) (task : Task) (bytes : List UInt8) :
    Call → Answer → Stage × Event
  | .create, answer =>
    if !answer.ok ∨ files task.name ≠ none then (.ended false, .quiet)
    else (.writing task bytes .acl, .created task.name)
  | .acl, answer =>
    if !answer.ok then (.writing task bytes (.sync false), .quiet)
    else (.writing task bytes (.write 0), .quiet)
  | .write done, answer =>
    if bytes.length ≤ done then (.writing task bytes (.sync true), .quiet)
    else
      match answer with
      | .fail => (.writing task bytes (.sync false), .quiet)
      | .interrupted => (.writing task bytes (.write done), .quiet)
      | .done n =>
        -- no more is written than was asked for, and nothing written is an error
        let piece := (bytes.drop done).take n
        if piece = [] then (.writing task bytes (.sync false), .quiet)
        else (.writing task bytes (.write (done + piece.length)), .appended task.name piece)
  | .sync ok, answer => (.writing task bytes (.close (ok && answer.ok)), .quiet)
  | .close ok, answer => (.writing task bytes (.syncDir (ok && answer.ok)), .quiet)
  | .syncDir ok, answer =>
    if ok && answer.ok then (task.next, .wrote task bytes) else (.ended false, .quiet)

/-- The first step of a process: its arguments are checked and its files are read. -/
def startStep (crypto : Crypto) (mode : LaunchMode) (files : Files.Dir (List Char) UInt8) :
    Program → Stage
  | .request identity opened args approval =>
    let inv : Invocation :=
      ⟨identity, if opened then some (files launchContext) else none, args⟩
    match approval with
    | none => .ended (reviewOrSign crypto mode inv none .refused).ok
    | some text =>
      match inv.request crypto mode text with
      | none => .ended false
      | some (sequence, packet) => .writing (.request sequence) packet .create
  | .launch args =>
    match args.ready mode (files launchContext) with
    | none => .ended false
    | some (context, size) => .writing (.used size) context .create

/-- A step of a process. -/
def procStep (crypto : Crypto) (mode : LaunchMode) (program : Program)
    (files : Files.Dir (List Char) UInt8) (stage : Stage) (answer : Answer) : Stage × Event :=
  match stage with
  | .start =>
    if !answer.ok then (.ended false, .quiet) else (startStep crypto mode files program, .quiet)
  | .writing task bytes call => writeStep files task bytes call answer
  | .image size =>
    match program with
    | .launch args =>
      match args.imageRead with
      | none => (.ended false, .quiet)
      | some image =>
        if !answer.ok ∨ image.length ≠ size then (.ended false, .quiet)
        else (.writing .img image .create, .quiet)
    | .request .. => (.ended false, .quiet)
  | .chdir => if !answer.ok then (.ended false, .quiet) else (.descriptors, .quiet)
  | .descriptors => if !answer.ok then (.ended false, .quiet) else (.exec, .exec)
  | .exec => (.ended false, .quiet)
  | .ended ok => (.ended ok, .quiet)

/-- The session and where its processes are. -/
structure World (π : Type*) where
  files : Files.Dir (List Char) UInt8
  stage : π → Stage

variable {π : Type*} [DecidableEq π]

/-- One step: of a process, with the answer that it gets. -/
def sessionStep (crypto : Crypto) (mode : LaunchMode) (programs : π → Program) (w : World π)
    (i : π × Answer) : World π × Event :=
  let (stage, event) := procStep crypto mode (programs i.1) w.files (w.stage i.1) i.2
  (⟨event.op.apply w.files, Function.update w.stage i.1 stage⟩, event)

/-- The processes at their start, on a session with any files. -/
def World.opened (files : Files.Dir (List Char) UInt8) : World π := ⟨files, fun _ => .start⟩

/-! ### What a process knows -/

/-- The operations of events, each with its process. -/
def log (l : List (π × Event)) : List (π × Files.Op (List Char) UInt8) :=
  l.map fun r => (r.1, r.2.op)

omit [DecidableEq π] in
theorem log_snoc (l : List (π × Event)) (p : π) (event : Event) :
    log (l ++ [(p, event)]) = log l ++ [(p, event.op)] := List.map_append

section

variable (crypto : Crypto) (mode : LaunchMode) (programs : π → Program)

/-- The process is a launch that has read this context and found an image of this size. -/
def Ready (p : π) (context : List UInt8) (size : ℕ) (args : LaunchArgs) : Prop :=
  programs p = .launch args ∧ ∃ file, args.ready mode file = some (context, size)

/-- The process has written `launch.used`, and its image is this one. -/
def Consumed (l : List (π × Event)) (p : π) (image : List UInt8) : Prop :=
  ∃ args context size, Ready mode programs p context size args ∧
    (p, Event.wrote (.used size) context) ∈ l ∧ args.imageRead = some image ∧ image.length = size

/-- What a call of `write_new` is given. -/
def TaskOk (l : List (π × Event)) (p : π) : Task → List UInt8 → Prop
  | .used size, bytes => ∃ args, Ready mode programs p bytes size args
  | .img, bytes => Consumed mode programs l p bytes
  | .request sequence, bytes => ∃ identity opened args approval, ∃ file : Option (List UInt8),
      programs p = .request identity opened args (some approval) ∧
        (⟨identity, if opened then some file else none, args⟩ : Invocation).request crypto mode
          approval = some (sequence, bytes)

/-- The process created the file, and nobody has finished writing it. -/
def Fresh (l : List (π × Event)) (p : π) (name : List Char) : Prop :=
  Files.Owns (log l) p name ∧ ∀ q task bytes, (q, Event.wrote task bytes) ∈ l → task.name ≠ name

/-- What is in the file at a call of `write_new`. -/
def CallOk (l : List (π × Event)) (files : Files.Dir (List Char) UInt8) (p : π) (task : Task)
    (bytes : List UInt8) : Call → Prop
  | .create => True
  | .acl => Fresh l p task.name ∧ files task.name = some []
  | .write done => Fresh l p task.name ∧ files task.name = some (bytes.take done)
  | .sync ok | .close ok | .syncDir ok =>
    Fresh l p task.name ∧ (ok = true → files task.name = some bytes)

/-- The process has written both files. -/
def Launched (l : List (π × Event)) (p : π) : Prop :=
  ∃ image, Consumed mode programs l p image ∧ (p, Event.wrote .img image) ∈ l

/-- What a process knows. -/
def StageOk (l : List (π × Event)) (files : Files.Dir (List Char) UInt8) (p : π) : Stage → Prop
  | .start | .ended _ => True
  | .writing task bytes call =>
    TaskOk crypto mode programs l p task bytes ∧ CallOk l files p task bytes call
  | .image size => ∃ args context, Ready mode programs p context size args ∧
      (p, Event.wrote (.used size) context) ∈ l
  | .chdir | .descriptors | .exec => Launched mode programs l p

/-- **The invariant of a session**, after events that began with some files. -/
structure SessionOk (files₀ : Files.Dir (List Char) UInt8) (l : List (π × Event)) (w : World π) :
    Prop where
  disciplined : Files.Disciplined files₀ (log l)
  files : w.files = Files.after files₀ (log l)
  stage : ∀ p, StageOk crypto mode programs l w.files p (w.stage p)
  wrote : ∀ p task bytes, (p, Event.wrote task bytes) ∈ l → Files.Owns (log l) p task.name ∧
    w.files task.name = some bytes ∧ TaskOk crypto mode programs l p task bytes
  exec : ∀ p, (p, Event.exec) ∈ l → Launched mode programs l p

/-- What a step of a process keeps. -/
structure StepOk (files₀ : Files.Dir (List Char) UInt8) (l : List (π × Event))
    (files : Files.Dir (List Char) UInt8) (p : π) (out : Stage × Event) : Prop where
  permitted : Files.Permitted files₀ (log l) p out.2.op
  kept : ∀ q task bytes, (q, Event.wrote task bytes) ∈ l →
    out.2.op.apply files task.name = files task.name
  stage : StageOk crypto mode programs (l ++ [(p, out.2)]) (out.2.op.apply files) p out.1
  wrote : ∀ task bytes, out.2 = .wrote task bytes → Files.Owns (log l) p task.name ∧
    files task.name = some bytes ∧ TaskOk crypto mode programs l p task bytes
  exec : out.2 = .exec → Launched mode programs l p

end

section

variable {crypto : Crypto} {mode : LaunchMode} {programs : π → Program} {l : List (π × Event)}
  {files₀ files : Files.Dir (List Char) UInt8} {p q : π} {event : Event}

omit [DecidableEq π]

theorem Consumed.snoc {image : List UInt8} (h : Consumed mode programs l p image)
    (r : π × Event) : Consumed mode programs (l ++ [r]) p image := by
  obtain ⟨args, context, size, hready, hwrote, himage⟩ := h
  exact ⟨args, context, size, hready, List.mem_append_left _ hwrote, himage⟩

theorem TaskOk.snoc {task : Task} {bytes : List UInt8}
    (h : TaskOk crypto mode programs l p task bytes) (r : π × Event) :
    TaskOk crypto mode programs (l ++ [r]) p task bytes := by
  cases task with
  | used size => exact h
  | img => exact Consumed.snoc h r
  | request sequence => exact h

theorem Launched.snoc (h : Launched mode programs l p) (r : π × Event) :
    Launched mode programs (l ++ [r]) p := by
  obtain ⟨image, hconsumed, hwrote⟩ := h
  exact ⟨image, hconsumed.snoc r, List.mem_append_left _ hwrote⟩

/-- A file stays fresh until somebody has finished writing it. -/
theorem Fresh.snoc {name : List Char} (h : Fresh l p name)
    (hr : ∀ task bytes, event = .wrote task bytes → task.name ≠ name) :
    Fresh (l ++ [(q, event)]) p name := by
  refine ⟨?_, ?_⟩
  · rw [log_snoc]
    exact h.1.append _
  · intro q' task bytes hmem
    rcases List.mem_append.mp hmem with hmem | hmem
    · exact h.2 q' task bytes hmem
    · exact hr task bytes (Prod.mk.inj (List.mem_singleton.mp hmem)).2.symm

/-- What a process knows is kept by events that leave its file alone. -/
theorem StageOk.snoc {files' : Files.Dir (List Char) UInt8} {stage : Stage}
    (h : StageOk crypto mode programs l files p stage)
    (hr : ∀ name, Files.Owns (log l) p name →
      files' name = files name ∧ ∀ task bytes, event = .wrote task bytes → task.name ≠ name) :
    StageOk crypto mode programs (l ++ [(q, event)]) files' p stage := by
  cases stage with
  | start => trivial
  | ended ok => trivial
  | image size =>
    obtain ⟨args, context, hready, hwrote⟩ := h
    exact ⟨args, context, hready, List.mem_append_left _ hwrote⟩
  | chdir => exact Launched.snoc h _
  | descriptors => exact Launched.snoc h _
  | exec => exact Launched.snoc h _
  | writing task bytes call =>
    obtain ⟨htask, hcall⟩ := h
    refine ⟨htask.snoc _, ?_⟩
    cases call with
    | create => trivial
    | acl =>
      obtain ⟨hfresh, hfile⟩ := hcall
      obtain ⟨hsame, hwrote⟩ := hr _ hfresh.1
      exact ⟨hfresh.snoc hwrote, hsame.trans hfile⟩
    | write done =>
      obtain ⟨hfresh, hfile⟩ := hcall
      obtain ⟨hsame, hwrote⟩ := hr _ hfresh.1
      exact ⟨hfresh.snoc hwrote, hsame.trans hfile⟩
    | sync ok =>
      obtain ⟨hfresh, hfile⟩ := hcall
      obtain ⟨hsame, hwrote⟩ := hr _ hfresh.1
      exact ⟨hfresh.snoc hwrote, fun hok => hsame.trans (hfile hok)⟩
    | close ok =>
      obtain ⟨hfresh, hfile⟩ := hcall
      obtain ⟨hsame, hwrote⟩ := hr _ hfresh.1
      exact ⟨hfresh.snoc hwrote, fun hok => hsame.trans (hfile hok)⟩
    | syncDir ok =>
      obtain ⟨hfresh, hfile⟩ := hcall
      obtain ⟨hsame, hwrote⟩ := hr _ hfresh.1
      exact ⟨hfresh.snoc hwrote, fun hok => hsame.trans (hfile hok)⟩

/-! ### Steps -/

/-- An event that leaves the files alone, and ends no `write_new`. -/
theorem StepOk.silent {stage : Stage} (hop : event.op = .keep)
    (hwrote : ∀ task bytes, event ≠ .wrote task bytes)
    (hstage : StageOk crypto mode programs (l ++ [(p, event)]) files p stage)
    (hexec : event = .exec → Launched mode programs l p) :
    StepOk crypto mode programs files₀ l files p (stage, event) where
  permitted := by rw [hop]; trivial
  kept _ _ _ _ := by rw [hop, Files.Op.apply_keep]
  stage := by rw [hop]; exact hstage
  wrote task bytes heq := absurd heq (hwrote task bytes)
  exec := hexec

theorem StepOk.quiet {stage : Stage} (h : StageOk crypto mode programs l files p stage) :
    StepOk crypto mode programs files₀ l files p (stage, .quiet) :=
  .silent rfl (fun _ _ heq => Event.noConfusion heq)
    (h.snoc fun _ _ => ⟨rfl, fun _ _ heq => Event.noConfusion heq⟩)
    fun heq => Event.noConfusion heq

/-- What a write adds to what has been written. -/
theorem take_append_piece (bytes : List UInt8) (done n : ℕ) :
    bytes.take done ++ (bytes.drop done).take n =
      bytes.take (done + ((bytes.drop done).take n).length) := by
  rw [List.take_add, ← List.prefix_iff_eq_take.mp (List.take_prefix n _)]

/-- Creating the file: there is none, so nobody has finished writing one of this name. -/
theorem StepOk.creates {stage : π → Stage} {task : Task} {bytes : List UInt8}
    (h : SessionOk crypto mode programs files₀ l ⟨files, stage⟩)
    (htask : TaskOk crypto mode programs l p task bytes) (habsent : files task.name = none) :
    StepOk crypto mode programs files₀ l files p
      (.writing task bytes .acl, .created task.name) := by
  have hnew : ∀ q t b, (q, Event.wrote t b) ∈ l → t.name ≠ task.name := by
    intro q t b hmem heq
    have hfile : files t.name = some b := (h.wrote q t b hmem).2.1
    rw [heq, habsent] at hfile
    exact Option.some_ne_none _ hfile.symm
  refine ⟨(congrFun h.files task.name).symm.trans habsent,
    fun q t b hmem => Files.Op.apply_create_ne _ (hnew q t b hmem), ?_,
    fun _ _ heq => Event.noConfusion heq, fun heq => Event.noConfusion heq⟩
  refine ⟨htask.snoc _, ⟨?_, ?_⟩, Files.Op.apply_create _ _⟩
  · rw [log_snoc]
    exact Files.owns_snoc.mpr (Or.inr ⟨rfl, rfl⟩)
  · intro q t b hmem
    rcases List.mem_append.mp hmem with hmem | hmem
    · exact hnew q t b hmem
    · exact Event.noConfusion (Prod.mk.inj (List.mem_singleton.mp hmem)).2

/-- Writing a piece: it goes to the process's own file, behind what is there. -/
theorem StepOk.appends {task : Task} {bytes : List UInt8} {done : ℕ}
    (htask : TaskOk crypto mode programs l p task bytes) (hfresh : Fresh l p task.name)
    (hfile : files task.name = some (bytes.take done)) (n : ℕ) :
    StepOk crypto mode programs files₀ l files p
      (.writing task bytes (.write (done + ((bytes.drop done).take n).length)),
        .appended task.name ((bytes.drop done).take n)) := by
  refine ⟨hfresh.1, fun q t b hmem => Files.Op.apply_append_ne _ _ (hfresh.2 q t b hmem), ?_,
    fun _ _ heq => Event.noConfusion heq, fun heq => Event.noConfusion heq⟩
  refine ⟨htask.snoc _, hfresh.snoc fun _ _ heq => Event.noConfusion heq, ?_⟩
  calc Files.Op.apply files (.append task.name ((bytes.drop done).take n)) task.name
      = (files task.name).map (· ++ (bytes.drop done).take n) := Files.Op.apply_append ..
    _ = some (bytes.take done ++ (bytes.drop done).take n) := by rw [hfile, Option.map_some]
    _ = some (bytes.take (done + ((bytes.drop done).take n).length)) := by
      rw [take_append_piece]

theorem StepOk.finishes {task : Task} {bytes : List UInt8}
    (htask : TaskOk crypto mode programs l p task bytes) (hfresh : Fresh l p task.name)
    (hwhole : files task.name = some bytes) :
    StepOk crypto mode programs files₀ l files p (task.next, .wrote task bytes) := by
  have hmem : (p, Event.wrote task bytes) ∈ l ++ [(p, Event.wrote task bytes)] :=
    List.mem_append_right _ (List.mem_singleton_self _)
  refine ⟨trivial, fun _ _ _ _ => rfl, ?_, ?_, fun heq => Event.noConfusion heq⟩
  · cases task with
    | used size =>
      obtain ⟨args, hready⟩ := htask
      exact ⟨args, bytes, hready, hmem⟩
    | img => exact ⟨bytes, Consumed.snoc htask _, hmem⟩
    | request sequence => trivial
  · intro t b heq
    obtain ⟨rfl, rfl⟩ := Event.wrote.inj heq
    exact ⟨hfresh.1, hwhole, htask⟩

/-- **`write_new`.** A step creates a file only if there is none, and appends only to the file that
the process created and nobody has finished writing. -/
theorem writeStep_ok {stage : π → Stage} {task : Task} {bytes : List UInt8} {call : Call}
    (h : SessionOk crypto mode programs files₀ l ⟨files, stage⟩)
    (hs : StageOk crypto mode programs l files p (.writing task bytes call)) (answer : Answer) :
    StepOk crypto mode programs files₀ l files p (writeStep files task bytes call answer) := by
  obtain ⟨htask, hcall⟩ := hs
  cases call with
  | create =>
    dsimp only [writeStep]
    by_cases hguard : !answer.ok ∨ files task.name ≠ none
    · rw [if_pos hguard]
      exact .quiet trivial
    · rw [if_neg hguard]
      exact .creates h htask (by_contra fun hne => hguard (Or.inr hne))
  | acl =>
    obtain ⟨hfresh, hfile⟩ := hcall
    dsimp only [writeStep]
    split_ifs
    · exact .quiet ⟨htask, hfresh, fun hok => absurd hok Bool.false_ne_true⟩
    · exact .quiet ⟨htask, hfresh, by rw [hfile, List.take_zero]⟩
  | write done =>
    obtain ⟨hfresh, hfile⟩ := hcall
    dsimp only [writeStep]
    by_cases hdone : bytes.length ≤ done
    · rw [if_pos hdone]
      exact .quiet ⟨htask, hfresh, fun _ => by rw [hfile, List.take_of_length_le hdone]⟩
    rw [if_neg hdone]
    cases answer with
    | fail => exact .quiet ⟨htask, hfresh, fun hok => absurd hok Bool.false_ne_true⟩
    | interrupted => exact .quiet ⟨htask, hfresh, hfile⟩
    | done n =>
      dsimp only
      by_cases hpiece : (bytes.drop done).take n = []
      · rw [if_pos hpiece]
        exact .quiet ⟨htask, hfresh, fun hok => absurd hok Bool.false_ne_true⟩
      · rw [if_neg hpiece]
        exact .appends htask hfresh hfile n
  | sync ok =>
    obtain ⟨hfresh, hfile⟩ := hcall
    exact .quiet ⟨htask, hfresh, fun hok => hfile (Bool.and_eq_true_iff.mp hok).1⟩
  | close ok =>
    obtain ⟨hfresh, hfile⟩ := hcall
    exact .quiet ⟨htask, hfresh, fun hok => hfile (Bool.and_eq_true_iff.mp hok).1⟩
  | syncDir ok =>
    obtain ⟨hfresh, hfile⟩ := hcall
    dsimp only [writeStep]
    by_cases hok : (ok && answer.ok) = true
    · rw [if_pos hok]
      exact .finishes htask hfresh (hfile (Bool.and_eq_true_iff.mp hok).1)
    · rw [if_neg hok]
      exact .quiet trivial

theorem startStep_ok (file : Files.Dir (List Char) UInt8) :
    StageOk crypto mode programs l files p (startStep crypto mode file (programs p)) := by
  unfold startStep
  rcases hprogram : programs p with ⟨identity, opened, args, approval⟩ | args
  · cases approval with
    | none => trivial
    | some text =>
      dsimp only
      split
      · trivial
      · next sequence packet hrequest =>
        exact ⟨⟨identity, opened, args, text, _, hprogram, hrequest⟩, trivial⟩
  · dsimp only
    split
    · trivial
    · next context size hready =>
      exact ⟨⟨args, hprogram, _, hready⟩, trivial⟩

/-- **Steps.** Any step of any process keeps the invariant. -/
theorem procStep_ok {stage : π → Stage}
    (h : SessionOk crypto mode programs files₀ l ⟨files, stage⟩) (p : π) (answer : Answer) :
    StepOk crypto mode programs files₀ l files p
      (procStep crypto mode (programs p) files (stage p) answer) := by
  have hs : StageOk crypto mode programs l files p (stage p) := h.stage p
  unfold procStep
  rcases hstage : stage p with _ | ⟨task, bytes, call⟩ | size | _ | _ | _ | ok
  · dsimp only
    split_ifs
    · exact .quiet trivial
    · exact .quiet (startStep_ok files)
  · rw [hstage] at hs
    exact writeStep_ok h hs answer
  · rw [hstage] at hs
    obtain ⟨args, context, hready, hwrote⟩ := hs
    rw [hready.1]
    dsimp only
    split
    · exact .quiet trivial
    · next image himage =>
      split_ifs with hguard
      · exact .quiet trivial
      · have hsize : image.length = size := by
          by_contra hne
          exact hguard (Or.inr hne)
        exact .quiet ⟨⟨args, context, size, hready, hwrote, himage, hsize⟩, trivial⟩
  · rw [hstage] at hs
    dsimp only
    split_ifs
    · exact .quiet trivial
    · exact .quiet hs
  · rw [hstage] at hs
    dsimp only
    split_ifs
    · exact .quiet trivial
    · exact .silent rfl (fun _ _ heq => Event.noConfusion heq) (Launched.snoc hs _) fun _ => hs
  · exact .quiet trivial
  · exact .quiet trivial

end

/-! ### Runs -/

section

variable {crypto : Crypto} {mode : LaunchMode} {programs : π → Program} {l : List (π × Event)}
  {files₀ : Files.Dir (List Char) UInt8} {w : World π}

theorem sessionOk_step (h : SessionOk crypto mode programs files₀ l w) (i : π × Answer) :
    SessionOk crypto mode programs files₀ (l ++ [(i.1, (sessionStep crypto mode programs w i).2)])
      (sessionStep crypto mode programs w i).1 := by
  obtain ⟨p, answer⟩ := i
  obtain ⟨files, stage⟩ := w
  have hok := procStep_ok h p answer
  unfold sessionStep
  generalize procStep crypto mode (programs p) files (stage p) answer = out at hok
  obtain ⟨stage', event⟩ := out
  dsimp only
  have hfiles : files = Files.after files₀ (log l) := h.files
  refine ⟨?_, ?_, ?_, ?_, ?_⟩
  · rw [log_snoc]
    exact h.disciplined.snoc hok.permitted
  · rw [log_snoc, Files.after_snoc, ← hfiles]
  · intro q
    show StageOk crypto mode programs (l ++ [(p, event)]) (Files.Op.apply files event.op) q
      (Function.update stage p stage' q)
    by_cases hq : q = p
    · subst hq
      rw [Function.update_self]
      exact hok.stage
    · rw [Function.update_of_ne hq]
      refine (h.stage q).snoc fun name howns => ⟨?_, ?_⟩
      · have hother := h.disciplined.apply_other hok.permitted howns hq
        rwa [← hfiles] at hother
      · rintro task bytes heq rfl
        exact hq (h.disciplined.owner_unique howns (hok.wrote task bytes heq).1)
  · intro q task bytes hmem
    rw [log_snoc]
    rcases List.mem_append.mp hmem with hmem | hmem
    · obtain ⟨howns, hfile, htask⟩ := h.wrote q task bytes hmem
      exact ⟨howns.append _, (hok.kept q task bytes hmem).trans hfile, htask.snoc _⟩
    · obtain ⟨rfl, rfl⟩ := Prod.mk.inj (List.mem_singleton.mp hmem)
      obtain ⟨howns, hfile, htask⟩ := hok.wrote task bytes rfl
      exact ⟨howns.append _, hfile, htask.snoc _⟩
  · intro q hmem
    rcases List.mem_append.mp hmem with hmem | hmem
    · exact (h.exec q hmem).snoc _
    · obtain ⟨rfl, rfl⟩ := Prod.mk.inj (List.mem_singleton.mp hmem)
      exact (hok.exec rfl).snoc _

end

section

variable (crypto : Crypto) (mode : LaunchMode) (programs : π → Program)

/-- What is seen of a run. -/
def events (w : World π) (schedule : List (π × Answer)) : List (π × Event) :=
  (Run.trace (sessionStep crypto mode programs) w schedule).map fun e => (e.input.1, e.output)

/-- Where a run leads. -/
def reached (w : World π) (schedule : List (π × Answer)) : World π :=
  Run.final (sessionStep crypto mode programs) w schedule

/-- **What holds of a session.** It is opened with some files; its processes have made some steps,
and may make more. -/
structure Exclusive (files : Files.Dir (List Char) UInt8) (schedule more : List (π × Answer)) :
    Prop where
  /-- A process that reaches `execv` now has written both files, and they are there. -/
  after : ∀ i, (sessionStep crypto mode programs
      (reached crypto mode programs (.opened files) schedule) i).2 = .exec →
    ∃ args context size image, Ready mode programs i.1 context size args ∧
      args.imageRead = some image ∧ image.length = size ∧
      (i.1, .wrote (.used size) context) ∈ events crypto mode programs (.opened files) schedule ∧
      (i.1, .wrote .img image) ∈ events crypto mode programs (.opened files) schedule ∧
      (reached crypto mode programs (.opened files) schedule).files launchUsed = some context ∧
      (reached crypto mode programs (.opened files) schedule).files launchImg = some image
  /-- At most one process has reached `execv`. -/
  exec_one : ∀ p q, (p, .exec) ∈ events crypto mode programs (.opened files) schedule →
    (q, .exec) ∈ events crypto mode programs (.opened files) schedule → p = q
  /-- With `launch.used` there, only the process that has created it ever reaches `execv`. -/
  creator : (reached crypto mode programs (.opened files) schedule).files launchUsed ≠ none →
    ∀ p, (p, .exec) ∈ events crypto mode programs (.opened files) (schedule ++ more) →
      (p, .created launchUsed) ∈ events crypto mode programs (.opened files) schedule
  /-- If that process has ended or makes no more steps, nobody reaches `execv` any more. -/
  stopped : ∀ p, (p, .created launchUsed) ∈ events crypto mode programs (.opened files) schedule →
    (∃ ok, (reached crypto mode programs (.opened files) schedule).stage p = .ended ok) ∨
      (∀ i ∈ more, i.1 ≠ p) →
    ∀ q, (q, .exec) ∉ events crypto mode programs
      (reached crypto mode programs (.opened files) schedule) more
  /-- At most one process has reported the request of a number. -/
  request_one : ∀ p q sequence b b',
    (p, .wrote (.request sequence) b) ∈ events crypto mode programs (.opened files) schedule →
    (q, .wrote (.request sequence) b') ∈ events crypto mode programs (.opened files) schedule → p = q
  /-- A file that is created now was not there. -/
  absent : ∀ i name, (sessionStep crypto mode programs
      (reached crypto mode programs (.opened files) schedule) i).2 = .created name →
    (reached crypto mode programs (.opened files) schedule).files name = none
  /-- A file stays and keeps its bytes, and only its creator adds to them. -/
  kept : ∀ name bytes, (reached crypto mode programs (.opened files) schedule).files name = some bytes →
    ∃ rest, (reached crypto mode programs (.opened files) (schedule ++ more)).files name =
        some (bytes ++ rest) ∧
      (rest ≠ [] → ∃ p piece,
        (p, .created name) ∈ events crypto mode programs (.opened files) schedule ∧
        (p, .appended name piece) ∈ events crypto mode programs
          (reached crypto mode programs (.opened files) schedule) more)
  /-- A file that was completely written stays as it is. -/
  complete : ∀ p task bytes,
    (p, .wrote task bytes) ∈ events crypto mode programs (.opened files) schedule →
    (reached crypto mode programs (.opened files) (schedule ++ more)).files task.name = some bytes

end

section

variable {crypto : Crypto} {mode : LaunchMode} {programs : π → Program}
  {files : Files.Dir (List Char) UInt8} {w : World π} {schedule more : List (π × Answer)}

theorem events_append (w : World π) (schedule more : List (π × Answer)) :
    events crypto mode programs w (schedule ++ more) = events crypto mode programs w schedule ++
      events crypto mode programs (reached crypto mode programs w schedule) more := by
  unfold events
  rw [Run.trace_append, List.map_append]
  rfl

/-- The invariant holds of every run. -/
theorem sessionOk_run (files : Files.Dir (List Char) UInt8) (schedule : List (π × Answer)) :
    SessionOk crypto mode programs files (events crypto mode programs (.opened files) schedule)
      (reached crypto mode programs (.opened files) schedule) := by
  unfold events reached
  refine Run.trace_induct
    (P := fun h w => SessionOk crypto mode programs files (h.map fun e => (e.input.1, e.output)) w)
    ?_ ?_ schedule
  · refine ⟨Files.Disciplined.nil, rfl, fun p => trivial, fun p task bytes hmem => ?_, fun p hmem => ?_⟩
    · exact absurd hmem List.not_mem_nil
    · exact absurd hmem List.not_mem_nil
  · intro h w i hok
    rw [List.map_append]
    exact sessionOk_step hok i

omit [DecidableEq π] in
theorem mem_log {l : List (π × Event)} {p : π} {op : Files.Op (List Char) UInt8} :
    (p, op) ∈ log l ↔ ∃ event, (p, event) ∈ l ∧ event.op = op := by
  unfold log
  rw [List.mem_map]
  constructor
  · rintro ⟨⟨q, event⟩, hmem, heq⟩
    obtain ⟨rfl, hop⟩ := Prod.mk.inj heq
    exact ⟨event, hmem, hop⟩
  · rintro ⟨event, hmem, rfl⟩
    exact ⟨(p, event), hmem, rfl⟩

omit [DecidableEq π] in
/-- The creator of a file is the process that was seen to create it. -/
theorem owns_iff {l : List (π × Event)} {p : π} {name : List Char} :
    Files.Owns (log l) p name ↔ (p, .created name) ∈ l := by
  refine mem_log.trans ⟨?_, fun h => ⟨_, h, rfl⟩⟩
  rintro ⟨event, hmem, hop⟩
  rwa [Event.op_create.mp hop] at hmem

omit [DecidableEq π] in
theorem appended_of_mem_log {l : List (π × Event)} {p : π} {name : List Char} {bytes : List UInt8}
    (h : (p, Files.Op.append name bytes) ∈ log l) : (p, .appended name bytes) ∈ l := by
  obtain ⟨event, hmem, hop⟩ := mem_log.mp h
  rwa [Event.op_append.mp hop] at hmem

/-- Who is seen has made a step. -/
theorem acts_of_mem_events {p : π} {event : Event}
    (h : (p, event) ∈ events crypto mode programs w schedule) : ∃ i ∈ schedule, i.1 = p := by
  obtain ⟨e, he, heq⟩ := List.mem_map.mp h
  obtain ⟨is₁, i, is₂, rfl, rfl⟩ := Run.mem_trace he
  exact ⟨i, List.mem_append_right _ List.mem_cons_self, (Prod.mk.inj heq).1⟩

theorem ended_step (crypto : Crypto) (mode : LaunchMode) (programs : π → Program) {p : π} {ok : Bool}
    (h : w.stage p = .ended ok) (i : π × Answer) :
    (sessionStep crypto mode programs w i).1.stage p = .ended ok ∧
      (i.1 = p → (sessionStep crypto mode programs w i).2 = .quiet) := by
  unfold sessionStep
  by_cases hi : p = i.1
  · have hstep : procStep crypto mode (programs i.1) w.files (w.stage i.1) i.2 = (.ended ok, .quiet) := by
      rw [← hi, h]
      rfl
    rw [hstep]
    exact ⟨by rw [hi]; exact Function.update_self .., fun _ => rfl⟩
  · exact ⟨(Function.update_of_ne hi ..).trans h, fun heq => absurd heq.symm hi⟩

theorem ended_run {p : π} {ok : Bool} : ∀ (more : List (π × Answer)) {w : World π},
    w.stage p = .ended ok → (p, .exec) ∉ events crypto mode programs w more
  | [], _, _ => List.not_mem_nil
  | i :: more, w, h => by
    obtain ⟨hstage, hquiet⟩ := ended_step crypto mode programs h i
    intro hmem
    rcases List.mem_cons.mp hmem with heq | hmem
    · obtain ⟨hi, hevent⟩ := Prod.mk.inj heq
      have hexec := (hquiet hi.symm).symm.trans hevent.symm
      exact Event.noConfusion hexec
    · exact ended_run more hstage hmem

omit [DecidableEq π] in
theorem SessionOk.exec_owns {l : List (π × Event)} (h : SessionOk crypto mode programs files l w)
    {p : π} (hp : (p, .exec) ∈ l) : Files.Owns (log l) p launchUsed := by
  obtain ⟨image, ⟨args, context, size, -, hused, -⟩, -⟩ := h.exec p hp
  exact (h.wrote p _ _ hused).1

/-- A request that is reported is the file of a sign that succeeds (`reviewOrSign`), with the context
that the process found. -/
theorem request_refines {p : π} {sequence : UInt64} {packet : List UInt8}
    (h : (p, .wrote (.request sequence) packet) ∈ events crypto mode programs (.opened files) schedule) :
    ∃ identity opened args approval, ∃ file : Option (List UInt8),
      programs p = .request identity opened args (some approval) ∧
      let out := reviewOrSign crypto mode ⟨identity, if opened then some file else none, args⟩
        (some approval) .complete
      out.ok = true ∧ out.written = some (requestName sequence, packet) := by
  obtain ⟨-, -, identity, opened, args, approval, file, hprogram, hrequest⟩ :=
    (sessionOk_run files schedule).wrote p _ packet h
  refine ⟨identity, opened, args, approval, file, hprogram, ?_⟩
  unfold reviewOrSign
  dsimp only
  rw [hrequest]
  exact ⟨rfl, rfl⟩

/-- **One launch of a session, one request of a number.** For any processes on any session, whatever
steps they have made and may make, with whatever answers. -/
theorem session_exclusive (crypto : Crypto) (mode : LaunchMode) (programs : π → Program)
    (files : Files.Dir (List Char) UInt8) (schedule more : List (π × Answer)) :
    Exclusive crypto mode programs files schedule more := by
  have hnow : SessionOk crypto mode programs files
      (events crypto mode programs (.opened files) schedule)
      (reached crypto mode programs (.opened files) schedule) := sessionOk_run files schedule
  have hall : SessionOk crypto mode programs files
      (events crypto mode programs (.opened files) (schedule ++ more))
      (reached crypto mode programs (.opened files) (schedule ++ more)) :=
    sessionOk_run files (schedule ++ more)
  have hcreator : (reached crypto mode programs (.opened files) schedule).files launchUsed ≠ none →
      ∀ p, (p, .exec) ∈ events crypto mode programs (.opened files) (schedule ++ more) →
        (p, .created launchUsed) ∈ events crypto mode programs (.opened files) schedule := by
    intro hthere p hexec
    have howns := hall.exec_owns hexec
    have hdisciplined := hall.disciplined
    rw [events_append, log, List.map_append] at howns hdisciplined
    rw [hnow.files] at hthere
    exact owns_iff.mp (hdisciplined.owns_left howns hthere)
  refine ⟨?_, ?_, hcreator, ?_, ?_, ?_, ?_, ?_⟩
  · intro i hexec
    have hok := procStep_ok hnow i.1 i.2
    obtain ⟨image, ⟨args, context, size, hready, hused, hread, hsize⟩, himg⟩ := hok.exec hexec
    exact ⟨args, context, size, image, hready, hread, hsize, hused, himg,
      (hnow.wrote i.1 _ _ hused).2.1, (hnow.wrote i.1 _ _ himg).2.1⟩
  · intro p q hp hq
    exact hnow.disciplined.owner_unique (hnow.exec_owns hp) (hnow.exec_owns hq)
  · intro p hp hstop q hq
    have hthere : (reached crypto mode programs (.opened files) schedule).files launchUsed ≠ none := by
      rw [hnow.files]
      exact hnow.disciplined.owns_present (owns_iff.mpr hp)
    have hsame : q = p := by
      refine hnow.disciplined.owner_unique (owns_iff.mpr (hcreator hthere q ?_)) (owns_iff.mpr hp)
      rw [events_append]
      exact List.mem_append_right _ hq
    subst hsame
    rcases hstop with ⟨ok, hended⟩ | hidle
    · exact ended_run more hended hq
    · obtain ⟨i, hi, heq⟩ := acts_of_mem_events hq
      exact hidle i hi heq
  · intro p q sequence b b' hp hq
    exact hnow.disciplined.owner_unique (hnow.wrote p _ b hp).1 (hnow.wrote q _ b' hq).1
  · intro i name hcreated
    have hpermitted : Files.Permitted files
        (log (events crypto mode programs (.opened files) schedule)) i.1
        (sessionStep crypto mode programs
          (reached crypto mode programs (.opened files) schedule) i).2.op :=
      (procStep_ok hnow i.1 i.2).permitted
    rw [Event.op_create.mpr hcreated] at hpermitted
    rw [hnow.files]
    exact hpermitted
  · intro name bytes hbytes
    have hdisciplined := hall.disciplined
    rw [events_append, log, List.map_append] at hdisciplined
    rw [hnow.files] at hbytes
    obtain ⟨rest, hrest, hgain⟩ := hdisciplined.grows hbytes
    refine ⟨rest, ?_, fun hne => ?_⟩
    · rw [hall.files, events_append, log, List.map_append]
      exact hrest
    · obtain ⟨p, piece, howns, hmem⟩ := hgain hne
      exact ⟨p, piece, owns_iff.mp howns, appended_of_mem_log hmem⟩
  · intro p task bytes hmem
    refine (hall.wrote p task bytes ?_).2.1
    rw [events_append]
    exact List.mem_append_left _ hmem

end

/-- A launch of the grant's session with an image of two bytes. -/
def grantLaunchArgs : LaunchArgs :=
  ⟨grantInvocation.identity, true, [0x2f, 0x69], [0x2f, 0x71], some 2, some [1, 2]⟩

/-- The second of two launches reaches `execv`, after a short write and an interruption; it has
created `launch.used` before the first one tries to. -/
example :
    let files : Files.Dir (List Char) UInt8 := fun name =>
      if name = launchContext then some (grantLaunch.record .fixture) else none
    let answers : List Answer := [.done 0, .done 0, .done 0, .done 100, .interrupted, .done 100] ++
      List.replicate 7 (.done 0) ++ [.done 1, .done 1] ++ List.replicate 6 (.done 0)
    let out : List (ℕ × Event) :=
      events grantCrypto .fixture (fun _ => .launch grantLaunchArgs) (.opened files)
        ((0, .done 0) :: answers.map (Prod.mk 1) ++ List.replicate 2 (0, .done 0))
    (1, .exec) ∈ out ∧ ∀ r ∈ out, r.1 = 0 → r.2 = .quiet := by
  decide +kernel

end Operator
end Tcs
