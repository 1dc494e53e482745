/-
# Messages and protected calls

Servers of a microkernel that call each other. A party has message
registers; a message is a label, a word count and the registers of the party
that holds it. A call copies the counted words and nothing else, in both
directions: what the other registers of the receiver hold is left open
(`Message.deliver`), so a server that reads past the count reads an
arbitrary word.

A server is a function of its state and of the message it is called with
(`Peer`). A call blocks the caller, so a nested call is the composition of
functions, and a server's own handler takes the servers it calls as peers.

Key definitions: `Message`, `Message.deliver`, `Message.view`, `Peer`,
`ppcall`, `logged`, `Keeps`, `Counted`.
Key theorems: `Message.deliver_mr`, `Message.deliver_view`, `Keeps.ppcall`,
`counted_ppcall`.
-/
import Mathlib.Logic.Function.Basic
import Mathlib.Tactic

namespace Ipc

/-- The message registers of a party. -/
abbrev Registers := ℕ → UInt64

/-- `microkit_mr_set`. -/
def Registers.set (mr : Registers) (i : ℕ) (w : UInt64) : Registers := Function.update mr i w

theorem Registers.set_apply (mr : Registers) (i j : ℕ) (w : UInt64) :
    mr.set i w j = if j = i then w else mr j := by
  simp [Registers.set, Function.update_apply]

/-- A message as the party sees it that sends or receives it. -/
structure Message where
  label : UInt64
  count : ℕ
  mr : Registers

/-- The message at its receiver, whose registers held `noise`. -/
def Message.deliver (m : Message) (noise : Registers) : Message :=
  ⟨m.label, m.count, fun i => if i < m.count then m.mr i else noise i⟩

@[simp] theorem Message.deliver_label (m : Message) (noise : Registers) :
    (m.deliver noise).label = m.label := rfl

@[simp] theorem Message.deliver_count (m : Message) (noise : Registers) :
    (m.deliver noise).count = m.count := rfl

theorem Message.deliver_mr {m : Message} (noise : Registers) {i : ℕ} (h : i < m.count) :
    (m.deliver noise).mr i = m.mr i := if_pos h

/-- What a message carries: its label and its counted words. -/
def Message.view (m : Message) : UInt64 × List UInt64 := (m.label, (List.range m.count).map m.mr)

@[simp] theorem Message.deliver_view (m : Message) (noise : Registers) :
    (m.deliver noise).view = m.view := by
  refine Prod.ext rfl (List.map_congr_left fun i hi => ?_)
  exact Message.deliver_mr noise (List.mem_range.mp hi)

theorem Message.view_count {m m' : Message} (h : m.view = m'.view) : m.count = m'.count := by
  have := congrArg (fun v => v.2.length) h
  simpa [Message.view] using this

theorem Message.view_mr {m m' : Message} (h : m.view = m'.view) {i : ℕ} (hi : i < m.count) :
    m.mr i = m'.mr i := by
  have hlist : (List.range m.count).map m.mr = (List.range m.count).map m'.mr := by
    have := congrArg Prod.snd h
    rwa [Message.view, Message.view, ← Message.view_count h] at this
  exact List.map_inj_left.mp hlist i (List.mem_range.mpr hi)

/-- A server: what it answers to a message, and the state it is left in. -/
abbrev Peer (σ : Type*) := σ → Message → Message × σ

/-- What the registers of the two parties hold beyond the words of a call and of its reply. -/
structure Noise where
  callee : Registers
  caller : Registers

/-- A protected call: the reply as the caller receives it. -/
def ppcall {σ : Type*} (noise : Noise) (server : Peer σ) : Peer σ := fun s m =>
  let out := server s (m.deliver noise.callee)
  (out.1.deliver noise.caller, out.2)

theorem ppcall_eq {σ : Type*} (noise : Noise) (server : Peer σ) (s : σ) (m : Message) :
    ppcall noise server s m = ((server s (m.deliver noise.callee)).1.deliver noise.caller,
      (server s (m.deliver noise.callee)).2) := rfl

/-- The server, and a record of the messages that reach it. -/
def logged {σ : Type*} (server : Peer σ) : Peer (σ × List Message) := fun s m =>
  let out := server s.1 m
  (out.1, out.2, s.2 ++ [m])

/-- No message changes what `f` reads of the server's state. -/
def Keeps {σ α : Type*} (f : σ → α) (server : Peer σ) : Prop := ∀ s m, f (server s m).2 = f s

theorem Keeps.ppcall {σ α : Type*} {f : σ → α} {server : Peer σ} (h : Keeps f server)
    (noise : Noise) : Keeps f (ppcall noise server) := fun s m => h s (m.deliver noise.callee)

theorem Message.deliver_congr {m m' : Message} (h : m.view = m'.view) (noise : Registers) :
    m.deliver noise = m'.deliver noise := by
  have hcount := Message.view_count h
  have hlabel : m.label = m'.label := congrArg Prod.fst h
  unfold Message.deliver
  rw [hlabel, hcount]
  congr 1
  funext i
  by_cases hi : i < m'.count
  · rw [if_pos hi, if_pos hi, Message.view_mr h (hcount ▸ hi)]
  · rw [if_neg hi, if_neg hi]

/-- The server depends on what a message carries, and on nothing else. -/
def Counted {σ : Type*} (server : Peer σ) : Prop :=
  ∀ s m m', m.view = m'.view → server s m = server s m'

theorem counted_ppcall {σ : Type*} (noise : Noise) (server : Peer σ) :
    Counted (ppcall noise server) := by
  intro s m m' h
  rw [ppcall_eq, ppcall_eq, Message.deliver_congr h]

/-- A server that answers with a given message, whatever it is asked. -/
def answering {σ : Type*} (reply : Message) : Peer σ := fun s _ => (reply, s)

end Ipc
