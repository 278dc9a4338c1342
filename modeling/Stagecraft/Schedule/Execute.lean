import Stagecraft.Primitive.Run

/-!
# Executing a block

Executing a block evaluates its inputs and runs its primitive. Literals stand for themselves,
reporters are evaluated first, and stacks are skipped. What a reporter gave is remembered on the
executing frame, so that a block that is executed again after a later result came does not evaluate
its other inputs twice.

The recursion into reporters is bounded by the room that is left under the limit.
-/

namespace Stagecraft

/-- The result of evaluating something. -/
inductive Evaluation (α : Type) where
  /-- It has a value. -/
  | value (a : α)
  /-- The thread was parked on the way. -/
  | parked
  /-- A reporter failed. -/
  | failed (fault : Fault)

namespace Scene

variable {σ : Type}

/-- Park the thread on a channel. -/
def park (s : Scene σ) (channel : Nat) (slot : Slotting) : Scene σ :=
  { s with thread := { s.thread with pending := some ⟨channel, slot⟩, status := .parked } }

/-- What a frame remembers of a reporter. -/
def remembered? (s : Scene σ) (frame : Nat) (h : Handle) : Option Value :=
  (s.thread.frameAt? frame).bind (·.reported.get? h)

/-- Let a frame remember what a reporter gave. -/
def remember (s : Scene σ) (frame : Nat) (h : Handle) (v : Value) : Scene σ :=
  { s with thread := s.thread.modifyFrame frame fun f =>
      { f with reported := f.reported.insert h v } }

/-- Let a frame forget what its reporters gave. -/
def forget (s : Scene σ) (frame : Nat) : Scene σ :=
  { s with thread := s.thread.modifyFrame frame fun f => { f with reported := .empty } }

/-! ### Inputs -/

/-- Evaluate inputs in order, with `report` for the reporters among them. -/
def gather (report : Handle → Scene σ → Scene σ × Evaluation Value) :
    List (String × Input) → List (String × Value) → Scene σ → Scene σ × Evaluation Args
  | [], done, s => (s, .value ⟨done.reverse⟩)
  | (name, .literal v) :: rest, done, s => gather report rest ((name, v) :: done) s
  | (_, .branch _) :: rest, done, s => gather report rest done s
  | (name, .reporter h) :: rest, done, s =>
    match report h s with
    | (s, .value v) => gather report rest ((name, v) :: done) s
    | (s, .parked) => (s, .parked)
    | (s, .failed fault) => (s, .failed fault)

/-- Run the primitive of a reporter and settle its value. -/
def settle (ext : Extensions σ) (site : Site) (h : Handle) (op : Opcode) :
    Scene σ × Evaluation Args → Scene σ × Evaluation Value
  | (s, .parked) => (s, .parked)
  | (s, .failed fault) => (s, .failed fault)
  | (s, .value args) =>
    match Primitive.run ext op { site with block := h } args s with
    | (s, .value v) => (s.remember site.frame h v, .value v)
    | (s, .done) => (s, .value .blank)
    | (s, .deferred channel) => (s.park channel (.reporter h), .parked)
    | (s, .failed fault) => (s, .failed fault)

/-- Evaluate a reporter, with room for so many more levels of nesting. -/
def report (ext : Extensions σ) (site : Site) : Nat → Handle → Scene σ → Scene σ × Evaluation Value
  | room, h, s =>
    match s.remembered? site.frame h with
    | some v => (s, .value v)
    | none =>
      match site.graph.get? h with
      | none => (s, .value .blank)
      | some b =>
        if b.opcode.isMenu then (s, .value b.menuValue)
        else match room with
          | 0 => (s, .failed (.tooDeep site.scheduler.maxReporterDepth))
          | room + 1 =>
            settle ext site h b.opcode (gather (report ext site room) b.inputs.entries [] s)

/-! ### Blocks -/

/-- What the outcome of a command does: a later result parks the thread, and everything else lets
the frame forget its reporters. A value counts if the block is the one that the thread started
from. -/
def finish (site : Site) : Scene σ × Outcome → Scene σ × Option Fault
  | (s, .deferred channel) => (s.park channel .command, none)
  | (s, .done) => (s.forget site.frame, none)
  | (s, .failed fault) => (s.forget site.frame, some fault)
  | (s, .value v) =>
    let s := s.forget site.frame
    if s.thread.top = some site.block then
      ({ s with thread := { s.thread with reported := some v } }, none)
    else (s, none)

/-- Execute the top block of a thread; a block that is gone is skipped. -/
def execute (ext : Extensions σ) (scheduler : Scheduler) (g : Graph) (s : Scene σ) :
    Scene σ × Option Fault :=
  match s.thread.topBlock? with
  | none => (s, none)
  | some h =>
    match g.get? h with
    | none => (s, none)
    | some b =>
      let site : Site := ⟨scheduler, g, h, s.thread.depth - 1⟩
      match gather (report ext site scheduler.maxReporterDepth) b.inputs.entries [] s with
      | (s, .value args) => finish site (Primitive.run ext b.opcode site args s)
      | (s, .parked) => (s, none)
      | (s, .failed fault) => (s, some fault)

end Scene

end Stagecraft
