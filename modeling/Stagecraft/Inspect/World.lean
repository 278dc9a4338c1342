import Stagecraft.Inspect.Value
import Stagecraft.Graph.Walk
import Stagecraft.Graph.Procedure
import Stagecraft.World.Prompts
import Stagecraft.World.Cast

/-!
# Showing programs, threads and worlds

What tools see of blocks, programs and procedures, of threads, actors and a whole world between
passes. A block is shown by its key in the program, or by its handle if it has none.
-/

namespace Stagecraft.Inspect

/-! ### Programs -/

/-- A handle. -/
def handle (h : Handle) : Json := .ofString h.text

/-- An input by its name. -/
def input (name : String) : Input → Json
  | .literal v => .array [.ofString name, .ofString "literal", value v]
  | .reporter h => .array [.ofString name, .ofString "reporter", handle h]
  | .branch h => .array [.ofString name, .ofString "branch", handle h]

/-- A signature. -/
def signature (s : Signature) : Json :=
  .ofMembers [("proccode", .ofString s.code), ("ids", texts s.argumentIds),
    ("names", texts s.argumentNames), ("defaults", texts s.argumentDefaults),
    ("warp", .flag s.warp)]

/-- A block. -/
def block (b : Block) : Json :=
  .ofMembers [("id", handle b.handle), ("key", .ofString b.key),
    ("opcode", .ofString b.opcode.name),
    ("inputs", .array (b.inputs.entries.map fun e => input e.1 e.2)),
    ("fields", .array (b.fields.entries.map fun e =>
      .array [.ofString e.1, .ofString e.2.value, orNull Json.ofString e.2.id])),
    ("mutation", orNull signature b.signature), ("next", orNull handle b.next),
    ("parent", orNull handle b.parent), ("shadow", .flag b.shadow), ("top", .flag b.topLevel),
    ("x", double b.x), ("y", double b.y)]

/-- A program. -/
def graph (g : Graph) : Json :=
  .ofMembers [("len", .ofNat g.size), ("empty", .flag (g.size == 0)),
    ("scripts", .array (g.scripts.map handle)), ("blocks", .array (g.blocks.map block))]

/-- The arguments of a procedure. -/
def parameters (p : Parameters) : Json :=
  .ofMembers [("ids", texts p.ids), ("names", texts p.names), ("defaults", texts p.defaults),
    ("warp", .flag p.warp)]

/-- A procedure of a program. -/
def procedure (g : Graph) (code : String) : Json :=
  .ofMembers [("definition", orNull handle (g.definition? code)),
    ("params", orNull parameters (g.parameters? code))]

/-- What look-ups give for a handle, live or not. -/
def lookups (g : Graph) (h : Handle) : Json :=
  let b := g.get? h
  .ofMembers [("id", handle h), ("index", .ofNat h.index), ("generation", .ofNat h.generation),
    ("contains", .flag (g.contains h)), ("key", orNull Json.ofString (g.keyOf? h)),
    ("next", orNull handle (g.next? h)),
    ("opcode", orNull (fun op => .ofString (Opcode.name op)) (g.opcode? h)),
    ("inputs", orNull (fun (b : Block) => .ofNat b.inputs.size) b),
    ("mutation", orNull (fun (s : Signature) => .ofString s.code) (b.bind (·.signature))),
    ("top", orNull handle (g.topBlock? h)),
    ("prototype", orNull (fun (b : Block) => handle b.handle) (g.prototype? h)),
    ("input_blocks", orNull (fun (b : Block) => .array (b.inputBlocks.map handle)) b),
    ("branches", .array ((List.range 4).map fun n => orNull handle (g.branch? h n)))]

/-! ### Threads -/

/-- A block of a program that may be gone. -/
def key (g : Option Graph) (h : Handle) : Json :=
  match g.bind (·.keyOf? h) with
  | some key => .ofString key
  | none => handle h

/-- A status. -/
def status : Status → Json
  | .running => .ofString "running"
  | .yielded => .ofString "yield"
  | .yieldedTick => .ofString "yield_tick"
  | .parked => .ofString "promise_wait"
  | .done => .ofString "done"

/-- What a frame keeps. -/
def progress : Progress → Json
  | .fresh => .ofString "fresh"
  | .called => .ofString "called"
  | .counting n => .ofMembers [("repeat", .ofString (toString n))]
  | .timing started duration => .ofMembers [("started", wide started), ("duration", wide duration)]
  | .awaiting threads => .ofMembers [("wait", ids threads)]

/-- A frame; what its reporters gave is sorted by handle. -/
def frame (g : Option Graph) (f : Frame) : Json :=
  let reported := f.reported.entries.mergeSort fun a b => a.1.before b.1
  .ofMembers [("block", key g f.block), ("loop", .flag f.isLoop), ("warp", .flag f.warp),
    ("params", orNull (fun (t : Table String Value) => bindings t.entries) f.arguments),
    ("reported", .array (reported.map fun e => .array [key g e.1, value e.2])),
    ("state", progress f.progress)]

/-- What a thread is parked on. -/
def pending (g : Option Graph) (p : Pending) : Json :=
  match p.slot with
  | .command => .ofString "command"
  | .reporter h => .ofMembers [("reporter", key g h)]

/-- A thread with all its frames. -/
def thread (g : Graph) (t : Thread) : Json :=
  let g := some g
  .ofMembers [("id", .ofNat t.id), ("target", .ofNat t.actor), ("top", orNull (key g) t.top),
    ("status", status t.status), ("frames", .array (t.stack.reverse.map (frame g))),
    ("stack", .array (t.stackBlocks.map (key g))), ("pending", orNull (pending g) t.pending),
    ("reported", orNull value t.reported), ("restart", .flag t.restarting),
    ("warp_timer", .flag t.warpSince.isSome), ("at_top", .flag t.atBottom),
    ("done", .flag t.isDone)]

/-! ### Worlds -/

variable {σ : Type}

/-- A thread of a world with its top frame. -/
def worldThread (w : World σ) (t : Thread) : Json :=
  let g := w.graph? t.actor
  .ofMembers [("id", .ofNat t.id), ("target", .ofNat t.actor), ("status", status t.status),
    ("top", orNull (key g) t.top), ("stack", .array (t.stackBlocks.map (key g))),
    ("frame", orNull (frame g) t.topFrame?), ("pending", orNull (pending g) t.pending),
    ("click", .flag t.clicked), ("reported", orNull value t.reported)]

/-- An actor. -/
def actor (a : Actor) : Json :=
  .ofMembers [("id", .ofNat a.id), ("sprite", .ofNat a.sprite), ("name", .ofString a.name),
    ("kind", .ofString a.kindName), ("x", double a.x), ("y", double a.y),
    ("visible", .flag a.visible), ("say", orNull Json.ofString a.bubble),
    ("vars", .array (a.vars.values.map slot))]

/-- Counters of a pass. -/
def stats (s : Stats) : Json :=
  .array [.ofNat s.passes, .ofNat s.rounds, .ofNat s.blocksExecuted, .ofNat s.threadsFinished,
    .flag s.budgetExhausted]

/-- A sprite. -/
def sprite (s : Sprite) : Json :=
  .array [.ofString s.name, .ofNat s.lead, ids s.clones, .ofNat s.graph.size]

/-- A world. -/
def world (w : World σ) : Json :=
  .ofMembers [("threads", .array (w.threads.map (worldThread w))),
    ("targets", .array (w.actors.values.map actor)), ("clones", .ofNat w.cloneCount),
    ("events", .array (w.events.events.map event)),
    ("question", orNull Json.ofString w.pendingQuestion?), ("answer", .ofString w.answer),
    ("redraw", .flag w.redraw), ("stats", orNull stats w.stats?),
    ("queued", .ofNat w.cloud.outbox.length)]

end Stagecraft.Inspect
