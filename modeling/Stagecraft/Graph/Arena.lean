import Stagecraft.Graph.Block

/-!
# The arena of a program

A `Graph` holds the blocks of one program in numbered slots. Freeing a slot raises its generation,
so handles to what was in it go stale for good. A key can be reserved before its block exists; a
reference to a block that comes later, or never, then has a handle already. The index of procedures
is dropped by every edit and filled in by `Graph.indexed`.
-/

namespace Stagecraft

/-- A place of the arena. -/
structure Slot where
  /-- How often the slot was freed, counted in 32 bits. -/
  generation : Nat
  /-- The key of the block that is or will be here. -/
  key : Option String
  /-- The block, once it is here. -/
  block : Option Block
deriving DecidableEq

/-- The slot once its block was taken out: it loses its key and gets a new generation. -/
def Slot.freed (s : Slot) : Slot := ⟨(s.generation + 1) % UInt32.size, none, none⟩

/-- The blocks of one program. -/
structure Graph where
  /-- The slots, in the order in which they were first used. -/
  slots : Array Slot
  /-- Slots that can be used again, the one freed last first. -/
  free : List Nat
  /-- The handle of every key in use. -/
  keys : Table String Handle
  /-- The definition of every procedure, when it has been worked out since the last edit. -/
  procedures : Option (Table String Handle)
  /-- The number of live blocks. -/
  size : Nat
deriving DecidableEq

namespace Graph

/-- The program without blocks. -/
def empty : Graph := ⟨#[], [], .empty, none, 0⟩

instance : Inhabited Graph := ⟨empty⟩

/-! ### Looking up -/

/-- The slot of a handle, unless the handle is stale. -/
def slot? (g : Graph) (h : Handle) : Option Slot :=
  match g.slots[h.index]? with
  | some s => if s.generation = h.generation then some s else none
  | none => none

/-- The block of a handle; nothing for a stale handle and for a key that is only reserved. -/
def get? (g : Graph) (h : Handle) : Option Block := (g.slot? h).bind (·.block)

/-- Whether a handle refers to a live block. -/
def contains (g : Graph) (h : Handle) : Bool := (g.get? h).isSome

/-- The handle of a key, reserved keys included. -/
def handleOf? (g : Graph) (key : String) : Option Handle := g.keys.get? key

/-- The key of a handle, reserved keys included. -/
def keyOf? (g : Graph) (h : Handle) : Option String := (g.slot? h).bind (·.key)

/-- The block to run after another. -/
def next? (g : Graph) (h : Handle) : Option Handle := (g.get? h).bind (·.next)

/-- The operation of a block. -/
def opcode? (g : Graph) (h : Handle) : Option Opcode := (g.get? h).map (·.opcode)

/-- The live blocks in slot order. -/
def blocks (g : Graph) : List Block := g.slots.toList.filterMap (·.block)

/-- The blocks that start scripts, in slot order. -/
def scripts (g : Graph) : List Handle :=
  (g.blocks.filter (·.topLevel)).map (·.handle)

/-! ### Slots -/

/-- Change a slot. -/
def modifySlot (g : Graph) (i : Nat) (f : Slot → Slot) : Graph :=
  { g with slots := g.slots.modify i f }

/-- The generation of a slot; zero for a slot that was never used. -/
def generationAt (g : Graph) (i : Nat) : Nat :=
  match g.slots[i]? with
  | some s => s.generation
  | none => 0

/-- Give a new key a slot: the one freed last, or a new one. -/
def allocate (g : Graph) (key : String) : Graph × Handle :=
  match g.free with
  | i :: free =>
    let h : Handle := ⟨i, g.generationAt i⟩
    ({ g.modifySlot i fun s => { s with key := some key } with
        free := free
        keys := g.keys.insert key h }, h)
  | [] =>
    let h : Handle := ⟨g.slots.size, 0⟩
    ({ g with slots := g.slots.push ⟨0, some key, none⟩, keys := g.keys.insert key h }, h)

/-- The handle of a key; a new key gets a slot without a block. -/
def reserve (g : Graph) (key : String) : Graph × Handle :=
  match g.handleOf? key with
  | some h => (g, h)
  | none => g.allocate key

/-- Put a block into the slot of a handle. -/
def fill (g : Graph) (h : Handle) (b : Block) : Graph :=
  { g.modifySlot h.index fun s => { s with block := some { b with handle := h } } with
    size := g.size + 1
    procedures := none }

/-- Insert a block and give its handle. A block whose key is in use is not inserted again; the
handle is that of the block that is there. -/
def create (g : Graph) (b : Block) : Graph × Handle :=
  match g.handleOf? b.key with
  | some h => if g.contains h then (g, h) else (g.fill h b, h)
  | none =>
    let (g, h) := g.allocate b.key
    (g.fill h b, h)

/-- Change a live block; a stale handle changes no block. -/
def modify (g : Graph) (h : Handle) (f : Block → Block) : Graph :=
  let g := { g with procedures := none }
  match g.slot? h with
  | some _ => g.modifySlot h.index fun s => { s with block := s.block.map f }
  | none => g

/-- Take a block out of its slot, which can then be used again. -/
def vacate (g : Graph) (h : Handle) : Option (Graph × Block) :=
  match g.slot? h with
  | some s =>
    match s.block with
    | some b =>
      let keys := match s.key with
        | some key => g.keys.erase key
        | none => g.keys
      some ({ g.modifySlot h.index Slot.freed with
              free := h.index :: g.free
              keys := keys
              size := g.size - 1 }, b)
    | none => none
  | none => none

end Graph

end Stagecraft
