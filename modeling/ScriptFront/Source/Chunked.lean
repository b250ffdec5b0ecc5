import ScriptFront.Source.Buffer

/-!
# Texts that arrive in chunks

A `Chunked` source keeps one chunk of a text that a `Reader` delivers. A question about a byte
outside the chunk loads another one. The length of the text becomes known when a load comes
back short, and a load that fails makes the text end where that load starts.

- `Reader.read`: what a load of some bytes from some offset delivers.
- `Chunked.load`: replace the chunk.
- `Chunked.byteAt`: the byte at an address, loaded where needed; the chunk then reaches from the
  current byte on, so a short look ahead keeps the current byte at hand.
- `Chunked.slide`: search forward chunk by chunk, each byte loaded once.
-/

namespace ScriptFront

/-- Why a load delivered nothing, in the words of the system. -/
structure ReadFailure where
  message : String
deriving DecidableEq, Repr

/-- What is said of a load where nothing else is known. -/
def ReadFailure.unreadable : ReadFailure := ⟨"read failed"⟩

/-- A text that can be read from any offset, perhaps only up to a bad one. -/
structure Reader where
  content : Bytes
  /-- Bytes from this offset on cannot be looked at. -/
  failsAt : Option Nat := none
  /-- What a load of `want` bytes from `start` on fails with, if it fails. -/
  failure (start want : Nat) : ReadFailure := .unreadable

namespace Reader

/-- Whether reading `want` bytes from `start` on has to look at the bad offset or beyond it. The
end of the text is noticed without looking there only if it comes before the bad offset. -/
def fails (r : Reader) (start want : Nat) : Bool :=
  match r.failsAt with
  | none => false
  | some bad => bad ≤ start || (bad < start + want && bad ≤ r.content.size)

/-- Up to `want` bytes from `start` on; fewer only at the end of the text. -/
def read (r : Reader) (start want : Nat) : Except ReadFailure Bytes :=
  if r.fails start want then .error (r.failure start want)
  else .ok (r.content.extract start (start + want))

end Reader

/-- A text of which one chunk is at hand. -/
structure Chunked where
  name : String
  reader : Reader
  chunkSize : Nat
  chunk : Bytes
  chunkStart : Nat
  position : Nat
  /-- The length of the text, once it is known. -/
  length? : Option Nat
  /-- The first failure of a load that nobody has taken yet. -/
  failure? : Option ReadFailure

namespace Chunked

/-- The size of a chunk where none is asked for. -/
def defaultChunkSize : Nat := 4096

/-- Start to read; a chunk holds at least one byte. -/
def ofReader (reader : Reader) (name : String := anonymousName)
    (chunkSize : Nat := defaultChunkSize) : Chunked where
  name
  reader
  chunkSize := max chunkSize 1
  chunk := #[]
  chunkStart := 0
  position := 0
  length? := none
  failure? := none

/-- The byte at an address, if the chunk holds it. -/
def resident (c : Chunked) (address : Nat) : Option UInt8 :=
  if c.chunkStart ≤ address then c.chunk[address - c.chunkStart]? else none

/-- Whether an address is known to lie past the text. -/
def isPast (c : Chunked) (address : Nat) : Bool :=
  match c.length? with
  | some length => length ≤ address
  | none => false

/-- How many bytes a load from `start` asks for so that it holds the byte at `needed`. The count
is an address too and wraps at the address limit. -/
def wanted (c : Chunked) (start needed : Nat) : Nat :=
  max c.chunkSize ((needed - start + 1) % addressLimit)

/-- Replace the chunk by one from `start` on that holds the byte at `needed`, if there is one. -/
def load (c : Chunked) (start needed : Nat) : Chunked :=
  let want := c.wanted start needed
  match c.reader.read start want with
  | .ok bytes =>
    { c with
      chunk := bytes
      chunkStart := start
      length? := if bytes.size < want then some (start + bytes.size) else c.length? }
  | .error failure =>
    { c with
      chunk := #[]
      chunkStart := start
      length? := some start
      failure? := c.failure?.or (some failure) }

/-- The byte at an address, loaded if it is not at hand. -/
def byteAt (address : Nat) : StateM Chunked (Option UInt8) := fun c =>
  match c.resident address with
  | some byte => (some byte, c)
  | none =>
    if c.isPast address then (none, c)
    else
      let c := c.load (min c.position address) address
      (c.resident address, c)

/-- The byte `ahead` of the current one; none if that is no address. -/
def byteAhead (ahead : Nat) : StateM Chunked (Option UInt8) := do
  let address := (← get).position + ahead
  if address < addressLimit then byteAt address else return none

/-- The part of the chunk from an address on. -/
def window (c : Chunked) (address : Nat) : Bytes :=
  if c.chunkStart ≤ address then c.chunk.extract (address - c.chunkStart) c.chunk.size else #[]

/-- Search for a byte in what is at hand from `address` on, and with `further` behind it. -/
def searchWindow (needle : UInt8) (further : Nat → StateM Chunked (Option Nat)) (address : Nat) :
    StateM Chunked (Option Nat) := do
  let c ← get
  let window := c.window address
  if window.isEmpty then return none
  match window.idxOf? needle with
  | some found => return some (address + found - c.position)
  | none => further (address + window.size)

/-- Search for a byte from `address` on, chunk by chunk. A step leaves at least one byte behind,
so as many steps as there are bytes, and one to meet the end, are enough. -/
def slide (needle : UInt8) : (steps address : Nat) → StateM Chunked (Option Nat)
  | 0, _ => return none
  | steps + 1, address => do
    let c ← get
    if (c.resident address).isSome then searchWindow needle (slide needle steps) address
    else if c.isPast address then return none
    else
      set (c.load address address)
      searchWindow needle (slide needle steps) address

/-- Hand out the first failure of a load, once. -/
def takeFailure : StateM Chunked (Option ReadFailure) :=
  modifyGet fun c => (c.failure?, { c with failure? := none })

instance : ByteAccess Chunked where
  name := name
  position := position
  extent c := c.reader.content.size
  read ahead := return (← byteAhead ahead).getD endByte
  has ahead := return (← byteAhead ahead).isSome
  advance := do
    if (← byteAhead 0).isSome then modify fun c => { c with position := c.position + 1 }
  reset target := modify fun c =>
    { c with position := match c.length? with
        | some length => min target length
        | none => target }

instance : ByteSource Chunked where
  find needle := do
    let c ← get
    slide needle (c.reader.content.size + 2) c.position
  skip := ByteAccess.skipStepwise

end Chunked

end ScriptFront
