import Proxinator.Lib.Run
import Proxinator.Lib.Buffer
import Proxinator.Lib.Rounding

/-!
# The measure transforms

The transforms of `measure`, as far as their timing goes, and the chain that combines them.
A transform keeps a chunk for a while before it calls back, and is given the next chunk only
then. What it calls back with comes out, except for empty chunks, which Node drops. A chain
writes every chunk into the first of its inner streams, and passes the same chunk on by itself;
what comes out of the last inner stream is discarded.

Times are in ms. `Chain.step` is what a chain does on an event; when an inner stream is given
its next chunk is up to Node, and so is when a timer fires, though not before it is due
(`Chain.Admits`).
-/

namespace Proxinator.Measure

open Lib

/-! ## The transforms -/

/-- A measure transform: how long it keeps a chunk of a length before it calls back. -/
structure Factory where
  delay : ℕ → ℚ

/-- `measure.speed`. -/
def speed : Factory := ⟨fun _ => 0⟩

/-- `measure.bandwidth`. -/
def bandwidth : Factory := ⟨fun _ => 0⟩

/-- Default throttle rate, in bytes per second. -/
def defaultRate : ℚ := 1024 * 1024

/-- `getRate()` of a throttle: `rateOptional || DEFAULT_RATE`. -/
def getRate (rateOptional : Option ℚ) : ℚ :=
  match rateOptional with
  | none => defaultRate
  | some rate => if rate = 0 then defaultRate else rate

/-- `measure.slowdown`: the delay of its timer, in doubles. -/
def slowdown (rateOptional : Option ℚ) : Factory :=
  ⟨fun length => toDouble (toDouble (length / getRate rateOptional) * 1000)⟩

/-- What comes out of chunks that a transform calls back with: none that is empty. -/
def pushed (chunks : List Bytes) : List Bytes := chunks.filter (· ≠ [])

/-- The chunks of a timed list that come out. -/
def filled (chunks : List (Bytes × ℚ)) : List (Bytes × ℚ) := chunks.filter (·.1 ≠ [])

/-- A transform stream at work. -/
structure Stream where
  factory : Factory
  /-- Chunks written into it that its `transform` has not been given. -/
  queue : List Bytes
  /-- The chunk it works on, and when its callback is due. -/
  current : Option (Bytes × ℚ)
  /-- The chunks it has called back with, and when. -/
  output : List (Bytes × ℚ)

namespace Stream

/-- A new stream. -/
def new (factory : Factory) : Stream := ⟨factory, [], none, []⟩

/-- A chunk is written into it. -/
def write (chunk : Bytes) (s : Stream) : Stream := { s with queue := s.queue ++ [chunk] }

/-- Its `transform` is given the next chunk, after the callback for the previous one. -/
def give (now : ℚ) (s : Stream) : Stream :=
  match s.current, s.queue with
  | none, chunk :: queue =>
    { s with queue := queue, current := some (chunk, now + s.factory.delay chunk.length) }
  | _, _ => s

/-- It calls back. -/
def callback (now : ℚ) (s : Stream) : Stream :=
  match s.current with
  | some (chunk, _) => { s with current := none, output := s.output ++ [(chunk, now)] }
  | none => s

/-- The chunks it has emitted, and when. -/
def emitted (s : Stream) : List (Bytes × ℚ) := filled s.output

end Stream

/-! ## The chain -/

/-- A chain: its inner streams, each piped into the next, and the outer transform. -/
structure Chain where
  now : ℚ
  streams : List Stream
  /-- Whether the consumer reads. -/
  flowing : Bool
  /-- Chunks written into the outer transform that its `transform` has not been given, -/
  queue : List Bytes
  /-- and those that it has. -/
  given : List Bytes
  /-- Chunks it has called back with that have not been read. -/
  readable : List Bytes
  /-- What was written into it, and when. -/
  written : List (Bytes × ℚ)
  /-- What it has emitted, and when. -/
  emitted : List (Bytes × ℚ)

/-- What happens to a chain. -/
inductive Event
  | write (chunk : Bytes)
  /-- The outer `transform` is given a chunk while the consumer does not read. -/
  | transform
  /-- The consumer begins to read. -/
  | flow
  | pause
  /-- An inner stream is given its next chunk. -/
  | give (i : ℕ)
  /-- An inner stream calls back. -/
  | callback (i : ℕ)
  deriving DecidableEq, Repr

namespace Chain

/-- `measure.chain`, at a time. -/
def new (now : ℚ) (array : List Factory) : Chain :=
  ⟨now, array.map Stream.new, false, [], [], [], [], []⟩

/-- `streams[0].write(buffer)`. -/
def writeFirst (streams : List Stream) (chunk : Bytes) : List Stream :=
  streams.modifyHead (Stream.write chunk)

/-- The outer `transform` is given its next chunk: it writes the chunk into the first inner
stream, and calls back with it. -/
def transform (s : Chain) : Chain :=
  match s.queue with
  | [] => s
  | chunk :: queue =>
    { s with
      streams := writeFirst s.streams chunk
      queue := queue
      given := s.given ++ [chunk]
      readable := s.readable ++ pushed [chunk] }

/-- The consumer reads all that there is. -/
def drain (s : Chain) : Chain :=
  { s with
    streams := s.queue.foldl writeFirst s.streams
    queue := []
    given := s.given ++ s.queue
    readable := []
    emitted := s.emitted ++ (s.readable ++ pushed s.queue).map fun chunk => (chunk, s.now) }

/-- A chunk is written. -/
def write (chunk : Bytes) (s : Chain) : Chain :=
  let s := { s with queue := s.queue ++ [chunk], written := s.written ++ [(chunk, s.now)] }
  if s.flowing then s.drain else s

/-- An inner stream calls back, and what comes out is piped into the next. -/
def callback (i : ℕ) (s : Chain) : Chain :=
  match s.streams[i]?.bind Stream.current with
  | none => s
  | some (chunk, _) =>
    let streams := s.streams.modify i (Stream.callback s.now)
    { s with
      streams := if chunk = [] then streams else streams.modify (i + 1) (Stream.write chunk) }

/-- What a chain does on an event. -/
def act (s : Chain) : Event → Chain
  | .write chunk => s.write chunk
  | .transform => if s.flowing then s else s.transform
  | .flow => { s with flowing := true }.drain
  | .pause => { s with flowing := false }
  | .give i => { s with streams := s.streams.modify i (Stream.give s.now) }
  | .callback i => s.callback i

/-- One step of a chain, at a time. -/
def step (s : Chain) (e : Event × ℚ) : Chain := { s with now := e.2 }.act e.1

/-- Time does not run backwards, and no timer fires before it is due. -/
def Admits (s : Chain) (e : Event × ℚ) : Prop :=
  s.now ≤ e.2 ∧
    ∀ i stream chunk due, e.1 = .callback i → s.streams[i]? = some stream →
      stream.current = some (chunk, due) → due ≤ e.2

end Chain

end Proxinator.Measure
