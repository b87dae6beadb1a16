import PackStream.Encoding.Script
import PackStream.Encoding.Sink
import PackStream.Value.Narrowing

/-!
# Encoders

An encoder walks through a value and writes each part to its sink as it comes to it. It remembers
its options, how many aggregates it stands in, how many bytes it has handed over in completed
writes, and the events it has reported. A call that fails leaves in the sink what was written before
the failure, and leaves every aggregate that it had entered.
-/

set_option autoImplicit false

namespace PackStream

/-- An encoder and the sink it writes to. -/
structure Encoder (σ : Type := Sink) where
  sink : σ
  options : Options := {}
  /-- How many aggregates it stands in. -/
  depth : Nat := 0
  /-- The total length of all completed writes. A counter of 64 bits counts the same below `2 ^ 64`
  bytes; what it does from there on is left out. -/
  written : Nat := 0
  /-- What has been reported, oldest first. -/
  events : Array Event := #[]

/-- An operation on an encoder over sinks of some type. -/
abbrev EncodeOn (σ : Type) := EStateM EncodeError (Encoder σ)

/-- An operation on an encoder over byte sinks. -/
abbrev EncodeM := EncodeOn Sink

namespace Encoder

variable {σ : Type}

/-- Reports an event. -/
def report (event : Event) : EncodeOn σ Unit
  | { sink, options, depth, written, events } =>
    .ok () { sink, options, depth, written, events := events.push event }

/-- Changes the sink behind the encoder's back. -/
def modifySink (f : σ → σ) : EncodeOn σ Unit
  | { sink, options, depth, written, events } =>
    .ok () { sink := f sink, options, depth, written, events }

/-- Enters an aggregate, unless it would be one too many. -/
def enter : EncodeOn σ Unit
  | { sink, options, depth, written, events } =>
    match Script.depthExceeded? options depth with
    | some limit =>
      .error (.nestingTooDeep limit) { sink, options, depth, written, events }
    | none => .ok () { sink, options, depth := depth + 1, written, events }

/-- Leaves an aggregate. -/
def leave : EncodeOn σ Unit
  | { sink, options, depth, written, events } =>
    .ok () { sink, options, depth := depth - 1, written, events }

/-- Carries out an operation inside one more aggregate, and leaves that however it ends. -/
def nested (body : EncodeOn σ Unit) : EncodeOn σ Unit := do
  enter
  try body finally leave

variable [Writer σ]

/-- Hands bytes to the sink. They count as written only if the sink takes all of them. -/
def write (bytes : Bytes) : EncodeOn σ Unit
  | { sink, options, depth, written, events } =>
    match Writer.writeAll bytes sink with
    | .ok _ sink =>
      .ok () { sink, options, depth, written := written + bytes.length, events }
    | .error reason sink =>
      .error (.sinkFailure reason) { sink, options, depth, written, events }

/-- Carries out one step. -/
def perform : Step → EncodeOn σ Unit
  | .write bytes => write bytes
  | .notice event => report event
  | .refuse error => throw error

/-- Carries out steps up to the first failure. -/
def performAll : List Step → EncodeOn σ Unit
  | [] => pure ()
  | step :: steps => do
    perform step
    performAll steps

/-- Carries out the script that `build` makes under the encoder's options. -/
def run (build : Options → Script → Script) : EncodeOn σ Unit := do
  performAll (build (← get).options #[]).toList

/-- Writes a null. -/
def encodeNull : EncodeOn σ Unit :=
  run fun _ script => script.write [Marker.nullByte]

/-- Writes a truth value. -/
def encodeBoolean (b : Bool) : EncodeOn σ Unit :=
  run fun _ script => script.write [if b then Marker.trueByte else Marker.falseByte]

/-- Writes an integer in the narrowest form that holds it. -/
def encodeInt (i : Int64) : EncodeOn σ Unit :=
  run fun _ script => script.integer i

/-- Writes an unsigned integer, or nothing if no value holds it. -/
def encodeUInt (n : UInt64) : EncodeOn σ Unit :=
  if n.toNat ≤ Value.maxInt then encodeInt (Int64.ofInt n.toNat)
  else throw (.overflow n.toNat)

/-- Writes a float. -/
def encodeFloat (x : Binary64) : EncodeOn σ Unit :=
  run fun _ script => script.float x

/-- Writes a string. -/
def encodeString (s : String) : EncodeOn σ Unit :=
  run fun options script => script.string options s

mutual

/-- Writes a value. -/
def encodeValue : Value → EncodeOn σ Unit
  | .null => encodeNull
  | .boolean b => encodeBoolean b
  | .integer i => encodeInt i
  | .float x => encodeFloat x
  | .string s => encodeString s
  | .list vs => do
    run fun options script => script.header options .list vs.length
    nested (encodeItems vs)
  | .dict es => do
    run fun options script => script.header options .dict es.length
    nested (encodeEntries es)
  | .struct signature vs => do
    run fun options script => script.structHeader options signature vs.length
    nested (encodeItems vs)

/-- Writes values one after the other. -/
def encodeItems : List Value → EncodeOn σ Unit
  | [] => pure ()
  | v :: vs => do
    encodeValue v
    encodeItems vs

/-- Writes entries one after the other, each key before its value. -/
def encodeEntries : List (String × Value) → EncodeOn σ Unit
  | [] => pure ()
  | (k, v) :: es => do
    encodeString k
    encodeValue v
    encodeEntries es

end

/-- Writes a list. -/
def encodeList (items : List Value) : EncodeOn σ Unit :=
  encodeValue (.list items)

/-- Writes a dictionary. -/
def encodeDict (d : Dict) : EncodeOn σ Unit :=
  encodeValue (.ofDict d)

/-- Writes a record as a structure. -/
def encodeRecord {α : Type} [Record α] (record : α) : EncodeOn σ Unit :=
  encodeValue (Structure.ofRecord record).toValue

/-- Writes a value and reports a failure as an event. -/
def encode (v : Value) : EncodeOn σ Unit := do
  let before := (← get).written
  tryCatch (encodeValue v) fun error => do
    report (.encodeAborted v.kind error.message ((← get).written - before))
    throw error

end Encoder

end PackStream
