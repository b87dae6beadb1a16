import PackStream.Decoding.Error
import PackStream.Event

/-!
# Cursors

Reading moves a cursor over the bytes that are left. Every read of a fixed number of bytes is
preceded by `need`, which refuses short input; a read past the end, which `need` is there to
prevent, is kept apart from all refusals as a fault of the reader itself.
-/

set_option autoImplicit false

namespace PackStream

/-- A place in the input, with what has been seen on the way there. -/
structure Cursor where
  /-- The bytes that are left. -/
  rest : Bytes
  /-- How many values have been begun, nested ones included. -/
  begun : Nat := 0
  /-- What has been reported, oldest first. -/
  events : Array Event := #[]

/-- A mistake of the reader, as opposed to one of the input. -/
inductive ReaderFault where
  /-- More bytes were read than are left. -/
  | overrun
  /-- A payload was asked for an integer that has none. -/
  | noPayload
  /-- Values were nested deeper than there are bytes. -/
  | tooDeep
  deriving DecidableEq

/-- Why reading stops. -/
inductive Stop where
  | refused (error : DecodeError)
  | fault (fault : ReaderFault)
  deriving DecidableEq

/-- A reading operation. -/
abbrev Reader := EStateM Stop Cursor

namespace Reader

/-- Refuses the input. -/
def refuse {α : Type} (error : DecodeError) : Reader α :=
  throw (.refused error)

/-- Makes sure that `n` bytes are left. -/
def need (n : Nat) : Reader Unit := fun c =>
  if c.rest.hasAtLeast n then .ok () c
  else .error (.refused (.unexpectedEof n c.rest.length)) c

/-- Reads one byte. -/
def byte : Reader UInt8
  | { rest := [], begun, events } => .error (.fault .overrun) { rest := [], begun, events }
  | { rest := b :: rest, begun, events } => .ok b { rest, begun, events }

/-- Reads `n` bytes. -/
def take (n : Nat) : Reader Bytes
  | { rest, begun, events } =>
    if rest.hasAtLeast n then .ok (rest.take n) { rest := rest.drop n, begun, events }
    else .error (.fault .overrun) { rest, begun, events }

/-- Counts a value as begun. -/
def begin : Reader Unit
  | { rest, begun, events } => .ok () { rest, begun := begun + 1, events }

/-- Reports an event. -/
def report (event : Event) : Reader Unit
  | { rest, begun, events } => .ok () { rest, begun, events := events.push event }

/-- Reads `n` things and lists them after those in `done`, which are in reverse order. -/
def repeated {α : Type} (read : Reader α) : (n : Nat) → (done : List α) → Reader (List α)
  | 0, done => pure done.reverse
  | n + 1, done => do
    let a ← read
    repeated read n (a :: done)

end Reader

end PackStream
