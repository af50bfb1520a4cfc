import SwapCodec.Stream.Writer

/-!
# Reading bytes

A `Reader` holds the bytes that are still unread, and whether reading has been closed. A `Decoder`
takes bytes from the front. A decoder that fails may have taken bytes before: a word is taken
before its range is checked.

Peeking never changes the reader, a read that fails takes nothing, and a closed reader refuses
every peek and every read.
-/

set_option autoImplicit false

namespace SwapCodec

/-- The bytes still unread. -/
structure Reader where
  /-- The unread bytes, the next one first. -/
  rest : List UInt8
  /-- Reading has been closed. -/
  closed : Bool := false
  deriving DecidableEq, Repr

/-- A step that takes bytes or fails. -/
abbrev Decoder (α : Type) : Type := ExceptT Error (StateM Reader) α

namespace Reader

/-- Nothing is left to read. -/
def isEmpty (r : Reader) : Bool := r.rest.isEmpty

/-- How many bytes are left to read. -/
def remaining (r : Reader) : Nat := r.rest.length

/-- The next byte. -/
def peekByte (r : Reader) : Except Error UInt8 :=
  if r.closed then fail .readerClosed
  else match r.rest with
    | [] => fail .notEnoughBytes
    | b :: _ => .ok b

/-- The next `n` bytes, or fewer at the end unless the count is exact. -/
def peekBytes (r : Reader) (n : Int) (exact : Bool) : Except Error (List UInt8) :=
  if r.closed then fail .readerClosed
  else if n < 0 then fail .negativeCount
  else
    let chunk := r.rest.take n.toNat
    if exact && chunk.length < n.toNat then fail .notEnoughBytes else .ok chunk

/-- The reader behind its next `n` bytes. -/
def skip (r : Reader) (n : Nat) : Reader := { r with rest := r.rest.drop n }

end Reader

namespace Decoder

/-- Fails without taking anything. -/
def reject {α : Type} (e : Error) : Decoder α := fun r => (.error e.settled, r)

/-- Goes on with a result, or fails without taking anything. -/
def lift {α : Type} (x : Except Error α) : Decoder α := fun r => (x, r)

/-- Takes the next byte. -/
def byte : Decoder UInt8 := fun r =>
  match r.peekByte with
  | .ok b => (.ok b, r.skip 1)
  | .error e => (.error e, r)

/-- Takes the next `n` bytes, or fewer at the end unless the count is exact. -/
def bytes (n : Int) (exact : Bool) : Decoder (List UInt8) := fun r =>
  match r.peekBytes n exact with
  | .ok chunk => (.ok chunk, r.skip chunk.length)
  | .error e => (.error e, r)

/-- Takes all bytes that are left. -/
def all : Decoder (List UInt8) := fun r =>
  bytes r.remaining true r

/-- Closes the reader, which must have nothing left. -/
def close : Decoder Unit := fun r =>
  if r.closed then (.error .readerClosed, r)
  else if r.isEmpty then (.ok (), { r with closed := true })
  else (.error (.trailingData r.remaining), r)

/-- Takes an integer of the given width. -/
def word (s : Signedness) (w : Width) : Decoder Int := do
  let data ← bytes w.byteCount true
  lift (checkFits s w (wordOfBytes s data))

/-- Takes a truth value, one byte that is zero or one. -/
def bool : Decoder Bool := do
  let b ← byte
  if b = 0 then pure false
  else if b = 1 then pure true
  else reject (.badBoolean b)

/-- Takes an address. -/
def address : Decoder (List UInt8) := bytes addressSize true

/-- Takes `n` more elements; `done` holds the ones taken so far, the last one first. -/
def manyOnto {α : Type} (element : Decoder α) (done : List α) : Nat → Decoder (List α)
  | 0 => pure done.reverse
  | n + 1 => do
    let x ← element
    manyOnto element (x :: done) n

/-- Takes a count and then as many elements. -/
def array {α : Type} (element : Decoder α) : Decoder (List α) := do
  let count ← word .unsigned countWidth
  manyOnto element [] count.toNat

/-- Takes a value and then closes the reader. -/
def whole {α : Type} (d : Decoder α) : Decoder α := do
  let x ← d
  close
  pure x

/-- Runs a decoder on a byte string, of which it must take everything. -/
def run {α : Type} (d : Decoder α) (data : List UInt8) : Except Error α :=
  (whole d { rest := data }).1

end Decoder

end SwapCodec
