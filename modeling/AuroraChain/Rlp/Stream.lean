import Mathlib
/-!
# The RLP input stream: `rlp/decode.go`

`Stream` reads RLP values from a byte reader. `Kind` reads the header of the value ahead and
caches its kind, its size and the error found in it; the reading methods (`Bytes`, `uint`, `List`,
`ListEnd`) consume the value and rearm `Kind`. Inside a list, every read is charged to the list's
position, and a value larger than what is left of its list, or of the input, is an error.

A method is a state transformer that may fail: `EStateM RlpError Stream`. The state is the
stream's fields as Go mutates them, and a failure keeps the state the method left, as Go's
stream does after it returns an error; the decoders that go on after an error (at the end of a
list) read it. The reader is a `bytes.Reader`, modelled by the bytes it has not yet returned, and
the stack of open lists has its innermost list first.
-/

namespace AuroraChain.Rlp

/-- `decodeError`: its message, the type it was found in as `%v` prints it, and its context, one
entry per enclosing element or field with the innermost first, as `addErrorContext` appends them. -/
structure DecodeError where
  msg : String
  typ : String
  ctx : List String
  deriving DecidableEq, Repr

/-- `(*decodeError).Error`: the context is printed outermost first. -/
def DecodeError.error (err : DecodeError) : String :=
  let ctx := if err.ctx = [] then "" else ", decoding into " ++ String.join err.ctx.reverse
  "rlp: " ++ err.msg ++ " for " ++ err.typ ++ ctx

/-- The errors of the package. -/
inductive RlpError where
  | eol
  | expectedString
  | expectedList
  | canonInt
  | canonSize
  | elemTooLarge
  | valueTooLarge
  | moreThanOneValue
  | notInList
  | notAtEOL
  | uintOverflow
  | eof
  | unexpectedEOF
  | invalidBoolean (num : Nat)
  | decodeError (err : DecodeError)
  /-- The model's bound on the iterations of a slice loop ran out; Go's loop has none. -/
  | outOfFuel
  deriving DecidableEq, Repr

inductive Kind where
  | byte
  | string
  | list
  deriving DecidableEq, Repr

/-- `listpos`: how much of an open list has been read, and its size. -/
structure ListPos where
  pos : Nat
  size : Nat
  deriving DecidableEq, Repr

/-- `Stream`, reading from a `bytes.Reader` whose unread bytes are `r`. `kindAhead` is the field
`kind`, renamed apart from the method `Kind`; it is `none` where Go has `-1`. -/
structure Stream where
  r : List UInt8
  remaining : Nat
  limited : Bool
  kindAhead : Option Kind
  size : Nat
  byteval : UInt8
  kinderr : Option RlpError
  stack : List ListPos
  deriving DecidableEq, Repr

/-- A method of `Stream`. -/
abbrev Dec (α : Type) := EStateM RlpError Stream α

/-- `NewStream(bytes.NewReader(b), inputLimit)`: a reader over a byte slice is always limited, by
`inputLimit` if it is set and else by the slice's length. -/
def newStream (b : List UInt8) (inputLimit : Nat) : Stream where
  r := b
  remaining := if inputLimit > 0 then inputLimit else b.length
  limited := true
  kindAhead := none
  size := 0
  byteval := 0
  kinderr := none
  stack := []

/-- `wrapStreamError` for a value of the type `typ`. -/
def wrapStreamError (typ : String) : RlpError → RlpError
  | .canonInt => .decodeError ⟨"non-canonical integer (leading zero bytes)", typ, []⟩
  | .canonSize => .decodeError ⟨"non-canonical size information", typ, []⟩
  | .expectedList => .decodeError ⟨"expected input list", typ, []⟩
  | .expectedString => .decodeError ⟨"expected input string or byte", typ, []⟩
  | .uintOverflow => .decodeError ⟨"input string too long", typ, []⟩
  | .notAtEOL => .decodeError ⟨"input list has too many elements", typ, []⟩
  | e => e

/-- `addErrorContext`: only a `decodeError` takes the context. -/
def addErrorContext (ctx : String) : RlpError → RlpError
  | .decodeError err => .decodeError { err with ctx := err.ctx ++ [ctx] }
  | e => e

/-- A method whose error is passed through `wrapStreamError`. -/
def wrapped {α : Type} (typ : String) (x : Dec α) : Dec α := fun s =>
  match x s with
  | .error e s => .error (wrapStreamError typ e) s
  | .ok a s => .ok a s

/-- The number a big-endian byte string denotes (`binary.BigEndian.Uint64` on the zero-padded
buffer, and `big.Int.SetBytes`). -/
def bigEndian (b : List UInt8) : Nat := b.foldl (fun acc x => acc * 256 + x.toNat) 0

namespace Stream

/-- `willRead(n)`: rearms `Kind`, and charges `n` bytes to the innermost list and to the input
limit. -/
def willRead (n : Nat) : Dec Unit := do
  modify fun s => { s with kindAhead := none }
  let s ← get
  match s.stack with
  | [] => pure ()
  | tos :: rest =>
      if n > tos.size - tos.pos then throw .elemTooLarge
      set { s with stack := { tos with pos := tos.pos + n } :: rest }
  let s ← get
  if s.limited then
    if n > s.remaining then throw .valueTooLarge
    set { s with remaining := s.remaining - n }

def readByte : Dec UInt8 := do
  willRead 1
  let s ← get
  match s.r with
  | [] => throw .unexpectedEOF
  | b :: rest =>
      set { s with r := rest }
      pure b

/-- `readFull` into a buffer of `n` bytes: the reader gives what it has, and a short read is
`ErrUnexpectedEOF`. -/
def readFull (n : Nat) : Dec (List UInt8) := do
  willRead n
  let s ← get
  set { s with r := s.r.drop n }
  if s.r.length < n then throw .unexpectedEOF
  pure (s.r.take n)

/-- `readUint(size)`: a big-endian number of `size` bytes; one of two or more bytes may not start
with a zero byte. -/
def readUint : Nat → Dec Nat
  | 0 => do
      modify fun s => { s with kindAhead := none }
      pure 0
  | 1 => do
      let b ← readByte
      pure b.toNat
  | size + 2 => do
      let buf ← readFull (size + 2)
      if buf.head? = some 0 then throw .canonSize
      pure (bigEndian buf)

/-- The size of a long string or list: `readUint` of the size's bytes, and `ErrCanonSize` for a
size that fits the short form. The error is part of the result, as `readKind` returns it. -/
def readLongSize (kind : Kind) (sizesize : Nat) : Dec (Kind × Nat × Option RlpError) := fun s =>
  match readUint sizesize s with
  | .error e s => .ok (kind, 0, some e) s
  | .ok size s => .ok (kind, size, if size < 56 then some .canonSize else none) s

/-- `readKind`: the header of the next value. A failed read at the top level is `io.EOF`. -/
def readKind : Dec (Kind × Nat × Option RlpError) := fun s =>
  match readByte s with
  | .error err s =>
      let err := if s.stack.isEmpty then
          (match err with
            | .unexpectedEOF => .eof
            | .valueTooLarge => .eof
            | e => e)
        else err
      .ok (.byte, 0, some err) s
  | .ok b s =>
      let s := { s with byteval := 0 }
      if b < 0x80 then .ok (.byte, 0, none) { s with byteval := b }
      else if b < 0xB8 then .ok (.string, b.toNat - 0x80, none) s
      else if b < 0xC0 then readLongSize .string (b.toNat - 0xB7) s
      else if b < 0xF8 then .ok (.list, b.toNat - 0xC0, none) s
      else readLongSize .list (b.toNat - 0xF7) s

/-- Whether the innermost open list has been read to its end. -/
def atEndOfList (s : Stream) : Bool :=
  match s.stack with
  | [] => false
  | tos :: _ => tos.pos = tos.size

/-- The size check `Kind` makes on a new header: against the input left at the top level, against
what is left of the innermost list inside one. -/
def sizeError (s : Stream) (size : Nat) : Option RlpError :=
  match s.stack with
  | [] => if s.limited ∧ size > s.remaining then some .valueTooLarge else none
  | tos :: _ => if size > tos.size - tos.pos then some .elemTooLarge else none

/-- What `Kind` returns from its cache. -/
def cached (s : Stream) : EStateM.Result RlpError Stream (Kind × Nat) :=
  match s.kinderr with
  | some e => .error e s
  | none => .ok (s.kindAhead.getD .byte, s.size) s

/-- `Kind`: the kind and size of the value ahead, read once and then cached, with a sticky
error; `EOL` at the end of the innermost list. -/
def kind : Dec (Kind × Nat) := fun s =>
  match s.kindAhead with
  | some _ => cached s
  | none =>
      let s := { s with kinderr := none }
      if atEndOfList s then .error .eol s
      else
        match readKind s with
        | .error e s => .error e s
        | .ok (k, size, err) s =>
            let err := match err with
              | some e => some e
              | none => sizeError s size
            cached { s with kindAhead := some k, size := size, kinderr := err }

/-- `Bytes`: an RLP string; a one-byte string below `0x80` is not canonical. -/
def bytes : Dec (List UInt8) := do
  let (k, size) ← kind
  match k with
  | .byte =>
      let s ← get
      set { s with kindAhead := none }
      pure [s.byteval]
  | .string =>
      let b ← readFull size
      if size = 1 ∧ b.headD 0 < 128 then throw .canonSize
      pure b
  | .list => throw .expectedString

/-- `readUint` read as an integer: a leading zero byte is `ErrCanonInt`. -/
def readUintCanonInt (size : Nat) : Dec Nat := fun s =>
  match readUint size s with
  | .error .canonSize s => .error .canonInt s
  | r => r

/-- `uint(maxbits)`: an RLP string of at most `maxbits / 8` bytes read as a number, with no
leading zero and in the single-byte form when below `0x80`. -/
def uint (maxbits : Nat) : Dec Nat := do
  let (k, size) ← kind
  match k with
  | .byte =>
      let s ← get
      if s.byteval = 0 then throw .canonInt
      set { s with kindAhead := none }
      pure s.byteval.toNat
  | .string =>
      if size > maxbits / 8 then throw .uintOverflow
      let v ← readUintCanonInt size
      if size > 0 ∧ v < 128 then throw .canonSize
      pure v
  | .list => throw .expectedString

def bool : Dec Bool := do
  let num ← uint 8
  match num with
  | 0 => pure false
  | 1 => pure true
  | num => throw (.invalidBoolean num)

/-- `List`: opens a list, and returns its size. -/
def list : Dec Nat := do
  let (k, size) ← kind
  if k ≠ .list then throw .expectedList
  modify fun s => { s with stack := ⟨0, size⟩ :: s.stack, kindAhead := none, size := 0 }
  pure size

/-- `ListEnd`: closes the innermost list, which must have been read to its end, and charges its
size to the enclosing one. -/
def listEnd : Dec Unit := do
  let s ← get
  match s.stack with
  | [] => throw .notInList
  | tos :: rest =>
      if tos.pos ≠ tos.size then throw .notAtEOL
      let rest := match rest with
        | [] => []
        | outer :: more => { outer with pos := outer.pos + tos.size } :: more
      set { s with stack := rest, kindAhead := none, size := 0 }

end Stream

end AuroraChain.Rlp
