import AuroraChain.Rlp.Decode
/-!
# The encoder: `encbuf` and `makeWriter`

`encbuf` keeps the string data apart from the list headers, whose sizes are known only when a
list is closed: `list` records where a header goes, `listEnd` sets its size, and `toBytes` merges
headers and data. A header's `size` field holds `lhsize` while its list is open, so that
`listEnd` can subtract the headers written inside the list.

The writers never fail on the values of the model: the one error a writer of these types
returns, for a negative `*big.Int`, has no value here. A value that is not of the writer's type
is not written.
-/

namespace AuroraChain.Rlp

/-- The big-endian bytes of `i` without leading zero bytes, at most `n` of them (`big.Int.Bytes`
when `n` is large enough). -/
def bytesOf : Nat → Nat → List UInt8
  | 0, _ => []
  | n + 1, i => if i = 0 then [] else bytesOf n (i / 256) ++ [UInt8.ofNat i]

/-- `putint`: the big-endian bytes of the `uint64` `i` without leading zero bytes; one byte for
zero. -/
def putint (i : Nat) : List UInt8 :=
  if i < 256 then [UInt8.ofNat i] else bytesOf 8 i

/-- The loop of `intsize`: a byte more for each shift of `i` that leaves it nonzero. -/
def intsizeLoop : Nat → Nat → Nat → Nat
  | 0, size, _ => size
  | fuel + 1, size, i => if i / 256 = 0 then size else intsizeLoop fuel (size + 1) (i / 256)

/-- `intsize`: the number of bytes of a `uint64` without leading zero bytes, one at least. -/
def intsize (i : Nat) : Nat := intsizeLoop 7 1 i

/-- `puthead`: the one-byte header of a size below 56, else the size's bytes after a tag. -/
def puthead (smalltag largetag : UInt8) (size : Nat) : List UInt8 :=
  if size < 56 then [smalltag + UInt8.ofNat size]
  else (largetag + UInt8.ofNat (putint size).length) :: putint size

def headsize (size : Nat) : Nat := if size < 56 then 1 else 1 + intsize size

/-- `listhead`: where the header goes in the string data, and the size of the list's payload. -/
structure ListHead where
  offset : Nat
  size : Nat
  deriving DecidableEq, Repr

def ListHead.encode (head : ListHead) : List UInt8 := puthead 0xC0 0xF7 head.size

/-- `encbuf`, with its headers in the order they were created. -/
structure EncBuf where
  str : List UInt8
  lheads : List ListHead
  lhsize : Nat
  deriving DecidableEq, Repr

namespace EncBuf

/-- The buffer after `reset`. -/
def empty : EncBuf := ⟨[], [], 0⟩

/-- `size`: the length of the output. -/
def size (w : EncBuf) : Nat := w.str.length + w.lhsize

def encodeStringHeader (w : EncBuf) (size : Nat) : EncBuf :=
  if size < 56 then { w with str := w.str ++ [0x80 + UInt8.ofNat size] }
  else { w with str := w.str ++ (0xB7 + UInt8.ofNat (putint size).length) :: putint size }

/-- `encodeString`: a single byte below `0x80` is its own encoding. -/
def encodeString (w : EncBuf) (b : List UInt8) : EncBuf :=
  match b with
  | [b0] => if b0 ≤ 0x7F then { w with str := w.str ++ [b0] }
      else { w.encodeStringHeader 1 with str := (w.encodeStringHeader 1).str ++ b }
  | b => { w.encodeStringHeader b.length with str := (w.encodeStringHeader b.length).str ++ b }

/-- `list`: a new header at the end of the string data; the index of the header stands for the
pointer Go returns. -/
def list (w : EncBuf) : EncBuf × Nat :=
  ({ w with lheads := w.lheads ++ [⟨w.str.length, w.lhsize⟩] }, w.lheads.length)

/-- `listEnd`: the header's size is what was written since `list`, headers included. -/
def listEnd (w : EncBuf) (lh : Nat) : EncBuf :=
  match w.lheads[lh]? with
  | none => w
  | some head =>
      let size := w.size - head.offset - head.size
      { w with
        lheads := w.lheads.set lh { head with size := size }
        lhsize := if size < 56 then w.lhsize + 1 else w.lhsize + 1 + intsize size }

/-- One step of `toBytes`: the string data up to the header, then the header. -/
def copyHead (str : List UInt8) (acc : List UInt8 × Nat) (head : ListHead) :
    List UInt8 × Nat :=
  let chunk := (str.take head.offset).drop acc.2
  (acc.1 ++ chunk ++ head.encode, acc.2 + chunk.length)

def toBytes (w : EncBuf) : List UInt8 :=
  let (out, strpos) := w.lheads.foldl (copyHead w.str) ([], 0)
  out ++ w.str.drop strpos

end EncBuf

open EncBuf

/-! ## The writers of `encode.go` -/

def writeUint (w : EncBuf) (i : Nat) : EncBuf :=
  if i = 0 then { w with str := w.str ++ [0x80] }
  else if i < 128 then { w with str := w.str ++ [UInt8.ofNat i] }
  else { w with str := w.str ++ (0x80 + UInt8.ofNat (putint i).length) :: putint i }

def writeBool (w : EncBuf) (b : Bool) : EncBuf :=
  if b then { w with str := w.str ++ [0x01] } else { w with str := w.str ++ [0x80] }

/-- `writeBigInt` of a non-negative integer. -/
def writeBigInt (w : EncBuf) (i : Nat) : EncBuf :=
  if i = 0 then { w with str := w.str ++ [0x80] } else w.encodeString (bytesOf i i)

def writeString (w : EncBuf) (s : List UInt8) : EncBuf :=
  match s with
  | [s0] => if s0 ≤ 0x7F then { w with str := w.str ++ [s0] }
      else { w.encodeStringHeader 1 with str := (w.encodeStringHeader 1).str ++ s }
  | s => { w.encodeStringHeader s.length with str := (w.encodeStringHeader s.length).str ++ s }

/-- An empty list. -/
def writeEmptyList (w : EncBuf) : EncBuf :=
  let (w, lh) := w.list
  w.listEnd lh

/-- The writer `makePtrWriter` calls for a nil pointer to `t`: an empty string for a byte array,
an empty list for a struct or an array, and the zero value of `t` for any other type. -/
def nilWriter : RType → EncBuf → EncBuf
  | .byteArray _, w => { w with str := w.str ++ [0x80] }
  | .array _ _, w => writeEmptyList w
  | .struct _ _, w => writeEmptyList w
  | .uint _, w => writeUint w 0
  | .bool, w => writeBool w false
  | .string, w => writeString w []
  | .bigInt, w => { w with str := w.str ++ [0x80] }
  | .bytes, w => w.encodeString []
  | .slice _, w => writeEmptyList w
  | .tail _, w => w
  | .ptr elem, w => nilWriter elem w
  | .optPtr elem, w => nilWriter elem w

mutual

/-- `makeWriter`: the writer of a value of the type `t`. The `rlp:"nil"` tag does not change it. -/
def writer : RType → RValue → EncBuf → EncBuf
  | .uint _, .uint i, w => writeUint w i
  | .bool, .bool b, w => writeBool w b
  | .string, .bytes s, w => writeString w s
  | .bigInt, .bigInt i, w => writeBigInt w i
  | .bytes, .bytes b, w => w.encodeString b
  | .byteArray _, .bytes b, w => w.encodeString b
  | .slice elem, .list vs, w =>
      let (w, lh) := w.list
      (writeElems elem vs w).listEnd lh
  | .array _ elem, .list vs, w =>
      let (w, lh) := w.list
      (writeElems elem vs w).listEnd lh
  | .tail elem, .list vs, w => writeElems elem vs w
  | .struct _ fields, .list vs, w =>
      let (w, lh) := w.list
      (writeFields fields vs w).listEnd lh
  | .ptr elem, .ptr v, w => writePtr elem v w
  | .optPtr elem, .ptr v, w => writePtr elem v w
  | _, _, w => w

/-- The writer `makePtrWriter` builds. -/
def writePtr (elem : RType) : Option RValue → EncBuf → EncBuf
  | none, w => nilWriter elem w
  | some v, w => writer elem v w

/-- The elements of a slice or an array, in order. -/
def writeElems (elem : RType) : List RValue → EncBuf → EncBuf
  | [], w => w
  | v :: vs, w => writeElems elem vs (writer elem v w)

/-- The fields of a struct, in order. -/
def writeFields : List (String × RType) → List RValue → EncBuf → EncBuf
  | (_, t) :: ts, v :: vs, w => writeFields ts vs (writer t v w)
  | _, _, w => w

end

def encodeToBytes (t : RType) (v : RValue) : List UInt8 := (writer t v EncBuf.empty).toBytes

end AuroraChain.Rlp
