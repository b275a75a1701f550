import AuroraChain.Rlp.Stream
/-!
# Type-directed decoding: `makeDecoder` and `DecodeBytes`

The package builds a decoder for each Go type by reflection. The model describes a type by an
`RType` and builds the same decoder from it: `decoder t` is `makeDecoder` of the type `t`
describes. Values are `RValue`s; a byte string stands for a Go string, a byte slice or a byte
array, and a list for a slice, an array or a struct. A struct is described by its named fields with
`rlp:"-"` left out; the tags that change the decoder are `rlp:"nil"` on a pointer field and
`rlp:"tail"` on a slice field, which get their own constructors. The slice loop has no bound in
Go; here it is given one, which `decodeBytes` sets from the input length.
-/

namespace AuroraChain.Rlp

open AuroraChain.Rlp.Stream

/-- The Go types the codec supports, as `makeDecoder` and `makeWriter` tell them apart. -/
inductive RType where
  /-- `uint8` to `uint64`, with the number of bits. -/
  | uint (bits : Nat)
  | bool
  | string
  /-- `*big.Int` and `big.Int`. -/
  | bigInt
  /-- `[]byte`. -/
  | bytes
  /-- `[n]byte`. -/
  | byteArray (n : Nat)
  /-- `[]T` for an element type other than a byte. -/
  | slice (elem : RType)
  /-- `[n]T` for an element type other than a byte. -/
  | array (n : Nat) (elem : RType)
  /-- A struct, by the text `%v` prints for its type and by its fields that are not tagged
  `rlp:"-"`, each with its name. -/
  | struct (name : String) (fields : List (String × RType))
  /-- `*T`. -/
  | ptr (elem : RType)
  /-- `*T` as a struct field tagged `rlp:"nil"`. -/
  | optPtr (elem : RType)
  /-- `[]T` as the last struct field, tagged `rlp:"tail"`. -/
  | tail (elem : RType)
  deriving Repr

/-- `reflect.Type.String`, which `%v` prints in a `decodeError`. A named type other than a struct
prints as its underlying type here, and `*big.Int` stands for `big.Int` too, whose decoder reads
into its address. -/
def RType.typeString : RType → String
  | .uint bits => "uint" ++ toString bits
  | .bool => "bool"
  | .string => "string"
  | .bigInt => "*big.Int"
  | .bytes => "[]uint8"
  | .byteArray n => "[" ++ toString n ++ "]uint8"
  | .slice elem | .tail elem => "[]" ++ elem.typeString
  | .array n elem => "[" ++ toString n ++ "]" ++ elem.typeString
  | .struct name _ => name
  | .ptr elem | .optPtr elem => "*" ++ elem.typeString

/-- A Go value of a supported type. -/
inductive RValue where
  | uint (n : Nat)
  | bool (b : Bool)
  | bigInt (n : Nat)
  /-- A string, a byte slice or a byte array. -/
  | bytes (b : List UInt8)
  /-- A slice, an array or a struct. -/
  | list (vs : List RValue)
  /-- A pointer; `none` is nil. -/
  | ptr (v : Option RValue)
  deriving Repr

-- `RValue` is nested in `List` and `Option`, which the `DecidableEq` handler does not derive.
mutual

def RValue.decEq : (a b : RValue) → Decidable (a = b)
  | .uint n, .uint m =>
      if h : n = m then isTrue (h ▸ rfl) else isFalse fun e => h (RValue.uint.inj e)
  | .bool b, .bool c =>
      if h : b = c then isTrue (h ▸ rfl) else isFalse fun e => h (RValue.bool.inj e)
  | .bigInt n, .bigInt m =>
      if h : n = m then isTrue (h ▸ rfl) else isFalse fun e => h (RValue.bigInt.inj e)
  | .bytes b, .bytes c =>
      if h : b = c then isTrue (h ▸ rfl) else isFalse fun e => h (RValue.bytes.inj e)
  | .list vs, .list ws =>
      match RValue.decEqList vs ws with
      | isTrue h => isTrue (h ▸ rfl)
      | isFalse h => isFalse fun e => h (RValue.list.inj e)
  | .ptr none, .ptr none => isTrue rfl
  | .ptr (some v), .ptr (some w) =>
      match RValue.decEq v w with
      | isTrue h => isTrue (h ▸ rfl)
      | isFalse h => isFalse fun e => h (Option.some.inj (RValue.ptr.inj e))
  | .ptr none, .ptr (some _) | .ptr (some _), .ptr none => isFalse fun e => nomatch e
  | .uint _, .bool _ | .uint _, .bigInt _ | .uint _, .bytes _ | .uint _, .list _ | .uint _, .ptr _
  | .bool _, .uint _ | .bool _, .bigInt _ | .bool _, .bytes _ | .bool _, .list _ | .bool _, .ptr _
  | .bigInt _, .uint _ | .bigInt _, .bool _ | .bigInt _, .bytes _ | .bigInt _, .list _
  | .bigInt _, .ptr _ | .bytes _, .uint _ | .bytes _, .bool _ | .bytes _, .bigInt _
  | .bytes _, .list _ | .bytes _, .ptr _ | .list _, .uint _ | .list _, .bool _ | .list _, .bigInt _
  | .list _, .bytes _ | .list _, .ptr _ | .ptr _, .uint _ | .ptr _, .bool _ | .ptr _, .bigInt _
  | .ptr _, .bytes _ | .ptr _, .list _ => isFalse fun e => nomatch e

def RValue.decEqList : (vs ws : List RValue) → Decidable (vs = ws)
  | [], [] => isTrue rfl
  | [], _ :: _ | _ :: _, [] => isFalse fun e => nomatch e
  | v :: vs, w :: ws =>
      match RValue.decEq v w, RValue.decEqList vs ws with
      | isTrue h, isTrue h' => isTrue (h ▸ h' ▸ rfl)
      | isFalse h, _ => isFalse fun e => h (List.cons.inj e).1
      | _, isFalse h' => isFalse fun e => h' (List.cons.inj e).2

end

instance : DecidableEq RValue := RValue.decEq

/-! ## The decoders of `decode.go` -/

/-- `decodeUint` into an unsigned integer of `bits` bits. -/
def decodeUint (bits : Nat) : Dec RValue := do
  let n ← wrapped (RType.uint bits).typeString (uint bits)
  pure (.uint n)

def decodeBool : Dec RValue := do
  let b ← wrapped RType.bool.typeString bool
  pure (.bool b)

def decodeString : Dec RValue := do
  let b ← wrapped RType.string.typeString bytes
  pure (.bytes b)

def decodeByteSlice : Dec RValue := do
  let b ← wrapped RType.bytes.typeString bytes
  pure (.bytes b)

/-- `decodeBigInt`: an RLP string without leading zero bytes. -/
def decodeBigInt : Dec RValue := do
  let b ← wrapped RType.bigInt.typeString bytes
  if b.head? = some 0 then throw (wrapStreamError RType.bigInt.typeString .canonInt)
  pure (.bigInt (bigEndian b))

/-- A method whose error is dropped, with `0` for its result: `bv, _ := s.Uint()`. -/
def ignoreError (x : Dec Nat) : Dec Nat := fun s =>
  match x s with
  | .ok v s => .ok v s
  | .error _ s => .ok 0 s

/-- `decodeByteArray` for `[n]byte`: a single byte for `[1]byte`, else a string of exactly `n`
bytes, not a one-byte string below `0x80`. -/
def decodeByteArray (n : Nat) : Dec RValue := do
  let typ := (RType.byteArray n).typeString
  let (k, size) ← kind
  match k with
  | .byte =>
      if n = 0 then throw (.decodeError ⟨"input string too long", typ, []⟩)
      if n > 1 then throw (.decodeError ⟨"input string too short", typ, []⟩)
      let bv ← ignoreError (uint 64)
      pure (.bytes [UInt8.ofNat bv])
  | .string =>
      if n < size then throw (.decodeError ⟨"input string too long", typ, []⟩)
      if n > size then throw (.decodeError ⟨"input string too short", typ, []⟩)
      let slice ← readFull n
      if size = 1 ∧ slice.headD 0 < 128 then throw (wrapStreamError typ .canonSize)
      pure (.bytes slice)
  | .list => throw (wrapStreamError typ .expectedString)

/-- The context `fmt.Sprint("[", i, "]")` of the element at `i`. -/
def indexContext (i : Nat) : String := "[" ++ toString i ++ "]"

/-- `decodeSliceElems` from the element at `i`: elements until the end of the list. -/
def decodeSliceElems (elemdec : Dec RValue) (i : Nat) : Nat → Dec (List RValue)
  | 0 => throw .outOfFuel
  | fuel + 1 => fun s =>
      match elemdec s with
      | .error .eol s => .ok [] s
      | .error e s => .error (addErrorContext (indexContext i) e) s
      | .ok v s =>
          match decodeSliceElems elemdec (i + 1) fuel s with
          | .ok vs s => .ok (v :: vs) s
          | .error e s => .error e s

/-- `decodeListSlice` for the slice type `typ`. -/
def decodeListSlice (typ : String) (elemdec : Dec RValue) (fuel : Nat) : Dec RValue := do
  let size ← wrapped typ list
  if size = 0 then
    listEnd
    pure (.list [])
  else
    let vs ← decodeSliceElems elemdec 0 fuel
    listEnd
    pure (.list vs)

/-- The loop of `decodeListArray` for the array type `typ`, from the element at `i`: `n` more
elements, and the end of the list too early is an error. -/
def decodeArrayElems (typ : String) (elemdec : Dec RValue) (i : Nat) : Nat → Dec (List RValue)
  | 0 => pure []
  | n + 1 => fun s =>
      match elemdec s with
      | .error .eol s => .error (.decodeError ⟨"input list has too few elements", typ, []⟩) s
      | .error e s => .error (addErrorContext (indexContext i) e) s
      | .ok v s =>
          match decodeArrayElems typ elemdec (i + 1) n s with
          | .ok vs s => .ok (v :: vs) s
          | .error e s => .error e s

/-- `decodeListArray` for the array type `typ`. -/
def decodeListArray (typ : String) (elemdec : Dec RValue) (n : Nat) : Dec RValue := do
  let _ ← wrapped typ list
  let vs ← decodeArrayElems typ elemdec 0 n
  wrapped typ listEnd
  pure (.list vs)

/-- The loop of the struct decoder for the struct type `typ`: one value per field, the end of the
list too early is an error, and a field's error takes the context of the field's name. -/
def decodeFields (typ : String) : List (String × Dec RValue) → Dec (List RValue)
  | [] => pure []
  | (name, f) :: fs => fun s =>
      match f s with
      | .error .eol s => .error (.decodeError ⟨"too few elements", typ, []⟩) s
      | .error e s => .error (addErrorContext ("." ++ name) e) s
      | .ok v s =>
          match decodeFields typ fs s with
          | .ok vs s => .ok (v :: vs) s
          | .error e s => .error e s

/-- The decoder `makeStructDecoder` builds for the struct type `typ` from its fields' decoders. -/
def structDecoder (typ : String) (fields : List (String × Dec RValue)) : Dec RValue := do
  let _ ← wrapped typ list
  let vs ← decodeFields typ fields
  wrapped typ listEnd
  pure (.list vs)

/-- The decoder `makeOptionalPtrDecoder` builds: an empty string or an empty list is nil. -/
def optionalPtrDecoder (elemdec : Dec RValue) : Dec RValue := fun s =>
  match kind s with
  | .error e s => .error e { s with kindAhead := none }
  | .ok (k, size) s =>
      if size = 0 ∧ k ≠ .byte then .ok (.ptr none) { s with kindAhead := none }
      else
        match elemdec s with
        | .ok v s => .ok (.ptr (some v)) s
        | .error e s => .error e s

mutual

/-- `makeDecoder`. -/
def decoder (fuel : Nat) : RType → Dec RValue
  | .uint bits => decodeUint bits
  | .bool => decodeBool
  | .string => decodeString
  | .bigInt => decodeBigInt
  | .bytes => decodeByteSlice
  | .byteArray n => decodeByteArray n
  | .slice elem => decodeListSlice (RType.slice elem).typeString (decoder fuel elem) fuel
  | .array n elem => decodeListArray (RType.array n elem).typeString (decoder fuel elem) n
  | .struct name fields => structDecoder name (fieldDecoders fuel fields)
  | .ptr elem => fun s =>
      match decoder fuel elem s with
      | .ok v s => .ok (.ptr (some v)) s
      | .error e s => .error e s
  | .optPtr elem => optionalPtrDecoder (decoder fuel elem)
  | .tail elem => fun s =>
      match decodeSliceElems (decoder fuel elem) 0 fuel s with
      | .ok vs s => .ok (.list vs) s
      | .error e s => .error e s

/-- The decoders of a struct's fields, with their names. -/
def fieldDecoders (fuel : Nat) : List (String × RType) → List (String × Dec RValue)
  | [] => []
  | (name, t) :: ts => (name, decoder fuel t) :: fieldDecoders fuel ts

end

/-- `Stream.Decode` into a value of the type `t`: a `decodeError` that has a context gets the
type as its outermost one. -/
def Stream.decode (fuel : Nat) (t : RType) : Dec RValue := fun s =>
  match decoder fuel t s with
  | .error (.decodeError err) s =>
      if err.ctx = [] then .error (.decodeError err) s
      else .error (addErrorContext ("(" ++ t.typeString ++ ")") (.decodeError err)) s
  | r => r

/-- `DecodeBytes(b, &x)` for `x` of the type `t`: exactly one value, and no bytes after it. The
slice loops are bounded by the input length. An element read consumes a byte at least, but for
one: a `[1]byte` read from a zero byte leaves `Kind` armed, Go's loop over such elements never
ends, and the model's ends with `outOfFuel`. -/
def decodeBytes (t : RType) (b : List UInt8) : Except RlpError RValue :=
  match Stream.decode (b.length + 1) t (newStream b b.length) with
  | .error e _ => .error e
  | .ok v s => if s.r.length > 0 then .error .moreThanOneValue else .ok v

end AuroraChain.Rlp
