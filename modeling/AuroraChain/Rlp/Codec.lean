import AuroraChain.Rlp.Encode
import AuroraChain.Lib.EStateRun
/-!
# What the decoder accepts and what the writer writes

The writer writes one encoding of each value, and `DecodeBytes` is meant to accept that one only.
Two decoders accept more. `makeOptionalPtrDecoder` reads an empty string and an empty list both
as nil, while `makePtrWriter` writes a nil pointer as one of the two, so a transaction's
`Recipient` has two encodings. `decodeByteArray` reads a `[1]byte` from a zero byte with
`s.Uint()`, drops its error and leaves `Kind` armed, so the next value read is the same zero byte
again.
-/

namespace AuroraChain.Rlp

open AuroraChain.Rlp.Stream

theorem kind_of_cached {s : Stream} {k : Kind} (hk : s.kindAhead = some k)
    (he : s.kinderr = none) : kind s = .ok (k, s.size) s := by
  simp [kind, hk, cached, he]

theorem uint_of_zero_byte {s : Stream} {size maxbits : Nat} (hk : kind s = .ok (.byte, size) s)
    (hb : s.byteval = 0) : uint maxbits s = .error .canonInt s := by
  simp [uint, hk, hb]

/-! ## A `[1]byte` read from a zero byte -/

section ZeroByte

variable {s : Stream} (hk : s.kindAhead = some .byte) (he : s.kinderr = none) (hb : s.byteval = 0)
include hk he hb

theorem decodeByteArray_of_zero_byte : decodeByteArray 1 s = .ok (.bytes [0]) s := by
  have hkind := kind_of_cached hk he
  simp [decodeByteArray, hkind, ignoreError, uint_of_zero_byte hkind hb]

/-- A slice of `[1]byte` elements from a zero byte: every round of the loop reads the same
element, and the loop ends only when the model's bound does. Go's loop does not end. -/
theorem decodeSliceElems_of_zero_byte :
    ∀ i fuel, decodeSliceElems (decodeByteArray 1) i fuel s = .error .outOfFuel s
  | _, 0 => rfl
  | i, fuel + 1 => by
      simp only [decodeSliceElems, decodeByteArray_of_zero_byte hk he hb,
        decodeSliceElems_of_zero_byte (i + 1) fuel]

end ZeroByte

theorem byteArray_zero_then_uint_undecodable :
    encodeToBytes
        (.struct "struct \x7b A [1]uint8; B uint64 \x7d" [("A", .byteArray 1), ("B", .uint 64)])
        (.list [.bytes [0], .uint 5]) = [0xC2, 0x00, 0x05] ∧
      decodeBytes
          (.struct "struct \x7b A [1]uint8; B uint64 \x7d" [("A", .byteArray 1), ("B", .uint 64)])
          [0xC2, 0x00, 0x05] =
        .error (.decodeError ⟨"non-canonical integer (leading zero bytes)", "uint64",
          [".B", "(struct \x7b A [1]uint8; B uint64 \x7d)"]⟩) := by
  decide +kernel

-- What Go prints for that error.
example : DecodeError.error ⟨"non-canonical integer (leading zero bytes)", "uint64",
      [".B", "(struct \x7b A [1]uint8; B uint64 \x7d)"]⟩ =
    "rlp: non-canonical integer (leading zero bytes) for uint64, decoding into " ++
      "(struct \x7b A [1]uint8; B uint64 \x7d).B" := by
  decide

/-! ## Optional pointers in the transaction format -/

/-- `txdata`, the payload of a `Transaction`. `Hash` is tagged `rlp:"-"`; the `rlp:"nil"` tag
counts on the two `*common.Address` fields only, which are `[20]byte` pointers. -/
def txdataType : RType :=
  .struct "types.txdata"
    [("AccountNonce", .uint 64), ("Price", .bigInt), ("GasLimit", .uint 64),
      ("Recipient", .optPtr (.byteArray 20)), ("Amount", .bigInt), ("Payload", .bytes),
      ("Action", .uint 64), ("Vote", .bytes), ("Nickname", .bytes),
      ("Asset", .optPtr (.byteArray 20)), ("AssetInfo", .bytes), ("SubAddress", .string),
      ("Abi", .string), ("V", .bigInt), ("R", .bigInt), ("S", .bigInt)]

/-- The zero `txdata`, a contract creation with no asset. -/
def zeroTxdata : RValue :=
  .list [.uint 0, .bigInt 0, .uint 0, .ptr none, .bigInt 0, .bytes [], .uint 0, .bytes [],
    .bytes [], .ptr none, .bytes [], .bytes [], .bytes [], .bigInt 0, .bigInt 0, .bigInt 0]

theorem txdata_recipient_two_encodings :
    decodeBytes txdataType ([0xD0, 0x80, 0x80, 0x80, 0xC0] ++ List.replicate 12 0x80) =
        .ok zeroTxdata ∧
      decodeBytes txdataType (0xD0 :: List.replicate 16 0x80) = .ok zeroTxdata ∧
      encodeToBytes txdataType zeroTxdata = 0xD0 :: List.replicate 16 0x80 := by
  decide +kernel

end AuroraChain.Rlp
