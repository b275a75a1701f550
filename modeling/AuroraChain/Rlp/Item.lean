import AuroraChain.Rlp.Encode
/-!
# RLP items

What the encoder is for. A value it writes stands for a sequence of RLP items, byte strings and
lists of items, and its bytes are the items' encodings one after another: a string is its own
encoding when it is one byte up to `0x7F`, and comes after a header with its length otherwise; a
list comes after a header with the length of its items' encodings.

`itemsOf` reads the items off a typed value as `makeWriter` picks the writer: an integer is the
string of its big-endian bytes without leading zeros, a nil pointer is the zero value of the type
it points to, and a `rlp:"tail"` slice is its elements with no list around them. `Buffer.lean`
shows that the buffered writer, which writes list headers only at the end, produces exactly these
encodings.
-/

namespace AuroraChain.Rlp

/-- An RLP item: a byte string or a list of items. -/
inductive Item where
  | str (b : List UInt8)
  | list (items : List Item)
  deriving Repr

/-- Whether a string is its own encoding: a single byte up to `0x7F`. -/
def singleByte : List UInt8 → Bool
  | [b] => b ≤ 0x7F
  | _ => false

theorem singleByte_eq_false_of_two_le {b : List UInt8} (h : 2 ≤ b.length) : singleByte b = false := by
  match b, h with
  | _ :: _ :: _, _ => rfl

mutual

/-- The encoding of an item. -/
def Item.encode : Item → List UInt8
  | .str b => if singleByte b then b else puthead 0x80 0xB7 b.length ++ b
  | .list items => puthead 0xC0 0xF7 (Item.encodeAll items).length ++ Item.encodeAll items

/-- The encodings of a sequence of items, one after another. -/
def Item.encodeAll : List Item → List UInt8
  | [] => []
  | it :: items => it.encode ++ Item.encodeAll items

end

@[simp] theorem Item.encodeAll_nil : Item.encodeAll [] = [] := rfl

@[simp] theorem Item.encodeAll_cons (it : Item) (items : List Item) :
    Item.encodeAll (it :: items) = it.encode ++ Item.encodeAll items := rfl

theorem Item.encodeAll_append (xs ys : List Item) :
    Item.encodeAll (xs ++ ys) = Item.encodeAll xs ++ Item.encodeAll ys := by
  induction xs with
  | nil => rfl
  | cons it xs ih => rw [List.cons_append, encodeAll_cons, encodeAll_cons, ih, List.append_assoc]

theorem Item.encode_str (b : List UInt8) :
    (Item.str b).encode = if singleByte b then b else puthead 0x80 0xB7 b.length ++ b := rfl

theorem Item.encode_list (items : List Item) :
    (Item.list items).encode =
      puthead 0xC0 0xF7 (Item.encodeAll items).length ++ Item.encodeAll items := rfl

/-- The header of an item's encoding: none for a string that is its own encoding. -/
def Item.header : Item → List UInt8
  | .str b => if singleByte b then [] else puthead 0x80 0xB7 b.length
  | .list items => puthead 0xC0 0xF7 (Item.encodeAll items).length

/-- What comes after the header: a string's bytes, or a list's items encoded. -/
def Item.payload : Item → List UInt8
  | .str b => b
  | .list items => Item.encodeAll items

/-- The kind of value the header announces. -/
def Item.kind : Item → Kind
  | .str b => if singleByte b then .byte else .string
  | .list _ => .list

theorem Item.encode_eq_header_append (it : Item) : it.encode = it.header ++ it.payload := by
  cases it with
  | str b => by_cases h : singleByte b <;> simp [Item.encode_str, Item.header, Item.payload, h]
  | list items => rfl

/-! ## The items of a typed value -/

/-- The items of the zero value that `makePtrWriter` writes for a nil pointer to `t`. -/
def nilItems : RType → List Item
  | .byteArray _ | .uint _ | .bool | .string | .bigInt | .bytes => [.str []]
  | .array _ _ | .struct _ _ | .slice _ => [.list []]
  | .tail _ => []
  | .ptr elem | .optPtr elem => nilItems elem

mutual

/-- The items a value of the type `t` stands for; none for a value of another type. -/
def itemsOf : RType → RValue → List Item
  | .uint _, .uint i => [.str (if i = 0 then [] else putint i)]
  | .bool, .bool b => [.str (if b then [1] else [])]
  | .string, .bytes s | .bytes, .bytes s | .byteArray _, .bytes s => [.str s]
  | .bigInt, .bigInt i => [.str (if i = 0 then [] else bytesOf i i)]
  | .slice elem, .list vs | .array _ elem, .list vs => [.list (elemsItems elem vs)]
  | .tail elem, .list vs => elemsItems elem vs
  | .struct _ fields, .list vs => [.list (fieldsItems fields vs)]
  | .ptr elem, .ptr v | .optPtr elem, .ptr v => ptrItems elem v
  | _, _ => []

/-- The items of a pointer to `elem`. -/
def ptrItems (elem : RType) : Option RValue → List Item
  | none => nilItems elem
  | some v => itemsOf elem v

/-- The items of the elements of a slice or an array, in order. -/
def elemsItems (elem : RType) : List RValue → List Item
  | [] => []
  | v :: vs => itemsOf elem v ++ elemsItems elem vs

/-- The items of the fields of a struct, in order; a missing field or value ends them. -/
def fieldsItems : List (String × RType) → List RValue → List Item
  | (_, t) :: ts, v :: vs => itemsOf t v ++ fieldsItems ts vs
  | _, _ => []

end

example : Item.encodeAll (itemsOf (.slice (.uint 64)) (.list [.uint 0, .uint 0x7F, .uint 0x400])) =
    [0xC5, 0x80, 0x7F, 0x82, 0x04, 0x00] := by decide

end AuroraChain.Rlp
