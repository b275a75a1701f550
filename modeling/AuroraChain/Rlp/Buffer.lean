import AuroraChain.Rlp.Item
/-!
# The buffered writer writes the items' encodings

`encbuf` does not know a list's length when the list starts, so it keeps its string data apart from
the list headers: `list` records where a header goes, `listEnd` fills in its size, counting the
headers written inside the list through `lhsize`, and `toBytes` merges headers and data at the end.

Every writer appends the same `Chunk` to any buffer: string data, the headers of the lists it
closed with their offsets counted from the start of that data, and the bytes those headers take
(`writer_writesItems`). A chunk `Renders` the bytes `toBytes` makes of it; the chunks of two writers one
after the other render the two encodings one after the other (`Chunk.Renders.append`), and the
chunk of a list renders its header before its items (`Chunk.Renders.wrap`). So `EncodeToBytes`
gives the plain encoding of the value's items (`encodeToBytes_items`).
-/

namespace AuroraChain.Rlp

open EncBuf

/-! ## Sizes of headers -/

theorem length_bytesOf_le : ∀ n i, (bytesOf n i).length ≤ n
  | 0, _ => Nat.le_refl 0
  | n + 1, i => by
      rw [bytesOf]
      split
      · exact Nat.zero_le _
      · rw [List.length_append, List.length_singleton]
        exact Nat.succ_le_succ (length_bytesOf_le n (i / 256))

theorem intsizeLoop_eq_length_bytesOf :
    ∀ fuel size i, 0 < i → intsizeLoop fuel size i + 1 = size + (bytesOf (fuel + 1) i).length
  | 0, size, i, hi => by
      simp [intsizeLoop, bytesOf, Nat.pos_iff_ne_zero.mp hi]
  | fuel + 1, size, i, hi => by
      rw [intsizeLoop, bytesOf, if_neg (Nat.pos_iff_ne_zero.mp hi)]
      split
      · rename_i hq
        rw [hq, bytesOf]
        simp
      · rename_i hq
        rw [intsizeLoop_eq_length_bytesOf fuel (size + 1) (i / 256) (Nat.pos_of_ne_zero hq),
          List.length_append, List.length_singleton]
        omega

theorem intsize_eq_length_putint (i : Nat) : intsize i = (putint i).length := by
  rw [intsize, putint]
  split
  · rename_i hi
    simp [intsizeLoop, Nat.div_eq_of_lt hi]
  · rename_i hi
    have h : intsizeLoop 7 1 i + 1 = 1 + (bytesOf 8 i).length :=
      intsizeLoop_eq_length_bytesOf 7 1 i (by omega)
    omega

theorem length_puthead (smalltag largetag : UInt8) (size : Nat) :
    (puthead smalltag largetag size).length = headsize size := by
  rw [puthead, headsize]
  split
  · rfl
  · rw [List.length_cons, intsize_eq_length_putint, Nat.add_comm]

theorem length_bytesOf_pos (n i : Nat) (hi : 0 < i) : 0 < (bytesOf (n + 1) i).length := by
  rw [bytesOf, if_neg (by omega), List.length_append, List.length_singleton]
  omega

theorem length_putint_le (i : Nat) : (putint i).length ≤ 8 := by
  rw [putint]
  split
  · simp
  · exact length_bytesOf_le 8 i

/-! ## Chunks -/

/-- What a writer appends to a buffer: string data, the headers of the lists it wrote with their
offsets counted from the start of that data, and the number of bytes those headers take. -/
structure Chunk where
  str : List UInt8
  heads : List ListHead
  hsize : Nat

/-- Headers moved `k` bytes further into the string data. -/
def shiftHeads (k : Nat) (hs : List ListHead) : List ListHead :=
  hs.map fun h => { h with offset := h.offset + k }

/-- The buffer with a chunk appended. -/
def EncBuf.put (w : EncBuf) (c : Chunk) : EncBuf :=
  ⟨w.str ++ c.str, w.lheads ++ shiftHeads w.str.length c.heads, w.lhsize + c.hsize⟩

namespace Chunk

/-- Nothing written. -/
def nil : Chunk := ⟨[], [], 0⟩

/-- String data and no list. -/
def bytes (s : List UInt8) : Chunk := ⟨s, [], 0⟩

/-- One chunk after the other. -/
def append (c d : Chunk) : Chunk :=
  ⟨c.str ++ d.str, c.heads ++ shiftHeads c.str.length d.heads, c.hsize + d.hsize⟩

/-- A list around the chunk: a header at its start for a payload of all its bytes. -/
def wrap (c : Chunk) : Chunk :=
  ⟨c.str, ⟨0, c.str.length + c.hsize⟩ :: c.heads, c.hsize + headsize (c.str.length + c.hsize)⟩

end Chunk

theorem shiftHeads_zero (hs : List ListHead) : shiftHeads 0 hs = hs := by
  simp [shiftHeads]

theorem put_nil (w : EncBuf) : w.put Chunk.nil = w := by
  simp [EncBuf.put, Chunk.nil, shiftHeads]

theorem put_put (w : EncBuf) (c d : Chunk) : (w.put c).put d = w.put (c.append d) := by
  simp only [EncBuf.put, Chunk.append, List.length_append, shiftHeads, List.map_append,
    List.append_assoc, Nat.add_assoc, EncBuf.mk.injEq, and_true, true_and, List.map_map]
  congr 2
  apply List.map_congr_left
  intro h _
  simp only [Function.comp_apply, ListHead.mk.injEq, and_true]
  omega

theorem empty_put (c : Chunk) : EncBuf.empty.put c = ⟨c.str, c.heads, c.hsize⟩ := by
  simp [EncBuf.put, EncBuf.empty, shiftHeads_zero]

theorem listEnd_put_list (w : EncBuf) (c : Chunk) :
    (w.list.1.put c).listEnd w.list.2 = w.put c.wrap := by
  have hget : (w.list.1.put c).lheads[w.list.2]? = some ⟨w.str.length, w.lhsize⟩ := by
    simp [EncBuf.list, EncBuf.put]
  have hsize : (w.list.1.put c).size - w.str.length - w.lhsize = c.str.length + c.hsize := by
    simp only [EncBuf.size, EncBuf.put, EncBuf.list, List.length_append]
    omega
  simp only [EncBuf.listEnd, hget, hsize]
  simp only [EncBuf.put, EncBuf.list, Chunk.wrap, shiftHeads, List.map_cons, Nat.zero_add,
    headsize, EncBuf.mk.injEq, true_and]
  constructor
  · rw [List.append_assoc, List.set_append_right _ _ (by simp), Nat.sub_self]
    rfl
  · split <;> omega

/-! ## What `toBytes` makes of the headers -/

/-- The headers stand in order, from the position `p` on, within string data of length `len`. -/
def OffsetsFrom (len : Nat) : Nat → List ListHead → Prop
  | _, [] => True
  | p, h :: hs => p ≤ h.offset ∧ h.offset ≤ len ∧ OffsetsFrom len h.offset hs

/-- The output from the position `p` of the string data on: the data up to each header, the
header, and the data after the last one. -/
def render (str : List UInt8) : Nat → List ListHead → List UInt8
  | p, [] => str.drop p
  | p, h :: hs => (str.take h.offset).drop p ++ h.encode ++ render str h.offset hs

/-- The loop of `toBytes`, from the position `p` with `pre` written. -/
theorem foldl_copyHead (str : List UInt8) :
    ∀ (hs : List ListHead) (pre : List UInt8) (p : Nat), OffsetsFrom str.length p hs →
      (hs.foldl (copyHead str) (pre, p)).1 ++ str.drop (hs.foldl (copyHead str) (pre, p)).2 =
        pre ++ render str p hs
  | [], pre, p, _ => rfl
  | h :: hs, pre, p, ⟨hp, hlen, hrest⟩ => by
      have hpos : p + ((str.take h.offset).drop p).length = h.offset := by
        simp only [List.length_drop, List.length_take]
        omega
      rw [List.foldl_cons, copyHead, hpos, foldl_copyHead str hs _ h.offset hrest, render]
      simp only [List.append_assoc]

theorem toBytes_eq_render (w : EncBuf) (h : OffsetsFrom w.str.length 0 w.lheads) :
    w.toBytes = render w.str 0 w.lheads := by
  have hfold := foldl_copyHead w.str w.lheads [] 0 h
  rw [List.nil_append] at hfold
  rw [toBytes, ← hfold]

theorem offsetsFrom_shiftHeads (k : Nat) :
    ∀ {len p q : Nat} {hs : List ListHead}, p ≤ q + k → OffsetsFrom len q hs →
      OffsetsFrom (len + k) p (shiftHeads k hs)
  | _, _, _, [], _, _ => trivial
  | len, p, _, h :: _, hpq, ⟨hq, hlen, hrest⟩ => by
      have hrest' := offsetsFrom_shiftHeads k (p := h.offset + k) (Nat.le_refl _) hrest
      exact ⟨show p ≤ h.offset + k by omega, show h.offset + k ≤ len + k by omega, hrest'⟩

theorem offsetsFrom_append {len len' : Nat} :
    ∀ {p : Nat} {hs : List ListHead} {hs' : List ListHead}, OffsetsFrom len p hs → p ≤ len →
      OffsetsFrom len' 0 hs' → OffsetsFrom (len + len') p (hs ++ shiftHeads len hs')
  | _, [], _, _, hp, h' => Nat.add_comm len' len ▸ offsetsFrom_shiftHeads len (by omega) h'
  | _, _ :: _, _, ⟨hp, hlen, hrest⟩, _, h' =>
      ⟨hp, by omega, offsetsFrom_append hrest hlen h'⟩

theorem drop_add_length_append (pre str : List UInt8) (q : Nat) :
    (pre ++ str).drop (q + pre.length) = str.drop q := by
  rw [List.drop_append, List.drop_eq_nil_of_le (by omega), List.nil_append, Nat.add_sub_cancel]

theorem take_add_length_append (pre str : List UInt8) (q : Nat) :
    (pre ++ str).take (q + pre.length) = pre ++ str.take q := by
  rw [List.take_append, List.take_of_length_le (by omega), Nat.add_sub_cancel]

/-- Headers moved past string data render as they did without it. -/
theorem render_shiftHeads (pre str : List UInt8) :
    ∀ (q : Nat) (hs : List ListHead),
      render (pre ++ str) (q + pre.length) (shiftHeads pre.length hs) = render str q hs
  | q, [] => drop_add_length_append pre str q
  | q, h :: hs => by
      have hrest := render_shiftHeads pre str h.offset hs
      simp only [shiftHeads, List.map_cons] at hrest ⊢
      rw [render, render, hrest, take_add_length_append, drop_add_length_append]
      rfl

theorem render_append (str str' : List UInt8) :
    ∀ (p : Nat) (hs hs' : List ListHead), OffsetsFrom str.length p hs → p ≤ str.length →
      render (str ++ str') p (hs ++ shiftHeads str.length hs') =
        render str p hs ++ render str' 0 hs'
  | p, [], [], _, hp => by
      simp [render, shiftHeads, List.drop_append_of_le_length hp]
  | p, [], h :: hs', _, hp => by
      have hrest := render_shiftHeads str str' h.offset hs'
      simp only [List.nil_append, shiftHeads, List.map_cons, render] at hrest ⊢
      rw [hrest, take_add_length_append, List.drop_append_of_le_length hp]
      simp [ListHead.encode]
  | p, h :: hs, hs', ⟨_, hlen, hrest⟩, _ => by
      rw [List.cons_append, render, render, render_append str str' h.offset hs hs' hrest hlen,
        List.take_append_of_le_length hlen]
      simp only [List.append_assoc]

/-! ## Chunks that render an encoding -/

/-- A chunk renders `out`: its headers fit its data, `toBytes` merges them into `out`, and the
chunk's data and headers are as long as `out`. -/
structure Chunk.Renders (c : Chunk) (out : List UInt8) : Prop where
  fits : OffsetsFrom c.str.length 0 c.heads
  render_eq : render c.str 0 c.heads = out
  length_eq : c.str.length + c.hsize = out.length

namespace Chunk.Renders

theorem nil : Chunk.nil.Renders [] := ⟨trivial, rfl, rfl⟩

theorem bytes (s : List UInt8) : (Chunk.bytes s).Renders s := ⟨trivial, List.drop_zero, rfl⟩

theorem append {c d : Chunk} {out out' : List UInt8} (hc : c.Renders out) (hd : d.Renders out') :
    (c.append d).Renders (out ++ out') where
  fits := by
    have h := offsetsFrom_append hc.fits (Nat.zero_le _) hd.fits
    rwa [← List.length_append] at h
  render_eq := by
    rw [Chunk.append, render_append _ _ 0 _ _ hc.fits (Nat.zero_le _), hc.render_eq, hd.render_eq]
  length_eq := by
    have h1 := hc.length_eq
    have h2 := hd.length_eq
    simp only [Chunk.append, List.length_append]
    omega

theorem wrap {c : Chunk} {out : List UInt8} (hc : c.Renders out) :
    c.wrap.Renders (puthead 0xC0 0xF7 out.length ++ out) where
  fits := ⟨Nat.le_refl 0, Nat.zero_le _, hc.fits⟩
  render_eq := by
    simp only [Chunk.wrap, render, List.take_zero, List.drop_nil, List.nil_append, hc.render_eq,
      ListHead.encode, hc.length_eq]
  length_eq := by
    have h := hc.length_eq
    simp only [Chunk.wrap, List.length_append, length_puthead, h]
    omega

theorem item (it : Item) : (Chunk.bytes it.encode).Renders (Item.encodeAll [it]) := by
  rw [Item.encodeAll_cons, Item.encodeAll_nil, List.append_nil]
  exact bytes it.encode

theorem list {c : Chunk} {items : List Item} (hc : c.Renders (Item.encodeAll items)) :
    c.wrap.Renders (Item.encodeAll [.list items]) := by
  rw [Item.encodeAll_cons, Item.encodeAll_nil, List.append_nil, Item.encode_list]
  exact hc.wrap

end Chunk.Renders

/-! ## Every writer appends a chunk that renders its items -/

theorem put_bytes (w : EncBuf) (s : List UInt8) :
    w.put (Chunk.bytes s) = { w with str := w.str ++ s } := by
  simp [EncBuf.put, Chunk.bytes, shiftHeads]

theorem encodeString_put (w : EncBuf) (b : List UInt8) :
    w.encodeString b = w.put (Chunk.bytes (Item.str b).encode) := by
  match b with
  | [] => simp [EncBuf.encodeString, EncBuf.encodeStringHeader, EncBuf.put, Chunk.bytes,
      Item.encode_str, singleByte, puthead, shiftHeads]
  | [b0] =>
      by_cases h : b0 ≤ 0x7F
      · simp [EncBuf.encodeString, EncBuf.put, Chunk.bytes, Item.encode_str, singleByte, h,
          shiftHeads]
      · simp [EncBuf.encodeString, EncBuf.encodeStringHeader, EncBuf.put, Chunk.bytes,
          Item.encode_str, singleByte, h, puthead, shiftHeads]
  | b0 :: b1 :: bs =>
      simp only [EncBuf.encodeString, EncBuf.encodeStringHeader, EncBuf.put, Chunk.bytes,
        Item.encode_str, singleByte, puthead, shiftHeads]
      split <;> simp

theorem writeString_put (w : EncBuf) (s : List UInt8) :
    writeString w s = w.put (Chunk.bytes (Item.str s).encode) := by
  rw [← encodeString_put]
  match s with
  | [] | [_] | _ :: _ :: _ => rfl

theorem ofNat_le_7F_iff {i : Nat} (h : i < 256) : UInt8.ofNat i ≤ 0x7F ↔ i < 128 := by
  simp only [UInt8.le_iff_toNat_le, UInt8.toNat_ofNat', Nat.reducePow, UInt8.reduceToNat]
  omega

theorem writeUint_put (w : EncBuf) (i : Nat) :
    writeUint w i = w.put (Chunk.bytes (Item.str (if i = 0 then [] else putint i)).encode) := by
  have hlen := length_putint_le i
  by_cases h0 : i = 0
  · simp [writeUint, h0, EncBuf.put, Chunk.bytes, Item.encode_str, singleByte, puthead,
      shiftHeads]
  by_cases hsmall : i < 128
  · have hput : putint i = [UInt8.ofNat i] := by simp [putint, show i < 256 by omega]
    have hbyte : UInt8.ofNat i ≤ 0x7F := (ofNat_le_7F_iff (by omega)).mpr hsmall
    simp [writeUint, h0, hsmall, hput, EncBuf.put, Chunk.bytes, Item.encode_str, singleByte, hbyte,
      shiftHeads]
  · have hsingle : singleByte (putint i) = false := by
      by_cases hbyte : i < 256
      · have hhigh : ¬UInt8.ofNat i ≤ 0x7F := fun h => hsmall ((ofNat_le_7F_iff hbyte).mp h)
        simp [putint, hbyte, singleByte, hhigh]
      · apply singleByte_eq_false_of_two_le
        rw [putint, if_neg hbyte, bytesOf, if_neg (by omega), List.length_append,
          List.length_singleton]
        have hne : 0 < (bytesOf 7 (i / 256)).length := length_bytesOf_pos 6 (i / 256) (by omega)
        omega
    simp [writeUint, h0, hsmall, EncBuf.put, Chunk.bytes, Item.encode_str, hsingle, puthead,
      shiftHeads, show (putint i).length < 56 by omega]

theorem writeBool_put (w : EncBuf) (b : Bool) :
    writeBool w b = w.put (Chunk.bytes (Item.str (if b then [1] else [])).encode) := by
  rw [put_bytes]
  cases b <;> rfl

theorem writeBigInt_put (w : EncBuf) (i : Nat) :
    writeBigInt w i = w.put (Chunk.bytes (Item.str (if i = 0 then [] else bytesOf i i)).encode) := by
  by_cases h0 : i = 0
  · rw [put_bytes, writeBigInt, if_pos h0, if_pos h0]
    rfl
  · rw [writeBigInt, if_neg h0, if_neg h0, encodeString_put]

theorem listEnd_put {f : EncBuf → EncBuf} {c : Chunk} (hf : ∀ w, f w = w.put c) (w : EncBuf) :
    (let (w', lh) := w.list; (f w').listEnd lh) = w.put c.wrap := by
  show (f w.list.1).listEnd w.list.2 = w.put c.wrap
  rw [hf, listEnd_put_list]

/-- What a writer of the type `t` does with the value `v`: it appends a chunk that does not depend
on the buffer, and that renders the encoding of the value's items. -/
def WritesItems (write : EncBuf → EncBuf) (items : List Item) : Prop :=
  ∃ c : Chunk, (∀ w, write w = w.put c) ∧ c.Renders (Item.encodeAll items)

theorem writesItems_nil {write : EncBuf → EncBuf} (h : ∀ w, write w = w) :
    WritesItems write [] :=
  ⟨Chunk.nil, fun w => by rw [h, put_nil], Chunk.Renders.nil⟩

theorem writesItems_item {write : EncBuf → EncBuf} {it : Item}
    (h : ∀ w, write w = w.put (Chunk.bytes it.encode)) : WritesItems write [it] :=
  ⟨_, h, Chunk.Renders.item it⟩

theorem writesItems_list {write : EncBuf → EncBuf} {items : List Item}
    (h : WritesItems write items) :
    WritesItems (fun w => let (w', lh) := w.list; (write w').listEnd lh) [.list items] := by
  obtain ⟨c, hw, hc⟩ := h
  exact ⟨c.wrap, listEnd_put hw, Chunk.Renders.list hc⟩

theorem writesItems_comp {f g : EncBuf → EncBuf} {xs ys : List Item} (hf : WritesItems f xs)
    (hg : WritesItems g ys) : WritesItems (fun w => g (f w)) (xs ++ ys) := by
  obtain ⟨c, hfw, hc⟩ := hf
  obtain ⟨d, hgw, hd⟩ := hg
  refine ⟨c.append d, fun w => ?_, ?_⟩
  · show g (f w) = _
    rw [hfw, hgw, put_put]
  · rw [Item.encodeAll_append]
    exact hc.append hd

theorem nilWriter_writesItems : ∀ t : RType, WritesItems (nilWriter t) (nilItems t)
  | .byteArray _ | .bigInt => writesItems_item fun w => by rw [put_bytes]; rfl
  | .uint _ => writesItems_item fun w => writeUint_put w 0
  | .bool => writesItems_item fun w => writeBool_put w false
  | .string => writesItems_item fun w => writeString_put w []
  | .bytes => writesItems_item fun w => encodeString_put w []
  | .array _ _ | .struct _ _ | .slice _ => writesItems_list (writesItems_nil fun _ => rfl)
  | .tail _ => writesItems_nil fun _ => rfl
  | .ptr elem | .optPtr elem => nilWriter_writesItems elem

mutual

theorem writer_writesItems : ∀ (t : RType) (v : RValue), WritesItems (writer t v) (itemsOf t v)
  | t, .uint i => by
      cases t
      case uint => exact writesItems_item fun w => writeUint_put w i
      all_goals exact writesItems_nil fun _ => rfl
  | t, .bool b => by
      cases t
      case bool => exact writesItems_item fun w => writeBool_put w b
      all_goals exact writesItems_nil fun _ => rfl
  | t, .bigInt i => by
      cases t
      case bigInt => exact writesItems_item fun w => writeBigInt_put w i
      all_goals exact writesItems_nil fun _ => rfl
  | t, .bytes s => by
      cases t
      case string => exact writesItems_item fun w => writeString_put w s
      case bytes | byteArray => exact writesItems_item fun w => encodeString_put w s
      all_goals exact writesItems_nil fun _ => rfl
  | t, .list vs => by
      cases t
      case slice elem | array elem => exact writesItems_list (writeElems_writesItems elem vs)
      case tail elem => exact writeElems_writesItems elem vs
      case struct _ fields => exact writesItems_list (writeFields_writesItems fields vs)
      all_goals exact writesItems_nil fun _ => rfl
  | t, .ptr v => by
      cases t
      case ptr elem | optPtr elem => exact writePtr_writesItems elem v
      all_goals exact writesItems_nil fun _ => rfl

theorem writePtr_writesItems (elem : RType) :
    ∀ v : Option RValue, WritesItems (writePtr elem v) (ptrItems elem v)
  | none => nilWriter_writesItems elem
  | some v => writer_writesItems elem v

theorem writeElems_writesItems (elem : RType) :
    ∀ vs : List RValue, WritesItems (writeElems elem vs) (elemsItems elem vs)
  | [] => writesItems_nil fun _ => rfl
  | v :: vs =>
      writesItems_comp (f := writer elem v) (g := writeElems elem vs) (writer_writesItems elem v)
        (writeElems_writesItems elem vs)

theorem writeFields_writesItems :
    ∀ (ts : List (String × RType)) (vs : List RValue),
      WritesItems (writeFields ts vs) (fieldsItems ts vs)
  | [], [] | [], _ :: _ | _ :: _, [] => writesItems_nil fun _ => rfl
  | (_, t) :: ts, v :: vs =>
      writesItems_comp (f := writer t v) (g := writeFields ts vs) (writer_writesItems t v)
        (writeFields_writesItems ts vs)

end

theorem encodeToBytes_items (t : RType) (v : RValue) :
    encodeToBytes t v = Item.encodeAll (itemsOf t v) := by
  obtain ⟨c, hw, hc⟩ := writer_writesItems t v
  rw [encodeToBytes, hw, empty_put, toBytes_eq_render _ hc.fits]
  exact hc.render_eq

end AuroraChain.Rlp
