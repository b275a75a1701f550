import AuroraChain.Rlp.Buffer
import AuroraChain.Lib.BigEndian
/-!
# Raw RLP values: `rlp/raw.go`

`Split` reads the header of the first value of a byte slice with `readKind` and cuts the slice
into that value's content and what follows; `SplitString` and `SplitList` also check its kind,
and `CountValues` counts the values of a slice by skipping one after the other. The trie's
`decodeNode` takes stored nodes apart with them.

`readKind` rejects the headers the encoder never writes: a one-byte string below `0x80`, a long
size below 56 or with a leading zero byte, and a value that runs past the slice. So it reads back
exactly what `Item.encode` wrote, whatever follows it (`split_encode`), as long as the content is
shorter than `2^64` bytes, the most a `uint64` size can say; and `CountValues` of the encodings
of some items is their number (`countValues_encodeAll`).
-/

namespace AuroraChain.Rlp.Raw

/-- `readSize`: the size in the `slen` bytes after a long header. `slen` is 1 to 8 for every
header byte that gets here, and the `switch` reads those bytes big-endian. -/
def readSize (b : List UInt8) (slen : Nat) : Except RlpError Nat :=
  if slen > b.length then .error .unexpectedEOF
  else
    let s := bigEndian (b.take slen)
    -- Reject sizes < 56 (shouldn't have separate size) and sizes with leading zero bytes.
    if s < 56 ∨ b.head? = some 0 then .error .canonSize else .ok s

/-- The `switch` of `readKind` on the first byte `b` of a value, with `rest` after it: the kind,
the size of the header and the size of the content. -/
def readHeader (b : UInt8) (rest : List UInt8) : Except RlpError (Kind × Nat × Nat) :=
  if b < 0x80 then .ok (.byte, 0, 1)
  else if b < 0xB8 then
    -- Reject strings that should've been single bytes.
    if b.toNat - 0x80 = 1 ∧ rest.head?.any (· < 128) then .error .canonSize
    else .ok (.string, 1, b.toNat - 0x80)
  else if b < 0xC0 then
    (readSize rest (b.toNat - 0xB7)).map fun s => (.string, b.toNat - 0xB7 + 1, s)
  else if b < 0xF8 then .ok (.list, 1, b.toNat - 0xC0)
  else (readSize rest (b.toNat - 0xF7)).map fun s => (.list, b.toNat - 0xF7 + 1, s)

/-- `readKind`: the kind of the first value of `buf`, the size of its header, and the size of
its content. -/
def readKind : List UInt8 → Except RlpError (Kind × Nat × Nat)
  | [] => .error .unexpectedEOF
  | b :: rest =>
      (readHeader b rest).bind fun (k, tagsize, contentsize) =>
        -- Reject values larger than the input slice.
        if contentsize > (b :: rest).length - tagsize then .error .valueTooLarge
        else .ok (k, tagsize, contentsize)

/-- `Split`: the kind and content of the first value, and the bytes after it. -/
def split (b : List UInt8) : Except RlpError (Kind × List UInt8 × List UInt8) :=
  (readKind b).map fun (k, ts, cs) => (k, (b.drop ts).take cs, b.drop (ts + cs))

/-- `SplitString`: the content of a first value that is not a list. -/
def splitString (b : List UInt8) : Except RlpError (List UInt8 × List UInt8) :=
  (split b).bind fun (k, content, rest) =>
    if k = .list then .error .expectedString else .ok (content, rest)

/-- `SplitList`: the content of a first value that is a list. -/
def splitList (b : List UInt8) : Except RlpError (List UInt8 × List UInt8) :=
  (split b).bind fun (k, content, rest) =>
    if k ≠ .list then .error .expectedList else .ok (content, rest)

theorem readSize_ok {b : List UInt8} {slen s : Nat} (h : readSize b slen = .ok s) :
    slen ≤ b.length := by
  unfold readSize at h
  split at h
  · cases h
  · omega

theorem map_readSize_ok {rest : List UInt8} {slen : Nat} {k k' : Kind} {ts cs : Nat}
    (h : (readSize rest slen).map (fun s => (k, slen + 1, s)) = .ok (k', ts, cs)) :
    ts = slen + 1 ∧ slen ≤ rest.length := by
  cases hs : readSize rest slen with
  | error e => rw [hs] at h; cases h
  | ok s =>
      rw [hs] at h
      cases h
      exact ⟨rfl, readSize_ok hs⟩

theorem readHeader_pos {b : UInt8} {rest : List UInt8} {k : Kind} {ts cs : Nat}
    (h : readHeader b rest = .ok (k, ts, cs)) : 0 < ts + cs ∧ ts ≤ rest.length + 1 := by
  unfold readHeader at h
  split_ifs at h
  · cases h
    omega
  · cases h
    omega
  · obtain ⟨rfl, hle⟩ := map_readSize_ok h
    omega
  · cases h
    omega
  · obtain ⟨rfl, hle⟩ := map_readSize_ok h
    omega

theorem readKind_cons_ok {b : UInt8} {rest : List UInt8} {k : Kind} {ts cs : Nat}
    (h : readKind (b :: rest) = .ok (k, ts, cs)) :
    readHeader b rest = .ok (k, ts, cs) ∧ cs ≤ rest.length + 1 - ts := by
  rw [readKind] at h
  cases hh : readHeader b rest with
  | error e => rw [hh] at h; cases h
  | ok r =>
      obtain ⟨k', ts', cs'⟩ := r
      rw [hh] at h
      simp only [Except.bind, List.length_cons] at h
      split at h
      · cases h
      · cases h
        exact ⟨rfl, by omega⟩

/-- `CountValues`: the number of values in `b`, one header after the other. -/
def countValues : List UInt8 → Except RlpError Nat
  | [] => .ok 0
  | b :: rest =>
      match hk : readKind (b :: rest) with
      | .error e => .error e
      | .ok (_, tagsize, size) => (countValues ((b :: rest).drop (tagsize + size))).map (· + 1)
termination_by b => b.length
decreasing_by
  have hpos := (readHeader_pos (readKind_cons_ok hk).1).1
  simp only [List.length_drop, List.length_cons]
  omega

/-! ## Reading back what the encoder wrote -/

theorem bigEndian_bytesOf : ∀ n i, bigEndian (bytesOf n i) = i % 256 ^ n
  | 0, i => by simp [bytesOf, bigEndian, Nat.mod_one]
  | n + 1, i => by
      rw [bytesOf]
      split
      · rename_i hi
        simp [hi, bigEndian]
      · have hrec := bigEndian_bytesOf n (i / 256)
        have hlow : (UInt8.ofNat i).toNat = i % 256 := by simp [UInt8.toNat_ofNat']
        have hmod : i % 256 ^ (n + 1) = i % 256 + 256 * (i / 256 % 256 ^ n) := by
          rw [Nat.pow_succ', Nat.mod_mul]
        rw [show bigEndian = BigEndian.ofBytes from rfl] at hrec ⊢
        rw [BigEndian.ofBytes_append_singleton, hrec, hlow, hmod]
        ring

theorem bigEndian_putint {i : Nat} (h : i < 2 ^ 64) : bigEndian (putint i) = i := by
  rw [putint]
  split
  · rename_i hi
    simp [bigEndian, UInt8.toNat_ofNat', Nat.mod_eq_of_lt hi]
  · rw [bigEndian_bytesOf, Nat.mod_eq_of_lt (by simpa using h)]

theorem ofNat_ne_zero_of_lt {i : Nat} (hi : 0 < i) (h : i < 256) : UInt8.ofNat i ≠ 0 := by
  intro h0
  have := congrArg UInt8.toNat h0
  simp only [UInt8.toNat_ofNat', Nat.reducePow, UInt8.toNat_zero] at this
  omega

theorem bytesOf_zero : ∀ n, bytesOf n 0 = []
  | 0 => rfl
  | _ + 1 => by simp [bytesOf]

/-- The bytes of a number that fits them start with a nonzero byte. -/
theorem bytesOf_head_ne_zero : ∀ n i, 0 < i → i < 256 ^ n → (bytesOf n i).head? ≠ some 0
  | 0, i, hi, hlt => by simp at hlt; omega
  | n + 1, i, hi, hlt => by
      rw [bytesOf, if_neg (by omega), List.head?_append]
      by_cases hq : i / 256 = 0
      · simp [hq, bytesOf_zero, ofNat_ne_zero_of_lt hi (show i < 256 by omega)]
      · have hrec := bytesOf_head_ne_zero n (i / 256) (by omega)
          (by rw [Nat.pow_succ] at hlt; omega)
        cases n with
        | zero => simp at hlt; omega
        | succ m =>
            obtain ⟨x, xs, hxs⟩ := List.exists_cons_of_length_pos
              (length_bytesOf_pos m (i / 256) (by omega))
            rw [hxs] at hrec ⊢
            simpa using hrec

theorem length_putint_pos (n : Nat) : 0 < (putint n).length := by
  rw [putint]
  split
  · simp
  · exact length_bytesOf_pos 7 n (by omega)

theorem readSize_putint {n : Nat} (rest : List UInt8) (h56 : 56 ≤ n) (h64 : n < 2 ^ 64) :
    readSize (putint n ++ rest) (putint n).length = .ok n := by
  have hne : (putint n).head? ≠ some 0 := by
    rw [putint]
    split
    · rename_i hi
      simpa using ofNat_ne_zero_of_lt (show 0 < n by omega) hi
    · exact bytesOf_head_ne_zero 8 n (by omega) (by simpa using h64)
  have hhead : (putint n ++ rest).head? ≠ some 0 := by
    obtain ⟨x, xs, hxs⟩ := List.exists_cons_of_length_pos (length_putint_pos n)
    rw [hxs] at hne ⊢
    simpa using hne
  rw [readSize, if_neg (by simp), List.take_left, bigEndian_putint h64,
    if_neg (not_or.mpr ⟨by omega, hhead⟩)]

theorem toNat_tag (t : UInt8) (m : Nat) (h : t.toNat + m < 256) :
    (t + UInt8.ofNat m).toNat = t.toNat + m := by
  simp only [UInt8.toNat_add, UInt8.toNat_ofNat', Nat.reducePow]
  omega

/-- The header of a string that is not its own encoding. -/
theorem readHeader_string {payload : List UInt8} (rest : List UInt8) (hs : singleByte payload = false)
    (h64 : payload.length < 2 ^ 64) :
    readHeader (puthead 0x80 0xB7 payload.length).head! ((puthead 0x80 0xB7 payload.length).tail ++
      payload ++ rest) = .ok (.string, headsize payload.length, payload.length) := by
  by_cases hshort : payload.length < 56
  · have hb := toNat_tag 0x80 payload.length (by simp only [UInt8.reduceToNat]; omega)
    simp only [puthead, if_pos hshort, List.head!_cons, List.tail_cons, List.nil_append, headsize]
    unfold readHeader
    simp only [UInt8.lt_iff_toNat_lt, hb, UInt8.reduceToNat]
    rw [if_neg (by omega), if_pos (by omega), if_neg, Nat.add_sub_cancel_left]
    rintro ⟨hone, hsmall⟩
    obtain ⟨x, rfl⟩ := List.length_eq_one_iff.mp (show payload.length = 1 by omega)
    simp only [singleByte, decide_eq_false_iff_not, UInt8.le_iff_toNat_le,
      UInt8.reduceToNat] at hs
    simp only [List.cons_append, List.head?_cons, Option.any_some, decide_eq_true_eq] at hsmall
    omega
  · have hlen := length_putint_le payload.length
    have hpos := length_putint_pos payload.length
    have hb := toNat_tag 0xB7 (putint payload.length).length (by simp only [UInt8.reduceToNat]; omega)
    simp only [puthead, if_neg hshort, List.head!_cons, List.tail_cons, headsize,
      intsize_eq_length_putint]
    unfold readHeader
    simp only [UInt8.lt_iff_toNat_lt, hb, UInt8.reduceToNat]
    rw [if_neg (by omega), if_neg (by omega), if_pos (by omega), Nat.add_sub_cancel_left,
      List.append_assoc, readSize_putint _ (by omega) h64]
    rw [Nat.add_comm]
    rfl

theorem readHeader_list {n : Nat} (rest : List UInt8) (h64 : n < 2 ^ 64) :
    readHeader (puthead 0xC0 0xF7 n).head! ((puthead 0xC0 0xF7 n).tail ++ rest) =
      .ok (.list, headsize n, n) := by
  by_cases hshort : n < 56
  · have hb := toNat_tag 0xC0 n (by simp only [UInt8.reduceToNat]; omega)
    simp only [puthead, if_pos hshort, List.head!_cons, List.tail_cons, List.nil_append, headsize]
    unfold readHeader
    simp only [UInt8.lt_iff_toNat_lt, hb, UInt8.reduceToNat]
    rw [if_neg (by omega), if_neg (by omega), if_neg (by omega), if_pos (by omega),
      Nat.add_sub_cancel_left]
  · have hlen := length_putint_le n
    have hpos := length_putint_pos n
    have hb := toNat_tag 0xF7 (putint n).length (by simp only [UInt8.reduceToNat]; omega)
    simp only [puthead, if_neg hshort, List.head!_cons, List.tail_cons, headsize,
      intsize_eq_length_putint]
    unfold readHeader
    simp only [UInt8.lt_iff_toNat_lt, hb, UInt8.reduceToNat]
    rw [if_neg (by omega), if_neg (by omega), if_neg (by omega), if_neg (by omega),
      Nat.add_sub_cancel_left, readSize_putint _ (by omega) h64]
    rw [Nat.add_comm]
    rfl

theorem readKind_of_readHeader {b : UInt8} {rest : List UInt8} {k : Kind} {ts cs : Nat}
    (h : readHeader b rest = .ok (k, ts, cs)) (hle : cs ≤ rest.length + 1 - ts) :
    readKind (b :: rest) = .ok (k, ts, cs) := by
  rw [readKind, h]
  simp only [Except.bind, List.length_cons]
  rw [if_neg (by omega)]

theorem puthead_eq_cons (smalltag largetag : UInt8) (size : Nat) :
    puthead smalltag largetag size =
      (puthead smalltag largetag size).head! :: (puthead smalltag largetag size).tail := by
  unfold puthead
  split <;> rfl

theorem readKind_encode (it : Item) (rest : List UInt8) (h64 : it.payload.length < 2 ^ 64) :
    readKind (it.encode ++ rest) = .ok (it.kind, it.header.length, it.payload.length) := by
  cases it with
  | str b =>
      by_cases hs : singleByte b
      · -- a byte up to `0x7F` is its own encoding
        obtain ⟨x, rfl⟩ : ∃ x, b = [x] := by
          match b, hs with
          | [x], _ => exact ⟨x, rfl⟩
        have hx : x < 0x80 := by
          simp only [singleByte, decide_eq_true_eq, UInt8.le_iff_toNat_le,
            UInt8.reduceToNat] at hs
          simp only [UInt8.lt_iff_toNat_lt, UInt8.reduceToNat]
          omega
        simp only [Item.encode_str, Item.header, Item.payload, Item.kind, hs, if_true,
          List.length_nil, List.length_singleton, List.cons_append, List.nil_append]
        exact readKind_of_readHeader (by rw [readHeader, if_pos hx]) (by omega)
      · simp only [Bool.not_eq_true] at hs
        simp only [Item.payload] at h64
        have hh := readHeader_string rest hs h64
        simp only [Item.encode_str, Item.header, Item.payload, Item.kind, hs, Bool.false_eq_true,
          if_false]
        rw [length_puthead, puthead_eq_cons, List.cons_append, List.cons_append]
        refine readKind_of_readHeader hh ?_
        have hlen := length_puthead 0x80 0xB7 b.length
        rw [puthead_eq_cons, List.length_cons] at hlen
        simp only [List.length_append]
        omega
  | list items =>
      simp only [Item.payload] at h64
      have hh := readHeader_list (Item.encodeAll items ++ rest) h64
      simp only [Item.encode_list, Item.header, Item.payload, Item.kind]
      rw [length_puthead, puthead_eq_cons, List.cons_append, List.cons_append, List.append_assoc]
      refine readKind_of_readHeader hh ?_
      have hlen := length_puthead 0xC0 0xF7 (Item.encodeAll items).length
      rw [puthead_eq_cons, List.length_cons] at hlen
      simp only [List.length_append]
      omega

theorem split_encode (it : Item) (rest : List UInt8) (h64 : it.payload.length < 2 ^ 64) :
    split (it.encode ++ rest) = .ok (it.kind, it.payload, rest) := by
  have hdrop : (it.header ++ it.payload ++ rest).drop (it.header.length + it.payload.length) =
      rest := by
    rw [List.append_assoc, List.drop_append, List.drop_of_length_le (by simp), List.nil_append,
      Nat.add_sub_cancel_left, List.drop_left]
  rw [split, readKind_encode it rest h64, Item.encode_eq_header_append]
  simp only [Except.map, List.append_assoc, List.drop_left, List.take_left] at hdrop ⊢
  rw [hdrop]

theorem split_encode_two_strings :
    (Item.list [.str [1, 2], .str [0x80]]).payload.length < 2 ^ 64 ∧
      split ((Item.list [.str [1, 2], .str [0x80]]).encode ++ [0xAA]) =
        .ok ((Item.list [.str [1, 2], .str [0x80]]).kind,
          (Item.list [.str [1, 2], .str [0x80]]).payload, [0xAA]) :=
  ⟨by decide, split_encode _ _ (by decide)⟩

theorem countValues_encodeAll :
    ∀ items : List Item, (∀ it ∈ items, it.payload.length < 2 ^ 64) →
      countValues (Item.encodeAll items) = .ok items.length
  | [], _ => by
      rw [Item.encodeAll_nil, countValues]
      rfl
  | it :: items, h64 => by
      have hk := readKind_encode it (Item.encodeAll items) (h64 it List.mem_cons_self)
      have hrest := countValues_encodeAll items fun it' hit => h64 it' (List.mem_cons_of_mem _ hit)
      have hne : it.encode ++ Item.encodeAll items ≠ [] := by
        intro h0
        rw [h0, readKind] at hk
        cases hk
      obtain ⟨x, xs, hx⟩ := List.exists_cons_of_ne_nil hne
      have hdrop : (x :: xs).drop (it.header.length + it.payload.length) = Item.encodeAll items := by
        rw [← hx, Item.encode_eq_header_append, List.append_assoc, ← List.drop_drop,
          List.drop_left, List.drop_left]
      rw [Item.encodeAll_cons, hx, countValues]
      rw [hx] at hk
      split
      · rename_i e he
        rw [hk] at he
        cases he
      · rename_i k ts cs he
        rw [hk] at he
        cases he
        rw [hdrop, hrest]
        rfl

theorem countValues_encodeAll_three :
    (∀ it ∈ [Item.str [], .str [0x7F], .list [.str [0x80]]], it.payload.length < 2 ^ 64) ∧
      countValues (Item.encodeAll [.str [], .str [0x7F], .list [.str [0x80]]]) =
        .ok [Item.str [], .str [0x7F], .list [.str [0x80]]].length :=
  ⟨by decide, countValues_encodeAll _ (by decide)⟩

end AuroraChain.Rlp.Raw
