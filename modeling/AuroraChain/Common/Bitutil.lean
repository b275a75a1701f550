import AuroraChain.Common.Types
/-!
# Sparse bitset compression: `common/bitutil/compress.go`

`bitsetEncodeBytes` writes a byte string as a bitset with one bit for each byte, set where the
byte is not zero, followed by the non-zero bytes; the bitset, a string itself, is written the same
way in front, down to one byte or nothing. `CompressBytes` keeps the result only if it is shorter,
and `DecompressBytes` reads an input as long as the target as stored uncompressed.

Decoding runs the same recursion with the target length in place of the data: it first decodes
the bitset from the front of the input, as long as `(target + 7) / 8`, and then walks its bits,
taking the next non-zero byte for each set bit. The round trip (`decompress_compress`) rests on
one lemma by induction on the length (`decodePartial_encode`): what `bitsetEncodeBytes` writes,
followed by anything, decodes back with the pointer at its end. The one condition is that
whatever follows an encoding of only zero bytes is empty. Such an encoding is empty, and the
decoder would read the bytes after it instead. A bitset is never all zero when the data it
describes is not, which is what the recursion needs.
-/

namespace AuroraChain.Bitutil

/-- The errors of decompression. -/
inductive BitutilError where
  /-- `errMissingData`: the bitset references a byte past the end of the input. -/
  | errMissingData
  /-- `errUnreferencedData`: input bytes are left over. -/
  | errUnreferencedData
  /-- `errExceededTarget`: the bitset sets a bit past the target length. -/
  | errExceededTarget
  /-- `errZeroContent`: a byte the bitset references is zero. -/
  | errZeroContent
  deriving DecidableEq, Repr

/-- The bit of position `i` in its bitset byte, most significant first: `1 << byte(7-i%8)`. -/
def mask (i : Nat) : UInt8 := (1 : UInt8) <<< UInt8.ofNat (7 - i % 8)

/-- The loop `for i, b := range data` of `bitsetEncodeBytes`, from index `i`: the non-zero bytes
gathered so far and the bitset. -/
def encodeLoop : Nat → List UInt8 → List UInt8 × List UInt8 → List UInt8 × List UInt8
  | _, [], acc => acc
  | i, b :: rest, acc =>
      if b ≠ 0 then encodeLoop (i + 1) rest (acc.1 ++ [b], acc.2.modify (i / 8) (· ||| mask i))
      else encodeLoop (i + 1) rest acc

theorem encodeLoop_length : ∀ (i : Nat) (data : List UInt8) (acc : List UInt8 × List UInt8),
    (encodeLoop i data acc).2.length = acc.2.length
  | _, [], _ => rfl
  | i, b :: rest, acc => by
      rw [encodeLoop]
      split
      · rw [encodeLoop_length, List.length_modify]
      · rw [encodeLoop_length]

def bitsetEncodeBytes (data : List UInt8) : List UInt8 :=
  if data.length = 0 then []
  else if data.length = 1 then (if data.getD 0 0 = 0 then [] else data)
  else
    let loop := encodeLoop 0 data ([], List.replicate ((data.length + 7) / 8) 0)
    if loop.1.length = 0 then [] else bitsetEncodeBytes loop.2 ++ loop.1
termination_by data.length
decreasing_by
  rw [encodeLoop_length, List.length_replicate]
  omega

/-- `CompressBytes`: the encoding if it is shorter, a copy of the data otherwise. -/
def compressBytes (data : List UInt8) : List UInt8 :=
  if (bitsetEncodeBytes data).length < data.length then bitsetEncodeBytes data else data

/-- The loop `for i := 0; i < 8*len(nonZeroBitset); i++` of `bitsetDecodePartialBytes`, at `i` with
`n` rounds left: the output being filled and the read pointer. -/
def decodeLoop (data nonZeroBitset : List UInt8) :
    Nat → Nat → List UInt8 → Nat → Except BitutilError (List UInt8 × Nat)
  | 0, _, decomp, ptr => .ok (decomp, ptr)
  | n + 1, i, decomp, ptr =>
      if nonZeroBitset.getD (i / 8) 0 &&& mask i ≠ 0 then
        if ptr ≥ data.length then .error .errMissingData
        else if i ≥ decomp.length then .error .errExceededTarget
        else if data.getD ptr 0 = 0 then .error .errZeroContent
        else decodeLoop data nonZeroBitset n (i + 1) (decomp.set i (data.getD ptr 0)) (ptr + 1)
      else decodeLoop data nonZeroBitset n (i + 1) decomp ptr

/-- `bitsetDecodePartialBytes`: the output and how much of the input it took. -/
def bitsetDecodePartialBytes (data : List UInt8) (target : Nat) :
    Except BitutilError (List UInt8 × Nat) :=
  if target = 0 then .ok ([], 0)
  else if data.length = 0 then .ok (List.replicate target 0, 0)
  else if target = 1 then
    let decomp := (List.replicate target 0).set 0 (data.getD 0 0)
    if data.getD 0 0 ≠ 0 then .ok (decomp, 1) else .ok (decomp, 0)
  else
    match bitsetDecodePartialBytes data ((target + 7) / 8) with
    | .error e => .error e
    | .ok (nonZeroBitset, ptr) =>
        decodeLoop data nonZeroBitset (8 * nonZeroBitset.length) 0 (List.replicate target 0) ptr
termination_by target
decreasing_by omega

/-- `bitsetDecodeBytes`: all of the input must be taken. -/
def bitsetDecodeBytes (data : List UInt8) (target : Nat) : Except BitutilError (List UInt8) :=
  match bitsetDecodePartialBytes data target with
  | .error e => .error e
  | .ok (out, size) => if size ≠ data.length then .error .errUnreferencedData else .ok out

/-- `DecompressBytes`: an input as long as the target was not compressed. -/
def decompressBytes (data : List UInt8) (target : Nat) : Except BitutilError (List UInt8) :=
  if data.length > target then .error .errExceededTarget
  else if data.length = target then .ok data
  else bitsetDecodeBytes data target

/-! ### The bits of a bitset -/

/-- Bit `i` of a bitset: bit `7 - i % 8` of byte `i / 8`. -/
def bitAt (bitset : List UInt8) (i : Nat) : Bool := (bitset.getD (i / 8) 0).toNat.testBit (7 - i % 8)

theorem mask_toNat (i : Nat) : (mask i).toNat = 2 ^ (7 - i % 8) := by
  have hk : 7 - i % 8 < 8 := by omega
  rw [mask, UInt8.toNat_shiftLeft, UInt8.toNat_ofNat', Nat.mod_eq_of_lt (by omega : 7 - i % 8 < 2 ^ 8),
    Nat.mod_eq_of_lt hk, UInt8.toNat_one, Nat.one_shiftLeft]
  exact Nat.mod_eq_of_lt (Nat.pow_lt_pow_right (by decide) hk)

theorem and_mask_ne_zero (bitset : List UInt8) (i : Nat) :
    bitset.getD (i / 8) 0 &&& mask i ≠ 0 ↔ bitAt bitset i = true := by
  rw [bitAt, ne_eq, ← UInt8.toNat_inj, UInt8.toNat_and, mask_toNat, Nat.and_two_pow, UInt8.toNat_zero]
  cases (bitset.getD (i / 8) 0).toNat.testBit (7 - i % 8)
  · simp
  · simp

theorem getD_modify_self {l : List UInt8} {n : Nat} (f : UInt8 → UInt8) (h : n < l.length) :
    (l.modify n f).getD n 0 = f (l.getD n 0) := by
  rw [List.getD_eq_getElem?_getD, List.getElem?_modify, List.getD_eq_getElem?_getD,
    List.getElem?_eq_getElem h]
  simp

theorem getD_modify_ne {l : List UInt8} {n m : Nat} (f : UInt8 → UInt8) (h : m ≠ n) :
    (l.modify n f).getD m 0 = l.getD m 0 := by
  rw [List.getD_eq_getElem?_getD, List.getElem?_modify, List.getD_eq_getElem?_getD]
  cases l[m]? <;> simp [Ne.symm h]

theorem bitAt_modify {bitset : List UInt8} {i : Nat} (hi : i / 8 < bitset.length) (j : Nat) :
    bitAt (bitset.modify (i / 8) (· ||| mask i)) j = true ↔ bitAt bitset j = true ∨ j = i := by
  unfold bitAt
  by_cases hj : j / 8 = i / 8
  · rw [hj, getD_modify_self _ hi, UInt8.toNat_or, mask_toNat, Nat.testBit_or, Nat.testBit_two_pow,
      Bool.or_eq_true, decide_eq_true_iff]
    have hpos : 7 - i % 8 = 7 - j % 8 ↔ j = i := by omega
    rw [hpos]
  · rw [getD_modify_ne _ hj]
    have hji : j ≠ i := fun h => hj (by rw [h])
    exact ⟨.inl, fun h => h.resolve_right hji⟩

theorem bitAt_replicate (n j : Nat) : bitAt (List.replicate n 0) j = false := by
  rw [bitAt, List.getD_eq_getElem?_getD, List.getElem?_replicate]
  split <;> simp

/-! ### What the encoder gathers -/

theorem cons_getD_ne_zero_iff (b : UInt8) (rest : List UInt8) (i j : Nat) :
    (i ≤ j ∧ (b :: rest).getD (j - i) 0 ≠ 0) ↔
      (j = i ∧ b ≠ 0) ∨ (i + 1 ≤ j ∧ rest.getD (j - (i + 1)) 0 ≠ 0) := by
  rcases Nat.lt_trichotomy j i with hlt | rfl | hgt
  · constructor
    · rintro ⟨hle, -⟩
      omega
    · rintro (⟨rfl, -⟩ | ⟨hle, -⟩) <;> omega
  · rw [Nat.sub_self, List.getD_cons_zero]
    constructor
    · rintro ⟨-, hb⟩
      exact .inl ⟨rfl, hb⟩
    · rintro (⟨-, hb⟩ | ⟨hle, -⟩)
      · exact ⟨le_refl _, hb⟩
      · omega
  · have hsub : j - i = j - (i + 1) + 1 := by omega
    rw [hsub, List.getD_cons_succ]
    constructor
    · rintro ⟨-, h⟩
      exact .inr ⟨hgt, h⟩
    · rintro (⟨rfl, -⟩ | ⟨-, h⟩)
      · omega
      · exact ⟨le_of_lt hgt, h⟩

/-- The encoder's loop from index `i` over `rest`: it gathers the non-zero bytes, and sets the bit
of every position that holds one. -/
theorem encodeLoop_spec : ∀ (rest : List UInt8) (i : Nat) (acc : List UInt8 × List UInt8),
    i + rest.length ≤ 8 * acc.2.length →
    (encodeLoop i rest acc).1 = acc.1 ++ rest.filter (fun b => b ≠ 0) ∧
    ∀ j, bitAt (encodeLoop i rest acc).2 j = true ↔
      bitAt acc.2 j = true ∨ (i ≤ j ∧ rest.getD (j - i) 0 ≠ 0)
  | [], i, acc, _ => by
      refine ⟨by rw [encodeLoop, List.filter_nil, List.append_nil], fun j => ?_⟩
      rw [encodeLoop, List.getD_nil]
      simp
  | b :: rest, i, acc, hfit => by
      rw [List.length_cons] at hfit
      have hi : i / 8 < acc.2.length := by omega
      by_cases hb : b = 0
      · -- a zero byte: nothing gathered, no bit set
        rw [encodeLoop, if_neg (not_not.mpr hb)]
        obtain ⟨h1, h2⟩ := encodeLoop_spec rest (i + 1) acc (by omega)
        refine ⟨by rw [h1, List.filter_cons_of_neg (by simpa using hb)], fun j => ?_⟩
        rw [h2 j, cons_getD_ne_zero_iff]
        simp [hb]
      · rw [encodeLoop, if_pos hb]
        obtain ⟨h1, h2⟩ := encodeLoop_spec rest (i + 1)
          (acc.1 ++ [b], acc.2.modify (i / 8) (· ||| mask i)) (by rw [List.length_modify]; omega)
        refine ⟨by rw [h1, List.filter_cons_of_pos (by simpa using hb), List.append_assoc,
          List.singleton_append], fun j => ?_⟩
        rw [h2 j, bitAt_modify hi, cons_getD_ne_zero_iff]
        simp only [hb, ne_eq, not_false_eq_true, and_true]
        exact or_assoc

/-- The encoder's loop over all of `data` from a zero bitset: the non-zero bytes, and a bitset of
`(len + 7) / 8` bytes with the bit of each position set exactly where the byte is not zero. -/
theorem encodeLoop_data (data : List UInt8) :
    (encodeLoop 0 data ([], List.replicate ((data.length + 7) / 8) 0)).1 =
        data.filter (fun b => b ≠ 0) ∧
      (encodeLoop 0 data ([], List.replicate ((data.length + 7) / 8) 0)).2.length =
        (data.length + 7) / 8 ∧
      ∀ j, bitAt (encodeLoop 0 data ([], List.replicate ((data.length + 7) / 8) 0)).2 j = true ↔
        data.getD j 0 ≠ 0 := by
  obtain ⟨h1, h2⟩ := encodeLoop_spec data 0 ([], List.replicate ((data.length + 7) / 8) 0)
    (by rw [List.length_replicate]; omega)
  refine ⟨by rw [h1, List.nil_append], by rw [encodeLoop_length, List.length_replicate],
    fun j => ?_⟩
  rw [h2 j, bitAt_replicate, Nat.sub_zero]
  simp

/-! ### What the decoder's loop fills in -/

theorem take_replicate_set {d : List UInt8} {i : Nat} (hi : i < d.length) :
    (d.take i ++ List.replicate (d.length - i) 0).set i d[i] =
      d.take (i + 1) ++ List.replicate (d.length - (i + 1)) 0 := by
  have hrep : d.length - i = d.length - (i + 1) + 1 := by omega
  have hlen : (d.take i).length ≤ i := List.length_take_le _ _
  rw [hrep, List.replicate_succ, List.set_append_right _ _ hlen, List.length_take_of_le hi.le,
    Nat.sub_self, List.set_cons_zero, List.take_add_one, List.getElem?_eq_getElem hi,
    Option.toList_some, List.append_assoc, List.singleton_append]

theorem take_replicate_of_zero {d : List UInt8} {i : Nat} (hx : d.getD i 0 = 0) :
    d.take i ++ List.replicate (d.length - i) 0 =
      d.take (i + 1) ++ List.replicate (d.length - (i + 1)) 0 := by
  by_cases hi : i < d.length
  · rw [List.getD_eq_getElem _ _ hi] at hx
    have hrep : d.length - i = d.length - (i + 1) + 1 := by omega
    rw [hrep, List.replicate_succ, List.take_add_one, List.getElem?_eq_getElem hi, hx,
      Option.toList_some, List.append_assoc, List.singleton_append]
  · rw [List.take_of_length_le (by omega), List.take_of_length_le (by omega),
      Nat.sub_eq_zero_of_le (by omega), Nat.sub_eq_zero_of_le (by omega)]

theorem filter_drop_of_zero {d : List UInt8} {i : Nat} (hx : d.getD i 0 = 0) :
    (d.drop i).filter (fun b => b ≠ 0) = (d.drop (i + 1)).filter (fun b => b ≠ 0) := by
  by_cases hi : i < d.length
  · rw [List.getD_eq_getElem _ _ hi] at hx
    rw [List.drop_eq_getElem_cons hi, List.filter_cons_of_neg (by simpa using hx)]
  · rw [List.drop_eq_nil_of_le (by omega), List.drop_eq_nil_of_le (by omega)]

theorem filter_drop_of_ne_zero {d : List UInt8} {i : Nat} (hi : i < d.length) (hx : d[i] ≠ 0) :
    (d.drop i).filter (fun b => b ≠ 0) = d[i] :: (d.drop (i + 1)).filter (fun b => b ≠ 0) := by
  rw [List.drop_eq_getElem_cons hi, List.filter_cons_of_pos (by simpa using hx)]

theorem drop_eq_cons {data t : List UInt8} {ptr : Nat} {x : UInt8} (h : data.drop ptr = x :: t) :
    ptr < data.length ∧ data.getD ptr 0 = x ∧ data.drop (ptr + 1) = t := by
  have hget : data[ptr]? = some x := by
    rw [← Nat.add_zero ptr, ← List.getElem?_drop, h]
    rfl
  refine ⟨?_, by rw [List.getD_eq_getElem?_getD, hget]; rfl, ?_⟩
  · by_contra hge
    rw [List.getElem?_eq_none (by omega)] at hget
    cases hget
  · rw [← List.drop_drop, h]
    rfl

/-- The decoder's loop over a bitset that marks the non-zero bytes of `d`: with the input from
the pointer holding the non-zero bytes of `d` from `i` on, it fills in the rest of `d` and moves
the pointer past them. The invariant is the output filled up to `i`. -/
theorem decodeLoop_spec {d rest data bitset : List UInt8}
    (hbits : ∀ j, bitAt bitset j = true ↔ d.getD j 0 ≠ 0) (hlen : d.length ≤ 8 * bitset.length) :
    ∀ (m i ptr : Nat), i + m = 8 * bitset.length →
      data.drop ptr = (d.drop i).filter (fun b => b ≠ 0) ++ rest →
      decodeLoop data bitset m i (d.take i ++ List.replicate (d.length - i) 0) ptr =
        .ok (d, ptr + ((d.drop i).filter (fun b => b ≠ 0)).length)
  | 0, i, ptr, hm, _ => by
      rw [Nat.add_zero] at hm
      rw [decodeLoop, List.take_of_length_le (by omega), Nat.sub_eq_zero_of_le (by omega),
        List.replicate_zero, List.append_nil, List.drop_eq_nil_of_le (by omega), List.filter_nil,
        List.length_nil, Nat.add_zero]
  | m + 1, i, ptr, hm, hdata => by
      rw [decodeLoop]
      by_cases hx : d.getD i 0 = 0
      · -- a clear bit: the position holds a zero byte, or lies past the end
        rw [if_neg (fun h => (hbits i).mp ((and_mask_ne_zero bitset i).mp h) hx),
          take_replicate_of_zero hx, filter_drop_of_zero hx]
        rw [filter_drop_of_zero hx] at hdata
        exact decodeLoop_spec hbits hlen m (i + 1) ptr (by omega) hdata
      · -- a set bit: the next input byte is the byte of `d` at `i`
        have hi : i < d.length := by
          by_contra hge
          exact hx (List.getD_eq_default _ _ (by omega))
        rw [List.getD_eq_getElem _ _ hi] at hx
        rw [filter_drop_of_ne_zero hi hx, List.cons_append] at hdata
        obtain ⟨hptr, hget, hnext⟩ := drop_eq_cons hdata
        have hdlen : (d.take i ++ List.replicate (d.length - i) 0).length = d.length := by
          rw [List.length_append, List.length_take_of_le hi.le, List.length_replicate]
          omega
        rw [if_pos ((and_mask_ne_zero bitset i).mpr ((hbits i).mpr
            (by rw [List.getD_eq_getElem _ _ hi]; exact hx))),
          if_neg (by omega), if_neg (by omega), hget, if_neg hx, take_replicate_set hi,
          decodeLoop_spec hbits hlen m (i + 1) (ptr + 1) (by omega) hnext,
          filter_drop_of_ne_zero hi hx, List.length_cons]
        rw [Nat.add_assoc, Nat.add_comm 1]

/-! ### The recursion -/

theorem bitsetEncodeBytes_nil : bitsetEncodeBytes [] = [] := by
  rw [bitsetEncodeBytes, List.length_nil, if_pos rfl]

theorem bitsetEncodeBytes_single (x : UInt8) : bitsetEncodeBytes [x] = if x = 0 then [] else [x] := by
  rw [bitsetEncodeBytes, List.length_singleton, if_neg one_ne_zero, if_pos rfl]
  rfl

/-- Two bytes or more: the encoded bitset of the data, then its non-zero bytes, or nothing if
there are none. -/
theorem bitsetEncodeBytes_of_two_le {data : List UInt8} (h : 2 ≤ data.length) :
    bitsetEncodeBytes data =
      if data.filter (fun b => b ≠ 0) = [] then []
      else bitsetEncodeBytes (encodeLoop 0 data ([], List.replicate ((data.length + 7) / 8) 0)).2 ++
        data.filter (fun b => b ≠ 0) := by
  rw [bitsetEncodeBytes, if_neg (by omega), if_neg (by omega)]
  simp only [(encodeLoop_data data).1, List.length_eq_zero_iff]

theorem decodePartial_zero (data : List UInt8) : bitsetDecodePartialBytes data 0 = .ok ([], 0) := by
  rw [bitsetDecodePartialBytes, if_pos rfl]

theorem decodePartial_nil {target : Nat} (ht : target ≠ 0) :
    bitsetDecodePartialBytes [] target = .ok (List.replicate target 0, 0) := by
  rw [bitsetDecodePartialBytes, if_neg ht, List.length_nil, if_pos rfl]

theorem decodePartial_one (x : UInt8) (rest : List UInt8) :
    bitsetDecodePartialBytes (x :: rest) 1 = .ok ([x], if x ≠ 0 then 1 else 0) := by
  rw [bitsetDecodePartialBytes, if_neg one_ne_zero, if_neg (by simp), if_pos rfl]
  by_cases hx : x = 0 <;> simp [hx]

/-- Two bytes or more of output: the bitset is decoded from the front, then its bits walked. -/
theorem decodePartial_of_two_le {data bitset : List UInt8} {target ptr : Nat} (ht : 2 ≤ target)
    (hd : data ≠ []) (hrec : bitsetDecodePartialBytes data ((target + 7) / 8) = .ok (bitset, ptr)) :
    bitsetDecodePartialBytes data target =
      decodeLoop data bitset (8 * bitset.length) 0 (List.replicate target 0) ptr := by
  rw [bitsetDecodePartialBytes, if_neg (by omega), if_neg (by simpa using hd), if_neg (by omega),
    hrec]

theorem exists_ne_zero_of_bitAt {bitset : List UInt8} {j : Nat} (h : bitAt bitset j = true) :
    ∃ x ∈ bitset, x ≠ 0 := by
  unfold bitAt at h
  by_cases hj : j / 8 < bitset.length
  · rw [List.getD_eq_getElem _ _ hj] at h
    refine ⟨_, List.getElem_mem hj, fun h0 => ?_⟩
    rw [h0, UInt8.toNat_zero, Nat.zero_testBit] at h
    cases h
  · rw [List.getD_eq_default _ _ (by omega), UInt8.toNat_zero, Nat.zero_testBit] at h
    cases h

/-- What `bitsetEncodeBytes` writes, followed by anything, decodes back to the data with the
pointer at the end of the encoding, unless an encoding of zero bytes only is followed by more.
By induction on the length: the bitset is shorter than the data it describes. -/
theorem decodePartial_encode : ∀ (n : Nat) (d rest : List UInt8), d.length = n →
    (rest = [] ∨ ∃ x ∈ d, x ≠ 0) →
    bitsetDecodePartialBytes (bitsetEncodeBytes d ++ rest) d.length =
      .ok (d, (bitsetEncodeBytes d).length) := by
  intro n
  induction n using Nat.strong_induction_on with
  | _ n ih =>
  intro d rest hn hrest
  rcases d with _ | ⟨x, _ | ⟨y, t⟩⟩
  · rw [bitsetEncodeBytes_nil, List.length_nil, decodePartial_zero]
  · rw [bitsetEncodeBytes_single]
    by_cases hx : x = 0
    · have hr : rest = [] := hrest.resolve_right (by simp [hx])
      subst hx hr
      rw [if_pos rfl, List.append_nil, List.length_singleton, decodePartial_nil one_ne_zero]
      rfl
    · rw [if_neg hx, List.length_singleton, List.singleton_append, decodePartial_one, if_pos hx]
  · have h2 : 2 ≤ (x :: y :: t).length := by simp
    rw [bitsetEncodeBytes_of_two_le h2]
    by_cases hz : (x :: y :: t).filter (fun b => b ≠ 0) = []
    · have hzero : ∀ b ∈ x :: y :: t, b = 0 := fun b hb => by
        simpa using List.filter_eq_nil_iff.mp hz b hb
      have hr : rest = [] := hrest.resolve_right (by
        rintro ⟨b, hb, hne⟩
        exact hne (hzero b hb))
      subst hr
      rw [if_pos hz, List.append_nil, decodePartial_nil (by simp), List.length_nil,
        ← List.eq_replicate_iff.mpr ⟨rfl, hzero⟩]
    · obtain ⟨-, hblen, hbits⟩ := encodeLoop_data (x :: y :: t)
      rw [if_neg hz]
      generalize (encodeLoop 0 (x :: y :: t)
        ([], List.replicate (((x :: y :: t).length + 7) / 8) 0)).2 = bitset at hblen hbits ⊢
      -- the bitset describes data that is not all zero, so it is not all zero either
      obtain ⟨z, hz_mem⟩ := List.exists_mem_of_ne_nil _ hz
      obtain ⟨hz_d, hz_ne⟩ := List.mem_filter.mp hz_mem
      obtain ⟨j, hj, hjz⟩ := List.getElem_of_mem hz_d
      have hbit : bitAt bitset j = true :=
        (hbits j).mpr (by rw [List.getD_eq_getElem _ _ hj, hjz]; simpa using hz_ne)
      have hlt : bitset.length < n := by
        rw [hblen, ← hn]
        simp only [List.length_cons]
        omega
      have hrec := ih bitset.length hlt bitset ((x :: y :: t).filter (fun b => b ≠ 0) ++ rest) rfl
        (.inr (exists_ne_zero_of_bitAt hbit))
      rw [hblen] at hrec
      have hne : bitsetEncodeBytes bitset ++ ((x :: y :: t).filter (fun b => b ≠ 0) ++ rest) ≠ [] :=
        List.append_ne_nil_of_right_ne_nil _ (List.append_ne_nil_of_left_ne_nil hz rest)
      rw [List.append_assoc, decodePartial_of_two_le h2 hne hrec]
      have hdrop : (bitsetEncodeBytes bitset ++ ((x :: y :: t).filter (fun b => b ≠ 0) ++ rest)).drop
          (bitsetEncodeBytes bitset).length =
          ((x :: y :: t).drop 0).filter (fun b => b ≠ 0) ++ rest := by
        rw [List.drop_left, List.drop_zero]
      have hloop := decodeLoop_spec hbits (by rw [hblen]; omega) (8 * bitset.length) 0 _
        (by omega) hdrop
      rw [List.take_zero, List.nil_append, Nat.sub_zero, List.drop_zero] at hloop
      rw [hloop, List.length_append]

/-- `DecompressBytes(CompressBytes(d), len(d))` gives `d` back, and compressing never makes the
data longer. -/
theorem decompress_compress (d : List UInt8) :
    decompressBytes (compressBytes d) d.length = .ok d ∧ (compressBytes d).length ≤ d.length := by
  unfold compressBytes
  split
  · rename_i hshort
    refine ⟨?_, le_of_lt hshort⟩
    have hdec := decodePartial_encode d.length d [] rfl (.inl rfl)
    rw [List.append_nil] at hdec
    rw [decompressBytes, if_neg (by omega), if_neg (by omega), bitsetDecodeBytes, hdec]
    simp
  · refine ⟨?_, le_refl _⟩
    rw [decompressBytes, if_neg (lt_irrefl _), if_pos rfl]

end AuroraChain.Bitutil
