import Mathlib
/-!
# Big-endian byte strings

A natural number as a big-endian string of bytes, the way `math/big` reads one (`SetBytes`) and a
fixed-width field holds one. `ofBytes` reads a string, `toBytes n` writes the `n`-byte field, and
`leftPad n` right-aligns a shorter string in an `n`-byte field of zeros, as a `copy` into the tail
of a zeroed buffer does.

Writing a field back from what it spells gives the field (`toBytes_ofBytes`), and what a string
spells fits its width (`ofBytes_lt`). Strings are taken apart at their last byte, the digit that
`/ 256` and `% 256` reach first.

`compareBytes` is `bytes.Compare`, the lexicographic order of byte strings. On fields of one
width it is the order of the numbers they hold (`compareBytes_toBytes`).
-/

namespace BigEndian

/-- The number a big-endian byte string spells. -/
def ofBytes (b : List UInt8) : Nat := b.foldl (fun acc x => acc * 256 + x.toNat) 0

/-- The `n`-byte big-endian field of `i`: its low `n` bytes. -/
def toBytes : Nat → Nat → List UInt8
  | 0, _ => []
  | n + 1, i => toBytes n (i / 256) ++ [UInt8.ofNat i]

/-- `b` right-aligned in an `n`-byte field of zeros. -/
def leftPad (n : Nat) (b : List UInt8) : List UInt8 := List.replicate (n - b.length) 0 ++ b

@[simp] theorem ofBytes_nil : ofBytes [] = 0 := rfl

@[simp] theorem ofBytes_append_singleton (b : List UInt8) (x : UInt8) :
    ofBytes (b ++ [x]) = ofBytes b * 256 + x.toNat := by
  rw [ofBytes, List.foldl_append]
  rfl

theorem ofBytes_lt (b : List UInt8) : ofBytes b < 256 ^ b.length := by
  induction b using List.reverseRecOn with
  | nil => exact Nat.one_pos
  | append_singleton b x ih =>
      rw [ofBytes_append_singleton, List.length_append, List.length_singleton, Nat.pow_succ]
      have hx := x.toNat_lt
      omega

theorem ofNat_mul_add (a : Nat) (x : UInt8) : UInt8.ofNat (a * 256 + x.toNat) = x := by
  apply UInt8.toNat_inj.mp
  rw [UInt8.toNat_ofNat']
  have hx := x.toNat_lt
  omega

theorem toBytes_ofBytes (b : List UInt8) : toBytes b.length (ofBytes b) = b := by
  induction b using List.reverseRecOn with
  | nil => rfl
  | append_singleton b x ih =>
      have hx := x.toNat_lt
      rw [List.length_append, List.length_singleton, toBytes, ofBytes_append_singleton,
        show (ofBytes b * 256 + x.toNat) / 256 = ofBytes b by omega, ih, ofNat_mul_add]

theorem toBytes_zero : ∀ n, toBytes n 0 = List.replicate n 0
  | 0 => rfl
  | n + 1 => by
      rw [toBytes, Nat.zero_div, toBytes_zero n, List.replicate_succ']
      rfl

theorem leftPad_append_singleton (n : Nat) (b : List UInt8) (x : UInt8) :
    leftPad (n + 1) (b ++ [x]) = leftPad n b ++ [x] := by
  rw [leftPad, leftPad, List.length_append, List.length_singleton, Nat.add_sub_add_right,
    List.append_assoc]

theorem leftPad_nil (n : Nat) : leftPad n [] = List.replicate n 0 := by
  rw [leftPad, List.length_nil, Nat.sub_zero, List.append_nil]

/-! ### The order of byte strings -/

/-- `bytes.Compare`: the first differing byte decides, and a proper prefix comes first. -/
def compareBytes : List UInt8 → List UInt8 → Ordering
  | [], [] => .eq
  | [], _ :: _ => .lt
  | _ :: _, [] => .gt
  | x :: a, y :: b => if x < y then .lt else if y < x then .gt else compareBytes a b

theorem compareBytes_singleton (x y : UInt8) : compareBytes [x] [y] = compare x.toNat y.toNat := by
  rw [compareBytes, compareBytes]
  rcases lt_trichotomy x.toNat y.toNat with h | h | h
  · rw [if_pos (UInt8.lt_iff_toNat_lt.mpr h), (compare_lt_iff_lt).mpr h]
  · have hxy : x = y := UInt8.toNat_inj.mp h
    subst hxy
    have hirr : ¬ x < x := fun hh => Nat.lt_irrefl _ (UInt8.lt_iff_toNat_lt.mp hh)
    rw [if_neg hirr, if_neg hirr, (compare_eq_iff_eq).mpr rfl]
  · rw [if_neg (fun hh => absurd (UInt8.lt_iff_toNat_lt.mp hh) (not_lt.mpr h.le)),
      if_pos (UInt8.lt_iff_toNat_lt.mpr h), (compare_gt_iff_gt).mpr h]

/-- Strings of one length are compared first on all but their last bytes. -/
theorem compareBytes_append_singleton :
    ∀ (a b : List UInt8) (x y : UInt8), a.length = b.length →
      compareBytes (a ++ [x]) (b ++ [y]) = (compareBytes a b).then (compareBytes [x] [y])
  | [], [], x, y, _ => rfl
  | [], _ :: _, _, _, h => absurd h (by simp)
  | _ :: _, [], _, _, h => absurd h (by simp)
  | u :: a, w :: b, x, y, h => by
      rw [List.cons_append, List.cons_append, compareBytes, compareBytes]
      split
      · rfl
      · split
        · rfl
        · exact compareBytes_append_singleton a b x y (by simpa using h)

theorem compare_mul_add {p q u w : Nat} (hu : u < 256) (hw : w < 256) :
    compare (256 * p + u) (256 * q + w) = (compare p q).then (compare u w) := by
  rcases lt_trichotomy p q with h | rfl | h
  · rw [(compare_lt_iff_lt).mpr h, (compare_lt_iff_lt).mpr (by omega)]
    rfl
  · rw [(compare_eq_iff_eq).mpr (rfl : p = p)]
    show compare (256 * p + u) (256 * p + w) = compare u w
    rcases lt_trichotomy u w with h' | rfl | h'
    · rw [(compare_lt_iff_lt).mpr h', (compare_lt_iff_lt).mpr (by omega)]
    · rw [(compare_eq_iff_eq).mpr (rfl : 256 * p + u = 256 * p + u), (compare_eq_iff_eq).mpr (rfl : u = u)]
    · rw [(compare_gt_iff_gt).mpr h', (compare_gt_iff_gt).mpr (by omega)]
  · rw [(compare_gt_iff_gt).mpr h, (compare_gt_iff_gt).mpr (by omega)]
    rfl

/-- On fields of one width, `bytes.Compare` is the order of the numbers they hold. -/
theorem compareBytes_toBytes : ∀ (n x y : Nat),
    compareBytes (toBytes n x) (toBytes n y) = compare (x % 256 ^ n) (y % 256 ^ n)
  | 0, x, y => by
      rw [Nat.pow_zero, Nat.mod_one, Nat.mod_one]
      rfl
  | n + 1, x, y => by
      have hlen : ∀ m i, (toBytes m i).length = m := by
        intro m
        induction m with
        | zero => intro i; rfl
        | succ m ih => intro i; rw [toBytes, List.length_append, ih, List.length_singleton]
      have h256 : (2 : Nat) ^ 8 = 256 := rfl
      have hpow : 256 ^ (n + 1) = 256 * 256 ^ n := Nat.pow_succ'
      rw [toBytes, toBytes, compareBytes_append_singleton _ _ _ _ (by rw [hlen, hlen]),
        compareBytes_toBytes n, compareBytes_singleton, UInt8.toNat_ofNat', UInt8.toNat_ofNat', h256,
        hpow, Nat.mod_mul, Nat.mod_mul, Nat.add_comm (x % 256), Nat.add_comm (y % 256)]
      exact (compare_mul_add (Nat.mod_lt _ (by decide)) (Nat.mod_lt _ (by decide))).symm

end BigEndian
