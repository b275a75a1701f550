import AuroraChain.Common.Types
/-!
# Trie keys: `trie/encoding.go`

A key reaches the trie as bytes (KEYBYTES), is walked as nibbles followed by the terminator 16
(HEX), and is stored in a short node's encoding with the terminator and the parity folded into a
flag byte (COMPACT, the hex prefix encoding). `prefixLen` measures the common prefix that decides
where `insert` branches out.

Every key the trie is asked about is `keybytesToHex` of some bytes, a `HexKey`: nibbles below 16
and one terminator at the end. No such key is a proper prefix of another, which is why a value
sits exactly where a key ends.
-/

namespace AuroraChain.Trie

/-- `hasTerm`: whether a hex key ends with the terminator. -/
def hasTerm (s : List UInt8) : Bool := s.getLast? == some 16

/-- `keybytesToHex`: two nibbles a byte, high first, then the terminator. -/
def keybytesToHex (str : List UInt8) : List UInt8 :=
  str.flatMap (fun b => [b / 16, b % 16]) ++ [16]

/-- `decodeNibbles`: each pair of nibbles back into a byte. Its callers pass an even number of
nibbles. -/
def decodeNibbles : List UInt8 → List UInt8
  | n0 :: n1 :: rest => (n0 <<< 4 ||| n1) :: decodeNibbles rest
  | _ => []

/-- `hexToCompact`: the flag byte holds the terminator bit and the odd bit, and the first nibble
when there is an odd number of them. -/
def hexToCompact (hex : List UInt8) : List UInt8 :=
  let terminator : UInt8 := if hasTerm hex then 1 else 0
  let hex := if hasTerm hex then hex.dropLast else hex
  if hex.length % 2 = 1 then
    (terminator <<< 5 ||| (1 : UInt8) <<< 4 ||| hex.headD 0) :: decodeNibbles hex.tail
  else terminator <<< 5 :: decodeNibbles hex

/-- `compactToHex`. `base[0]` is out of range for an empty input. -/
def compactToHex (compact : List UInt8) : Except GoPanic (List UInt8) :=
  let base := (keybytesToHex compact).dropLast
  match base[0]? with
  | none => .error .sliceOutOfRange
  | some b0 =>
      let base := if 2 ≤ b0 then base ++ [16] else base
      .ok (base.drop (2 - (b0 &&& 1)).toNat)

/-- `hexToKeybytes`: the terminator dropped, then each pair of nibbles into a byte. A key of odd
length panics with the text below. -/
def hexToKeybytes (hex : List UInt8) : Except String (List UInt8) :=
  let hex := if hasTerm hex then hex.dropLast else hex
  if hex.length % 2 ≠ 0 then .error "can't convert hex key of odd length"
  else .ok (decodeNibbles hex)

/-- `prefixLen`: the length of the common prefix of `a` and `b`. -/
def prefixLen : List UInt8 → List UInt8 → Nat
  | x :: a, y :: b => if x = y then prefixLen a b + 1 else 0
  | _, _ => 0

/-- Nibbles, each below 16. -/
def Nibbles (k : List UInt8) : Prop := ∀ x ∈ k, x < 16

instance (k : List UInt8) : Decidable (Nibbles k) := inferInstanceAs (Decidable (∀ x ∈ k, x < 16))

/-- A key in HEX encoding: nibbles, then the terminator. -/
def HexKey (k : List UInt8) : Prop := ∃ body, Nibbles body ∧ k = body ++ [16]

/-! ### `prefixLen` -/

theorem prefixLen_le_left : ∀ a b : List UInt8, prefixLen a b ≤ a.length
  | x :: a, y :: b => by
      rw [prefixLen]
      split
      · have := prefixLen_le_left a b
        rw [List.length_cons]
        omega
      · exact Nat.zero_le _
  | [], _ => Nat.zero_le _
  | _ :: _, [] => Nat.zero_le _

theorem prefixLen_le_right : ∀ a b : List UInt8, prefixLen a b ≤ b.length
  | x :: a, y :: b => by
      rw [prefixLen]
      split
      · have := prefixLen_le_right a b
        rw [List.length_cons]
        omega
      · exact Nat.zero_le _
  | [], _ => Nat.zero_le _
  | _ :: _, [] => Nat.zero_le _

/-- Both keys agree up to their common prefix. -/
theorem take_prefixLen : ∀ a b : List UInt8, a.take (prefixLen a b) = b.take (prefixLen a b)
  | x :: a, y :: b => by
      rw [prefixLen]
      split
      · rename_i hxy
        rw [List.take_succ_cons, List.take_succ_cons, hxy, take_prefixLen a b]
      · rfl
  | [], _ => rfl
  | _ :: _, [] => rfl

/-- ... and differ right after it, where both go on. -/
theorem getElem_prefixLen_ne : ∀ (a b : List UInt8) (ha : prefixLen a b < a.length)
    (hb : prefixLen a b < b.length), a[prefixLen a b] ≠ b[prefixLen a b]
  | x :: a, y :: b, ha, hb => by
      by_cases hxy : x = y
      · have hlen : prefixLen (x :: a) (y :: b) = prefixLen a b + 1 := by rw [prefixLen, if_pos hxy]
        simp only [hlen, List.length_cons] at ha hb ⊢
        rw [List.getElem_cons_succ, List.getElem_cons_succ]
        exact getElem_prefixLen_ne a b (by omega) (by omega)
      · simp only [prefixLen, if_neg hxy, List.getElem_cons_zero]
        exact hxy
  | [], _, ha, _ => absurd ha (Nat.not_lt_zero _)
  | _ :: _, [], _, hb => absurd hb (Nat.not_lt_zero _)

/-- The common prefix of a key with itself is the whole key. -/
@[simp] theorem prefixLen_self : ∀ a : List UInt8, prefixLen a a = a.length
  | [] => rfl
  | x :: a => by rw [prefixLen, if_pos rfl, prefixLen_self a, List.length_cons]

/-- `k` is all of the common prefix exactly when it is a prefix of `key`. -/
theorem prefixLen_eq_length_iff : ∀ key k : List UInt8,
    prefixLen key k = k.length ↔ k <+: key
  | x :: key, y :: k => by
      rw [prefixLen, List.length_cons, List.cons_prefix_cons]
      split
      · rename_i hxy
        rw [Nat.add_right_cancel_iff, prefixLen_eq_length_iff key k, hxy]
        exact (and_iff_right rfl).symm
      · rename_i hxy
        simp only [Nat.right_eq_add, Nat.add_one_ne_zero, false_iff, not_and]
        exact fun h => absurd h.symm hxy
  | [], [] => by simp [prefixLen]
  | [], _ :: _ => by simp [prefixLen]
  | _ :: _, [] => by simp [prefixLen]

/-! ### Hex keys -/

theorem nibbles_append {a b : List UInt8} : Nibbles (a ++ b) ↔ Nibbles a ∧ Nibbles b := by
  simp only [Nibbles, List.mem_append]
  exact ⟨fun h => ⟨fun x hx => h x (.inl hx), fun x hx => h x (.inr hx)⟩,
    fun h x hx => hx.elim (h.1 x) (h.2 x)⟩

theorem keybytesToHex_hexKey (str : List UInt8) : HexKey (keybytesToHex str) := by
  refine ⟨_, fun x hx => ?_, rfl⟩
  obtain ⟨b, -, hb⟩ := List.mem_flatMap.mp hx
  have h16 : (16 : UInt8).toNat = 16 := rfl
  rcases List.mem_pair.mp hb with rfl | rfl
  · rw [UInt8.lt_iff_toNat_lt, UInt8.toNat_div, h16]
    have := b.toNat_lt
    omega
  · rw [UInt8.lt_iff_toNat_lt, UInt8.toNat_mod, h16]
    omega

theorem HexKey.not_nibbles {k : List UInt8} (hk : HexKey k) : ¬ Nibbles k := by
  obtain ⟨body, -, rfl⟩ := hk
  intro h
  have := h 16 (List.mem_append_right _ (List.mem_singleton.mpr rfl))
  exact absurd this (by decide)

theorem HexKey.of_append {p k : List UInt8} (hk : HexKey (p ++ k)) (hp : Nibbles p) :
    HexKey k := by
  obtain ⟨body, hbody, heq⟩ := hk
  rcases List.append_eq_append_iff.mp heq with ⟨a', hbody', hk'⟩ | ⟨c', hp', hc'⟩
  · rw [hbody'] at hbody
    exact ⟨a', (nibbles_append.mp hbody).2, hk'⟩
  · rcases List.append_eq_singleton_iff.mp hc'.symm with ⟨rfl, rfl⟩ | ⟨rfl, rfl⟩
    · exact ⟨[], fun _ h => absurd h List.not_mem_nil, rfl⟩
    · rw [hp'] at hp
      exact absurd (hp 16 (List.mem_append_right _ (List.mem_singleton.mpr rfl))) (by decide)

theorem HexKey.ne_nil {k : List UInt8} (hk : HexKey k) : k ≠ [] := by
  obtain ⟨body, -, rfl⟩ := hk
  exact List.append_ne_nil_of_right_ne_nil body (List.cons_ne_nil 16 [])

theorem HexKey.le_sixteen {k : List UInt8} (hk : HexKey k) {x : UInt8} (hx : x ∈ k) : x ≤ 16 := by
  obtain ⟨body, hbody, rfl⟩ := hk
  rcases List.mem_append.mp hx with hx | hx
  · exact UInt8.le_of_lt (hbody x hx)
  · rw [List.mem_singleton.mp hx]
    exact UInt8.le_refl 16

theorem HexKey.take_nibbles {k : List UInt8} (hk : HexKey k) {m : Nat} (hm : m < k.length) :
    Nibbles (k.take m) := by
  obtain ⟨body, hbody, rfl⟩ := hk
  rw [List.length_append, List.length_singleton] at hm
  rw [List.take_append_of_le_length (Nat.le_of_lt_succ hm)]
  exact fun x hx => hbody x (List.mem_of_mem_take hx)

theorem HexKey.drop_cases {k : List UInt8} (hk : HexKey k) {m : Nat} (hm : m < k.length) :
    (k[m] = 16 ∧ k.drop (m + 1) = []) ∨ (k[m] < 16 ∧ HexKey (k.drop (m + 1))) := by
  obtain ⟨body, hbody, rfl⟩ := hk
  rw [List.length_append, List.length_singleton] at hm
  by_cases hmb : m < body.length
  · right
    rw [List.getElem_append_left hmb, List.drop_append_of_le_length hmb]
    exact ⟨hbody _ (List.getElem_mem hmb), _, fun x hx => hbody x (List.mem_of_mem_drop hx), rfl⟩
  · left
    have hm' : m = body.length := by omega
    refine ⟨List.getElem_concat_length hm' _, List.drop_eq_nil_of_le ?_⟩
    rw [List.length_append, List.length_singleton]
    omega

theorem HexKey.eq_of_prefix {k k' : List UInt8} (hk : HexKey k) (hk' : HexKey k')
    (h : k <+: k') : k = k' := by
  obtain ⟨t, rfl⟩ := h
  obtain ⟨body, -, rfl⟩ := hk
  cases t with
  | nil => rw [List.append_nil]
  | cons x t =>
      -- the terminator of `k` would stand inside the nibbles of `k'`
      obtain ⟨body', hbody', heq⟩ := hk'
      have hdrop := congrArg List.dropLast heq
      rw [List.dropLast_concat, List.dropLast_append_of_ne_nil (List.cons_ne_nil x t)] at hdrop
      have hmem : (16 : UInt8) ∈ body' :=
        hdrop ▸ List.mem_append_left _ (List.mem_append_right _ (List.mem_singleton.mpr rfl))
      exact absurd (hbody' 16 hmem) (by decide)

/-! ### Round trips

A byte is its two nibbles, high first, and two nibbles are one byte: `keybytesToHex` and
`decodeNibbles` undo each other. The hex prefix encoding folds the terminator and the parity of a
nibble string into its flag byte, and `compactToHex` reads them back out of it.
-/

theorem join_nibbles : ∀ x y : Fin 16, (x.val.toUInt8 <<< 4 ||| y.val.toUInt8) / 16 = x.val.toUInt8 ∧
    (x.val.toUInt8 <<< 4 ||| y.val.toUInt8) % 16 = y.val.toUInt8 := by
  decide

theorem split_byte : ∀ b : Fin 256, (b.val.toUInt8 / 16) <<< 4 ||| b.val.toUInt8 % 16 = b.val.toUInt8 := by
  decide +kernel

theorem keybytesToHex_cons (b : UInt8) (str : List UInt8) :
    keybytesToHex (b :: str) = b / 16 :: b % 16 :: keybytesToHex str := by
  rw [keybytesToHex, keybytesToHex, List.flatMap_cons]
  rfl

theorem keybytesToHex_dropLast (str : List UInt8) :
    (keybytesToHex str).dropLast = str.flatMap (fun b => [b / 16, b % 16]) :=
  List.dropLast_concat

theorem hasTerm_keybytesToHex (str : List UInt8) : hasTerm (keybytesToHex str) = true := by
  rw [hasTerm, keybytesToHex, List.getLast?_concat]
  rfl

/-- The nibbles of the bytes, paired up again, are the bytes. -/
theorem decodeNibbles_flatMap : ∀ str : List UInt8,
    decodeNibbles (str.flatMap (fun b => [b / 16, b % 16])) = str
  | [] => rfl
  | b :: str => by
      have h := split_byte ⟨b.toNat, b.toNat_lt⟩
      rw [show b.toNat.toUInt8 = b from UInt8.ofNat_toNat] at h
      rw [List.flatMap_cons, List.cons_append, List.cons_append, List.nil_append, decodeNibbles,
        decodeNibbles_flatMap str, h]

/-- Nibbles of even length, paired into bytes and split again, with the terminator after them. -/
theorem keybytesToHex_decodeNibbles : ∀ {hex : List UInt8}, Nibbles hex → hex.length % 2 = 0 →
    keybytesToHex (decodeNibbles hex) = hex ++ [16]
  | [], _, _ => rfl
  | [_], _, hlen => by simp at hlen
  | x :: y :: rest, hn, hlen => by
      have hx := hn x List.mem_cons_self
      have hy := hn y (List.mem_cons_of_mem x List.mem_cons_self)
      have hrest : Nibbles rest := fun z hz => hn z (List.mem_cons_of_mem x (List.mem_cons_of_mem y hz))
      rw [List.length_cons, List.length_cons] at hlen
      obtain ⟨hjx, hjy⟩ := join_nibbles ⟨x.toNat, hx⟩ ⟨y.toNat, hy⟩
      rw [show x.toNat.toUInt8 = x from UInt8.ofNat_toNat,
        show y.toNat.toUInt8 = y from UInt8.ofNat_toNat] at hjx hjy
      show keybytesToHex ((x <<< 4 ||| y) :: decodeNibbles rest) = x :: y :: rest ++ [16]
      rw [keybytesToHex_cons, hjx, hjy, keybytesToHex_decodeNibbles hrest (by omega)]
      rfl

/-- `hexToKeybytes` gives back the bytes `keybytesToHex` was given. -/
theorem hexToKeybytes_keybytesToHex (str : List UInt8) :
    hexToKeybytes (keybytesToHex str) = .ok str := by
  have hlen : (str.flatMap (fun b => [b / 16, b % 16])).length % 2 = 0 := by
    rw [List.length_flatMap]
    simp
  rw [hexToKeybytes]
  simp only [hasTerm_keybytesToHex, if_true, keybytesToHex_dropLast, hlen, ne_eq, not_true_eq_false,
    if_false, decodeNibbles_flatMap]

theorem keybytesToHex_injective : Function.Injective keybytesToHex := fun a b h => by
  have ha := hexToKeybytes_keybytesToHex a
  rw [h, hexToKeybytes_keybytesToHex] at ha
  exact (Except.ok.inj ha).symm

/-- The flag byte of an odd number of nibbles: its high nibble is twice the terminator bit plus one,
its low nibble the first nibble. -/
theorem oddFlag_spec : ∀ (t : Bool) (a : Fin 16),
    ((2 : UInt8) ≤ ((if t then (1 : UInt8) else 0) <<< 5 ||| (1 : UInt8) <<< 4 ||| a.val.toUInt8) / 16 ↔
        t = true) ∧
      ((if t then (1 : UInt8) else 0) <<< 5 ||| (1 : UInt8) <<< 4 ||| a.val.toUInt8) % 16 = a.val.toUInt8 ∧
      ((2 : UInt8) - (((if t then (1 : UInt8) else 0) <<< 5 ||| (1 : UInt8) <<< 4 ||| a.val.toUInt8) / 16
        &&& 1)).toNat = 1 := by
  decide

/-- The flag byte of an even number of nibbles: twice the terminator bit, then a zero nibble. -/
theorem evenFlag_spec : ∀ t : Bool,
    ((2 : UInt8) ≤ ((if t then (1 : UInt8) else 0) <<< 5) / 16 ↔ t = true) ∧
      ((if t then (1 : UInt8) else 0) <<< 5) % 16 = 0 ∧
      ((2 : UInt8) - (((if t then (1 : UInt8) else 0) <<< 5) / 16 &&& 1)).toNat = 2 := by
  decide

/-- The terminator, or nothing. -/
def termSuffix (term : Bool) : List UInt8 := if term then [16] else []

theorem hasTerm_append_termSuffix {body : List UInt8} (hb : Nibbles body) (term : Bool) :
    hasTerm (body ++ termSuffix term) = term := by
  cases term with
  | true =>
      rw [hasTerm, termSuffix, if_pos rfl, List.getLast?_concat]
      rfl
  | false =>
      rw [termSuffix, if_neg Bool.false_ne_true, List.append_nil, hasTerm]
      cases h : body.getLast? with
      | none => rfl
      | some x =>
          have hx : x ≠ 16 := UInt8.ne_of_lt (hb x (List.mem_of_getLast? h))
          simpa using hx

/-- `compactToHex` of a flag byte followed by paired nibbles: the flag's two nibbles, the
nibbles, the terminator when the flag says so, less the nibbles the flag says to chop. -/
theorem compactToHex_cons (flag : UInt8) {rest : List UInt8} (hr : Nibbles rest)
    (he : rest.length % 2 = 0) :
    compactToHex (flag :: decodeNibbles rest) =
      .ok ((flag / 16 :: flag % 16 :: rest ++ if 2 ≤ flag / 16 then [16] else []).drop
        (2 - (flag / 16 &&& 1)).toNat) := by
  have hbase : (flag / 16 :: flag % 16 :: (rest ++ [16])).dropLast = flag / 16 :: flag % 16 :: rest := by
    rw [← List.cons_append, ← List.cons_append, List.dropLast_concat]
  simp only [compactToHex, keybytesToHex_cons, keybytesToHex_decodeNibbles hr he, hbase,
    List.getElem?_cons_zero]
  split
  · rfl
  · rw [List.append_nil]

/-- `compactToHex` reads back every nibble string `hexToCompact` encodes, with its terminator or
without. -/
theorem compactToHex_hexToCompact {body : List UInt8} (hb : Nibbles body) (term : Bool) :
    compactToHex (hexToCompact (body ++ termSuffix term)) = .ok (body ++ termSuffix term) := by
  have hdrop : (if term = true then (body ++ termSuffix term).dropLast else body ++ termSuffix term) =
      body := by
    cases term with
    | true => rw [if_pos rfl, termSuffix, if_pos rfl, List.dropLast_concat]
    | false => rw [if_neg Bool.false_ne_true, termSuffix, if_neg Bool.false_ne_true, List.append_nil]
  have hsuffix : ∀ flag : UInt8, (2 ≤ flag / 16 ↔ term = true) →
      (if 2 ≤ flag / 16 then [(16 : UInt8)] else []) = termSuffix term := fun flag h => by
    rw [termSuffix]
    exact if_congr h rfl rfl
  rw [hexToCompact, hasTerm_append_termSuffix hb term, hdrop]
  split
  · -- an odd number of nibbles: the first one rides in the flag byte
    rename_i hodd
    obtain ⟨a, rest, rfl⟩ := List.exists_cons_of_ne_nil (show body ≠ [] from fun h => by
      rw [h] at hodd
      exact absurd hodd (by decide))
    have ha : a.toNat < 16 := hb a List.mem_cons_self
    have hr : Nibbles rest := fun x hx => hb x (List.mem_cons_of_mem a hx)
    rw [List.length_cons] at hodd
    obtain ⟨hterm, hlow, hchop⟩ := oddFlag_spec term ⟨a.toNat, ha⟩
    rw [show a.toNat.toUInt8 = a from UInt8.ofNat_toNat] at hterm hlow hchop
    rw [List.headD_cons, List.tail_cons, compactToHex_cons _ hr (by omega), hchop, hlow,
      hsuffix _ hterm]
    rfl
  · -- an even number: the flag byte holds no nibble
    rename_i heven
    obtain ⟨hterm, hlow, hchop⟩ := evenFlag_spec term
    rw [compactToHex_cons _ hb (by omega), hchop, hlow, hsuffix _ hterm]
    rfl

theorem compactToHex_hexToCompact_odd_leaf :
    Nibbles [1, 2, 3] ∧
      compactToHex (hexToCompact ([1, 2, 3] ++ termSuffix true)) = .ok ([1, 2, 3] ++ termSuffix true) :=
  ⟨by decide +kernel, compactToHex_hexToCompact (by decide +kernel) true⟩

example : hexToCompact [1, 2, 3, 16] = [0x31, 0x23] := by decide

end AuroraChain.Trie
