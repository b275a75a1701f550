import AuroraChain.Common.Bitutil
import AuroraChain.Lib.SortedMap
import AuroraChain.Lib.Walk
/-!
# Jump destination analysis: `core/vm/analysis.go`

`codeBitmap` marks, one bit for each byte of code, the bytes that are data of a `PUSH1` to
`PUSH32`: eight at a time with `set8`, over two bitmap bytes, and the rest one at a time with
`set`. The bitmap is four bytes longer than the code needs, so that the marks of a push at the end
of the code still fall inside it. `destinations.has` accepts a jump to a `JUMPDEST` byte that is
not marked, analysing each code once and keeping the bitmap under the code's hash; the program
counter is a `uint64` that never comes near its bound here, so it is a `Nat`.

The plain description is the instruction walk (`Boundary`): from position `0`, each opcode is
followed by the next one, past the data of a push. The bitmap marks exactly the positions the walk
steps over (`codeBitmap_spec`), so `has` accepts exactly the `JUMPDEST`s the walk lands on,
whatever the cache holds as long as no two codes share a hash.
-/

namespace AuroraChain.Vm

open AuroraChain.Bitutil (bitAt mask getD_modify_self getD_modify_ne and_mask_ne_zero)

def PUSH1 : UInt8 := 0x60
def PUSH32 : UInt8 := 0x7f
def JUMPDEST : UInt8 := 0x5b

/-- `bitvec`: one bit for each byte of code, most significant first; a set bit marks data. -/
abbrev Bitvec := List UInt8

/-- `(*bits)[i] |= b`: an index past the end panics. -/
def orByte (bits : Bitvec) (i : Nat) (b : UInt8) : Except GoPanic Bitvec :=
  if i < bits.length then .ok (bits.modify i (· ||| b)) else .error .sliceOutOfRange

def Bitvec.set (bits : Bitvec) (pos : Nat) : Except GoPanic Bitvec :=
  orByte bits (pos / 8) ((0x80 : UInt8) >>> (pos % 8).toUInt8)

/-- `bits.set8(pos)`: the eight bits from `pos` on, in two bytes. -/
def Bitvec.set8 (bits : Bitvec) (pos : Nat) : Except GoPanic Bitvec := do
  let bits ← orByte bits (pos / 8) ((0xFF : UInt8) >>> (pos % 8).toUInt8)
  orByte bits (pos / 8 + 1) (~~~((0xFF : UInt8) >>> (pos % 8).toUInt8))

def Bitvec.codeSegment (bits : Bitvec) (pos : Nat) : Except GoPanic Bool :=
  match bits[pos / 8]? with
  | some b => .ok ((b &&& ((0x80 : UInt8) >>> (pos % 8).toUInt8)) == 0)
  | none => .error .sliceOutOfRange

/-- `for ; numbits >= 8; numbits -= 8 { bits.set8(pc); pc += 8 }`: the bitmap, `pc` and
`numbits` after it. -/
def set8Loop (bits : Bitvec) (pc : Nat) : Nat → Except GoPanic (Bitvec × Nat × Nat)
  | numbits + 8 => do
      let bits ← Bitvec.set8 bits pc
      set8Loop bits (pc + 8) numbits
  | numbits => .ok (bits, pc, numbits)

/-- `for ; numbits > 0; numbits-- { bits.set(pc); pc++ }`. -/
def setLoop (bits : Bitvec) (pc : Nat) : Nat → Except GoPanic (Bitvec × Nat)
  | 0 => .ok (bits, pc)
  | numbits + 1 => do
      let bits ← Bitvec.set bits pc
      setLoop bits (pc + 1) numbits

/-- The loop `for pc := uint64(0); pc < uint64(len(code)); { ... }` of `codeBitmap`; each round
moves `pc` forward, so the code's length bounds the rounds. -/
def codeBitmapLoop (code : List UInt8) : Nat → Bitvec → Nat → Except GoPanic Bitvec
  | 0, bits, _ => .ok bits
  | fuel + 1, bits, pc =>
      match code[pc]? with
      | none => .ok bits
      | some op =>
          if PUSH1 ≤ op ∧ op ≤ PUSH32 then do
            let (bits, pc, numbits) ← set8Loop bits (pc + 1) (op - PUSH1 + 1).toNat
            let (bits, pc) ← setLoop bits pc numbits
            codeBitmapLoop code fuel bits pc
          else codeBitmapLoop code fuel bits (pc + 1)

def codeBitmap (code : List UInt8) : Except GoPanic Bitvec :=
  codeBitmapLoop code code.length (List.replicate (code.length / 8 + 1 + 4) 0) 0

/-- `destinations`: the bitmap of each code analysed, under the code's hash. -/
abbrev Destinations := SortedMap Hash Bitvec

/-- `m, analysed := d[codehash]; if !analysed { m = codeBitmap(code); d[codehash] = m }`. -/
def Destinations.analysis (d : Destinations) (codehash : Hash) (code : List UInt8) :
    Except GoPanic (Bitvec × Destinations) :=
  match d.get? codehash with
  | some m => .ok (m, d)
  | none => (codeBitmap code).map fun m => (m, d.insert codehash m)

/-- `d.has(codehash, code, dest)`: whether `dest` is a `JUMPDEST` of `code` outside push data, and
the map with the analysis of `code` added if it was not there. `dest.BitLen()` is `Nat.size`. -/
def Destinations.has (d : Destinations) (codehash : Hash) (code : List UInt8) (dest : Nat) :
    Except GoPanic (Bool × Destinations) :=
  let udest := dest % 2 ^ 64
  if 63 ≤ dest.size ∨ code.length ≤ udest then .ok (false, d)
  else do
    let (m, d) ← d.analysis codehash code
    -- `&&` does not look at the bitmap unless the byte is a `JUMPDEST`
    if code[udest]? = some JUMPDEST then
      let segment ← Bitvec.codeSegment m udest
      pure (segment, d)
    else pure (false, d)

/-! ## The instruction walk -/

/-- The number of data bytes after an opcode: `op - PUSH1 + 1` for a push, none otherwise. -/
def pushSize (op : UInt8) : Nat := if PUSH1 ≤ op ∧ op ≤ PUSH32 then (op - PUSH1 + 1).toNat else 0

/-- One step of the walk: from the opcode at `pc` to the next. -/
def nextInstr (code : List UInt8) (pc : Nat) : Option Nat :=
  code[pc]?.map fun op => pc + 1 + pushSize op

/-- The positions of the opcodes of `code`: those the walk from `0` lands on. -/
def Boundary (code : List UInt8) : Nat → Prop := Walk.Lands (nextInstr code) 0

/-- The positions of push data: strictly inside a step of the walk. -/
def PushData (code : List UInt8) (j : Nat) : Prop :=
  ∃ pc op, Boundary code pc ∧ code[pc]? = some op ∧ pc < j ∧ j ≤ pc + pushSize op

/-- A valid jump destination: a `JUMPDEST` opcode. -/
def ValidJumpdest (code : List UInt8) (dest : Nat) : Prop :=
  code[dest]? = some JUMPDEST ∧ Boundary code dest

theorem pushSize_le (op : UInt8) : pushSize op ≤ 32 := by
  unfold pushSize
  split_ifs with h
  · obtain ⟨h1, h2⟩ := h
    rw [UInt8.toNat_add, UInt8.toNat_sub_of_le _ _ h1]
    rw [UInt8.le_iff_toNat_le] at h1 h2
    simp only [PUSH1, PUSH32, UInt8.reduceToNat] at h1 h2 ⊢
    omega
  · omega

theorem nextInstr_forward (code : List UInt8) : Walk.Forward (nextInstr code) := by
  intro p q h
  unfold nextInstr at h
  obtain ⟨op, -, rfl⟩ := Option.map_eq_some_iff.mp h
  omega

theorem Boundary.step {code : List UInt8} {pc : Nat} {op : UInt8} (h : Boundary code pc)
    (hop : code[pc]? = some op) : Boundary code (pc + 1 + pushSize op) :=
  Walk.Lands.tail h (by rw [nextInstr, hop]; rfl)

theorem PushData.not_boundary {code : List UInt8} {j : Nat} (h : PushData code j) :
    ¬ Boundary code j := by
  obtain ⟨pc, op, hpc, hop, hlo, hhi⟩ := h
  have hs : nextInstr code pc = some (pc + 1 + pushSize op) := by rw [nextInstr, hop]; rfl
  exact Walk.not_lands_of_between (nextInstr_forward code) hpc hs hlo (by omega)

theorem boundary_or_pushData {code : List UInt8} {j : Nat} (hj : j < code.length) :
    Boundary code j ∨ PushData code j := by
  have hgo : ∀ p, Boundary code p → p < j → (nextInstr code p).isSome := by
    intro p _ hp
    rw [nextInstr, List.getElem?_eq_getElem (by omega)]
    rfl
  rcases Walk.lands_or_between (nextInstr_forward code) (Nat.zero_le j) hgo with
    hb | ⟨a, a', ha, hs, hlo, hhi⟩
  · exact .inl hb
  · unfold nextInstr at hs
    obtain ⟨op, hop, rfl⟩ := Option.map_eq_some_iff.mp hs
    exact .inr ⟨a, op, ha, hop, hlo, by omega⟩

theorem pushData_iff {code : List UInt8} {j : Nat} (hj : j < code.length) :
    PushData code j ↔ ¬ Boundary code j :=
  ⟨PushData.not_boundary, fun h => (boundary_or_pushData hj).resolve_left h⟩

/-- Below the next opcode, the push data are those below the current one and the current data. -/
theorem pushData_below_next {code : List UInt8} {pc : Nat} {op : UInt8} (hpc : Boundary code pc)
    (hop : code[pc]? = some op) (j : Nat) :
    PushData code j ∧ j < pc + 1 + pushSize op ↔
      PushData code j ∧ j < pc ∨ pc < j ∧ j ≤ pc + pushSize op := by
  constructor
  · rintro ⟨hj, hlt⟩
    rcases Nat.lt_or_ge j pc with hjp | hjp
    · exact .inl ⟨hj, hjp⟩
    · have hne : j ≠ pc := fun h => hj.not_boundary (h ▸ hpc)
      exact .inr ⟨by omega, by omega⟩
  · rintro (⟨hj, hlt⟩ | ⟨hlo, hhi⟩)
    · exact ⟨hj, by omega⟩
    · exact ⟨⟨pc, op, hpc, hop, hlo, hhi⟩, by omega⟩

/-! ## Marking bits -/

theorem shr80_testBit : ∀ k r : Fin 8,
    ((0x80 : UInt8) >>> k.val.toUInt8).toNat.testBit (7 - r.val) = decide (r = k) := by
  decide

theorem shrFF_testBit : ∀ k r : Fin 8,
    ((0xFF : UInt8) >>> k.val.toUInt8).toNat.testBit (7 - r.val) = decide (k ≤ r) := by
  decide

theorem not_shrFF_testBit : ∀ k r : Fin 8,
    (~~~((0xFF : UInt8) >>> k.val.toUInt8)).toNat.testBit (7 - r.val) = decide (r < k) := by
  decide

theorem shr80_eq_mask : ∀ k : Fin 8, (0x80 : UInt8) >>> k.val.toUInt8 = mask k.val := by
  decide

theorem mask_mod (i : Nat) : mask (i % 8) = mask i := by
  rw [mask, mask, Nat.mod_mod]

theorem bitAt_modify_or {bits : Bitvec} {i : Nat} (hi : i < bits.length) (c : UInt8) (j : Nat) :
    bitAt (bits.modify i (· ||| c)) j =
      (bitAt bits j || (decide (j / 8 = i) && c.toNat.testBit (7 - j % 8))) := by
  unfold bitAt
  by_cases hj : j / 8 = i
  · rw [hj, getD_modify_self _ hi, UInt8.toNat_or, Nat.testBit_or]
    simp
  · rw [getD_modify_ne _ hj]
    simp [hj]

theorem orByte_ok {bits : Bitvec} {i : Nat} (hi : i < bits.length) (b : UInt8) :
    orByte bits i b = .ok (bits.modify i (· ||| b)) := if_pos hi

theorem Bitvec.set_spec {bits : Bitvec} {pos : Nat} (h : pos / 8 < bits.length) :
    ∃ bits', Bitvec.set bits pos = .ok bits' ∧ bits'.length = bits.length ∧
      ∀ j, bitAt bits' j = true ↔ bitAt bits j = true ∨ j = pos := by
  refine ⟨_, orByte_ok h _, List.length_modify .., fun j => ?_⟩
  rw [bitAt_modify_or h]
  have hbit := shr80_testBit ⟨pos % 8, by omega⟩ ⟨j % 8, by omega⟩
  simp only at hbit
  rw [hbit]
  simp only [Bool.or_eq_true, Bool.and_eq_true, decide_eq_true_eq, Fin.mk.injEq]
  constructor
  · rintro (h | ⟨h1, h2⟩)
    · exact .inl h
    · exact .inr (by omega)
  · rintro (h | rfl)
    · exact .inl h
    · exact .inr ⟨rfl, rfl⟩

theorem Bitvec.set8_spec {bits : Bitvec} {pos : Nat} (h : pos / 8 + 1 < bits.length) :
    ∃ bits', Bitvec.set8 bits pos = .ok bits' ∧ bits'.length = bits.length ∧
      ∀ j, bitAt bits' j = true ↔ bitAt bits j = true ∨ pos ≤ j ∧ j < pos + 8 := by
  have h0 : pos / 8 < bits.length := by omega
  have h1 : pos / 8 + 1 < (bits.modify (pos / 8) (· ||| (0xFF : UInt8) >>> (pos % 8).toUInt8)).length := by
    rw [List.length_modify]
    exact h
  refine ⟨_, by rw [Bitvec.set8, orByte_ok h0]; exact orByte_ok h1 _, by simp, fun j => ?_⟩
  rw [bitAt_modify_or h1, bitAt_modify_or h0]
  have hlo := shrFF_testBit ⟨pos % 8, by omega⟩ ⟨j % 8, by omega⟩
  have hhi := not_shrFF_testBit ⟨pos % 8, by omega⟩ ⟨j % 8, by omega⟩
  simp only at hlo hhi
  rw [hlo, hhi]
  simp only [Bool.or_eq_true, Bool.and_eq_true, decide_eq_true_eq, Fin.mk_le_mk, Fin.mk_lt_mk]
  constructor
  · rintro ((h | ⟨h1, h2⟩) | ⟨h1, h2⟩)
    · exact .inl h
    · exact .inr ⟨by omega, by omega⟩
    · exact .inr ⟨by omega, by omega⟩
  · rintro (h | ⟨h1, h2⟩)
    · exact .inl (.inl h)
    · rcases Nat.lt_or_ge (j / 8) (pos / 8 + 1) with hj | hj
      · exact .inl (.inr ⟨by omega, by omega⟩)
      · exact .inr ⟨by omega, by omega⟩

theorem Bitvec.codeSegment_eq {bits : Bitvec} {pos : Nat} (h : pos / 8 < bits.length) :
    Bitvec.codeSegment bits pos = .ok (!bitAt bits pos) := by
  rw [Bitvec.codeSegment, List.getElem?_eq_getElem h]
  have hmask := shr80_eq_mask ⟨pos % 8, by omega⟩
  simp only at hmask
  rw [hmask, mask_mod]
  have hand := and_mask_ne_zero bits pos
  rw [List.getD_eq_getElem _ _ h] at hand
  cases hb : bitAt bits pos
  · rw [hb] at hand
    simpa using hand
  · rw [hb] at hand
    simpa using hand

/-! ## The loops -/

theorem set8Loop_spec (numbits : Nat) (bits : Bitvec) (pc : Nat)
    (h : (pc + numbits) / 8 < bits.length) :
    ∃ bits', set8Loop bits pc numbits = .ok (bits', pc + 8 * (numbits / 8), numbits % 8) ∧
      bits'.length = bits.length ∧
      ∀ j, bitAt bits' j = true ↔ bitAt bits j = true ∨ pc ≤ j ∧ j < pc + 8 * (numbits / 8) := by
  fun_induction set8Loop bits pc numbits with
  | case1 bits pc numbits ih =>
      obtain ⟨b1, hset, hlen1, hbits1⟩ := Bitvec.set8_spec (show pc / 8 + 1 < bits.length by omega)
      obtain ⟨b2, hloop, hlen2, hbits2⟩ := ih b1 (by rw [hlen1]; omega)
      refine ⟨b2, ?_, hlen2.trans hlen1, fun j => ?_⟩
      · rw [hset]
        simp only [bind, Except.bind]
        rw [hloop]
        congr 3 <;> omega
      · rw [hbits2, hbits1]
        constructor
        · rintro ((h | ⟨h1, h2⟩) | ⟨h1, h2⟩)
          · exact .inl h
          · exact .inr ⟨h1, by omega⟩
          · exact .inr ⟨by omega, by omega⟩
        · rintro (h | ⟨h1, h2⟩)
          · exact .inl (.inl h)
          · rcases Nat.lt_or_ge j (pc + 8) with hj | hj
            · exact .inl (.inr ⟨h1, hj⟩)
            · exact .inr ⟨hj, by omega⟩
  | case2 bits pc numbits hlt =>
      have hlt8 : numbits < 8 := by
        by_contra hc
        exact hlt (numbits - 8) (by omega)
      refine ⟨bits, ?_, rfl, fun j => ?_⟩
      · rw [Nat.div_eq_of_lt hlt8, Nat.mod_eq_of_lt hlt8, Nat.mul_zero, Nat.add_zero]
      · simp [Nat.div_eq_of_lt hlt8]

theorem setLoop_spec (numbits : Nat) (bits : Bitvec) (pc : Nat)
    (h : (pc + numbits) / 8 < bits.length) :
    ∃ bits', setLoop bits pc numbits = .ok (bits', pc + numbits) ∧ bits'.length = bits.length ∧
      ∀ j, bitAt bits' j = true ↔ bitAt bits j = true ∨ pc ≤ j ∧ j < pc + numbits := by
  fun_induction setLoop bits pc numbits with
  | case1 bits pc => exact ⟨bits, rfl, rfl, fun j => by simp⟩
  | case2 bits pc numbits ih =>
      obtain ⟨b1, hset, hlen1, hbits1⟩ := Bitvec.set_spec (show pc / 8 < bits.length by omega)
      obtain ⟨b2, hloop, hlen2, hbits2⟩ := ih b1 (by rw [hlen1]; omega)
      refine ⟨b2, ?_, hlen2.trans hlen1, fun j => ?_⟩
      · rw [hset]
        simp only [bind, Except.bind]
        rw [hloop]
        congr 2
        omega
      · rw [hbits2, hbits1]
        constructor
        · rintro ((h | rfl) | ⟨h1, h2⟩)
          · exact .inl h
          · exact .inr ⟨le_rfl, by omega⟩
          · exact .inr ⟨by omega, by omega⟩
        · rintro (h | ⟨h1, h2⟩)
          · exact .inl (.inl h)
          · rcases Nat.eq_or_lt_of_le h1 with rfl | hj
            · exact .inl (.inr rfl)
            · exact .inr ⟨hj, by omega⟩

/-! ## The bitmap -/

/-- What the loop of `codeBitmap` keeps: `pc` is an opcode, the bitmap keeps its length, and it
marks exactly the push data below `pc`. -/
structure Marked (code : List UInt8) (bits : Bitvec) (pc : Nat) : Prop where
  boundary : Boundary code pc
  length : bits.length = code.length / 8 + 1 + 4
  marks : ∀ j, bitAt bits j = true ↔ PushData code j ∧ j < pc

theorem marked_start (code : List UInt8) :
    Marked code (List.replicate (code.length / 8 + 1 + 4) 0) 0 where
  boundary := Walk.Lands.refl
  length := List.length_replicate ..
  marks j := by simp [AuroraChain.Bitutil.bitAt_replicate]

/-- One round of the loop marks the data of the opcode at `pc` and moves to the next opcode. The
marks of a push end at most 32 bytes past the code, inside the four spare bytes. -/
theorem codeBitmapLoop_step {code : List UInt8} {bits : Bitvec} {pc : Nat} {op : UInt8}
    (hm : Marked code bits pc) (hop : code[pc]? = some op) (fuel : Nat) :
    ∃ bits', codeBitmapLoop code (fuel + 1) bits pc =
        codeBitmapLoop code fuel bits' (pc + 1 + pushSize op) ∧
      Marked code bits' (pc + 1 + pushSize op) := by
  have hpc : pc < code.length := by
    by_contra hc
    rw [List.getElem?_eq_none (by omega)] at hop
    cases hop
  have hsize := pushSize_le op
  have hmarks := pushData_below_next hm.boundary hop
  rw [codeBitmapLoop, hop]
  dsimp only
  split
  · rename_i hpush
    have hn : (op - PUSH1 + 1).toNat = pushSize op := by rw [pushSize, if_pos hpush]
    rw [hn]
    obtain ⟨b1, h8, hlen1, hbits1⟩ :=
      set8Loop_spec (pushSize op) bits (pc + 1) (by rw [hm.length]; omega)
    obtain ⟨b2, h1, hlen2, hbits2⟩ :=
      setLoop_spec (pushSize op % 8) b1 (pc + 1 + 8 * (pushSize op / 8))
        (by rw [hlen1, hm.length]; omega)
    refine ⟨b2, ?_, hm.boundary.step hop, by rw [hlen2, hlen1, hm.length], fun j => ?_⟩
    · rw [h8]
      simp only [bind, Except.bind]
      rw [h1]
      dsimp only
      congr 1
      omega
    · rw [hbits2, hbits1, hm.marks, hmarks]
      -- the two loops mark the push's data, eight bits at a time and then one at a time
      constructor
      · rintro ((h | ⟨h1, h2⟩) | ⟨h1, h2⟩)
        · exact .inl h
        · exact .inr ⟨by omega, by omega⟩
        · exact .inr ⟨by omega, by omega⟩
      · rintro (h | ⟨h1, h2⟩)
        · exact .inl (.inl h)
        · rcases Nat.lt_or_ge j (pc + 1 + 8 * (pushSize op / 8)) with hj | hj
          · exact .inl (.inr ⟨by omega, hj⟩)
          · exact .inr ⟨hj, by omega⟩
  · rename_i hpush
    have hn : pushSize op = 0 := by rw [pushSize, if_neg hpush]
    refine ⟨bits, by rw [hn], hm.boundary.step hop, hm.length, fun j => ?_⟩
    rw [hm.marks, hmarks, hn]
    constructor
    · exact .inl
    · rintro (h | ⟨h1, h2⟩)
      · exact h
      · omega

theorem codeBitmapLoop_spec (code : List UInt8) :
    ∀ (fuel : Nat) (bits : Bitvec) (pc : Nat), Marked code bits pc → code.length ≤ pc + fuel →
      ∃ bits', codeBitmapLoop code fuel bits pc = .ok bits' ∧
        bits'.length = code.length / 8 + 1 + 4 ∧
        ∀ j < code.length, (bitAt bits' j = true ↔ PushData code j)
  | 0, bits, pc, hm, hfuel =>
      ⟨bits, rfl, hm.length, fun j hj => by rw [hm.marks]; exact and_iff_left (by omega)⟩
  | fuel + 1, bits, pc, hm, hfuel => by
      cases hop : code[pc]? with
      | none =>
          have hlen : code.length ≤ pc := List.getElem?_eq_none_iff.mp hop
          refine ⟨bits, by rw [codeBitmapLoop, hop], hm.length, fun j hj => ?_⟩
          rw [hm.marks]
          exact and_iff_left (by omega)
      | some op =>
          obtain ⟨bits', hstep, hm'⟩ := codeBitmapLoop_step hm hop fuel
          rw [hstep]
          exact codeBitmapLoop_spec code fuel bits' _ hm' (by omega)

/-- `codeBitmap` never writes past its bitmap, and a position of the code is a code segment of the
bitmap exactly when the instruction walk lands on it. -/
theorem codeBitmap_spec (code : List UInt8) :
    ∃ bits, codeBitmap code = .ok bits ∧ bits.length = code.length / 8 + 1 + 4 ∧
      ∀ j < code.length, Bitvec.codeSegment bits j = .ok true ↔ Boundary code j := by
  obtain ⟨bits, hloop, hlen, hbits⟩ :=
    codeBitmapLoop_spec code code.length _ 0 (marked_start code) (by omega)
  refine ⟨bits, hloop, hlen, fun j hj => ?_⟩
  rw [Bitvec.codeSegment_eq (by rw [hlen]; omega), ← pushData_iff hj |>.not_left, ← hbits j hj]
  cases bitAt bits j <;> simp

example : codeBitmap [0x60, 0x5b, 0x5b] = .ok [0x40, 0, 0, 0, 0] := by decide

/-! ## Checking destinations -/

/-- Every bitmap the map holds is the analysis of one of `codes` with that hash. -/
def Analysed (H : List UInt8 → Hash) (codes : List (List UInt8)) (d : Destinations) : Prop :=
  ∀ h m, d.get? h = some m → ∃ c ∈ codes, H c = h ∧ codeBitmap c = .ok m

theorem analysed_empty (H : List UInt8 → Hash) (codes : List (List UInt8)) :
    Analysed H codes ∅ := fun h m hm => by simp at hm

section Has

variable {H : List UInt8 → Hash} {codes : List (List UInt8)} {code : List UInt8}

/-- The bitmap `has` reads for `code`: the one under its hash if the map holds one, which is the
analysis of `code` as long as `H` tells the codes apart. -/
theorem analysis_spec (hd : Analysed H codes d) (hcode : code ∈ codes)
    (hinj : Set.InjOn H {c | c ∈ codes}) :
    ∃ m d', d.analysis (H code) code = .ok (m, d') ∧ codeBitmap code = .ok m ∧
      Analysed H codes d' := by
  unfold Destinations.analysis
  cases hget : d.get? (H code) with
  | some m =>
      obtain ⟨c, hc, hH, hbits⟩ := hd _ m hget
      rw [hinj hc hcode hH] at hbits
      exact ⟨m, d, rfl, hbits, hd⟩
  | none =>
      obtain ⟨m, hm, -⟩ := codeBitmap_spec code
      refine ⟨m, d.insert (H code) m, by rw [hm]; rfl, hm, fun h m' hm' => ?_⟩
      rw [SortedMap.get?_insert] at hm'
      split_ifs at hm' with hh
      · cases hm'
        exact ⟨code, hcode, hh.symm, hm⟩
      · exact hd h m' hm'

/-- `has` accepts exactly the valid jump destinations, as long as the code has fewer than `2^62`
bytes and `H` tells the codes apart, and it keeps the map analysed. -/
theorem has_spec (hd : Analysed H codes d) (hcode : code ∈ codes)
    (hinj : Set.InjOn H {c | c ∈ codes}) (hlen : code.length ≤ 2 ^ 62) (dest : Nat) :
    ∃ b d', d.has (H code) code dest = .ok (b, d') ∧ (b = true ↔ ValidJumpdest code dest) ∧
      Analysed H codes d' := by
  unfold Destinations.has
  dsimp only
  split
  · rename_i hout
    have hpast : code.length ≤ dest := by
      rcases hout with hsize | hmod
      · have := Nat.lt_size.mp (by omega : 62 < dest.size)
        omega
      · exact hmod.trans (Nat.mod_le _ _)
    refine ⟨false, d, rfl, ⟨nofun, fun h => ?_⟩, hd⟩
    rw [ValidJumpdest, List.getElem?_eq_none hpast] at h
    cases h.1
  · rename_i hin
    have hsmall : dest < 2 ^ 64 := by
      have := Nat.size_le.mp (by omega : dest.size ≤ 63)
      omega
    rw [Nat.mod_eq_of_lt hsmall] at hin ⊢
    have hdest : dest < code.length := by omega
    obtain ⟨m, d', hlook, hm, hd'⟩ := analysis_spec hd hcode hinj
    obtain ⟨bits, hbits, hblen, hseg⟩ := codeBitmap_spec code
    rw [hm] at hbits
    cases hbits
    rw [hlook]
    simp only [bind, Except.bind]
    split
    · rename_i hjd
      have hsegment := Bitvec.codeSegment_eq (show dest / 8 < m.length by rw [hblen]; omega)
      rw [hsegment]
      refine ⟨_, d', rfl, ?_, hd'⟩
      rw [ValidJumpdest, ← hseg dest hdest, hsegment]
      simp [hjd]
    · rename_i hjd
      exact ⟨false, d', rfl, ⟨nofun, fun h => absurd h.1 hjd⟩, hd'⟩

end Has

/-- The checks of a run against one map, one after another, as the contracts of a call share
their parent's `jumpdests`: each code under its hash `H code`. -/
def Destinations.hasAll (H : List UInt8 → Hash) :
    Destinations → List (List UInt8 × Nat) → Except GoPanic (List Bool × Destinations)
  | d, [] => .ok ([], d)
  | d, (code, dest) :: rest => do
      let (b, d) ← d.has (H code) code dest
      let (bs, d) ← Destinations.hasAll H d rest
      pure (b :: bs, d)

theorem hasAll_spec (H : List UInt8 → Hash) (codes : List (List UInt8))
    (hinj : Set.InjOn H {c | c ∈ codes}) :
    ∀ (checks : List (List UInt8 × Nat)) (d : Destinations), Analysed H codes d →
      (∀ c ∈ checks, c.1 ∈ codes ∧ c.1.length ≤ 2 ^ 62) →
      ∃ bs d', d.hasAll H checks = .ok (bs, d') ∧
        List.Forall₂ (fun b c => b = true ↔ ValidJumpdest c.1 c.2) bs checks
  | [], d, _, _ => ⟨[], d, rfl, .nil⟩
  | (code, dest) :: rest, d, hd, hchecks => by
      obtain ⟨hcode, hlen⟩ := hchecks _ (List.mem_cons_self ..)
      obtain ⟨b, d1, hhas, hb, hd1⟩ := has_spec hd hcode hinj hlen dest
      obtain ⟨bs, d2, hrest, hbs⟩ := hasAll_spec H codes hinj rest d1 hd1
        (fun c hc => hchecks c (List.mem_cons_of_mem _ hc))
      refine ⟨b :: bs, d2, ?_, .cons hb hbs⟩
      rw [Destinations.hasAll, hhas]
      simp only [bind, Except.bind]
      rw [hrest]
      rfl

theorem hasAll_spec_push_data :
    Set.InjOn (fun _ : List UInt8 => (0 : Hash)) {c | c ∈ [[0x60, 0x5b, 0x5b]]} ∧
      ∃ bs d', (∅ : Destinations).hasAll (fun _ => 0)
          [([0x60, 0x5b, 0x5b], 1), ([0x60, 0x5b, 0x5b], 2)] = .ok (bs, d') ∧
        List.Forall₂ (fun b c => b = true ↔ ValidJumpdest c.1 c.2) bs
          [([0x60, 0x5b, 0x5b], 1), ([0x60, 0x5b, 0x5b], 2)] := by
  have hinj : Set.InjOn (fun _ => (0 : Hash)) {c | c ∈ [[(0x60 : UInt8), 0x5b, 0x5b]]} := by
    intro a ha b hb _
    simp only [Set.mem_ofPred_eq, List.mem_singleton] at ha hb
    rw [ha, hb]
  exact ⟨hinj, hasAll_spec (fun _ => 0) [[0x60, 0x5b, 0x5b]] hinj _ ∅
    (analysed_empty _ _) (by decide)⟩

/-! ## The program counter of `Run` -/

def JUMP : UInt8 := 0x56
def JUMPI : UInt8 := 0x57

/-- How a jump ends `Run`'s loop. -/
inductive JumpError where
  /-- `fmt.Errorf("invalid jump destination (%v) %v", nop, pos)`. -/
  | invalidJumpDestination (nop : UInt8) (pos : Nat)
  /-- A panic of `has`. -/
  | panic (p : GoPanic)

/-- `contract.GetOp(n)`: the byte at `n`, and `STOP` past the code. -/
def getOp (code : List UInt8) (n : Nat) : UInt8 := code.getD n 0

/-- `opJump`: `*pc = pos.Uint64()` if `has` accepts `pos`. -/
def opJump (d : Destinations) (codehash : Hash) (code : List UInt8) (pos : Nat) :
    Except JumpError (Nat × Destinations) :=
  match d.has codehash code pos with
  | .ok (true, d) => .ok (pos % 2 ^ 64, d)
  | .ok (false, _) => .error (.invalidJumpDestination (getOp code (pos % 2 ^ 64)) pos)
  | .error p => .error (.panic p)

/-- Where `Run` goes on after the instruction at `pc`, when it neither halts nor fails: a push
moves past its data (`*pc += size`, then `pc++`), `JUMP` and a taken `JUMPI` to the destination
(`opJumpi`), any other instruction to the next byte. `pos` and `cond` are what a jump pops. -/
def nextPc (d : Destinations) (codehash : Hash) (code : List UInt8) (pc pos cond : Nat) :
    Except JumpError (Nat × Destinations) :=
  let op := getOp code pc
  if op = JUMP then opJump d codehash code pos
  else if op = JUMPI then
    if cond ≠ 0 then opJump d codehash code pos else .ok (pc + 1, d)
  else .ok (pc + 1 + pushSize op, d)

/-- The program counters `Run`'s loop executes at from `pc`, given the values each jump pops;
`halts` is the jump table's flag. The loop ends at a halting instruction or a failed jump. -/
def pcRun (halts : UInt8 → Bool) (H : List UInt8 → Hash) (code : List UInt8) :
    List (Nat × Nat) → Nat → Destinations → List Nat
  | [], pc, _ => [pc]
  | (pos, cond) :: rest, pc, d =>
      if halts (getOp code pc) then [pc]
      else
        match nextPc d (H code) code pc pos cond with
        | .ok (pc', d') => pc :: pcRun halts H code rest pc' d'
        | .error _ => [pc]

section Run

variable {H : List UInt8 → Hash} {codes : List (List UInt8)} {code : List UInt8}

theorem opJump_boundary (hd : Analysed H codes d) (hcode : code ∈ codes)
    (hinj : Set.InjOn H {c | c ∈ codes}) (hlen : code.length ≤ 2 ^ 62) {pos pc' : Nat}
    {d' : Destinations} (h : opJump d (H code) code pos = .ok (pc', d')) :
    Boundary code pc' ∧ Analysed H codes d' := by
  obtain ⟨b, d1, hhas, hb, hd1⟩ := has_spec hd hcode hinj hlen pos
  unfold opJump at h
  rw [hhas] at h
  cases b with
  | false => cases h
  | true =>
      cases h
      -- an accepted destination is inside the code, so `pos.Uint64()` is `pos`
      obtain ⟨hjd, hbound⟩ := hb.mp rfl
      have hpos : pos < 2 ^ 64 := by
        have := (List.getElem?_eq_some_iff.mp hjd).1
        omega
      rw [Nat.mod_eq_of_lt hpos]
      exact ⟨hbound, hd1⟩

/-- One instruction keeps the program counter on an opcode. -/
theorem nextPc_boundary (hd : Analysed H codes d) (hcode : code ∈ codes)
    (hinj : Set.InjOn H {c | c ∈ codes}) (hlen : code.length ≤ 2 ^ 62) {pc pos cond pc' : Nat}
    {d' : Destinations} (hpc : Boundary code pc) (hin : pc < code.length)
    (h : nextPc d (H code) code pc pos cond = .ok (pc', d')) :
    Boundary code pc' ∧ Analysed H codes d' := by
  have hop : code[pc]? = some (getOp code pc) := by
    rw [getOp, List.getD_eq_getElem _ _ hin, List.getElem?_eq_getElem hin]
  unfold nextPc at h
  dsimp only at h
  split at h
  · exact opJump_boundary hd hcode hinj hlen h
  split at h
  · rename_i hjumpi
    have hsize : pushSize (getOp code pc) = 0 := by
      rw [hjumpi]
      rfl
    split at h
    · exact opJump_boundary hd hcode hinj hlen h
    · cases h
      have := hpc.step hop
      rw [hsize, Nat.add_zero] at this
      exact ⟨this, hd⟩
  · cases h
    exact ⟨hpc.step hop, hd⟩

/-- Whatever values the jumps pop, `Run` only executes instructions at the opcodes of the code:
never push data. -/
theorem pcRun_boundary (halts : UInt8 → Bool) (hstop : halts 0 = true)
    (hcode : code ∈ codes) (hinj : Set.InjOn H {c | c ∈ codes}) (hlen : code.length ≤ 2 ^ 62) :
    ∀ (jumps : List (Nat × Nat)) (pc : Nat) (d : Destinations), Boundary code pc →
      Analysed H codes d → ∀ p ∈ pcRun halts H code jumps pc d, Boundary code p
  | [], pc, _, hpc, _ => by
      simp only [pcRun, List.mem_singleton]
      rintro p rfl
      exact hpc
  | (pos, cond) :: rest, pc, d, hpc, hd => by
      unfold pcRun
      split
      · simp only [List.mem_singleton]
        rintro p rfl
        exact hpc
      rename_i hgo
      -- past the code `GetOp` reads `STOP`, which halts
      have hin : pc < code.length := by
        by_contra hc
        rw [getOp, List.getD_eq_default _ _ (by omega), hstop] at hgo
        exact hgo rfl
      split
      · rename_i pc' d' hnext
        obtain ⟨hpc', hd'⟩ := nextPc_boundary hd hcode hinj hlen hpc hin hnext
        rintro p (_ | ⟨_, hp⟩)
        · exact hpc
        · exact pcRun_boundary halts hstop hcode hinj hlen rest pc' d' hpc' hd' p hp
      · simp only [List.mem_singleton]
        rintro p rfl
        exact hpc

theorem pcRun_boundary_jump_into_push :
    Set.InjOn (fun _ : List UInt8 => (0 : Hash)) {c | c ∈ [[0x60, 0x5b, 0x5b]]} ∧
      ∀ p ∈ pcRun (· == 0) (fun _ => 0) [0x60, 0x5b, 0x5b] [(0, 0), (2, 0), (1, 0)] 0 ∅,
        Boundary [0x60, 0x5b, 0x5b] p := by
  have hinj : Set.InjOn (fun _ => (0 : Hash)) {c | c ∈ [[(0x60 : UInt8), 0x5b, 0x5b]]} := by
    intro a ha b hb _
    simp only [Set.mem_ofPred_eq, List.mem_singleton] at ha hb
    rw [ha, hb]
  exact ⟨hinj, pcRun_boundary (· == 0) rfl (List.mem_singleton_self _) hinj (by decide) _ 0 ∅
    Walk.Lands.refl (analysed_empty _ _)⟩

end Run

end AuroraChain.Vm
