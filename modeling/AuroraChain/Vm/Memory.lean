import AuroraChain.Common.Types
/-!
# Memory and the gas of its expansion: `core/vm/memory.go`, `gas_table.go`, `common.go`

Before each instruction `Run` works out the memory the instruction reaches, rounds it up to whole
32-byte words, charges `memoryGasCost` for it with the rest of the instruction's gas, and resizes
the memory. `memoryGasCost` charges the difference between the fee of the new size and
`lastGasCost`, the fee of the memory already paid for, and remembers the new fee.

The fee of `w` words is `w * MemoryGas + w * w / QuadCoeffDiv`. `memoryGasCost` computes it in
`uint64` and refuses sizes above `0xffffffffe0` bytes, which still lets `w * w` wrap for sizes
above `2^37` bytes (the test pins such a wrapped value). The expansions of a run whose gas stays
below `2^32` never reach those sizes: the linear part alone then costs more than is left. So over
every such run the memory has always cost exactly the fee of its size, whatever order it grew in
(`expandAll_fee`).
-/

namespace AuroraChain.Vm

/-- `params.MemoryGas` and `params.QuadCoeffDiv`. -/
def MemoryGas : Nat := 1
def QuadCoeffDiv : Nat := 1024

/-- `Memory`: the bytes, and the fee of the memory paid for so far. -/
structure Memory where
  store : List UInt8
  lastGasCost : Nat
  deriving DecidableEq

def newMemory : Memory := ⟨[], 0⟩

/-- The errors of an expansion: `errGasUintOverflow`, and `ErrOutOfGas`, which `Run` returns for
any error of the gas function. -/
inductive MemoryError where
  | errGasUintOverflow
  | errOutOfGas
  deriving DecidableEq, Repr

/-- `math.SafeAdd` and `math.SafeMul`: the `uint64` result and whether it overflowed. -/
def safeAdd (x y : Nat) : Nat × Bool := ((x + y) % 2 ^ 64, y > 2 ^ 64 - 1 - x)

def safeMul (x y : Nat) : Nat × Bool :=
  if x = 0 ∨ y = 0 then (0, false) else (x * y % 2 ^ 64, y > (2 ^ 64 - 1) / x)

/-- `toWordSize(size)`: the words `size` bytes need, rounded up. -/
def toWordSize (size : Nat) : Nat :=
  if size > 2 ^ 64 - 1 - 31 then (2 ^ 64 - 1) / 32 + 1 else (size + 31) / 32

/-- `memoryGasCost(mem, newMemSize)`: the fee of growing the memory to `newMemSize` bytes, and the
memory with the fee of the new size remembered. -/
def memoryGasCost (mem : Memory) (newMemSize : Nat) : Except MemoryError (Nat × Memory) :=
  if newMemSize = 0 then .ok (0, mem)
  else if newMemSize > 0xffffffffe0 then .error .errGasUintOverflow
  else
    let newMemSizeWords := toWordSize newMemSize
    let newMemSize := newMemSizeWords * 32 % 2 ^ 64
    if newMemSize > mem.store.length then
      let square : Nat := newMemSizeWords * newMemSizeWords % 2 ^ 64
      let linCoef : Nat := newMemSizeWords * MemoryGas % 2 ^ 64
      let quadCoef : Nat := square / QuadCoeffDiv
      let newTotalFee : Nat := (linCoef + quadCoef) % 2 ^ 64
      let fee := toUint64 ((newTotalFee : Int) - (mem.lastGasCost : Int))
      .ok (fee, { mem with lastGasCost := newTotalFee })
    else .ok (0, mem)

/-- `mem.Resize(size)`: zeros appended up to `size` bytes. -/
def Memory.resize (mem : Memory) (size : Nat) : Memory :=
  if mem.store.length < size then
    { mem with store := mem.store ++ List.replicate (size - mem.store.length) 0 }
  else mem

/-- The memory part of one round of `Run`, for an instruction whose memory function asks for
`memSize` bytes and whose gas function is `memoryGasCost` followed by `SafeAdd` of `extra` (as
`gasMLoad` and `gasMStore` with `GasFastestStep`, `gasReturn` with nothing): the memory and the
gas left. -/
def expand (mem : Memory) (gas memSize extra : Nat) : Except MemoryError (Memory × Nat) :=
  -- `bigUint64` of the memory function's result
  if memSize ≥ 2 ^ 64 then .error .errGasUintOverflow
  else
    let memorySize := safeMul (toWordSize memSize) 32
    if memorySize.2 then .error .errGasUintOverflow
    else
      match memoryGasCost mem memorySize.1 with
      | .error _ => .error .errOutOfGas
      | .ok (fee, mem) =>
          let cost := safeAdd fee extra
          -- `contract.UseGas(cost)`
          if cost.2 ∨ gas < cost.1 then .error .errOutOfGas
          else .ok (if memorySize.1 > 0 then mem.resize memorySize.1 else mem, gas - cost.1)

/-- The instructions of a run one after another, each with its memory size and other gas, until
one fails. -/
def expandAll : Memory → Nat → List (Nat × Nat) → Except MemoryError (Memory × Nat)
  | mem, gas, [] => .ok (mem, gas)
  | mem, gas, (memSize, extra) :: rest => do
      let (mem, gas) ← expand mem gas memSize extra
      expandAll mem gas rest

/-! ## The fee of a memory -/

/-- The fee of a memory of `w` words, computed without bound. -/
def memoryFee (w : Nat) : Nat := w * MemoryGas + w * w / QuadCoeffDiv

theorem memoryFee_mono {w w' : Nat} (h : w ≤ w') : memoryFee w ≤ memoryFee w' := by
  unfold memoryFee MemoryGas QuadCoeffDiv
  have := Nat.mul_le_mul h h
  have := Nat.div_le_div_right (c := 1024) this
  omega

/-- What every memory of a run keeps: whole words, and the fee of its size remembered. -/
structure Memory.Paid (mem : Memory) : Prop where
  words : mem.store.length % 32 = 0
  fee : mem.lastGasCost = memoryFee (mem.store.length / 32)

theorem newMemory_paid : newMemory.Paid := ⟨rfl, rfl⟩

theorem toWordSize_of_le {size : Nat} (h : size ≤ 2 ^ 64 - 32) : toWordSize size = (size + 31) / 32 :=
  if_neg (by omega)

theorem fee_uint64 {w : Nat} (hw : w < 2 ^ 32) :
    (w * MemoryGas % 2 ^ 64 + w * w % 2 ^ 64 / QuadCoeffDiv) % 2 ^ 64 = memoryFee w := by
  unfold memoryFee MemoryGas QuadCoeffDiv
  have hsq : w * w < 2 ^ 64 := by
    calc w * w < 2 ^ 32 * 2 ^ 32 := Nat.mul_lt_mul'' hw hw
      _ = 2 ^ 64 := by norm_num
  have hdiv : w * w / 1024 < 2 ^ 54 := by omega
  rw [Nat.mod_eq_of_lt hsq, Nat.mod_eq_of_lt (by omega : w * 1 < 2 ^ 64)]
  exact Nat.mod_eq_of_lt (by omega)

/-- From `2^32` words on, the `uint64` fee is still at least the number of words. -/
theorem words_le_fee_uint64 {w : Nat} (hw : w ≤ 2 ^ 35) :
    w ≤ (w * MemoryGas % 2 ^ 64 + w * w % 2 ^ 64 / QuadCoeffDiv) % 2 ^ 64 := by
  unfold MemoryGas QuadCoeffDiv
  have hq : w * w % 2 ^ 64 / 1024 < 2 ^ 54 := by
    have := Nat.mod_lt (w * w) (by norm_num : 0 < 2 ^ 64)
    omega
  rw [Nat.mod_eq_of_lt (by omega : w * 1 < 2 ^ 64), Nat.mod_eq_of_lt (by omega)]
  omega

/-! ## One expansion -/

section Cost

variable {mem : Memory} {size : Nat}

theorem toWordSize_words (hsize : size % 32 = 0) (hle : size ≤ 0xffffffffe0) :
    toWordSize size = size / 32 ∧ size / 32 * 32 % 2 ^ 64 = size := by
  rw [toWordSize_of_le (by omega)]
  constructor
  · omega
  · rw [Nat.mod_eq_of_lt (by omega)]
    omega

theorem memoryGasCost_of_le (hpos : 0 < size) (hsize : size % 32 = 0)
    (hle : size ≤ 0xffffffffe0) (hin : size ≤ mem.store.length) :
    memoryGasCost mem size = .ok (0, mem) := by
  obtain ⟨hw, hback⟩ := toWordSize_words hsize hle
  unfold memoryGasCost
  rw [if_neg (by omega), if_neg (by omega)]
  dsimp only
  rw [hw, hback, if_neg (by omega)]

/-- Growing to fewer than `2^32` words charges the difference of the fees. -/
theorem memoryGasCost_of_lt (hp : mem.Paid) (hsize : size % 32 = 0)
    (hle : size ≤ 0xffffffffe0) (hgrow : mem.store.length < size) (hw32 : size / 32 < 2 ^ 32) :
    memoryGasCost mem size =
      .ok (memoryFee (size / 32) - mem.lastGasCost, { mem with lastGasCost := memoryFee (size / 32) }) := by
  obtain ⟨hw, hback⟩ := toWordSize_words hsize hle
  have hmono : mem.lastGasCost ≤ memoryFee (size / 32) := by
    rw [hp.fee]
    exact memoryFee_mono (by omega)
  have hfee : memoryFee (size / 32) < 2 ^ 64 := by
    have := fee_uint64 hw32
    rw [← this]
    exact Nat.mod_lt _ (by norm_num)
  unfold memoryGasCost
  rw [if_neg (by omega), if_neg (by omega)]
  dsimp only
  rw [hw, hback, if_pos hgrow, fee_uint64 hw32,
    toUint64_of_lt (by omega) (by omega)]
  congr
  omega

/-- Growing to `2^32` words or more charges, with the fee already paid, at least `2^32`. -/
theorem memoryGasCost_of_wrap (hsize : size % 32 = 0) (hle : size ≤ 0xffffffffe0)
    (hgrow : mem.store.length < size) (hw32 : 2 ^ 32 ≤ size / 32) (hlast : mem.lastGasCost < 2 ^ 32) :
    ∃ fee mem', memoryGasCost mem size = .ok (fee, mem') ∧ 2 ^ 32 ≤ fee + mem.lastGasCost := by
  obtain ⟨hw, hback⟩ := toWordSize_words hsize hle
  have hwords := words_le_fee_uint64 (w := size / 32) (by omega)
  have hlt := Nat.mod_lt ((size / 32 * MemoryGas % 2 ^ 64 + size / 32 * (size / 32) % 2 ^ 64 /
    QuadCoeffDiv)) (by norm_num : 0 < 2 ^ 64)
  unfold memoryGasCost
  rw [if_neg (by omega), if_neg (by omega)]
  dsimp only
  rw [hw, hback, if_pos hgrow]
  refine ⟨_, _, rfl, ?_⟩
  rw [toUint64_of_lt (by omega) (by omega)]
  omega

end Cost

theorem resize_length {mem : Memory} {size : Nat} :
    (mem.resize size).store.length = max mem.store.length size := by
  unfold Memory.resize
  split
  · simp only [List.length_append, List.length_replicate]
    omega
  · omega

theorem resize_lastGasCost (mem : Memory) (size : Nat) :
    (mem.resize size).lastGasCost = mem.lastGasCost := by
  unfold Memory.resize
  split <;> rfl

theorem safeAdd_ok {x y : Nat} (hx : x < 2 ^ 64) (h : (safeAdd x y).2 = false) :
    (safeAdd x y).1 = x + y := by
  unfold safeAdd at h ⊢
  simp only [decide_eq_false_iff_not, not_lt] at h
  exact Nat.mod_eq_of_lt (by omega)

theorem safeMul_ok {x y : Nat} (h : (safeMul x y).2 = false) : (safeMul x y).1 = x * y := by
  unfold safeMul at h ⊢
  split_ifs at h ⊢ with h0
  · rcases h0 with h0 | h0 <;> simp [h0]
  · simp only [decide_eq_false_iff_not, not_lt] at h
    have hx : 0 < x := by omega
    exact Nat.mod_eq_of_lt (by
      have := (Nat.le_div_iff_mul_le hx).mp h
      rw [Nat.mul_comm]
      omega)

theorem memoryGasCost_fee_lt {mem mem' : Memory} {size fee : Nat}
    (h : memoryGasCost mem size = .ok (fee, mem')) : fee < 2 ^ 64 := by
  unfold memoryGasCost at h
  split_ifs at h
  · cases h
    norm_num
  · dsimp only at h
    split at h
    · cases h
      unfold toUint64
      omega
    · cases h
      norm_num

/-- What an instruction's expansion that goes through did: `memoryGasCost` of the size asked for,
rounded to words, paid with the other gas, and the memory resized. -/
theorem expand_inv {mem mem' : Memory} {gas gas' memSize extra : Nat}
    (h : expand mem gas memSize extra = .ok (mem', gas')) :
    ∃ fee mem1, memoryGasCost mem (toWordSize memSize * 32) = .ok (fee, mem1) ∧
      fee + extra ≤ gas ∧ gas' = gas - (fee + extra) ∧
      mem' = if toWordSize memSize * 32 > 0 then mem1.resize (toWordSize memSize * 32) else mem1 := by
  unfold expand at h
  split at h
  · cases h
  dsimp only at h
  split at h
  · cases h
  rename_i hmul
  rw [safeMul_ok (by simpa using hmul)] at h
  split at h
  · cases h
  rename_i fee mem1 hcost
  split at h
  · cases h
  rename_i hok
  have hover : (safeAdd fee extra).2 = false := by
    cases hc : (safeAdd fee extra).2
    · rfl
    · exact absurd (.inl hc) hok
  rw [safeAdd_ok (memoryGasCost_fee_lt hcost) hover] at h hok
  cases h
  exact ⟨fee, mem1, hcost, by omega, rfl, rfl⟩

/-- One instruction keeps the memory paid for, and what was spent on memory plus what is left
only loses the instruction's other gas, as long as the two stay below `2^32`. -/
theorem expand_paid {mem mem' : Memory} {gas gas' memSize extra : Nat} (hp : mem.Paid)
    (hbudget : gas + mem.lastGasCost < 2 ^ 32) (h : expand mem gas memSize extra = .ok (mem', gas')) :
    mem'.Paid ∧ gas + mem.lastGasCost = gas' + mem'.lastGasCost + extra := by
  obtain ⟨fee, mem1, hcost, hpay, rfl, rfl⟩ := expand_inv h
  have hwords : toWordSize memSize * 32 % 32 = 0 := Nat.mul_mod_left _ _
  generalize toWordSize memSize * 32 = size at hcost hwords ⊢
  by_cases hzero : size = 0
  · -- nothing is asked for
    subst hzero
    rw [memoryGasCost, if_pos rfl] at hcost
    cases hcost
    rw [if_neg (Nat.lt_irrefl 0)]
    exact ⟨hp, by omega⟩
  have hle : size ≤ 0xffffffffe0 := by
    by_contra hc
    rw [memoryGasCost, if_neg hzero, if_pos (by omega)] at hcost
    cases hcost
  rw [if_pos (Nat.pos_of_ne_zero hzero)]
  rcases Nat.lt_or_ge mem.store.length size with hgrow | hin
  · rcases Nat.lt_or_ge (size / 32) (2 ^ 32) with hw32 | hw32
    · -- the memory grows: it is charged the growth of the fee
      rw [memoryGasCost_of_lt hp hwords hle hgrow hw32] at hcost
      cases hcost
      have hmono : mem.lastGasCost ≤ memoryFee (size / 32) := by
        rw [hp.fee]
        exact memoryFee_mono (by omega)
      refine ⟨⟨?_, ?_⟩, ?_⟩
      · rw [resize_length, Nat.max_eq_right hgrow.le]
        exact hwords
      · rw [resize_lastGasCost, resize_length, Nat.max_eq_right hgrow.le]
      · rw [resize_lastGasCost]
        dsimp only
        omega
    · -- past `2^32` words the wrapped fee is still more than is left
      obtain ⟨fee', mem2, hcost', hbig⟩ := memoryGasCost_of_wrap hwords hle hgrow hw32 (by omega)
      rw [hcost] at hcost'
      cases hcost'
      omega
  · -- the memory is large enough already
    rw [memoryGasCost_of_le (Nat.pos_of_ne_zero hzero) hwords hle hin] at hcost
    cases hcost
    have hsame : mem.resize size = mem := by
      unfold Memory.resize
      rw [if_neg (by omega)]
    rw [hsame]
    exact ⟨hp, by omega⟩

theorem expandAll_paid : ∀ (steps : List (Nat × Nat)) (mem : Memory) (gas : Nat) {mem' : Memory}
    {gas' : Nat}, mem.Paid → gas + mem.lastGasCost < 2 ^ 32 →
    expandAll mem gas steps = .ok (mem', gas') →
    mem'.Paid ∧ gas + mem.lastGasCost = gas' + mem'.lastGasCost + (steps.map Prod.snd).sum
  | [], mem, gas, _, _, hp, _, h => by
      cases h
      exact ⟨hp, by simp⟩
  | (memSize, extra) :: rest, mem, gas, mem', gas', hp, hbudget, h => by
      rw [expandAll] at h
      simp only [bind, Except.bind] at h
      split at h
      · cases h
      rename_i res hstep
      obtain ⟨hp1, hgas1⟩ := expand_paid hp hbudget hstep
      obtain ⟨hp2, hgas2⟩ := expandAll_paid rest res.1 res.2 hp1 (by omega) h
      refine ⟨hp2, ?_⟩
      rw [List.map_cons, List.sum_cons]
      omega

/-- Over every run of a call with less than `2^32` gas (a block holds at most `MaxGasLimit`), the
memory is whole words and the gas spent is exactly the fee of its final size plus the other gas
of the instructions, whatever order it grew in. -/
theorem expandAll_fee (steps : List (Nat × Nat)) {gas gas' : Nat} {mem' : Memory}
    (hgas : gas < 2 ^ 32) (h : expandAll newMemory gas steps = .ok (mem', gas')) :
    mem'.store.length % 32 = 0 ∧ mem'.lastGasCost = memoryFee (mem'.store.length / 32) ∧
      gas = gas' + memoryFee (mem'.store.length / 32) + (steps.map Prod.snd).sum := by
  obtain ⟨hp, hspent⟩ := expandAll_paid steps newMemory gas newMemory_paid (by simpa [newMemory] using hgas) h
  refine ⟨hp.words, hp.fee, ?_⟩
  rw [← hp.fee]
  simpa [newMemory] using hspent

theorem expandAll_fee_grow_twice :
    (1000 : Nat) < 2 ^ 32 ∧
      expandAll newMemory 1000 [(64, 3), (32, 3), (100, 3)] =
        .ok (⟨List.replicate 128 0, 4⟩, 987) ∧
      (⟨List.replicate 128 0, 4⟩ : Memory).store.length % 32 = 0 ∧
      (⟨List.replicate 128 0, 4⟩ : Memory).lastGasCost =
        memoryFee ((⟨List.replicate 128 0, 4⟩ : Memory).store.length / 32) ∧
      1000 = 987 + memoryFee ((⟨List.replicate 128 0, 4⟩ : Memory).store.length / 32) +
        ([(64, 3), (32, 3), (100, 3)].map Prod.snd).sum := by
  have h : expandAll newMemory 1000 [(64, 3), (32, 3), (100, 3)] =
      .ok (⟨List.replicate 128 0, 4⟩, 987) := by
    decide +kernel
  exact ⟨by norm_num, h, expandAll_fee _ (by norm_num) h⟩

end AuroraChain.Vm
