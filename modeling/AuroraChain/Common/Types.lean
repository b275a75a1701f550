import Mathlib
/-!
# Addresses, hashes and the chain's parameters

The value types every package of the chain shares. An address and a hash are fixed-width byte
strings, modelled by their numeric value. Where the code passes an address around as its `Hex()`
string (candidates, shuffle entries, the keys of the vote-count map), the model keeps the address:
`Hex()` is the prefix `AOA` followed by the forty lower-case hex digits, so it is injective, and
two such strings compare as the addresses they spell do.

Runtime panics (a nil dereference, an out-of-range slice, an explicit `panic`) are an outcome of
their own, `GoPanic`, distinct from a returned error.
-/

namespace AuroraChain

/-- `common.Address`, twenty bytes. -/
abbrev Address := Fin (2 ^ 160)

/-- `common.Hash`, thirty-two bytes. -/
abbrev Hash := Fin (2 ^ 256)

/-- Address literals and `Fin.ofNat` into addresses all use this one proof. -/
instance addressNeZero : NeZero (2 ^ 160) := ⟨by decide⟩

instance hashNeZero : NeZero (2 ^ 256) := ⟨by decide⟩

/-- A Go runtime panic, the outcome of a call that neither returns nor errs. -/
inductive GoPanic where
  /-- A method call or field access through a nil pointer. -/
  | nilDereference
  /-- A slice expression or index outside the slice. -/
  | sliceOutOfRange
  /-- `RevertToSnapshot`'s "revision id %v cannot be reverted". -/
  | revisionCannotBeReverted (revid : Nat)
  /-- An integer division by zero. -/
  | divideByZero
  /-- `signatureValues`'s "wrong size for signature: got %d, want 65". -/
  | wrongSignatureSize (size : Nat)
  /-- `GasPool.AddGas`'s "gas pool pushed above uint64". -/
  | gasPoolPushedAboveUint64
  deriving DecidableEq, Repr

/-- Go's `int64(x)` of a 64-bit pattern: the low 64 bits, read in two's complement. -/
def toInt64 (n : Int) : Int :=
  let m := n % 2 ^ 64
  if m < 2 ^ 63 then m else m - 2 ^ 64

/-- Go's `uint64(x)`, and `big.Int.Uint64`: the low 64 bits. -/
def toUint64 (n : Int) : Nat := (n % 2 ^ 64).toNat

theorem toInt64_of_lt {n : Int} (h0 : -2 ^ 63 ≤ n) (h : n < 2 ^ 63) : toInt64 n = n := by
  unfold toInt64
  dsimp only
  split <;> omega

theorem toInt64_le {n : Int} (h : 0 ≤ n) : toInt64 n ≤ n := by
  unfold toInt64
  dsimp only
  split <;> omega

theorem toInt64_lt (n : Int) : toInt64 n < 2 ^ 63 := by
  unfold toInt64
  dsimp only
  split <;> omega

theorem toInt64_modEq (n : Int) : toInt64 n ≡ n [ZMOD 2 ^ 64] := by
  unfold toInt64 Int.ModEq
  dsimp only
  split <;> omega

theorem toInt64_eq_of_modEq {a b : Int} (h : a ≡ b [ZMOD 2 ^ 64]) : toInt64 a = toInt64 b := by
  unfold Int.ModEq at h
  unfold toInt64
  rw [h]

theorem toInt64_emod_two (n : Int) : toInt64 n % 2 = n % 2 := by
  unfold toInt64
  dsimp only
  split <;> omega

theorem toUint64_of_lt {n : Int} (h0 : 0 ≤ n) (h : n < 2 ^ 64) : toUint64 n = n.toNat := by
  unfold toUint64
  omega

/-- `types.Log`, with the fields the state databases fill in when a log is added. -/
structure Log where
  address : Address
  topics : List Hash
  data : List UInt8
  txHash : Hash
  txIndex : Nat
  blockHash : Hash
  index : Nat
  deriving DecidableEq, Repr

/-- `types.Candidate`, a delegate as the ranking sees it. -/
structure Candidate where
  address : Address
  vote : Nat
  nickname : String
  registerTime : Nat
  deriving DecidableEq, Repr

/-- `CandidateSlice.Less(i, j)` for `ca[i] = a`, `ca[j] = b`: more votes first, then the earlier
registration, then the larger address. -/
def CandidateSlice.less (a b : Candidate) : Bool :=
  if b.vote ≠ a.vote then b.vote < a.vote
  else if b.registerTime ≠ a.registerTime then b.registerTime > a.registerTime
  else b.address < a.address

/-- `Less` is the strict lexicographic order on (more votes, earlier registration, larger
address). -/
theorem CandidateSlice.less_iff {a b : Candidate} :
    less a b = true ↔ b.vote < a.vote ∨ b.vote = a.vote ∧ a.registerTime < b.registerTime ∨
      b.vote = a.vote ∧ b.registerTime = a.registerTime ∧ b.address.val < a.address.val := by
  unfold less
  split_ifs with hv hr
  · simp only [decide_eq_true_eq]; omega
  · simp only [decide_eq_true_eq]; omega
  · simp only [decide_eq_true_eq, Fin.lt_def]; omega

theorem CandidateSlice.less_asymm {a b : Candidate} (h : less a b = true) : less b a = false := by
  rw [less_iff] at h
  rw [← Bool.not_eq_true, less_iff]
  omega

theorem CandidateSlice.not_less_trans {a b c : Candidate} (hab : less b a = false)
    (hbc : less c b = false) : less c a = false := by
  rw [← Bool.not_eq_true, less_iff] at *
  omega

theorem CandidateSlice.less_or_less {a b : Candidate} (h : a.address ≠ b.address) :
    less a b = true ∨ less b a = true := by
  rw [less_iff, less_iff]
  have := Fin.val_ne_of_ne h
  omega

namespace Params

/-- `params.Em`, one coin in its smallest unit. -/
def Em : Nat := 10 ^ 18

/-- `params.TxGasAgentCreation`, the balance a delegate must keep, read by `SetString(_, 10)`. -/
def TxGasAgentCreation : Nat := 50000000000000000000000

def TxGas : Nat := 25000

def TxGasContractCreation : Nat := 20000

def TxGasAssetPublish : Nat := 100000

def TxDataZeroGas : Nat := 1

def TxDataNonZeroGas : Nat := 4

def GasLimitBoundDivisor : Nat := 512

def MinGasLimit : Nat := 200000000

/-- `params.GenesisGasLimit`, which `params.TargetGasLimit` is set to. -/
def TargetGasLimit : Nat := 250000000

def MaxGasLimit : Nat := 300000000

def MaximumExtraDataSize : Nat := 16

def MaxContractGasLimit : Nat := 60000000

-- The EVM's gas prices, with `Calls` from `GasTableFrontier`, the table `ChainConfig.GasTable`
-- returns at every height.
def Calls : Nat := 45
def CallNewAccountGas : Nat := 1600
def CallValueTransferGas : Nat := 550
def CallStipend : Nat := 1000
def TransferAssetGas : Nat := 550
def CreateGas : Nat := 2000
def CreateDataGas : Nat := 12
def TxABIGas : Nat := 3
def SuicideRefundGas : Nat := 1500
def MaxCodeSize : Nat := 24576
def CallCreateDepth : Nat := 1024

end Params

/-! The modelled functions chain fallible steps with `Except.bind` and `Except.map`; a successful
chain is taken apart step by step with these. -/

theorem except_bind_eq_ok {ε α β : Type} {x : Except ε α} {f : α → Except ε β} {b : β}
    (h : x.bind f = .ok b) : ∃ a, x = .ok a ∧ f a = .ok b := by
  cases x with
  | error e => cases h
  | ok a => exact ⟨a, rfl, h⟩

theorem except_map_eq_ok {ε α β : Type} {x : Except ε α} {f : α → β} {b : β}
    (h : x.map f = .ok b) : ∃ a, x = .ok a ∧ f a = b := by
  cases x with
  | error e => cases h
  | ok a =>
      simp only [Except.map, Except.ok.injEq] at h
      exact ⟨a, rfl, h⟩

end AuroraChain
