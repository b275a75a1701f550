import AuroraChain.Common.Types
/-!
# `math.Exp`: exponentiation by squaring on 256-bit words

`Exp(base, exponent)` walks the exponent's machine words (`exponent.Bits()`, least significant
first) and the `wordBits` bits of each, multiplying the result by the base at a set bit and
squaring the base at every bit, and truncating both to 256 bits with `U256`. `wordBits` is 64 on a
64-bit platform and 32 on a 32-bit one, so the model takes it as a parameter. `opExp` pushes the
result.

The result is `base ^ exponent mod 2^256` for every word size (`exp_result`). The loop invariant:
the result, times the current base raised to the bits still to come, is the power. The base is
another matter. `base.Mul(base, base)` squares the caller's `*big.Int` in place, so `Exp` leaves
the base the caller passed as its `2^(wordBits · words)`-th power mod `2^256`. The doc comment
says `Exp` does not change it (`exp_base`).
-/

namespace AuroraChain.Math

/-- `U256(x)`: `x & (2^256 - 1)`, the low 256 bits. -/
def u256 (x : Nat) : Nat := x &&& (2 ^ 256 - 1)

theorem u256_eq_mod (x : Nat) : u256 x = x % 2 ^ 256 := Nat.and_two_pow_sub_one_eq_mod x 256

/-- `exponent.Bits()`: the words of the exponent in base `2^wordBits`, least significant first,
with no zero word on top. -/
def bits (wordBits exponent : Nat) : List Nat := Nat.digits (2 ^ wordBits) exponent

/-- The inner loop of `Exp` over the `n` bits left of one word: the result and the base after
them. -/
def expWord : Nat → Nat → Nat → Nat → Nat × Nat
  | 0, _, result, base => (result, base)
  | n + 1, word, result, base =>
      let result := if word &&& 1 = 1 then u256 (result * base) else result
      expWord n (word >>> 1) result (u256 (base * base))

/-- `Exp(base, exponent)`: the result, and the value the caller's `base` holds afterwards. -/
def exp (wordBits base exponent : Nat) : Nat × Nat :=
  (bits wordBits exponent).foldl (fun s word => expWord wordBits word s.1 s.2) (1, base)

/-- `opExp`: pops the base and the exponent and pushes `Exp` of them. The interpreter checks the
stack depth before it runs an instruction. -/
def opExp (wordBits : Nat) : List Nat → Option (List Nat)
  | base :: exponent :: stack => some ((exp wordBits base exponent).1 :: stack)
  | _ => none

/-! ### One word -/

/-- One round of the inner loop: the result takes the low bit of the word, the base is
squared. -/
theorem expWord_succ (n word result base : Nat) :
    expWord (n + 1) word result base =
      expWord n (word / 2) (if word % 2 = 1 then result * base % 2 ^ 256 else result)
        (base * base % 2 ^ 256) := by
  rw [expWord, Nat.and_one_is_mod, Nat.shiftRight_eq_div_pow, Nat.pow_one, u256_eq_mod,
    u256_eq_mod]

/-- What the inner loop leaves after `n` bits: the result stays truncated, it gains the base to
the power of those bits, and the base is raised to `2^n`. -/
theorem expWord_spec : ∀ (n word result base : Nat), result < 2 ^ 256 →
    (expWord n word result base).1 < 2 ^ 256 ∧
      (expWord n word result base).1 ≡ result * base ^ (word % 2 ^ n) [MOD 2 ^ 256] ∧
      (expWord n word result base).2 ≡ base ^ 2 ^ n [MOD 2 ^ 256]
  | 0, word, result, base, hr => by
      rw [expWord, Nat.pow_zero, Nat.mod_one, Nat.pow_zero, Nat.mul_one, Nat.pow_one]
      exact ⟨hr, Nat.ModEq.refl _, Nat.ModEq.refl _⟩
  | n + 1, word, result, base, hr => by
      -- the round takes the low bit; the rest of the word is the next rounds' exponent
      set r1 := if word % 2 = 1 then result * base % 2 ^ 256 else result with hr1_def
      have hr1 : r1 < 2 ^ 256 := by
        rw [hr1_def]
        split
        · exact Nat.mod_lt _ (Nat.two_pow_pos 256)
        · exact hr
      have hr1_eq : r1 ≡ result * base ^ (word % 2) [MOD 2 ^ 256] := by
        rw [hr1_def]
        rcases Nat.mod_two_eq_zero_or_one word with h0 | h1
        · rw [if_neg (by omega), h0, Nat.pow_zero, Nat.mul_one]
        · rw [if_pos h1, h1, Nat.pow_one]
          exact Nat.mod_modEq _ _
      have hsq : base * base % 2 ^ 256 ≡ base ^ 2 [MOD 2 ^ 256] := by
        rw [sq]
        exact Nat.mod_modEq _ _
      obtain ⟨hlt, hres, hbase⟩ := expWord_spec n (word / 2) r1 (base * base % 2 ^ 256) hr1
      rw [expWord_succ]
      refine ⟨hlt, ?_, ?_⟩
      · calc (expWord n (word / 2) r1 (base * base % 2 ^ 256)).1
            ≡ r1 * (base * base % 2 ^ 256) ^ (word / 2 % 2 ^ n) [MOD 2 ^ 256] := hres
          _ ≡ result * base ^ (word % 2) * (base ^ 2) ^ (word / 2 % 2 ^ n) [MOD 2 ^ 256] :=
              hr1_eq.mul (hsq.pow _)
          _ = result * base ^ (word % 2 ^ (n + 1)) := by
              have h2 : 2 ^ (n + 1) = 2 * 2 ^ n := Nat.pow_succ'
              rw [h2, Nat.mod_mul, Nat.pow_add, ← Nat.pow_mul, Nat.mul_assoc]
      · calc (expWord n (word / 2) r1 (base * base % 2 ^ 256)).2
            ≡ (base * base % 2 ^ 256) ^ 2 ^ n [MOD 2 ^ 256] := hbase
          _ ≡ (base ^ 2) ^ 2 ^ n [MOD 2 ^ 256] := hsq.pow _
          _ = base ^ 2 ^ (n + 1) := by rw [← Nat.pow_mul, Nat.pow_succ']

/-! ### All the words -/

/-- The outer loop over words below `2^wordBits`: the result gains the base to the power the
words spell, and the base is raised to `2^wordBits` once a word. -/
theorem foldl_expWord_spec (wordBits : Nat) :
    ∀ (ws : List Nat) (result base : Nat), result < 2 ^ 256 → (∀ w ∈ ws, w < 2 ^ wordBits) →
      (ws.foldl (fun s word => expWord wordBits word s.1 s.2) (result, base)).1 < 2 ^ 256 ∧
      (ws.foldl (fun s word => expWord wordBits word s.1 s.2) (result, base)).1 ≡
          result * base ^ Nat.ofDigits (2 ^ wordBits) ws [MOD 2 ^ 256] ∧
      (ws.foldl (fun s word => expWord wordBits word s.1 s.2) (result, base)).2 ≡
          base ^ (2 ^ wordBits) ^ ws.length [MOD 2 ^ 256]
  | [], result, base, hr, _ => by
      rw [List.foldl_nil, Nat.ofDigits_nil, Nat.pow_zero, Nat.mul_one, List.length_nil,
        Nat.pow_zero, Nat.pow_one]
      exact ⟨hr, Nat.ModEq.refl _, Nat.ModEq.refl _⟩
  | w :: ws, result, base, hr, hws => by
      obtain ⟨hlt1, hres1, hbase1⟩ := expWord_spec wordBits w result base hr
      have hw : w % 2 ^ wordBits = w := Nat.mod_eq_of_lt (hws w List.mem_cons_self)
      rw [hw] at hres1
      rw [List.foldl_cons]
      obtain ⟨hlt, hres, hbase⟩ := foldl_expWord_spec wordBits ws _ _ hlt1
        (fun x hx => hws x (List.mem_cons_of_mem w hx))
      refine ⟨hlt, ?_, ?_⟩
      · calc _ ≡ (expWord wordBits w result base).1 *
                (expWord wordBits w result base).2 ^ Nat.ofDigits (2 ^ wordBits) ws [MOD 2 ^ 256] := hres
          _ ≡ result * base ^ w * (base ^ 2 ^ wordBits) ^ Nat.ofDigits (2 ^ wordBits) ws
                [MOD 2 ^ 256] := hres1.mul (hbase1.pow _)
          _ = result * base ^ Nat.ofDigits (2 ^ wordBits) (w :: ws) := by
              rw [Nat.ofDigits_cons, Nat.pow_add, ← Nat.pow_mul, Nat.mul_assoc]
      · calc _ ≡ (expWord wordBits w result base).2 ^ (2 ^ wordBits) ^ ws.length [MOD 2 ^ 256] := hbase
          _ ≡ (base ^ 2 ^ wordBits) ^ (2 ^ wordBits) ^ ws.length [MOD 2 ^ 256] := hbase1.pow _
          _ = base ^ (2 ^ wordBits) ^ (w :: ws).length := by
              rw [← Nat.pow_mul, List.length_cons, Nat.pow_succ']

/-- `Exp` computes `base ^ exponent mod 2^256`, whatever the word size. -/
theorem exp_result {wordBits : Nat} (hw : 0 < wordBits) (base exponent : Nat) :
    (exp wordBits base exponent).1 = base ^ exponent % 2 ^ 256 := by
  have hb : 1 < 2 ^ wordBits := Nat.one_lt_two_pow (Nat.pos_iff_ne_zero.mp hw)
  obtain ⟨hlt, hres, -⟩ := foldl_expWord_spec wordBits (bits wordBits exponent) 1 base
    (Nat.one_lt_two_pow (by decide)) (fun w hmem => Nat.digits_lt_base hb hmem)
  rw [bits, Nat.ofDigits_digits, Nat.one_mul] at hres
  rw [exp, ← Nat.mod_eq_of_lt hlt]
  exact hres

/-- What `Exp` leaves in the caller's base: its `2^(wordBits · words)`-th power. -/
theorem exp_base {wordBits : Nat} (hw : 0 < wordBits) (base exponent : Nat) :
    (exp wordBits base exponent).2 ≡
      base ^ (2 ^ wordBits) ^ (bits wordBits exponent).length [MOD 2 ^ 256] := by
  have hb : 1 < 2 ^ wordBits := Nat.one_lt_two_pow (Nat.pos_iff_ne_zero.mp hw)
  exact (foldl_expWord_spec wordBits (bits wordBits exponent) 1 base
    (Nat.one_lt_two_pow (by decide)) (fun w hmem => Nat.digits_lt_base hb hmem)).2.2

/-- `Exp(2, 1)` returns 2 but turns the caller's base 2 into `2^(2^wordBits) mod 2^256`, which is
0 for every word size of at least 8 bits. -/
theorem exp_squares_callers_base {wordBits : Nat} (hw : 8 ≤ wordBits) :
    (exp wordBits 2 1).1 = 2 ∧ (exp wordBits 2 1).2 ≠ 2 := by
  have hpos : 0 < wordBits := by omega
  have hbits : bits wordBits 1 = [1] :=
    Nat.digits_of_lt _ 1 one_ne_zero (Nat.one_lt_two_pow (by omega))
  refine ⟨by rw [exp_result hpos]; rfl, fun h2 => ?_⟩
  have hbase := exp_base hpos 2 1
  rw [hbits, h2, List.length_singleton, Nat.pow_one] at hbase
  -- 256 ≤ 2^wordBits, so 2^256 divides the power the base is left at
  have h256 : 2 ^ 8 ≤ 2 ^ wordBits := Nat.pow_le_pow_right (Nat.succ_pos 1) hw
  have hdvd : 2 ^ 256 ∣ 2 ^ 2 ^ wordBits := Nat.pow_dvd_pow 2 (le_trans (by norm_num) h256)
  have h0 : 2 % 2 ^ 256 = 0 := Eq.trans hbase (Nat.mod_eq_zero_of_dvd hdvd)
  exact absurd h0 (by decide)

theorem exp_squares_callers_base_of_64 : 8 ≤ 64 ∧ (exp 64 2 1).1 = 2 ∧ (exp 64 2 1).2 ≠ 2 :=
  ⟨by decide, exp_squares_callers_base (by decide)⟩

end AuroraChain.Math
