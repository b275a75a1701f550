import Mathlib.Logic.Relation
import Mathlib.Order.Basic
import Mathlib.Data.Nat.Init
/-!
# Walks that only move forward

A walk over the positions `ℕ` taken by a function, `step p = some q` from `p` to `q`, or no step
where the walk stops, each step landing further on (`Forward`): a decoder reading one item after
another, an instruction stream read one instruction after another. The positions it lands on
from a start form a chain. No landed position lies strictly inside a step from another one
(`Lands.step_le`), and every position the walk reaches before it stops is landed on or lies
strictly inside one step (`lands_or_between`).
-/

namespace Walk

variable (step : ℕ → Option ℕ)

/-- The positions the walk lands on from `start`. -/
def Lands (start : ℕ) : ℕ → Prop := Relation.ReflTransGen (fun p q => step p = some q) start

/-- Every step lands further on. -/
def Forward : Prop := ∀ p q, step p = some q → p < q

variable {step} {start : ℕ}

theorem Lands.refl : Lands step start start := Relation.ReflTransGen.refl

theorem Lands.tail {p q : ℕ} (h : Lands step start p) (hs : step p = some q) :
    Lands step start q :=
  Relation.ReflTransGen.tail h hs

theorem Lands.start_le (hf : Forward step) {p : ℕ} (h : Lands step start p) : start ≤ p := by
  unfold Lands at h
  induction h with
  | refl => exact Nat.le_refl _
  | tail _ hs ih => exact Nat.le_trans ih (Nat.le_of_lt (hf _ _ hs))

theorem Lands.step_le (hf : Forward step) {b : ℕ} (hb : Lands step start b) :
    ∀ {a a' : ℕ}, Lands step start a → a < b → step a = some a' → a' ≤ b := by
  induction b using Nat.strong_induction_on with
  | _ b ih =>
  intro a a' ha hab hs
  rcases Relation.ReflTransGen.cases_tail hb with rfl | ⟨c, hc, hcb⟩
  · exact absurd (ha.start_le hf) (by omega)
  · have hcb' : c < b := hf _ _ hcb
    rcases Nat.lt_trichotomy a c with hac | rfl | hca
    · exact Nat.le_trans (ih c hcb' hc ha hac hs) (Nat.le_of_lt hcb')
    · rw [hs] at hcb
      exact Nat.le_of_eq (Option.some.inj hcb)
    · have := ih a hab ha hc hca hcb
      omega

theorem not_lands_of_between (hf : Forward step) {a a' j : ℕ} (ha : Lands step start a)
    (hs : step a = some a') (hlo : a < j) (hhi : j < a') : ¬ Lands step start j := fun hj =>
  absurd (hj.step_le hf ha hlo hs) (by omega)

/-- Every position from the start on, up to where the walk stops, is landed on or lies strictly
inside one step. -/
theorem lands_or_between (hf : Forward step) {j : ℕ} (hj : start ≤ j)
    (hgo : ∀ p, Lands step start p → p < j → (step p).isSome) :
    Lands step start j ∨ ∃ a a', Lands step start a ∧ step a = some a' ∧ a < j ∧ j < a' := by
  induction j, hj using Nat.le_induction with
  | base => exact .inl .refl
  | succ j hle ih =>
      have hgo' : ∀ p, Lands step start p → p < j → (step p).isSome :=
        fun p hp hpj => hgo p hp (by omega)
      rcases ih hgo' with hl | ⟨a, a', ha, hs, hlo, hhi⟩
      · obtain ⟨q, hq⟩ := Option.isSome_iff_exists.mp (hgo j hl (by omega))
        have hjq : j < q := hf _ _ hq
        rcases Nat.lt_or_ge (j + 1) q with hlt | hge
        · exact .inr ⟨j, q, hl, hq, by omega, hlt⟩
        · rw [show j + 1 = q by omega]
          exact .inl (hl.tail hq)
      · rcases Nat.lt_or_ge (j + 1) a' with hlt | hge
        · exact .inr ⟨a, a', ha, hs, by omega, hlt⟩
        · rw [show j + 1 = a' by omega]
          exact .inl (ha.tail hs)

end Walk
