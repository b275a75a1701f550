import Mathlib
/-!
# Operations with a one-key footprint

A state is observed through a view `view : σ → κ → V`, one value per key. An operation
`f : σ → α × σ` is local to the key `a` when it leaves the view at every other key alone, and its
result and the view at `a` afterwards depend only on the view at `a` before. Local operations
compose, map states with the same view to states with the same view, and two operations local to
different keys commute up to the view: applying them in either order gives the same results and
the same view.
-/

namespace Footprint

variable {σ κ V α β : Type} (view : σ → κ → V)

/-- Two states with the same view at every key. -/
def Agree (s₁ s₂ : σ) : Prop := ∀ k, view s₁ k = view s₂ k

/-- `f` reads and writes the view at `a` only. -/
structure Local (a : κ) (f : σ → α × σ) : Prop where
  frame : ∀ s k, k ≠ a → view (f s).2 k = view s k
  result : ∀ s₁ s₂, view s₁ a = view s₂ a → (f s₁).1 = (f s₂).1
  at_key : ∀ s₁ s₂, view s₁ a = view s₂ a → view (f s₁).2 a = view (f s₂).2 a

variable {view}

theorem Agree.refl (s : σ) : Agree view s s := fun _ => rfl

theorem Agree.trans {s₁ s₂ s₃ : σ} (h₁ : Agree view s₁ s₂) (h₂ : Agree view s₂ s₃) :
    Agree view s₁ s₃ :=
  fun k => (h₁ k).trans (h₂ k)

theorem Local.pure (a : κ) (x : α) : Local view a fun s => (x, s) :=
  ⟨fun _ _ _ => rfl, fun _ _ _ => rfl, fun _ _ h => h⟩

theorem Local.of_eq {a : κ} {f g : σ → α × σ} (h : ∀ s, f s = g s) (hg : Local view a g) :
    Local view a f := by
  rw [show f = g from funext h]
  exact hg

theorem Local.of_view (a : κ) {f : σ → α × σ} (hresult : ∀ s₁ s₂, (f s₁).1 = (f s₂).1)
    (hview : ∀ s, view (f s).2 = view s) : Local view a f where
  frame s _ _ := by rw [hview]
  result s₁ s₂ _ := hresult s₁ s₂
  at_key s₁ s₂ h := by rw [hview, hview, h]

/-- Sequencing: the second operation may assume what the first one's results satisfy. -/
theorem Local.bind {a : κ} {f : σ → α × σ} (g : α → σ → β × σ) (P : α → Prop)
    (hf : Local view a f) (hP : ∀ s, P (f s).1) (hg : ∀ x, P x → Local view a (g x)) :
    Local view a fun s => g (f s).1 (f s).2 where
  frame s k hk := by
    rw [(hg _ (hP s)).frame _ k hk, hf.frame s k hk]
  result s₁ s₂ h := by
    rw [hf.result s₁ s₂ h]
    exact (hg _ (hP s₂)).result _ _ (hf.at_key s₁ s₂ h)
  at_key s₁ s₂ h := by
    rw [hf.result s₁ s₂ h]
    exact (hg _ (hP s₂)).at_key _ _ (hf.at_key s₁ s₂ h)

theorem Local.map {a : κ} {f : σ → α × σ} (h : α → β) (hf : Local view a f) :
    Local view a fun s => (h (f s).1, (f s).2) :=
  hf.bind (fun x s => (h x, s)) (fun _ => True) (fun _ => trivial) fun x _ => Local.pure a (h x)

theorem Local.congr {a : κ} {f : σ → α × σ} (hf : Local view a f) {s₁ s₂ : σ}
    (h : Agree view s₁ s₂) : (f s₁).1 = (f s₂).1 ∧ Agree view (f s₁).2 (f s₂).2 := by
  refine ⟨hf.result s₁ s₂ (h a), fun k => ?_⟩
  by_cases hk : k = a
  · subst hk
    exact hf.at_key s₁ s₂ (h k)
  · rw [hf.frame s₁ k hk, hf.frame s₂ k hk]
    exact h k

/-- Operations local to different keys commute: each sees the same view at its own key in either
order, and both orders end with the same view. -/
theorem Local.comm {a b : κ} {f : σ → α × σ} {g : σ → β × σ} (hf : Local view a f)
    (hg : Local view b g) (hab : a ≠ b) (s : σ) :
    (g (f s).2).1 = (g s).1 ∧ (f (g s).2).1 = (f s).1 ∧
      Agree view (g (f s).2).2 (f (g s).2).2 := by
  have hfb : view (f s).2 b = view s b := hf.frame s b hab.symm
  have hga : view (g s).2 a = view s a := hg.frame s a hab
  refine ⟨hg.result _ _ hfb, hf.result _ _ hga, fun k => ?_⟩
  by_cases hka : k = a
  · rw [hka, hg.frame _ a hab, hf.at_key _ _ hga]
  · by_cases hkb : k = b
    · rw [hkb, hf.frame _ b hab.symm, hg.at_key _ _ hfb]
    · rw [hg.frame _ k hkb, hf.frame _ k hka, hf.frame _ k hka, hg.frame _ k hkb]

end Footprint
