import Mathlib.Logic.Function.Basic

/-! Tables with at most one row under a key, and what is in them once one key is written
or cleared. -/
namespace DbAgent.RowTable

variable {κ ρ : Type} [DecidableEq κ] {t : κ → Option ρ} {k k' : κ} {r r' : ρ}

theorem put_cases (h : Function.update t k (some r) k' = some r') :
    (k' = k ∧ r' = r) ∨ (k' ≠ k ∧ t k' = some r') := by grind

theorem clear_cases (h : Function.update t k none k' = some r') : k' ≠ k ∧ t k' = some r' := by
  grind

theorem modify_cases {f : ρ → ρ} (h : Function.update t k ((t k).map f) k' = some r') :
    ∃ x, t k' = some x ∧ (r' = x ∨ r' = f x) := by
  by_cases hk : k' = k
  · subst hk
    rw [Function.update_self] at h
    obtain ⟨x, hx, rfl⟩ := Option.map_eq_some_iff.mp h
    exact ⟨x, hx, .inr rfl⟩
  · rw [Function.update_of_ne hk] at h
    exact ⟨r', h, .inl rfl⟩

theorem put_free {v : Option ρ} (hfree : t k = none) (h : t k' = some r') :
    Function.update t k v k' = some r' := by grind

theorem put_over {R : ρ → ρ → Prop} (hrefl : ∀ x, R x x) {x : ρ} (hx : t k = some x) (hR : R x r)
    (h : t k' = some r') : ∃ y, Function.update t k (some r) k' = some y ∧ R r' y := by grind

end DbAgent.RowTable
