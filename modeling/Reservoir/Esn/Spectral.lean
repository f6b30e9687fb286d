import Reservoir.Esn.Run

/-! # The spectral radius after `scaleSpectralRadius`

`scaleSpectralRadius` estimates the dominant eigenvalue by 50 normalized power-iteration steps
from the normal draws and one Rayleigh sum, and multiplies the weights by
`SpectralRadius / estimate`. Scaling the weights by `c > 0` leaves the iteration unchanged and
scales the Rayleigh sum, so the estimate of the result is `SpectralRadius`; its eigenvalues are
those of the drawn matrix times the same factor, and they stay below `SpectralRadius` only when
the estimate is no smaller than the true spectral radius.
-/

namespace Reservoir.ESN

/-- The reservoir read as a complex `n × n` matrix; entries out of range read `0`. -/
noncomputable def toMatrix (W : List (List ℝ)) (n : ℕ) : Matrix (Fin n) (Fin n) ℂ :=
  fun i j => ((W.getD i []).getD j 0 : ℂ)

/-- `μ` is an eigenvalue of `W` as an `n × n` matrix. -/
def HasEigenvalue (W : List (List ℝ)) (n : ℕ) (μ : ℂ) : Prop :=
  ∃ v : Fin n → ℂ, v ≠ 0 ∧ (toMatrix W n).mulVec v = μ • v

section Scale

variable {c : ℝ}

theorem sumProducts_map_mul (c : ℝ) (row xs : List ℝ) :
    ∀ n, sumProducts (row.map (· * c)) xs n = (sumProducts row xs n).map (· * c)
  | 0 => by simp [sumProducts]
  | n + 1 => by
    simp only [sumProducts, sumProducts_map_mul c row xs n, List.getElem?_map]
    cases sumProducts row xs n <;> cases row[n]? <;> cases xs[n]? <;> simp [add_mul, mul_right_comm]

theorem mulVec_map_mul (c : ℝ) (v : List ℝ) : ∀ W : List (List ℝ),
    mulVec (W.map (·.map (· * c))) v = (mulVec W v).map (·.map (· * c))
  | [] => rfl
  | row :: W => by
    have ih := mulVec_map_mul c v W
    simp only [mulVec] at ih ⊢
    simp only [List.map_cons, List.mapM_cons, List.length_map, sumProducts_map_mul, ih]
    cases sumProducts row v row.length <;> cases W.mapM (fun row => sumProducts row v row.length) <;> rfl

theorem sumSquares_map_mul (c : ℝ) : ∀ (v : List ℝ) (a : ℝ),
    (v.map (· * c)).foldl (fun acc x => acc + x * x) (c ^ 2 * a) =
      c ^ 2 * v.foldl (fun acc x => acc + x * x) a
  | [], _ => rfl
  | x :: v, a => by
    simp only [List.map_cons, List.foldl_cons]
    rw [show c ^ 2 * a + x * c * (x * c) = c ^ 2 * (a + x * x) by ring]
    exact sumSquares_map_mul c v _

theorem normalize_map_mul (hc : 0 < c) (v : List ℝ) : normalize (v.map (· * c)) = normalize v := by
  have hs := sumSquares_map_mul c v 0
  rw [mul_zero] at hs
  unfold normalize
  dsimp only
  rw [hs, Real.sqrt_mul (sq_nonneg c), Real.sqrt_sq hc.le, List.map_map]
  congr 1
  · exact List.map_congr_left fun x _ => by
      simp only [Function.comp]
      rw [mul_comm x c, mul_div_mul_left _ _ hc.ne']
  · simp [hc.ne']

theorem powerIterate_map_mul (hc : 0 < c) (W : List (List ℝ)) : ∀ (k : ℕ) (v : List ℝ × Bool),
    powerIterate (W.map (·.map (· * c))) k v = powerIterate W k v
  | 0, _ => rfl
  | k + 1, v => by
    simp only [powerIterate, mulVec_map_mul]
    cases mulVec W v.1 with
    | none => rfl
    | some w =>
      simp only [Option.map_some', Option.bind_eq_bind, Option.some_bind, normalize_map_mul hc]
      exact powerIterate_map_mul hc W k _

/-- A fold whose step commutes with `g` on the accumulator commutes with `g`. -/
theorem foldlM_map_comm {α : Type} (g : ℝ → ℝ) (f f' : ℝ → α → Option ℝ)
    (hf : ∀ a x, f' (g a) x = (f a x).map g) : ∀ (l : List α) (a a' : ℝ), a' = g a →
      l.foldlM f' a' = (l.foldlM f a).map g
  | [], _, _, h => h ▸ rfl
  | x :: l, a, _, rfl => by
    rw [List.foldlM_cons, List.foldlM_cons, hf]
    cases f a x with
    | none => rfl
    | some b => exact foldlM_map_comm g f f' hf l b _ rfl

theorem rayleigh_map_mul (c : ℝ) (W : List (List ℝ)) (v : List ℝ) :
    rayleigh (W.map (·.map (· * c))) v = (rayleigh W v).map (· * c) := by
  refine foldlM_map_comm (· * c) _ _ (fun a i => ?_) _ 0 0 (zero_mul c).symm
  simp only [List.getElem?_map]
  cases W[i]? with
  | none => rfl
  | some row =>
    simp only [Option.map_some', Option.bind_eq_bind, Option.some_bind, List.length_map,
      sumProducts_map_mul]
    cases sumProducts row v row.length <;> cases v[i]? <;> simp [add_mul, mul_right_comm]

theorem estimate_map_mul (hc : 0 < c) (W : List (List ℝ)) (v0 : List ℝ) :
    estimate (W.map (·.map (· * c))) v0 = (estimate W v0).map (Option.map (· * c)) := by
  simp only [estimate, powerIterate_map_mul hc, rayleigh_map_mul, Option.bind_eq_bind]
  cases powerIterate W 50 (normalize v0) with
  | none => rfl
  | some v =>
    simp only [Option.some_bind]
    cases rayleigh W v.1 with
    | none => rfl
    | some r => cases v.2 <;> simp [abs_mul, abs_of_pos hc]

end Scale

theorem estimate_nonneg {W : List (List ℝ)} {v0 : List ℝ} {e : ℝ} (h : estimate W v0 = some (some e)) :
    0 ≤ e := by
  simp only [estimate, Option.bind_eq_bind, Option.bind_eq_some, Option.pure_def,
    Option.some.injEq] at h
  obtain ⟨⟨v, nan⟩, -, r, -, h⟩ := h
  cases nan <;> simp only [Bool.false_eq_true, if_false, if_true, reduceCtorEq, Option.some.injEq] at h
  exact h ▸ abs_nonneg r

theorem toMatrix_map_mul (c : ℝ) (W : List (List ℝ)) (n : ℕ) :
    toMatrix (W.map (·.map (· * c))) n = (c : ℂ) • toMatrix W n := by
  ext i j
  simp only [toMatrix, Matrix.smul_apply, smul_eq_mul, List.getD_eq_getElem?_getD, List.getElem?_map]
  cases W[i.val]? with
  | none => simp
  | some row =>
    simp only [Option.map_some', Option.getD_some, List.getElem?_map]
    cases row[j.val]? <;> simp [mul_comm]

/-- Scaling the weights by `c ≠ 0` scales every eigenvalue by `c`. -/
theorem hasEigenvalue_map_mul {c : ℝ} (hc : c ≠ 0) (W : List (List ℝ)) (n : ℕ) (μ : ℂ) :
    HasEigenvalue (W.map (·.map (· * c))) n μ ↔ HasEigenvalue W n (μ * ((c⁻¹ : ℝ) : ℂ)) := by
  have hc' : (c : ℂ) ≠ 0 := Complex.ofReal_ne_zero.mpr hc
  refine exists_congr fun v => and_congr_right fun _ => ?_
  rw [toMatrix_map_mul, Matrix.smul_mulVec_assoc, ← eq_inv_smul_iff₀ hc', smul_smul,
    Complex.ofReal_inv, mul_comm]

/-- What `scaleSpectralRadius` does with a square reservoir: it returns, and its estimate from the
start vector is NaN or a real `e ≥ 0`. Unless `e > 0` the weights stay as drawn; at `e > 0` the
estimate of the result from the same start vector is `SpectralRadius`, and `μ` is an eigenvalue of
the result exactly when `μ · e / SpectralRadius` is one of the drawn matrix. -/
theorem scaleSpectralRadius_scales {esn : ESN} {n : ℕ} (hsq : Square esn.reservoirWeights n)
    (hρ : 0 < esn.params.spectralRadius) :
    ∃ esn' e, esn.scaleSpectralRadius = some esn' ∧
      estimate esn.reservoirWeights ((List.range n).map esn.rng.peek) = some e ∧ (∀ x ∈ e, 0 ≤ x) ∧
      ((∀ x ∈ e, x = 0) → esn'.reservoirWeights = esn.reservoirWeights) ∧
      ∀ x ∈ e, 0 < x → estimate esn'.reservoirWeights ((List.range n).map esn.rng.peek) =
          some (some esn.params.spectralRadius) ∧
        ∀ μ, HasEigenvalue esn'.reservoirWeights n μ ↔
          HasEigenvalue esn.reservoirWeights n (μ * ((x / esn.params.spectralRadius : ℝ) : ℂ)) := by
  obtain ⟨e, he⟩ := @estimate_isSome _ _ hsq ((List.range n).map esn.rng.peek) (by simp)
  obtain ⟨esn', hs, rfl⟩ : ∃ esn', esn.scaleSpectralRadius = some esn' ∧
      esn' = { esn with reservoirWeights := rescale esn.params.spectralRadius e esn.reservoirWeights,
                        rng := esn.rng.skip n } :=
    ⟨_, by simp only [scaleSpectralRadius, hsq.1, he, Option.map_some'], rfl⟩
  refine ⟨_, e, hs, he, fun x hx => estimate_nonneg (he.trans (congrArg some hx)), fun h0 => ?_,
    fun x hx hpos => ?_⟩
  · cases e with
    | none => rfl
    | some x => exact if_neg (by rw [h0 x rfl]; exact lt_irrefl 0)
  obtain rfl : e = some x := hx
  have hc : 0 < esn.params.spectralRadius / x := div_pos hρ hpos
  dsimp only
  rw [rescale, if_pos hpos, estimate_map_mul hc, he]
  refine ⟨by simp only [Option.map_some']; congr 2; field_simp, fun μ => ?_⟩
  rw [hasEigenvalue_map_mul hc.ne', inv_div]

/-- From `(1, 0)` the iteration on the swap matrix cycles through `(0, 1)` and back, with no
NaN on the way. -/
theorem powerIterate_swap : ∀ k : ℕ,
    powerIterate [[0, 1], [1, 0]] (2 * k) ([1, 0], false) = some ([1, 0], false)
  | 0 => rfl
  | k + 1 => by
    have h1 : mulVec [[0, 1], [1, 0]] [1, 0] = some [0, 1] := by
      rw [mulVec, List.mapM_cons, List.mapM_cons, List.mapM_nil]; norm_num [sumProducts]
    have h2 : mulVec [[0, 1], [1, 0]] [0, 1] = some [1, 0] := by
      rw [mulVec, List.mapM_cons, List.mapM_cons, List.mapM_nil]; norm_num [sumProducts]
    have n1 : normalize [0, 1] = ([0, 1], false) := by norm_num [normalize]
    have n2 : normalize [1, 0] = ([1, 0], false) := by norm_num [normalize]
    rw [show 2 * (k + 1) = 2 * k + 1 + 1 by ring]
    simp only [powerIterate, h1, h2, n1, n2, Option.bind_eq_bind, Option.some_bind, Bool.or_false]
    exact powerIterate_swap k

theorem hasEigenvalue_swap_one : HasEigenvalue [[0, 1], [1, 0]] 2 1 :=
  ⟨fun _ => 1, fun h => one_ne_zero (congrFun h 0), by
    ext i
    fin_cases i <;> simp [Matrix.mulVec, Matrix.dotProduct, Fin.sum_univ_two, toMatrix]⟩

/-- Draws that make a fresh two-neuron reservoir the swap matrix `[[0, 1], [1, 0]]` and start
the power iteration at `(1, 0)`: the iteration alternates between `(1, 0)` and `(0, 1)`, the
estimate is `0`, and the weights keep the eigenvalue `1 > SpectralRadius = 0.95`. -/
theorem swap_reservoir_keeps_eigenvalue_one :
    ∃ esn, newESN { defaultESNParams with reservoirSize := 2 } defaultPersonaTrait
        ⟨fun k => [0.5, 0.05, 1, 0.05, 1, 0.5, 1, 0].getD k 0, 0⟩ = .ok esn ∧
      esn.reservoirWeights = [[0, 1], [1, 0]] ∧ HasEigenvalue esn.reservoirWeights 2 1 ∧
      esn.params.spectralRadius < Complex.abs 1 := by
  obtain ⟨esn, h⟩ := @newESN_ok { defaultESNParams with reservoirSize := 2 } (by decide)
    (by norm_num [defaultESNParams]) (by norm_num [defaultESNParams]) (by norm_num [defaultESNParams])
    (by norm_num [defaultESNParams]) defaultPersonaTrait
    ⟨fun k => [0.5, 0.05, 1, 0.05, 1, 0.5, 1, 0].getD k 0, 0⟩
  obtain ⟨e, he, hw⟩ := newESN_reservoirWeights h
  have hD : drawMatrix defaultESNParams.sparsity 2 2 ⟨fun k => [0.5, 0.05, 1, 0.05, 1, 0.5, 1, 0].getD k 0, 0⟩ =
      ([[0, 1], [1, 0]], ⟨fun k => [0.5, 0.05, 1, 0.05, 1, 0.5, 1, 0].getD k 0, 6⟩) := by
    have h1 : ¬ (0.5 : ℝ) < 0.1 := by norm_num
    have h2 : (0.05 : ℝ) < 0.1 := by norm_num
    simp only [drawMatrix, List.getD_eq_getElem?_getD, drawRow, drawWeight, Rand.peek, Rand.skip,
      defaultESNParams, List.getElem?_cons_zero, List.getElem?_cons_succ, Option.getD_some, h1, h2,
      if_true, if_false, List.nil_append, List.singleton_append, zero_add, add_zero, Nat.reduceAdd]
  have hest : estimate [[0, 1], [1, 0]] [1, 0] = some (some 0) := by
    rw [estimate, show normalize [1, 0] = ([1, 0], false) by norm_num [normalize], powerIterate_swap 25]
    norm_num [rayleigh, sumProducts, List.foldlM]
  simp only [show ({ defaultESNParams with reservoirSize := 2 } : ESNParams).reservoirSize.toNat = 2
    from rfl] at he hw
  rw [hD] at he hw
  rw [show (List.range 2).map (Rand.peek ⟨fun k => [0.5, 0.05, 1, 0.05, 1, 0.5, 1, 0].getD k 0, 6⟩) =
    [1, 0] from rfl, hest, Option.some.injEq] at he
  subst he
  have hW : esn.reservoirWeights = [[0, 1], [1, 0]] := by rw [hw, rescale, if_neg (lt_irrefl 0)]
  refine ⟨esn, h, hW, hW ▸ hasEigenvalue_swap_one, ?_⟩
  rw [(newESN_spec h).2.2.2.2.2.1, map_one]
  norm_num [defaultESNParams]

end Reservoir.ESN
