import Reservoir.Esn.Update

/-! # `TrainOutput` and `Predict`

`TrainOutput` validates only the two slices' lengths, allocates `outputWeights` from the
widths of the first rows, and runs 100 epochs of gradient descent that read every row up to
those widths. A training step that panics returns `Except.error` with the weights it had
reached, which the receiver keeps.
-/

namespace Reservoir.ESN

/-- A read `xs[j]` of the training loop, which panics with the weights `W` out of range. -/
def readOr {α : Type} (W : List (List ℝ)) (xs : List α) (j : ℕ) : Except (List (List ℝ)) α :=
  match xs[j]? with
  | some x => .ok x
  | none => .error W

/-- The update `W[i][j] -= 0.01 * (err * x[j] + RidgeParam * W[i][j])` of the backward pass,
reading `x[j]` and then `W[i][j]`. -/
def backwardStep (ridge err : ℝ) (x : List ℝ) (i : ℕ) (W : List (List ℝ)) (j : ℕ) :
    Except (List (List ℝ)) (List (List ℝ)) := do
  let xj ← readOr W x j
  let wij ← readOr W (← readOr W W i) j
  pure (W.modify (·.set j (wij - 0.01 * (err * xj + ridge * wij))) i)

/-- The backward pass on row `i`, for `j < inputDim` in order. -/
def backwardRow (ridge err : ℝ) (x : List ℝ) (i inputDim : ℕ) (W : List (List ℝ)) :
    Except (List (List ℝ)) (List (List ℝ)) :=
  (List.range inputDim).foldlM (backwardStep ridge err x i) W

/-- One sample `(x, t)`: the forward pass on the weights before it (which writes nothing, so a
panic there keeps `W`), then the backward pass row by row. -/
def trainSample (ridge : ℝ) (inputDim outputDim : ℕ) (W : List (List ℝ)) (x t : List ℝ) :
    Except (List (List ℝ)) (List (List ℝ)) :=
  match (List.range outputDim).mapM fun i => W[i]?.bind fun row => sumProducts row x inputDim with
  | none => .error W
  | some predictions => predictions.enum.foldlM (fun W ip => do
      backwardRow ridge (ip.2 - (← readOr W t ip.1)) x ip.1 inputDim W) W

/-- `k` epochs over the samples in order. -/
def trainEpochs (ridge : ℝ) (inputDim outputDim : ℕ) (samples : List (List ℝ × List ℝ)) :
    ℕ → List (List ℝ) → Except (List (List ℝ)) (List (List ℝ))
  | 0, W => .ok W
  | k + 1, W => do
    trainEpochs ridge inputDim outputDim samples k
      (← samples.foldlM (fun W s => trainSample ridge inputDim outputDim W s.1 s.2) W)

def trainOutput (esn : ESN) (states targets : List (List ℝ)) : Outcome :=
  if states.length ≠ targets.length then
    ⟨.error ("number of states (" ++ toString states.length ++ ") must match number of targets (" ++
      toString targets.length ++ ")"), esn⟩
  else
    match states.head?, targets.head? with
    | some s0, some t0 =>
      match trainEpochs esn.params.ridgeParam s0.length t0.length (states.zip targets) 100
          (List.replicate t0.length (List.replicate s0.length 0)) with
      | .ok W => ⟨.ok [], { esn with outputWeights := some W, trained := true }⟩
      | .error W => ⟨.panic, { esn with outputWeights := some W }⟩
    | _, _ => ⟨.error "no training data provided", esn⟩

def predict (esn : ESN) : Outcome :=
  if !esn.trained then ⟨.error "network not trained", esn⟩
  else
    match esn.outputWeights with
    | none => ⟨.error "output weights not initialized", esn⟩
    | some W =>
      match W.mapM fun row => sumProducts row esn.state esn.state.length with
      | some output => ⟨.ok output, esn⟩
      | none => ⟨.panic, esn⟩

/-- `W` has `rows` rows, each of width `cols`. -/
def Dims (W : List (List ℝ)) (rows cols : ℕ) : Prop := W.length = rows ∧ ∀ row ∈ W, row.length = cols

theorem dims_replicate (m n : ℕ) : Dims (List.replicate m (List.replicate n 0)) m n :=
  ⟨List.length_replicate _ _, fun _ h => List.eq_of_mem_replicate h ▸ List.length_replicate _ _⟩

theorem dims_modify_set {W : List (List ℝ)} {m n : ℕ} (h : Dims W m n) (i j : ℕ) (v : ℝ) :
    Dims (W.modify (·.set j v) i) m n := by
  refine ⟨(List.length_modify _ _ _).trans h.1, fun row hrow => ?_⟩
  obtain ⟨k, hk, rfl⟩ := List.mem_iff_getElem.mp hrow
  rw [List.getElem_modify]
  split_ifs
  · rw [List.length_set]; exact h.2 _ (List.getElem_mem _)
  · exact h.2 _ (List.getElem_mem _)

/-- A backward step panics with the weights it was given, or writes one entry. -/
theorem backwardStep_cases (ridge err : ℝ) (x : List ℝ) (i : ℕ) (W : List (List ℝ)) (j : ℕ) :
    backwardStep ridge err x i W j = .error W ∨
      ∃ v, backwardStep ridge err x i W j = .ok (W.modify (·.set j v) i) := by
  unfold backwardStep readOr
  rcases x[j]? with _ | xj
  · exact Or.inl rfl
  rcases W[i]? with _ | row
  · exact Or.inl rfl
  dsimp only [bind, Except.bind]
  rcases row[j]? with _ | wij
  · exact Or.inl rfl
  exact Or.inr ⟨_, rfl⟩

theorem backwardStep_ok (ridge err : ℝ) {x : List ℝ} {W : List (List ℝ)} {m n i j : ℕ}
    (hW : Dims W m n) (hi : i < m) (hj : j < n) (hx : j < x.length) :
    ∃ v, backwardStep ridge err x i W j = .ok (W.modify (·.set j v) i) := by
  have hi' : i < W.length := hW.1 ▸ hi
  have hj' : j < W[i].length := (hW.2 _ (List.getElem_mem _)).symm ▸ hj
  unfold backwardStep readOr
  rw [List.getElem?_eq_getElem hx, List.getElem?_eq_getElem hi']
  dsimp only [bind, Except.bind]
  rw [List.getElem?_eq_getElem hj']
  exact ⟨_, rfl⟩

theorem backwardRow_dims (ridge err : ℝ) (x : List ℝ) (i inputDim : ℕ) {W : List (List ℝ)}
    {m n : ℕ} (h : Dims W m n) : Carries (Dims · m n) (backwardRow ridge err x i inputDim W) :=
  foldlM_carries _ _ (fun W j hW => by
    rcases backwardStep_cases ridge err x i W j with h | ⟨v, h⟩ <;> rw [h]
    · exact hW
    · exact dims_modify_set hW i j v) _ _ h

theorem backwardRow_ok (ridge err : ℝ) {x : List ℝ} {W : List (List ℝ)} {m n i inputDim : ℕ}
    (h : Dims W m n) (hi : i < m) (hn : inputDim ≤ n) (hx : inputDim ≤ x.length) :
    ∃ W', backwardRow ridge err x i inputDim W = .ok W' ∧ Dims W' m n :=
  foldlM_ok (Dims · m n) _ _ (fun W j hj hW => by
    have hj := List.mem_range.mp hj
    have hxj : j < x.length := by omega
    obtain ⟨v, hv⟩ := backwardStep_ok ridge err hW hi (by omega) hxj
    exact ⟨_, hv, dims_modify_set hW i j v⟩) W h

theorem trainSample_dims (ridge : ℝ) (inputDim outputDim : ℕ) {W : List (List ℝ)} {m n : ℕ}
    (h : Dims W m n) (x t : List ℝ) :
    Carries (Dims · m n) (trainSample ridge inputDim outputDim W x t) := by
  unfold trainSample
  split
  · exact h
  · refine foldlM_carries _ _ (fun W ip hW => ?_) _ _ h
    unfold readOr
    split <;> dsimp only [bind, Except.bind]
    · exact backwardRow_dims _ _ _ _ _ hW
    · exact hW

theorem trainSample_ok (ridge : ℝ) {inputDim outputDim : ℕ} {W : List (List ℝ)} {x t : List ℝ}
    (h : Dims W outputDim inputDim) (hx : inputDim ≤ x.length) (ht : outputDim ≤ t.length) :
    ∃ W', trainSample ridge inputDim outputDim W x t = .ok W' ∧ Dims W' outputDim inputDim := by
  obtain ⟨preds, hp⟩ := mapM_isSome (l := List.range outputDim)
    (f := fun i => W[i]?.bind fun row => sumProducts row x inputDim) fun i hi => by
      have hi : i < W.length := h.1 ▸ List.mem_range.mp hi
      dsimp only
      rw [List.getElem?_eq_getElem hi]
      exact sumProducts_isSome (h.2 _ (List.getElem_mem _)).ge hx
  have hlen : preds.length = outputDim := (mapM_length hp).trans (List.length_range _)
  unfold trainSample
  rw [hp]
  refine foldlM_ok (Dims · outputDim inputDim) _ _ (fun W ip hip hW => ?_) W h
  have hi : ip.1 < outputDim := hlen ▸ List.fst_lt_of_mem_enum hip
  unfold readOr
  rw [List.getElem?_eq_getElem (by omega : ip.1 < t.length)]
  exact backwardRow_ok ridge _ hW hi le_rfl hx

theorem trainEpochs_dims (ridge : ℝ) (inputDim outputDim : ℕ) (samples : List (List ℝ × List ℝ))
    {m n : ℕ} : ∀ (k : ℕ) (W : List (List ℝ)), Dims W m n →
      Carries (Dims · m n) (trainEpochs ridge inputDim outputDim samples k W)
  | 0, _, h => h
  | k + 1, W, h => by
    have he := foldlM_carries (Dims · m n) (fun W s => trainSample ridge inputDim outputDim W s.1 s.2)
      (fun W s hW => trainSample_dims ridge inputDim outputDim hW s.1 s.2) samples W h
    rw [trainEpochs]
    cases hf : samples.foldlM (fun W s => trainSample ridge inputDim outputDim W s.1 s.2) W with
    | error W' => rw [hf] at he; exact he
    | ok W' => rw [hf] at he; exact trainEpochs_dims ridge inputDim outputDim samples k W' he

/-- Samples whose rows are at least as wide as the first ones. -/
def Fits (samples : List (List ℝ × List ℝ)) (inputDim outputDim : ℕ) : Prop :=
  ∀ s ∈ samples, inputDim ≤ s.1.length ∧ outputDim ≤ s.2.length

theorem trainEpochs_ok (ridge : ℝ) {inputDim outputDim : ℕ} {samples : List (List ℝ × List ℝ)}
    (hs : Fits samples inputDim outputDim) : ∀ (k : ℕ) (W : List (List ℝ)),
      Dims W outputDim inputDim → ∃ W', trainEpochs ridge inputDim outputDim samples k W = .ok W' ∧
        Dims W' outputDim inputDim
  | 0, W, h => ⟨W, rfl, h⟩
  | k + 1, W, h => by
    obtain ⟨W₁, h₁, hd₁⟩ := foldlM_ok (Dims · outputDim inputDim)
      (fun W s => trainSample ridge inputDim outputDim W s.1 s.2) samples
      (fun W s hs' hW => trainSample_ok ridge hW (hs s hs').1 (hs s hs').2) W h
    obtain ⟨W₂, h₂, hd₂⟩ := trainEpochs_ok ridge hs k W₁ hd₁
    exact ⟨W₂, by rw [trainEpochs, h₁]; exact h₂, hd₂⟩

/-- On samples as wide as the first rows, `TrainOutput` returns, with `len(targets[0])` output
rows of width `len(states[0])`. -/
theorem trainOutput_ok (esn : ESN) {states targets : List (List ℝ)} {s0 t0 : List ℝ}
    (hlen : states.length = targets.length) (hs : states.head? = some s0)
    (ht : targets.head? = some t0) (hfit : Fits (states.zip targets) s0.length t0.length) :
    ∃ W, Dims W t0.length s0.length ∧
      esn.trainOutput states targets = ⟨.ok [], { esn with outputWeights := some W, trained := true }⟩ := by
  obtain ⟨W, hW, hd⟩ := trainEpochs_ok esn.params.ridgeParam hfit 100 _ (dims_replicate _ _)
  refine ⟨W, hd, ?_⟩
  unfold trainOutput
  rw [if_neg (by omega), hs, ht]
  dsimp only
  rw [hW]

/-- Past its two checks, `TrainOutput` leaves output weights of that shape, also when a ragged
row makes it panic. -/
theorem trainOutput_weights (esn : ESN) {states targets : List (List ℝ)} {s0 t0 : List ℝ}
    (hlen : states.length = targets.length) (hs : states.head? = some s0)
    (ht : targets.head? = some t0) :
    ∃ W, Dims W t0.length s0.length ∧ (esn.trainOutput states targets).esn.outputWeights = some W := by
  have hc := trainEpochs_dims esn.params.ridgeParam s0.length t0.length (states.zip targets) 100 _
    (dims_replicate t0.length s0.length)
  unfold trainOutput
  rw [if_neg (by omega), hs, ht]
  dsimp only
  split <;> next W hW => rw [hW] at hc; exact ⟨W, hc, rfl⟩

theorem mapM_eq_none {α β : Type} {f : α → Option β} : ∀ {l : List α} {a : α},
    a ∈ l → f a = none → l.mapM f = none
  | b :: l, a, h, hf => by
    rw [List.mapM_cons]
    rcases List.mem_cons.mp h with rfl | h
    · rw [hf]; rfl
    · rw [mapM_eq_none h hf]; cases f b <;> rfl

/-- A trained network whose output rows are as wide as its state predicts one value per row. -/
theorem predict_ok {esn : ESN} {W : List (List ℝ)} {m n : ℕ} (ht : esn.trained = true)
    (hw : esn.outputWeights = some W) (hd : Dims W m n) (hn : esn.state.length ≤ n) :
    ∃ out, esn.predict = ⟨.ok out, esn⟩ ∧ out.length = m := by
  obtain ⟨out, hout⟩ := mapM_isSome (l := W)
    (f := fun row => sumProducts row esn.state esn.state.length)
    fun row hr => sumProducts_isSome (hn.trans (hd.2 row hr).ge) le_rfl
  refine ⟨out, ?_, (mapM_length hout).trans hd.1⟩
  simp only [predict, ht, hw, hout, Bool.not_true, Bool.false_eq_true, if_false]

/-- An output row narrower than the state makes `Predict` index past its end. -/
theorem predict_panic {esn : ESN} {W : List (List ℝ)} {m n : ℕ} (ht : esn.trained = true)
    (hw : esn.outputWeights = some W) (hd : Dims W m n) (hm : 0 < m) (hn : n < esn.state.length) :
    esn.predict = ⟨.panic, esn⟩ := by
  obtain ⟨row, hrow⟩ := List.exists_mem_of_length_pos (hd.1 ▸ hm)
  have hnone := mapM_eq_none (f := fun row => sumProducts row esn.state esn.state.length) hrow
    (sumProducts_eq_none ((hd.2 row hrow).trans_lt hn))
  simp only [predict, ht, hw, hnone, Bool.not_true, Bool.false_eq_true, if_false]

end Reservoir.ESN
