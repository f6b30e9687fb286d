import Reservoir.Esn.Train

/-! # Runs of the network

A caller creates an `ESN` with `NewESN` and then calls its public methods in any order.
`Wf` collects what `NewESN` establishes and every call keeps: the reservoir size is
positive, the state has one entry per neuron, the reservoir is square, the membranes are
those of `initializeMembranes`, and the input weights are absent or one row per neuron,
all of one width.
-/

namespace Reservoir

/-- The public methods of `ESN`. -/
inductive Op where
  | update (input : List ℝ)
  | reset
  | getState
  | setInputWeights (inputDim : ℤ)
  | trainOutput (states targets : List (List ℝ))
  | predict

namespace ESN

noncomputable def exec (esn : ESN) : Op → Outcome
  | .update input => esn.update input
  | .reset => esn.reset
  | .getState => esn.getState
  | .setInputWeights d => esn.setInputWeightsCall d
  | .trainOutput states targets => esn.trainOutput states targets
  | .predict => esn.predict

/-- The networks a caller reaches from `NewESN` by calls that `allowed` admits. A call that
panics leaves the receiver as it was then, to a caller that recovers. -/
inductive Reachable (allowed : Op → Prop) : ESN → Prop
  | init {params : ESNParams} {persona : PersonaTrait} {rng : Rand} {esn : ESN} :
      newESN params persona rng = .ok esn → Reachable allowed esn
  | step {esn : ESN} {op : Op} : Reachable allowed esn → allowed op →
      Reachable allowed (esn.exec op).esn

/-- `TrainOutput` changes at most the output weights and the trained flag. -/
theorem trainOutput_esn (esn : ESN) (states targets : List (List ℝ)) :
    ∃ W t, (esn.trainOutput states targets).esn = { esn with outputWeights := W, trained := t } := by
  unfold trainOutput
  split_ifs
  · exact ⟨_, _, rfl⟩
  · split
    · split <;> exact ⟨_, _, rfl⟩
    · exact ⟨_, _, rfl⟩

theorem predict_esn (esn : ESN) : esn.predict.esn = esn := by
  unfold predict
  split_ifs
  · rfl
  · split
    · rfl
    · split <;> rfl

theorem trainOutput_frame (esn : ESN) (states targets : List (List ℝ)) :
    Frame esn (esn.trainOutput states targets).esn := by
  obtain ⟨W, t, h⟩ := trainOutput_esn esn states targets
  rw [h]; exact ⟨rfl, rfl, rfl, rfl, rfl⟩

theorem predict_frame (esn : ESN) : Frame esn esn.predict.esn := by rw [predict_esn]; exact Frame.refl esn

theorem exec_frame (esn : ESN) : ∀ op, Frame esn (esn.exec op).esn
  | .update input => update_frame esn input
  | .reset => ⟨rfl, rfl, rfl, rfl, List.length_map _ _⟩
  | .getState => Frame.refl esn
  | .setInputWeights d => by
    have h := setInputWeights_frame esn d
    show Frame esn (esn.setInputWeightsCall d).esn
    unfold setInputWeightsCall
    revert h
    cases esn.setInputWeights d <;> exact id
  | .trainOutput states targets => trainOutput_frame esn states targets
  | .predict => predict_frame esn

theorem drawRow_length (sparsity : ℝ) : ∀ (n : ℕ) (r : Rand), (drawRow sparsity n r).1.length = n
  | 0, _ => rfl
  | n + 1, r => by simp [drawRow, drawRow_length sparsity n]

theorem drawMatrix_square (sparsity : ℝ) (n : ℕ) : ∀ (r : Rand) (rows : ℕ),
    (drawMatrix sparsity n rows r).1.length = rows ∧
      ∀ row ∈ (drawMatrix sparsity n rows r).1, row.length = n
  | _, 0 => ⟨rfl, by simp [drawMatrix]⟩
  | r, rows + 1 => by
    obtain ⟨h1, h2⟩ := drawMatrix_square sparsity n r rows
    simp only [drawMatrix, List.length_append, h1, List.length_singleton, List.mem_append,
      List.mem_singleton, true_and]
    exact fun row hrow => hrow.elim (h2 row) fun h => h ▸ drawRow_length sparsity n _

theorem drawRow_draws (sparsity : ℝ) : ∀ (n : ℕ) (r : Rand), (drawRow sparsity n r).2.draws = r.draws
  | 0, _ => rfl
  | n + 1, r => by
    simp only [drawRow, drawWeight]
    split_ifs <;> exact drawRow_draws sparsity n r

theorem drawMatrix_draws (sparsity : ℝ) (n : ℕ) : ∀ (rows : ℕ) (r : Rand),
    (drawMatrix sparsity n rows r).2.draws = r.draws
  | 0, _ => rfl
  | rows + 1, r => by
    simp only [drawMatrix, drawRow_draws, drawMatrix_draws sparsity n rows r]

/-- With every draw `c` below the sparsity, every entry is kept, and is `c`. -/
theorem drawRow_const {sparsity c : ℝ} (hc : c < sparsity) {r : Rand} (hr : ∀ k, r.draws k = c) :
    ∀ (n : ℕ), ∀ w ∈ (drawRow sparsity n r).1, w = c
  | 0 => by simp [drawRow]
  | n + 1 => by
    have hd : ∀ k, (drawRow sparsity n r).2.peek k = c := fun k => by rw [Rand.peek, drawRow_draws, hr]
    simp only [drawRow, drawWeight, hd, if_pos hc, List.mem_append, List.mem_singleton]
    exact fun w hw => hw.elim (drawRow_const hc hr n w) id

theorem drawMatrix_const {sparsity c : ℝ} (hc : c < sparsity) {n : ℕ} {r : Rand}
    (hr : ∀ k, r.draws k = c) : ∀ (rows : ℕ), ∀ row ∈ (drawMatrix sparsity n rows r).1, ∀ w ∈ row, w = c
  | 0 => by simp [drawMatrix]
  | rows + 1 => by
    simp only [drawMatrix, List.mem_append, List.mem_singleton]
    rintro row (hrow | rfl)
    · exact drawMatrix_const hc hr rows row hrow
    · exact drawRow_const hc (by rw [drawMatrix_draws]; exact hr) n

theorem rescale_square {W : List (List ℝ)} {n : ℕ} (h : Square W n) (ρ : ℝ) (e : Option ℝ) :
    Square (rescale ρ e W) n := by
  unfold rescale
  split
  · split_ifs
    · exact ⟨by simp [h.1], fun row hrow => by
        obtain ⟨r, hr, rfl⟩ := List.mem_map.mp hrow
        simp [h.2 r hr]⟩
    · exact h
  · exact h

/-- A positive `SpectralRadius` keeps nonzero weights nonzero. -/
theorem rescale_ne_zero {ρ : ℝ} (hρ : 0 < ρ) (e : Option ℝ) {W : List (List ℝ)}
    (h : ∀ row ∈ W, ∀ w ∈ row, w ≠ 0) : ∀ row ∈ rescale ρ e W, ∀ w ∈ row, w ≠ 0 := by
  unfold rescale
  split
  · split_ifs with he
    · intro r hr w' hw'
      obtain ⟨row, hrow, rfl⟩ := List.mem_map.mp hr
      obtain ⟨w, hw, rfl⟩ := List.mem_map.mp hw'
      exact mul_ne_zero (h row hrow w hw) (div_pos hρ he).ne'
    · exact h
  · exact h

theorem scaleSpectralRadius_eq {esn esn' : ESN} (h : esn.scaleSpectralRadius = some esn') :
    ∃ e, estimate esn.reservoirWeights ((List.range esn.reservoirWeights.length).map esn.rng.peek) = some e ∧
      esn' = { esn with reservoirWeights := rescale esn.params.spectralRadius e esn.reservoirWeights,
                        rng := esn.rng.skip esn.reservoirWeights.length } := by
  obtain ⟨e, he, rfl⟩ := Option.map_eq_some'.mp h
  exact ⟨e, he, rfl⟩

/-- What `NewESN` checks and what it returns. -/
theorem newESN_spec {params : ESNParams} {persona : PersonaTrait} {rng : Rand} {esn : ESN}
    (h : newESN params persona rng = .ok esn) :
    0 < params.reservoirSize ∧ 0 < params.spectralRadius ∧ params.spectralRadius < 1 ∧
    0 < params.leakRate ∧ params.leakRate ≤ 1 ∧
    esn.params = params ∧ esn.persona = persona ∧
    esn.state = List.replicate params.reservoirSize.toNat 0 ∧ esn.inputWeights = [] ∧
    esn.outputWeights = none ∧ esn.trained = false ∧
    esn.membranes = initializeMembranes params.treeDepth persona.arousal ∧
    Square esn.reservoirWeights params.reservoirSize.toNat ∧ esn.rng.draws = rng.draws := by
  unfold newESN at h
  split_ifs at h with h1 h2 h3
  split at h
  · rename_i e he
    cases h
    obtain ⟨e1, he1, rfl⟩ := Option.map_eq_some'.mp he
    obtain ⟨x, -, rfl⟩ := scaleSpectralRadius_eq he1
    push_neg at h1 h2 h3
    exact ⟨h1, h2.1, by norm_num at h2; exact h2.2, h3.1, by norm_num at h3; exact h3.2,
      rfl, rfl, rfl, rfl, rfl, rfl, rfl,
      rescale_square (drawMatrix_square _ _ _ _) _ _, drawMatrix_draws _ _ _ _⟩
  · cases h

/-- The reservoir `NewESN` returns is the drawn matrix, rescaled by its estimate from the next
normal draws. -/
theorem newESN_reservoirWeights {params : ESNParams} {persona : PersonaTrait} {rng : Rand}
    {esn : ESN} (h : newESN params persona rng = .ok esn) :
    ∃ e, estimate (drawMatrix params.sparsity params.reservoirSize.toNat params.reservoirSize.toNat rng).1
        ((List.range params.reservoirSize.toNat).map
          (drawMatrix params.sparsity params.reservoirSize.toNat params.reservoirSize.toNat rng).2.peek) = some e ∧
      esn.reservoirWeights = rescale params.spectralRadius e
        (drawMatrix params.sparsity params.reservoirSize.toNat params.reservoirSize.toNat rng).1 := by
  unfold newESN at h
  split_ifs at h
  split at h
  · rename_i e he
    cases h
    obtain ⟨e1, he1, rfl⟩ := Option.map_eq_some'.mp he
    obtain ⟨x, hx, rfl⟩ := scaleSpectralRadius_eq he1
    rw [(drawMatrix_square _ _ _ _).1] at hx
    exact ⟨x, hx, rfl⟩
  · cases h

/-- With every draw `c` below the sparsity and nonzero, every reservoir weight `NewESN` returns
is nonzero. -/
theorem newESN_weights_ne_zero {params : ESNParams} {persona : PersonaTrait} {c : ℝ} {pos : ℕ}
    (hc : c < params.sparsity) (hc0 : c ≠ 0) {esn : ESN} (h : newESN params persona ⟨fun _ => c, pos⟩ = .ok esn) :
    ∀ row ∈ esn.reservoirWeights, ∀ w ∈ row, w ≠ 0 := by
  obtain ⟨e, -, hw⟩ := newESN_reservoirWeights h
  rw [hw]
  exact rescale_ne_zero (newESN_spec h).2.1 e fun row hrow w hw =>
    (drawMatrix_const hc (fun _ => rfl) _ row hrow w hw).symm ▸ hc0

/-- For accepted parameters `NewESN` returns a network, whatever the persona and the draws:
it never panics. -/
theorem newESN_ok {params : ESNParams} (h1 : 0 < params.reservoirSize)
    (h2 : 0 < params.spectralRadius) (h3 : params.spectralRadius < 1) (h4 : 0 < params.leakRate)
    (h5 : params.leakRate ≤ 1) (persona : PersonaTrait) (rng : Rand) :
    ∃ esn, newESN params persona rng = .ok esn := by
  obtain ⟨hl, hr⟩ := drawMatrix_square params.sparsity params.reservoirSize.toNat rng
    params.reservoirSize.toNat
  set D := drawMatrix params.sparsity params.reservoirSize.toNat params.reservoirSize.toNat rng
  obtain ⟨e, he⟩ := @estimate_isSome D.1 D.1.length ⟨rfl, fun row h => (hr row h).trans hl.symm⟩
    ((List.range D.1.length).map D.2.peek) (by simp)
  unfold newESN
  rw [if_neg (by omega), if_neg (by norm_num; exact ⟨h2, h3⟩), if_neg (by norm_num; exact ⟨h4, h5⟩)]
  simp only [initializeReservoir, scaleSpectralRadius, he, Option.map_some']
  exact ⟨_, rfl⟩

/-- `NewESN` never panics: on parameters it accepts `initializeReservoir` returns, and every
other parameter meets one of its three checks. -/
theorem newESN_ne_panic (params : ESNParams) (persona : PersonaTrait) (rng : Rand) :
    newESN params persona rng ≠ .panic := by
  by_cases h : 0 < params.reservoirSize ∧ 0 < params.spectralRadius ∧ params.spectralRadius < 1 ∧
      0 < params.leakRate ∧ params.leakRate ≤ 1
  · obtain ⟨h1, h2, h3, h4, h5⟩ := h
    obtain ⟨esn, he⟩ := newESN_ok h1 h2 h3 h4 h5 persona rng
    rw [he]; nofun
  · unfold newESN
    split_ifs with h1 h2 h3
    · nofun
    · nofun
    · nofun
    · push_neg at h1 h2 h3
      norm_num at h2 h3
      exact absurd ⟨h1, h2.1, h2.2, h3.1, h3.2⟩ h

/-- The input weights are absent, or one row per neuron, all of one width. -/
def InputRows (esn : ESN) : Prop :=
  esn.inputWeights = [] ∨ (esn.inputWeights.length = esn.params.reservoirSize.toNat ∧
    ∃ w, ∀ row ∈ esn.inputWeights, row.length = w)

/-- What `NewESN` establishes and every call keeps. -/
structure Wf (esn : ESN) : Prop where
  size_pos : 0 < esn.params.reservoirSize
  state_length : esn.state.length = esn.params.reservoirSize.toNat
  square : Square esn.reservoirWeights esn.params.reservoirSize.toNat
  accepted : 0 < esn.params.spectralRadius ∧ esn.params.spectralRadius < 1 ∧
    0 < esn.params.leakRate ∧ esn.params.leakRate ≤ 1
  membranes : esn.membranes = initializeMembranes esn.params.treeDepth esn.persona.arousal
  inputs : InputRows esn

theorem Wf.of_frame {esn esn' : ESN} (hw : Wf esn) (hf : Frame esn esn') (hi : InputRows esn') :
    Wf esn' := by
  obtain ⟨h1, h2, h3, h5, h4, -⟩ := hw
  obtain ⟨f1, f2, f3, f4, f5⟩ := hf
  exact ⟨f1 ▸ h1, f5.trans (f1 ▸ h2), f1 ▸ f3 ▸ h3, f1 ▸ h5, f4.trans (f1 ▸ f2 ▸ h4), hi⟩

/-- `setInputWeights` leaves one row per neuron, of the width it is given, also when it
panics on a negative width (rows `make` made and never filled). -/
theorem setInputWeights_rows (esn : ESN) (d : ℤ) (hn : 0 ≤ esn.params.reservoirSize) :
    Carries (fun e => e.params = esn.params ∧ e.inputWeights.length = esn.params.reservoirSize.toNat ∧
      ∀ row ∈ e.inputWeights, row.length = d.toNat) (esn.setInputWeights d) := by
  unfold setInputWeights
  dsimp only
  split_ifs with h1 h2
  · omega
  · exact ⟨rfl, List.length_replicate _ _, fun row hrow => by
      rw [List.eq_of_mem_replicate hrow, Int.toNat_of_nonpos h2.1.le]; rfl⟩
  · exact ⟨rfl, by simp, fun row hrow => by obtain ⟨i, -, rfl⟩ := List.mem_map.mp hrow; simp⟩

theorem inputRows_update {esn : ESN} (hw : Wf esn) (input : List ℝ) :
    InputRows (esn.update input).esn :=
  update_induction (P := fun e => e.params = esn.params ∧ InputRows e)
    (fun _ => by
      have h := setInputWeights_rows esn input.length hw.size_pos.le
      revert h
      cases esn.setInputWeights input.length <;>
        exact fun ⟨hp, hl, hr⟩ => ⟨hp, .inr ⟨hp ▸ hl, _, hr⟩⟩)
    (fun _ => ⟨rfl, hw.inputs⟩) (fun _ h => h.2) fun e h => by
      obtain ⟨hf, hi⟩ := updateWith_frame e input
      unfold InputRows
      rw [hi, hf.params]
      exact h.2

theorem Wf.exec {esn : ESN} (hw : Wf esn) : ∀ op, Wf (esn.exec op).esn
  | .update input => hw.of_frame (exec_frame esn _) (inputRows_update hw input)
  | .reset => hw.of_frame (exec_frame esn .reset) hw.inputs
  | .getState => hw.of_frame (exec_frame esn .getState) hw.inputs
  | .setInputWeights d => by
    refine hw.of_frame (exec_frame esn _) ?_
    have h := setInputWeights_rows esn d hw.size_pos.le
    show InputRows (esn.setInputWeightsCall d).esn
    unfold setInputWeightsCall
    revert h
    cases esn.setInputWeights d <;> exact fun ⟨hp, hl, hr⟩ => .inr ⟨hp ▸ hl, _, hr⟩
  | .trainOutput states targets => by
    refine hw.of_frame (exec_frame esn _) ?_
    obtain ⟨W, t, h⟩ := trainOutput_esn esn states targets
    show InputRows (esn.trainOutput states targets).esn
    rw [h]; exact hw.inputs
  | .predict => hw.of_frame (exec_frame esn .predict) (by show InputRows esn.predict.esn; rw [predict_esn]; exact hw.inputs)

theorem newESN_wf {params : ESNParams} {persona : PersonaTrait} {rng : Rand} {esn : ESN}
    (h : newESN params persona rng = .ok esn) : Wf esn := by
  obtain ⟨h1, h2, h3, h4, h5, hp, hq, hs, hi, -, -, hm, hsq, -⟩ := newESN_spec h
  exact ⟨hp ▸ h1, by rw [hs, hp, List.length_replicate], hp ▸ hsq, hp ▸ ⟨h2, h3, h4, h5⟩,
    by rw [hm, hp, hq], .inl hi⟩

theorem Reachable.wf {allowed : Op → Prop} {esn : ESN} (h : Reachable allowed esn) : Wf esn := by
  induction h with
  | init h => exact newESN_wf h
  | step _ _ ih => exact ih.exec _

end ESN

end Reservoir
