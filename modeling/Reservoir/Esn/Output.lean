import Reservoir.Esn.Run

/-! # What training leaves for `Predict`

`TrainOutput` checks the number of rows only. The width of the first state row becomes the
width of every output row, and `Predict` reads each output row up to the length of the state,
so state rows narrower than the reservoir pass training and make `Predict` panic; a ragged row
makes training itself panic after the weights were reallocated. Training on rows at least as
wide as the reservoir, on the other hand, keeps `Predict` from panicking over every run:
output rows take the width of the first state row of the last `TrainOutput` that got past its
checks, and no other method writes them or the trained flag.
-/

namespace Reservoir.ESN

/-- Rectangular training data narrower than the reservoir trains without error, and the next
`Predict` indexes an output row past its end. -/
theorem predict_panics_after_narrow_training {esn : ESN} {states targets : List (List ℝ)}
    {n m : ℕ} (hlen : states.length = targets.length) (hne : states ≠ [])
    (hs : ∀ s ∈ states, s.length = n) (ht : ∀ t ∈ targets, t.length = m) (hm : 0 < m)
    (hn : n < esn.state.length) :
    (esn.trainOutput states targets).result = .ok [] ∧
      (esn.trainOutput states targets).esn.predict.result = .panic := by
  obtain ⟨s0, ss, rfl⟩ := List.exists_cons_of_ne_nil hne
  obtain ⟨t0, ts, rfl⟩ := List.exists_cons_of_ne_nil fun h : targets = [] => by simp [h] at hlen
  have hs0 := hs s0 (List.mem_cons_self _ _)
  have ht0 := ht t0 (List.mem_cons_self _ _)
  obtain ⟨W, hd, hW⟩ := trainOutput_ok esn hlen rfl rfl fun p hp =>
    ⟨((hs _ (List.of_mem_zip hp).1).trans hs0.symm).ge, ((ht _ (List.of_mem_zip hp).2).trans ht0.symm).ge⟩
  rw [hW, predict_panic rfl rfl hd (ht0 ▸ hm) (hs0 ▸ hn)]
  exact ⟨rfl, rfl⟩

/-- `TestESNTrainOutput`'s data on a fresh `ReservoirSize = 20` network. -/
theorem predict_panics_after_narrow_training_test : ∃ esn,
    newESN { defaultESNParams with reservoirSize := 20 } defaultPersonaTrait ⟨fun _ => 0, 0⟩ = .ok esn ∧
    (5 < esn.state.length ∧
    (esn.trainOutput [[0.1, 0.2, 0.3, 0.4, 0.5], [0.5, 0.4, 0.3, 0.2, 0.1], [0.3, 0.3, 0.3, 0.3, 0.3]]
      [[0.0], [1.0], [0.5]]).result = .ok [] ∧
    (esn.trainOutput [[0.1, 0.2, 0.3, 0.4, 0.5], [0.5, 0.4, 0.3, 0.2, 0.1], [0.3, 0.3, 0.3, 0.3, 0.3]]
      [[0.0], [1.0], [0.5]]).esn.predict.result = .panic) := by
  obtain ⟨esn, h⟩ := @newESN_ok { defaultESNParams with reservoirSize := 20 } (by decide)
    (by norm_num [defaultESNParams]) (by norm_num [defaultESNParams]) (by norm_num [defaultESNParams])
    (by norm_num [defaultESNParams]) defaultPersonaTrait ⟨fun _ => 0, 0⟩
  obtain ⟨-, -, -, -, -, -, -, hs, -⟩ := newESN_spec h
  have h5 : 5 < esn.state.length := by rw [hs]; decide
  exact ⟨esn, h, h5, predict_panics_after_narrow_training rfl (by simp) (by simp) (by simp) one_pos h5⟩

/-- A second state row shorter than the first: the first sample trains, the second panics in
its forward pass, and the receiver keeps the reallocated weights. -/
theorem ragged_training_panics (esn : ESN) :
    esn.trainOutput [[1, 2], [1]] [[1], [1]] =
      ⟨.panic, { esn with outputWeights := some [[0.01, 0.02]] }⟩ := by
  have h1 : trainSample esn.params.ridgeParam 2 1 [[0, 0]] [1, 2] [1] = .ok [[0.01, 0.02]] := by
    rw [trainSample, show List.range 1 = [0] from rfl, List.mapM_cons, List.mapM_nil]
    simp [sumProducts, backwardRow, show List.range 2 = [0, 1] from rfl, backwardStep, readOr, bind,
      Except.bind, pure, Except.pure]
    norm_num
  have h2 : trainSample esn.params.ridgeParam 2 1 [[0.01, 0.02]] [1] [1] = .error [[0.01, 0.02]] := by
    rw [trainSample, show List.range 1 = [0] from rfl, List.mapM_cons, List.mapM_nil]
    simp [sumProducts]
  have he : trainEpochs esn.params.ridgeParam 2 1 [([1, 2], [1]), ([1], [1])] 100 [[0, 0]] =
      .error [[0.01, 0.02]] := by
    rw [trainEpochs, List.foldlM_cons, h1]
    dsimp only [bind, Except.bind]
    rw [List.foldlM_cons, h2]
    rfl
  simp only [trainOutput, List.length_cons, List.length_nil, ne_eq, not_true_eq_false, if_false,
    List.head?_cons, List.zip_cons_cons, List.zip_nil_left]
  rw [show List.replicate 1 (List.replicate 2 (0 : ℝ)) = [[0, 0]] from rfl, he]

/-- Past its checks `TrainOutput` leaves output weights as wide as the first state row; before
them it leaves the receiver as it was. -/
theorem trainOutput_cases (esn : ESN) (states targets : List (List ℝ)) :
    (esn.trainOutput states targets).esn = esn ∨
      ∃ (s0 t0 : List ℝ) (W : List (List ℝ)), states.head? = some s0 ∧ Dims W t0.length s0.length ∧
        (esn.trainOutput states targets).esn.outputWeights = some W := by
  by_cases hlen : states.length = targets.length
  · cases hs : states.head? with
    | none => left; simp only [trainOutput, hlen, hs, ne_eq, not_true_eq_false, if_false]
    | some s0 =>
      cases ht : targets.head? with
      | none => left; simp only [trainOutput, hlen, hs, ht, ne_eq, not_true_eq_false, if_false]
      | some t0 =>
        obtain ⟨W, hd, hW⟩ := trainOutput_weights esn hlen hs ht
        exact .inr ⟨s0, t0, W, rfl, hd, hW⟩
  · left; simp only [trainOutput, hlen, ne_eq, not_false_eq_true, if_true]

/-- Calls whose training states are all at least `k` wide. -/
def WideTraining (k : ℕ) : Op → Prop
  | .trainOutput states _ => ∀ s ∈ states, k ≤ s.length
  | _ => True

/-- Once trained, the output rows are at least `k` wide. -/
def Readable (k : ℕ) (esn : ESN) : Prop :=
  esn.trained = true → ∃ W m n, esn.outputWeights = some W ∧ Dims W m n ∧ k ≤ n

theorem Readable.exec {k : ℕ} {esn : ESN} (h : Readable k esn) :
    ∀ op, WideTraining k op → Readable k (esn.exec op).esn
  | .update input, _ => by
    obtain ⟨iw, st, r, he⟩ := update_writes esn input
    show Readable k (esn.update input).esn
    rw [he]; exact h
  | .reset, _ => h
  | .getState, _ => h
  | .setInputWeights d, _ => by
    show Readable k (esn.setInputWeightsCall d).esn
    unfold setInputWeightsCall setInputWeights
    dsimp only
    split_ifs <;> exact h
  | .trainOutput states targets, hw => by
    rcases trainOutput_cases esn states targets with he | ⟨s0, t0, W, hs, hd, hW⟩
    · show Readable k (esn.trainOutput states targets).esn
      rw [he]; exact h
    · exact fun _ => ⟨W, _, _, hW, hd, hw s0 (List.mem_of_mem_head? hs)⟩
  | .predict, _ => by show Readable k esn.predict.esn; rw [predict_esn]; exact h

theorem Reachable.readable {k : ℕ} {esn : ESN} (h : Reachable (WideTraining k) esn) : Readable k esn := by
  induction h with
  | init h =>
    obtain ⟨-, -, -, -, -, -, -, -, -, -, hf, -⟩ := newESN_spec h
    exact fun ht => absurd (hf.symm.trans ht) Bool.false_ne_true
  | step _ hop ih => exact ih.exec _ hop

/-- On every network reached by calls that train on rows at least as wide as its reservoir,
`Predict` leaves the receiver as it is and either reports an untrained network or returns one
value per output row: it never panics. -/
theorem predict_never_panics {k : ℕ} {esn : ESN} (h : Reachable (WideTraining k) esn)
    (hk : esn.params.reservoirSize.toNat ≤ k) :
    esn.predict = ⟨.error "network not trained", esn⟩ ∨
      ∃ out W, esn.outputWeights = some W ∧ out.length = W.length ∧ esn.predict = ⟨.ok out, esn⟩ := by
  cases ht : esn.trained
  · left; simp only [predict, ht, Bool.not_false, if_true]
  · obtain ⟨W, m, n, hW, hd, hn⟩ := h.readable ht
    obtain ⟨out, hp, hlen⟩ := predict_ok ht hW hd ((h.wf.state_length.trans_le hk).trans hn)
    exact .inr ⟨out, W, hW, hlen.trans hd.1.symm, hp⟩

theorem predict_never_panics_trained : ∃ esn : ESN, Reachable (WideTraining 1) esn ∧
    esn.params.reservoirSize.toNat ≤ 1 ∧ esn.trained = true ∧
    (esn.predict = ⟨.error "network not trained", esn⟩ ∨
      ∃ out W, esn.outputWeights = some W ∧ out.length = W.length ∧ esn.predict = ⟨.ok out, esn⟩) := by
  obtain ⟨esn, h⟩ := @newESN_ok { defaultESNParams with reservoirSize := 1 } (by decide)
    (by norm_num [defaultESNParams]) (by norm_num [defaultESNParams]) (by norm_num [defaultESNParams])
    (by norm_num [defaultESNParams]) defaultPersonaTrait ⟨fun _ => 0, 0⟩
  have hp := (newESN_spec h).2.2.2.2.2.1
  obtain ⟨W, -, hW⟩ := @trainOutput_ok esn [[1]] [[1]] [1] [1] rfl rfl rfl fun s hs => by
    obtain rfl := List.mem_singleton.mp hs; exact ⟨le_rfl, le_rfl⟩
  have he : (esn.exec (.trainOutput [[1]] [[1]])).esn =
      { esn with outputWeights := some W, trained := true } := by
    rw [show esn.exec (.trainOutput [[1]] [[1]]) = esn.trainOutput [[1]] [[1]] from rfl, hW]
  have hr : Reachable (WideTraining 1) (esn.exec (.trainOutput [[1]] [[1]])).esn :=
    .step (.init h) fun s hs => by rw [List.mem_singleton.mp hs]; rfl
  rw [he] at hr
  have hk : ({ esn with outputWeights := some W, trained := true } : ESN).params.reservoirSize.toNat
      ≤ 1 := by
    show esn.params.reservoirSize.toNat ≤ 1
    rw [hp]; decide
  exact ⟨_, hr, hk, rfl, predict_never_panics hr hk⟩

end Reservoir.ESN
