import Reservoir.Esn.Run

/-! # The input width

Without `SetInputWeights`, the first `Update` fixes the width of the input weights. A later
`Update` with an input of another width returns the mismatch error before it touches the
network; one with an input of that width runs to the end.
-/

namespace Reservoir.ESN

/-- Every call but `SetInputWeights`. -/
def NoSetInputWeights (op : Op) : Prop := ∀ d, op ≠ .setInputWeights d

theorem setInputWeights_ok (esn : ESN) {d : ℤ} (hn : 0 ≤ esn.params.reservoirSize) (hd : 0 ≤ d) :
    ∃ e, esn.setInputWeights d = .ok e := by
  unfold setInputWeights
  dsimp only
  rw [if_neg (by omega), if_neg (by omega)]
  exact ⟨_, rfl⟩

theorem update_mismatch {esn : ESN} {row0 : List ℝ} {rest : List (List ℝ)}
    (h : esn.inputWeights = row0 :: rest) {input : List ℝ} (hne : input.length ≠ row0.length) :
    esn.update input = ⟨.error ("input dimension mismatch: expected " ++ toString row0.length ++
      ", got " ++ toString input.length), esn⟩ := by
  unfold update
  rw [if_neg (by simp [h])]
  show esn.updateWith input = _
  unfold updateWith
  rw [h, List.getElem?_cons_zero]
  exact if_pos hne

/-- On a well-formed network, an `Update` whose input has the width of the input weights
returns normally, with one input row per neuron of the input's width. -/
theorem update_ok {esn : ESN} (hw : Wf esn) {input : List ℝ}
    (hwidth : ∀ row ∈ esn.inputWeights, row.length = input.length) :
    ∃ esn', esn.update input = ⟨.ok [], esn'⟩ ∧ Frame esn esn' ∧
      esn'.inputWeights.length = esn.params.reservoirSize.toNat ∧
      ∀ row ∈ esn'.inputWeights, row.length = input.length := by
  have hpos : 0 < esn.state.length := by have := hw.size_pos; rw [hw.state_length]; omega
  have hsq : Square esn.reservoirWeights esn.state.length := hw.state_length ▸ hw.square
  unfold update
  by_cases h0 : esn.inputWeights.length = 0
  · rw [if_pos h0]
    obtain ⟨e, he⟩ := setInputWeights_ok esn hw.size_pos.le (Int.ofNat_nonneg input.length)
    have hf := setInputWeights_frame esn input.length
    have hr := setInputWeights_rows esn input.length hw.size_pos.le
    rw [he] at hf hr
    obtain ⟨-, hl, hrows⟩ := hr
    simp only [Int.toNat_ofNat] at hrows
    obtain ⟨e', he', hfe, hie⟩ := @updateWith_ok e input
      (by rw [hl, hf.state_length, hw.state_length]) (by rw [hf.state_length]; exact hpos) hrows
      (by rw [hf.reservoirWeights, hf.state_length]; exact hsq)
    rw [he]
    exact ⟨e', he', hf.trans hfe, hie ▸ hl, hie ▸ hrows⟩
  · rw [if_neg h0]
    have hl : esn.inputWeights.length = esn.params.reservoirSize.toNat :=
      hw.inputs.elim (fun h => absurd (by rw [h]; rfl) h0) And.left
    obtain ⟨e', he', hfe, hie⟩ := updateWith_ok (by rw [hl, hw.state_length]) hpos hwidth hsq
    exact ⟨e', he', hfe, hie ▸ hl, hie ▸ hwidth⟩

theorem exec_inputWeights {esn : ESN} (hne : esn.inputWeights ≠ []) :
    ∀ op, NoSetInputWeights op → (esn.exec op).esn.inputWeights = esn.inputWeights
  | .update input, _ => by
    show (esn.update input).esn.inputWeights = _
    unfold update
    rw [if_neg (by simpa using hne)]
    exact (updateWith_frame esn input).2
  | .reset, _ => rfl
  | .getState, _ => rfl
  | .setInputWeights d, h => absurd rfl (h d)
  | .trainOutput states targets, _ => by
    obtain ⟨W, t, h⟩ := trainOutput_esn esn states targets
    show (esn.trainOutput states targets).esn.inputWeights = _
    rw [h]
  | .predict, _ => by show esn.predict.esn.inputWeights = _; rw [predict_esn]

/-- Without `SetInputWeights`, the input weights are absent or one row per neuron of one
width; once present no call changes them; an `Update` of another width fails with the
mismatch error and leaves the network as it was, and one of that width (or the first)
returns normally with a state of `ReservoirSize` entries. -/
theorem update_input_width {esn : ESN} (h : Reachable NoSetInputWeights esn) :
    InputRows esn ∧
    (∀ op, NoSetInputWeights op → esn.inputWeights ≠ [] →
      (esn.exec op).esn.inputWeights = esn.inputWeights) ∧
    ∀ input : List ℝ,
      (∀ row0 rest, esn.inputWeights = row0 :: rest → input.length ≠ row0.length →
        esn.update input = ⟨.error ("input dimension mismatch: expected " ++ toString row0.length ++
          ", got " ++ toString input.length), esn⟩) ∧
      ((∀ row0 rest, esn.inputWeights = row0 :: rest → input.length = row0.length) →
        ∃ esn', esn.update input = ⟨.ok [], esn'⟩ ∧
          esn'.state.length = esn.params.reservoirSize.toNat ∧
          esn'.inputWeights.length = esn.params.reservoirSize.toNat ∧
          ∀ row ∈ esn'.inputWeights, row.length = input.length) := by
  have hw := h.wf
  refine ⟨hw.inputs, fun op hop hne => exec_inputWeights hne op hop,
    fun input => ⟨fun row0 rest h0 hne => update_mismatch h0 hne, fun hsame => ?_⟩⟩
  have hwidth : ∀ row ∈ esn.inputWeights, row.length = input.length := by
    rcases hw.inputs with h0 | ⟨-, w, hrow⟩
    · simp [h0]
    · intro row hrow'
      obtain ⟨row0, rest, h0⟩ := List.exists_cons_of_ne_nil (List.ne_nil_of_mem hrow')
      rw [hrow row hrow', ← hrow row0 (h0 ▸ List.mem_cons_self _ _), hsame row0 rest h0]
  obtain ⟨esn', he, hf, hl, hrows⟩ := update_ok hw hwidth
  exact ⟨esn', he, by rw [hf.state_length, hw.state_length], hf.params ▸ hl, hrows⟩

theorem defaultESN_ok (persona : PersonaTrait) (rng : Rand) :
    ∃ esn, newESN defaultESNParams persona rng = .ok esn :=
  newESN_ok (by norm_num [defaultESNParams]) (by norm_num [defaultESNParams])
    (by norm_num [defaultESNParams]) (by norm_num [defaultESNParams]) (by norm_num [defaultESNParams])
    persona rng

/-- The network `NewESN` builds on the default parameters and persona from draws that are all
`0.05`, after a first `Update` on `[1]`: the update returns normally, every reservoir weight is
nonzero (every uniform draw falls below `Sparsity = 0.1`), and the input weights are one row of
width one per neuron. -/
theorem firstUpdate_of_const_draws : ∃ esn0 esn,
    newESN defaultESNParams defaultPersonaTrait ⟨fun _ => 0.05, 0⟩ = .ok esn0 ∧
    esn0.exec (.update [1]) = ⟨.ok [], esn⟩ ∧ (∀ row ∈ esn.reservoirWeights, ∀ w ∈ row, w ≠ 0) ∧
    esn.inputWeights.length = 100 ∧ ∀ row ∈ esn.inputWeights, row.length = 1 := by
  obtain ⟨esn0, h0⟩ := defaultESN_ok defaultPersonaTrait ⟨fun _ => 0.05, 0⟩
  obtain ⟨-, -, -, -, -, hp, -, -, hi, -⟩ := newESN_spec h0
  obtain ⟨esn, hu, hf, hl, hrows⟩ := @update_ok esn0 (newESN_wf h0) [1] (by rw [hi]; nofun)
  refine ⟨esn0, esn, h0, hu, hf.reservoirWeights ▸ newESN_weights_ne_zero (by norm_num [defaultESNParams])
    (by norm_num) h0, by rw [hl, hp]; rfl, hrows⟩

theorem update_input_width_after_update : ∃ esn0 esn,
    newESN defaultESNParams defaultPersonaTrait ⟨fun _ => 0.05, 0⟩ = .ok esn0 ∧
    esn0.exec (.update [1]) = ⟨.ok [], esn⟩ ∧ esn.inputWeights ≠ [] ∧
    Reachable NoSetInputWeights esn ∧
    (InputRows esn ∧
    (∀ op, NoSetInputWeights op → esn.inputWeights ≠ [] →
      (esn.exec op).esn.inputWeights = esn.inputWeights) ∧
    ∀ input : List ℝ,
      (∀ row0 rest, esn.inputWeights = row0 :: rest → input.length ≠ row0.length →
        esn.update input = ⟨.error ("input dimension mismatch: expected " ++ toString row0.length ++
          ", got " ++ toString input.length), esn⟩) ∧
      ((∀ row0 rest, esn.inputWeights = row0 :: rest → input.length = row0.length) →
        ∃ esn', esn.update input = ⟨.ok [], esn'⟩ ∧
          esn'.state.length = esn.params.reservoirSize.toNat ∧
          esn'.inputWeights.length = esn.params.reservoirSize.toNat ∧
          ∀ row ∈ esn'.inputWeights, row.length = input.length)) := by
  obtain ⟨esn0, esn, h0, hu, -, hl, -⟩ := firstUpdate_of_const_draws
  have he : (esn0.exec (.update [1])).esn = esn := congrArg Outcome.esn hu
  have hr : Reachable NoSetInputWeights esn := he ▸ .step (.init h0) fun _ => nofun
  exact ⟨esn0, esn, h0, hu, fun h => by simp [h] at hl, hr, update_input_width hr⟩

end Reservoir.ESN
