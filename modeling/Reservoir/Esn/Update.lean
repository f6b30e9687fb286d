import Reservoir.Esn.Basic

/-! # `Update` and the methods around it

`Update` sets the input weights on its first call, rejects an input of another width, then
runs the leaky-integrator step on every neuron, the random membrane decay and the in-place
smoothing pass. A panicking helper returns `Except.error` with the state it had reached. The
membrane decay never mixes neurons: it multiplies the whole state by one factor.
-/

namespace Reservoir.ESN

/-- `setInputWeights`: `ReservoirSize` rows of `inputDim` draws `(Float64()*2-1)*InputScaling`,
row by row. `make` panics on a negative length, the first row's after the rows were made. -/
def setInputWeights (esn : ESN) (inputDim : ℤ) : Except ESN ESN :=
  let n := esn.params.reservoirSize
  if n < 0 then .error esn
  else if inputDim < 0 ∧ 0 < n then .error { esn with inputWeights := List.replicate n.toNat [] }
  else
    let d := inputDim.toNat
    .ok { esn with
      inputWeights := (List.range n.toNat).map fun i =>
        (List.range d).map fun j => (esn.rng.peek (i * d + j) * 2 - 1) * esn.params.inputScaling
      rng := esn.rng.skip (n.toNat * d) }

/-- The new value of neuron `i` in `Update`. -/
noncomputable def neuron (esn : ESN) (input : List ℝ) (i : ℕ) : Option ℝ := do
  let inputSum ← sumProducts (← esn.inputWeights[i]?) input input.length
  let recurrentSum ← sumProducts (← esn.reservoirWeights[i]?) esn.state esn.state.length
  let activation := Real.tanh (inputSum + recurrentSum) * (1.0 + 0.1 * esn.persona.valence)
  let leakRate := esn.params.leakRate * (1.0 + 0.2 * esn.persona.attention)
  pure ((1 - leakRate) * (← esn.state[i]?) + leakRate * activation)

/-- One membrane of `applyMembraneEvolution`: a uniform draw, and below the permeability
every neuron times `1 - 0.05 * Level`. -/
noncomputable def decay (esn : ESN) (m : Membrane) : ESN :=
  if esn.rng.peek 0 < m.permeability then
    { esn with rng := esn.rng.skip 1, state := esn.state.map (· * (1.0 - 0.05 * m.level)) }
  else { esn with rng := esn.rng.skip 1 }

noncomputable def applyMembraneEvolution (esn : ESN) : ESN := esn.membranes.foldl decay esn

/-- The sum and the number of the neurons `j < n` with a nonzero weight in `row`. -/
noncomputable def neighbours (row state : List ℝ) : ℕ → Option (ℝ × ℝ)
  | 0 => some (0, 0)
  | n + 1 => do
    let (s, c) ← neighbours row state n
    if (← row[n]?) ≠ 0 then pure (s + (← state[n]?), c + 1) else pure (s, c)

/-- Neuron `i` of `applyRicciFlow`, on the state as the earlier neurons left it. -/
noncomputable def ricciAt (esn : ESN) (n : ℕ) (state : List ℝ) (i : ℕ) : Except (List ℝ) (List ℝ) :=
  match esn.reservoirWeights[i]?.bind fun row => neighbours row state n with
  | none => .error state
  | some (neighbors, count) =>
    if count > 0 then
      match state[i]? with
      | none => .error state
      | some si => .ok (state.set i (si - 0.01 * esn.persona.memory * (si - neighbors / count)))
    else .ok state

/-- `applyRicciFlow`; a panic leaves the neurons already smoothed. -/
noncomputable def applyRicciFlow (esn : ESN) : Except ESN ESN :=
  match (List.range esn.state.length).foldlM (ricciAt esn esn.state.length) esn.state with
  | .ok state => .ok { esn with state }
  | .error state => .error { esn with state }

/-- `Update` once the input weights are in place: the width check, the neurons, the decay
and the smoothing. -/
noncomputable def updateWith (esn : ESN) (input : List ℝ) : Outcome :=
  match esn.inputWeights[0]? with
  | none => ⟨.panic, esn⟩
  | some row0 =>
    if input.length ≠ row0.length then
      ⟨.error ("input dimension mismatch: expected " ++ toString row0.length ++ ", got " ++
        toString input.length), esn⟩
    else
      match (List.range esn.state.length).mapM (esn.neuron input) with
      | none => ⟨.panic, esn⟩
      | some newState =>
        match applyRicciFlow (applyMembraneEvolution { esn with state := newState }) with
        | .error esn => ⟨.panic, esn⟩
        | .ok esn => ⟨.ok [], esn⟩

noncomputable def update (esn : ESN) (input : List ℝ) : Outcome :=
  match if esn.inputWeights.length = 0 then esn.setInputWeights input.length else .ok esn with
  | .error esn => ⟨.panic, esn⟩
  | .ok esn => esn.updateWith input

def getState (esn : ESN) : Outcome := ⟨.ok esn.state, esn⟩

def reset (esn : ESN) : Outcome := ⟨.ok [], { esn with state := esn.state.map fun _ => 0 }⟩

/-- The public `SetInputWeights`. -/
def setInputWeightsCall (esn : ESN) (inputDim : ℤ) : Outcome :=
  match esn.setInputWeights inputDim with
  | .ok esn => ⟨.ok [], esn⟩
  | .error esn => ⟨.panic, esn⟩

/-- `esn'` has the parameters, persona, reservoir weights, membranes and state length of
`esn`. -/
structure Frame (esn esn' : ESN) : Prop where
  params : esn'.params = esn.params
  persona : esn'.persona = esn.persona
  reservoirWeights : esn'.reservoirWeights = esn.reservoirWeights
  membranes : esn'.membranes = esn.membranes
  state_length : esn'.state.length = esn.state.length

theorem Frame.refl (esn : ESN) : Frame esn esn := ⟨rfl, rfl, rfl, rfl, rfl⟩

theorem Frame.symm {a b : ESN} (h : Frame a b) : Frame b a :=
  ⟨h.1.symm, h.2.symm, h.3.symm, h.4.symm, h.5.symm⟩

theorem Frame.trans {a b c : ESN} (h₁ : Frame a b) (h₂ : Frame b c) : Frame a c :=
  ⟨h₂.1.trans h₁.1, h₂.2.trans h₁.2, h₂.3.trans h₁.3, h₂.4.trans h₁.4, h₂.5.trans h₁.5⟩

theorem setInputWeights_frame (esn : ESN) (d : ℤ) : Carries (Frame esn) (esn.setInputWeights d) := by
  unfold setInputWeights
  dsimp only
  split_ifs <;> exact ⟨rfl, rfl, rfl, rfl, rfl⟩

theorem decay_frame (esn : ESN) (m : Membrane) : Frame esn (esn.decay m) := by
  unfold decay
  split_ifs
  · exact ⟨rfl, rfl, rfl, rfl, List.length_map _ _⟩
  · exact ⟨rfl, rfl, rfl, rfl, rfl⟩

theorem applyMembraneEvolution_frame (esn : ESN) : Frame esn esn.applyMembraneEvolution :=
  List.foldlRecOn (motive := Frame esn) esn.membranes decay esn (Frame.refl esn)
    fun e h m _ => h.trans (decay_frame e m)

theorem ricciAt_length (esn : ESN) (n : ℕ) (state : List ℝ) (i : ℕ) :
    Carries (·.length = state.length) (esn.ricciAt n state i) := by
  unfold ricciAt
  split
  · rfl
  · split_ifs
    · split
      · rfl
      · exact List.length_set _ _ _
    · rfl

theorem applyRicciFlow_frame (esn : ESN) : Carries (Frame esn) esn.applyRicciFlow := by
  have h := foldlM_carries (·.length = esn.state.length) (ricciAt esn esn.state.length)
    (fun s i hs => by have := ricciAt_length esn esn.state.length s i; rwa [hs] at this)
    (List.range esn.state.length) esn.state rfl
  unfold applyRicciFlow
  revert h
  cases (List.range esn.state.length).foldlM (ricciAt esn esn.state.length) esn.state <;>
    exact fun h => ⟨rfl, rfl, rfl, rfl, h⟩

/-- After the input weights are in place, `Update` changes only the state and the
generator. -/
theorem updateWith_frame (esn : ESN) (input : List ℝ) :
    Frame esn (esn.updateWith input).esn ∧ (esn.updateWith input).esn.inputWeights = esn.inputWeights := by
  unfold updateWith
  split
  · exact ⟨Frame.refl esn, rfl⟩
  · split_ifs
    · exact ⟨Frame.refl esn, rfl⟩
    · split
      · exact ⟨Frame.refl esn, rfl⟩
      · rename_i ns hns
        have hs : Frame esn { esn with state := ns } :=
          ⟨rfl, rfl, rfl, rfl, by rw [mapM_length hns, List.length_range]⟩
        have h1 := hs.trans (applyMembraneEvolution_frame _)
        have hi : (applyMembraneEvolution { esn with state := ns }).inputWeights = esn.inputWeights := by
          unfold applyMembraneEvolution
          exact List.foldlRecOn (motive := (·.inputWeights = esn.inputWeights)) _ decay
            { esn with state := ns } rfl fun e h m _ => by
              unfold decay; split_ifs <;> exact h
        have h2 := applyRicciFlow_frame (applyMembraneEvolution { esn with state := ns })
        unfold applyRicciFlow at h2 ⊢
        revert h2
        split <;> exact fun h2 => ⟨h1.trans h2, hi⟩

/-- What `Update` leaves, from what the input-weight set-up at its start keeps: the receiver
as a panic in the set-up left it, or the set-up's result after `updateWith`. -/
theorem update_induction {P Q : ESN → Prop} {esn : ESN} {input : List ℝ}
    (hset : esn.inputWeights.length = 0 → Carries P (esn.setInputWeights input.length))
    (hself : esn.inputWeights.length ≠ 0 → P esn) (herr : ∀ e, P e → Q e)
    (hok : ∀ e, P e → Q (e.updateWith input).esn) : Q (esn.update input).esn := by
  unfold update
  split_ifs with h0
  · have h := hset h0
    revert h
    cases esn.setInputWeights input.length with
    | error e => exact herr e
    | ok e => exact hok e
  · exact hok esn (hself h0)

theorem update_frame (esn : ESN) (input : List ℝ) : Frame esn (esn.update input).esn :=
  update_induction (P := Frame esn) (fun _ => setInputWeights_frame esn _) (fun _ => Frame.refl esn)
    (fun _ => id) fun e h => h.trans (updateWith_frame e input).1

theorem decay_writes (esn : ESN) (m : Membrane) :
    ∃ st r, esn.decay m = { esn with state := st, rng := r } := by
  unfold decay; split_ifs <;> exact ⟨_, _, rfl⟩

theorem applyMembraneEvolution_writes (esn : ESN) :
    ∃ st r, esn.applyMembraneEvolution = { esn with state := st, rng := r } :=
  List.foldlRecOn (motive := fun e => ∃ st r, e = { esn with state := st, rng := r }) esn.membranes
    decay esn ⟨esn.state, esn.rng, rfl⟩ fun e ⟨_, _, he⟩ m _ => by
      obtain ⟨st, r, h⟩ := decay_writes e m
      exact ⟨st, r, by rw [h, he]⟩

theorem applyRicciFlow_writes (esn : ESN) :
    Carries (fun e => ∃ st, e = { esn with state := st }) esn.applyRicciFlow := by
  unfold applyRicciFlow; split <;> exact ⟨_, rfl⟩

theorem updateWith_writes (esn : ESN) (input : List ℝ) :
    ∃ st r, (esn.updateWith input).esn = { esn with state := st, rng := r } := by
  unfold updateWith
  split
  · exact ⟨_, _, rfl⟩
  · split_ifs
    · exact ⟨_, _, rfl⟩
    · split
      · exact ⟨_, _, rfl⟩
      · rename_i ns _
        obtain ⟨st, r, h⟩ := applyMembraneEvolution_writes { esn with state := ns }
        have h2 := applyRicciFlow_writes (applyMembraneEvolution { esn with state := ns })
        revert h2
        cases applyRicciFlow (applyMembraneEvolution { esn with state := ns }) <;>
          exact fun ⟨st', he⟩ => ⟨st', r, by rw [he, h]⟩

/-- `Update` writes only the input weights, the state and the generator. -/
theorem update_writes (esn : ESN) (input : List ℝ) :
    ∃ iw st r, (esn.update input).esn = { esn with inputWeights := iw, state := st, rng := r } :=
  @update_induction (fun e => ∃ iw r, e = { esn with inputWeights := iw, rng := r })
    (fun e => ∃ iw st r, e = { esn with inputWeights := iw, state := st, rng := r }) esn input
    (fun _ => by unfold setInputWeights; dsimp only; split_ifs <;> exact ⟨_, _, rfl⟩)
    (fun _ => ⟨esn.inputWeights, esn.rng, rfl⟩) (fun _ ⟨iw, r, he⟩ => ⟨iw, _, r, he⟩)
    fun e ⟨iw, _, he⟩ => by
      obtain ⟨st, r, h⟩ := updateWith_writes e input
      exact ⟨iw, st, r, by rw [h, he]⟩

theorem neighbours_isSome {row state : List ℝ} : ∀ {n : ℕ}, n ≤ row.length → n ≤ state.length →
    ∃ p, neighbours row state n = some p
  | 0, _, _ => ⟨(0, 0), rfl⟩
  | n + 1, h1, h2 => by
    have hr : n < row.length := by omega
    have hs : n < state.length := by omega
    obtain ⟨p, hp⟩ := neighbours_isSome hr.le hs.le
    by_cases hw : row[n] = 0 <;>
      simp [neighbours, hp, List.getElem?_eq_getElem hr, List.getElem?_eq_getElem hs, hw]

/-- On a square reservoir the smoothing pass reads nothing out of range. -/
theorem applyRicciFlow_ok {esn : ESN} (h : Square esn.reservoirWeights esn.state.length) :
    ∃ esn', esn.applyRicciFlow = .ok esn' ∧ Frame esn esn' := by
  obtain ⟨r, hr, hlen⟩ := foldlM_ok (·.length = esn.state.length) (ricciAt esn esn.state.length)
    (List.range esn.state.length) (fun s i hmem hs => by
      have hs : s.length = esn.state.length := hs
      have hi' := List.mem_range.mp hmem
      have hi : i < esn.reservoirWeights.length := h.1 ▸ hi'
      obtain ⟨⟨nb, c⟩, hp⟩ := neighbours_isSome (le_of_eq (h.2 _ (List.getElem_mem hi)).symm) hs.ge
      unfold ricciAt
      rw [List.getElem?_eq_getElem hi, Option.some_bind, hp]
      dsimp only
      split_ifs
      · rw [List.getElem?_eq_getElem (by omega : i < s.length)]
        exact ⟨_, rfl, by rw [List.length_set, hs]⟩
      · exact ⟨s, rfl, hs⟩) esn.state rfl
  exact ⟨{ esn with state := r }, by unfold applyRicciFlow; rw [hr], ⟨rfl, rfl, rfl, rfl, hlen⟩⟩

theorem neuron_isSome {esn : ESN} {input : List ℝ} {i : ℕ}
    (hw : ∀ row ∈ esn.inputWeights, row.length = input.length) (hi : i < esn.inputWeights.length)
    (hsq : Square esn.reservoirWeights esn.state.length) (hs : i < esn.state.length) :
    ∃ v, esn.neuron input i = some v := by
  have hr : i < esn.reservoirWeights.length := hsq.1 ▸ hs
  obtain ⟨a, ha⟩ := sumProducts_isSome (le_of_eq (hw _ (List.getElem_mem hi)).symm) (le_refl input.length)
  obtain ⟨b, hb⟩ := sumProducts_isSome (le_of_eq (hsq.2 _ (List.getElem_mem hr)).symm)
    (le_refl esn.state.length)
  simp [neuron, List.getElem?_eq_getElem hi, List.getElem?_eq_getElem hr,
    List.getElem?_eq_getElem hs, ha, hb]

/-- With one input row per neuron, all of the input's width, and a square reservoir,
`Update` past its input weights returns normally. -/
theorem updateWith_ok {esn : ESN} {input : List ℝ}
    (hrows : esn.inputWeights.length = esn.state.length) (hpos : 0 < esn.state.length)
    (hw : ∀ row ∈ esn.inputWeights, row.length = input.length)
    (hsq : Square esn.reservoirWeights esn.state.length) :
    ∃ esn', esn.updateWith input = ⟨.ok [], esn'⟩ ∧ Frame esn esn' ∧
      esn'.inputWeights = esn.inputWeights := by
  obtain ⟨ns, hns⟩ := mapM_isSome (f := esn.neuron input) (l := List.range esn.state.length)
    fun i hi => neuron_isSome hw (hrows ▸ List.mem_range.mp hi) hsq (List.mem_range.mp hi)
  have hlen : ns.length = esn.state.length := by rw [mapM_length hns, List.length_range]
  have hf := applyMembraneEvolution_frame { esn with state := ns }
  obtain ⟨e, he, hfe⟩ := @applyRicciFlow_ok (applyMembraneEvolution { esn with state := ns })
    (by rw [hf.reservoirWeights, hf.state_length]; exact hlen ▸ hsq)
  have h0 : 0 < esn.inputWeights.length := by omega
  have hres := updateWith_frame esn input
  have hout : esn.updateWith input = ⟨.ok [], e⟩ := by
    unfold updateWith
    rw [List.getElem?_eq_getElem h0]
    dsimp only
    rw [if_neg (by simp [hw _ (List.getElem_mem h0)])]
    simp only [hns, he]
  rw [hout] at hres
  exact ⟨e, hout, hres.1, hres.2⟩

end Reservoir.ESN
