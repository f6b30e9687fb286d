import Reservoir.Esn.InputWidth

/-! # The activation bound on the state

Each step that writes the state is a convex combination or a contraction when the
effective leak `LeakRate * (1 + 0.2 * Attention)` is at most one, every decay factor
`1 - 0.05 * Level` lies in `[-1, 1]` and `0.01 * Memory` lies in `[0, 1]`: the leaky step
mixes the old value with an activation of size below `1 + 0.1 * Valence`, the decay
scales, and the smoothing mixes a neuron with an average of neurons. The effective leak
may exceed one, and then the bound fails.
-/

namespace Reservoir.ESN

theorem abs_tanh_lt_one (x : ℝ) : |Real.tanh x| < 1 := by
  have ha := Real.exp_pos x
  have hb := Real.exp_pos (-x)
  rw [Real.tanh_eq_sinh_div_cosh, Real.sinh_eq, Real.cosh_eq, abs_lt]
  constructor
  · rw [lt_div_iff₀ (by positivity)]; linarith
  · rw [div_lt_one (by positivity)]; linarith

/-- A convex combination of two values of size at most `B`. -/
theorem abs_convex_le {a b ℓ B : ℝ} (h0 : 0 ≤ ℓ) (h1 : ℓ ≤ 1) (ha : |a| ≤ B) (hb : |b| ≤ B) :
    |(1 - ℓ) * a + ℓ * b| ≤ B :=
  calc |(1 - ℓ) * a + ℓ * b| ≤ |(1 - ℓ) * a| + |ℓ * b| := abs_add _ _
    _ = (1 - ℓ) * |a| + ℓ * |b| := by
      rw [abs_mul, abs_mul, abs_of_nonneg (by linarith : 0 ≤ 1 - ℓ), abs_of_nonneg h0]
    _ ≤ (1 - ℓ) * B + ℓ * B := by gcongr; linarith
    _ = B := by ring

/-- Every neuron lies in `[-B, B]`. -/
def Bounded (B : ℝ) (state : List ℝ) : Prop := ∀ x ∈ state, |x| ≤ B

/-- The conditions of the bound, read off the network. -/
structure Contracting (esn : ESN) : Prop where
  leak_nonneg : 0 ≤ esn.params.leakRate * (1.0 + 0.2 * esn.persona.attention)
  leak_le_one : esn.params.leakRate * (1.0 + 0.2 * esn.persona.attention) ≤ 1
  scale_nonneg : 0 ≤ 1.0 + 0.1 * esn.persona.valence
  decay : ∀ m ∈ esn.membranes, |1.0 - 0.05 * (m.level : ℝ)| ≤ 1
  flow_nonneg : 0 ≤ 0.01 * esn.persona.memory
  flow_le_one : 0.01 * esn.persona.memory ≤ 1

theorem Contracting.of_frame {esn esn' : ESN} (hf : Frame esn esn') (h : Contracting esn) :
    Contracting esn' := by
  replace hf := hf.symm
  obtain ⟨h1, h2, h3, h4, h5, h6⟩ := h
  rw [hf.params, hf.persona] at *
  rw [hf.membranes] at h4
  exact ⟨h1, h2, h3, h4, h5, h6⟩

section
variable {esn : ESN} (hc : Contracting esn)
include hc

theorem neuron_bounded {input : List ℝ} {i : ℕ} {v : ℝ} (hb : Bounded (1.0 + 0.1 * esn.persona.valence) esn.state)
    (h : esn.neuron input i = some v) : |v| ≤ 1.0 + 0.1 * esn.persona.valence := by
  simp only [neuron, Option.bind_eq_bind, Option.bind_eq_some, Option.pure_def,
    Option.some.injEq] at h
  obtain ⟨-, -, a, -, -, -, b, -, si, hsi, rfl⟩ := h
  refine abs_convex_le hc.leak_nonneg hc.leak_le_one (hb si (List.getElem?_mem hsi)) ?_
  rw [abs_mul, abs_of_nonneg hc.scale_nonneg]
  exact mul_le_of_le_one_left hc.scale_nonneg (abs_tanh_lt_one _).le

theorem decay_bounded {m : Membrane} (hm : m ∈ esn.membranes)
    (hb : Bounded (1.0 + 0.1 * esn.persona.valence) esn.state) :
    Bounded (1.0 + 0.1 * esn.persona.valence) (esn.decay m).state := by
  unfold decay
  split_ifs
  · intro x hx
    obtain ⟨y, hy, rfl⟩ := List.mem_map.mp hx
    rw [abs_mul]
    exact (mul_le_of_le_one_right (abs_nonneg y) (hc.decay m hm)).trans (hb y hy)
  · exact hb

theorem applyMembraneEvolution_bounded (hb : Bounded (1.0 + 0.1 * esn.persona.valence) esn.state) :
    Bounded (1.0 + 0.1 * esn.persona.valence) esn.applyMembraneEvolution.state := by
  have h := List.foldlRecOn (motive := fun e => Frame esn e ∧ Bounded (1.0 + 0.1 * esn.persona.valence) e.state)
    esn.membranes decay esn ⟨Frame.refl esn, hb⟩ fun e ⟨hf, he⟩ m hm => by
      have hce := hc.of_frame hf
      refine ⟨hf.trans (decay_frame e m), ?_⟩
      rw [← hf.persona] at he ⊢
      exact decay_bounded hce (hf.membranes ▸ hm) he
  exact h.2

end

/-- The neighbour sum of `count` neurons of size at most `B` has size at most `count * B`. -/
theorem neighbours_bound {B : ℝ} {row state : List ℝ} (hb : Bounded B state) :
    ∀ {n : ℕ} {s c : ℝ}, neighbours row state n = some (s, c) → |s| ≤ c * B ∧ 0 ≤ c
  | 0, s, c, h => by cases h; simp
  | n + 1, s, c, h => by
    cases hn : neighbours row state n with
    | none => simp [neighbours, hn] at h
    | some p =>
      obtain ⟨s0, c0⟩ := p
      obtain ⟨ih1, ih2⟩ := neighbours_bound hb hn
      cases hw : row[n]? with
      | none => simp [neighbours, hn, hw] at h
      | some w =>
        by_cases hw0 : w = 0
        · simp only [neighbours, hn, hw, hw0, Option.bind_eq_bind, Option.some_bind, ne_eq,
            not_true_eq_false, if_false, Option.pure_def, Option.some.injEq, Prod.mk.injEq] at h
          obtain ⟨rfl, rfl⟩ := h
          exact ⟨ih1, ih2⟩
        · cases hx : state[n]? with
          | none => simp [neighbours, hn, hw, hw0, hx] at h
          | some x =>
            simp only [neighbours, hn, hw, hw0, hx, Option.bind_eq_bind, Option.some_bind, ne_eq,
              not_false_eq_true, if_true, Option.pure_def, Option.some.injEq, Prod.mk.injEq] at h
            obtain ⟨rfl, rfl⟩ := h
            refine ⟨(abs_add _ _).trans ?_, by linarith⟩
            have := hb x (List.getElem?_mem hx)
            linarith

theorem ricciAt_bounded {B : ℝ} (esn : ESN) (n : ℕ) {state : List ℝ} (i : ℕ)
    (h0 : 0 ≤ 0.01 * esn.persona.memory) (h1 : 0.01 * esn.persona.memory ≤ 1) (hb : Bounded B state) :
    Carries (Bounded B) (esn.ricciAt n state i) := by
  unfold ricciAt
  split
  · exact hb
  · rename_i nb cnt hnc
    obtain ⟨row, -, hrow⟩ := Option.bind_eq_some.mp hnc
    obtain ⟨hs, -⟩ := neighbours_bound hb hrow
    split_ifs with hcnt
    · split
      · exact hb
      · rename_i si hsi
        have hsiB := hb si (List.getElem?_mem hsi)
        have havg : |nb / cnt| ≤ B := by
          rw [abs_div, abs_of_pos hcnt, div_le_iff₀ hcnt]; linarith
        intro x hx
        rcases List.mem_or_eq_of_mem_set hx with hx | rfl
        · exact hb x hx
        · have e : si - 0.01 * esn.persona.memory * (si - nb / cnt) =
              (1 - 0.01 * esn.persona.memory) * si + 0.01 * esn.persona.memory * (nb / cnt) := by ring
          rw [e]
          exact abs_convex_le h0 h1 hsiB havg
    · exact hb

theorem applyRicciFlow_bounded (esn : ESN) {B : ℝ} (h0 : 0 ≤ 0.01 * esn.persona.memory)
    (h1 : 0.01 * esn.persona.memory ≤ 1) (hb : Bounded B esn.state) :
    Carries (fun e => Bounded B e.state) esn.applyRicciFlow := by
  have h := foldlM_carries (Bounded B) (ricciAt esn esn.state.length)
    (fun s i hs => ricciAt_bounded esn _ i h0 h1 hs) (List.range esn.state.length) esn.state hb
  unfold applyRicciFlow
  revert h
  cases (List.range esn.state.length).foldlM (ricciAt esn esn.state.length) esn.state <;> exact id

theorem updateWith_bounded {esn : ESN} (hc : Contracting esn) (input : List ℝ)
    (hb : Bounded (1.0 + 0.1 * esn.persona.valence) esn.state) :
    Bounded (1.0 + 0.1 * esn.persona.valence) (esn.updateWith input).esn.state := by
  unfold updateWith
  split
  · exact hb
  · split_ifs
    · exact hb
    · split
      · exact hb
      · rename_i ns hns
        have hf : Frame esn { esn with state := ns } :=
          ⟨rfl, rfl, rfl, rfl, by rw [mapM_length hns, List.length_range]⟩
        have hns' : Bounded (1.0 + 0.1 * esn.persona.valence) ns := fun x hx => by
          obtain ⟨i, -, hi⟩ := mem_mapM hns x hx
          exact neuron_bounded hc hb hi
        have hd := applyMembraneEvolution_bounded (hc.of_frame hf) hns'
        have hfd := applyMembraneEvolution_frame { esn with state := ns }
        have hr := applyRicciFlow_bounded _ (by rw [hfd.persona]; exact hc.flow_nonneg)
          (by rw [hfd.persona]; exact hc.flow_le_one) hd
        unfold applyRicciFlow at hr ⊢
        revert hr
        split <;> exact id

theorem setInputWeights_state (esn : ESN) (d : ℤ) :
    Carries (·.state = esn.state) (esn.setInputWeights d) := by
  unfold setInputWeights
  dsimp only
  split_ifs <;> rfl

/-- One call keeps the state inside the activation range. -/
theorem exec_bounded {esn : ESN} (hc : Contracting esn)
    (hb : Bounded (1.0 + 0.1 * esn.persona.valence) esn.state) :
    ∀ op, Bounded (1.0 + 0.1 * esn.persona.valence) (esn.exec op).esn.state
  | .update input => update_induction (P := fun e => Frame esn e ∧ e.state = esn.state)
      (Q := fun e => Bounded (1.0 + 0.1 * esn.persona.valence) e.state)
      (fun _ => by
        have h1 := setInputWeights_frame esn input.length
        have h2 := setInputWeights_state esn input.length
        revert h1 h2
        cases esn.setInputWeights input.length <;> exact fun h1 h2 => ⟨h1, h2⟩)
      (fun _ => ⟨Frame.refl esn, rfl⟩) (fun _ ⟨_, h⟩ => show Bounded _ _ from h ▸ hb) fun e ⟨hf, he⟩ => by
        have := updateWith_bounded (hc.of_frame hf) input (by rw [he, hf.persona]; exact hb)
        rwa [hf.persona] at this
  | .reset => fun x hx => by
    obtain ⟨y, -, rfl⟩ := List.mem_map.mp hx
    simpa using hc.scale_nonneg
  | .getState => hb
  | .setInputWeights d => by
    have h := setInputWeights_state esn d
    show Bounded _ (esn.setInputWeightsCall d).esn.state
    unfold setInputWeightsCall
    revert h
    cases esn.setInputWeights d <;> exact fun h => h ▸ hb
  | .trainOutput states targets => by
    obtain ⟨W, t, h⟩ := trainOutput_esn esn states targets
    show Bounded _ (esn.trainOutput states targets).esn.state
    rw [h]; exact hb
  | .predict => by show Bounded _ esn.predict.esn.state; rw [predict_esn]; exact hb

theorem contracting_of_reachable {allowed : Op → Prop} {esn : ESN} (h : Reachable allowed esn)
    (hv : -1 ≤ esn.persona.valence) (hatt : 0 ≤ esn.persona.attention)
    (hmem : 0 ≤ esn.persona.memory ∧ esn.persona.memory ≤ 1)
    (hleak : esn.params.leakRate * (1 + 0.2 * esn.persona.attention) ≤ 1)
    (hdepth : esn.params.treeDepth ≤ 41) : Contracting esn := by
  have hw := h.wf
  have e1 : (1.0 : ℝ) = 1 := by norm_num
  refine ⟨by rw [e1]; exact mul_nonneg hw.accepted.2.2.1.le (by linarith only [hatt]),
    by rw [e1]; exact hleak, by rw [e1]; linarith only [hv], fun m hm => ?_,
    by linarith only [hmem.1], by linarith only [hmem.2]⟩
  obtain ⟨level, hl, hlev, -⟩ := mem_initializeMembranes (hw.membranes ▸ hm)
  have h40 : (level : ℝ) ≤ 40 := by exact_mod_cast (show level ≤ 40 by omega)
  rw [hlev, abs_le]
  push_cast
  constructor <;> linarith only [h40, (Nat.cast_nonneg level : (0 : ℝ) ≤ level)]

/-- Along every run, a network that meets the conditions of the bound keeps every neuron
within `1 + 0.1 * Valence`. -/
theorem Reachable.bounded {allowed : Op → Prop} {esn : ESN} (h : Reachable allowed esn)
    (hc : Contracting esn) : Bounded (1.0 + 0.1 * esn.persona.valence) esn.state := by
  induction h with
  | init h =>
    obtain ⟨-, -, -, -, -, -, -, hs, -⟩ := newESN_spec h
    intro x hx
    rw [hs] at hx
    rw [List.eq_of_mem_replicate hx, abs_zero]
    exact hc.scale_nonneg
  | step _ _ ih =>
    rename_i e op _ _
    have hf := exec_frame e op
    have := exec_bounded (hc.of_frame hf.symm) (ih (hc.of_frame hf.symm)) op
    rwa [hf.persona]

/-- Under an effective leak of at most one and at most 41 tree levels, every state reached
from `NewESN` by any calls lies in the activation range `1 + 0.1 * Valence`. -/
theorem state_bounded {esn : ESN} (h : Reachable (fun _ => True) esn)
    (hv : -1 ≤ esn.persona.valence) (hatt : 0 ≤ esn.persona.attention)
    (hmem : 0 ≤ esn.persona.memory ∧ esn.persona.memory ≤ 1)
    (hleak : esn.params.leakRate * (1 + 0.2 * esn.persona.attention) ≤ 1)
    (hdepth : esn.params.treeDepth ≤ 41) :
    ∀ x ∈ esn.state, |x| ≤ 1 + 0.1 * esn.persona.valence := by
  have hb := h.bounded (contracting_of_reachable h hv hatt hmem hleak hdepth)
  rwa [show (1.0 : ℝ) = 1 by norm_num] at hb

/-- The bound on the default network after a first `Update`, with every reservoir weight
nonzero. -/
theorem state_bounded_after_update : ∃ esn0 esn,
    newESN defaultESNParams defaultPersonaTrait ⟨fun _ => 0.05, 0⟩ = .ok esn0 ∧
    esn0.exec (.update [1]) = ⟨.ok [], esn⟩ ∧ (∀ row ∈ esn.reservoirWeights, ∀ w ∈ row, w ≠ 0) ∧
    Reachable (fun _ => True) esn ∧
    -1 ≤ esn.persona.valence ∧ 0 ≤ esn.persona.attention ∧
    (0 ≤ esn.persona.memory ∧ esn.persona.memory ≤ 1) ∧
    esn.params.leakRate * (1 + 0.2 * esn.persona.attention) ≤ 1 ∧ esn.params.treeDepth ≤ 41 ∧
    ∀ x ∈ esn.state, |x| ≤ 1 + 0.1 * esn.persona.valence := by
  obtain ⟨esn0, esn, h0, hu, hW, -⟩ := firstUpdate_of_const_draws
  have he : (esn0.exec (.update [1])).esn = esn := congrArg Outcome.esn hu
  have hr : Reachable (fun _ => True) esn := he ▸ .step (.init h0) trivial
  have hf : Frame esn0 esn := he ▸ exec_frame esn0 (.update [1])
  obtain ⟨-, -, -, -, -, hp, hq, -⟩ := newESN_spec h0
  rw [← hf.params] at hp
  rw [← hf.persona] at hq
  have h1 : -1 ≤ esn.persona.valence := by rw [hq]; norm_num [defaultPersonaTrait]
  have h2 : 0 ≤ esn.persona.attention := by rw [hq]; norm_num [defaultPersonaTrait]
  have h3 : 0 ≤ esn.persona.memory ∧ esn.persona.memory ≤ 1 := by rw [hq]; norm_num [defaultPersonaTrait]
  have h4 : esn.params.leakRate * (1 + 0.2 * esn.persona.attention) ≤ 1 := by
    rw [hp, hq]; norm_num [defaultESNParams, defaultPersonaTrait]
  have h5 : esn.params.treeDepth ≤ 41 := by rw [hp]; decide
  exact ⟨esn0, esn, h0, hu, hW, hr, h1, h2, h3, h4, h5, state_bounded hr h1 h2 h3 h4 h5⟩

theorem set_self_of_getElem? {l : List ℝ} {i : ℕ} {a : ℝ} (h : l[i]? = some a) : l.set i a = l := by
  obtain ⟨hi, rfl⟩ := List.getElem?_eq_some_iff.mp h
  exact List.ext_getElem (by simp) fun j _ _ => by
    rw [List.getElem_set]; split_ifs with hij
    · subst hij; rfl
    · rfl

/-- Draws at or above every permeability make the membrane pass decay nothing. -/
theorem applyMembraneEvolution_state {esn : ESN}
    (h : ∀ m ∈ esn.membranes, ∀ k, m.permeability ≤ esn.rng.draws k) :
    esn.applyMembraneEvolution.state = esn.state :=
  (List.foldlRecOn (motive := fun e => e.state = esn.state ∧ e.rng.draws = esn.rng.draws)
    esn.membranes decay esn ⟨rfl, rfl⟩ fun e he m hm => by
      unfold decay
      rw [if_neg (not_lt.mpr (by rw [Rand.peek, he.2]; exact h m hm _))]
      exact he).1

/-- With `Memory = 0` the smoothing pass changes nothing. -/
theorem applyRicciFlow_memory_zero {esn : ESN} (hm : esn.persona.memory = 0)
    (hsq : Square esn.reservoirWeights esn.state.length) : esn.applyRicciFlow = .ok esn := by
  obtain ⟨r, hr, rfl⟩ := foldlM_ok (· = esn.state) (ricciAt esn esn.state.length)
    (List.range esn.state.length) (fun s i hmem hs => by
      have hs : s = esn.state := hs
      subst hs
      have hi := List.mem_range.mp hmem
      have hiW : i < esn.reservoirWeights.length := hsq.1 ▸ hi
      obtain ⟨⟨nb, c⟩, hp⟩ := neighbours_isSome (le_of_eq (hsq.2 _ (List.getElem_mem hiW)).symm) le_rfl
      unfold ricciAt
      rw [List.getElem?_eq_getElem hiW, Option.some_bind, hp]
      dsimp only
      split_ifs
      · rw [List.getElem?_eq_getElem hi]
        refine ⟨_, ?_, rfl⟩
        dsimp only
        rw [hm, mul_zero, zero_mul, sub_zero, set_self_of_getElem? (List.getElem?_eq_getElem hi)]
      · exact ⟨_, rfl, rfl⟩) esn.state rfl
  unfold applyRicciFlow
  rw [hr]

/-- When no decay draw fires and `Memory = 0`, `Update` leaves exactly the leaky-integrator
values. -/
theorem updateWith_quiet {esn : ESN} {input row0 ns : List ℝ} (h0 : esn.inputWeights[0]? = some row0)
    (hlen : input.length = row0.length)
    (hns : (List.range esn.state.length).mapM (esn.neuron input) = some ns)
    (hperm : ∀ m ∈ esn.membranes, ∀ k, m.permeability ≤ esn.rng.draws k)
    (hmem : esn.persona.memory = 0) (hsq : Square esn.reservoirWeights esn.state.length) :
    (esn.updateWith input).esn.state = ns := by
  have hlen' : ns.length = esn.state.length := (mapM_length hns).trans (List.length_range _)
  have hme : ({ esn with state := ns } : ESN).applyMembraneEvolution.state = ns :=
    applyMembraneEvolution_state hperm
  have hfr := applyMembraneEvolution_frame { esn with state := ns }
  have hrf := applyRicciFlow_memory_zero (by rw [hfr.persona]; exact hmem)
    (by rw [hfr.reservoirWeights, hme, hlen']; exact hsq)
  simp only [updateWith, h0, hlen, ne_eq, not_true_eq_false, if_false, hns, hrf, hme]

theorem tanh_eight_gt : (5 : ℝ) / 6 < Real.tanh 8 := by
  have h16 : (17 : ℝ) ≤ Real.exp 16 := by linarith [Real.add_one_le_exp (16 : ℝ)]
  have hb := Real.exp_pos (-8)
  have hsplit : Real.exp 8 = Real.exp 16 * Real.exp (-8) := by rw [← Real.exp_add]; norm_num
  rw [Real.tanh_eq_sinh_div_cosh, Real.sinh_eq, Real.cosh_eq, lt_div_iff₀ (by positivity), hsplit]
  nlinarith [mul_nonneg (sub_nonneg.mpr h16) hb.le]

/-- `LeakRate = 1` and `Attention = 1` make the effective leak `1.2`: one `Update` of a fresh
one-neuron network on the input `[10]` sets the neuron to `1.2 * tanh 8`, above
`1 + 0.1 * Valence = 1`. -/
theorem leak_breaks_bound : ∃ esn, Reachable (fun op => ∃ input, op = .update input) esn ∧
    esn.params = { defaultESNParams with reservoirSize := 1, leakRate := 1 } ∧
    esn.persona = ⟨0, 0, 0, 1, 0⟩ ∧ ∃ x ∈ esn.state, 1 + 0.1 * esn.persona.valence < |x| := by
  obtain ⟨e0, h0⟩ := @newESN_ok { defaultESNParams with reservoirSize := 1, leakRate := 1 }
    (by decide) (by norm_num [defaultESNParams]) (by norm_num [defaultESNParams]) (by norm_num)
    (by norm_num) ⟨0, 0, 0, 1, 0⟩ ⟨fun _ => 0.9, 0⟩
  obtain ⟨-, -, -, -, -, hp, hq, hs, hi, -, -, hm, hsq, hdr⟩ := newESN_spec h0
  simp only [show ({ defaultESNParams with reservoirSize := 1, leakRate := 1 } : ESNParams).reservoirSize.toNat = 1
    from rfl] at hs hsq
  obtain ⟨row, hrow⟩ := List.length_eq_one.mp hsq.1
  obtain ⟨w, hw⟩ := List.length_eq_one.mp (hsq.2 row (by rw [hrow]; exact List.mem_singleton_self _))
  set e1 : ESN := { e0 with inputWeights := [[(0.9 * 2 - 1) * 1.0]], rng := e0.rng.skip 1 }
  have hset : e0.setInputWeights (List.length [(10 : ℝ)]) = .ok e1 := by
    simp [setInputWeights, hp, defaultESNParams, Rand.peek, hdr, e1]
  have hns : (List.range e1.state.length).mapM (e1.neuron [10]) = some [1.2 * Real.tanh 8] := by
    have hr : List.range e1.state.length = [0] := by simp only [e1, hs, List.length_replicate]; rfl
    rw [hr, List.mapM_cons, List.mapM_nil]
    simp only [neuron, List.length_singleton, zero_lt_one, List.getElem?_eq_getElem, List.getElem_cons_zero,
      sumProducts, Option.pure_def, Option.bind_eq_bind, Option.some_bind, zero_add, hrow, hw, hs,
      List.replicate_one, mul_zero, add_zero, hp, hq, mul_one, one_mul, Option.some.injEq, List.cons.injEq,
      and_true]
    norm_num
  have hperm : ∀ m ∈ e1.membranes, ∀ k, m.permeability ≤ e1.rng.draws k := fun m hmm k => by
    rw [show e1.membranes = e0.membranes from rfl, hm] at hmm
    obtain ⟨-, -, -, hperm⟩ := mem_initializeMembranes hmm
    rw [hperm, show e1.rng.draws k = e0.rng.draws k from rfl, hdr]
    norm_num
  have hex : (e0.exec (.update [10])).esn.state = [1.2 * Real.tanh 8] := by
    show (e0.update [10]).esn.state = _
    rw [update, if_pos (by simp [hi]), hset]
    exact updateWith_quiet rfl rfl hns hperm (by simp [e1, hq]) (by simpa [e1, hs] using hsq)
  have hfe := exec_frame e0 (.update [10])
  refine ⟨_, .step (.init h0) ⟨_, rfl⟩, hfe.params.trans hp, hfe.persona.trans hq, ?_⟩
  rw [hfe.persona, hq, hex]
  have h8 := tanh_eight_gt
  refine ⟨_, List.mem_singleton_self _, ?_⟩
  norm_num
  rw [abs_of_pos (by linarith only [h8])]
  linarith

end Reservoir.ESN
