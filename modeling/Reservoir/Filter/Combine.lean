import Reservoir.Filter.Classify

/-! # The combined probability

`combinePredictions` starts from the Bayesian probability, blends in the reservoir
probability with weight `ReservoirWeight` when the reservoir is enabled and its probability is
positive, and then blends in the affective probability with weight `0.2` when that one is
positive. The reservoir probability is a `sigmoid` value or zero and the affective one is
clamped to `[0, 1]`, and neither depends on the Bayesian probability. So for a weight in
`[0, 1]` the result is a convex blend: it stays in `[0, 1]` and grows with the Bayesian
probability. `NewReservoirFilter` does not check the weight, and above one neither holds.
-/

namespace Reservoir.ReservoirFilter

theorem sigmoid_pos (x : ℝ) : 0 < sigmoid x := by
  unfold sigmoid; positivity

theorem sigmoid_lt_one (x : ℝ) : sigmoid x < 1 := by
  unfold sigmoid
  rw [div_lt_one (by positivity)]
  linarith [Real.exp_pos (-x)]

theorem half_le_sigmoid {x : ℝ} (h : 0 ≤ x) : 1 / 2 ≤ sigmoid x := by
  unfold sigmoid
  rw [div_le_div_iff₀ (by norm_num) (by positivity)]
  linarith [Real.exp_le_one_iff.mpr (neg_nonpos.mpr h)]

theorem reservoirProb_mem {esn : ESN} {p : ℝ} (h : reservoirProb esn = some p) :
    0 ≤ p ∧ p ≤ 1 := by
  have hs : ∀ x, 0 ≤ sigmoid x ∧ sigmoid x ≤ 1 := fun x => ⟨(sigmoid_pos x).le, (sigmoid_lt_one x).le⟩
  unfold reservoirProb at h
  split_ifs at h
  · split at h <;> cases h
    · exact hs _
    · exact ⟨le_rfl, zero_le_one⟩
    · exact ⟨le_rfl, zero_le_one⟩
  · cases h; exact hs _

/-- The reservoir block returns zero or a value of `reservoirProb`. -/
theorem reservoirAnalysis_prob {rf : ReservoirFilter} {content : String} {R : ℝ}
    {objs : List Object} (h : (rf.reservoirAnalysis content).1 = .ok (R, objs)) :
    R = 0 ∨ ∃ esn, reservoirProb esn = some R := by
  unfold reservoirAnalysis at h
  split at h
  · dsimp only at h
    split at h
    · cases h
    · cases h
    · revert h
      generalize ReservoirFilter.membranePass _ content = p
      obtain ⟨objs', rf'⟩ := p
      dsimp only
      split
      · rename_i p hp
        intro h
        cases h
        exact .inr ⟨_, hp⟩
      · intro h; cases h
  · cases h; exact .inl rfl

theorem reservoirAnalysis_mem {rf : ReservoirFilter} {content : String} {R : ℝ}
    {objs : List Object} (h : (rf.reservoirAnalysis content).1 = .ok (R, objs)) : 0 ≤ R ∧ R ≤ 1 := by
  rcases reservoirAnalysis_prob h with rfl | ⟨esn, he⟩
  · exact ⟨le_rfl, zero_le_one⟩
  · exact reservoirProb_mem he

/-- The affective probability of the block, zero where it is skipped. -/
theorem affectiveProb_mem (rf : ReservoirFilter) (content : String) :
    0 ≤ ((rf.affectiveAnalysis content).1.map Prod.snd).getD 0 ∧
      ((rf.affectiveAnalysis content).1.map Prod.snd).getD 0 ≤ 1 := by
  unfold affectiveAnalysis
  split
  · exact AffectiveAgent.getSpamProbability_mem _
  · exact ⟨le_rfl, zero_le_one⟩

theorem blend_mem {w x y : ℝ} (hw : 0 ≤ w ∧ w ≤ 1) (hx : 0 ≤ x ∧ x ≤ 1) (hy : 0 ≤ y ∧ y ≤ 1) :
    0 ≤ (1 - w) * x + w * y ∧ (1 - w) * x + w * y ≤ 1 := by
  have h1 : 0 ≤ 1 - w := by linarith
  refine ⟨add_nonneg (mul_nonneg h1 hx.1) (mul_nonneg hw.1 hy.1), ?_⟩
  calc (1 - w) * x + w * y ≤ (1 - w) * 1 + w * 1 :=
        add_le_add (mul_le_mul_of_nonneg_left hx.2 h1) (mul_le_mul_of_nonneg_left hy.2 hw.1)
    _ = 1 := by ring

theorem combinePredictions_mem {rf : ReservoirFilter} {result : ClassifyResult}
    (hw : 0 ≤ rf.config.reservoirWeight ∧ rf.config.reservoirWeight ≤ 1)
    (hb : 0 ≤ result.bayesianProb ∧ result.bayesianProb ≤ 1)
    (hR : 0 ≤ result.reservoirProb ∧ result.reservoirProb ≤ 1)
    (hA : 0 ≤ result.affectiveProb ∧ result.affectiveProb ≤ 1) :
    0 ≤ rf.combinePredictions result ∧ rf.combinePredictions result ≤ 1 := by
  -- the affective step blends a value in `[0, 1]` with one in `[0, 1]`
  have hmid : ∀ c : ℝ, 0 ≤ c ∧ c ≤ 1 → 0 ≤ 0.8 * c + 0.2 * result.affectiveProb ∧
      0.8 * c + 0.2 * result.affectiveProb ≤ 1 := fun c hc => by
    constructor <;> linarith only [hc.1, hc.2, hA.1, hA.2]
  unfold combinePredictions
  dsimp only
  split_ifs
  exacts [hmid _ (blend_mem hw hb hR), hmid _ hb, blend_mem hw hb hR, hb]

/-- With a weight of at most one, the blend grows with the Bayesian probability. -/
theorem combinePredictions_mono {rf : ReservoirFilter} {r r' : ClassifyResult}
    (hw : rf.config.reservoirWeight ≤ 1) (hR : r.reservoirProb = r'.reservoirProb)
    (hA : r.affectiveProb = r'.affectiveProb) (hb : r.bayesianProb ≤ r'.bayesianProb) :
    rf.combinePredictions r ≤ rf.combinePredictions r' := by
  have hc : (1 - rf.config.reservoirWeight) * r.bayesianProb + rf.config.reservoirWeight * r'.reservoirProb ≤
      (1 - rf.config.reservoirWeight) * r'.bayesianProb + rf.config.reservoirWeight * r'.reservoirProb :=
    add_le_add_right (mul_le_mul_of_nonneg_left hb (by linarith)) _
  have hmid : ∀ {c c' : ℝ}, c ≤ c' → 0.8 * c + 0.2 * r'.affectiveProb ≤ 0.8 * c' + 0.2 * r'.affectiveProb :=
    fun h => by linarith only [h]
  unfold combinePredictions
  dsimp only
  rw [hR, hA]
  split_ifs
  exacts [hmid hc, hmid hb, hc, hb]

/-- With the reservoir on and the affective block off, a positive reservoir probability is
blended in with weight `ReservoirWeight`. -/
theorem combinePredictions_reservoir_only {rf : ReservoirFilter} {r : ClassifyResult}
    (hr : rf.config.enableReservoir = true) (ha : rf.config.enableAffective = false)
    (hR : 0 < r.reservoirProb) :
    rf.combinePredictions r =
      (1 - rf.config.reservoirWeight) * r.bayesianProb + rf.config.reservoirWeight * r.reservoirProb := by
  simp [combinePredictions, hr, ha, hR]

theorem combinePredictions_congr {rf rf' : ReservoirFilter} {r r' : ClassifyResult}
    (hc : rf.config = rf'.config) (hb : r.bayesianProb = r'.bayesianProb)
    (hR : r.reservoirProb = r'.reservoirProb) (hA : r.affectiveProb = r'.affectiveProb) :
    rf.combinePredictions r = rf'.combinePredictions r' := by
  unfold combinePredictions
  rw [hc, hb, hR, hA]

/-- A successful `ClassifyMessage` combines the Bayesian probability with the two block
probabilities, which the Bayesian probability does not reach. -/
theorem classifyMessage_eq_ok {rf : ReservoirFilter} {content : String} {b : ℝ}
    {res : ClassifyResult} (h : (rf.classifyMessage content b).result = .ok res) :
    ∃ objs, ((rf.affectiveAnalysis content).2.reservoirAnalysis content).1 =
        .ok (res.reservoirProb, objs) ∧ res.bayesianProb = b ∧
      res.affectiveProb = ((rf.affectiveAnalysis content).1.map Prod.snd).getD 0 ∧
      res.combinedProb = rf.combinePredictions res := by
  obtain ⟨aa, ha⟩ := affectiveAnalysis_frame rf content
  unfold classifyMessage at h
  dsimp only at h
  split at h
  · rename_i R objs rf₂ heq
    cases h
    obtain ⟨e, ms, hf⟩ := reservoirAnalysis_frame (rf.affectiveAnalysis content).2 content
    rw [heq] at hf
    refine ⟨objs, congrArg Prod.fst heq, rfl, rfl, combinePredictions_congr ?_ rfl rfl rfl⟩
    rw [show rf₂ = _ from hf, ha]
  · cases h
  · cases h

/-- For a reservoir weight in `[0, 1]`, on any filter and any text, a successful
`ClassifyMessage` with a Bayesian probability in `[0, 1]` returns a combined probability in
`[0, 1]`, and two calls from the same filter on the same text return combined probabilities
ordered as their Bayesian probabilities. -/
theorem combinedProb_convex {rf : ReservoirFilter}
    (hw : 0 ≤ rf.config.reservoirWeight ∧ rf.config.reservoirWeight ≤ 1) (content : String) :
    (∀ b res, 0 ≤ b → b ≤ 1 → (rf.classifyMessage content b).result = .ok res →
        0 ≤ res.combinedProb ∧ res.combinedProb ≤ 1) ∧
      ∀ b b' res res', b ≤ b' → (rf.classifyMessage content b).result = .ok res →
        (rf.classifyMessage content b').result = .ok res' → res.combinedProb ≤ res'.combinedProb := by
  refine ⟨fun b res h0 h1 h => ?_, fun b b' res res' hbb h h' => ?_⟩
  · obtain ⟨objs, hr, hb, hA, hc⟩ := classifyMessage_eq_ok h
    rw [hc]
    exact combinePredictions_mem hw (hb ▸ ⟨h0, h1⟩) (reservoirAnalysis_mem hr)
      (hA ▸ affectiveProb_mem rf content)
  · obtain ⟨objs, hr, hb, hA, hc⟩ := classifyMessage_eq_ok h
    obtain ⟨objs', hr', hb', hA', hc'⟩ := classifyMessage_eq_ok h'
    have hR : res.reservoirProb = res'.reservoirProb := by
      rw [hr] at hr'
      exact (Prod.mk.inj (GoResult.ok.inj hr')).1
    rw [hc, hc']
    exact combinePredictions_mono hw.2 hR (hA.trans hA'.symm) (hb ▸ hb' ▸ hbb)

/-- `TestReservoirFilter`'s configuration on the spam text of `TestAffectiveAgentSpamDetection`. -/
theorem combinedProb_convex_test : ∃ rf,
    newReservoirFilter
      { defaultFilterConfig with
        enableReservoir := true, enableAffective := true,
        esnParams := { defaultESNParams with reservoirSize := 30 } }
      ⟨fun _ => 0, 0⟩ = .ok rf ∧
    (0 ≤ rf.config.reservoirWeight ∧ rf.config.reservoirWeight ≤ 1) ∧
    (∀ b res, 0 ≤ b → b ≤ 1 →
        (rf.classifyMessage "Click here to buy now! Free money! Limited time offer! Act now!" b).result =
          .ok res → 0 ≤ res.combinedProb ∧ res.combinedProb ≤ 1) ∧
      ∀ b b' res res', b ≤ b' →
        (rf.classifyMessage "Click here to buy now! Free money! Limited time offer! Act now!" b).result =
          .ok res →
        (rf.classifyMessage "Click here to buy now! Free money! Limited time offer! Act now!" b').result =
          .ok res' → res.combinedProb ≤ res'.combinedProb := by
  obtain ⟨rf, h⟩ := @newReservoirFilter_ok
    { defaultFilterConfig with
      enableReservoir := true, enableAffective := true,
      esnParams := { defaultESNParams with reservoirSize := 30 } }
    (by decide) (by norm_num [defaultESNParams]) (by norm_num [defaultESNParams])
    (by norm_num [defaultESNParams]) (by norm_num [defaultESNParams]) ⟨fun _ => 0, 0⟩
  have hw : 0 ≤ rf.config.reservoirWeight ∧ rf.config.reservoirWeight ≤ 1 := by
    rw [(newReservoirFilter_wf h).config_eq]; norm_num [defaultFilterConfig]
  exact ⟨rf, h, hw, combinedProb_convex hw _⟩

/-- `NewReservoirFilter` accepts `ReservoirWeight = 3`. On the fresh filter the reservoir
probability is at least one half, so the combined probability for a Bayesian probability of 0
exceeds one, and it falls when the Bayesian probability rises to 1. -/
theorem heavy_reservoirWeight_breaks_blend : ∃ rf,
    newReservoirFilter { defaultFilterConfig with enableReservoir := true, reservoirWeight := 3 }
      ⟨fun _ => 0, 0⟩ = .ok rf ∧
    ∃ res res', (rf.classifyMessage "" 0).result = .ok res ∧ (rf.classifyMessage "" 1).result = .ok res' ∧
      1 < res.combinedProb ∧ res'.combinedProb < res.combinedProb := by
  obtain ⟨rf, h⟩ := @newReservoirFilter_ok
    { defaultFilterConfig with enableReservoir := true, reservoirWeight := 3 }
    (by decide) (by norm_num [defaultFilterConfig, defaultESNParams])
    (by norm_num [defaultFilterConfig, defaultESNParams]) (by norm_num [defaultFilterConfig, defaultESNParams])
    (by norm_num [defaultFilterConfig, defaultESNParams]) ⟨fun _ => 0, 0⟩
  have hwf := newReservoirFilter_wf h
  obtain ⟨aa, ha⟩ := affectiveAnalysis_frame rf ""
  obtain ⟨R, objs, hr, -, hx⟩ := reservoirAnalysis_ok (hwf.affectiveAnalysis "") ""
  obtain ⟨e', -, hRx⟩ := hx (by rw [ha, hwf.config_eq])
    (by rw [ha]; exact (newReservoirFilter_esn h rfl : rf.esn ≠ none))
  have hR : 1 / 2 ≤ R := hRx ▸ half_le_sigmoid (div_nonneg (sumSquares_nonneg _) (Nat.cast_nonneg _))
  -- both calls combine the same reservoir probability with the Bayesian one
  have hcomb : ∀ b res, (rf.classifyMessage "" b).result = .ok res → res.combinedProb = -2 * b + 3 * R :=
    fun b res hres => by
      obtain ⟨objs', hr', hb, -, hc⟩ := classifyMessage_eq_ok hres
      rw [hr] at hr'
      have hRr : res.reservoirProb = R := (Prod.mk.inj (GoResult.ok.inj hr')).1.symm
      rw [hc, combinePredictions_reservoir_only (by rw [hwf.config_eq]) (by rw [hwf.config_eq]; rfl)
        (by rw [hRr]; linarith), hb, hRr, hwf.config_eq]
      show (1 - 3) * b + 3 * R = -2 * b + 3 * R
      ring
  obtain ⟨res, hres, -⟩ := hwf.classifyMessage "" 0
  obtain ⟨res', hres', -⟩ := hwf.classifyMessage "" 1
  have h0 := hcomb 0 res hres
  have h1 := hcomb 1 res' hres'
  refine ⟨rf, h, res, res', hres, hres', ?_, ?_⟩
  · rw [h0]; linarith
  · rw [h0, h1]; linarith

end Reservoir.ReservoirFilter
