import Reservoir.Affective.Agent

/-! # Spam probability and emotional evidence

`GetSpamProbability` grows with disgust, anger and uncertainty and falls with interest and
valence. `SpamLe s t` says that `t` is at least as spam-like as `s` in the fields that feed
these. Each stage of `updateState` keeps it when the targets are ordered the same way: the
momentum step, `computePADDimensions` (through `tanh`), `updateCognitiveDimensions` and
`clampState`. So from one state, a text with more negative keywords and fewer positive ones
never gets a lower spam probability from `ProcessMessage`.
-/

namespace Reservoir.AffectiveAgent

theorem tanh_le_tanh {x y : ℝ} (h : x ≤ y) : Real.tanh x ≤ Real.tanh y := by
  rw [Real.tanh_eq_sinh_div_cosh, Real.tanh_eq_sinh_div_cosh,
    div_le_div_iff₀ (Real.cosh_pos x) (Real.cosh_pos y)]
  have hs := Real.sinh_nonpos_iff.mpr (sub_nonpos.mpr h)
  rw [Real.sinh_sub] at hs
  linarith

theorem clamp_le_clamp {v w min max : ℝ} (hm : min ≤ max) (h : v ≤ w) :
    clamp v min max ≤ clamp w min max := by
  unfold clamp
  split_ifs <;> linarith

/-- The momentum step of `updateState` is monotone in the old value and in the target. -/
theorem momentum_le {x x' e e' : ℝ} (hx : x ≤ x') (he : e ≤ e') :
    (1 - 0.1) * x + 0.1 * e ≤ (1 - 0.1) * x' + 0.1 * e' :=
  add_le_add (mul_le_mul_of_nonneg_left hx (by norm_num)) (mul_le_mul_of_nonneg_left he (by norm_num))

/-- `t` is at least as spam-like as `s`: no more joy or interest, no less of the negative
emotions, no higher valence and no less uncertainty. -/
structure SpamLe (s t : AffectiveState) : Prop where
  joy : t.joy ≤ s.joy
  interest : t.interest ≤ s.interest
  sadness : s.sadness ≤ t.sadness
  anger : s.anger ≤ t.anger
  fear : s.fear ≤ t.fear
  disgust : s.disgust ≤ t.disgust
  surprise : s.surprise ≤ t.surprise
  valence : t.valence ≤ s.valence
  uncertainty : s.uncertainty ≤ t.uncertainty

theorem SpamLe.refl (s : AffectiveState) : SpamLe s s :=
  ⟨le_rfl, le_rfl, le_rfl, le_rfl, le_rfl, le_rfl, le_rfl, le_rfl, le_rfl⟩

/-- Targets ordered the same way as `SpamLe`. -/
structure EmotionsLe (e f : Emotions) : Prop where
  joy : f.joy ≤ e.joy
  interest : f.interest ≤ e.interest
  sadness : e.sadness ≤ f.sadness
  anger : e.anger ≤ f.anger
  fear : e.fear ≤ f.fear
  disgust : e.disgust ≤ f.disgust
  surprise : e.surprise ≤ f.surprise

section Stages

variable {aa bb : AffectiveAgent}

theorem SpamLe.computePADDimensions (h : SpamLe aa.currentState bb.currentState) :
    SpamLe aa.computePADDimensions.currentState bb.computePADDimensions.currentState :=
  { h with
    valence := tanh_le_tanh (by linarith [h.joy, h.interest, h.sadness, h.anger, h.fear, h.disgust]) }

theorem SpamLe.updateCognitiveDimensions (h : SpamLe aa.currentState bb.currentState) :
    SpamLe aa.updateCognitiveDimensions.currentState bb.updateCognitiveDimensions.currentState :=
  { h with
    uncertainty := by dsimp only [AffectiveAgent.updateCognitiveDimensions]; linarith [h.surprise, h.fear] }

theorem SpamLe.clampState (h : SpamLe aa.currentState bb.currentState) :
    SpamLe aa.clampState.currentState bb.clampState.currentState :=
  ⟨clamp_le_clamp zero_le_one h.joy, clamp_le_clamp zero_le_one h.interest,
    clamp_le_clamp zero_le_one h.sadness, clamp_le_clamp zero_le_one h.anger,
    clamp_le_clamp zero_le_one h.fear, clamp_le_clamp zero_le_one h.disgust,
    clamp_le_clamp zero_le_one h.surprise, clamp_le_clamp (by norm_num) h.valence,
    clamp_le_clamp zero_le_one h.uncertainty⟩

theorem SpamLe.updateState (h : SpamLe aa.currentState bb.currentState) {e f : Emotions}
    (he : EmotionsLe e f) : SpamLe (aa.updateState e).currentState (bb.updateState f).currentState :=
  SpamLe.clampState <| SpamLe.updateCognitiveDimensions <| SpamLe.computePADDimensions
    ⟨momentum_le h.joy he.joy, momentum_le h.interest he.interest, momentum_le h.sadness he.sadness,
      momentum_le h.anger he.anger, momentum_le h.fear he.fear, momentum_le h.disgust he.disgust,
      momentum_le h.surprise he.surprise, h.valence, h.uncertainty⟩

/-- The valence term of `GetSpamProbability` falls as the valence rises. -/
theorem valenceTerm_le {S S' V V' : ℝ} (hS : S ≤ S') (hV : V' ≤ V) :
    (if V < 0 then S + |V| * 0.3 else S) ≤ (if V' < 0 then S' + |V'| * 0.3 else S') := by
  split_ifs with h1 h2 h2
  · rw [abs_of_neg h1, abs_of_neg h2]; linarith
  · linarith
  · linarith [abs_nonneg V']
  · exact hS

theorem getSpamProbability_le (h : SpamLe aa.currentState bb.currentState) :
    aa.getSpamProbability ≤ bb.getSpamProbability :=
  max_le_max le_rfl <| min_le_min le_rfl <| tanh_le_tanh <| valenceTerm_le
    (by linarith [h.disgust, h.anger, h.interest, h.uncertainty]) h.valence

end Stages

/-- Keyword counts ordered as in `SpamLe` give targets ordered the same way. -/
theorem analyzeEmotionalContent_le {c1 c2 : String}
    (hspam : countKeywords (toLower c1) spamWords ≤ countKeywords (toLower c2) spamWords)
    (hdisgust : countKeywords (toLower c1) disgustWords ≤ countKeywords (toLower c2) disgustWords)
    (hanger : countKeywords (toLower c1) angerWords ≤ countKeywords (toLower c2) angerWords)
    (hfear : countKeywords (toLower c1) fearWords ≤ countKeywords (toLower c2) fearWords)
    (hsadness : countKeywords (toLower c1) sadnessWords ≤ countKeywords (toLower c2) sadnessWords)
    (hsurprise : countKeywords (toLower c1) surpriseWords ≤ countKeywords (toLower c2) surpriseWords)
    (hjoy : countKeywords (toLower c2) joyWords ≤ countKeywords (toLower c1) joyWords)
    (hinterest : countKeywords (toLower c2) interestWords ≤ countKeywords (toLower c1) interestWords) :
    EmotionsLe (analyzeEmotionalContent c1) (analyzeEmotionalContent c2) := by
  have scale : ∀ {a b : ℝ} (c : ℝ), a ≤ b → 0 ≤ c → a * c ≤ b * c :=
    fun _ h hc => mul_le_mul_of_nonneg_right h hc
  exact ⟨scale _ hjoy (by norm_num), scale _ hinterest (by norm_num), scale _ hsadness (by norm_num),
    add_le_add (scale _ hanger (by norm_num)) (scale _ (scale _ hspam (by norm_num)) (by norm_num)),
    scale _ hfear (by norm_num), add_le_add (scale _ hdisgust (by norm_num)) (scale _ hspam (by norm_num)),
    scale _ hsurprise (by norm_num)⟩

/-- From any agent state, a text with at least as many spam, disgust, anger, fear, sadness
and surprise keywords and at most as many joy and interest keywords as another gets at least
its spam probability from `ProcessMessage`. -/
theorem spamProbability_monotone_in_evidence (aa : AffectiveAgent) (c1 c2 : String)
    (hspam : countKeywords (toLower c1) spamWords ≤ countKeywords (toLower c2) spamWords)
    (hdisgust : countKeywords (toLower c1) disgustWords ≤ countKeywords (toLower c2) disgustWords)
    (hanger : countKeywords (toLower c1) angerWords ≤ countKeywords (toLower c2) angerWords)
    (hfear : countKeywords (toLower c1) fearWords ≤ countKeywords (toLower c2) fearWords)
    (hsadness : countKeywords (toLower c1) sadnessWords ≤ countKeywords (toLower c2) sadnessWords)
    (hsurprise : countKeywords (toLower c1) surpriseWords ≤ countKeywords (toLower c2) surpriseWords)
    (hjoy : countKeywords (toLower c2) joyWords ≤ countKeywords (toLower c1) joyWords)
    (hinterest : countKeywords (toLower c2) interestWords ≤ countKeywords (toLower c1) interestWords) :
    (aa.processMessage c1).2.getSpamProbability ≤ (aa.processMessage c2).2.getSpamProbability :=
  getSpamProbability_le ((SpamLe.refl aa.currentState).updateState
    (analyzeEmotionalContent_le hspam hdisgust hanger hfear hsadness hsurprise hjoy hinterest) :)

theorem spamProbability_monotone_in_evidence_great_free :
    countKeywords (toLower "Great") spamWords ≤
        countKeywords (toLower "Free") spamWords ∧
      countKeywords (toLower "Great") disgustWords ≤
        countKeywords (toLower "Free") disgustWords ∧
      countKeywords (toLower "Great") angerWords ≤
        countKeywords (toLower "Free") angerWords ∧
      countKeywords (toLower "Great") fearWords ≤
        countKeywords (toLower "Free") fearWords ∧
      countKeywords (toLower "Great") sadnessWords ≤
        countKeywords (toLower "Free") sadnessWords ∧
      countKeywords (toLower "Great") surpriseWords ≤
        countKeywords (toLower "Free") surpriseWords ∧
      countKeywords (toLower "Free") joyWords ≤
        countKeywords (toLower "Great") joyWords ∧
      countKeywords (toLower "Free") interestWords ≤
        countKeywords (toLower "Great") interestWords ∧
      ((newAffectiveAgent defaultPersonaTrait).processMessage "Great").2.getSpamProbability ≤
        ((newAffectiveAgent defaultPersonaTrait).processMessage "Free").2.getSpamProbability := by
  have h1 := countKeywords_toLower_le "Great" "Free" spamWords (by decide)
  have h2 := countKeywords_toLower_le "Great" "Free" disgustWords (by decide)
  have h3 := countKeywords_toLower_le "Great" "Free" angerWords (by decide)
  have h4 := countKeywords_toLower_le "Great" "Free" fearWords (by decide)
  have h5 := countKeywords_toLower_le "Great" "Free" sadnessWords (by decide)
  have h6 := countKeywords_toLower_le "Great" "Free" surpriseWords (by decide)
  have h7 := countKeywords_toLower_le "Free" "Great" joyWords (by decide)
  have h8 := countKeywords_toLower_le "Free" "Great" interestWords (by decide)
  exact ⟨h1, h2, h3, h4, h5, h6, h7, h8,
    spamProbability_monotone_in_evidence _ _ _ h1 h2 h3 h4 h5 h6 h7 h8⟩

end Reservoir.AffectiveAgent
