import Reservoir.Affective.Agent

/-! # The affective agent over runs

The public methods that write an `AffectiveAgent` are `ProcessMessage` and
`ApplyRicciFlowToEmotion`. Both end in `clampState`, so every state they leave lies in the
ranges the field comments of `AffectiveState` give, and `ProcessMessage` files the state it
replaces in the history, which only ever grows. From a persona in those ranges, every state
and every history entry of every run stays in them, and messages without any keyword make each
primary emotion fade by the factor 0.9 per message. On such a state a flow with `0 ≤ dt ≤ 10`
never reaches the clamp: it is the affine contraction of the seven primary emotions toward
their mean by the factor `1 - dt / 10`, which keeps their sum and leaves every other value
alone. On every reachable agent the arousal factor of `GetEngagementScore` is positive, so
more interest or attention never lowers the score.
-/

namespace Reservoir.AffectiveAgent

/-- The public methods that write the agent. -/
inductive Op where
  | processMessage (content : String)
  | applyRicciFlowToEmotion (dt : ℝ)

noncomputable def exec (aa : AffectiveAgent) : Op → AffectiveAgent
  | .processMessage content => (aa.processMessage content).2
  | .applyRicciFlowToEmotion dt => aa.applyRicciFlowToEmotion dt

/-- The agents a caller reaches from `NewAffectiveAgent persona`. -/
inductive Reachable (persona : PersonaTrait) : AffectiveAgent → Prop
  | init : Reachable persona (newAffectiveAgent persona)
  | exec {aa : AffectiveAgent} (op : Op) : Reachable persona aa → Reachable persona (aa.exec op)

/-- Every value of the state in the range `clampState` gives it. -/
structure InRange (s : AffectiveState) : Prop where
  joy : s.joy ∈ Set.Icc 0 1
  sadness : s.sadness ∈ Set.Icc 0 1
  anger : s.anger ∈ Set.Icc 0 1
  fear : s.fear ∈ Set.Icc 0 1
  disgust : s.disgust ∈ Set.Icc 0 1
  interest : s.interest ∈ Set.Icc 0 1
  surprise : s.surprise ∈ Set.Icc 0 1
  valence : s.valence ∈ Set.Icc (-1) 1
  arousal : s.arousal ∈ Set.Icc 0 1
  dominance : s.dominance ∈ Set.Icc 0 1
  attention : s.attention ∈ Set.Icc 0 1
  complexity : s.complexity ∈ Set.Icc 0 1
  uncertainty : s.uncertainty ∈ Set.Icc 0 1

/-- The persona values `NewAffectiveAgent` copies into the state, in their ranges. -/
structure PersonaInRange (persona : PersonaTrait) : Prop where
  valence : persona.valence ∈ Set.Icc (-1) 1
  arousal : persona.arousal ∈ Set.Icc 0 1
  dominance : persona.dominance ∈ Set.Icc 0 1
  attention : persona.attention ∈ Set.Icc 0 1

theorem personaInRange_default : PersonaInRange defaultPersonaTrait := by
  constructor <;> norm_num [defaultPersonaTrait]

theorem clamp_mem {v lo hi : ℝ} (h : lo ≤ hi) : clamp v lo hi ∈ Set.Icc lo hi := by
  unfold clamp
  split_ifs with h1 h2
  · exact ⟨le_rfl, h⟩
  · exact ⟨h, le_rfl⟩
  · exact ⟨not_lt.mp h1, not_lt.mp h2⟩

theorem clamp_of_mem {v lo hi : ℝ} (h : v ∈ Set.Icc lo hi) : clamp v lo hi = v := by
  unfold clamp
  rw [if_neg (not_lt.mpr h.1), if_neg (not_lt.mpr h.2)]

theorem inRange_clampState (aa : AffectiveAgent) : InRange aa.clampState.currentState :=
  ⟨clamp_mem zero_le_one, clamp_mem zero_le_one, clamp_mem zero_le_one, clamp_mem zero_le_one,
    clamp_mem zero_le_one, clamp_mem zero_le_one, clamp_mem zero_le_one, clamp_mem (by norm_num),
    clamp_mem zero_le_one, clamp_mem zero_le_one, clamp_mem zero_le_one, clamp_mem zero_le_one,
    clamp_mem zero_le_one⟩

/-- On a state in range the clamp changes nothing. -/
theorem clampState_of_inRange {aa : AffectiveAgent} (h : InRange aa.currentState) :
    aa.clampState = aa := by
  simp only [clampState, clamp_of_mem h.joy, clamp_of_mem h.sadness, clamp_of_mem h.anger,
    clamp_of_mem h.fear, clamp_of_mem h.disgust, clamp_of_mem h.interest, clamp_of_mem h.surprise,
    clamp_of_mem h.valence, clamp_of_mem h.arousal, clamp_of_mem h.dominance,
    clamp_of_mem h.attention, clamp_of_mem h.complexity, clamp_of_mem h.uncertainty]

@[simp] theorem exec_history_processMessage (aa : AffectiveAgent) (content : String) :
    (aa.exec (.processMessage content)).history = aa.history ++ [aa.currentState] := rfl

@[simp] theorem exec_history_applyRicciFlowToEmotion (aa : AffectiveAgent) (dt : ℝ) :
    (aa.exec (.applyRicciFlowToEmotion dt)).history = aa.history := rfl

/-- Both methods end in `clampState`. -/
theorem inRange_exec (aa : AffectiveAgent) : ∀ op, InRange (aa.exec op).currentState
  | .processMessage _ => inRange_clampState _
  | .applyRicciFlowToEmotion _ => inRange_clampState _

theorem inRange_newAffectiveAgent {persona : PersonaTrait} (hp : PersonaInRange persona) :
    InRange (newAffectiveAgent persona).currentState := by
  have h0 : (0.0 : ℝ) ∈ Set.Icc 0 1 := by norm_num
  have h5 : (0.5 : ℝ) ∈ Set.Icc 0 1 := by norm_num
  exact ⟨h5, h0, h0, h0, h0, h5, h0, hp.valence, hp.arousal, hp.dominance, hp.attention, h5,
    by norm_num [newAffectiveAgent, defaultAffectiveState]⟩

/-- What every run keeps: the state and every filed state in range. -/
structure Inv (aa : AffectiveAgent) : Prop where
  current : InRange aa.currentState
  history : ∀ s ∈ aa.history, InRange s

theorem Inv.exec {aa : AffectiveAgent} (h : Inv aa) (op : Op) : Inv (aa.exec op) := by
  refine ⟨inRange_exec aa op, fun s hs => ?_⟩
  cases op with
  | processMessage content =>
    rw [exec_history_processMessage, List.mem_append, List.mem_singleton] at hs
    rcases hs with hs | rfl
    · exact h.history s hs
    · exact h.current
  | applyRicciFlowToEmotion dt => exact h.history s hs

theorem Reachable.inv {persona : PersonaTrait} (hp : PersonaInRange persona) {aa : AffectiveAgent}
    (h : Reachable persona aa) : Inv aa := by
  induction h with
  | init => exact ⟨inRange_newAffectiveAgent hp, fun _ h => (List.not_mem_nil _ h).elim⟩
  | exec op _ ih => exact ih.exec op

/-- From a persona in range, every state of every run and every state it files in the history
lies in the ranges of `AffectiveState`. -/
theorem reachable_stays_in_range {persona : PersonaTrait} (hp : PersonaInRange persona)
    {aa : AffectiveAgent} (h : Reachable persona aa) :
    InRange aa.currentState ∧ ∀ s ∈ aa.history, InRange s :=
  ⟨(h.inv hp).current, (h.inv hp).history⟩

/-- Whether a method files the state it replaces in the history. -/
def Op.files : Op → Bool
  | .processMessage _ => true
  | .applyRicciFlowToEmotion _ => false

/-- The history only grows: every sequence of calls keeps the states filed before it, in
order, and files one more state per `ProcessMessage`. -/
theorem history_append_only (ops : List Op) (aa : AffectiveAgent) :
    ∃ filed, (ops.foldl exec aa).history = aa.history ++ filed ∧ filed.length = ops.countP Op.files := by
  induction ops generalizing aa with
  | nil => exact ⟨[], (List.append_nil _).symm, rfl⟩
  | cons op ops ih =>
    obtain ⟨filed, h, hl⟩ := ih (aa.exec op)
    rw [List.foldl_cons, h, List.countP_cons]
    cases op with
    | processMessage content =>
      exact ⟨aa.currentState :: filed, by simp, by simp [hl, Op.files]⟩
    | applyRicciFlowToEmotion dt => exact ⟨filed, rfl, by simp [hl, Op.files]⟩

/-- A message without any keyword moves every primary emotion a tenth of the way to zero: on
a state in range the clamp never binds. -/
theorem processMessage_neutral {aa : AffectiveAgent} (h : InRange aa.currentState) {content : String}
    (h0 : analyzeEmotionalContent content = ⟨0, 0, 0, 0, 0, 0, 0⟩) :
    primaryEmotions (aa.processMessage content).2.currentState =
      (primaryEmotions aa.currentState).map (· * 0.9) := by
  have key : ∀ e ∈ Set.Icc (0 : ℝ) 1, clamp ((1 - 0.1) * e + 0.1 * 0) 0 1 = e * 0.9 := fun e he => by
    rw [clamp_of_mem ⟨by linarith only [he.1], by linarith only [he.2]⟩]; ring
  simp only [processMessage, updateState, h0, computePADDimensions, updateCognitiveDimensions,
    clampState, primaryEmotions, List.map_cons, List.map_nil, key _ h.joy, key _ h.sadness,
    key _ h.anger, key _ h.fear, key _ h.disgust, key _ h.interest, key _ h.surprise]

/-- From a persona in range, every run that continues with `k` messages without any keyword
leaves each primary emotion at `0.9 ^ k` times its value: the agent forgets geometrically. -/
theorem neutral_messages_decay {persona : PersonaTrait} (hp : PersonaInRange persona)
    {aa : AffectiveAgent} (h : Reachable persona aa) {content : String}
    (h0 : analyzeEmotionalContent content = ⟨0, 0, 0, 0, 0, 0, 0⟩) (k : ℕ) :
    primaryEmotions ((exec · (.processMessage content))^[k] aa).currentState =
      (primaryEmotions aa.currentState).map (· * 0.9 ^ k) := by
  induction k generalizing aa with
  | zero => simp
  | succ k ih =>
    rw [Function.iterate_succ_apply, ih (.exec _ h),
      show (aa.exec (.processMessage content)) = (aa.processMessage content).2 from rfl,
      processMessage_neutral (h.inv hp).current h0, List.map_map]
    congr 1; funext e; simp only [Function.comp]; ring

theorem neutral_messages_decay_default :
    PersonaInRange defaultPersonaTrait ∧ analyzeEmotionalContent "" = ⟨0, 0, 0, 0, 0, 0, 0⟩ ∧
      primaryEmotions ((exec · (.processMessage ""))^[2] (newAffectiveAgent defaultPersonaTrait)).currentState =
        (primaryEmotions (newAffectiveAgent defaultPersonaTrait).currentState).map (· * 0.9 ^ 2) := by
  have h0 : analyzeEmotionalContent "" = ⟨0, 0, 0, 0, 0, 0, 0⟩ := by
    have e : ∀ ws ∈ [joyWords, sadnessWords, angerWords, fearWords, disgustWords, interestWords,
        surpriseWords, spamWords], ws.filter (ReservoirFilter.contains ⟨[]⟩) = [] := by decide
    simp [analyzeEmotionalContent, countKeywords_toLower, e]
  exact ⟨personaInRange_default, h0, neutral_messages_decay personaInRange_default .init h0 2⟩

theorem flow_mem {e m f : ℝ} (he : e ∈ Set.Icc 0 1) (hm : m ∈ Set.Icc 0 1) (hf : f ∈ Set.Icc 0 1) :
    e + f * (m - e) ∈ Set.Icc 0 1 := by
  have h : e + f * (m - e) = (1 - f) * e + f * m := by ring
  rw [h]
  constructor
  · exact add_nonneg (mul_nonneg (by linarith [hf.2]) he.1) (mul_nonneg hf.1 hm.1)
  · nlinarith [hf.1, hf.2, he.2, hm.2]

/-- On a state in range, `ApplyRicciFlowToEmotion` with `0 ≤ dt ≤ 10` moves each primary
emotion `e` to `mean + (1 - dt / 10) * (e - mean)` and changes nothing else: the clamp never
binds. -/
theorem applyRicciFlowToEmotion_eq {aa : AffectiveAgent} (h : InRange aa.currentState) {dt : ℝ}
    (h0 : 0 ≤ dt) (h1 : dt ≤ 10) :
    let s := aa.currentState
    let m := (primaryEmotions s).sum / 7
    aa.applyRicciFlowToEmotion dt = { aa with currentState := { s with
      joy := m + (1 - dt / 10) * (s.joy - m),
      sadness := m + (1 - dt / 10) * (s.sadness - m),
      anger := m + (1 - dt / 10) * (s.anger - m),
      fear := m + (1 - dt / 10) * (s.fear - m),
      disgust := m + (1 - dt / 10) * (s.disgust - m),
      interest := m + (1 - dt / 10) * (s.interest - m),
      surprise := m + (1 - dt / 10) * (s.surprise - m) } } := by
  intro s m
  have hmean : (primaryEmotions s).foldl (· + ·) (0 : ℝ) / ((primaryEmotions s).length : ℝ) = m := by
    simp only [m, primaryEmotions, List.foldl_cons, List.foldl_nil, List.sum_cons, List.sum_nil,
      List.length_cons, List.length_nil]
    push_cast; ring
  have hm : m ∈ Set.Icc 0 1 := by
    simp only [m, primaryEmotions, List.sum_cons, List.sum_nil]
    constructor <;> linarith [h.joy.1, h.joy.2, h.sadness.1, h.sadness.2, h.anger.1, h.anger.2,
      h.fear.1, h.fear.2, h.disgust.1, h.disgust.2, h.interest.1, h.interest.2, h.surprise.1,
      h.surprise.2]
  have hf : dt * 0.1 ∈ Set.Icc 0 1 := ⟨by linarith, by linarith⟩
  unfold applyRicciFlowToEmotion
  dsimp only
  rw [hmean]
  refine Eq.trans (clampState_of_inRange ⟨flow_mem h.joy hm hf, flow_mem h.sadness hm hf,
    flow_mem h.anger hm hf, flow_mem h.fear hm hf, flow_mem h.disgust hm hf,
    flow_mem h.interest hm hf, flow_mem h.surprise hm hf, h.valence, h.arousal, h.dominance,
    h.attention, h.complexity, h.uncertainty⟩) ?_
  congr 2 <;> ring

/-- On every agent a run reaches from a persona in range, `ApplyRicciFlowToEmotion` with
`0 ≤ dt ≤ 10` is the contraction of the seven primary emotions toward their mean by the factor
`1 - dt / 10`, leaves every other value alone, and keeps the sum of the primary emotions. -/
theorem ricciFlow_contracts_to_mean {persona : PersonaTrait} (hp : PersonaInRange persona)
    {aa : AffectiveAgent} (h : Reachable persona aa) {dt : ℝ} (h0 : 0 ≤ dt) (h1 : dt ≤ 10) :
    let s := aa.currentState
    let m := (primaryEmotions s).sum / 7
    aa.applyRicciFlowToEmotion dt = { aa with currentState := { s with
      joy := m + (1 - dt / 10) * (s.joy - m),
      sadness := m + (1 - dt / 10) * (s.sadness - m),
      anger := m + (1 - dt / 10) * (s.anger - m),
      fear := m + (1 - dt / 10) * (s.fear - m),
      disgust := m + (1 - dt / 10) * (s.disgust - m),
      interest := m + (1 - dt / 10) * (s.interest - m),
      surprise := m + (1 - dt / 10) * (s.surprise - m) } } ∧
    (primaryEmotions (aa.applyRicciFlowToEmotion dt).currentState).sum = (primaryEmotions s).sum := by
  intro s m
  have e := applyRicciFlowToEmotion_eq (h.inv hp).current h0 h1
  refine ⟨e, ?_⟩
  rw [e]
  simp only [m, primaryEmotions, List.sum_cons, List.sum_nil]
  ring

theorem ricciFlow_contracts_to_mean_default :
    PersonaInRange defaultPersonaTrait ∧ (0 : ℝ) ≤ 5 ∧ (5 : ℝ) ≤ 10 ∧
      let aa := newAffectiveAgent defaultPersonaTrait
      let s := aa.currentState
      let m := (primaryEmotions s).sum / 7
      aa.applyRicciFlowToEmotion 5 = { aa with currentState := { s with
        joy := m + (1 - 5 / 10) * (s.joy - m),
        sadness := m + (1 - 5 / 10) * (s.sadness - m),
        anger := m + (1 - 5 / 10) * (s.anger - m),
        fear := m + (1 - 5 / 10) * (s.fear - m),
        disgust := m + (1 - 5 / 10) * (s.disgust - m),
        interest := m + (1 - 5 / 10) * (s.interest - m),
        surprise := m + (1 - 5 / 10) * (s.surprise - m) } } ∧
      (primaryEmotions (aa.applyRicciFlowToEmotion 5).currentState).sum = (primaryEmotions s).sum :=
  ⟨personaInRange_default, by norm_num, by norm_num,
    ricciFlow_contracts_to_mean personaInRange_default .init (by norm_num) (by norm_num)⟩

/-- On every agent a run reaches from a persona in range, more interest or attention never
lowers `GetEngagementScore`: the arousal factor stays in [0.4, 1], so it never turns the
order of the raw engagement around. -/
theorem getEngagementScore_mono {persona : PersonaTrait} (hp : PersonaInRange persona)
    {aa aa' : AffectiveAgent} (h : Reachable persona aa)
    (hi : aa.currentState.interest ≤ aa'.currentState.interest)
    (ha : aa.currentState.attention ≤ aa'.currentState.attention)
    (hv : aa'.currentState.valence = aa.currentState.valence)
    (hr : aa'.currentState.arousal = aa.currentState.arousal) :
    aa.getEngagementScore ≤ aa'.getEngagementScore := by
  have har := (h.inv hp).current.arousal
  have hf : 0 ≤ 1.0 - |aa.currentState.arousal - 0.6| := by
    have : |aa.currentState.arousal - 0.6| ≤ 1 := abs_le.mpr ⟨by linarith only [har.1], by linarith only [har.2]⟩
    linarith only [this]
  unfold getEngagementScore
  dsimp only
  rw [hv, hr]
  refine max_le_max le_rfl (min_le_min le_rfl (mul_le_mul_of_nonneg_right ?_ hf))
  split_ifs <;> linarith only [hi, ha]

theorem getEngagementScore_mono_default :
    PersonaInRange defaultPersonaTrait ∧
      let aa := newAffectiveAgent defaultPersonaTrait
      aa.getEngagementScore ≤ { aa with currentState := { aa.currentState with interest := 1 } }.getEngagementScore :=
  ⟨personaInRange_default, getEngagementScore_mono personaInRange_default .init
    (inRange_newAffectiveAgent personaInRange_default).interest.2 le_rfl rfl rfl⟩

end Reservoir.AffectiveAgent
