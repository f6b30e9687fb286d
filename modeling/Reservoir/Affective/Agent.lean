import Reservoir.Esn.Basic
import Reservoir.Filter.Signals

/-! # The affective agent

`AffectiveAgent` keeps an emotional state that each message moves. Keyword counts on the
lowered text give a target for each primary emotion, and the state moves a tenth of the way
to it; the PAD and cognitive dimensions are then recomputed from the primary emotions, and
every value is clamped to its range. `GetSpamProbability` reads disgust, anger, interest,
uncertainty and a negative valence, through `tanh` and a clamp to `[0, 1]`. The map that
`analyzeEmotionalContent` returns sets exactly seven keys, so it is a record here.
-/

namespace Reservoir

structure AffectiveState where
  joy : ℝ
  sadness : ℝ
  anger : ℝ
  fear : ℝ
  disgust : ℝ
  interest : ℝ
  surprise : ℝ
  valence : ℝ
  arousal : ℝ
  dominance : ℝ
  attention : ℝ
  complexity : ℝ
  uncertainty : ℝ

def defaultAffectiveState : AffectiveState :=
  ⟨0.5, 0.0, 0.0, 0.0, 0.0, 0.5, 0.0, 0.0, 0.5, 0.5, 0.7, 0.5, 0.3⟩

structure AffectiveAgent where
  persona : PersonaTrait
  currentState : AffectiveState
  history : List AffectiveState

def newAffectiveAgent (persona : PersonaTrait) : AffectiveAgent :=
  ⟨persona, { defaultAffectiveState with valence := persona.valence, arousal := persona.arousal,
                                         dominance := persona.dominance,
                                         attention := persona.attention }, []⟩

/-- The keys `analyzeEmotionalContent` sets. -/
structure Emotions where
  joy : ℝ
  sadness : ℝ
  anger : ℝ
  fear : ℝ
  disgust : ℝ
  interest : ℝ
  surprise : ℝ

namespace AffectiveAgent

open ReservoirFilter (contains)

def joyWords : List String :=
  ["happy", "joy", "great", "excellent", "wonderful", "love", "pleased", "delighted"]

def sadnessWords : List String :=
  ["sad", "unhappy", "disappointed", "unfortunate", "regret", "sorry"]

def angerWords : List String :=
  ["angry", "furious", "outraged", "mad", "annoyed", "frustrated", "hate"]

def fearWords : List String :=
  ["afraid", "scared", "worried", "anxious", "nervous", "concerned", "fear"]

def disgustWords : List String :=
  ["disgusting", "revolting", "nasty", "awful", "terrible", "horrible"]

def interestWords : List String :=
  ["interesting", "curious", "wonder", "question", "inquiry", "explore"]

def surpriseWords : List String :=
  ["surprise", "unexpected", "amazing", "astonishing", "shocking", "wow"]

def spamWords : List String :=
  ["click here", "buy now", "free", "urgent", "limited time", "act now", "winner"]

/-- `countKeywords`: how many of the keywords the text contains, counted in a float. -/
def countKeywords (text : String) (keywords : List String) : ℝ :=
  keywords.foldl (fun count keyword => if contains text keyword then count + 1 else count) 0

theorem foldl_countKeywords (text : String) : ∀ (keywords : List String) (a : ℝ),
    keywords.foldl (fun count keyword => if contains text keyword then count + 1 else count) a =
      a + (keywords.filter (contains text)).length
  | [], a => by simp
  | k :: ks, a => by
    rw [List.foldl_cons, foldl_countKeywords text ks, List.filter_cons]
    split <;> simp [add_assoc, add_comm]

/-- The count is the number of keywords the text contains. -/
theorem countKeywords_eq (text : String) (keywords : List String) :
    countKeywords text keywords = ((keywords.filter (contains text)).length : ℝ) := by
  rw [countKeywords, foldl_countKeywords, zero_add]

/-- The count on a lowered text, in a form the kernel evaluates on a literal. -/
theorem countKeywords_toLower (content : String) (keywords : List String) :
    countKeywords (toLower content) keywords =
      ((keywords.filter (contains ⟨content.data.map toLowerRune⟩)).length : ℝ) := by
  rw [countKeywords_eq, toLower_eq]

theorem countKeywords_toLower_le (content content' : String) (keywords : List String)
    (h : (keywords.filter (contains ⟨content.data.map toLowerRune⟩)).length ≤
      (keywords.filter (contains ⟨content'.data.map toLowerRune⟩)).length) :
    countKeywords (toLower content) keywords ≤ countKeywords (toLower content') keywords := by
  rw [countKeywords_toLower, countKeywords_toLower]
  exact_mod_cast h

/-- `analyzeEmotionalContent`; spam keywords add
to disgust and anger. -/
def analyzeEmotionalContent (content : String) : Emotions :=
  let lower := toLower content
  let emotions : Emotions :=
    ⟨countKeywords lower joyWords * 0.1, countKeywords lower sadnessWords * 0.1,
      countKeywords lower angerWords * 0.15, countKeywords lower fearWords * 0.1,
      countKeywords lower disgustWords * 0.15, countKeywords lower interestWords * 0.08,
      countKeywords lower surpriseWords * 0.1⟩
  let spamScore := countKeywords lower spamWords * 0.2
  { emotions with disgust := emotions.disgust + spamScore, anger := emotions.anger + spamScore * 0.5 }

noncomputable def computePADDimensions (aa : AffectiveAgent) : AffectiveAgent :=
  let s := aa.currentState
  let positive := s.joy + s.interest
  let negative := s.sadness + s.anger + s.fear + s.disgust
  { aa with currentState := { s with
      valence := Real.tanh (positive - negative),
      arousal := (s.anger + s.fear + s.surprise + s.interest) / 4.0,
      dominance := (s.anger + s.joy - s.fear - s.sadness) / 4.0 } }

noncomputable def updateCognitiveDimensions (aa : AffectiveAgent) : AffectiveAgent :=
  let s := aa.currentState
  { aa with currentState := { s with
      attention := 0.7 * aa.persona.attention + 0.3 * (s.arousal + s.interest) / 2.0,
      uncertainty := (s.surprise + s.fear) / 2.0 } }

/-- The `clamp` closure of `clampState`. -/
noncomputable def clamp (v min max : ℝ) : ℝ :=
  if v < min then min else if v > max then max else v

noncomputable def clampState (aa : AffectiveAgent) : AffectiveAgent :=
  let s := aa.currentState
  { aa with currentState :=
      ⟨clamp s.joy 0 1, clamp s.sadness 0 1, clamp s.anger 0 1, clamp s.fear 0 1,
        clamp s.disgust 0 1, clamp s.interest 0 1, clamp s.surprise 0 1, clamp s.valence (-1) 1,
        clamp s.arousal 0 1, clamp s.dominance 0 1, clamp s.attention 0 1, clamp s.complexity 0 1,
        clamp s.uncertainty 0 1⟩ }

/-- `updateState`: each primary emotion moves a tenth of the way to its target. -/
noncomputable def updateState (aa : AffectiveAgent) (emotions : Emotions) : AffectiveAgent :=
  let decayRate : ℝ := 0.1
  let s := aa.currentState
  let aa := { aa with currentState := { s with
    joy := (1 - decayRate) * s.joy + decayRate * emotions.joy,
    sadness := (1 - decayRate) * s.sadness + decayRate * emotions.sadness,
    anger := (1 - decayRate) * s.anger + decayRate * emotions.anger,
    fear := (1 - decayRate) * s.fear + decayRate * emotions.fear,
    disgust := (1 - decayRate) * s.disgust + decayRate * emotions.disgust,
    interest := (1 - decayRate) * s.interest + decayRate * emotions.interest,
    surprise := (1 - decayRate) * s.surprise + decayRate * emotions.surprise } }
  aa.computePADDimensions.updateCognitiveDimensions.clampState

/-- `ProcessMessage`: the state it returns and the agent it leaves. -/
noncomputable def processMessage (aa : AffectiveAgent) (content : String) :
    AffectiveState × AffectiveAgent :=
  let aa := { aa with history := aa.history ++ [aa.currentState] }
  let aa := aa.updateState (analyzeEmotionalContent content)
  (aa.currentState, aa)

noncomputable def getSpamProbability (aa : AffectiveAgent) : ℝ :=
  let s := aa.currentState
  let spamSignal := (s.disgust + s.anger) / 2.0
  let spamSignal := spamSignal + (1.0 - s.interest) * 0.3
  let spamSignal := spamSignal + s.uncertainty * 0.2
  let spamSignal := if s.valence < 0 then spamSignal + |s.valence| * 0.3 else spamSignal
  let probability := Real.tanh spamSignal
  max 0 (min 1 probability)

noncomputable def getEngagementScore (aa : AffectiveAgent) : ℝ :=
  let s := aa.currentState
  let engagement := (s.interest + s.attention) / 2.0
  let engagement := if s.valence > 0 then engagement + s.valence * 0.3 else engagement
  let optimalArousal : ℝ := 0.6
  let arousalFactor := 1.0 - |s.arousal - optimalArousal|
  let engagement := engagement * arousalFactor
  max 0 (min 1 engagement)

/-- The slice `emotions` of `ApplyRicciFlowToEmotion`: the seven primary emotions in order. -/
def primaryEmotions (s : AffectiveState) : List ℝ :=
  [s.joy, s.sadness, s.anger, s.fear, s.disgust, s.interest, s.surprise]

/-- `ApplyRicciFlowToEmotion`: each primary emotion moves `dt * 0.1` of the way to the mean of
the seven, and every value is clamped. -/
noncomputable def applyRicciFlowToEmotion (aa : AffectiveAgent) (dt : ℝ) : AffectiveAgent :=
  let s := aa.currentState
  let emotions := primaryEmotions s
  let mean := emotions.foldl (· + ·) (0 : ℝ) / emotions.length
  let flowRate := dt * 0.1
  let aa := { aa with currentState := { s with
    joy := s.joy + flowRate * (mean - s.joy),
    sadness := s.sadness + flowRate * (mean - s.sadness),
    anger := s.anger + flowRate * (mean - s.anger),
    fear := s.fear + flowRate * (mean - s.fear),
    disgust := s.disgust + flowRate * (mean - s.disgust),
    interest := s.interest + flowRate * (mean - s.interest),
    surprise := s.surprise + flowRate * (mean - s.surprise) } }
  aa.clampState

@[simp] theorem processMessage_snd (aa : AffectiveAgent) (content : String) :
    (aa.processMessage content).2 =
      { aa with history := aa.history ++ [aa.currentState] }.updateState
        (analyzeEmotionalContent content) := rfl

@[simp] theorem history_processMessage (aa : AffectiveAgent) (content : String) :
    (aa.processMessage content).2.history = aa.history ++ [aa.currentState] := rfl

/-- The final clamp keeps the spam probability in `[0, 1]`. -/
theorem getSpamProbability_mem (aa : AffectiveAgent) :
    0 ≤ aa.getSpamProbability ∧ aa.getSpamProbability ≤ 1 :=
  ⟨le_max_left _ _, max_le zero_le_one (min_le_left _ _)⟩

end AffectiveAgent

end Reservoir
