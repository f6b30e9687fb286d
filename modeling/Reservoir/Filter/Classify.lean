import Reservoir.Esn.InputWidth
import Reservoir.Affective.Agent

/-! # `ClassifyMessage`

A `ReservoirFilter` holds its configuration and, as the configuration enables them, an ESN
with a membrane system and an affective agent. `ClassifyMessage` runs the affective block,
then the reservoir block (an ESN update on ten features of the text, the membrane pass and
the reservoir probability), and combines the three probabilities with the Bayesian one. The
message enters as the text `extractTextContent` returns for it.

On every filter that `NewReservoirFilter` builds, whatever the earlier calls, the network is
well formed, never trained and fed ten features, so `ClassifyMessage` always returns.

Of the ten features, the three ratios divide counts of characters by the byte length, which is
at least the number of characters; upper-case letters and digits are disjoint, and so are the
three special characters. Each keyword feature counts a group of three keywords.
-/

namespace Reservoir

structure FilterConfig where
  esnParams : ESNParams
  persona : PersonaTrait
  enableReservoir : Bool
  enableAffective : Bool
  reservoirWeight : ℝ
  membraneDepth : ℤ

def defaultFilterConfig : FilterConfig :=
  ⟨defaultESNParams, defaultPersonaTrait, false, false, 0.3, 3⟩

/-- `ReservoirFilter` without its logger; a nil pointer is `none`. -/
structure ReservoirFilter where
  config : FilterConfig
  esn : Option ESN
  affectiveAgent : Option AffectiveAgent
  membraneSystem : Option MembraneSystem
  messagesProcessed : ℤ
  reservoirEnabled : Bool

structure ClassifyResult where
  bayesianProb : ℝ
  reservoirProb : ℝ
  affectiveProb : ℝ
  combinedProb : ℝ
  affectiveState : Option AffectiveState
  membraneObjects : List Object

/-- `NewReservoirFilter`; `rng` is the generator `NewESN` seeds. -/
noncomputable def newReservoirFilter (config : FilterConfig) (rng : Rand) : GoResult ReservoirFilter :=
  let affectiveAgent := if config.enableAffective then some (newAffectiveAgent config.persona) else none
  if config.enableReservoir then
    match newESN config.esnParams config.persona rng with
    | .ok esn => .ok ⟨config, some esn, affectiveAgent, some (newMembraneSystem config.membraneDepth), 0,
        config.enableReservoir⟩
    | .error err => .error ("creating ESN: " ++ err)
    | .panic => .panic
  else .ok ⟨config, none, affectiveAgent, none, 0, config.enableReservoir⟩

namespace ReservoirFilter

/-- `sigmoid` over the reals, where it stays below one; in float64 it rounds to `1.0` from an
argument of about 37 on. -/
noncomputable def sigmoid (x : ℝ) : ℝ := 1.0 / (1.0 + Real.exp (-x))

/-- The keyword groups of features 4 to 9. -/
def spamKeywords : List (List String) :=
  [["free", "buy", "click"], ["urgent", "act now", "limited"], ["winner", "prize", "congratulations"],
    ["viagra", "pharmacy", "pills"], ["loan", "credit", "debt"], ["make money", "work from home", "earn"]]

/-- `extractFeatures`. `len(content)` counts UTF-8 bytes and the rune loops count characters;
`strings.Count` of a one-byte string counts that character, and each keyword group is counted
by the loop of `countKeywords`. -/
noncomputable def extractFeatures (content : String) : List ℝ :=
  let lower := toLower content
  let len : ℝ := content.utf8ByteSize
  let upperCount := (content.data.filter fun r => r ≥ 'A' ∧ r ≤ 'Z').length
  let digitCount := (content.data.filter fun r => r ≥ '0' ∧ r ≤ '9').length
  let specialCount := content.data.count '!' + content.data.count '$' + content.data.count '%'
  [min (len / 1000.0) 1.0,
    if content.utf8ByteSize > 0 then upperCount / len else 0,
    if content.utf8ByteSize > 0 then digitCount / len else 0,
    if content.utf8ByteSize > 0 then specialCount / len * 10.0 else 0] ++
    spamKeywords.map (AffectiveAgent.countKeywords lower)

@[simp] theorem length_extractFeatures (content : String) : (extractFeatures content).length = 10 := rfl

/-- The affective block of `ClassifyMessage`: the state `ProcessMessage` returns with the
agent's spam probability, or `none` where the block is skipped, and the filter it leaves. -/
noncomputable def affectiveAnalysis (rf : ReservoirFilter) (content : String) :
    Option (AffectiveState × ℝ) × ReservoirFilter :=
  match rf.config.enableAffective, rf.affectiveAgent with
  | true, some aa =>
    let (state, aa) := aa.processMessage content
    (some (state, aa.getSpamProbability), { rf with affectiveAgent := some aa })
  | _, _ => (none, rf)

/-- The membrane part of the reservoir block: `processMembraneSystem`, whose error is only
logged, then `CollectResults`. -/
noncomputable def membranePass (rf : ReservoirFilter) (content : String) :
    List Object × ReservoirFilter :=
  match rf.membraneSystem with
  | some ms =>
    match classifyMembranes ms content with
    | .ok (ms', objs) => (objs, { rf with membraneSystem := some ms' })
    | .error _ => (ms.collectResults, rf)
  | none => ([], rf)

/-- The reservoir probability for the network `Update` left, `none` if `Predict` panics: for
a trained network `sigmoid` of the first prediction (zero when `Predict` returns an error or
no output), otherwise `sigmoid` of the mean squared state `GetState` returns. -/
noncomputable def reservoirProb (esn : ESN) : Option ℝ :=
  if esn.trained then
    match esn.predict.result with
    | .ok (prediction :: _) => some (sigmoid prediction)
    | .ok [] => some 0
    | .error _ => some 0
    | .panic => none
  else
    let state := esn.state
    let activation := state.foldl (fun activation s => activation + s * s) 0
    some (sigmoid (activation / state.length))

/-- The reservoir block of `ClassifyMessage`: `ReservoirProb` and `MembraneObjects`, which
keep their zero values where the block or the membrane pass is skipped. -/
noncomputable def reservoirAnalysis (rf : ReservoirFilter) (content : String) :
    GoResult (ℝ × List Object) × ReservoirFilter :=
  match rf.config.enableReservoir, rf.esn with
  | true, some esn =>
    let out := esn.update (extractFeatures content)
    let rf := { rf with esn := some out.esn }
    match out.result with
    | .error err => (.error ("updating ESN: " ++ err), rf)
    | .panic => (.panic, rf)
    | .ok _ =>
      let (membraneObjects, rf) := rf.membranePass content
      match reservoirProb out.esn with
      | some p => (.ok (p, membraneObjects), rf)
      | none => (.panic, rf)
  | _, _ => (.ok (0, []), rf)

noncomputable def combinePredictions (rf : ReservoirFilter) (result : ClassifyResult) : ℝ :=
  let combined := result.bayesianProb
  let combined :=
    if rf.config.enableReservoir ∧ result.reservoirProb > 0 then
      let w := rf.config.reservoirWeight
      (1 - w) * result.bayesianProb + w * result.reservoirProb
    else combined
  if rf.config.enableAffective ∧ result.affectiveProb > 0 then 0.8 * combined + 0.2 * result.affectiveProb
  else combined

/-- How a `ClassifyMessage` call ends, and the filter as it leaves it. -/
structure Classified where
  result : GoResult ClassifyResult
  filter : ReservoirFilter

/-- `ClassifyMessage` on the text of the message. -/
noncomputable def classifyMessage (rf : ReservoirFilter) (content : String) (bayesianProb : ℝ) :
    Classified :=
  let (affect, rf) := rf.affectiveAnalysis content
  match rf.reservoirAnalysis content with
  | (.ok (reservoirProb, membraneObjects), rf) =>
    let result : ClassifyResult := ⟨bayesianProb, reservoirProb, (affect.map Prod.snd).getD 0,
      bayesianProb, affect.map Prod.fst, membraneObjects⟩
    ⟨.ok { result with combinedProb := rf.combinePredictions result },
      { rf with messagesProcessed := rf.messagesProcessed + 1 }⟩
  | (.error err, rf) => ⟨.error err, rf⟩
  | (.panic, rf) => ⟨.panic, rf⟩

/-- The map `GetStats` returns, a key to a field; a key it leaves out is `none`. -/
structure FilterStats where
  messagesProcessed : ℤ
  reservoirEnabled : Bool
  esnTrained : Option Bool
  reservoirSize : Option ℤ
  membraneDepth : Option ℤ
  membraneSteps : Option ℕ

def getStats (rf : ReservoirFilter) : FilterStats :=
  ⟨rf.messagesProcessed, rf.reservoirEnabled, rf.esn.map (·.trained),
    rf.esn.map fun _ => rf.config.esnParams.reservoirSize, rf.membraneSystem.map fun _ => rf.config.membraneDepth,
    rf.membraneSystem.map (·.stepCount)⟩

/-- The filters a caller reaches from `NewReservoirFilter config` by `n` calls of
`ClassifyMessage`; a call that fails leaves the filter as it was then. -/
inductive Reached (config : FilterConfig) : ℕ → ReservoirFilter → Prop
  | init {rng : Rand} {rf : ReservoirFilter} : newReservoirFilter config rng = .ok rf → Reached config 0 rf
  | classify {n : ℕ} {rf : ReservoirFilter} (content : String) (bayesianProb : ℝ) :
      Reached config n rf → Reached config (n + 1) (rf.classifyMessage content bayesianProb).filter

/-- What every filter reached from `NewReservoirFilter config` keeps: its configuration, a
network reached from `NewESN` with the configured parameters and persona that is never trained
and whose input rows are ten wide, and a membrane system of the configured depth. -/
structure Wf (config : FilterConfig) (rf : ReservoirFilter) : Prop where
  config_eq : rf.config = config
  network : ∀ esn, rf.esn = some esn →
    ESN.Reachable (fun _ => True) esn ∧ esn.params = config.esnParams ∧ esn.persona = config.persona ∧
      esn.trained = false ∧ ∀ row ∈ esn.inputWeights, row.length = 10
  membranes : ∀ ms, rf.membraneSystem = some ms → Reachable config.membraneDepth ms

theorem newReservoirFilter_wf {config : FilterConfig} {rng : Rand} {rf : ReservoirFilter}
    (h : newReservoirFilter config rng = .ok rf) : Wf config rf := by
  unfold newReservoirFilter at h
  dsimp only at h
  by_cases hr : config.enableReservoir = true
  · rw [if_pos hr] at h
    split at h
    · rename_i esn hesn
      cases h
      obtain ⟨-, -, -, -, -, hp, hq, -, hi, -, ht, -⟩ := ESN.newESN_spec hesn
      refine ⟨rfl, fun e he => ?_, fun ms hm => by cases hm; exact .init⟩
      cases he
      exact ⟨.init hesn, hp, hq, ht, by simp [hi]⟩
    · cases h
    · cases h
  · rw [if_neg hr] at h
    cases h
    exact ⟨rfl, fun _ h => (nomatch h), fun _ h => (nomatch h)⟩

/-- For parameters `NewESN` accepts, `NewReservoirFilter` returns a filter. -/
theorem newReservoirFilter_ok {config : FilterConfig} (h1 : 0 < config.esnParams.reservoirSize)
    (h2 : 0 < config.esnParams.spectralRadius) (h3 : config.esnParams.spectralRadius < 1)
    (h4 : 0 < config.esnParams.leakRate) (h5 : config.esnParams.leakRate ≤ 1) (rng : Rand) :
    ∃ rf, newReservoirFilter config rng = .ok rf := by
  obtain ⟨esn, hesn⟩ := ESN.newESN_ok h1 h2 h3 h4 h5 config.persona rng
  unfold newReservoirFilter
  dsimp only
  by_cases hr : config.enableReservoir = true
  · rw [if_pos hr, hesn]; exact ⟨_, rfl⟩
  · rw [if_neg hr]; exact ⟨_, rfl⟩

theorem newReservoirFilter_esn {config : FilterConfig} {rng : Rand} {rf : ReservoirFilter}
    (h : newReservoirFilter config rng = .ok rf) (hr : config.enableReservoir = true) :
    rf.esn ≠ none := by
  unfold newReservoirFilter at h
  dsimp only at h
  rw [if_pos hr] at h
  split at h
  · cases h; exact Option.some_ne_none _
  · cases h
  · cases h

/-- `NewReservoirFilter` never panics, and it returns a filter exactly when the reservoir is
off or `NewESN` accepts the parameters. -/
theorem newReservoirFilter_never_panics (config : FilterConfig) (rng : Rand) :
    newReservoirFilter config rng ≠ .panic ∧
      ((∃ rf, newReservoirFilter config rng = .ok rf) ↔ (config.enableReservoir = true →
        0 < config.esnParams.reservoirSize ∧ 0 < config.esnParams.spectralRadius ∧
          config.esnParams.spectralRadius < 1 ∧ 0 < config.esnParams.leakRate ∧
          config.esnParams.leakRate ≤ 1)) := by
  unfold newReservoirFilter
  dsimp only
  cases config.enableReservoir
  · exact ⟨nofun, iff_of_true ⟨_, rfl⟩ nofun⟩
  · rw [if_pos rfl]
    split
    · next esn hE =>
      obtain ⟨h1, h2, h3, h4, h5, -⟩ := ESN.newESN_spec hE
      exact ⟨nofun, iff_of_true ⟨_, rfl⟩ fun _ => ⟨h1, h2, h3, h4, h5⟩⟩
    · next err hE =>
      refine ⟨nofun, iff_of_false (fun ⟨_, h⟩ => nomatch h) fun h => ?_⟩
      obtain ⟨h1, h2, h3, h4, h5⟩ := h rfl
      obtain ⟨esn, he⟩ := ESN.newESN_ok h1 h2 h3 h4 h5 config.persona rng
      rw [he] at hE; cases hE
    · next hE => exact absurd hE (ESN.newESN_ne_panic _ _ _)

theorem affectiveAnalysis_frame (rf : ReservoirFilter) (content : String) :
    ∃ aa, (rf.affectiveAnalysis content).2 = { rf with affectiveAgent := aa } := by
  unfold affectiveAnalysis; split <;> exact ⟨_, rfl⟩

theorem Wf.affectiveAnalysis {config : FilterConfig} {rf : ReservoirFilter} (h : Wf config rf)
    (content : String) : Wf config (rf.affectiveAnalysis content).2 := by
  obtain ⟨aa, he⟩ := affectiveAnalysis_frame rf content
  rw [he]
  exact ⟨h.config_eq, h.network, h.membranes⟩

theorem Wf.membranePass {config : FilterConfig} {rf : ReservoirFilter} (h : Wf config rf)
    (content : String) : Wf config (rf.membranePass content).2 := by
  unfold ReservoirFilter.membranePass
  split
  · rename_i ms hms
    obtain ⟨ms', hc, -⟩ := classifyMembranes_inv (h.membranes ms hms).inv content
    rw [hc]
    exact ⟨h.config_eq, h.network, fun m hm => by cases hm; exact .classify (h.membranes ms hms) hc⟩
  · exact h

theorem membranePass_frame (rf : ReservoirFilter) (content : String) :
    ∃ ms, (rf.membranePass content).2 = { rf with membraneSystem := ms } := by
  unfold membranePass
  split
  · split <;> exact ⟨_, rfl⟩
  · exact ⟨_, rfl⟩

/-- The reservoir block writes only the network and the membrane system. -/
theorem reservoirAnalysis_frame (rf : ReservoirFilter) (content : String) :
    ∃ e ms, (rf.reservoirAnalysis content).2 = { rf with esn := e, membraneSystem := ms } := by
  unfold reservoirAnalysis
  split
  · dsimp only
    split
    · exact ⟨_, _, rfl⟩
    · exact ⟨_, _, rfl⟩
    · obtain ⟨ms, hms⟩ := membranePass_frame { rf with esn := some (ESN.update _ _).esn } content
      revert hms
      generalize ReservoirFilter.membranePass _ content = p
      obtain ⟨objs, rf'⟩ := p
      rintro rfl
      split <;> exact ⟨_, _, rfl⟩
  · exact ⟨_, _, rfl⟩

theorem reservoirProb_untrained {esn : ESN} (h : esn.trained = false) :
    reservoirProb esn =
      some (sigmoid (esn.state.foldl (fun activation s => activation + s * s) 0 / esn.state.length)) := by
  simp [reservoirProb, h]

theorem sumSquares_nonneg (l : List ℝ) : 0 ≤ l.foldl (fun activation s => activation + s * s) 0 :=
  List.foldlRecOn (motive := (0 ≤ ·)) _ _ _ le_rfl fun _ ha s _ => add_nonneg ha (mul_self_nonneg s)

/-- On a well-formed filter the reservoir block returns, and where it runs its probability
is `sigmoid` of the mean square of the state of the network it leaves. -/
theorem reservoirAnalysis_ok {config : FilterConfig} {rf : ReservoirFilter} (h : Wf config rf)
    (content : String) : ∃ R objs, (rf.reservoirAnalysis content).1 = .ok (R, objs) ∧
      Wf config (rf.reservoirAnalysis content).2 ∧
      (rf.config.enableReservoir = true → rf.esn ≠ none → ∃ e', (rf.reservoirAnalysis content).2.esn = some e' ∧
        R = sigmoid (e'.state.foldl (fun activation s => activation + s * s) 0 / e'.state.length)) := by
  unfold reservoirAnalysis
  split
  · rename_i esn _ hesn
    obtain ⟨hR, hp, hq, ht, hrows⟩ := h.network esn hesn
    obtain ⟨e', he', hfr, -, hrows'⟩ := @ESN.update_ok esn hR.wf (extractFeatures content)
      fun row hr => by rw [hrows row hr, length_extractFeatures]
    obtain ⟨iw, st, r, hwr⟩ := ESN.update_writes esn (extractFeatures content)
    rw [he'] at hwr ⊢
    have hRe : ESN.Reachable (fun _ => True) e' := by
      simpa only [ESN.exec, he'] using @ESN.Reachable.step (fun _ => True) esn (.update (extractFeatures content)) hR trivial
    have hte : e'.trained = false := by rw [show e' = _ from hwr]; exact ht
    have hf : Wf config { rf with esn := some e' } := ⟨h.config_eq, fun e he => by
      cases he; exact ⟨hRe, hfr.params.trans hp, hfr.persona.trans hq, hte,
        fun row hr => by rw [hrows' row hr, length_extractFeatures]⟩, h.membranes⟩
    dsimp only
    rw [reservoirProb_untrained hte]
    obtain ⟨ms, hms⟩ := membranePass_frame { rf with esn := some e' } content
    exact ⟨_, _, rfl, hf.membranePass content, fun _ _ => ⟨e', by rw [hms], rfl⟩⟩
  · rename_i hne
    refine ⟨0, [], rfl, h, fun he hn => ?_⟩
    obtain ⟨esn, hesn⟩ := Option.ne_none_iff_exists'.mp hn
    exact absurd (hne esn he hesn) not_false

theorem Wf.classifyMessage {config : FilterConfig} {rf : ReservoirFilter} (h : Wf config rf)
    (content : String) (bayesianProb : ℝ) :
    ∃ res, (rf.classifyMessage content bayesianProb).result = .ok res ∧
      Wf config (rf.classifyMessage content bayesianProb).filter := by
  obtain ⟨R, objs, hr, hw, -⟩ := reservoirAnalysis_ok (h.affectiveAnalysis content) content
  unfold ReservoirFilter.classifyMessage
  dsimp only
  rw [show (rf.affectiveAnalysis content).2.reservoirAnalysis content = (.ok (R, objs), _) from
    Prod.ext hr rfl]
  exact ⟨_, rfl, hw.config_eq, hw.network, hw.membranes⟩

theorem Reached.wf {config : FilterConfig} {n : ℕ} {rf : ReservoirFilter} (h : Reached config n rf) :
    Wf config rf := by
  induction h with
  | init h => exact newReservoirFilter_wf h
  | classify content bayesianProb _ ih => exact (ih.classifyMessage content bayesianProb).choose_spec.2

theorem length_le_utf8Len : ∀ cs : List Char, cs.length ≤ String.utf8Len cs
  | [] => le_rfl
  | c :: cs => by
    have := length_le_utf8Len cs
    have := c.utf8Size_pos
    rw [String.utf8Len_cons, List.length_cons]; omega

theorem length_le_utf8ByteSize (s : String) : s.data.length ≤ s.utf8ByteSize := by
  cases s; exact length_le_utf8Len _

theorem countP_add_add_le {α : Type} {p q r : α → Bool} (hpq : ∀ a, p a → q a → False)
    (hpr : ∀ a, p a → r a → False) (hqr : ∀ a, q a → r a → False) :
    ∀ l : List α, l.countP p + l.countP q + l.countP r ≤ l.length
  | [] => le_rfl
  | a :: l => by
    have := countP_add_add_le hpq hpr hqr l
    have h := And.intro (hpq a) (And.intro (hpr a) (hqr a))
    simp only [List.countP_cons, List.length_cons]
    revert h
    cases p a <;> cases q a <;> cases r a <;> simp <;> omega

theorem upper_add_digit_le (s : String) :
    (s.data.filter fun r => r ≥ 'A' ∧ r ≤ 'Z').length + (s.data.filter fun r => r ≥ '0' ∧ r ≤ '9').length ≤
      s.utf8ByteSize := by
  rw [← List.countP_eq_length_filter, ← List.countP_eq_length_filter]
  have h := countP_add_add_le (p := fun r => r ≥ 'A' ∧ r ≤ 'Z') (q := fun r => r ≥ '0' ∧ r ≤ '9')
    (r := fun _ => false) (fun a h1 h2 => by
      simp only [decide_eq_true_eq] at h1 h2
      exact absurd (UInt32.le_trans h1.1 h2.2) (by decide))
    (fun _ _ h => Bool.false_ne_true h) (fun _ _ h => Bool.false_ne_true h) s.data
  exact (Nat.le_add_right _ _).trans (h.trans (length_le_utf8ByteSize s))

theorem special_le (s : String) :
    s.data.count '!' + s.data.count '$' + s.data.count '%' ≤ s.utf8ByteSize := by
  refine le_trans (countP_add_add_le ?_ ?_ ?_ s.data) (length_le_utf8ByteSize s) <;>
  · intro a h1 h2
    rw [beq_iff_eq] at h1 h2
    exact absurd (h1.symm.trans h2) (by decide)

theorem countKeywords_spamKeywords (lower : String) :
    ∀ k ∈ spamKeywords.map (AffectiveAgent.countKeywords lower), ∃ c : ℕ, c ≤ 3 ∧ k = c := by
  simp only [List.mem_map, forall_exists_index, and_imp]
  rintro _ g hg rfl
  have h3 : g.length = 3 := by
    simp only [spamKeywords, List.mem_cons, List.mem_nil_iff, or_false] at hg
    rcases hg with rfl | rfl | rfl | rfl | rfl | rfl <;> rfl
  exact ⟨_, h3 ▸ List.length_filter_le _ _, AffectiveAgent.countKeywords_eq _ _⟩

/-- Every text gives a length feature in [0, 1], upper-case and digit ratios that sum to at
most 1, a special-character feature in [0, 10] and six keyword counts of at most 3. -/
theorem extractFeatures_ranges (content : String) :
    ∃ a u d x ks, extractFeatures content = [a, u, d, x] ++ ks ∧ a ∈ Set.Icc 0 1 ∧ 0 ≤ u ∧ 0 ≤ d ∧
      u + d ≤ 1 ∧ x ∈ Set.Icc 0 10 ∧ ks.length = 6 ∧ ∀ k ∈ ks, ∃ c : ℕ, c ≤ 3 ∧ k = (c : ℝ) := by
  refine ⟨_, _, _, _, _, rfl, ⟨by positivity, (min_le_right _ _).trans (by norm_num)⟩, ?_, ?_, ?_,
    ⟨?_, ?_⟩, rfl, countKeywords_spamKeywords _⟩
  all_goals dsimp only; split_ifs with h
  any_goals positivity
  · rw [← add_div, div_le_one (by exact_mod_cast h)]
    exact_mod_cast upper_add_digit_le content
  · norm_num
  · have hs : ((content.data.count '!' + content.data.count '$' + content.data.count '%' : ℕ) : ℝ) ≤
        content.utf8ByteSize := by exact_mod_cast special_le content
    rw [div_mul_eq_mul_div, div_le_iff₀ (by exact_mod_cast h)]
    push_cast at hs ⊢
    norm_num
    linarith

end ReservoirFilter

end Reservoir
