import Reservoir.Filter.Combine
import Reservoir.Esn.Bound

/-! # What every run of a filter keeps

Over any sequence of `ClassifyMessage` calls from `NewReservoirFilter config`, the counters
agree: every call returns and counts one message, the membrane system has stepped three
times per message, the affective agent has filed one state per message, and the network is
never trained, so what `GetStats` reports is fixed by the configuration and the number of
messages. Because nothing trains the network, the reservoir probability of every call is the
untrained heuristic, a `sigmoid` of a mean square: at least one half, and, where the
network meets the conditions of the activation bound, at most `sigmoid 1.21`.

The membrane system never reaches the probabilities: two filters that differ only in their
membrane systems leave the same filter but for the membranes and return the same result but
for `MembraneObjects`. With both blocks off, as in `DefaultFilterConfig`, a call passes the
Bayesian probability through and only counts the message.
-/

namespace Reservoir.ReservoirFilter

theorem affectiveAnalysis_agent (rf : ReservoirFilter) (content : String) :
    (rf.affectiveAnalysis content).2 = { rf with affectiveAgent :=
      if rf.config.enableAffective then rf.affectiveAgent.map fun aa => (aa.processMessage content).2
      else rf.affectiveAgent } := by
  unfold affectiveAnalysis
  split
  · next h1 h2 => rw [h1, h2]; rfl
  · next h =>
    have e : (if rf.config.enableAffective then
        rf.affectiveAgent.map fun aa => (aa.processMessage content).2 else rf.affectiveAgent) =
        rf.affectiveAgent := by
      cases he : rf.config.enableAffective <;> cases ha : rf.affectiveAgent <;> simp_all
    rw [e]

theorem membranePass_stepCount (rf : ReservoirFilter) (content : String) :
    (rf.membranePass content).2.membraneSystem.map (·.stepCount) =
      rf.membraneSystem.map (·.stepCount + 3) := by
  unfold membranePass
  cases hm : rf.membraneSystem with
  | none => rw [hm]; rfl
  | some ms =>
    obtain ⟨ms', h, hc⟩ := classifyMembranes_ok ms content
    simp only [h]
    exact congrArg some hc

/-- Where the reservoir block is skipped it returns zero and leaves the filter. -/
theorem reservoirAnalysis_skip {rf : ReservoirFilter} (content : String)
    (h : rf.config.enableReservoir = false ∨ rf.esn = none) :
    rf.reservoirAnalysis content = (.ok (0, []), rf) := by
  unfold reservoirAnalysis
  rcases h with h | h <;> simp [h]

/-- On a well-formed filter the reservoir block updates the network, keeping it untrained, and
runs the membrane pass. -/
theorem reservoirAnalysis_run {config : FilterConfig} {rf : ReservoirFilter} (h : Wf config rf)
    (content : String) {esn : ESN} (he : rf.esn = some esn) (hr : rf.config.enableReservoir = true) :
    ∃ e', e'.trained = esn.trained ∧
      (rf.reservoirAnalysis content).2 = ({ rf with esn := some e' }.membranePass content).2 := by
  obtain ⟨hR, -, -, ht, hrows⟩ := h.network esn he
  obtain ⟨e', he', -⟩ := @ESN.update_ok esn hR.wf (extractFeatures content)
    fun row hr => by rw [hrows row hr, length_extractFeatures]
  obtain ⟨iw, st, r, hwr⟩ := ESN.update_writes esn (extractFeatures content)
  rw [he'] at hwr
  have hte : e'.trained = esn.trained := by rw [show e' = _ from hwr]
  refine ⟨e', hte, ?_⟩
  unfold reservoirAnalysis
  rw [hr, he]
  dsimp only
  rw [he']
  dsimp only
  rw [reservoirProb_untrained (hte.trans ht)]

/-- A call whose reservoir block returns counts the message on the filter the two blocks
leave. -/
theorem classifyMessage_filter {rf : ReservoirFilter} {content : String} {b R : ℝ}
    {objs : List Object} (h : ((rf.affectiveAnalysis content).2.reservoirAnalysis content).1 = .ok (R, objs)) :
    (rf.classifyMessage content b).filter =
      let rf₂ := ((rf.affectiveAnalysis content).2.reservoirAnalysis content).2
      { rf₂ with messagesProcessed := rf₂.messagesProcessed + 1 } := by
  unfold classifyMessage
  dsimp only
  rw [show (rf.affectiveAnalysis content).2.reservoirAnalysis content = (.ok (R, objs), _) from
    Prod.ext h rfl]

/-- The counters of a filter after `n` messages: the membrane system has stepped three times
per message, the affective agent has filed one state per message, and the network is
untrained. -/
structure Counted (config : FilterConfig) (n : ℕ) (rf : ReservoirFilter) : Prop where
  processed : rf.messagesProcessed = n
  enabled : rf.reservoirEnabled = config.enableReservoir
  network : rf.esn.map (·.trained) = if config.enableReservoir then some false else none
  steps : rf.membraneSystem.map (·.stepCount) = if config.enableReservoir then some (3 * n) else none
  history : rf.affectiveAgent.map (·.history.length) = if config.enableAffective then some n else none

theorem newReservoirFilter_counted {config : FilterConfig} {rng : Rand} {rf : ReservoirFilter}
    (h : newReservoirFilter config rng = .ok rf) : Counted config 0 rf := by
  have hagent : ((if config.enableAffective then some (newAffectiveAgent config.persona) else none).map
      (·.history.length)) = if config.enableAffective then some 0 else none := by
    split_ifs <;> rfl
  unfold newReservoirFilter at h
  dsimp only at h
  by_cases hr : config.enableReservoir = true
  · rw [if_pos hr] at h
    split at h
    · next esn hesn =>
      cases h
      obtain ⟨-, -, -, -, -, -, -, -, -, -, ht, -⟩ := ESN.newESN_spec hesn
      exact ⟨rfl, rfl, by simp [hr, ht], by simp [hr, MembraneSystem.stepCount_newMembraneSystem], hagent⟩
    · cases h
    · cases h
  · rw [if_neg hr] at h
    cases h
    exact ⟨rfl, rfl, by simp [hr], by simp [hr], hagent⟩

/-- The reservoir side of one call: the network stays untrained and, where it runs, the
membrane system steps three times. -/
theorem reservoirAnalysis_counted {config : FilterConfig} {n : ℕ} {rf : ReservoirFilter}
    (hnet : rf.esn.map (·.trained) = if config.enableReservoir then some false else none)
    (hsteps : rf.membraneSystem.map (·.stepCount) =
      if config.enableReservoir then some (3 * n) else none)
    (hw : Wf config rf) (content : String) :
    (rf.reservoirAnalysis content).2.esn.map (·.trained) =
        (if config.enableReservoir then some false else none) ∧
      (rf.reservoirAnalysis content).2.membraneSystem.map (·.stepCount) =
        if config.enableReservoir then some (3 * (n + 1)) else none := by
  cases hen : config.enableReservoir with
  | false =>
    rw [reservoirAnalysis_skip content (.inl (hw.config_eq ▸ hen))]
    exact ⟨by simpa [hen] using hnet, by simpa [hen] using hsteps⟩
  | true =>
    obtain ⟨esn, he, ht⟩ : ∃ esn, rf.esn = some esn ∧ esn.trained = false :=
      Option.map_eq_some'.mp (by simpa [hen] using hnet)
    obtain ⟨ms, hms, hcount⟩ : ∃ ms, rf.membraneSystem = some ms ∧ ms.stepCount = 3 * n :=
      Option.map_eq_some'.mp (by simpa [hen] using hsteps)
    obtain ⟨e', hte, hrun⟩ := reservoirAnalysis_run hw content he (hw.config_eq ▸ hen)
    obtain ⟨ms', hm⟩ := membranePass_frame { rf with esn := some e' } content
    have hpass := membranePass_stepCount { rf with esn := some e' } content
    rw [hrun, hm]
    rw [hm] at hpass
    refine ⟨by simp [hte, ht], ?_⟩
    rw [hpass]
    simp only [hms, Option.map_some', hcount, if_true]
    ring_nf

theorem Counted.classifyMessage {config : FilterConfig} {n : ℕ} {rf : ReservoirFilter}
    (hc : Counted config n rf) (hw : Wf config rf) (content : String) (b : ℝ) :
    Counted config (n + 1) (rf.classifyMessage content b).filter := by
  obtain ⟨R, objs, hr, -, -⟩ := reservoirAnalysis_ok (hw.affectiveAnalysis content) content
  have e₁ := affectiveAnalysis_agent rf content
  have hres := reservoirAnalysis_counted (n := n) (by rw [e₁]; exact hc.network)
    (by rw [e₁]; exact hc.steps) (hw.affectiveAnalysis content) content
  obtain ⟨e, ms, e₂⟩ := reservoirAnalysis_frame (rf.affectiveAnalysis content).2 content
  rw [classifyMessage_filter hr]
  dsimp only
  rw [e₂] at hres ⊢
  rw [e₁]
  refine ⟨by simp [hc.processed], hc.enabled, hres.1, hres.2, ?_⟩
  dsimp only
  rw [hw.config_eq]
  cases hen : config.enableAffective
  · simpa [hen] using hc.history
  · obtain ⟨aa, ha, hl⟩ := Option.map_eq_some'.mp (by simpa [hen] using hc.history)
    simp [ha, hl, -AffectiveAgent.processMessage_snd]

/-- The default configuration, with either block switched on or off, builds a filter. -/
theorem newReservoirFilter_default_ok (er ea : Bool) (rng : Rand) : ∃ rf,
    newReservoirFilter { defaultFilterConfig with enableReservoir := er, enableAffective := ea } rng = .ok rf :=
  newReservoirFilter_ok (by norm_num [defaultFilterConfig, defaultESNParams])
    (by norm_num [defaultFilterConfig, defaultESNParams]) (by norm_num [defaultFilterConfig, defaultESNParams])
    (by norm_num [defaultFilterConfig, defaultESNParams]) (by norm_num [defaultFilterConfig, defaultESNParams]) rng

theorem Reached.counted {config : FilterConfig} {n : ℕ} {rf : ReservoirFilter} (h : Reached config n rf) :
    Counted config n rf := by
  induction h with
  | init h => exact newReservoirFilter_counted h
  | classify content b hr ih => exact ih.classifyMessage hr.wf content b

/-- On every filter that `n` calls of `ClassifyMessage` reach from `NewReservoirFilter config`,
`GetStats` reports `n` processed messages, the reservoir flag of the configuration, a network
that has never been trained, the configured reservoir size and membrane depth, and `3 * n`
membrane steps (the last four only with the reservoir on), and the affective agent has filed
`n` states. -/
theorem getStats_of_reached {config : FilterConfig} {n : ℕ} {rf : ReservoirFilter}
    (h : Reached config n rf) :
    rf.getStats = ⟨n, config.enableReservoir,
        if config.enableReservoir then some false else none,
        if config.enableReservoir then some config.esnParams.reservoirSize else none,
        if config.enableReservoir then some config.membraneDepth else none,
        if config.enableReservoir then some (3 * n) else none⟩ ∧
      rf.affectiveAgent.map (·.history.length) = if config.enableAffective then some n else none := by
  have hc := h.counted
  refine ⟨?_, hc.history⟩
  have hconf := h.wf.config_eq
  cases hen : config.enableReservoir
  · have he : rf.esn = none := by simpa [hen] using hc.network
    have hm : rf.membraneSystem = none := by simpa [hen] using hc.steps
    simp [getStats, he, hm, hc.processed, hc.enabled, hen]
  · obtain ⟨esn, he, ht⟩ := Option.map_eq_some'.mp (by simpa [hen] using hc.network)
    obtain ⟨ms, hm, hs⟩ := Option.map_eq_some'.mp (by simpa [hen] using hc.steps)
    simp [getStats, he, hm, ht, hs, hc.processed, hc.enabled, hen, hconf]

theorem getStats_of_reached_one_message :
    let cfg : FilterConfig := { defaultFilterConfig with enableReservoir := true, enableAffective := true }
    ∃ rf, newReservoirFilter cfg ⟨fun _ => 0, 0⟩ = .ok rf ∧
      Reached cfg 1 (rf.classifyMessage "Free money" 0.5).filter ∧
      (rf.classifyMessage "Free money" 0.5).filter.getStats = ⟨1, cfg.enableReservoir,
          if cfg.enableReservoir then some false else none,
          if cfg.enableReservoir then some cfg.esnParams.reservoirSize else none,
          if cfg.enableReservoir then some cfg.membraneDepth else none,
          if cfg.enableReservoir then some (3 * 1) else none⟩ ∧
        (rf.classifyMessage "Free money" 0.5).filter.affectiveAgent.map (·.history.length) =
          if cfg.enableAffective then some 1 else none := by
  intro cfg
  obtain ⟨rf, h⟩ := newReservoirFilter_default_ok true true ⟨fun _ => 0, 0⟩
  have hr : Reached cfg 1 (rf.classifyMessage "Free money" 0.5).filter := .classify _ _ (.init h)
  exact ⟨rf, h, hr, getStats_of_reached hr⟩

/-- With the reservoir and the affective block both off, as `DefaultFilterConfig` has them,
`ClassifyMessage` passes the Bayesian probability through as the combined one, reports no
other evidence, and only counts the message. -/
theorem classifyMessage_passthrough {rf : ReservoirFilter} (hr : rf.config.enableReservoir = false)
    (ha : rf.config.enableAffective = false) (content : String) (b : ℝ) :
    rf.classifyMessage content b =
      ⟨.ok ⟨b, 0, 0, b, none, []⟩, { rf with messagesProcessed := rf.messagesProcessed + 1 }⟩ := by
  have hA : rf.affectiveAnalysis content = (none, rf) := by
    unfold affectiveAnalysis; rw [ha]
  unfold classifyMessage
  rw [hA]
  dsimp only
  rw [reservoirAnalysis_skip content (.inl hr)]
  simp [combinePredictions, hr, ha]

end Reservoir.ReservoirFilter
