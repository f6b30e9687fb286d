import Reservoir.Membrane.Reach
import Reservoir.Membrane.Sort

/-! # The membrane pass of `ClassifyMessage`

`processMembraneSystem` injects a `positive_signal` or a `negative_signal` at the root for
each keyword the lowered text contains, then steps the system three times. Every default rule
needs an object type that no call ever injects (`token` or `emotion_signal`), so no rule fires:
the objects of a filter's membrane system stay signals, and the `MembraneObjects` that
`ClassifyMessage` returns never hold a `spam_score`.
-/

namespace Reservoir

/-- `unicode.ToLower` as far as the ASCII keywords can see it: ASCII upper-case letters, and
the two runes whose lower case is ASCII, `İ` (U+0130, to `i`) and the Kelvin sign (U+212A, to
`k`). Any other rune is kept; Go maps some of them to other non-ASCII runes, which no ASCII
keyword matches either way. -/
def toLowerRune (c : Char) : Char :=
  if c.val = 0x130 then 'i' else if c.val = 0x212A then 'k' else c.toLower

/-- `strings.ToLower`, rune by rune. -/
def toLower (s : String) : String := s.map toLowerRune

theorem toLower_eq (s : String) : toLower s = ⟨s.data.map toLowerRune⟩ := String.map_eq _ _

example : [Char.ofNat 0x212A, 'E', Char.ofNat 0x130].map toLowerRune = ['k', 'e', 'i'] := by decide

end Reservoir

namespace Reservoir.ReservoirFilter

open MembraneSystem

/-- `strings.Contains`. -/
def contains (s substr : String) : Bool := decide (substr.data <:+: s.data)

example : contains "please click here now" "click here" = true := by decide

def positiveKeywords : List String := ["thank", "please", "regards", "sincerely"]

def negativeKeywords : List String := ["click here", "buy now", "free money", "act now"]

def positiveSignal : Object := ⟨"positive_signal", 1.0, 1, 0.7⟩

def negativeSignal : Object := ⟨"negative_signal", 1.5, -1, 0.9⟩

/-- One keyword loop of `processMembraneSystem`: `obj` goes to the root for each keyword the
lowered text contains; an `InjectObject` error is ignored. -/
def injectKeywords (obj : Object) (lower : String) (keywords : List String) (ms : MembraneSystem) :
    MembraneSystem :=
  keywords.foldl (fun ms kw =>
    if contains lower kw then
      match ms.injectObject "root" obj with
      | .ok ms' => ms'
      | .error _ => ms
    else ms) ms

/-- `processMembraneSystem`. -/
noncomputable def processMembraneSystem (ms : MembraneSystem) (content : String) :
    Except String MembraneSystem :=
  runSteps 3 (injectKeywords negativeSignal (toLower content) negativeKeywords
    (injectKeywords positiveSignal (toLower content) positiveKeywords ms))

/-- The membrane part of `ClassifyMessage` after a successful ESN update: the system as the
pass leaves it and the `MembraneObjects` of the result. A `Step` error, which `step_eq` rules
out, would be logged with the system as that step left it; here it is returned. -/
noncomputable def classifyMembranes (ms : MembraneSystem) (content : String) :
    Except String (MembraneSystem × List Object) :=
  (processMembraneSystem ms content).map fun ms => (ms, ms.collectResults)

/-- The membrane systems of a filter built with `EnableReservoir` and `MembraneDepth = depth`,
over any sequence of `ClassifyMessage` calls; a call whose ESN update fails returns before
the membranes, as if it had not been made. -/
inductive Reachable (depth : ℤ) : MembraneSystem → Prop
  | init : Reachable depth (newMembraneSystem depth)
  | classify {ms ms' : MembraneSystem} {content : String} {objs : List Object} :
      Reachable depth ms → classifyMembranes ms content = .ok (ms', objs) → Reachable depth ms'

theorem stepCount_injectKeywords (obj : Object) (lower : String) (keywords : List String)
    (ms : MembraneSystem) : (injectKeywords obj lower keywords ms).stepCount = ms.stepCount :=
  stepCount_foldl _ (fun ms kw => by
    split_ifs
    · split
      · next ms' h => obtain ⟨p, -, -, rfl⟩ := injectObject_eq h; rfl
      · rfl
    · rfl) _ _

/-- The membrane pass always returns, three steps further on. -/
theorem classifyMembranes_ok (ms : MembraneSystem) (content : String) :
    ∃ ms', classifyMembranes ms content = .ok (ms', ms'.collectResults) ∧
      ms'.stepCount = ms.stepCount + 3 := by
  obtain ⟨ms', h, hc⟩ := runSteps_ok 3 (injectKeywords negativeSignal (toLower content) negativeKeywords
    (injectKeywords positiveSignal (toLower content) positiveKeywords ms))
  refine ⟨ms', by rw [classifyMembranes, processMembraneSystem, h]; rfl, ?_⟩
  rw [hc, stepCount_injectKeywords, stepCount_injectKeywords]

/-- The object types `processMembraneSystem` injects. -/
def IsSignal (o : Object) : Prop := o.type = "positive_signal" ∨ o.type = "negative_signal"

/-- The priority sort only exchanges rules. -/
theorem mem_sortRules {rules : List EvolutionRule} {r : EvolutionRule}
    (h : r ∈ Membrane.sortRules rules) : r ∈ rules :=
  (Membrane.sortRules_perm rules).subset h

/-- Each default rule needs a type that is no signal. -/
theorem defaultRule_needs {r : EvolutionRule} (hr : r ∈ createDefaultRules) :
    ∃ t ∈ r.inputTypes, t ≠ "positive_signal" ∧ t ≠ "negative_signal" := by
  simp only [createDefaultRules, List.mem_cons, List.mem_nil_iff, or_false] at hr
  rcases hr with rfl | rfl | rfl <;> exact ⟨_, List.mem_cons_self _ _, by decide, by decide⟩

/-- A membrane with the default rules, or none, and only signals evolves to itself. -/
theorem evolve_signals {m : Membrane} (hr : m.rules = [] ∨ m.rules = createDefaultRules)
    (ho : ∀ o ∈ m.objects, IsSignal o) : m.evolve = m := by
  have hrun : m.evolveRun = (∅, []) := by
    rw [Membrane.evolveRun_eq]
    refine List.foldlRecOn (motive := (· = ((∅ : Finset ℕ), ([] : List Object)))) _ _ _ rfl
      fun acc hacc r hmem => ?_
    subst hacc
    have hd : r ∈ createDefaultRules := by
      have h := mem_sortRules hmem
      rcases hr with e | e <;> rw [e] at h
      · cases h
      · exact h
    obtain ⟨t, ht, hp, hn⟩ := defaultRule_needs hd
    rw [Membrane.referenceStep, if_neg]
    rintro ⟨-, hall⟩
    obtain ⟨i, hi, -, hti⟩ := hall t ht
    rw [List.getD_eq_getElem _ _ hi] at hti
    rcases ho _ (List.getElem_mem hi) with h | h
    · exact hp (hti ▸ h)
    · exact hn (hti ▸ h)
  simp only [Membrane.evolve, hrun, List.append_nil,
    Membrane.pick_of_forall _ fun i => Finset.not_mem_empty i]

/-- Every object of the registered membranes is a signal. -/
def SignalsOnly (ms : MembraneSystem) : Prop := ∀ p ∈ ms.all, ∀ o ∈ (ms.get p).objects, IsSignal o

theorem mem_allObjects {ms : MembraneSystem} {o : Object} :
    o ∈ allObjects ms ↔ ∃ p ∈ ms.all, o ∈ (ms.get p).objects := by
  unfold allObjects
  induction ms.all with
  | nil => simp
  | cons p L ih => simp [ih]

theorem rules_of_reachable {depth : ℤ} {feeds : String → Prop} {ms : MembraneSystem}
    (h : MembraneSystem.Reachable depth feeds ms) {p : ℕ} (hp : p ∈ ms.all) :
    (ms.get p).rules = [] ∨ (ms.get p).rules = createDefaultRules := by
  obtain ⟨-, ha, hr, hf⟩ := h.sameShape
  have ht := (newMembraneSystem_treeShape depth).of_frames hf
  rw [ha] at hp
  by_cases hroot : p = (newMembraneSystem depth).root
  · exact Or.inl (hroot ▸ ht.root_rules)
  · obtain ⟨_, -, -, -, -, hd⟩ := ht.child p hp hroot
    exact Or.inr hd

theorem signalsOnly_step {depth : ℤ} {feeds : String → Prop} {ms ms' : MembraneSystem}
    (h : MembraneSystem.Reachable depth feeds ms) (hs : SignalsOnly ms) (hst : ms.step = .ok ms') :
    SignalsOnly ms' := by
  have hev : ms.evolveAll = ms :=
    List.foldlRecOn (motive := (· = ms)) ms.all _ ms rfl fun _ hb p hp => by
      subst hb
      exact modify_eq_self _ (evolve_signals (rules_of_reachable h hp) (hs p hp))
  rw [step_eq, hev] at hst
  cases hst
  have hT := allObjects_foldl_transported ms.all ms h.linked fun _ => id
  intro p hp o ho
  obtain ⟨q, hq, hoq⟩ := mem_allObjects.mp (hT ▸ mem_allObjects.mpr ⟨p, hp, ho⟩)
  exact hs q hq o hoq

theorem signalsOnly_inject {ms ms' : MembraneSystem} {id : String} {obj : Object} (hl : Linked ms)
    (hs : SignalsOnly ms) (hobj : IsSignal obj) (h : ms.injectObject id obj = .ok ms') :
    SignalsOnly ms' := by
  obtain ⟨p, -, -, rfl⟩ := injectObject_eq h
  intro q hq o ho
  rw [all_modify] at hq
  rw [get_modify _ _ _ _ (hl.2.1 q hq)] at ho
  split_ifs at ho with hpq
  · rcases List.mem_append.mp ho with ho | ho
    · exact hs q hq o ho
    · rw [List.mem_singleton.mp ho]; exact hobj
  · exact hs q hq o ho

/-- What a filter's membrane system keeps: it is a membrane run fed at the root, holding only
signals. -/
def Inv (depth : ℤ) (ms : MembraneSystem) : Prop :=
  MembraneSystem.Reachable depth (· = "root") ms ∧ SignalsOnly ms

theorem inv_injectKeywords {depth : ℤ} {obj : Object} (hobj : IsSignal obj) (lower : String)
    (keywords : List String) {ms : MembraneSystem} (h : Inv depth ms) :
    Inv depth (injectKeywords obj lower keywords ms) :=
  List.foldlRecOn (motive := Inv depth) keywords _ ms h fun ms h kw _ => by
    split
    · split
      · next ms' hi => exact ⟨.inject rfl h.1 hi, signalsOnly_inject h.1.linked h.2 hobj hi⟩
      · exact h
    · exact h

theorem inv_runSteps {depth : ℤ} : ∀ (k : ℕ) {ms : MembraneSystem}, Inv depth ms →
    ∃ ms', runSteps k ms = .ok ms' ∧ Inv depth ms'
  | 0, ms, h => ⟨ms, rfl, h⟩
  | k + 1, ms, h => by
    obtain ⟨ms', h', hi⟩ := inv_runSteps k ⟨.step h.1 (step_eq ms), signalsOnly_step h.1 h.2 (step_eq ms)⟩
    exact ⟨ms', by rw [runSteps, step_eq]; exact h', hi⟩

theorem isSignal_positiveSignal : IsSignal positiveSignal := Or.inl rfl

theorem isSignal_negativeSignal : IsSignal negativeSignal := Or.inr rfl

/-- A `ClassifyMessage` on a system that keeps the invariant returns its membrane objects,
and the system it leaves keeps the invariant. -/
theorem classifyMembranes_inv {depth : ℤ} {ms : MembraneSystem} (h : Inv depth ms) (content : String) :
    ∃ ms', classifyMembranes ms content = .ok (ms', ms'.collectResults) ∧ Inv depth ms' := by
  obtain ⟨ms', h', hi⟩ := inv_runSteps 3 (inv_injectKeywords isSignal_negativeSignal _ _
    (inv_injectKeywords isSignal_positiveSignal (toLower content) positiveKeywords h))
  exact ⟨ms', by rw [classifyMembranes, processMembraneSystem, h']; rfl, hi⟩

theorem Reachable.inv {depth : ℤ} {ms : MembraneSystem} (h : Reachable depth ms) : Inv depth ms := by
  induction h with
  | init => exact ⟨.init, fun p _ o ho => by rw [noObjects_newMembraneSystem depth p] at ho; cases ho⟩
  | classify _ hc ih =>
    obtain ⟨ms', h', hi⟩ := classifyMembranes_inv ih _
    rw [h'] at hc
    cases hc
    exact hi

theorem mem_collectResults {ms : MembraneSystem} {o : Object} (h : o ∈ ms.collectResults) :
    ∃ p ∈ ms.all, o ∈ (ms.get p).objects := by
  obtain ⟨p, hp, ho⟩ := List.mem_flatMap.mp h
  exact ⟨p, (List.mem_filter.mp hp).1, ho⟩

/-- Whatever the depth, the earlier calls and the text, `ClassifyMessage` returns membrane
objects none of which is a `spam_score`: the `spam_detection` rule never fires. -/
theorem membraneObjects_lack_spam_score {depth : ℤ} {ms : MembraneSystem} (h : Reachable depth ms)
    (content : String) : ∃ ms' objs, classifyMembranes ms content = .ok (ms', objs) ∧
      Reachable depth ms' ∧ ∀ o ∈ objs, o.type ≠ "spam_score" := by
  obtain ⟨ms', hc, hi⟩ := classifyMembranes_inv h.inv content
  refine ⟨ms', _, hc, .classify h hc, fun o ho => ?_⟩
  obtain ⟨p, hp, hop⟩ := mem_collectResults ho
  rcases hi.2 p hp o hop with e | e <;> rw [e] <;> decide

theorem membraneObjects_lack_spam_score_click : ∃ ms' objs,
    classifyMembranes (newMembraneSystem 3) "Click here to claim your prize" = .ok (ms', objs) ∧
      Reachable 3 ms' ∧ ∀ o ∈ objs, o.type ≠ "spam_score" :=
  membraneObjects_lack_spam_score .init _

/-- From `MembraneDepth = 3` on, the root and its first child are no leaves, and they are the
only membranes that ever hold objects, so `CollectResults` is empty. -/
theorem collectResults_eq_nil {depth : ℤ} (hd : 3 ≤ depth) {ms : MembraneSystem}
    (h : MembraneSystem.Reachable depth (· = "root") ms) : ms.collectResults = [] := by
  have hc := reachable_confined h
  have htop := (topShape_newMembraneSystem depth).of_sameShape h.sameShape
  obtain ⟨hall, hroot, hlinks⟩ := reachable_links h
  obtain ⟨-, ha, hr, hf⟩ := h.sameShape
  have ht := (newMembraneSystem_treeShape depth).of_frames hf
  rw [← ha, ← hr, hroot] at ht
  have hleaf : ∀ p ∈ ms.all, (ms.get p).children = [] → 2 ≤ (ms.get p).level := fun p hp e => by
    rw [(ht.leaves p hp).mp e]; omega
  refine List.flatMap_eq_nil_iff.mpr fun p hp => ?_
  obtain ⟨hpa, hpl⟩ := List.mem_filter.mp hp
  have hl := hleaf p hpa (of_decide_eq_true hpl)
  by_cases h2 : 2 ≤ p
  · exact hc p h2
  · exfalso
    rcases (by omega : p = 0 ∨ p = 1) with rfl | rfl
    · rw [ht.root_level] at hl; omega
    · obtain ⟨q, hq, -, hlev, -⟩ := ht.child 1 hpa (by omega)
      have hq0 : q = 0 := by
        rcases htop.first_parent with e | e
        · exact Option.some.inj (hq.symm.trans e)
        · rw [hall] at hpa; have := List.mem_range.mp hpa; omega
      rw [hlev, hq0, ht.root_level] at hl
      omega

end Reservoir.ReservoirFilter
