import Reservoir.Membrane.Basic

/-! # One membrane's evolution

`Evolve` sorts the rules by priority, lets each rule take at most one match found by the
greedy scan of `findMatches`, and rebuilds the object list from the unused objects and the
transform outputs. The index set `usedObjects` is a `Finset ℕ`.
-/

namespace Reservoir.Membrane

/-- One exchange of the priority sort: swap positions `i` and `j` when `j` has the higher
priority. -/
def exchange (rs : List EvolutionRule) (i j : ℕ) : List EvolutionRule :=
  if (rs.getD j default).priority > (rs.getD i default).priority then
    (rs.set i (rs.getD j default)).set j (rs.getD i default)
  else rs

/-- The nested exchange loop at the start of `Evolve`. -/
def sortRules (rules : List EvolutionRule) : List EvolutionRule :=
  (List.range rules.length).foldl (fun rs i =>
    (List.range' (i + 1) (rules.length - (i + 1))).foldl (fun rs j => exchange rs i j) rs) rules

/-- The scan loop of `findMatches` from object index `i`; `needed` is `typeNeeded` and
`m` the match collected so far. -/
def scanMatch (used : Finset ℕ) : ℕ → List Object → Finset String → List ℕ → List (List ℕ)
  | _, [], _, _ => []
  | i, o :: os, needed, m =>
    if i ∈ used then scanMatch used (i + 1) os needed m
    else if o.type ∈ needed then
      if needed.erase o.type = ∅ then [m ++ [i]]
      else scanMatch used (i + 1) os (needed.erase o.type) (m ++ [i])
    else scanMatch used (i + 1) os needed m

def findMatches (m : Membrane) (rule : EvolutionRule) (used : Finset ℕ) : List (List ℕ) :=
  if rule.inputTypes = [] then [] else scanMatch used 0 m.objects rule.inputTypes.toFinset []

/-- The transform's output on the objects at `idx`, nothing for a nil transform. -/
def fire (objects : List Object) (rule : EvolutionRule) (idx : List ℕ) : List Object :=
  match rule.transform with
  | some f => f (idx.map (objects.getD · default))
  | none => []

/-- Accepting one match: its indices become used, the transform output is appended. -/
def acceptMatch (objects : List Object) (rule : EvolutionRule) (acc : Finset ℕ × List Object)
    (idx : List ℕ) : Finset ℕ × List Object :=
  (acc.1 ∪ idx.toFinset, acc.2 ++ fire objects rule idx)

def applyRule (m : Membrane) (acc : Finset ℕ × List Object) (rule : EvolutionRule) :
    Finset ℕ × List Object :=
  (m.findMatches rule acc.1).foldl (acceptMatch m.objects rule) acc

/-- The rule loop of `Evolve`: the final `usedObjects` and `newObjects`. -/
def evolveRun (m : Membrane) : Finset ℕ × List Object :=
  (sortRules m.rules).foldl m.applyRule (∅, [])

/-- The objects at the indices of `range n` that satisfy `p`, in index order. -/
def pick (objects : List Object) (p : ℕ → Prop) [DecidablePred p] : List Object :=
  ((List.range objects.length).filter p).map (objects.getD · default)

def evolve (m : Membrane) : Membrane :=
  { m with objects := pick m.objects (· ∉ m.evolveRun.1) ++ m.evolveRun.2 }

/-- The objects the accepted matches consume and those their transforms produce. -/
def consumed (m : Membrane) : List Object := pick m.objects (· ∈ m.evolveRun.1)
def produced (m : Membrane) : List Object := m.evolveRun.2

/-- The matches accepted rule by rule (a ghost trace of the rule loop). -/
def matchTrace (m : Membrane) : List EvolutionRule → Finset ℕ × List Object → List (List ℕ)
  | [], _ => []
  | r :: rs, acc => m.findMatches r acc.1 ++ m.matchTrace rs (m.applyRule acc r)

def acceptedMatches (m : Membrane) : List (List ℕ) := m.matchTrace (sortRules m.rules) (∅, [])

@[simp] theorem evolve_frame (m : Membrane) : m.evolve.frame = m.frame := rfl

theorem pick_of_forall (objects : List Object) {p : ℕ → Prop} [DecidablePred p] (h : ∀ i, p i) :
    pick objects p = objects := by
  rw [pick, List.filter_eq_self.mpr fun i _ => decide_eq_true (h i)]
  exact List.ext_getElem (by simp) fun i _ h2 => by simp [List.getElem?_eq_getElem h2]

theorem filter_map_getD_eq_filterMap (O : List Object) (U : Finset ℕ) :
    ∀ l : List ℕ, (∀ i ∈ l, i < O.length) →
      (l.filter (· ∉ U)).map (O.getD · default) = l.filterMap fun i => if i ∈ U then none else O[i]?
  | [], _ => rfl
  | i :: l, h => by
    have ih := filter_map_getD_eq_filterMap O U l fun j hj => h j (List.mem_cons_of_mem i hj)
    have hiO := h i (List.mem_cons_self i l)
    rw [List.filter_cons, List.filterMap_cons]
    by_cases hi : i ∈ U
    · simpa only [hi, not_true_eq_false, decide_False, if_true, Bool.false_eq_true, if_false] using ih
    · simp only [hi, not_false_eq_true, decide_True, if_true, if_false, List.getElem?_eq_getElem hiO,
        List.map_cons, List.getD_eq_getElem _ _ hiO, ih]

theorem pick_eq_filterMap (O : List Object) (U : Finset ℕ) :
    pick O (· ∉ U) = (List.range O.length).filterMap fun i => if i ∈ U then none else O[i]? :=
  filter_map_getD_eq_filterMap O U _ fun _ h => List.mem_range.mp h
/-- A membrane with no objects or no rules is left as it is. -/
theorem evolve_eq_self (m : Membrane) (h : m.objects = [] ∨ m.rules = []) : m.evolve = m := by
  have hrun : m.evolveRun = (∅, []) := by
    rcases h with h | h
    · refine List.foldl_fixed' (fun r => ?_) _
      simp only [applyRule, findMatches, h, scanMatch, ite_self, List.foldl_nil]
    · simp [evolveRun, sortRules, h]
  simp only [evolve, hrun, List.append_nil, pick_of_forall _ fun i => Finset.not_mem_empty i]

/-- `i` is the least index outside `U` holding an object of its own type. -/
def IsFirstUnused (O : List Object) (U : Finset ℕ) (i : ℕ) : Prop :=
  i ∉ U ∧ ∀ j < i, j ∉ U → (O.getD j default).type ≠ (O.getD i default).type

instance (O : List Object) (U : Finset ℕ) : DecidablePred (IsFirstUnused O U) :=
  fun _ => inferInstanceAs (Decidable (_ ∧ _))

/-- A rule fires when it needs some type and every type it needs is on an unused object. -/
def ReferenceFires (O : List Object) (U : Finset ℕ) (r : EvolutionRule) : Prop :=
  r.inputTypes ≠ [] ∧ ∀ t ∈ r.inputTypes, ∃ i < O.length, i ∉ U ∧ (O.getD i default).type = t

instance (O : List Object) (U : Finset ℕ) : DecidablePred (ReferenceFires O U) :=
  fun _ => inferInstanceAs (Decidable (_ ∧ _))

/-- For each needed type the least unused index of that type, in increasing order. -/
def referenceMatch (O : List Object) (U : Finset ℕ) (r : EvolutionRule) : List ℕ :=
  (List.range O.length).filter fun i => (O.getD i default).type ∈ r.inputTypes ∧ IsFirstUnused O U i

/-- One rule of the reference: when it fires, its match joins the used set and the transform's
output on the matched objects, in increasing index order, joins the outputs (nothing for a nil
transform). -/
def referenceStep (O : List Object) (acc : Finset ℕ × List Object) (r : EvolutionRule) :
    Finset ℕ × List Object :=
  if ReferenceFires O acc.1 r then
    (acc.1 ∪ (referenceMatch O acc.1 r).toFinset, acc.2 ++
      match r.transform with
      | some f => f ((referenceMatch O acc.1 r).map (O.getD · default))
      | none => [])
  else acc

/-- The evolution the rules describe: the objects at unused indices in index order, then the
outputs in rule order. -/
def evolveReference (O : List Object) (R : List EvolutionRule) : List Object :=
  let acc := (sortRules R).foldl (referenceStep O) (∅, [])
  ((List.range O.length).filterMap fun i => if i ∈ acc.1 then none else O[i]?) ++ acc.2

section Scan
variable (O : List Object) (U : Finset ℕ)

/-- What the scan picks from index `k` on for the needed types `N`: the first unused
occurrence, from `k` on, of each needed type. -/
def firstsFrom (N : Finset String) (k : ℕ) : List ℕ :=
  (List.range' k (O.length - k)).filter fun i => (O.getD i default).type ∈ N ∧ i ∉ U ∧
    ∀ j < i, k ≤ j → j ∉ U → (O.getD j default).type ≠ (O.getD i default).type

/-- Every needed type is on an unused object at index `k` or later. -/
def Covers (N : Finset String) (k : ℕ) : Prop :=
  ∀ t ∈ N, ∃ i < O.length, k ≤ i ∧ i ∉ U ∧ (O.getD i default).type = t

instance (N : Finset String) (k : ℕ) : Decidable (Covers O U N k) :=
  inferInstanceAs (Decidable (∀ t ∈ N, _))

theorem forall_from_succ {k x : ℕ} (hkx : k < x) {P : ℕ → Prop} :
    (∀ j < x, k ≤ j → P j) ↔ P k ∧ ∀ j < x, k + 1 ≤ j → P j := by
  refine ⟨fun h => ⟨h k hkx le_rfl, fun j hj hk => h j hj (by omega)⟩, ?_⟩
  rintro ⟨hk, h⟩ j hj hkj
  rcases Nat.eq_or_lt_of_le hkj with rfl | hlt
  · exact hk
  · exact h j hj hlt

/-- Scanning past index `k`: `k` is picked when unused and needed, and the later picks are
those from `k + 1` for the types `N'` still needed. -/
theorem firstsFrom_step {N : Finset String} (N' : Finset String) {k : ℕ} (hk : k < O.length)
    (h : ∀ x, k < x → ((O.getD x default).type ∈ N ∧
      (k ∉ U → (O.getD k default).type ≠ (O.getD x default).type) ↔ (O.getD x default).type ∈ N')) :
    firstsFrom O U N k =
      (if (O.getD k default).type ∈ N ∧ k ∉ U then [k] else []) ++ firstsFrom O U N' (k + 1) := by
  unfold firstsFrom
  rw [show O.length - k = O.length - (k + 1) + 1 by omega, List.range'_succ, List.filter_cons]
  have htail : ∀ x ∈ List.range' (k + 1) (O.length - (k + 1)),
      decide ((O.getD x default).type ∈ N ∧ x ∉ U ∧
        ∀ j < x, k ≤ j → j ∉ U → (O.getD j default).type ≠ (O.getD x default).type) =
      decide ((O.getD x default).type ∈ N' ∧ x ∉ U ∧
        ∀ j < x, k + 1 ≤ j → j ∉ U → (O.getD j default).type ≠ (O.getD x default).type) := by
    intro x hx
    have hkx : k < x := by rw [List.mem_range'] at hx; omega
    rw [decide_eq_decide, forall_from_succ hkx, ← h x hkx]
    tauto
  rw [List.filter_congr htail]
  have hvac : ∀ j < k, k ≤ j → j ∉ U → (O.getD j default).type ≠ (O.getD k default).type :=
    fun j hj hkj => absurd hkj (by omega)
  by_cases hp : (O.getD k default).type ∈ N ∧ k ∉ U
  · rw [if_pos (decide_eq_true ⟨hp.1, hp.2, hvac⟩), if_pos hp]; rfl
  · rw [if_neg (by simpa only [decide_eq_true_eq] using fun h' => hp ⟨h'.1, h'.2.1⟩), if_neg hp]
    rfl

theorem firstsFrom_empty (k : ℕ) : firstsFrom O U ∅ k = [] := by
  simp [firstsFrom]

theorem covers_split {N : Finset String} {k : ℕ} : Covers O U N k ↔ ∀ t ∈ N,
    (k < O.length ∧ k ∉ U ∧ (O.getD k default).type = t) ∨
      ∃ i < O.length, k + 1 ≤ i ∧ i ∉ U ∧ (O.getD i default).type = t := by
  refine forall₂_congr fun t _ => ⟨?_, ?_⟩
  · rintro ⟨i, hi, hki, hiU, hit⟩
    rcases Nat.eq_or_lt_of_le hki with rfl | hlt
    · exact .inl ⟨hi, hiU, hit⟩
    · exact .inr ⟨i, hi, hlt, hiU, hit⟩
  · rintro (⟨hk, hkU, hkt⟩ | ⟨i, hi, hki, hiU, hit⟩)
    · exact ⟨k, hk, le_rfl, hkU, hkt⟩
    · exact ⟨i, hi, by omega, hiU, hit⟩

/-- The scan passes over index `k` when it is used or its type is not needed. -/
theorem firstsFrom_skip {N : Finset String} {k : ℕ} (hk : k < O.length)
    (hs : k ∈ U ∨ (O.getD k default).type ∉ N) : firstsFrom O U N k = firstsFrom O U N (k + 1) := by
  rw [firstsFrom_step O U N hk fun x _ => ⟨And.left, fun h => ⟨h, fun hkU he =>
    hs.elim hkU fun hN => hN (he ▸ h)⟩⟩, if_neg fun h => hs.elim h.2 fun hN => hN h.1, List.nil_append]

theorem covers_skip {N : Finset String} {k : ℕ} (hs : k ∈ U ∨ (O.getD k default).type ∉ N) :
    Covers O U N k ↔ Covers O U N (k + 1) := by
  rw [covers_split]
  exact forall₂_congr fun t ht => ⟨fun h => h.resolve_left fun ⟨_, hkU, hkt⟩ =>
    hs.elim hkU fun hN => hN (hkt ▸ ht), .inr⟩

theorem scanMatch_spec (os : List Object) : ∀ (k : ℕ) (N : Finset String) (m : List ℕ),
    O.drop k = os → N ≠ ∅ →
    scanMatch U k os N m = if Covers O U N k then [m ++ firstsFrom O U N k] else [] := by
  induction os with
  | nil =>
    intro k N m hos hN
    obtain ⟨t, ht⟩ := Finset.nonempty_iff_ne_empty.mpr hN
    have hlen : O.length ≤ k := List.drop_eq_nil_iff.mp hos
    rw [if_neg fun hc => by obtain ⟨i, hi, hki, -⟩ := hc t ht; omega]
    rfl
  | cons o rest ih =>
    intro k N m hos hN
    have hk : k < O.length := by
      have := congrArg List.length hos; simp at this; omega
    have ho : O.getD k default = o := by
      rw [List.drop_eq_getElem_cons hk] at hos
      rw [List.getD_eq_getElem _ _ hk]; exact (List.cons.inj hos).1
    have hrest : O.drop (k + 1) = rest := by
      rw [List.drop_eq_getElem_cons hk] at hos; exact (List.cons.inj hos).2
    have hot : (O.getD k default).type = o.type := congrArg Object.type ho
    rw [scanMatch]
    by_cases hU : k ∈ U
    · rw [if_pos hU, ih (k + 1) N m hrest hN, firstsFrom_skip O U hk (.inl hU)]
      exact if_congr (covers_skip O U (.inl hU)).symm rfl rfl
    by_cases hN' : o.type ∈ N
    · have hf : firstsFrom O U N k = k :: firstsFrom O U (N.erase o.type) (k + 1) := by
        rw [firstsFrom_step O U (N.erase o.type) hk fun x _ => by
          rw [Finset.mem_erase, hot]; tauto]
        rw [if_pos ⟨hot ▸ hN', hU⟩]; rfl
      by_cases he : N.erase o.type = ∅
      · have hc : Covers O U N k := by
          intro t ht
          have : t = o.type := by
            by_contra hne; simpa [he] using Finset.mem_erase.mpr ⟨hne, ht⟩
          exact ⟨k, hk, le_rfl, hU, hot.trans this.symm⟩
        rw [if_neg hU, if_pos hN', if_pos he, if_pos hc, hf, he, firstsFrom_empty]
      · have hc : Covers O U N k ↔ Covers O U (N.erase o.type) (k + 1) := by
          rw [covers_split]
          refine ⟨fun h t ht => ?_, fun h t ht => ?_⟩
          · obtain ⟨hne, htN⟩ := Finset.mem_erase.mp ht
            rcases h t htN with ⟨-, -, hkt⟩ | hi
            · exact absurd (hkt.symm.trans hot) hne
            · exact hi
          · by_cases hto : t = o.type
            · exact .inl ⟨hk, hU, hot.trans hto.symm⟩
            · exact .inr (h t (Finset.mem_erase.mpr ⟨hto, ht⟩))
        rw [if_neg hU, if_pos hN', if_neg he, ih (k + 1) _ _ hrest he, hf]
        exact if_congr hc.symm (by simp) rfl
    · have hs : k ∈ U ∨ (O.getD k default).type ∉ N := .inr (hot ▸ hN')
      rw [if_neg hU, if_neg hN', ih (k + 1) N m hrest hN, firstsFrom_skip O U hk hs]
      exact if_congr (covers_skip O U hs).symm rfl rfl

theorem firstsFrom_zero (r : EvolutionRule) :
    firstsFrom O U r.inputTypes.toFinset 0 = referenceMatch O U r := by
  unfold firstsFrom referenceMatch
  rw [List.range_eq_range', Nat.sub_zero]
  refine List.filter_congr fun i _ => ?_
  simp only [List.mem_toFinset, IsFirstUnused, zero_le, true_implies]

theorem referenceMatch_nodup (r : EvolutionRule) : (referenceMatch O U r).Nodup :=
  (List.nodup_range _).filter _

theorem mem_referenceMatch {r : EvolutionRule} {i : ℕ} (h : i ∈ referenceMatch O U r) :
    i < O.length ∧ i ∉ U := by
  obtain ⟨hi, hp⟩ := List.mem_filter.mp h
  simp only [decide_eq_true_eq, IsFirstUnused] at hp
  exact ⟨List.mem_range.mp hi, hp.2.1⟩

end Scan

/-- `findMatches` returns the reference match exactly when the rule fires. -/
theorem findMatches_eq (m : Membrane) (r : EvolutionRule) (U : Finset ℕ) :
    m.findMatches r U =
      if ReferenceFires m.objects U r then [referenceMatch m.objects U r] else [] := by
  unfold findMatches
  by_cases hr : r.inputTypes = []
  · rw [if_pos hr, if_neg fun h => h.1 hr]
  · have hN : r.inputTypes.toFinset ≠ ∅ := by simpa [List.toFinset_eq_empty_iff] using hr
    rw [if_neg hr, scanMatch_spec m.objects U m.objects 0 _ [] (List.drop_zero _) hN, firstsFrom_zero,
      List.nil_append]
    exact if_congr (by simp [Covers, ReferenceFires, hr]) rfl rfl

theorem applyRule_eq (m : Membrane) : m.applyRule = referenceStep m.objects := by
  funext acc r
  unfold applyRule referenceStep
  rw [findMatches_eq]
  split_ifs <;> rfl

theorem evolveRun_eq (m : Membrane) :
    m.evolveRun = (sortRules m.rules).foldl (referenceStep m.objects) (∅, []) := by
  rw [evolveRun, applyRule_eq]

/-- What the trace of accepted matches says about the used set: the matches are disjoint
indices of objects, outside the set at the start, and together they are what gets added. -/
theorem matchTrace_spec (m : Membrane) : ∀ (rs : List EvolutionRule) (acc : Finset ℕ × List Object),
    (m.matchTrace rs acc).flatten.Nodup ∧
    (∀ i ∈ (m.matchTrace rs acc).flatten, i < m.objects.length ∧ i ∉ acc.1) ∧
    (rs.foldl m.applyRule acc).1 = acc.1 ∪ (m.matchTrace rs acc).flatten.toFinset
  | [], acc => by simp [matchTrace]
  | r :: rs, acc => by
    obtain ⟨ih1, ih2, ih3⟩ := matchTrace_spec m rs (m.applyRule acc r)
    simp only [matchTrace, List.foldl_cons, List.flatten_append]
    rw [ih3, findMatches_eq]
    rw [applyRule_eq, referenceStep] at ih1 ih2 ih3 ⊢
    split_ifs at ih1 ih2 ih3 ⊢ with hf
    · have hM : ∀ i ∈ referenceMatch m.objects acc.1 r, i < m.objects.length ∧ i ∉ acc.1 :=
        fun i hi => mem_referenceMatch m.objects acc.1 hi
      refine ⟨List.nodup_append.mpr ⟨by simpa using referenceMatch_nodup m.objects acc.1 r, ih1,
        fun i hi hi' => (ih2 i hi').2 (Finset.mem_union_right _ (by simpa using hi))⟩, ?_, ?_⟩
      · intro i hi
        rcases List.mem_append.mp hi with hi | hi
        · exact hM i (by simpa using hi)
        · exact ⟨(ih2 i hi).1, fun h => (ih2 i hi).2 (Finset.mem_union_left _ h)⟩
      · ext i; simp [Finset.mem_union, or_assoc]
    · exact ⟨by simpa using ih1, by simpa using ih2, by simp⟩

theorem pick_append_perm (O : List Object) (p : ℕ → Prop) [DecidablePred p] :
    (pick O (fun i => ¬ p i) ++ pick O p).Perm O := by
  have hO : (List.range O.length).map (O.getD · default) = O :=
    List.ext_getElem (by simp) fun i _ h₂ => by
      rw [List.getElem_map, List.getElem_range, List.getD_eq_getElem _ _ h₂]
  have h := ((List.filter_append_perm (fun i => decide (p i)) (List.range O.length)).map
    (O.getD · default))
  rw [hO, List.map_append] at h
  have he : pick O (fun i => ¬ p i) ++ pick O p =
      ((List.range O.length).filter fun i => !decide (p i)).map (O.getD · default) ++
      ((List.range O.length).filter fun i => decide (p i)).map (O.getD · default) := by
    simp [pick]
  exact he ▸ List.perm_append_comm.trans h

/-- `Evolve` is the reference evolution; its accepted matches are disjoint sets of object
indices, and every index is either kept or consumed by exactly one match. -/
theorem evolve_matches_reference (m : Membrane) :
    m.evolve.objects = evolveReference m.objects m.rules ∧
    m.acceptedMatches.Pairwise List.Disjoint ∧
    (∀ idx ∈ m.acceptedMatches, ∀ i ∈ idx, i < m.objects.length) ∧
    ((List.range m.objects.length).filter (· ∉ m.evolveRun.1) ++ m.acceptedMatches.flatten).Perm
      (List.range m.objects.length) := by
  obtain ⟨h1, h2, h3⟩ := matchTrace_spec m (sortRules m.rules) (∅, [])
  refine ⟨by rw [evolve, evolveReference, ← evolveRun_eq, pick_eq_filterMap], (List.nodup_flatten.mp h1).2,
    fun idx hidx i hi => (h2 i (List.mem_flatten.mpr ⟨idx, hidx, hi⟩)).1, ?_⟩
  have hU : m.evolveRun.1 = m.acceptedMatches.flatten.toFinset := by
    rw [evolveRun, h3]; simp [acceptedMatches]
  have hc : m.acceptedMatches.flatten.Perm ((List.range m.objects.length).filter (· ∈ m.evolveRun.1)) :=
    (List.perm_ext_iff_of_nodup h1 ((List.nodup_range _).filter _)).mpr fun i => by
      rw [List.mem_filter, List.mem_range, hU]
      exact ⟨fun h => ⟨(h2 i h).1, by simpa using h⟩, fun h => by simpa using h.2⟩
  refine (hc.append_left _).trans ?_
  simpa [Bool.not_not] using List.filter_append_perm (fun i => decide (i ∉ m.evolveRun.1))
    (List.range m.objects.length)

end Reservoir.Membrane
