import Reservoir.Membrane.Frame

/-! # The shape of the membrane tree

`NewMembraneSystem depth` lays out a complete binary tree in pre-order: the subtree of a
node with `k` levels below it fills the `size k` addresses from the node on. `Step` and
`InjectObject` change only object lists, so the shape holds in every reachable system; in
particular the root, with ID `root`, stays at address `0`, so injecting at `root` never fails.
-/

namespace Reservoir.MembraneSystem

theorem get_addRules (rules : List EvolutionRule) : ∀ (ms : MembraneSystem) (c x : ℕ),
    x < ms.heap.length → c < ms.heap.length →
    (rules.foldl (fun ms r => ms.modify c (·.addRule r)) ms).get x =
      if c = x then { ms.get c with rules := (ms.get c).rules ++ rules } else ms.get x := by
  induction rules with
  | nil => intro ms c x _ _; split_ifs with h <;> simp [h]
  | cons r rules ih =>
    intro ms c x hx hc
    rw [List.foldl_cons, ih _ c x (by simpa using hx) (by simpa using hc), get_modify _ _ _ _ hc,
      get_modify _ _ _ _ hx]
    by_cases h : c = x
    · subst h; simp [Membrane.addRule]
    · simp only [h, if_false]

theorem addRules_frame (rules : List EvolutionRule) : ∀ (ms : MembraneSystem) (c : ℕ),
    let ms' := rules.foldl (fun ms r => ms.modify c (·.addRule r)) ms
    ms'.heap.length = ms.heap.length ∧ ms'.all = ms.all ∧ ms'.root = ms.root := by
  induction rules with
  | nil => simp
  | cons r rules ih => intro ms c; simpa using ih (ms.modify c (·.addRule r)) c

/-- The membrane `buildHierarchy` makes for the `i`-th child of `parent`, before its own
children are added. -/
def childRecord (parent : Membrane) (p : ℕ) (currentDepth : ℤ) (i : ℕ) : Membrane :=
  { newMembrane (parent.id ++ "_" ++ toString i) currentDepth (0.5 + 0.1 * currentDepth) with
    rules := createDefaultRules, parent := some p }

theorem get_addChild (ms : MembraneSystem) {p c x : ℕ} (hpc : p ≠ c) (hx : x < ms.heap.length)
    (hc : c < ms.heap.length) : (ms.addChild p c).get x =
      if x = p then { ms.get p with children := (ms.get p).children ++ [c] }
      else if x = c then { ms.get c with parent := some p } else ms.get x := by
  unfold addChild
  rw [get_modify _ _ _ _ (by simpa using hx), get_modify _ _ _ _ hx]
  by_cases hxp : x = p
  · subst hxp; simp [Ne.symm hpc]
  · by_cases hxc : x = c
    · subst hxc; simp [hxp, Ne.symm hxp]
    · simp [hxc, hxp, Ne.symm hxp, Ne.symm hxc]

theorem spawnChild_spec (ms : MembraneSystem) (p : ℕ) (cur : ℤ) (i : ℕ) (hp : p < ms.heap.length) :
    let ms' := ms.spawnChild p cur i
    ms'.heap.length = ms.heap.length + 1 ∧
    ms'.get ms.heap.length = childRecord (ms.get p) p cur i ∧
    ms'.get p = { ms.get p with children := (ms.get p).children ++ [ms.heap.length] } ∧
    (∀ x < ms.heap.length, x ≠ p → ms'.get x = ms.get x) ∧
    ms'.all = ms.all ++ [ms.heap.length] ∧ ms'.root = ms.root := by
  intro ms'
  set n := ms.heap.length
  set ms1 := (ms.alloc (newMembrane ((ms.get p).id ++ "_" ++ toString i) cur (0.5 + 0.1 * cur))).addChild p n
  have hs : ms' = createDefaultRules.foldl (fun ms r => ms.modify n (·.addRule r))
      { ms1 with all := ms.all ++ [n] } := rfl
  have hlen1 : ms1.heap.length = n + 1 := by simp [ms1, addChild, n]
  have hpn : p ≠ n := by omega
  have hget : ∀ x < n + 1, ms'.get x =
      if n = x then { ms1.get n with rules := (ms1.get n).rules ++ createDefaultRules }
      else ms1.get x := fun x hx => by
    rw [hs, get_addRules _ _ n x (by simpa [hlen1] using hx) (by simp [hlen1])]; rfl
  have hget1 : ∀ x < n + 1, ms1.get x = _ := fun x hx =>
    get_addChild _ hpn (by simpa using hx) (by simp [n])
  obtain ⟨hlen, hall, hroot⟩ := addRules_frame createDefaultRules { ms1 with all := ms.all ++ [n] } n
  refine ⟨by rw [hs, hlen, hlen1], ?_, ?_, fun x hx hxp => ?_, by rw [hs, hall], by rw [hs, hroot]; rfl⟩
  · rw [hget n (by omega), if_pos rfl, hget1 n (by omega), if_neg (Ne.symm hpn), if_pos rfl,
      get_alloc_self]
    rfl
  · rw [hget p (by omega), if_neg (Ne.symm hpn), hget1 p (by omega), if_pos rfl, get_alloc_lt _ _ hp]
  · rw [hget x (by omega), if_neg (by omega), hget1 x (by omega), if_neg hxp, if_neg (by omega),
      get_alloc_lt _ _ hx]

/-- The number of membranes of a complete binary subtree with `k` levels below its root. -/
def size (k : ℕ) : ℕ := 2 ^ (k + 1) - 1

theorem size_succ (k : ℕ) : size (k + 1) = 2 * size k + 1 := by
  have : 1 ≤ 2 ^ (k + 1) := Nat.one_le_two_pow
  simp only [size, pow_succ]; omega

@[simp] theorem size_zero : size 0 = 1 := rfl

theorem one_le_size (k : ℕ) : 1 ≤ size k := by
  have : 2 ≤ 2 ^ (k + 1) := Nat.le_self_pow (by omega) 2 |>.trans' (by norm_num)
  simp only [size]; omega

/-- The addresses below `p` of a subtree with `k + 1` levels: the first child's subtree, then
the second's. -/
theorem range'_subtree (p k : ℕ) :
    ([p + 1] ++ List.range' (p + 1 + 1) (size k - 1)) ++
        ([p + 1 + size k] ++ List.range' (p + 1 + size k + 1) (size k - 1)) =
      List.range' (p + 1) (size (k + 1) - 1) := by
  have hk := size_succ k
  have hk1 := one_le_size k
  rw [List.singleton_append, List.singleton_append, ← List.range'_succ, ← List.range'_succ,
    Nat.sub_add_cancel hk1, List.range'_append_1]
  congr 1; omega

/-- What `buildHierarchy` makes of the `i`-th child `c` of `p`. -/
def ChildShape (h : ℕ → Membrane) (p c i : ℕ) : Prop :=
  (h c).parent = some p ∧ (h c).level = (h p).level + 1 ∧
  (h c).permeability = 0.5 + 0.1 * (h c).level ∧ (h c).rules = createDefaultRules ∧
  (h c).id = (h p).id ++ "_" ++ toString i

/-- At `p` sits a complete binary subtree with `k` levels below its root, laid out in
pre-order on the addresses `p, p + 1, …, p + size k - 1`. -/
def Subtree (h : ℕ → Membrane) : ℕ → ℕ → Prop
  | p, 0 => (h p).children = []
  | p, k + 1 => (h p).children = [p + 1, p + 1 + size k] ∧
      ChildShape h p (p + 1) 0 ∧ ChildShape h p (p + 1 + size k) 1 ∧
      Subtree h (p + 1) k ∧ Subtree h (p + 1 + size k) k

theorem Subtree.congr {h h' : ℕ → Membrane} : ∀ {k p : ℕ},
    (∀ x, p ≤ x → x < p + size k → h' x = h x) → Subtree h p k → Subtree h' p k
  | 0, p, he, hs => by
    simp only [Subtree] at *; rw [he p le_rfl (by simp [size])]; exact hs
  | k + 1, p, he, ⟨hc, h0, h1, s0, s1⟩ => by
    have hk := size_succ k
    have hk1 := one_le_size k
    have e : ∀ x, p ≤ x → x < p + size (k + 1) → h' x = h x := he
    refine ⟨by rw [e p le_rfl (by omega)]; exact hc, ?_, ?_,
      s0.congr fun x h1 h2 => e x (by omega) (by omega),
      s1.congr fun x h1 h2 => e x (by omega) (by omega)⟩ <;>
    · simp only [ChildShape] at *
      rw [e p le_rfl (by omega), e _ (by omega) (by omega)]
      assumption

/-- `buildHierarchy` below a freshly allocated `p` fills the next addresses with the
complete subtree of `p` and registers them in `All`, leaving the older membranes and every
field of `p` but its children as they were. -/
theorem buildLevels_spec : ∀ (k : ℕ) (ms : MembraneSystem) (p : ℕ) (cur : ℤ),
    ms.heap.length = p + 1 → (ms.get p).children = [] → (ms.get p).level + 1 = cur →
    let ms' := buildLevels k ms p cur
    ms'.heap.length = p + size k ∧ (∀ x < p, ms'.get x = ms.get x) ∧
    ms'.get p = { ms.get p with children := (ms'.get p).children } ∧
    Subtree ms'.get p k ∧ ms'.all = ms.all ++ List.range' (p + 1) (size k - 1) ∧
    ms'.root = ms.root
  | 0, ms, p, cur, hlen, hch, _ => ⟨by simp [buildLevels, size, hlen], fun _ _ => rfl, rfl, hch,
    by simp [buildLevels, size], rfl⟩
  | k + 1, ms, p, cur, hlen, hch, hlev => by
    have hk := size_succ k
    have hk1 := one_le_size k
    simp only [buildLevels, show List.range 2 = [0, 1] from rfl, List.foldl_cons, List.foldl_nil]
    generalize hm1 : ms.spawnChild p cur 0 = ms1
    generalize hm2 : buildLevels k ms1 ms.heap.length (cur + 1) = ms2
    generalize hm3 : ms2.spawnChild p cur 1 = ms3
    generalize hm4 : buildLevels k ms3 ms2.heap.length (cur + 1) = ms4
    obtain ⟨l1, g1n, g1p, g1x, a1, r1⟩ := spawnChild_spec ms p cur 0 (by omega)
    simp only [hm1, hlen] at l1 g1n g1p g1x a1 r1
    rw [hlen] at hm2
    obtain ⟨l2, g2x, g2p, t2, a2, r2⟩ := buildLevels_spec k ms1 (p + 1) (cur + 1) l1
      (by rw [g1n]; rfl) (by rw [g1n]; rfl)
    simp only [hm2] at l2 g2x g2p t2 a2 r2
    obtain ⟨l3, g3n, g3p, g3x, a3, r3⟩ := spawnChild_spec ms2 p cur 1 (by omega)
    simp only [hm3, l2] at l3 g3n g3p g3x a3 r3
    rw [l2] at hm4
    obtain ⟨l4, g4x, g4p, t4, a4, r4⟩ := buildLevels_spec k ms3 (p + 1 + size k) (cur + 1) l3
      (by rw [g3n]; rfl) (by rw [g3n]; rfl)
    simp only [hm4] at l4 g4x g4p t4 a4 r4
    -- the membranes below `p + 1 + size k` keep their `ms3` value; `p` keeps its `ms2` value
    have e4 : ∀ x < p + 1 + size k, ms4.get x = ms3.get x := g4x
    have e3 : ∀ x < p + 1 + size k, x ≠ p → ms3.get x = ms2.get x := g3x
    have gp : ms4.get p = { ms.get p with children := [p + 1, p + 1 + size k] } := by
      rw [e4 p (by omega), g3p, g2x p (by omega), g1p, hch]; rfl
    have g0 : ms4.get (p + 1) = { childRecord (ms.get p) p cur 0 with
        children := (ms4.get (p + 1)).children } := by
      rw [e4 _ (by omega), e3 _ (by omega) (by omega), g2p, g1n]
    have gc : ms4.get (p + 1 + size k) = { childRecord (ms2.get p) p cur 1 with
        children := (ms4.get (p + 1 + size k)).children } := by rw [g4p, g3n]
    have hid : (ms2.get p).id = (ms.get p).id := by rw [g2x p (by omega), g1p]
    refine ⟨by omega, fun x hx => ?_, by rw [gp], ⟨by rw [gp], ?_, ?_,
      t2.congr fun x h1 h2 => ?_, t4⟩, ?_, by rw [r4, r3, r2, r1]⟩
    · rw [e4 x (by omega), e3 x (by omega) (by omega), g2x x (by omega), g1x x (by omega) (by omega)]
    · rw [ChildShape, g0, gp]
      exact ⟨rfl, by simp [childRecord, newMembrane, ← hlev], rfl, rfl, rfl⟩
    · rw [ChildShape, gc, gp]
      exact ⟨rfl, by simp [childRecord, newMembrane, ← hlev], rfl, rfl, by simp [childRecord, newMembrane, hid]⟩
    · rw [e4 x (by omega), e3 x (by omega) (by omega)]
    · rw [a4, a3, a2, a1, ← range'_subtree]
      simp only [List.append_assoc]

theorem newMembraneSystem_spec (depth : ℤ) :
    let ms := newMembraneSystem depth
    ms.heap.length = size (depth - 1).toNat ∧ ms.all = List.range (size (depth - 1).toNat) ∧
    ms.root = 0 ∧ Subtree ms.get 0 (depth - 1).toNat ∧
    ms.get 0 = { newMembrane "root" 0 1.0 with children := (ms.get 0).children } := by
  have e : newMembraneSystem depth =
      buildLevels (depth - 1).toNat ⟨[newMembrane "root" 0 1.0], 0, [0], 0⟩ 0 1 := rfl
  obtain ⟨hl, -, hp, ht, ha, hr⟩ := buildLevels_spec (depth - 1).toNat ⟨[newMembrane "root" 0 1.0], 0, [0], 0⟩
    0 1 rfl rfl (by norm_num [get, newMembrane])
  have := one_le_size (depth - 1).toNat
  simp only [e]
  refine ⟨by rw [hl, zero_add], ?_, hr, ht, hp⟩
  rw [ha, List.range_eq_range']
  show 0 :: List.range' (0 + 1) _ = _
  rw [← List.range'_succ]; congr 1; omega

theorem stepCount_spawnChild (ms : MembraneSystem) (p : ℕ) (cur : ℤ) (i : ℕ) :
    (ms.spawnChild p cur i).stepCount = ms.stepCount := by
  unfold spawnChild
  rw [stepCount_foldl (fun ms' r => ms'.modify ms.heap.length (·.addRule r)) fun _ _ => rfl]
  rfl

theorem stepCount_buildLevels : ∀ (k : ℕ) (ms : MembraneSystem) (p : ℕ) (cur : ℤ),
    (buildLevels k ms p cur).stepCount = ms.stepCount
  | 0, _, _, _ => rfl
  | k + 1, ms, p, cur => by
    rw [buildLevels, stepCount_foldl (fun ms i => buildLevels k (ms.spawnChild p cur i) ms.heap.length
      (cur + 1)) fun ms i => (stepCount_buildLevels k _ _ _).trans (stepCount_spawnChild ms p cur i)]

theorem stepCount_newMembraneSystem (depth : ℤ) : (newMembraneSystem depth).stepCount = 0 :=
  stepCount_buildLevels _ _ _ _

theorem mem_subtree {k p x : ℕ} : x ∈ List.range' p (size (k + 1)) ↔
    x = p ∨ x ∈ List.range' (p + 1) (size k) ∨ x ∈ List.range' (p + 1 + size k) (size k) := by
  simp only [List.mem_range'_1, size_succ]; omega

/-- The pre-order listing from `p`, descending at most `fuel` levels. -/
def preorder (h : ℕ → Membrane) : ℕ → ℕ → List ℕ
  | 0, _ => []
  | fuel + 1, p => p :: (h p).children.flatMap (preorder h fuel)

/-- `Reaches h p x`: `x` is reachable from `p` along `Children` pointers. -/
def Reaches (h : ℕ → Membrane) : ℕ → ℕ → Prop := Relation.ReflTransGen fun p c => c ∈ (h p).children

variable {h : ℕ → Membrane}

theorem Subtree.preorder_eq : ∀ {k p : ℕ}, Subtree h p k → ∀ fuel, k < fuel →
    preorder h fuel p = List.range' p (size k)
  | 0, p, hs, fuel + 1, _ => by
    change (h p).children = [] at hs; simp [preorder, hs]
  | k + 1, p, ⟨hc, _, _, s0, s1⟩, fuel + 1, hf => by
    rw [preorder, hc, List.flatMap_cons, List.flatMap_cons, List.flatMap_nil, List.append_nil,
      s0.preorder_eq fuel (by omega), s1.preorder_eq fuel (by omega), List.range'_append_1,
      ← List.range'_succ, size_succ]
    congr 1; omega

theorem Subtree.closed : ∀ {k p : ℕ}, Subtree h p k → ∀ x ∈ List.range' p (size k),
    ∀ c ∈ (h x).children, c ∈ List.range' p (size k)
  | 0, p, hs, x, hx, c, hc => by
    simp only [size_zero, List.mem_range'_1] at hx
    change (h p).children = [] at hs
    rw [show x = p by omega, hs] at hc; simp at hc
  | k + 1, p, ⟨hch, _, _, s0, s1⟩, x, hx, c, hc => by
    rcases mem_subtree.mp hx with rfl | hx | hx
    · rw [hch] at hc; simp only [List.mem_cons, List.mem_singleton, List.not_mem_nil] at hc
      have := one_le_size k
      rw [mem_subtree]; rcases hc with rfl | rfl | h
      · exact .inr (.inl (by simp [List.mem_range'_1]; omega))
      · exact .inr (.inr (by simp [List.mem_range'_1]; omega))
      · exact h.elim
    · exact mem_subtree.mpr (.inr (.inl (s0.closed x hx c hc)))
    · exact mem_subtree.mpr (.inr (.inr (s1.closed x hx c hc)))

theorem Subtree.reaches_iff : ∀ {k p : ℕ}, Subtree h p k → ∀ x,
    Reaches h p x ↔ x ∈ List.range' p (size k) := by
  intro k p hs x
  refine ⟨fun hr => ?_, fun hx => ?_⟩
  · induction hr with
    | refl => exact List.mem_range'_1.mpr ⟨le_rfl, by have := one_le_size k; omega⟩
    | tail _ hc ih => exact hs.closed _ ih _ hc
  · induction k generalizing p with
    | zero => simp only [size_zero, List.mem_range'_1] at hx; rw [show x = p by omega]; exact .refl
    | succ k ih =>
      obtain ⟨hch, _, _, s0, s1⟩ := hs
      rcases mem_subtree.mp hx with rfl | hx | hx
      · exact .refl
      · exact .head (by simp [hch]) (ih s0 hx)
      · exact .head (by simp [hch]) (ih s1 hx)

theorem Subtree.parent : ∀ {k p : ℕ}, Subtree h p k → ∀ x ∈ List.range' p (size k), x ≠ p →
    ∃ q, ∃ i, ChildShape h q x i ∧ x ∈ (h q).children
  | 0, p, _, x, hx, hxp => by simp only [size_zero, List.mem_range'_1] at hx; omega
  | k + 1, p, ⟨hch, c0, c1, s0, s1⟩, x, hx, hxp => by
    rcases mem_subtree.mp hx with rfl | hx | hx
    · exact absurd rfl hxp
    · by_cases hx0 : x = p + 1
      · exact ⟨p, 0, hx0 ▸ c0, by simp [hch, hx0]⟩
      · exact s0.parent x hx hx0
    · by_cases hx1 : x = p + 1 + size k
      · exact ⟨p, 1, hx1 ▸ c1, by simp [hch, hx1]⟩
      · exact s1.parent x hx hx1

theorem Subtree.children_level : ∀ {k p : ℕ}, Subtree h p k → ∀ x ∈ List.range' p (size k),
    ((h x).children = [] ∧ (h x).level = (h p).level + k) ∨
    ((h x).children.length = 2 ∧ (h x).level < (h p).level + k)
  | 0, p, hs, x, hx => by
    simp only [size_zero, List.mem_range'_1] at hx
    change (h p).children = [] at hs
    rw [show x = p by omega]; simp [hs]
  | k + 1, p, ⟨hch, c0, c1, s0, s1⟩, x, hx => by
    have l0 : (h (p + 1)).level = (h p).level + 1 := c0.2.1
    have l1 : (h (p + 1 + size k)).level = (h p).level + 1 := c1.2.1
    rcases mem_subtree.mp hx with rfl | hx | hx
    · exact .inr ⟨by simp [hch], by push_cast; omega⟩
    · rcases s0.children_level x hx with ⟨h1, h2⟩ | ⟨h1, h2⟩
      · exact .inl ⟨h1, by push_cast; omega⟩
      · exact .inr ⟨h1, by push_cast; omega⟩
    · rcases s1.children_level x hx with ⟨h1, h2⟩ | ⟨h1, h2⟩
      · exact .inl ⟨h1, by push_cast; omega⟩
      · exact .inr ⟨h1, by push_cast; omega⟩

theorem subtree_range (k p : ℕ) : List.range' p (size (k + 1)) =
    p :: (List.range' (p + 1) (size k) ++ List.range' (p + 1 + size k) (size k)) := by
  rw [List.range'_append_1, ← List.range'_succ, size_succ]; congr 1; omega

theorem ChildShape.id_data {p c i : ℕ} (hc : ChildShape h p c i) :
    (h c).id.data = (h p).id.data ++ ("_" ++ toString i).data := by
  rw [hc.2.2.2.2, String.append_assoc, String.data_append]

theorem prefix_of_append_pair_prefix {a l : List Char} {c d : Char} (h : a ++ [c, d] <+: l) :
    a <+: l ∧ a.length < l.length :=
  ⟨(List.prefix_append _ _).trans h, by
    have := h.length_le
    rw [List.length_append, List.length_cons, List.length_singleton] at this; omega⟩

/-- Each ID in a subtree extends the ID of its root, strictly below the root, and the IDs
are pairwise distinct: a child's ID is its parent's followed by `_0` or `_1`. -/
theorem Subtree.ids : ∀ {k p : ℕ}, Subtree h p k →
    ((List.range' p (size k)).map fun x => (h x).id).Nodup ∧
    ∀ x ∈ List.range' p (size k), (h p).id.data <+: (h x).id.data ∧
      (x ≠ p → (h p).id.data.length < (h x).id.data.length)
  | 0, p, _ => by simp
  | k + 1, p, ⟨_, c0, c1, s0, s1⟩ => by
    obtain ⟨n0, p0⟩ := s0.ids
    obtain ⟨n1, p1⟩ := s1.ids
    have d0 : (h (p + 1)).id.data = (h p).id.data ++ ['_', '0'] := c0.id_data
    have d1 : (h (p + 1 + size k)).id.data = (h p).id.data ++ ['_', '1'] := c1.id_data
    -- below `p` every ID extends `p`'s by two characters
    have below : ∀ x ∈ List.range' (p + 1) (size k) ++ List.range' (p + 1 + size k) (size k),
        (h p).id.data <+: (h x).id.data ∧ (h p).id.data.length < (h x).id.data.length := by
      intro x hx
      rcases List.mem_append.mp hx with hx | hx
      · exact prefix_of_append_pair_prefix (d0 ▸ (p0 x hx).1)
      · exact prefix_of_append_pair_prefix (d1 ▸ (p1 x hx).1)
    rw [subtree_range]
    refine ⟨List.nodup_cons.mpr ⟨fun hm => ?_, ?_⟩, fun x hx => ?_⟩
    · obtain ⟨x, hx, he⟩ := List.mem_map.mp hm
      exact absurd (congrArg (·.data.length) he) (below x hx).2.ne'
    · rw [List.map_append]
      refine List.nodup_append.mpr ⟨n0, n1, fun a ha hb => ?_⟩
      obtain ⟨x, hx, rfl⟩ := List.mem_map.mp ha
      obtain ⟨y, hy, he⟩ := List.mem_map.mp hb
      have hx' := (p0 x hx).1
      have hy' := (p1 y hy).1
      rw [d0] at hx'; rw [d1, he] at hy'
      have := (List.prefix_of_prefix_length_le hx' hy' (by simp)).eq_of_length (by simp)
      simp at this
    · rcases List.mem_cons.mp hx with rfl | hx
      · exact ⟨List.prefix_refl _, fun h' => absurd rfl h'⟩
      · exact ⟨(below x hx).1, fun _ => (below x hx).2⟩

/-- The tree `NewMembraneSystem depth` builds, seen through `All`, `Root` and the heap. -/
structure TreeShape (depth : ℤ) (all : List ℕ) (root : ℕ) (h : ℕ → Membrane) : Prop where
  in_preorder : all = preorder h all.length root
  nodup : all.Nodup
  reach : ∀ p, Reaches h root p ↔ p ∈ all
  card : all.length = 2 ^ (max depth 1).toNat - 1
  ids_nodup : (all.map fun p => (h p).id).Nodup
  root_level : (h root).level = 0
  root_permeability : (h root).permeability = 1
  root_parent : (h root).parent = none
  root_rules : (h root).rules = []
  child : ∀ p ∈ all, p ≠ root → ∃ q, (h p).parent = some q ∧ p ∈ (h q).children ∧
    (h p).level = (h q).level + 1 ∧ (h p).permeability = 0.5 + 0.1 * (h p).level ∧
    (h p).rules = createDefaultRules
  branching : ∀ p ∈ all, (h p).children = [] ∨ (h p).children.length = 2
  leaves : ∀ p ∈ all, (h p).children = [] ↔ (h p).level = max depth 1 - 1

theorem newMembraneSystem_treeShape (depth : ℤ) :
    TreeShape depth (newMembraneSystem depth).all (newMembraneSystem depth).root
      (newMembraneSystem depth).get := by
  obtain ⟨-, ha, hr, ht, h0⟩ := newMembraneSystem_spec depth
  set ms := newMembraneSystem depth
  set k := (depth - 1).toNat
  have hk : k < size k := by have := Nat.lt_two_pow (k + 1); simp only [size]; omega
  have hlev := ht.children_level
  rw [h0] at hlev
  rw [ha, hr, List.range_eq_range']
  refine ⟨by rw [List.length_range', ht.preorder_eq _ hk], List.nodup_range' _ _, ht.reaches_iff,
    by rw [List.length_range', size]; congr 2; omega, ht.ids.1, by rw [h0]; rfl,
    by rw [h0]; norm_num [newMembrane],
    by rw [h0]; rfl, by rw [h0]; rfl, fun p hp hp0 => ?_, fun p hp => ?_, fun p hp => ?_⟩
  · obtain ⟨q, i, ⟨hpar, hl, hperm, hrules, -⟩, hmem⟩ := ht.parent p hp hp0
    exact ⟨q, hpar, hmem, hl, hperm, hrules⟩
  · rcases hlev p hp with h' | h'
    · exact .inl h'.1
    · exact .inr h'.1
  · rcases hlev p hp with h' | h'
    · exact ⟨fun _ => by rw [h'.2]; simp [newMembrane]; omega, fun _ => h'.1⟩
    · refine ⟨fun hc => by simp [hc] at h', fun hl => ?_⟩
      have := h'.2; rw [hl] at this; simp [newMembrane] at this; omega

theorem preorder_congr {h' : ℕ → Membrane} (hc : ∀ x, (h' x).children = (h x).children) :
    preorder h' = preorder h := by
  funext fuel p
  induction fuel generalizing p with
  | zero => rfl
  | succ fuel ih =>
    have ih' : preorder h' fuel = preorder h fuel := funext ih
    simp only [preorder, hc, ih']

theorem reaches_congr {h' : ℕ → Membrane} (hc : ∀ x, (h' x).children = (h x).children) :
    Reaches h' = Reaches h := by
  unfold Reaches; simp only [hc]

/-- The shape reads no object list. -/
theorem TreeShape.of_frames {depth : ℤ} {all : List ℕ} {root : ℕ} {h' : ℕ → Membrane}
    (hf : ∀ x, (h' x).frame = (h x).frame) (t : TreeShape depth all root h) :
    TreeShape depth all root h' := by
  have hid : ∀ x, (h' x).id = (h x).id := fun x => (congrArg Membrane.id (hf x) :)
  have hl : ∀ x, (h' x).level = (h x).level := fun x => (congrArg Membrane.level (hf x) :)
  have hp : ∀ x, (h' x).permeability = (h x).permeability := fun x => (congrArg Membrane.permeability (hf x) :)
  have hr : ∀ x, (h' x).rules = (h x).rules := fun x => (congrArg Membrane.rules (hf x) :)
  have hq : ∀ x, (h' x).parent = (h x).parent := fun x => (congrArg Membrane.parent (hf x) :)
  have hc : ∀ x, (h' x).children = (h x).children := fun x => (congrArg Membrane.children (hf x) :)
  obtain ⟨t1, t2, t3, t4, t5, t6, t7, t8, t9, t10, t11, t12⟩ := t
  exact ⟨by rwa [preorder_congr hc], t2, by rwa [reaches_congr hc], t4, by simpa only [hid] using t5,
    by rwa [hl], by rwa [hp], by rwa [hq], by rwa [hr], by simpa only [hq, hc, hl, hp, hr] using t10,
    by simpa only [hc] using t11, by simpa only [hc, hl] using t12⟩

/-- The links of the root and of its first child, which no step changes. -/
structure TopShape (ms : MembraneSystem) : Prop where
  all_head : ∃ rest, ms.all = 0 :: rest
  root_id : (ms.get 0).id = "root"
  root_parent : (ms.get 0).parent = none
  root_children : ∀ c cs, (ms.get 0).children = c :: cs → c = 1
  first_parent : (ms.get 1).parent = some 0 ∨ ms.heap.length ≤ 1

theorem TopShape.of_sameShape {ms ms' : MembraneSystem} (h : SameShape ms ms') (ht : TopShape ms) :
    TopShape ms' := by
  obtain ⟨hlen, hall, -, hf⟩ := h
  have hq : ∀ x, (ms'.get x).parent = (ms.get x).parent := fun x => (congrArg Membrane.parent (hf x) :)
  have hc : ∀ x, (ms'.get x).children = (ms.get x).children :=
    fun x => (congrArg Membrane.children (hf x) :)
  have hi : (ms'.get 0).id = (ms.get 0).id := (congrArg Membrane.id (hf 0) :)
  obtain ⟨h1, h2, h3, h4, h5⟩ := ht
  exact ⟨hall ▸ h1, hi ▸ h2, (hq 0).trans h3, by simpa only [hc] using h4, by simpa only [hq, hlen] using h5⟩

theorem topShape_newMembraneSystem (depth : ℤ) : TopShape (newMembraneSystem depth) := by
  obtain ⟨hl, ha, -, ht, h0⟩ := newMembraneSystem_spec depth
  have hs := one_le_size (depth - 1).toNat
  obtain ⟨hc, hp⟩ : (∀ c cs, ((newMembraneSystem depth).get 0).children = c :: cs → c = 1) ∧
      (((newMembraneSystem depth).get 1).parent = some 0 ∨ (newMembraneSystem depth).heap.length ≤ 1) := by
    generalize (depth - 1).toNat = k at hl ht
    cases k with
    | zero => exact ⟨fun c cs hc => by simp [Subtree, hc] at ht, .inr (by simp [hl, size])⟩
    | succ k =>
      obtain ⟨hch, ⟨hpar, -⟩, -⟩ := ht
      exact ⟨fun c cs hc => by rw [hch] at hc; cases hc; rfl, .inl hpar⟩
  refine ⟨⟨List.range' 1 (size (depth - 1).toNat - 1), ?_⟩, by rw [h0]; rfl, by rw [h0]; rfl, hc, hp⟩
  obtain ⟨m, hm⟩ : ∃ m, size (depth - 1).toNat = m + 1 := ⟨_, (Nat.sub_add_cancel hs).symm⟩
  rw [ha, List.range_eq_range', hm, List.range'_succ, Nat.add_sub_cancel]

theorem injectObject_root {ms : MembraneSystem} (ht : TopShape ms) (obj : Object) :
    ms.injectObject "root" obj = .ok (ms.modify 0 (·.addObject obj)) := by
  obtain ⟨rest, hr⟩ := ht.all_head
  simp [injectObject, hr, ht.root_id]

/-- Every system reachable from `NewMembraneSystem depth` by `InjectObject` and `Step`
calls is the complete binary tree of `max depth 1` levels, registered in pre-order. -/
theorem reachable_treeShape {depth : ℤ} {feeds : String → Prop} {ms : MembraneSystem}
    (h : Reachable depth feeds ms) : TreeShape depth ms.all ms.root ms.get := by
  obtain ⟨-, ha, hr, hf⟩ := h.sameShape
  rw [ha, hr]
  exact (newMembraneSystem_treeShape depth).of_frames hf

/-- A depth-3 system keeps its shape after an object is injected at the root and one `Step`. -/
theorem treeShape_after_inject_and_step : ∃ ms₁ ms₂,
    (newMembraneSystem 3).injectObject "root" ⟨"negative_signal", 1, -1, 0.9⟩ = .ok ms₁ ∧
    ms₁.step = .ok ms₂ ∧ TreeShape 3 ms₂.all ms₂.root ms₂.get :=
  have hi := injectObject_root (topShape_newMembraneSystem 3) ⟨"negative_signal", 1, -1, 0.9⟩
  ⟨_, _, hi, step_eq _, @reachable_treeShape 3 (fun _ => True) _ (.step (.inject trivial .init hi) (step_eq _))⟩

theorem Subtree.links : ∀ {k p : ℕ}, Subtree h p k → ∀ x ∈ List.range' p (size k),
    (∀ c ∈ (h x).children, x < c ∧ c ∈ List.range' p (size k)) ∧
    (x ≠ p → ∃ q, (h x).parent = some q ∧ q < x ∧ q ∈ List.range' p (size k))
  | 0, p, hs, x, hx => by
    simp only [size_zero, List.mem_range'_1] at hx
    change (h p).children = [] at hs
    rw [show x = p by omega, hs]; simp
  | k + 1, p, ⟨hch, c0, c1, s0, s1⟩, x, hx => by
    have := one_le_size k
    have sub : ∀ y, y ∈ List.range' (p + 1) (size k) ∨ y ∈ List.range' (p + 1 + size k) (size k) →
        y ∈ List.range' p (size (k + 1)) := fun y hy => mem_subtree.mpr (.inr hy)
    rcases mem_subtree.mp hx with rfl | hx | hx
    · refine ⟨fun c hc => ?_, fun h' => absurd rfl h'⟩
      rw [hch] at hc
      rcases List.mem_cons.mp hc with rfl | hc
      · exact ⟨by omega, sub _ (.inl (by simp [List.mem_range'_1]; omega))⟩
      · rw [List.mem_singleton.mp hc]
        exact ⟨by omega, sub _ (.inr (by simp [List.mem_range'_1]; omega))⟩
    · obtain ⟨hc, hq⟩ := s0.links x hx
      refine ⟨fun c h' => ⟨(hc c h').1, sub _ (.inl (hc c h').2)⟩, fun hxp => ?_⟩
      by_cases hx0 : x = p + 1
      · exact ⟨p, hx0 ▸ c0.1, by omega, mem_subtree.mpr (.inl rfl)⟩
      · obtain ⟨q, h1, h2, h3⟩ := hq hx0; exact ⟨q, h1, h2, sub _ (.inl h3)⟩
    · obtain ⟨hc, hq⟩ := s1.links x hx
      refine ⟨fun c h' => ⟨(hc c h').1, sub _ (.inr (hc c h').2)⟩, fun hxp => ?_⟩
      by_cases hx1 : x = p + 1 + size k
      · exact ⟨p, hx1 ▸ c1.1, by omega, mem_subtree.mpr (.inl rfl)⟩
      · obtain ⟨q, h1, h2, h3⟩ := hq hx1; exact ⟨q, h1, h2, sub _ (.inr h3)⟩

/-- Every pointer of a reachable system stays inside `All`, and no membrane points at itself. -/
theorem reachable_links {depth : ℤ} {feeds : String → Prop} {ms : MembraneSystem}
    (h : Reachable depth feeds ms) : ms.all = List.range ms.heap.length ∧ ms.root = 0 ∧
    ∀ p ∈ ms.all, (∀ q, (ms.get p).parent = some q → q ∈ ms.all ∧ q ≠ p) ∧
      ∀ c ∈ (ms.get p).children, c ∈ ms.all ∧ c ≠ p := by
  obtain ⟨hl, ha, hr, hf⟩ := h.sameShape
  obtain ⟨hl0, ha0, hr0, ht, h0⟩ := newMembraneSystem_spec depth
  have hq : ∀ x, (ms.get x).parent = ((newMembraneSystem depth).get x).parent :=
    fun x => (congrArg Membrane.parent (hf x) :)
  have hc : ∀ x, (ms.get x).children = ((newMembraneSystem depth).get x).children :=
    fun x => (congrArg Membrane.children (hf x) :)
  rw [ha, hr, hl, hl0, ha0, hr0, List.range_eq_range']
  refine ⟨rfl, rfl, fun p hp => ⟨fun q hpq => ?_, fun c hcp => ?_⟩⟩
  · by_cases hp0 : p = 0
    · subst hp0; rw [hq, h0] at hpq; cases hpq
    · obtain ⟨q', h1, h2, h3⟩ := (ht.links p hp).2 hp0
      rw [hq, h1] at hpq; cases hpq; exact ⟨h3, by omega⟩
  · rw [hc] at hcp
    obtain ⟨h1, h2⟩ := (ht.links p hp).1 c hcp
    exact ⟨h2, by omega⟩

end Reservoir.MembraneSystem
