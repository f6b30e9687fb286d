import Reservoir.Membrane.Conservation

/-! # Where objects injected at the root go

`PassObjects` tests each object against the source's own permeability, so once a membrane
has passed to one target, nothing it still holds passes to the next. In a transport the
root feeds only its first child, and that child only its parent: objects injected at the
root never leave these two membranes.
-/

namespace Reservoir.MembraneSystem

theorem modify_eq_self (ms : MembraneSystem) {p : ℕ} {f : Membrane → Membrane}
    (hf : f (ms.get p) = ms.get p) : ms.modify p f = ms := by
  suffices h : ms.heap.modify f p = ms.heap by simp only [modify, h]
  refine List.ext_getElem? fun i => ?_
  rw [List.getElem?_modify]
  cases h : ms.heap[i]? with
  | none => rfl
  | some m =>
    by_cases hi : p = i
    · subst hi; simpa [get, List.getD_eq_getElem?_getD, h] using hf
    · simp [hi]

@[simp] theorem objects_modify (ms : MembraneSystem) (p x : ℕ) {f : Membrane → Membrane}
    (hf : ∀ m, (f m).objects = m.objects) : ((ms.modify p f).get x).objects = (ms.get x).objects := by
  by_cases hx : x < ms.heap.length
  · rw [get_modify _ _ _ _ hx]; split_ifs <;> simp [hf]
  · rw [get_of_length_le _ (by simpa using hx), get_of_length_le _ (by omega)]

/-- Nothing at `s` passes the threshold of `s`. -/
def Settled (ms : MembraneSystem) (s : ℕ) : Prop :=
  ∀ o ∈ (ms.get s).objects, ¬ Passes (ms.get s).permeability o

theorem moveObjects_of_settled {ms : MembraneSystem} {s : ℕ} (h : Settled ms s) (t : ℕ) :
    ms.moveObjects s t = ms := by
  have h1 : (ms.get s).objects.filter (Passes (ms.get s).permeability ·) = [] :=
    List.filter_eq_nil_iff.mpr fun o ho => by simpa using h o ho
  have h2 : (ms.get s).objects.filter (¬ Passes (ms.get s).permeability ·) = (ms.get s).objects :=
    List.filter_eq_self.mpr fun o ho => by simpa using h o ho
  rw [moveObjects_eq, h1, h2, modify_eq_self ms (by simp), modify_eq_self ms rfl]

/-- After a pass from `s`, `s` keeps only what fails its threshold. -/
theorem settled_moveObjects (ms : MembraneSystem) (s t : ℕ) : Settled (ms.moveObjects s t) s := by
  intro o ho
  have hs := sameShape_moveObjects ms s t
  have hperm : ((ms.moveObjects s t).get s).permeability = (ms.get s).permeability :=
    (congrArg Membrane.permeability (hs.2.2.2 s) :)
  rw [hperm]
  by_cases hsl : s < ms.heap.length
  · rw [moveObjects_eq, get_modify_self _ _ _ (by simpa using hsl)] at ho
    simpa using (List.mem_filter.mp ho).2
  · rw [get_of_length_le _ (by rw [hs.1]; omega)] at ho
    exact absurd ho (List.not_mem_nil o)

theorem foldl_moveObjects_of_settled {ms : MembraneSystem} {p : ℕ} (h : Settled ms p) :
    ∀ cs : List ℕ, cs.foldl (fun ms c => ms.moveObjects p c) ms = ms
  | [] => rfl
  | c :: cs => by rw [List.foldl_cons, moveObjects_of_settled h, foldl_moveObjects_of_settled h cs]

/-- Only the first pass of a membrane's transport can move anything: to its parent, or
for the root to its first child. -/
theorem transported_eq (ms : MembraneSystem) (p : ℕ) : ms.transported p =
    match (ms.get p).parent, (ms.get p).children with
    | some q, _ => ms.moveObjects p q
    | none, c :: _ => ms.moveObjects p c
    | none, [] => ms := by
  unfold transported
  cases (ms.get p).parent with
  | some q => exact foldl_moveObjects_of_settled (settled_moveObjects ms p q) _
  | none =>
    cases (ms.get p).children with
    | nil => rfl
    | cons c cs => exact foldl_moveObjects_of_settled (settled_moveObjects ms p c) cs

theorem transported_of_settled {ms : MembraneSystem} {p : ℕ} (h : Settled ms p) :
    ms.transported p = ms := by
  rw [transported_eq]; split <;> first | rfl | exact moveObjects_of_settled h _

/-- Only the root (address `0`) and its first child (address `1`) hold objects. -/
def Confined (ms : MembraneSystem) : Prop := ∀ x, 2 ≤ x → (ms.get x).objects = []

theorem settled_of_confined {ms : MembraneSystem} (h : Confined ms) {p : ℕ} (hp : 2 ≤ p) :
    Settled ms p := fun o ho => absurd (h p hp ▸ ho) (List.not_mem_nil o)

theorem confined_modify_lt {ms : MembraneSystem} (h : Confined ms) {p : ℕ} (hp : p < 2)
    (f : Membrane → Membrane) : Confined (ms.modify p f) := fun x hx => by
  rw [get_modify_ne _ _ (by omega)]; exact h x hx

theorem confined_moveObjects {ms : MembraneSystem} (h : Confined ms) {s t : ℕ} (hs : s < 2)
    (ht : t < 2) : Confined (ms.moveObjects s t) := by
  rw [moveObjects_eq]; exact confined_modify_lt (confined_modify_lt h ht _) hs _

theorem confined_transported {ms : MembraneSystem} (h : Confined ms) (ht : TopShape ms) (p : ℕ) :
    Confined (ms.transported p) := by
  by_cases hp : 2 ≤ p
  · rw [transported_of_settled (settled_of_confined h hp)]; exact h
  rw [transported_eq]
  obtain rfl | rfl : p = 0 ∨ p = 1 := by omega
  · rw [ht.root_parent]
    cases hch : (ms.get 0).children with
    | nil => exact h
    | cons c cs => exact confined_moveObjects h (by omega) (by rw [ht.root_children c cs hch]; omega)
  · rcases ht.first_parent with h1 | h1
    · simp only [h1]; exact confined_moveObjects h (by omega) (by omega)
    · simp only [get_of_length_le _ h1]; exact h

theorem confined_foldl_transported (L : List ℕ) {ms : MembraneSystem} (h : Confined ms)
    (ht : TopShape ms) : Confined (L.foldl transported ms) :=
  (List.foldlRecOn (motive := fun ms => Confined ms ∧ TopShape ms) L transported ms ⟨h, ht⟩
    fun ms h p _ => ⟨confined_transported h.1 h.2 p, h.2.of_sameShape (sameShape_transported ms p)⟩).1

theorem confined_modify {ms : MembraneSystem} (h : Confined ms) (p : ℕ) {f : Membrane → Membrane}
    (hf : ∀ m : Membrane, m.objects = [] → (f m).objects = []) : Confined (ms.modify p f) :=
  fun x hx => by
    by_cases hxl : x < ms.heap.length
    · rw [get_modify _ _ _ _ hxl]; split_ifs
      · exact hf _ (h x hx)
      · exact h x hx
    · rw [get_of_length_le _ (by simpa using hxl)]; rfl

theorem confined_step {ms ms' : MembraneSystem} (h : Confined ms) (ht : TopShape ms)
    (hs : ms.step = .ok ms') : Confined ms' := by
  rw [step_eq] at hs
  cases hs
  have he : Confined ms.evolveAll :=
    List.foldlRecOn (motive := Confined) ms.all _ ms h fun ms h p _ =>
      confined_modify h p fun m hm => by rw [Membrane.evolve_eq_self m (.inl hm)]; exact hm
  exact confined_foldl_transported _ he (ht.of_sameShape (sameShape_evolveAll ms))

/-- No membrane holds an object. -/
def NoObjects (ms : MembraneSystem) : Prop := ∀ x, (ms.get x).objects = []

theorem NoObjects.modify {ms : MembraneSystem} (h : NoObjects ms) (p : ℕ) {f : Membrane → Membrane}
    (hf : ∀ m, (f m).objects = m.objects) : NoObjects (ms.modify p f) :=
  fun x => by rw [objects_modify _ _ _ hf]; exact h x

theorem NoObjects.alloc {ms : MembraneSystem} (h : NoObjects ms) {m : Membrane} (hm : m.objects = []) :
    NoObjects (ms.alloc m) := fun x => by
  rcases lt_trichotomy x ms.heap.length with hx | rfl | hx
  · rw [get_alloc_lt _ _ hx]; exact h x
  · rw [get_alloc_self]; exact hm
  · rw [get_of_length_le _ (by simp; omega)]; rfl

theorem NoObjects.spawnChild {ms : MembraneSystem} (h : NoObjects ms) (p : ℕ) (cur : ℤ) (i : ℕ) :
    NoObjects (ms.spawnChild p cur i) := by
  have h1 : NoObjects ((ms.alloc (newMembrane ((ms.get p).id ++ "_" ++ toString i) cur
      (0.5 + 0.1 * cur))).addChild p ms.heap.length) := by
    unfold addChild
    exact ((h.alloc (by rfl)).modify _ (by intro; rfl)).modify _ (by intro; rfl)
  exact List.foldlRecOn (motive := NoObjects) _ _ _ h1 fun _ h _ _ => h.modify _ fun _ => rfl

theorem noObjects_buildLevels : ∀ (k : ℕ) {ms : MembraneSystem} (p : ℕ) (cur : ℤ), NoObjects ms →
    NoObjects (buildLevels k ms p cur)
  | 0, _, _, _, h => h
  | k + 1, ms, p, cur, h => List.foldlRecOn (motive := NoObjects) _ _ ms h
      fun _ h i _ => noObjects_buildLevels k _ _ (h.spawnChild p cur i)

theorem noObjects_newMembraneSystem (depth : ℤ) : NoObjects (newMembraneSystem depth) :=
  noObjects_buildLevels _ _ _ fun x => by cases x <;> rfl

/-- With objects injected only at the root, only the root and its first child ever hold
objects. -/
theorem reachable_confined {depth : ℤ} {ms : MembraneSystem} (h : Reachable depth (· = "root") ms) :
    Confined ms := by
  induction h with
  | init => exact fun x _ => noObjects_newMembraneSystem depth x
  | inject hid hr hi ih =>
    obtain rfl : _ = "root" := hid
    rw [injectObject_root ((topShape_newMembraneSystem depth).of_sameShape hr.sameShape)] at hi
    cases hi
    exact confined_modify_lt ih (by omega) _
  | step hr hs ih => exact confined_step ih ((topShape_newMembraneSystem depth).of_sameShape hr.sameShape) hs

/-- `k` calls of `Step`, stopping at the first error. -/
noncomputable def runSteps : ℕ → MembraneSystem → Except String MembraneSystem
  | 0, ms => .ok ms
  | k + 1, ms => ms.step >>= runSteps k

theorem runSteps_reachable {depth : ℤ} {feeds : String → Prop} : ∀ (k : ℕ) {ms ms' : MembraneSystem},
    Reachable depth feeds ms → runSteps k ms = .ok ms' → Reachable depth feeds ms'
  | 0, _, _, h, hr => by cases hr; exact h
  | k + 1, ms, _, h, hr => by
    rw [runSteps, step_eq] at hr
    exact runSteps_reachable k (.step h (step_eq ms)) hr

/-- `k` steps always return, `k` steps further on. -/
theorem runSteps_ok : ∀ (k : ℕ) (ms : MembraneSystem),
    ∃ ms', runSteps k ms = .ok ms' ∧ ms'.stepCount = ms.stepCount + k
  | 0, ms => ⟨ms, rfl, rfl⟩
  | k + 1, ms => by
    obtain ⟨ms₁, h₁, c₁⟩ := step_stepCount ms
    obtain ⟨ms₂, h₂, c₂⟩ := runSteps_ok k ms₁
    exact ⟨ms₂, by rw [runSteps, h₁]; exact h₂, by omega⟩

theorem reachable_of_injectRoot {depth : ℤ} {o : Object} {k : ℕ} {ms : MembraneSystem}
    (h : ((newMembraneSystem depth).injectObject "root" o >>= runSteps k) = .ok ms) :
    Reachable depth (· = "root") ms := by
  have hi := injectObject_root (topShape_newMembraneSystem depth) o
  rw [hi] at h
  exact runSteps_reachable k (.inject rfl .init hi) h

theorem evolveAll_eq_self {ms : MembraneSystem}
    (h : ∀ p, (ms.get p).objects = [] ∨ (ms.get p).rules = []) : ms.evolveAll = ms :=
  List.foldlRecOn (motive := (· = ms)) ms.all _ ms rfl fun _ hb p _ => by
    subst hb; exact modify_eq_self _ (Membrane.evolve_eq_self _ (h p))

theorem foldl_transported_of_confined {ms : MembraneSystem} (h : Confined ms) :
    ∀ L : List ℕ, (∀ p ∈ L, 2 ≤ p) → L.foldl transported ms = ms
  | [], _ => rfl
  | p :: L, hL => by
    rw [List.foldl_cons, transported_of_settled (settled_of_confined h (hL p (List.mem_cons_self _ _))),
      foldl_transported_of_confined h L fun q hq => hL q (List.mem_cons_of_mem _ hq)]

/-- An uncharged object of mobility `0.6` injected at the root sits in the root's first child
after one step: it passes the root's threshold, and not that of the child. -/
theorem firstChild_after_one_step {depth : ℤ} {c : ℕ} {cs : List ℕ}
    (hc : ((newMembraneSystem depth).get 0).children = c :: cs) : ∃ ms,
      ((newMembraneSystem depth).injectObject "root" ⟨"token", 1, 0, 0.6⟩ >>= runSteps 1) = .ok ms ∧
      c = 1 ∧ (ms.get 1).objects = [⟨"token", 1, 0, 0.6⟩] := by
  obtain ⟨hl, ha, -, ht, h0⟩ := newMembraneSystem_spec depth
  set o : Object := ⟨"token", 1, 0, 0.6⟩
  set ms0 := newMembraneSystem depth
  generalize (depth - 1).toNat = k at hl ha ht
  cases k with
  | zero => simp [Subtree, hc] at ht
  | succ k =>
  obtain ⟨hch, ⟨-, hlev, hperm, -⟩, -⟩ := ht
  simp only [zero_add] at hch hlev hperm
  obtain ⟨rfl, -⟩ := List.cons.inj (hc.symm.trans hch)
  have hk := size_succ k
  have hk1 := one_le_size k
  set ms1 := ms0.modify 0 (·.addObject o)
  have hno := noObjects_newMembraneSystem depth
  have hg0 : ms1.get 0 = (ms0.get 0).addObject o := get_modify_self _ _ _ (by omega)
  have he : ms1.evolveAll = ms1 := evolveAll_eq_self fun p => by
    by_cases hp : p = 0
    · subst hp; right; rw [hg0, h0]; rfl
    · left; rw [get_modify_ne _ _ (Ne.symm hp)]; exact hno p
  have hT0 : ms1.transported 0 = ms1.moveObjects 0 1 := by
    rw [transported_eq, hg0, h0]; simp only [Membrane.addObject, hch]; rfl
  have hg1 : ((ms1.moveObjects 0 1).get 1).objects = [o] := by
    rw [moveObjects_eq, get_modify_ne _ _ (by omega), get_modify_self _ _ _ (by simp [ms1]; omega),
      get_modify_ne _ _ (by omega), hno 1, hg0, h0]
    norm_num [Membrane.addObject, newMembrane, Passes, o]
  have hs1 : Settled (ms1.moveObjects 0 1) 1 := by
    have hf : ((ms1.moveObjects 0 1).get 1).permeability = (ms0.get 1).permeability :=
      (congrArg Membrane.permeability (((sameShape_modify ms0 0 fun m => Membrane.addObject_frame m o).trans
        (sameShape_moveObjects ms1 0 1)).2.2.2 1) :)
    intro o' ho'
    rw [hg1, List.mem_singleton] at ho'
    rw [hf, hperm, hlev, h0, ho']
    norm_num [newMembrane, Passes, o]
  have hall : ms1.all = 0 :: 1 :: List.range' 2 (2 * size k - 1) := by
    rw [all_modify, ha, List.range_eq_range', hk, show 2 * size k + 1 = 2 * size k - 1 + 1 + 1 by omega]
    rfl
  refine ⟨{ ms1.moveObjects 0 1 with stepCount := (ms1.moveObjects 0 1).stepCount + 1 }, ?_, rfl, hg1⟩
  rw [injectObject_root (topShape_newMembraneSystem depth)]
  show (ms1.step >>= runSteps 0) = _
  rw [step_eq, he, hall, List.foldl_cons, List.foldl_cons, hT0, transported_of_settled hs1,
    foldl_transported_of_confined (confined_moveObjects (confined_modify_lt (fun x _ => hno x) (by omega) _)
      (by omega) (by omega)) _ fun p hp => (List.mem_range'_1.mp hp).1]
  rfl

/-- Objects injected at the root can be found, after some number of steps, in the root and
in the root's first child, and nowhere else. -/
theorem injectRoot_reaches_iff (depth : ℤ) (x : ℕ) :
    (∃ (o : Object) (k : ℕ) (ms : MembraneSystem),
      ((newMembraneSystem depth).injectObject "root" o >>= runSteps k) = .ok ms ∧
        (ms.get x).objects ≠ []) ↔
    x = (newMembraneSystem depth).root ∨
      ((newMembraneSystem depth).get (newMembraneSystem depth).root).children.head? = some x := by
  obtain ⟨hl, -, hr, hsub, -⟩ := newMembraneSystem_spec depth
  have ht := topShape_newMembraneSystem depth
  have hs := one_le_size (depth - 1).toNat
  rw [hr]
  constructor
  · rintro ⟨o, k, ms, h, hne⟩
    have hreach := reachable_of_injectRoot h
    by_contra hx
    have hx0 : x ≠ 0 := fun h => hx (.inl h)
    have hx1 : x = 1 := by
      by_contra hx1
      exact hne (reachable_confined hreach x (by omega))
    subst hx1
    have h1 : 1 < ms.heap.length := by
      by_contra hle; exact hne (by rw [get_of_length_le _ (by omega)]; rfl)
    rw [hreach.sameShape.1, hl] at h1
    generalize (depth - 1).toNat = k at h1 hsub
    cases k with
    | zero => simp [size] at h1
    | succ k => exact hx (.inr (by rw [hsub.1]; rfl))
  · rintro (rfl | hx)
    · refine ⟨default, 0, _, by rw [injectObject_root ht]; rfl, ?_⟩
      simp [get_modify_self _ _ _ (show 0 < (newMembraneSystem depth).heap.length by omega)]
    · obtain ⟨cs, hc⟩ := List.head?_eq_some_iff.mp hx
      obtain ⟨ms, h, rfl, h1⟩ := firstChild_after_one_step hc
      exact ⟨_, 1, ms, h, by simp [h1]⟩

/-- In a system of depth 2, nothing injected at the root ever reaches the root's second
child. -/
theorem injectRoot_misses_root_1 :
    2 ∈ (newMembraneSystem 2).all ∧ ((newMembraneSystem 2).get 2).id = "root_1" ∧
    ∀ (o : Object) (k : ℕ) (ms : MembraneSystem),
      ((newMembraneSystem 2).injectObject "root" o >>= runSteps k) = .ok ms → (ms.get 2).objects = [] := by
  obtain ⟨-, ha, -, ⟨-, -, ⟨-, -, -, -, hid⟩, -⟩, h0⟩ := newMembraneSystem_spec 2
  refine ⟨by rw [ha]; decide, hid.trans (by rw [h0]; rfl),
    fun _ _ _ h => reachable_confined (reachable_of_injectRoot h) 2 le_rfl⟩

end Reservoir.MembraneSystem
