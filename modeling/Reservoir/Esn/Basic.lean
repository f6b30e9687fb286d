import Reservoir.Membrane.Basic

/-! # The echo state network

`ESN` with its parameters, persona, weights and state. Go's `rand.Rand` is a tape of draws
read at a cursor: a uniform or a normal draw takes the next value, so every outcome of the
random draws is a choice of tape. A slice read out of range is a panic, so index reads
return `Option`, and a call reports how it ended together with the receiver it left.

A float64 is a real number here: the model has no NaN, no infinity and no rounding, so a NaN
parameter, which passes every check of `NewESN` in Go, is outside what it describes (the one
NaN the code itself makes, `0/0` in the power iteration, is kept as a flag). Every `make`
succeeds, where Go panics on a length above its allocation limit and aborts when the weights
do not fit in memory.
-/

namespace Reservoir

structure ESNParams where
  reservoirSize : ℤ
  spectralRadius : ℝ
  inputScaling : ℝ
  leakRate : ℝ
  sparsity : ℝ
  ridgeParam : ℝ
  treeDepth : ℤ

def defaultESNParams : ESNParams := ⟨100, 0.95, 1.0, 0.3, 0.1, 1e-8, 3⟩

/-- `PersonaTrait`; `Creativity` is read by no modelled code. -/
structure PersonaTrait where
  valence : ℝ
  arousal : ℝ
  dominance : ℝ
  attention : ℝ
  memory : ℝ

def defaultPersonaTrait : PersonaTrait := ⟨0.2, 0.6, 0.5, 0.8, 0.7⟩

/-- A `rand.Rand`: the values its draws return, and how many it has returned. -/
structure Rand where
  draws : ℕ → ℝ
  pos : ℕ

namespace Rand

/-- The `k`-th draw from the cursor on. -/
def peek (r : Rand) (k : ℕ) : ℝ := r.draws (r.pos + k)

def skip (r : Rand) (k : ℕ) : Rand := { r with pos := r.pos + k }

@[simp] theorem skip_draws (r : Rand) (k : ℕ) : (r.skip k).draws = r.draws := rfl
@[simp] theorem skip_pos (r : Rand) (k : ℕ) : (r.skip k).pos = r.pos + k := rfl

end Rand

structure ESN where
  params : ESNParams
  persona : PersonaTrait
  inputWeights : List (List ℝ)
  reservoirWeights : List (List ℝ)
  /-- `nil` is `none`. -/
  outputWeights : Option (List (List ℝ))
  state : List ℝ
  membranes : List Membrane
  rng : Rand
  trained : Bool

/-- How a Go call ends. -/
inductive GoResult (α : Type) where
  | ok : α → GoResult α
  | error : String → GoResult α
  | panic : GoResult α

/-- The value of a normal return passed through `f`; an error or a panic stays as it is. -/
def GoResult.map {α β : Type} (f : α → β) : GoResult α → GoResult β
  | .ok a => .ok (f a)
  | .error err => .error err
  | .panic => .panic

/-- A method call on an `ESN`: how it ended (the vector `GetState` and `Predict` return,
empty for the others), and the receiver as the call left it. -/
structure Outcome where
  result : GoResult (List ℝ)
  esn : ESN

/-- `Σ_{j < n} row[j] * xs[j]`, added in index order; `none` on a read out of range. -/
def sumProducts (row xs : List ℝ) : ℕ → Option ℝ
  | 0 => some 0
  | n + 1 => do
    let acc ← sumProducts row xs n
    let a ← row[n]?
    let b ← xs[n]?
    pure (acc + a * b)

theorem mapM_length {α β : Type} {f : α → Option β} : ∀ {l : List α} {r : List β},
    l.mapM f = some r → r.length = l.length
  | [], r, h => by rw [List.mapM_nil] at h; cases h; rfl
  | a :: l, r, h => by
    simp only [List.mapM_cons, Option.bind_eq_bind, Option.bind_eq_some, Option.pure_def,
      Option.some.injEq] at h
    obtain ⟨b, -, bs, hbs, rfl⟩ := h
    simp [mapM_length hbs]

theorem mem_mapM {α β : Type} {f : α → Option β} : ∀ {l : List α} {r : List β},
    l.mapM f = some r → ∀ y ∈ r, ∃ x ∈ l, f x = some y
  | [], r, h, y, hy => by rw [List.mapM_nil] at h; cases h; cases hy
  | a :: l, r, h, y, hy => by
    simp only [List.mapM_cons, Option.bind_eq_bind, Option.bind_eq_some, Option.pure_def,
      Option.some.injEq] at h
    obtain ⟨b, hb, bs, hbs, rfl⟩ := h
    rcases List.mem_cons.mp hy with rfl | hy
    · exact ⟨a, List.mem_cons_self _ _, hb⟩
    · obtain ⟨x, hx, hfx⟩ := mem_mapM hbs y hy
      exact ⟨x, List.mem_cons_of_mem _ hx, hfx⟩

theorem mapM_isSome {α β : Type} {f : α → Option β} : ∀ {l : List α},
    (∀ a ∈ l, ∃ b, f a = some b) → ∃ r, l.mapM f = some r
  | [], _ => ⟨[], rfl⟩
  | a :: l, h => by
    obtain ⟨b, hb⟩ := h a (List.mem_cons_self _ _)
    obtain ⟨r, hr⟩ := mapM_isSome fun x hx => h x (List.mem_cons_of_mem _ hx)
    exact ⟨b :: r, by simp only [List.mapM_cons, hb, hr]; rfl⟩

/-- The reads of `sumProducts` stay in range when both slices are long enough. -/
theorem sumProducts_isSome {row xs : List ℝ} : ∀ {n : ℕ}, n ≤ row.length → n ≤ xs.length →
    ∃ v, sumProducts row xs n = some v
  | 0, _, _ => ⟨0, rfl⟩
  | n + 1, h1, h2 => by
    have hr : n < row.length := by omega
    have hx : n < xs.length := by omega
    obtain ⟨v, hv⟩ := sumProducts_isSome hr.le hx.le
    exact ⟨_, by simp only [sumProducts, hv, List.getElem?_eq_getElem hr, List.getElem?_eq_getElem hx]; rfl⟩

/-- A row shorter than the loop panics. -/
theorem sumProducts_eq_none {row xs : List ℝ} : ∀ {n : ℕ}, row.length < n → sumProducts row xs n = none
  | n + 1, h => by
    rcases Nat.lt_or_ge row.length n with hn | hn
    · simp only [sumProducts, sumProducts_eq_none hn]; rfl
    · simp only [sumProducts, List.getElem?_eq_none (by omega : row.length ≤ n)]
      cases sumProducts row xs n <;> rfl

/-- `P` holds of the state an `Except σ σ` carries, whether the loop finished or panicked. -/
def Carries {σ : Type} (P : σ → Prop) : Except σ σ → Prop
  | .ok s => P s
  | .error s => P s

/-- A property every step keeps, also into a panic, holds where a loop stops. -/
theorem foldlM_carries {α σ : Type} (P : σ → Prop) (f : σ → α → Except σ σ)
    (hf : ∀ s a, P s → Carries P (f s a)) : ∀ (l : List α) (s : σ), P s → Carries P (l.foldlM f s)
  | [], s, hs => hs
  | a :: l, s, hs => by
    have h := hf s a hs
    rw [List.foldlM_cons]
    cases hfa : f s a with
    | error s' => rw [hfa] at h; exact h
    | ok s' => rw [hfa] at h; exact foldlM_carries P f hf l s' h

theorem foldlM_isSome {α σ : Type} (f : σ → α → Option σ) :
    ∀ (l : List α), (∀ s, ∀ a ∈ l, ∃ s', f s a = some s') → ∀ s, ∃ r, l.foldlM f s = some r
  | [], _, s => ⟨s, rfl⟩
  | a :: l, h, s => by
    obtain ⟨s', hs'⟩ := h s a (List.mem_cons_self _ _)
    obtain ⟨r, hr⟩ := foldlM_isSome f l (fun t b hb => h t b (List.mem_cons_of_mem _ hb)) s'
    exact ⟨r, by rw [List.foldlM_cons, hs']; exact hr⟩

/-- A loop whose every step returns, keeping `P`, returns. -/
theorem foldlM_ok {α σ : Type} (P : σ → Prop) (f : σ → α → Except σ σ) (l : List α)
    (h : ∀ s, ∀ a ∈ l, P s → ∃ s', f s a = .ok s' ∧ P s') (s : σ) (hs : P s) :
    ∃ r, l.foldlM f s = .ok r ∧ P r := by
  let g s a := match f s a with | .ok t | .error t => t
  refine ⟨_, foldlM_eq_foldl P f g l (fun s a ha hs => ?_) s hs⟩
  obtain ⟨s', h1, h2⟩ := h s a ha hs
  simpa only [g, h1, true_and] using h2

namespace ESN

/-- One entry of the reservoir loop: a uniform draw, and a normal draw below `Sparsity`. -/
noncomputable def drawWeight (sparsity : ℝ) (r : Rand) : ℝ × Rand :=
  if r.peek 0 < sparsity then (r.peek 1, r.skip 2) else (0, r.skip 1)

/-- `n` entries drawn in order. -/
noncomputable def drawRow (sparsity : ℝ) : ℕ → Rand → List ℝ × Rand
  | 0, r => ([], r)
  | n + 1, r =>
    let row := drawRow sparsity n r
    let w := drawWeight sparsity row.2
    (row.1 ++ [w.1], w.2)

/-- `rows` rows of `n` entries, drawn row by row. -/
noncomputable def drawMatrix (sparsity : ℝ) (n : ℕ) : ℕ → Rand → List (List ℝ) × Rand
  | 0, r => ([], r)
  | rows + 1, r =>
    let W := drawMatrix sparsity n rows r
    let row := drawRow sparsity n W.2
    (W.1 ++ [row.1], row.2)

/-- Every entry divided by the norm, and whether that made the entries NaN: a zero norm makes
Go's `0/0` NaN in every entry, which are `0` here (Lean's `x / 0 = 0`) with the flag set. -/
noncomputable def normalize (v : List ℝ) : List ℝ × Bool :=
  let norm := Real.sqrt (v.foldl (fun acc x => acc + x * x) 0)
  (v.map (· / norm), decide (v ≠ [] ∧ norm = 0))

/-- `W` has `n` rows of `n` entries. -/
def Square (W : List (List ℝ)) (n : ℕ) : Prop := W.length = n ∧ ∀ row ∈ W, row.length = n

/-- `newV := W v` in the power iteration: one row of `W` after the other. -/
def mulVec (W : List (List ℝ)) (v : List ℝ) : Option (List ℝ) :=
  W.mapM fun row => sumProducts row v row.length

/-- `k` power-iteration steps, each normalized. Once the flag is set the entries are NaN, and
every later product and division keeps them so. -/
noncomputable def powerIterate (W : List (List ℝ)) : ℕ → List ℝ × Bool → Option (List ℝ × Bool)
  | 0, v => some v
  | k + 1, v => do
    let u := normalize (← mulVec W v.1)
    powerIterate W k (u.1, v.2 || u.2)

/-- The Rayleigh sum `Σ_i (W v)_i * v_i` of `scaleSpectralRadius`. -/
def rayleigh (W : List (List ℝ)) (v : List ℝ) : Option ℝ :=
  (List.range v.length).foldlM (fun acc i => do
    let row ← W[i]?
    let p ← sumProducts row v row.length
    let vi ← v[i]?
    pure (acc + p * vi)) 0

/-- The eigenvalue estimate of `scaleSpectralRadius` from the start vector `v0`: `none` on a read
out of range, `some none` when it is NaN. -/
noncomputable def estimate (W : List (List ℝ)) (v0 : List ℝ) : Option (Option ℝ) := do
  let v ← powerIterate W 50 (normalize v0)
  let e ← rayleigh W v.1
  pure (if v.2 then none else some |e|)

@[simp] theorem normalize_length (v : List ℝ) : (normalize v).1.length = v.length := List.length_map _ _

theorem mulVec_isSome {W : List (List ℝ)} {n : ℕ} (hW : Square W n) {v : List ℝ} (hv : v.length = n) :
    ∃ w, mulVec W v = some w ∧ w.length = n := by
  obtain ⟨w, hw⟩ := mapM_isSome (f := fun row => sumProducts row v row.length) (l := W)
    fun row hrow => sumProducts_isSome le_rfl (by rw [hW.2 row hrow, hv])
  exact ⟨w, hw, by rw [mapM_length hw, hW.1]⟩

theorem powerIterate_isSome {W : List (List ℝ)} {n : ℕ} (hW : Square W n) :
    ∀ (k : ℕ) {v : List ℝ × Bool}, v.1.length = n → ∃ w, powerIterate W k v = some w ∧ w.1.length = n
  | 0, v, hv => ⟨v, rfl, hv⟩
  | k + 1, v, hv => by
    obtain ⟨w, hw, hlen⟩ := mulVec_isSome hW hv
    obtain ⟨u, hu, hulen⟩ := powerIterate_isSome hW k (v := ((normalize w).1, v.2 || (normalize w).2))
      (by rw [normalize_length, hlen])
    exact ⟨u, by simp only [powerIterate, hw, Option.bind_eq_bind, Option.some_bind, hu], hulen⟩

theorem rayleigh_isSome {W : List (List ℝ)} {n : ℕ} (hW : Square W n) {v : List ℝ} (hv : v.length = n) :
    ∃ e, rayleigh W v = some e :=
  foldlM_isSome _ _ (fun _ i hi => by
    have hi : i < v.length := List.mem_range.mp hi
    have hiW : i < W.length := by rw [hW.1, ← hv]; exact hi
    obtain ⟨p, hp⟩ := @sumProducts_isSome W[i] v _ (le_refl W[i].length) (by rw [hW.2 _ (List.getElem_mem hiW), hv])
    exact ⟨_, by simp only [List.getElem?_eq_getElem hiW, List.getElem?_eq_getElem hi, hp,
      Option.bind_eq_bind, Option.some_bind]; rfl⟩) 0

/-- On a square matrix and a start vector of its size, the estimate reads nothing out of
range. -/
theorem estimate_isSome {W : List (List ℝ)} {n : ℕ} (hW : Square W n) {v0 : List ℝ}
    (hv : v0.length = n) : ∃ e, estimate W v0 = some e := by
  obtain ⟨v, hv', hlen⟩ := powerIterate_isSome hW 50 (v := normalize v0) (by rw [normalize_length, hv])
  obtain ⟨e, he⟩ := rayleigh_isSome hW hlen
  exact ⟨_, by simp only [estimate, hv', he, Option.bind_eq_bind, Option.some_bind]; rfl⟩

/-- The scaling step: every weight times `SpectralRadius / eigenvalue` when the estimate is
positive; a NaN estimate fails `eigenvalue > 0`. -/
noncomputable def rescale (spectralRadius : ℝ) (eigenvalue : Option ℝ) (W : List (List ℝ)) :
    List (List ℝ) :=
  match eigenvalue with
  | some e => if e > 0 then W.map (·.map (· * (spectralRadius / e))) else W
  | none => W

/-- `scaleSpectralRadius`, with `v0` the next `len(W)` normal draws; it returns no error. -/
noncomputable def scaleSpectralRadius (esn : ESN) : Option ESN :=
  let n := esn.reservoirWeights.length
  (estimate esn.reservoirWeights ((List.range n).map esn.rng.peek)).map fun e =>
    { esn with reservoirWeights := rescale esn.params.spectralRadius e esn.reservoirWeights,
               rng := esn.rng.skip n }

/-- `1 << level` for a 64-bit `int`. -/
def shiftOne (level : ℕ) : ℤ :=
  if level < 63 then 2 ^ level else if level = 63 then -2 ^ 63 else 0

def initializeMembranes (depth : ℤ) (arousal : ℝ) : List Membrane :=
  (List.range depth.toNat).flatMap fun level => (List.range (shiftOne level).toNat).map fun i =>
    newMembrane ("L" ++ toString level ++ "_M" ++ toString i) level (0.5 + 0.5 * arousal)

theorem mem_initializeMembranes {depth : ℤ} {arousal : ℝ} {m : Membrane}
    (h : m ∈ initializeMembranes depth arousal) :
    ∃ level : ℕ, level < depth.toNat ∧ m.level = level ∧ m.permeability = 0.5 + 0.5 * arousal := by
  obtain ⟨level, hl, hm⟩ := List.mem_flatMap.mp h
  obtain ⟨i, -, rfl⟩ := List.mem_map.mp hm
  exact ⟨level, List.mem_range.mp hl, rfl, rfl⟩

/-- `initializeReservoir`; the error paths around `scaleSpectralRadius` are never taken. -/
noncomputable def initializeReservoir (esn : ESN) : Option ESN :=
  let n := esn.params.reservoirSize.toNat
  let W := drawMatrix esn.params.sparsity n n esn.rng
  ({ esn with reservoirWeights := W.1, rng := W.2 } : ESN).scaleSpectralRadius.map fun esn =>
    { esn with membranes := initializeMembranes esn.params.treeDepth esn.persona.arousal }

end ESN

/-- `NewESN`: the three parameter checks, then `initializeReservoir` on the zero state. -/
noncomputable def newESN (params : ESNParams) (persona : PersonaTrait) (rng : Rand) : GoResult ESN :=
  if params.reservoirSize ≤ 0 then .error "reservoir size must be positive"
  else if params.spectralRadius ≤ 0 ∨ params.spectralRadius ≥ 1.0 then
    .error "spectral radius must be in (0, 1)"
  else if params.leakRate ≤ 0 ∨ params.leakRate > 1.0 then .error "leak rate must be in (0, 1]"
  else match ESN.initializeReservoir ⟨params, persona, [], [], none,
      List.replicate params.reservoirSize.toNat 0, [], rng, false⟩ with
    | some esn => .ok esn
    | none => .panic

end Reservoir
