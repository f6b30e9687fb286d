import Reservoir.Membrane.Evolve

/-! # The membrane system

`MembraneSystem` with the membranes it points to. `heap` holds every allocated membrane
at its address; `NewMembraneSystem` allocates them in the order it registers them in `All`.
`Evolve` never fails, so the evolve phase of `Step` is a plain fold.
-/

namespace Reservoir

structure MembraneSystem where
  heap : List Membrane
  root : ℕ
  all : List ℕ
  stepCount : ℕ

namespace MembraneSystem

/-- Dereferencing a membrane pointer. -/
def get (ms : MembraneSystem) (p : ℕ) : Membrane := ms.heap.getD p default

def modify (ms : MembraneSystem) (p : ℕ) (f : Membrane → Membrane) : MembraneSystem :=
  { ms with heap := ms.heap.modify f p }

/-- A fresh membrane at the next address. -/
def alloc (ms : MembraneSystem) (m : Membrane) : MembraneSystem := { ms with heap := ms.heap ++ [m] }

/-- `parent.AddChild(child)`. -/
def addChild (ms : MembraneSystem) (parent child : ℕ) : MembraneSystem :=
  (ms.modify child fun c => { c with parent := some parent }).modify parent
    fun m => { m with children := m.children ++ [child] }

/-- One iteration of the child loop of `buildHierarchy`, before its recursive call. -/
def spawnChild (ms : MembraneSystem) (parent : ℕ) (currentDepth : ℤ) (i : ℕ) : MembraneSystem :=
  let c := ms.heap.length
  let ms := (ms.alloc (newMembrane ((ms.get parent).id ++ "_" ++ toString i) currentDepth
    (0.5 + 0.1 * currentDepth))).addChild parent c
  createDefaultRules.foldl (fun ms r => ms.modify c (·.addRule r)) { ms with all := ms.all ++ [c] }

/-- `buildHierarchy` with `k = maxDepth - currentDepth` levels still to build. -/
def buildLevels : ℕ → MembraneSystem → ℕ → ℤ → MembraneSystem
  | 0, ms, _, _ => ms
  | k + 1, ms, parent, currentDepth => (List.range 2).foldl (fun ms i =>
      buildLevels k (ms.spawnChild parent currentDepth i) ms.heap.length (currentDepth + 1)) ms

def buildHierarchy (ms : MembraneSystem) (parent : ℕ) (maxDepth currentDepth : ℤ) : MembraneSystem :=
  buildLevels (maxDepth - currentDepth).toNat ms parent currentDepth

end MembraneSystem

def newMembraneSystem (depth : ℤ) : MembraneSystem :=
  MembraneSystem.buildHierarchy ⟨[newMembrane "root" 0 1.0], 0, [0], 0⟩ 0 depth 1

/-- The threshold test of `PassObjects`: the pass probability exceeds one half. -/
def Passes (permeability : ℝ) (obj : Object) : Prop :=
  0.5 < permeability * obj.mobility * (if |(obj.charge : ℝ)| > 0 then 1.2 else 1)

noncomputable instance (permeability : ℝ) : DecidablePred (Passes permeability) :=
  fun _ => Classical.dec _

namespace MembraneSystem

/-- The loop of `PassObjects` into a non-nil `target`: each object that passes the threshold
is added to the target, the others stay. -/
noncomputable def moveObjects (ms : MembraneSystem) (source target : ℕ) : MembraneSystem :=
  let m := ms.get source
  let ms := ms.modify target fun tm =>
    (m.objects.filter (Passes m.permeability ·)).foldl Membrane.addObject tm
  ms.modify source fun sm => { sm with objects := m.objects.filter (¬ Passes m.permeability ·) }

/-- `source.PassObjects(target)`; a nil target is `none`. -/
noncomputable def passObjects (ms : MembraneSystem) (source : ℕ) (target : Option ℕ) :
    Except String MembraneSystem :=
  match target with
  | none => .error "target membrane is nil"
  | some t => .ok (ms.moveObjects source t)

/-- A `PassObjects` call of `Step`, its error wrapped with the direction of the pass. -/
noncomputable def passStep (ms : MembraneSystem) (p t : ℕ) (direction : String) :
    Except String MembraneSystem :=
  Except.mapError (fun e => "passing objects from " ++ (ms.get p).id ++ " to " ++ direction ++ ": " ++ e)
    (ms.passObjects p (some t))

/-- The transport of one membrane in `Step`: to its parent, then to each child. -/
noncomputable def transport (ms : MembraneSystem) (p : ℕ) : Except String MembraneSystem := do
  let m := ms.get p
  let ms ← match m.parent with
    | some q => ms.passStep p q "parent"
    | none => pure ms
  m.children.foldlM (fun ms c => ms.passStep p c "child") ms

def evolveAll (ms : MembraneSystem) : MembraneSystem :=
  ms.all.foldl (fun ms p => ms.modify p Membrane.evolve) ms

noncomputable def step (ms : MembraneSystem) : Except String MembraneSystem := do
  let ms ← ms.evolveAll.all.foldlM transport ms.evolveAll
  pure { ms with stepCount := ms.stepCount + 1 }

def injectObject (ms : MembraneSystem) (membraneID : String) (obj : Object) :
    Except String MembraneSystem :=
  match ms.all.find? fun p => (ms.get p).id = membraneID with
  | some p => .ok (ms.modify p (·.addObject obj))
  | none => .error ("membrane " ++ membraneID ++ " not found")

def collectResults (ms : MembraneSystem) : List Object :=
  (ms.all.filter fun p => (ms.get p).children = []).flatMap fun p => (ms.get p).objects

/-- The systems a caller reaches from `NewMembraneSystem depth` by injecting objects into
membranes whose ID satisfies `feeds` and by stepping. -/
inductive Reachable (depth : ℤ) (feeds : String → Prop) : MembraneSystem → Prop
  | init : Reachable depth feeds (newMembraneSystem depth)
  | inject {ms ms' : MembraneSystem} {id : String} {obj : Object} : feeds id →
      Reachable depth feeds ms → ms.injectObject id obj = .ok ms' → Reachable depth feeds ms'
  | step {ms ms' : MembraneSystem} : Reachable depth feeds ms → ms.step = .ok ms' →
      Reachable depth feeds ms'

theorem get_modify (ms : MembraneSystem) (p q : ℕ) (f : Membrane → Membrane) (hq : q < ms.heap.length) :
    (ms.modify p f).get q = if p = q then f (ms.get q) else ms.get q := by
  simp only [get, modify, List.getD_eq_getElem?_getD, List.getElem?_modify,
    List.getElem?_eq_getElem hq, Option.map_eq_map, Option.map_some', Option.getD_some]

@[simp] theorem get_modify_self (ms : MembraneSystem) (p : ℕ) (f : Membrane → Membrane)
    (hp : p < ms.heap.length) : (ms.modify p f).get p = f (ms.get p) := by
  simp [get_modify _ _ _ _ hp]

theorem get_modify_ne (ms : MembraneSystem) {p q : ℕ} (f : Membrane → Membrane) (h : p ≠ q) :
    (ms.modify p f).get q = ms.get q := by
  by_cases hq : q < ms.heap.length
  · rw [get_modify _ _ _ _ hq, if_neg h]
  · simp only [get, modify, List.getD_eq_getElem?_getD, List.getElem?_modify]
    rw [List.getElem?_eq_none (by omega)]; rfl

@[simp] theorem length_modify (ms : MembraneSystem) (p : ℕ) (f : Membrane → Membrane) :
    (ms.modify p f).heap.length = ms.heap.length := List.length_modify _ _ _
@[simp] theorem all_modify (ms : MembraneSystem) (p : ℕ) (f : Membrane → Membrane) :
    (ms.modify p f).all = ms.all := rfl
@[simp] theorem root_modify (ms : MembraneSystem) (p : ℕ) (f : Membrane → Membrane) :
    (ms.modify p f).root = ms.root := rfl

theorem get_alloc_lt (ms : MembraneSystem) (m : Membrane) {x : ℕ} (hx : x < ms.heap.length) :
    (ms.alloc m).get x = ms.get x := by
  simp only [get, alloc, List.getD_eq_getElem?_getD, List.getElem?_append_left hx]

@[simp] theorem get_alloc_self (ms : MembraneSystem) (m : Membrane) :
    (ms.alloc m).get ms.heap.length = m := by
  simp [get, alloc, List.getD_eq_getElem?_getD]

@[simp] theorem length_alloc (ms : MembraneSystem) (m : Membrane) :
    (ms.alloc m).heap.length = ms.heap.length + 1 := by simp [alloc]

end MembraneSystem

end Reservoir
