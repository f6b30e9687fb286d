import Mathlib

/-! # Membranes, objects and evolution rules

The P-system data of `membrane.go`. A `*Membrane` pointer is an address into the heap
of a `MembraneSystem`, so `parent` and `children` hold addresses and a nil child or a nil
entry of `All` is not represented (a nil parent is `none`); float64 values are reals.
-/

namespace Reservoir

/-- `Object`: a typed token with a value, a charge and a mobility. -/
structure Object where
  type : String
  value : ℝ
  charge : ℤ
  mobility : ℝ

instance : Inhabited Object := ⟨⟨"", 0, 0, 0⟩⟩

/-- `EvolutionRule`; a nil `Transform` is `none`. A transform is a total function, as those of
`CreateDefaultRules` are, so a `Transform` that panics is not represented. `Conditions` is never
read or set. -/
structure EvolutionRule where
  name : String
  priority : ℤ
  inputTypes : List String
  outputTypes : List String
  transform : Option (List Object → List Object)

instance : Inhabited EvolutionRule := ⟨⟨"", 0, [], [], none⟩⟩

structure Membrane where
  id : String
  level : ℤ
  permeability : ℝ
  objects : List Object
  rules : List EvolutionRule
  parent : Option ℕ
  children : List ℕ

def newMembrane (id : String) (level : ℤ) (permeability : ℝ) : Membrane :=
  ⟨id, level, permeability, [], [], none, []⟩

instance : Inhabited Membrane := ⟨newMembrane "" 0 0⟩

namespace Membrane

def addObject (m : Membrane) (obj : Object) : Membrane := { m with objects := m.objects ++ [obj] }

def addRule (m : Membrane) (rule : EvolutionRule) : Membrane := { m with rules := m.rules ++ [rule] }

/-- `ComputeDissolution`: more than ten charged objects. -/
def computeDissolution (m : Membrane) : Bool := 10 < m.objects.countP (·.charge ≠ 0)

/-- The fields other than `objects`: everything a system step leaves alone. -/
def frame (m : Membrane) : Membrane := { m with objects := [] }

@[simp] theorem addObject_objects (m : Membrane) (obj : Object) :
    (m.addObject obj).objects = m.objects ++ [obj] := rfl
@[simp] theorem addObject_frame (m : Membrane) (obj : Object) : (m.addObject obj).frame = m.frame := rfl
@[simp] theorem foldl_addObject (objs : List Object) : ∀ m : Membrane,
    objs.foldl addObject m = { m with objects := m.objects ++ objs } := by
  induction objs with
  | nil => intro m; simp
  | cons o os ih => intro m; rw [List.foldl_cons, ih]; simp [addObject]

@[simp] theorem frame_objects (m : Membrane) (os : List Object) :
    ({ m with objects := os } : Membrane).frame = m.frame := rfl

end Membrane

/-- `CreateDefaultRules`. -/
def createDefaultRules : List EvolutionRule :=
  [{ name := "spam_detection", priority := 100, inputTypes := ["token", "negative_signal"],
     outputTypes := ["spam_score"],
     transform := some fun objs =>
       [⟨"spam_score", ((objs.filter (·.charge < 0)).map Object.value).sum, -1, 0.8⟩] },
   { name := "ham_detection", priority := 100, inputTypes := ["token", "positive_signal"],
     outputTypes := ["ham_score"],
     transform := some fun objs =>
       [⟨"ham_score", ((objs.filter (0 < ·.charge)).map Object.value).sum, 1, 0.8⟩] },
   { name := "affective_modulation", priority := 50, inputTypes := ["emotion_signal"],
     outputTypes := ["modulated_signal"],
     transform := some fun objs =>
       objs.map fun obj => { obj with value := obj.value * 1.1, type := "modulated_signal" } }]

/-- A loop each of whose steps returns `g` of its state, keeping `P`, returns the fold of `g`,
which satisfies `P`. -/
theorem foldlM_eq_foldl {α σ ε : Type} (P : σ → Prop) (f : σ → α → Except ε σ) (g : σ → α → σ) :
    ∀ (l : List α), (∀ s, ∀ a ∈ l, P s → f s a = .ok (g s a) ∧ P (g s a)) →
      ∀ s, P s → l.foldlM f s = .ok (l.foldl g s) ∧ P (l.foldl g s)
  | [], _, _, hs => ⟨rfl, hs⟩
  | a :: l, h, s, hs => by
    obtain ⟨hf, hP⟩ := h s a (List.mem_cons_self _ _) hs
    rw [List.foldlM_cons, hf, List.foldl_cons]
    exact foldlM_eq_foldl P f g l (fun t b hb => h t b (List.mem_cons_of_mem _ hb)) _ hP

end Reservoir
