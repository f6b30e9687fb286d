import Reservoir.Membrane.System

/-! # Steps move objects and nothing else

`PassObjects` never meets a nil target in `Step`, so `Step` always succeeds; it and
`InjectObject` leave every field but the object lists, and the step counter, as they were.
-/

namespace Reservoir.MembraneSystem

/-- The transport of one membrane with its `PassObjects` calls already known to succeed. -/
noncomputable def transported (ms : MembraneSystem) (p : ℕ) : MembraneSystem :=
  (ms.get p).children.foldl (fun ms c => ms.moveObjects p c)
    (match (ms.get p).parent with
      | some q => ms.moveObjects p q
      | none => ms)

theorem transport_eq (ms : MembraneSystem) (p : ℕ) : ms.transport p = .ok (ms.transported p) := by
  unfold transport transported
  have h := foldlM_eq_foldl (fun _ => True) (fun (ms : MembraneSystem) c => ms.passStep p c "child")
    (fun ms c => ms.moveObjects p c) (ms.get p).children fun _ _ _ _ => ⟨rfl, trivial⟩
  cases hq : (ms.get p).parent <;> simp only [hq] <;> exact (h _ trivial).1

/-- `Step` never fails. -/
theorem step_eq (ms : MembraneSystem) : ms.step =
    .ok { ms.evolveAll.all.foldl transported ms.evolveAll with
      stepCount := (ms.evolveAll.all.foldl transported ms.evolveAll).stepCount + 1 } := by
  unfold step
  rw [(foldlM_eq_foldl (fun _ => True) _ _ _ (fun ms p _ _ => ⟨transport_eq ms p, trivial⟩) _ trivial).1]
  rfl

theorem injectObject_eq {ms ms' : MembraneSystem} {id : String} {obj : Object}
    (h : ms.injectObject id obj = .ok ms') :
    ∃ p ∈ ms.all, (ms.get p).id = id ∧ ms' = ms.modify p (·.addObject obj) := by
  unfold injectObject at h
  split at h
  · rename_i p hp
    obtain ⟨hid, -⟩ := List.find?_eq_some.mp hp
    exact ⟨p, List.mem_of_find?_eq_some hp, by simpa using hid, (Except.ok.inj h).symm⟩
  · cases h

/-- `ms'` differs from `ms` at most in object lists and the step counter. -/
def SameShape (ms ms' : MembraneSystem) : Prop :=
  ms'.heap.length = ms.heap.length ∧ ms'.all = ms.all ∧ ms'.root = ms.root ∧
  ∀ x, (ms'.get x).frame = (ms.get x).frame

theorem SameShape.refl (ms : MembraneSystem) : SameShape ms ms := ⟨rfl, rfl, rfl, fun _ => rfl⟩

theorem SameShape.trans {a b c : MembraneSystem} (h₁ : SameShape a b) (h₂ : SameShape b c) :
    SameShape a c :=
  ⟨h₂.1.trans h₁.1, h₂.2.1.trans h₁.2.1, h₂.2.2.1.trans h₁.2.2.1, fun x => (h₂.2.2.2 x).trans (h₁.2.2.2 x)⟩

theorem get_of_length_le (ms : MembraneSystem) {x : ℕ} (hx : ms.heap.length ≤ x) :
    ms.get x = default := by
  simp [get, List.getD_eq_getElem?_getD, List.getElem?_eq_none hx]

theorem sameShape_modify (ms : MembraneSystem) (p : ℕ) {f : Membrane → Membrane}
    (hf : ∀ m, (f m).frame = m.frame) : SameShape ms (ms.modify p f) := by
  refine ⟨length_modify _ _ _, rfl, rfl, fun x => ?_⟩
  by_cases hx : x < ms.heap.length
  · rw [get_modify _ _ _ _ hx]; split_ifs <;> simp [hf]
  · rw [get_of_length_le _ (by simpa using hx), get_of_length_le _ (by omega)]

theorem sameShape_moveObjects (ms : MembraneSystem) (s t : ℕ) : SameShape ms (ms.moveObjects s t) :=
  (sameShape_modify _ _ fun m => by simp).trans (sameShape_modify _ _ fun _ => rfl)

theorem sameShape_foldl {α : Type} (g : MembraneSystem → α → MembraneSystem)
    (hg : ∀ ms x, SameShape ms (g ms x)) : ∀ (l : List α) (ms : MembraneSystem), SameShape ms (l.foldl g ms)
  | [], ms => .refl ms
  | x :: l, ms => (hg ms x).trans (sameShape_foldl g hg l (g ms x))

theorem sameShape_transported (ms : MembraneSystem) (p : ℕ) : SameShape ms (ms.transported p) := by
  unfold transported
  refine .trans ?_ (sameShape_foldl _ (fun ms c => sameShape_moveObjects ms p c) _ _)
  split
  · exact sameShape_moveObjects _ _ _
  · exact .refl _

theorem sameShape_evolveAll (ms : MembraneSystem) : SameShape ms ms.evolveAll :=
  sameShape_foldl (fun ms p => ms.modify p Membrane.evolve)
    (fun ms p => sameShape_modify ms p Membrane.evolve_frame) _ _

theorem sameShape_step {ms ms' : MembraneSystem} (h : ms.step = .ok ms') : SameShape ms ms' := by
  rw [step_eq] at h
  cases h
  exact (sameShape_evolveAll ms).trans (sameShape_foldl _ sameShape_transported _ _)

theorem sameShape_injectObject {ms ms' : MembraneSystem} {id : String} {obj : Object}
    (h : ms.injectObject id obj = .ok ms') : SameShape ms ms' := by
  obtain ⟨p, -, -, rfl⟩ := injectObject_eq h
  exact sameShape_modify _ _ fun _ => rfl

theorem Reachable.sameShape {depth : ℤ} {feeds : String → Prop} {ms : MembraneSystem}
    (h : Reachable depth feeds ms) : SameShape (newMembraneSystem depth) ms := by
  induction h with
  | init => exact .refl _
  | inject _ _ hi ih => exact ih.trans (sameShape_injectObject hi)
  | step _ hs ih => exact ih.trans (sameShape_step hs)

theorem stepCount_foldl {α : Type} (g : MembraneSystem → α → MembraneSystem)
    (hg : ∀ ms x, (g ms x).stepCount = ms.stepCount) :
    ∀ (l : List α) (ms : MembraneSystem), (l.foldl g ms).stepCount = ms.stepCount
  | [], _ => rfl
  | x :: l, ms => (stepCount_foldl g hg l (g ms x)).trans (hg ms x)

theorem stepCount_transported (ms : MembraneSystem) (p : ℕ) :
    (ms.transported p).stepCount = ms.stepCount := by
  unfold transported
  rw [stepCount_foldl (fun ms c => ms.moveObjects p c) fun _ _ => rfl]
  split <;> rfl

/-- `Step` returns, one step further on. -/
theorem step_stepCount (ms : MembraneSystem) :
    ∃ ms', ms.step = .ok ms' ∧ ms'.stepCount = ms.stepCount + 1 := by
  refine ⟨_, step_eq ms, ?_⟩
  dsimp only
  rw [stepCount_foldl transported stepCount_transported, evolveAll,
    stepCount_foldl (fun ms p => ms.modify p Membrane.evolve) fun _ _ => rfl]

end Reservoir.MembraneSystem
