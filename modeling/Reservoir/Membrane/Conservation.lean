import Reservoir.Membrane.Shape

/-! # A step conserves objects

The evolve phase replaces, in each membrane, the objects the accepted matches consume by
what their transforms produce; the transport phase moves objects between two distinct
registered membranes at a time, so the multiset of all objects is unchanged by it.
-/

namespace Reservoir.MembraneSystem

noncomputable instance : DecidableEq Object := Classical.decEq _

/-- The objects of the registered membranes, as a multiset. -/
def allObjects (ms : MembraneSystem) : Multiset Object :=
  (ms.all.map fun p => ((ms.get p).objects : Multiset Object)).sum

/-- The objects the evolve phase of a step consumes, and those it produces. -/
def consumedObjects (ms : MembraneSystem) : Multiset Object :=
  (ms.all.map fun p => ((ms.get p).consumed : Multiset Object)).sum
def producedObjects (ms : MembraneSystem) : Multiset Object :=
  (ms.all.map fun p => ((ms.get p).produced : Multiset Object)).sum

theorem evolve_add_consumed (m : Membrane) :
    (m.evolve.objects : Multiset Object) + m.consumed = m.objects + m.produced := by
  have h := Multiset.coe_eq_coe.mpr (Membrane.pick_append_perm m.objects (· ∈ m.evolveRun.1))
  rw [← Multiset.coe_add] at h
  simp only [Membrane.evolve, Membrane.consumed, Membrane.produced, ← Multiset.coe_add, ← h]
  abel

theorem get_evolveFold (L : List ℕ) (hL : L.Nodup) : ∀ (ms : MembraneSystem),
    (∀ p ∈ L, p < ms.heap.length) → ∀ x,
    (L.foldl (fun ms p => ms.modify p Membrane.evolve) ms).get x =
      if x ∈ L then (ms.get x).evolve else ms.get x := by
  induction L with
  | nil => intro ms _ x; simp
  | cons p L ih =>
    intro ms hv x
    obtain ⟨hpL, hnd⟩ := List.nodup_cons.mp hL
    rw [List.foldl_cons, ih hnd _ (fun q hq => by simpa using hv q (List.mem_cons_of_mem _ hq))]
    by_cases hxp : x = p
    · subst hxp; simp [hpL, hv x (List.mem_cons_self _ _)]
    · simp [hxp, get_modify_ne _ _ (Ne.symm hxp)]

theorem allObjects_evolveAll (ms : MembraneSystem) (hnd : ms.all.Nodup)
    (hv : ∀ p ∈ ms.all, p < ms.heap.length) :
    allObjects ms.evolveAll + consumedObjects ms = allObjects ms + producedObjects ms := by
  have hg := get_evolveFold ms.all hnd ms hv
  have ha : ms.evolveAll.all = ms.all := (sameShape_evolveAll ms).2.1
  simp only [allObjects, consumedObjects, producedObjects, ha, ← List.sum_map_add]
  refine congrArg List.sum (List.map_congr_left fun p hp => ?_)
  rw [show ms.evolveAll.get p = (ms.get p).evolve by rw [evolveAll, hg, if_pos hp]]
  exact evolve_add_consumed _

theorem consumed_le (m : Membrane) : (m.consumed : Multiset Object) ≤ m.objects := by
  have h := Multiset.coe_eq_coe.mpr (Membrane.pick_append_perm m.objects (· ∈ m.evolveRun.1))
  rw [← Multiset.coe_add] at h
  exact h ▸ Multiset.le_add_left _ _

/-- Changing one registered membrane changes the total by exactly its objects. -/
theorem sum_modify (ms : MembraneSystem) (f : Membrane → Membrane) (L : List ℕ) (hL : L.Nodup)
    {x : ℕ} (hx : x ∈ L) (hxv : x < ms.heap.length) :
    (L.map fun p => (((ms.modify x f).get p).objects : Multiset Object)).sum + (ms.get x).objects =
      (L.map fun p => ((ms.get p).objects : Multiset Object)).sum + (f (ms.get x)).objects := by
  induction L with
  | nil => cases hx
  | cons y L ih =>
    obtain ⟨hyL, hnd⟩ := List.nodup_cons.mp hL
    simp only [List.map_cons, List.sum_cons]
    by_cases hxy : x = y
    · subst hxy
      have hrest : (L.map fun p => (((ms.modify x f).get p).objects : Multiset Object)) =
          L.map fun p => ((ms.get p).objects : Multiset Object) :=
        List.map_congr_left fun p hp => by
          rw [get_modify_ne _ _ (by rintro rfl; exact hyL hp)]
      rw [get_modify_self _ _ _ hxv, hrest]; abel
    · rw [get_modify_ne _ _ hxy, add_assoc, ih hnd (List.mem_of_ne_of_mem hxy hx), ← add_assoc]

theorem moveObjects_eq (ms : MembraneSystem) (s t : ℕ) : ms.moveObjects s t =
    (ms.modify t fun tm => { tm with
      objects := tm.objects ++ (ms.get s).objects.filter (Passes (ms.get s).permeability ·) }).modify s
      fun sm => { sm with objects := (ms.get s).objects.filter (¬ Passes (ms.get s).permeability ·) } := by
  simp only [moveObjects, Membrane.foldl_addObject]

theorem allObjects_moveObjects (ms : MembraneSystem) (hnd : ms.all.Nodup)
    (hv : ∀ p ∈ ms.all, p < ms.heap.length) {s t : ℕ} (hs : s ∈ ms.all) (ht : t ∈ ms.all)
    (hst : s ≠ t) : allObjects (ms.moveObjects s t) = allObjects ms := by
  have h1 := sum_modify ms (fun tm => { tm with
    objects := tm.objects ++ (ms.get s).objects.filter (Passes (ms.get s).permeability ·) }) ms.all hnd ht (hv t ht)
  have h2 := sum_modify (ms.modify t fun tm => { tm with
      objects := tm.objects ++ (ms.get s).objects.filter (Passes (ms.get s).permeability ·) })
    (fun sm => { sm with objects := (ms.get s).objects.filter (¬ Passes (ms.get s).permeability ·) })
    ms.all hnd hs (by simpa using hv s hs)
  have hsplit := Multiset.filter_add_not (Passes (ms.get s).permeability) ((ms.get s).objects : Multiset Object)
  rw [get_modify_ne _ _ (Ne.symm hst)] at h2
  simp only [Multiset.filter_coe, ← Multiset.coe_add] at h1 h2 hsplit
  rw [allObjects, allObjects, moveObjects_eq, all_modify, all_modify]
  apply @add_right_cancel _ _ _ _ (((ms.get s).objects : Multiset Object) + (ms.get t).objects)
  rw [← add_assoc, h2, add_right_comm, h1, ← hsplit]; abel

/-- Registered membranes sit at distinct valid addresses, and each one's parent and children
are registered membranes other than itself. -/
def Linked (ms : MembraneSystem) : Prop :=
  ms.all.Nodup ∧ (∀ p ∈ ms.all, p < ms.heap.length) ∧ ∀ p ∈ ms.all,
    (∀ q, (ms.get p).parent = some q → q ∈ ms.all ∧ q ≠ p) ∧
    ∀ c ∈ (ms.get p).children, c ∈ ms.all ∧ c ≠ p

theorem Linked.of_sameShape {ms ms' : MembraneSystem} (h : SameShape ms ms') (hl : Linked ms) :
    Linked ms' := by
  obtain ⟨hlen, hall, -, hf⟩ := h
  have hq : ∀ x, (ms'.get x).parent = (ms.get x).parent := fun x => (congrArg Membrane.parent (hf x) :)
  have hc : ∀ x, (ms'.get x).children = (ms.get x).children :=
    fun x => (congrArg Membrane.children (hf x) :)
  simpa only [Linked, hall, hlen, hq, hc] using hl

theorem Reachable.linked {depth : ℤ} {feeds : String → Prop} {ms : MembraneSystem}
    (h : Reachable depth feeds ms) : Linked ms := by
  obtain ⟨ha, -, hp⟩ := reachable_links h
  exact ⟨ha ▸ List.nodup_range _, fun p hp => List.mem_range.mp (ha ▸ hp), hp⟩

theorem allObjects_foldl_moveObjects (p : ℕ) : ∀ (cs : List ℕ) (ms : MembraneSystem), Linked ms →
    p ∈ ms.all → (∀ c ∈ cs, c ∈ ms.all ∧ c ≠ p) →
    allObjects (cs.foldl (fun ms c => ms.moveObjects p c) ms) = allObjects ms
  | [], _, _, _, _ => rfl
  | c :: cs, ms, hl, hp, hcs => by
    obtain ⟨hc, hcp⟩ := hcs c (List.mem_cons_self _ _)
    rw [List.foldl_cons, allObjects_foldl_moveObjects p cs _
      (hl.of_sameShape (sameShape_moveObjects ms p c)) hp fun c' h' => hcs c' (List.mem_cons_of_mem _ h'),
      allObjects_moveObjects ms hl.1 hl.2.1 hp hc (Ne.symm hcp)]

/-- The passes of one membrane, to its parent and then to each child, only move objects. -/
theorem allObjects_transported (ms : MembraneSystem) (hl : Linked ms) {p : ℕ} (hp : p ∈ ms.all) :
    allObjects (ms.transported p) = allObjects ms := by
  obtain ⟨hpar, hch⟩ := hl.2.2 p hp
  unfold transported
  cases hq : (ms.get p).parent with
  | none => exact allObjects_foldl_moveObjects p _ ms hl hp hch
  | some q =>
    obtain ⟨hqa, hqp⟩ := hpar q hq
    rw [allObjects_foldl_moveObjects p _ _ (hl.of_sameShape (sameShape_moveObjects ms p q)) hp hch,
      allObjects_moveObjects ms hl.1 hl.2.1 hp hqa (Ne.symm hqp)]

theorem allObjects_foldl_transported : ∀ (L : List ℕ) (ms : MembraneSystem), Linked ms →
    (∀ p ∈ L, p ∈ ms.all) → allObjects (L.foldl transported ms) = allObjects ms
  | [], _, _, _ => rfl
  | p :: L, ms, hl, hL => by
    have hs := sameShape_transported ms p
    rw [List.foldl_cons, allObjects_foldl_transported L _ (hl.of_sameShape hs)
      fun q hq => hs.2.1 ▸ hL q (List.mem_cons_of_mem _ hq),
      allObjects_transported ms hl (hL p (List.mem_cons_self _ _))]

theorem consumedObjects_le (ms : MembraneSystem) : consumedObjects ms ≤ allObjects ms :=
  List.sum_le_sum fun p _ => consumed_le (ms.get p)

/-- From a reachable state, `Step` succeeds; its transport phase keeps the multiset of objects,
and over the whole step the objects the accepted matches consume are replaced by those
their transforms produce. -/
theorem step_conserves_objects {depth : ℤ} {feeds : String → Prop} {ms : MembraneSystem}
    (h : Reachable depth feeds ms) : ∃ ms', ms.step = .ok ms' ∧
      allObjects (ms.evolveAll.all.foldl transported ms.evolveAll) = allObjects ms.evolveAll ∧
      consumedObjects ms ≤ allObjects ms ∧
      allObjects ms' = allObjects ms - consumedObjects ms + producedObjects ms := by
  have hl := h.linked
  have hT : allObjects (ms.evolveAll.all.foldl transported ms.evolveAll) = allObjects ms.evolveAll :=
    allObjects_foldl_transported _ _ (hl.of_sameShape (sameShape_evolveAll ms)) fun _ => id
  have hC := consumedObjects_le ms
  refine ⟨_, step_eq ms, hT, hC, @add_right_cancel _ _ _ _ (consumedObjects ms) _ ?_⟩
  calc allObjects (ms.evolveAll.all.foldl transported ms.evolveAll) + consumedObjects ms
      = allObjects ms.evolveAll + consumedObjects ms := congrArg (· + _) hT
    _ = allObjects ms + producedObjects ms := allObjects_evolveAll ms hl.1 hl.2.1
    _ = allObjects ms - consumedObjects ms + producedObjects ms + consumedObjects ms := by
      rw [add_right_comm, tsub_add_cancel_of_le hC]

/-- A step of a depth-3 system after an object was injected at the root accounts for it. -/
theorem step_conserves_objects_after_inject : ∃ ms ms',
    (newMembraneSystem 3).injectObject "root" ⟨"negative_signal", 1, -1, 0.9⟩ = .ok ms ∧
    ms.step = .ok ms' ∧
    allObjects (ms.evolveAll.all.foldl transported ms.evolveAll) = allObjects ms.evolveAll ∧
    consumedObjects ms ≤ allObjects ms ∧
    allObjects ms' = allObjects ms - consumedObjects ms + producedObjects ms :=
  have hi := injectObject_root (topShape_newMembraneSystem 3) ⟨"negative_signal", 1, -1, 0.9⟩
  let ⟨ms', h⟩ := @step_conserves_objects 3 (fun _ => True) _ (.inject trivial .init hi)
  ⟨_, ms', hi, h⟩

end Reservoir.MembraneSystem
