import Reservoir.Membrane.Evolve

/-! # The priority sort of `Evolve`

`Evolve` orders a copy of its rules with an exchange sort: for each outer index `i` and each
inner index `j > i`, positions `i` and `j` swap when `j` has the higher priority. A swap keeps
the rules, leaves the positions before `i` alone, and only raises the priority at `i`, so after
the inner loop position `i` holds the highest priority of positions `i` on. The result is a
permutation of the rules with non-increasing priorities.
-/

namespace Reservoir.Membrane

open List

/-- The inner loop of the priority sort at outer index `i`, over `n` rules. -/
def exchangePass (n : ℕ) (rs : List EvolutionRule) (i : ℕ) : List EvolutionRule :=
  (List.range' (i + 1) (n - (i + 1))).foldl (fun rs j => exchange rs i j) rs

/-- The rules after the first `k` outer iterations of the priority sort. -/
def sortedAfter (rules : List EvolutionRule) (k : ℕ) : List EvolutionRule :=
  (List.range k).foldl (exchangePass rules.length) rules

theorem sortRules_eq (rules : List EvolutionRule) :
    sortRules rules = sortedAfter rules rules.length := rfl

theorem sortedAfter_succ (rules : List EvolutionRule) (k : ℕ) :
    sortedAfter rules (k + 1) = exchangePass rules.length (sortedAfter rules k) k := by
  rw [sortedAfter, List.range_succ, List.foldl_append]; rfl

section Exchange

variable {rs : List EvolutionRule} {i j : ℕ}

theorem length_exchange (rs : List EvolutionRule) (i j : ℕ) :
    (exchange rs i j).length = rs.length := by
  unfold exchange; split_ifs <;> simp

theorem exchange_getElem?_of_ne {t : ℕ} (hti : i ≠ t) (htj : j ≠ t) :
    (exchange rs i j)[t]? = rs[t]? := by
  unfold exchange; split_ifs <;> simp [List.getElem?_set, hti, htj]

theorem exchange_getD_of_ne {t : ℕ} (hti : i ≠ t) (htj : j ≠ t) (d : EvolutionRule) :
    (exchange rs i j).getD t d = rs.getD t d := by
  simp only [List.getD_eq_getElem?_getD, exchange_getElem?_of_ne hti htj]

theorem take_exchange (hij : i < j) : (exchange rs i j).take i = rs.take i :=
  List.ext_getElem? fun t => by
    rw [List.getElem?_take, List.getElem?_take]
    split_ifs with ht
    · exact exchange_getElem?_of_ne (by omega) (by omega)
    · rfl

theorem exchange_perm (hi : i < rs.length) (hj : j < rs.length) : exchange rs i j ~ rs := by
  unfold exchange
  split_ifs
  · have e : (rs.set i (rs.getD j default)).set j (rs.getD i default) =
        List.ofFn (rs.get ∘ Equiv.swap ⟨i, hi⟩ ⟨j, hj⟩) := by
      refine List.ext_getElem (by simp) fun t h1 h2 => ?_
      simp only [List.getElem_set, List.getElem_ofFn, Function.comp_apply, Equiv.swap_apply_def,
        List.getD_eq_getElem _ _ hi, List.getD_eq_getElem _ _ hj, Fin.ext_iff]
      split_ifs <;> first | rfl | omega | (subst_vars; rfl)
    rw [e]
    exact (Equiv.Perm.ofFn_comp_perm _ _).trans (by rw [List.ofFn_get])
  · exact .refl rs

/-- After the exchange, position `i` has at least the priority of position `j`. -/
theorem exchange_le (hij : i < j) (hj : j < rs.length) :
    ((exchange rs i j).getD j default).priority ≤ ((exchange rs i j).getD i default).priority := by
  unfold exchange
  split_ifs with h
  · simp only [List.getD_eq_getElem?_getD, List.getElem?_set, List.length_set, hij.ne, hij.ne',
      if_false, if_true, hj, hij.trans hj, Option.getD_some] at h ⊢
    exact h.le
  · exact not_lt.mp h

/-- The exchange only raises the priority at `i`. -/
theorem le_exchange (hij : i < j) (hj : j < rs.length) :
    (rs.getD i default).priority ≤ ((exchange rs i j).getD i default).priority := by
  unfold exchange
  split_ifs with h
  · simp only [List.getD_eq_getElem?_getD, List.getElem?_set, List.length_set, hij.ne, hij.ne',
      if_false, if_true, hj, hij.trans hj, Option.getD_some] at h ⊢
    exact h.le
  · exact le_rfl

end Exchange

theorem drop_perm_of_take_eq {α : Type} {l l' : List α} (hp : l ~ l') {a : ℕ}
    (ht : l.take a = l'.take a) : l.drop a ~ l'.drop a := by
  rw [← List.take_append_drop a l, ← List.take_append_drop a l', ht] at hp
  exact (List.perm_append_left_iff _).mp hp

/-- What the inner loop at `i` has done to `rs` once it has compared position `i` with the
positions up to `b`: the rules are permuted, the positions before `i` are untouched, and
position `i` has the highest priority of positions `i` to `b`. -/
structure PassedTo (rs : List EvolutionRule) (i b : ℕ) (ps : List EvolutionRule) : Prop where
  perm : ps ~ rs
  take_eq : ps.take i = rs.take i
  max : ∀ t, i < t → t ≤ b → (ps.getD t default).priority ≤ (ps.getD i default).priority

theorem passedTo_foldl {rs : List EvolutionRule} {i : ℕ} : ∀ m, i + m < rs.length →
    PassedTo rs i (i + m) ((List.range' (i + 1) m).foldl (fun rs j => exchange rs i j) rs)
  | 0, _ => ⟨.refl rs, rfl, fun t h1 h2 => by omega⟩
  | m + 1, h => by
    obtain ⟨hp, ht, hmax⟩ : PassedTo rs i (i + m) _ := passedTo_foldl m (by omega)
    rw [List.range'_concat, List.foldl_append, List.foldl_cons, List.foldl_nil]
    generalize (List.range' (i + 1) m).foldl (fun rs j => exchange rs i j) rs = ps at hp ht hmax ⊢
    have hi : i < ps.length := by rw [hp.length_eq]; omega
    have hj : i + 1 + 1 * m < ps.length := by rw [hp.length_eq]; omega
    refine ⟨(exchange_perm hi hj).trans hp, (take_exchange (by omega)).trans ht,
      fun t h1 h2 => ?_⟩
    rcases Nat.lt_or_ge t (i + m + 1) with h3 | h3
    · calc ((exchange ps i (i + 1 + 1 * m)).getD t default).priority
          = (ps.getD t default).priority := by rw [exchange_getD_of_ne (by omega) (by omega)]
        _ ≤ (ps.getD i default).priority := hmax t h1 (by omega)
        _ ≤ _ := le_exchange (by omega) hj
    · obtain rfl : t = i + 1 + 1 * m := by omega
      exact exchange_le (by omega) hj

theorem exchangePass_passedTo {rs : List EvolutionRule} {i : ℕ} (hi : i < rs.length) :
    PassedTo rs i (rs.length - 1) (exchangePass rs.length rs i) := by
  have h := @passedTo_foldl rs i (rs.length - (i + 1)) (by omega)
  rwa [show i + (rs.length - (i + 1)) = rs.length - 1 by omega] at h

/-- The rules after `k` outer iterations: a permutation of the input in which each of the
first `k` positions has the highest priority of the positions from it on. -/
structure SortedTo (rules : List EvolutionRule) (k : ℕ) (rs : List EvolutionRule) : Prop where
  perm : rs ~ rules
  max : ∀ a < k, ∀ r ∈ rs.drop a, r.priority ≤ (rs.getD a default).priority

theorem SortedTo.succ {rules rs : List EvolutionRule} {k : ℕ} (h : SortedTo rules k rs)
    (hk : k < rules.length) : SortedTo rules (k + 1) (exchangePass rules.length rs k) := by
  rw [← h.perm.length_eq] at hk ⊢
  obtain ⟨hp, ht, hmax⟩ := exchangePass_passedTo hk
  refine ⟨hp.trans h.perm, fun a ha r hr => ?_⟩
  rcases Nat.lt_or_ge a k with hak | hak
  · -- the positions before `k` keep their rules, and the rules from `a` on are permuted
    have hta : (exchangePass rs.length rs k).take a = rs.take a := by
      have h := congrArg (List.take a) ht
      rwa [List.take_take, List.take_take, min_eq_left hak.le] at h
    have hga : (exchangePass rs.length rs k).getD a default = rs.getD a default := by
      rw [List.getD_eq_getElem?_getD, List.getD_eq_getElem?_getD, ← List.getElem?_take_of_lt hak, ht,
        List.getElem?_take_of_lt hak]
    rw [hga]
    exact h.max a hak r ((drop_perm_of_take_eq hp hta).subset hr)
  · obtain rfl : k = a := by omega
    obtain ⟨u, hu, rfl⟩ := List.mem_iff_getElem.mp hr
    rw [List.length_drop, hp.length_eq] at hu
    have hk' : k < (exchangePass rs.length rs k).length := by rw [hp.length_eq]; exact hk
    rw [List.getElem_drop, List.getD_eq_getElem _ _ hk']
    rcases u with _ | u
    · simp
    · have hm := hmax (k + (u + 1)) (by omega) (by omega)
      rwa [List.getD_eq_getElem _ _ (by rw [hp.length_eq]; omega), List.getD_eq_getElem _ _ hk'] at hm

theorem sortedTo_sortedAfter (rules : List EvolutionRule) :
    ∀ k ≤ rules.length, SortedTo rules k (sortedAfter rules k)
  | 0, _ => ⟨.refl rules, fun a ha => absurd ha (Nat.not_lt_zero a)⟩
  | k + 1, hk => by
    rw [sortedAfter_succ]
    exact (sortedTo_sortedAfter rules k (by omega)).succ (by omega)

theorem sortRules_perm (rules : List EvolutionRule) : sortRules rules ~ rules :=
  (sortedTo_sortedAfter rules _ le_rfl).perm

theorem sortRules_sorted (rules : List EvolutionRule) :
    ((sortRules rules).map (·.priority)).Sorted (· ≥ ·) := by
  have h := sortedTo_sortedAfter rules _ le_rfl
  rw [← sortRules_eq] at h
  have hlen := h.perm.length_eq
  refine List.pairwise_iff_getElem.mpr fun a b ha hb hab => ?_
  rw [List.length_map] at ha hb
  rw [List.getElem_map, List.getElem_map, ← List.getD_eq_getElem _ default ha]
  refine h.max a (by omega) _ (List.mem_iff_getElem.mpr ⟨b - a, by simp; omega, ?_⟩)
  rw [List.getElem_drop]
  congr 1
  omega

/-- The exchange sort at the start of `Evolve` returns a permutation of the rules with
non-increasing priorities, and after outer iteration `i` position `i` holds the highest
priority of positions `i` on. -/
theorem sortRules_sorts_by_priority (rules : List EvolutionRule) :
    sortRules rules ~ rules ∧ ((sortRules rules).map (·.priority)).Sorted (· ≥ ·) ∧
      ∀ i < rules.length, ∀ r ∈ (sortedAfter rules (i + 1)).drop i,
        r.priority ≤ ((sortedAfter rules (i + 1)).getD i default).priority :=
  ⟨sortRules_perm rules, sortRules_sorted rules,
    fun i hi => (sortedTo_sortedAfter rules (i + 1) hi).max i (Nat.lt_succ_self i)⟩

end Reservoir.Membrane
