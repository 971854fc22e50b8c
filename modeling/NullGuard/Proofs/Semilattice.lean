import NullGuard.Proofs.States

/-!
# Analysis states form a join semilattice

A state whose entries name distinct cells (`AnalysisState.Distinct`) is, for the analysis, the
function `get` from cells to the validation diamond: two such states are equal exactly when they
read the same at every cell (`equiv_iff`), and their join reads as the pointwise join
(`get_merge`). The order reads cell by cell too (`le_iff_get`). So each law of a join
semilattice holds of states, up to their equality, because it holds of the diamond at each cell,
whatever keys, `unknown` entries and tracking predicates the states have:

* `merge_equiv_comm`, `merge_equiv_assoc`, `merge_self_equiv`, `empty_merge_equiv`: the join is
  commutative, associative and idempotent, with the empty state as its identity;
* `le_iff_equiv_merge`: `a ⊑ b` exactly when `a ⊔ b` equals `b`, and `equiv_iff_le_le`: two states
  are equal exactly when each is below the other; `le_refl`, `le_trans`;
* `le_merge_left`, `le_merge_right`, `merge_le`: the join is the least upper bound;
* `joinAll_equiv_of_perm`: joining a list of states does not depend on the order of the list.

States are dictionaries: every state the operations build names distinct cells
(`distinct_ofList`, `Distinct.discard`, `distinct_joinAll`, and `States.lean`). States are values,
so a join leaves both its operands as they were.
-/

namespace NullGuard

namespace Validation

theorem eq_iff_le_le (a b : Validation) : a = b ↔ a.le b = true ∧ b.le a = true := by
  cases a <;> cases b <;> decide

/-- The lattice's equality test, read off the order, is equality. -/
theorem eq_eq_true_iff (a b : Validation) : a.eq b = true ↔ a = b := by
  cases a <;> cases b <;> decide

theorem isBottom_iff (a : Validation) : a.isBottom = true ↔ a = .unknown :=
  eq_eq_true_iff a bottom

/-- Joining a list of states from the bottom does not depend on the order of the list. -/
theorem joinAll_perm {xs ys : List Validation} (h : xs.Perm ys) : joinAll xs = joinAll ys :=
  h.foldl_eq' (fun x _ y _ z => by rw [join_assoc, join_comm x y, ← join_assoc]) bottom

end Validation

namespace AnalysisState

/-! ### Every state the operations build names distinct cells -/

theorem Distinct.discard {s : AnalysisState} (hs : s.Distinct) (l : Location) : (s.discard l).Distinct :=
  (List.filter_sublist.map _).nodup hs

theorem distinct_ofList (tracks : Location → Bool) (es : List (Location × Validation)) :
    (ofList tracks es).Distinct :=
  List.foldlRecOn (motive := Distinct) es _ (distinct_empty tracks) fun _ ht e _ => ht.set e.1 e.2

theorem distinct_joinAll (tracks : Location → Bool) (ss : List AnalysisState) : (joinAll tracks ss).Distinct :=
  List.foldlRecOn (motive := Distinct) ss merge (distinct_empty tracks) fun _ ht s _ => ht.merge s

/-! ### Reading the order and the joins cell by cell -/

theorem get_empty (tracks : Location → Bool) (l : Location) : (empty tracks).get l = .unknown := rfl

/-- The order compares the states at every cell. -/
theorem le_iff_get {a : AnalysisState} (ha : a.Distinct) (b : AnalysisState) :
    a.le b = true ↔ ∀ l, (a.get l).le (b.get l) = true := by
  unfold le
  rw [List.all_eq_true]
  constructor
  · intro h l
    by_cases hl : a.get l = .unknown
    · rw [hl]
      rfl
    · -- the value read at `l` is that of an entry naming the cell of `l`
      obtain ⟨k, hk, hkl⟩ := exists_mem_of_get_ne hl
      have := h (k, a.get l) hk
      rwa [get_congr b hkl] at this
  · intro h e he
    rw [← ha.get_of_mem he]
    exact h e.1

/-- The join of a list reads, at every cell, as the join of what its states read there. -/
theorem get_joinAll (tracks : Location → Bool) (l : Location) :
    ∀ {ss : List AnalysisState}, (∀ s ∈ ss, s.Distinct) →
      (joinAll tracks ss).get l = Validation.joinAll (ss.map (·.get l)) := by
  -- the fold over states and the fold over their values at `l` advance together
  have step : ∀ (ss : List AnalysisState) (acc : AnalysisState), (∀ s ∈ ss, s.Distinct) →
      (ss.foldl merge acc).get l = (ss.map (·.get l)).foldl Validation.join (acc.get l) := by
    intro ss
    induction ss with
    | nil => intro acc _; rfl
    | cons s ss ih =>
      intro acc hss
      rw [List.foldl_cons, ih _ fun t ht => hss t (List.mem_cons_of_mem _ ht),
        get_merge acc (hss s List.mem_cons_self)]
      rfl
  intro ss hss
  exact step ss (empty tracks) hss

/-! ### The laws -/

section Laws

theorem merge_self_equiv {a : AnalysisState} (ha : a.Distinct) : (a.merge a).equiv a = true := by
  rw [equiv_iff (ha.merge a) ha]
  intro l
  rw [get_merge a ha, Validation.join_self]

/-- The empty state, whatever it tracks, is the identity of the join. -/
theorem empty_merge_equiv {a : AnalysisState} (ha : a.Distinct) (tracks : Location → Bool) :
    ((empty tracks).merge a).equiv a = true := by
  rw [equiv_iff ((distinct_empty tracks).merge a) ha]
  intro l
  rw [get_merge _ ha, get_empty, Validation.unknown_join]

theorem le_refl {a : AnalysisState} (ha : a.Distinct) : a.le a = true :=
  (le_iff_get ha a).mpr fun l => Validation.le_refl (a.get l)

variable {a b c : AnalysisState} (ha : a.Distinct) (hb : b.Distinct) (hc : c.Distinct)
include ha hb

theorem merge_equiv_comm : (a.merge b).equiv (b.merge a) = true := by
  rw [equiv_iff (ha.merge b) (hb.merge a)]
  intro l
  rw [get_merge a hb, get_merge b ha, Validation.join_comm]

include hc in
theorem merge_equiv_assoc : ((a.merge b).merge c).equiv (a.merge (b.merge c)) = true := by
  rw [equiv_iff ((ha.merge b).merge c) (ha.merge (b.merge c))]
  intro l
  rw [get_merge _ hc, get_merge a hb, get_merge a (hb.merge c), get_merge b hc, Validation.join_assoc]

theorem le_iff_equiv_merge : a.le b = true ↔ (a.merge b).equiv b = true := by
  rw [le_iff_get ha, equiv_iff (ha.merge b) hb]
  simp only [get_merge a hb, Validation.le_iff_join]

theorem equiv_iff_le_le : a.equiv b = true ↔ a.le b = true ∧ b.le a = true := by
  rw [equiv_iff ha hb, le_iff_get ha, le_iff_get hb, ← forall_and]
  simp only [Validation.eq_iff_le_le]

theorem le_trans : a.le b = true → b.le c = true → a.le c = true := by
  rw [le_iff_get ha, le_iff_get hb, le_iff_get ha]
  exact fun hab hbc l => Validation.le_trans (hab l) (hbc l)

theorem le_merge_left : a.le (a.merge b) = true := by
  rw [le_iff_get ha]
  intro l
  rw [get_merge a hb]
  exact Validation.le_join_left _ _

omit ha in
theorem le_merge_right : b.le (a.merge b) = true := by
  rw [le_iff_get hb]
  intro l
  rw [get_merge a hb]
  exact Validation.le_join_right _ _

/-- The join is below every upper bound of its operands. -/
theorem merge_le (hac : a.le c = true) (hbc : b.le c = true) : (a.merge b).le c = true := by
  rw [le_iff_get ha] at hac
  rw [le_iff_get hb] at hbc
  rw [le_iff_get (ha.merge b)]
  intro l
  rw [get_merge a hb]
  exact Validation.join_le _ _ _ (hac l) (hbc l)

end Laws

/-- Joining a list of states does not depend on the order of the list. -/
theorem joinAll_equiv_of_perm (tracks : Location → Bool) {ss ss' : List AnalysisState}
    (hss : ∀ s ∈ ss, s.Distinct) (h : ss.Perm ss') : (joinAll tracks ss).equiv (joinAll tracks ss') = true := by
  have hss' : ∀ s ∈ ss', s.Distinct := fun s hs => hss s (h.mem_iff.mpr hs)
  rw [equiv_iff (distinct_joinAll tracks ss) (distinct_joinAll tracks ss')]
  intro l
  rw [get_joinAll tracks l hss, get_joinAll tracks l hss']
  exact Validation.joinAll_perm (h.map _)

/-- The laws of a join semilattice for the states `a`, `b`, `c`, the empty state tracking
`tracks` and the joins of lists of states, up to the equality of states: the join is commutative,
associative and idempotent with the empty state as identity, the order is the one the join
induces and equality is the two orders together, the order is a preorder, the join is the least
upper bound, and the join of a list does not depend on the order of the list. -/
structure JoinLaws (a b c : AnalysisState) (tracks : Location → Bool) : Prop where
  merge_comm : (a.merge b).equiv (b.merge a) = true
  merge_assoc : ((a.merge b).merge c).equiv (a.merge (b.merge c)) = true
  merge_self : (a.merge a).equiv a = true
  empty_merge : ((empty tracks).merge a).equiv a = true
  le_iff_merge : a.le b = true ↔ (a.merge b).equiv b = true
  equiv_iff_le : a.equiv b = true ↔ a.le b = true ∧ b.le a = true
  le_refl : a.le a = true
  le_trans : a.le b = true → b.le c = true → a.le c = true
  le_merge_left : a.le (a.merge b) = true
  le_merge_right : b.le (a.merge b) = true
  merge_le : a.le c = true → b.le c = true → (a.merge b).le c = true
  joinAll_perm : ∀ ss ss' : List AnalysisState, (∀ s ∈ ss, s.Distinct) → ss.Perm ss' →
    (joinAll tracks ss).equiv (joinAll tracks ss') = true

/-- States whose entries name distinct cells obey the laws of a join semilattice, whatever their
keys, `unknown` entries and tracking predicates. -/
theorem merge_joinLaws {a b c : AnalysisState} (ha : a.Distinct) (hb : b.Distinct) (hc : c.Distinct)
    (tracks : Location → Bool) : JoinLaws a b c tracks where
  merge_comm := merge_equiv_comm ha hb
  merge_assoc := merge_equiv_assoc ha hb hc
  merge_self := merge_self_equiv ha
  empty_merge := empty_merge_equiv ha tracks
  le_iff_merge := le_iff_equiv_merge ha hb
  equiv_iff_le := equiv_iff_le_le ha hb
  le_refl := le_refl ha
  le_trans := le_trans ha hb
  le_merge_left := le_merge_left ha hb
  le_merge_right := le_merge_right hb
  merge_le := merge_le ha hb
  joinAll_perm _ _ hss h := joinAll_equiv_of_perm tracks hss h

/-- A validated text key with an `unknown` integer key, and the truth value `true` not
validated: `1` and `true` name the same cell. The third state tracks nothing. -/
theorem merge_joinLaws_mixedKeys :
    (ofList (fun _ => true) [(.cell (.text "x") none, .validated), (.cell (.int 1) none, .unknown)]).Distinct ∧
    (ofList (fun _ => true) [(.cell (.bool true) none, .notValidated)]).Distinct ∧
    (empty fun _ => false).Distinct ∧
    JoinLaws (ofList (fun _ => true) [(.cell (.text "x") none, .validated), (.cell (.int 1) none, .unknown)])
      (ofList (fun _ => true) [(.cell (.bool true) none, .notValidated)]) (empty fun _ => false) fun _ => false :=
  ⟨distinct_ofList _ _, distinct_ofList _ _, distinct_empty _,
    merge_joinLaws (distinct_ofList _ _) (distinct_ofList _ _) (distinct_empty _) _⟩

end AnalysisState

end NullGuard
