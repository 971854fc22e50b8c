import NullGuard.Dataflow.Solver

/-!
# Lawful domains

The solver asks of a domain only a bottom, a join and an equality (`Dataflow.Domain`). Its
answers mean something when the equality is an equivalence and the join is commutative,
associative and idempotent with the bottom as identity, all up to that equality, and respects
it (`Domain.Lawful`). The order is then the one the join induces: `a ⊑ b` when `a ⊔ b` equals
`b` (`Domain.le`).

From these laws alone: `⊑` is a preorder with the bottom least (`le_refl`, `le_trans`,
`bottom_le`), a join is the least upper bound (`join_le`), and joining related values gives
related results (`join_congr_right`, `foldl_filterMap_congr`).
-/

namespace NullGuard.Dataflow

variable {L : Type}

namespace Domain

/-- `a ⊑ b`: joining `a` into `b` gives `b` back. -/
def le (d : Domain L) (a b : L) : Prop := d.same (d.join a b) b

/-- The join of a list of values, from the bottom. -/
def joinAll (d : Domain L) (xs : List L) : L := xs.foldl d.join d.bottom

/-- The laws of a join semilattice, up to the domain's own equality. -/
structure Lawful (d : Domain L) : Prop where
  same_refl : ∀ a, d.same a a
  same_symm : ∀ {a b}, d.same a b → d.same b a
  same_trans : ∀ {a b c}, d.same a b → d.same b c → d.same a c
  join_comm : ∀ a b, d.same (d.join a b) (d.join b a)
  join_assoc : ∀ a b c, d.same (d.join (d.join a b) c) (d.join a (d.join b c))
  join_self : ∀ a, d.same (d.join a a) a
  bottom_join : ∀ a, d.same (d.join d.bottom a) a
  join_congr : ∀ {a a'} b, d.same a a' → d.same (d.join a b) (d.join a' b)

/-- A transfer function is monotone when it preserves `⊑` at every block. -/
def Monotone {β : Type} (d : Domain L) (f : β → L → L) : Prop :=
  ∀ b x y, d.le x y → d.le (f b x) (f b y)

/-- Two optional values agree: both absent, or both present and equal for the domain. -/
def OptSame (d : Domain L) : Option L → Option L → Prop
  | none, none => True
  | some a, some b => d.same a b
  | _, _ => False

namespace Lawful

variable {d : Domain L} (hd : d.Lawful)
include hd

theorem join_congr_right (a : L) {b b' : L} (h : d.same b b') : d.same (d.join a b) (d.join a b') :=
  hd.same_trans (hd.join_comm a b) (hd.same_trans (hd.join_congr a h) (hd.join_comm b' a))

theorem join_congr₂ {a a' b b' : L} (ha : d.same a a') (hb : d.same b b') :
    d.same (d.join a b) (d.join a' b') :=
  hd.same_trans (hd.join_congr b ha) (hd.join_congr_right a' hb)

theorem le_refl (a : L) : d.le a a := hd.join_self a

theorem bottom_le (a : L) : d.le d.bottom a := hd.bottom_join a

theorem le_of_same {a b : L} (h : d.same a b) : d.le a b :=
  hd.same_trans (hd.join_congr b h) (hd.join_self b)

theorem le_trans {a b c : L} (hab : d.le a b) (hbc : d.le b c) : d.le a c := by
  unfold le at *
  -- a ⊔ c = a ⊔ (b ⊔ c) = (a ⊔ b) ⊔ c = b ⊔ c = c
  have h1 : d.same (d.join a c) (d.join a (d.join b c)) := hd.join_congr_right a (hd.same_symm hbc)
  have h2 : d.same (d.join a (d.join b c)) (d.join (d.join a b) c) := hd.same_symm (hd.join_assoc a b c)
  have h3 : d.same (d.join (d.join a b) c) (d.join b c) := hd.join_congr c hab
  exact hd.same_trans h1 (hd.same_trans h2 (hd.same_trans h3 hbc))

/-- The join is below every upper bound of its arguments. -/
theorem join_le {a b c : L} (hac : d.le a c) (hbc : d.le b c) : d.le (d.join a b) c := by
  unfold le at *
  have h1 : d.same (d.join (d.join a b) c) (d.join a (d.join b c)) := hd.join_assoc a b c
  have h2 : d.same (d.join a (d.join b c)) (d.join a c) := hd.join_congr_right a hbc
  exact hd.same_trans h1 (hd.same_trans h2 hac)

theorem le_join_left (a b : L) : d.le a (d.join a b) := by
  unfold le
  -- a ⊔ (a ⊔ b) = (a ⊔ a) ⊔ b = a ⊔ b
  exact hd.same_trans (hd.same_symm (hd.join_assoc a a b)) (hd.join_congr b (hd.join_self a))

theorem le_join_right (a b : L) : d.le b (d.join a b) :=
  hd.le_trans (hd.le_join_left b a) (hd.le_of_same (hd.join_comm b a))

theorem join_mono {a a' b b' : L} (ha : d.le a a') (hb : d.le b b') : d.le (d.join a b) (d.join a' b') :=
  hd.join_le (hd.le_trans ha (hd.le_join_left a' b')) (hd.le_trans hb (hd.le_join_right a' b'))

/-- A fold of joins stays above its start. -/
theorem le_foldl_join_of_le {x : L} : ∀ (xs : List L) (a : L), d.le x a → d.le x (xs.foldl d.join a)
  | [], _, h => h
  | y :: ys, a, h => le_foldl_join_of_le ys (d.join a y) (hd.le_trans h (hd.le_join_left a y))

/-- A fold of joins stays above each of its values. -/
theorem le_foldl_join_of_mem {x : L} : ∀ (xs : List L) (a : L), x ∈ xs → d.le x (xs.foldl d.join a)
  | _ :: ys, a, .head _ => hd.le_foldl_join_of_le ys _ (hd.le_join_right a x)
  | y :: ys, a, .tail _ h => le_foldl_join_of_mem ys (d.join a y) h

/-- A fold of joins stays below every common upper bound of its start and its values. -/
theorem foldl_join_le {c : L} : ∀ (xs : List L) (a : L), d.le a c → (∀ x ∈ xs, d.le x c) →
    d.le (xs.foldl d.join a) c
  | [], _, ha, _ => ha
  | x :: xs, a, ha, hxs =>
    foldl_join_le xs (d.join a x) (hd.join_le ha (hxs x List.mem_cons_self))
      (fun y hy => hxs y (List.mem_cons_of_mem _ hy))

/-- Folding the joins of values read through two lookups that agree at every key gives equal
results. -/
theorem foldl_filterMap_congr {β : Type} (u v : β → Option L) :
    ∀ (ps : List β) (a a' : L), d.same a a' → (∀ p ∈ ps, d.OptSame (u p) (v p)) →
      d.same ((ps.filterMap u).foldl d.join a) ((ps.filterMap v).foldl d.join a')
  | [], _, _, h, _ => h
  | p :: ps, a, a', h, hps => by
    have hrest := fun a a' h => foldl_filterMap_congr u v ps a a' h
      (fun q hq => hps q (List.mem_cons_of_mem _ hq))
    have hp := hps p List.mem_cons_self
    simp only [List.filterMap_cons]
    cases hu : u p <;> cases hv : v p <;> rw [hu, hv] at hp
    · exact hrest a a' h
    · exact hp.elim
    · exact hp.elim
    · exact hrest _ _ (hd.join_congr₂ h hp)

/-- Folding the joins of values read through two lookups gives related results when the second
finds, at every key the first finds a value, one above it. -/
theorem foldl_filterMap_le {β : Type} (u v : β → Option L) :
    ∀ (ps : List β) (a a' : L), d.le a a' → (∀ p ∈ ps, ∀ y, u p = some y → ∃ y', v p = some y' ∧ d.le y y') →
      d.le ((ps.filterMap u).foldl d.join a) ((ps.filterMap v).foldl d.join a')
  | [], _, _, h, _ => h
  | p :: ps, a, a', h, hps => by
    have hrest := fun a a' h => foldl_filterMap_le u v ps a a' h
      (fun q hq => hps q (List.mem_cons_of_mem _ hq))
    simp only [List.filterMap_cons]
    cases hu : u p with
    | some y =>
      obtain ⟨y', hv, hle⟩ := hps p List.mem_cons_self y hu
      rw [hv]
      exact hrest _ _ (hd.join_mono h hle)
    | none =>
      -- the second fold may join one more value, which only raises it
      cases v p with
      | none => exact hrest a a' h
      | some y' => exact hrest a _ (hd.le_trans h (hd.le_join_left a' y'))

end Lawful

end Domain

end NullGuard.Dataflow
