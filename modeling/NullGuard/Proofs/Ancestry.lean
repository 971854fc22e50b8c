import Mathlib.Data.List.Nodup
import NullGuard.Program.Basic

/-!
# Walking up the base types

`Program.basesAndSelf` walks from a type through its base types, remembering the types it has
yielded, and stops at the first repeat or at a type without a base. Base links may form cycles,
so the walk carries a fuel of one more than the number of types.

The chain the walk follows is `Program.baseIter`, the base link followed `n` times, and a type
`c` is reached from `t` (`Program.BaseReaches t c`) when some iterate of `t` is `c`. A
`Program.BaseChain` is what a walk from `t` must yield: the first iterates, each once, up to
the first one whose base is missing or was already yielded.

* `basesAndSelf_eq_iff`: the walk yields exactly the base chain, so the fuel never cuts it
  short, and the base chain of a type is unique;
* `derivesFrom_iff_baseReaches`: derivation is reachability along base links, on every type
  graph, cyclic or not; hence it is reflexive and transitive.
-/

namespace NullGuard

namespace Program

/-- The base link followed `n` times from `t`: `t` itself for `n = 0`, and `none` once a type
on the way has no base. -/
def baseIter (p : Program) (t : TypeId) : Nat → Option TypeId
  | 0 => some t
  | n + 1 => (p.baseIter t n).bind fun u => (p.type u).base

/-- `c` is `t` or is reached from `t` by following base links. -/
def BaseReaches (p : Program) (t c : TypeId) : Prop := ∃ n, p.baseIter t n = some c

/-- `L` lists the first iterates of `t`, in order. -/
def Yields (p : Program) (t : TypeId) (L : List TypeId) : Prop :=
  ∀ i (h : i < L.length), p.baseIter t i = some L[i]

/-- What a walk up the base links of `t` yields: the first iterates, each once, up to the one
whose base is missing or already listed. -/
structure BaseChain (p : Program) (t : TypeId) (L : List TypeId) : Prop where
  yields : p.Yields t L
  nodup : L.Nodup
  stops : ∀ u, p.baseIter t L.length = some u → u ∈ L

variable {p : Program}

@[simp] theorem baseIter_zero (t : TypeId) : p.baseIter t 0 = some t := rfl

theorem baseIter_succ (t : TypeId) (n : Nat) :
    p.baseIter t (n + 1) = (p.baseIter t n).bind fun u => (p.type u).base := rfl

/-- Following `m + n` links is following `m`, then `n`. -/
theorem baseIter_add (t : TypeId) (m n : Nat) :
    p.baseIter t (m + n) = (p.baseIter t m).bind fun u => p.baseIter u n := by
  induction n with
  | zero => simp
  | succ n ih => simp only [← Nat.add_assoc, baseIter_succ, ih, Option.bind_assoc]

/-- A chain that reaches `n` links reaches every shorter number of links. -/
theorem isSome_baseIter_of_le {t : TypeId} {m n : Nat} (h : (p.baseIter t n).isSome) (hm : m ≤ n) :
    (p.baseIter t m).isSome := by
  induction n with
  | zero => rwa [Nat.le_zero.mp hm]
  | succ n ih =>
    rcases Nat.le_succ_iff.mp hm with hm | rfl
    · apply ih _ hm
      cases hn : p.baseIter t n with
      | none => simp [baseIter_succ, hn] at h
      | some _ => rfl
    · exact h

/-- Only a type of the program can have a base: any other index names the default type. -/
theorem lt_size_of_base {t b : TypeId} (h : (p.type t).base = some b) : t < p.types.size := by
  by_contra hge
  have hnone : p.types[t]? = none := Array.getElem?_eq_none (Nat.le_of_not_lt hge)
  rw [type, hnone, Option.getD_none] at h
  cases h

/-! ### Reachability -/

theorem baseReaches_refl (t : TypeId) : p.BaseReaches t t := ⟨0, rfl⟩

theorem BaseReaches.trans {t u w : TypeId} (h₁ : p.BaseReaches t u) (h₂ : p.BaseReaches u w) :
    p.BaseReaches t w := by
  obtain ⟨m, hm⟩ := h₁
  obtain ⟨n, hn⟩ := h₂
  exact ⟨m + n, by rw [baseIter_add, hm, Option.bind_some, hn]⟩

/-! ### Base chains -/

theorem Yields.concat {t u : TypeId} {L : List TypeId} (h : p.Yields t L)
    (hu : p.baseIter t L.length = some u) : p.Yields t (L ++ [u]) := by
  intro i hi
  by_cases hlt : i < L.length
  · rw [List.getElem_append_left hlt]
    exact h i hlt
  · have hi' : i = L.length := by
      simp only [List.length_append, List.length_singleton] at hi
      omega
    rw [List.getElem_concat_length hi', hi']
    exact hu

/-- Two lists that both yield the first iterates agree where both are defined. -/
theorem Yields.getElem_eq {t : TypeId} {L M : List TypeId} (hL : p.Yields t L) (hM : p.Yields t M)
    {i : Nat} (hi : i < L.length) (hi' : i < M.length) : L[i] = M[i] :=
  Option.some.inj ((hL i hi).symm.trans (hM i hi'))

/-- A base chain is no longer than any other: its successor would repeat one of its types. -/
theorem BaseChain.length_le {t : TypeId} {L M : List TypeId} (hL : p.BaseChain t L)
    (hM : p.BaseChain t M) : L.length ≤ M.length := by
  by_contra hlt
  replace hlt : M.length < L.length := Nat.lt_of_not_le hlt
  -- the iterate after `M` is listed in `L`, and `M`'s stop condition puts it inside `M`
  have hmem : L[M.length] ∈ M := hM.stops _ (hL.yields _ hlt)
  obtain ⟨j, hj, hjeq⟩ := List.mem_iff_getElem.mp hmem
  have hjL : j < L.length := Nat.lt_trans hj hlt
  have hrepeat : L[j] = L[M.length] := (hL.yields.getElem_eq hM.yields hjL hj).trans hjeq
  have hne : j ≠ M.length := Nat.ne_of_lt hj
  exact hne ((hL.nodup.getElem_inj_iff).mp hrepeat)

/-- A type has one base chain. -/
theorem BaseChain.unique {t : TypeId} {L M : List TypeId} (hL : p.BaseChain t L)
    (hM : p.BaseChain t M) : L = M :=
  List.ext_getElem (Nat.le_antisymm (hL.length_le hM) (hM.length_le hL))
    fun _ hi hi' => hL.yields.getElem_eq hM.yields hi hi'

/-- An iterate no further out than the chain's length is listed in it. -/
theorem BaseChain.mem_of_le_length {t c : TypeId} {L : List TypeId} (h : p.BaseChain t L) {i : Nat}
    (hi : i ≤ L.length) (hc : p.baseIter t i = some c) : c ∈ L := by
  rcases Nat.lt_or_eq_of_le hi with hlt | rfl
  · rw [h.yields i hlt] at hc
    cases hc
    exact List.getElem_mem hlt
  · exact h.stops c hc

/-- A base chain lists exactly the types reached from its start. -/
theorem BaseChain.mem_iff {t c : TypeId} {L : List TypeId} (h : p.BaseChain t L) :
    c ∈ L ↔ p.BaseReaches t c := by
  constructor
  · intro hc
    obtain ⟨i, hi, rfl⟩ := List.mem_iff_getElem.mp hc
    exact ⟨i, h.yields i hi⟩
  · rintro ⟨n, hn⟩
    -- every iterate is listed: induction on the number of links followed
    induction n generalizing c with
    | zero => exact h.mem_of_le_length (Nat.zero_le _) hn
    | succ n ih =>
      obtain ⟨e, he, hbase⟩ := Option.bind_eq_some_iff.mp hn
      obtain ⟨j, hj, rfl⟩ := List.mem_iff_getElem.mp (ih he)
      have hnext : p.baseIter t (j + 1) = some c := by rw [baseIter_succ, h.yields j hj, Option.bind_some, hbase]
      exact h.mem_of_le_length hj hnext

/-! ### The walk -/

/-- The walk has yielded the first iterates of `t`, newest first and each once, and stands at
the next one. -/
structure Walked (p : Program) (t : TypeId) (seen : List TypeId) (u : TypeId) : Prop where
  yields : p.Yields t seen.reverse
  nodup : seen.Nodup
  next : p.baseIter t seen.length = some u

theorem walked_start (t : TypeId) : p.Walked t [] t :=
  ⟨fun _ hi => absurd hi (Nat.not_lt_zero _), List.nodup_nil, rfl⟩

theorem Walked.push {t u b : TypeId} {seen : List TypeId} (h : p.Walked t seen u) (hu : u ∉ seen)
    (hb : (p.type u).base = some b) : p.Walked t (u :: seen) b where
  yields := by
    rw [List.reverse_cons]
    exact h.yields.concat (by rw [List.length_reverse]; exact h.next)
  nodup := h.nodup.cons hu
  next := by rw [List.length_cons, baseIter_succ, h.next, Option.bind_some, hb]

/-- Stopping at a repeat yields the base chain. -/
theorem Walked.chain_of_mem {t u : TypeId} {seen : List TypeId} (h : p.Walked t seen u)
    (hu : u ∈ seen) : p.BaseChain t seen.reverse where
  yields := h.yields
  nodup := List.nodup_reverse.mpr h.nodup
  stops w hw := by
    rw [List.length_reverse, h.next] at hw
    cases hw
    exact List.mem_reverse.mpr hu

/-- Stopping at a type without a base yields the base chain. -/
theorem Walked.chain_of_base_eq_none {t u : TypeId} {seen : List TypeId} (h : p.Walked t seen u)
    (hu : u ∉ seen) (hb : (p.type u).base = none) : p.BaseChain t (u :: seen).reverse where
  yields := by
    rw [List.reverse_cons]
    exact h.yields.concat (by rw [List.length_reverse]; exact h.next)
  nodup := List.nodup_reverse.mpr (h.nodup.cons hu)
  stops w hw := by
    rw [List.length_reverse, List.length_cons, baseIter_succ, h.next, Option.bind_some, hb] at hw
    cases hw

/-- Every type the walk has yielded has a base, so it is a type of the program, and the walk
has yielded each once: it has yielded at most as many types as the program has. -/
theorem Walked.length_le {t u : TypeId} {seen : List TypeId} (h : p.Walked t seen u) :
    seen.length ≤ p.types.size := by
  have hrange : ∀ x ∈ seen, x < p.types.size := by
    intro x hx
    obtain ⟨i, hi, rfl⟩ := List.mem_iff_getElem.mp (List.mem_reverse.mpr hx)
    have hi' : i < seen.length := by simpa using hi
    have hsome : (p.baseIter t (i + 1)).isSome := isSome_baseIter_of_le (by rw [h.next]; rfl) hi'
    rw [baseIter_succ, h.yields i hi, Option.bind_some] at hsome
    obtain ⟨b, hb⟩ := Option.isSome_iff_exists.mp hsome
    exact lt_size_of_base hb
  calc seen.length ≤ (List.range p.types.size).length :=
        h.nodup.length_le_of_subset fun x hx => List.mem_range.mpr (hrange x hx)
    _ = p.types.size := List.length_range

/-- With more fuel than the program has types, counting the types already yielded, the walk
runs to the end of the base chain. -/
theorem Walked.baseWalk {t u : TypeId} {seen : List TypeId} {fuel : Nat} (h : p.Walked t seen u)
    (hfuel : p.types.size < fuel + seen.length) : p.BaseChain t (p.baseWalk fuel seen u) := by
  fun_induction p.baseWalk fuel seen u with
  | case1 seen u => exact absurd h.length_le (by omega)
  | case2 fuel seen u hmem => exact h.chain_of_mem (List.contains_iff_mem.mp hmem)
  | case3 fuel seen u hmem b hb ih =>
    have hu : u ∉ seen := fun hu => hmem (List.contains_iff_mem.mpr hu)
    exact ih (h.push hu hb) (by simp only [List.length_cons]; omega)
  | case4 fuel seen u hmem hb =>
    have hu : u ∉ seen := fun hu => hmem (List.contains_iff_mem.mpr hu)
    exact h.chain_of_base_eq_none hu hb

theorem baseChain_basesAndSelf (t : TypeId) : p.BaseChain t (p.basesAndSelf t) :=
  (walked_start t).baseWalk (by simp)

/-- The walk from a type yields exactly its base chain. -/
theorem basesAndSelf_eq_iff (t : TypeId) (L : List TypeId) :
    p.basesAndSelf t = L ↔ p.BaseChain t L :=
  ⟨fun h => h ▸ baseChain_basesAndSelf t, (baseChain_basesAndSelf t).unique⟩

/-! ### Derivation -/

theorem derivesFrom_some_iff {t c : TypeId} : p.derivesFrom t (some c) = true ↔ p.BaseReaches t c := by
  rw [derivesFrom, List.contains_iff_mem, (baseChain_basesAndSelf t).mem_iff]

instance {t c : TypeId} : Decidable (p.BaseReaches t c) := decidable_of_iff _ derivesFrom_some_iff

/-- A type derives from exactly the types reached along its base links. -/
theorem derivesFrom_iff_baseReaches (t : TypeId) (c : Option TypeId) :
    p.derivesFrom t c = true ↔ ∃ d, c = some d ∧ p.BaseReaches t d := by
  cases c with
  | none => simp [derivesFrom]
  | some d => simp [derivesFrom_some_iff]

/-- Walking up the base links yields the base chain, whatever cycles the links form, and
derivation is reachability along them, hence reflexive and transitive. -/
theorem derivesFrom_base_reachability (p : Program) :
    (∀ t L, p.basesAndSelf t = L ↔ p.BaseChain t L) ∧
    (∀ t c, p.derivesFrom t c = true ↔ ∃ d, c = some d ∧ p.BaseReaches t d) ∧
    (∀ t, p.derivesFrom t (some t) = true) ∧
    (∀ t u w, p.derivesFrom t (some u) = true → p.derivesFrom u (some w) = true →
      p.derivesFrom t (some w) = true) := by
  refine ⟨basesAndSelf_eq_iff, derivesFrom_iff_baseReaches, fun t => ?_, fun t u w htu huw => ?_⟩
  · exact derivesFrom_some_iff.mpr (baseReaches_refl t)
  · exact derivesFrom_some_iff.mpr ((derivesFrom_some_iff.mp htu).trans (derivesFrom_some_iff.mp huw))

/-- `A` has base `B`, `B` has base `C` and `C` has base `B` again: the walk from `A` stops
before `B` comes round a second time. -/
example : ({ types := #[{ name := "A", base := some 1 }, { name := "B", base := some 2 },
    { name := "C", base := some 1 }] } : Program).basesAndSelf 0 = [0, 1, 2] := by decide

end Program

end NullGuard
