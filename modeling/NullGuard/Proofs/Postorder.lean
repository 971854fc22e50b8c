import Mathlib.Logic.Relation
import Mathlib.Data.Finset.Card
import NullGuard.Graph.Order

/-!
# Reverse post-order lists exactly the reachable blocks

A block is reachable from another along the successor lists the blocks keep (`Graph.Reaches`).
The search behind `Graph.reversePostorder` remembers visited blocks by ordinal; every block
it adds has an ordinal not seen before, and every successor of a block it adds has its
ordinal visited (`Found`). Its fuel, one more than the size of the block store, is never
exhausted: each nested search marks an ordinal of the finite set `Graph.ordinals`.

* `reaches_of_mem_reversePostorder`: every listed block is reachable from the entry;
* `reversePostorder_nodup`: no block is listed twice;
* `reversePostorder_head`: the entry comes first;
* `mem_reversePostorder`: when the reachable blocks have distinct ordinals, every reachable
  block is listed;
* `reversePostorder_edge`: then an edge out of a reachable block goes forward in the order,
  unless its target reaches its source. Every edge out of a block a search finds points back
  in the post-order (`EdgesOrdered`): to a block visited before the search, found before, or
  still being searched.

A graph is `Coherent` when what the building interface guarantees holds of its reachable part:
blocks have distinct ordinals, and an edge a block lists as incoming is listed as outgoing by
its source. `Graph.validate` checks neither.
-/

namespace NullGuard.Graph

/-- `b` is among the successors `a` lists. -/
def Succ (g : Graph) (a b : BlockId) : Prop := b ∈ g.succBlocks a

/-- `b` is reachable from `a` along successor lists. -/
def Reaches (g : Graph) (a b : BlockId) : Prop := Relation.ReflTransGen g.Succ a b

theorem Reaches.refl (g : Graph) (a : BlockId) : g.Reaches a a := Relation.ReflTransGen.refl

theorem Reaches.tail {g : Graph} {a b c : BlockId} (hab : g.Reaches a b) (hbc : c ∈ g.succBlocks b) :
    g.Reaches a c :=
  Relation.ReflTransGen.tail hab hbc

theorem Reaches.head {g : Graph} {a b c : BlockId} (hab : b ∈ g.succBlocks a) (hbc : g.Reaches b c) :
    g.Reaches a c :=
  Relation.ReflTransGen.head hab hbc

/-- A set of blocks that holds `a` and every successor of its blocks holds every block
reachable from `a`. -/
theorem Reaches.closed {g : Graph} {S : BlockId → Prop} {a b : BlockId} (hab : g.Reaches a b) (ha : S a)
    (hS : ∀ x, S x → ∀ y ∈ g.succBlocks x, S y) : S b := by
  induction hab with
  | refl => exact ha
  | tail _ hyz ih => exact hS _ ih _ hyz

/-! ### The search, one successor at a time -/

/-- One successor of the search: skipped when its ordinal is visited, else searched from. -/
def dfsStep (g : Graph) (fuel : Nat) (acc : List Int × List BlockId) (s : BlockId) :
    List Int × List BlockId :=
  if acc.1.contains (g.ordinal s) then acc
  else ((g.dfs fuel (g.ordinal s :: acc.1) s).1, acc.2 ++ (g.dfs fuel (g.ordinal s :: acc.1) s).2)

theorem dfs_succ (g : Graph) (fuel : Nat) (visited : List Int) (b : BlockId) :
    g.dfs (fuel + 1) visited b =
      (((g.succBlocks b).foldl (g.dfsStep fuel) (visited, [])).1,
        ((g.succBlocks b).foldl (g.dfsStep fuel) (visited, [])).2 ++ [b]) :=
  rfl

/-- Every ordinal a block can have: those of the stored blocks, and that of the default block
read at an identity outside the store. -/
def ordinals (g : Graph) : Finset Int :=
  insert (default : Block).ordinal (g.cells.toList.map Block.ordinal).toFinset

theorem ordinal_mem_ordinals (g : Graph) (b : BlockId) : g.ordinal b ∈ g.ordinals := by
  unfold ordinal block ordinals
  cases h : g.cells[b]? with
  | none => simp
  | some blk =>
    have hmem : blk ∈ g.cells.toList := by
      obtain ⟨hb, rfl⟩ := Array.getElem?_eq_some_iff.mp h
      simp
    simp only [Option.getD_some]
    exact Finset.mem_insert_of_mem (List.mem_toFinset.mpr (List.mem_map_of_mem hmem))

theorem card_ordinals_le (g : Graph) : g.ordinals.card ≤ g.cells.size + 1 := by
  unfold ordinals
  calc (insert (default : Block).ordinal (g.cells.toList.map Block.ordinal).toFinset).card
      ≤ (g.cells.toList.map Block.ordinal).toFinset.card + 1 := Finset.card_insert_le _ _
    _ ≤ (g.cells.toList.map Block.ordinal).length + 1 := by
        have := List.toFinset_card_le (g.cells.toList.map Block.ordinal)
        omega
    _ = g.cells.size + 1 := by simp

/-- The ordinals a search starting from `seen` may still visit. -/
def unexplored (g : Graph) (seen : List Int) : Nat := (g.ordinals \ seen.toFinset).card

/-- Marking a new ordinal leaves fewer to visit. -/
theorem unexplored_cons_lt {g : Graph} {seen vis : List Int} {b : BlockId}
    (hsub : ∀ o ∈ seen, o ∈ vis) (hb : g.ordinal b ∉ vis) :
    g.unexplored (g.ordinal b :: vis) < g.unexplored seen := by
  unfold unexplored
  have hmem : g.ordinal b ∈ g.ordinals \ seen.toFinset := by
    simp only [Finset.mem_sdiff, List.mem_toFinset]
    exact ⟨ordinal_mem_ordinals g b, fun h => hb (hsub _ h)⟩
  have hsubset : g.ordinals \ (g.ordinal b :: vis).toFinset ⊆
      (g.ordinals \ seen.toFinset).erase (g.ordinal b) := by
    intro o ho
    simp only [Finset.mem_sdiff, List.mem_toFinset, List.mem_cons, not_or, Finset.mem_erase] at ho ⊢
    exact ⟨ho.2.1, ho.1, fun h => ho.2.2 (hsub _ h)⟩
  calc (g.ordinals \ (g.ordinal b :: vis).toFinset).card
      ≤ ((g.ordinals \ seen.toFinset).erase (g.ordinal b)).card := Finset.card_le_card hsubset
    _ < (g.ordinals \ seen.toFinset).card := Finset.card_erase_lt_of_mem hmem

/-! ### What a search finds -/

/-- What a search from `b`, started with the visited ordinals `seen`, has found: the visited
ordinals `vis` and the blocks `found` so far, in post-order. -/
structure Found (g : Graph) (seen : List Int) (b : BlockId) (vis : List Int) (found : List BlockId) :
    Prop where
  seen_sub : ∀ o ∈ seen, o ∈ vis
  reach : ∀ x ∈ found, g.Reaches b x
  fresh : ∀ x ∈ found, g.ordinal x ∉ seen
  nodup : (found.map g.ordinal).Nodup
  visited : ∀ x ∈ found, g.ordinal x ∈ vis
  vis_sub : ∀ o ∈ vis, o ∈ seen ∨ ∃ x ∈ found, g.ordinal x = o
  closed : ∀ x ∈ found, ∀ s ∈ g.succBlocks x, g.ordinal s ∈ vis

theorem Found.init (g : Graph) (seen : List Int) (b : BlockId) : Found g seen b seen [] where
  seen_sub _ h := h
  reach _ h := by simp at h
  fresh _ h := by simp at h
  nodup := List.nodup_nil
  visited _ h := by simp at h
  vis_sub _ h := .inl h
  closed _ h := by simp at h

/-- A search from `b` with fuel to spare returns `found ++ [b]` and visits every successor. -/
def Searched (g : Graph) (seen : List Int) (b : BlockId) (r : List Int × List BlockId) : Prop :=
  ∃ found, r.2 = found ++ [b] ∧ Found g seen b r.1 found ∧ ∀ s ∈ g.succBlocks b, g.ordinal s ∈ r.1

/-- Searching from a successor `s` whose ordinal is new extends what the search from `b` found
by the blocks found from `s`, then `s` itself. -/
private theorem Found.extend {g : Graph} {seen vis : List Int} {b s : BlockId} {found : List BlockId}
    (hf : Found g seen b vis found) (hs : s ∈ g.succBlocks b) (hnew : g.ordinal s ∉ vis)
    {r : List Int × List BlockId} (hr : Searched g (g.ordinal s :: vis) s r) :
    Found g seen b r.1 (found ++ r.2) := by
  obtain ⟨inner, hpost, hin, hsucc⟩ := hr
  rw [hpost]
  have hsvis : g.ordinal s ∈ r.1 := hin.seen_sub _ List.mem_cons_self
  refine ⟨fun o ho => hin.seen_sub o (List.mem_cons_of_mem _ (hf.seen_sub o ho)), ?_, ?_, ?_, ?_, ?_, ?_⟩
  · intro x hx
    simp only [List.mem_append, List.mem_singleton] at hx
    rcases hx with hx | hx | rfl
    · exact hf.reach x hx
    · exact Reaches.head hs (hin.reach x hx)
    · exact Reaches.head hs (Reaches.refl g x)
  · intro x hx hseen
    simp only [List.mem_append, List.mem_singleton] at hx
    rcases hx with hx | hx | rfl
    · exact hf.fresh x hx hseen
    · exact hin.fresh x hx (List.mem_cons_of_mem _ (hf.seen_sub _ hseen))
    · exact hnew (hf.seen_sub _ hseen)
  · have hdisj : ∀ x ∈ found, ∀ y ∈ inner ++ [s], g.ordinal x ≠ g.ordinal y := by
      intro x hx y hy heq
      simp only [List.mem_append, List.mem_singleton] at hy
      rcases hy with hy | rfl
      · exact hin.fresh y hy (List.mem_cons_of_mem _ (heq ▸ hf.visited x hx))
      · exact hnew (heq ▸ hf.visited x hx)
    have hinner : ((inner ++ [s]).map g.ordinal).Nodup := by
      rw [List.map_append, List.nodup_append]
      refine ⟨hin.nodup, by simp, ?_⟩
      intro o ho o' ho'
      simp only [List.map_cons, List.map_nil, List.mem_singleton] at ho'
      obtain ⟨x, hx, rfl⟩ := List.mem_map.mp ho
      rw [ho']
      exact fun heq => hin.fresh x hx (heq ▸ List.mem_cons_self)
    rw [List.map_append, List.nodup_append]
    refine ⟨hf.nodup, hinner, ?_⟩
    intro o ho o' ho'
    obtain ⟨x, hx, rfl⟩ := List.mem_map.mp ho
    obtain ⟨y, hy, rfl⟩ := List.mem_map.mp ho'
    exact hdisj x hx y hy
  · intro x hx
    simp only [List.mem_append, List.mem_singleton] at hx
    rcases hx with hx | hx | rfl
    · exact hin.seen_sub _ (List.mem_cons_of_mem _ (hf.visited x hx))
    · exact hin.visited x hx
    · exact hsvis
  · intro o ho
    rcases hin.vis_sub o ho with ho | ⟨x, hx, hxo⟩
    · rcases List.mem_cons.mp ho with rfl | ho
      · exact .inr ⟨s, by simp, rfl⟩
      · rcases hf.vis_sub o ho with ho | ⟨x, hx, hxo⟩
        · exact .inl ho
        · exact .inr ⟨x, by simp [hx], hxo⟩
    · exact .inr ⟨x, by simp [hx], hxo⟩
  · intro x hx t ht
    simp only [List.mem_append, List.mem_singleton] at hx
    rcases hx with hx | hx | rfl
    · exact hin.seen_sub _ (List.mem_cons_of_mem _ (hf.closed x hx t ht))
    · exact hin.closed x hx t ht
    · exact hsucc t ht

/-- The search over a list of successors of `b`, each searched with fuel to spare, keeps what
was found and visits every successor of the list. -/
private theorem foldl_dfsStep {g : Graph} {fuel : Nat} {seen : List Int} {b : BlockId}
    (ih : ∀ seen' s, g.unexplored seen' < fuel → Searched g seen' s (g.dfs fuel seen' s))
    (hfuel : g.unexplored seen < fuel + 1) :
    ∀ (l : List BlockId) (vis : List Int) (found : List BlockId), (∀ s ∈ l, s ∈ g.succBlocks b) →
      Found g seen b vis found →
      Found g seen b (l.foldl (g.dfsStep fuel) (vis, found)).1 (l.foldl (g.dfsStep fuel) (vis, found)).2 ∧
        (∀ o ∈ vis, o ∈ (l.foldl (g.dfsStep fuel) (vis, found)).1) ∧
        ∀ s ∈ l, g.ordinal s ∈ (l.foldl (g.dfsStep fuel) (vis, found)).1
  | [], vis, found, _, hf => ⟨hf, fun _ h => h, fun _ h => by simp at h⟩
  | s :: l, vis, found, hl, hf => by
    have hs : s ∈ g.succBlocks b := hl s List.mem_cons_self
    -- one step: either `s` was visited, or the search from `s` extends what was found
    have hstep : Found g seen b (g.dfsStep fuel (vis, found) s).1 (g.dfsStep fuel (vis, found) s).2 ∧
        (∀ o ∈ vis, o ∈ (g.dfsStep fuel (vis, found) s).1) ∧
        g.ordinal s ∈ (g.dfsStep fuel (vis, found) s).1 := by
      unfold dfsStep
      split
      · rename_i hc
        exact ⟨hf, fun _ h => h, List.contains_iff_mem.mp hc⟩
      · rename_i hc
        have hnew : g.ordinal s ∉ vis := fun h => hc (List.contains_iff_mem.mpr h)
        have hr := ih (g.ordinal s :: vis) s
          (by have := unexplored_cons_lt hf.seen_sub hnew; omega)
        refine ⟨hf.extend hs hnew hr, ?_⟩
        obtain ⟨inner, -, hin, -⟩ := hr
        exact ⟨fun o ho => hin.seen_sub o (List.mem_cons_of_mem _ ho), hin.seen_sub _ List.mem_cons_self⟩
    obtain ⟨hf', hsub, hsvis⟩ := hstep
    obtain ⟨hrest, hsub', hl'⟩ := foldl_dfsStep ih hfuel l _ _
      (fun t ht => hl t (List.mem_cons_of_mem _ ht)) hf'
    refine ⟨hrest, fun o ho => hsub' o (hsub o ho), ?_⟩
    intro t ht
    rcases List.mem_cons.mp ht with rfl | ht
    · exact hsub' _ hsvis
    · exact hl' t ht

/-- With more fuel than ordinals left to visit, the search from `b` finds a post-order ending
in `b` and visits every successor of every block it finds. -/
theorem dfs_searched (g : Graph) :
    ∀ (fuel : Nat) (seen : List Int) (b : BlockId), g.unexplored seen < fuel →
      Searched g seen b (g.dfs fuel seen b)
  | 0, _, _, h => absurd h (Nat.not_lt_zero _)
  | fuel + 1, seen, b, hfuel => by
    have ih : ∀ seen' s, g.unexplored seen' < fuel → Searched g seen' s (g.dfs fuel seen' s) :=
      fun seen' s h => dfs_searched g fuel seen' s h
    obtain ⟨hf, -, hsucc⟩ := foldl_dfsStep ih hfuel (g.succBlocks b) seen [] (fun _ h => h)
      (Found.init g seen b)
    rw [dfs_succ]
    exact ⟨_, rfl, hf, hsucc⟩

/-! ### The order in which a search finds blocks -/

/-- Two blocks of consecutive parts of a list come in that order. -/
theorem pair_sublist_append {z x : BlockId} {l₁ l₂ : List BlockId} (hz : z ∈ l₁) (hx : x ∈ l₂) :
    [z, x].Sublist (l₁ ++ l₂) :=
  (List.singleton_sublist.mpr hz).append (List.singleton_sublist.mpr hx)

/-- The edge from `x` to `y` points back in the post-order `post` of a search started with the
visited ordinals `seen`: `y`'s ordinal was visited before the search, or is that of a block
found before `x`, or of a found block from which `x` is reachable. -/
def PointsBack (g : Graph) (seen : List Int) (post : List BlockId) (x y : BlockId) : Prop :=
  g.ordinal y ∈ seen ∨ (∃ z, g.ordinal z = g.ordinal y ∧ [z, x].Sublist post) ∨
    ∃ z ∈ post, g.ordinal z = g.ordinal y ∧ g.Reaches z x

/-- Every edge out of a block a search found points back. -/
def EdgesOrdered (g : Graph) (seen : List Int) (post : List BlockId) : Prop :=
  ∀ x ∈ post, ∀ y ∈ g.succBlocks x, PointsBack g seen post x y

section Order

variable {g : Graph} {seen : List Int} {x y : BlockId}

theorem PointsBack.append_right {post : List BlockId} (h : PointsBack g seen post x y) (l : List BlockId) :
    PointsBack g seen (post ++ l) x y := by
  rcases h with h | ⟨z, hz, hzx⟩ | ⟨z, hz, hzy, hzx⟩
  · exact .inl h
  · exact .inr (.inl ⟨z, hz, hzx.trans (List.sublist_append_left _ _)⟩)
  · exact .inr (.inr ⟨z, List.mem_append_left _ hz, hzy, hzx⟩)

theorem PointsBack.append_left {post : List BlockId} (h : PointsBack g seen post x y) (l : List BlockId) :
    PointsBack g seen (l ++ post) x y := by
  rcases h with h | ⟨z, hz, hzx⟩ | ⟨z, hz, hzy, hzx⟩
  · exact .inl h
  · exact .inr (.inl ⟨z, hz, hzx.trans (List.sublist_append_right _ _)⟩)
  · exact .inr (.inr ⟨z, List.mem_append_right _ hz, hzy, hzx⟩)

/-- Searching from a successor `s` whose ordinal is new keeps the edges ordered: an edge of the
new search that points back to `s` or to a block found before it points back in the whole. -/
private theorem EdgesOrdered.extend {vis : List Int} {b s : BlockId} {found : List BlockId}
    (hf : Found g seen b vis found) (ho : EdgesOrdered g seen found)
    {r : List Int × List BlockId} (hr : Searched g (g.ordinal s :: vis) s r)
    (hor : EdgesOrdered g (g.ordinal s :: vis) r.2) :
    EdgesOrdered g seen (found ++ r.2) := by
  obtain ⟨inner, hpost, hin, -⟩ := hr
  intro x hx y hy
  rcases List.mem_append.mp hx with hx | hx
  · exact (ho x hx y hy).append_right _
  rcases hor x hx y hy with hseen | hback | hback
  · rcases List.mem_cons.mp hseen with hs | hvis
    · -- `y` is `s` by its ordinal, and `x` was found from `s`
      have hsx : g.Reaches s x := by
        rw [hpost, List.mem_append, List.mem_singleton] at hx
        rcases hx with hx | rfl
        · exact hin.reach x hx
        · exact Reaches.refl g _
      exact .inr (.inr ⟨s, List.mem_append_right _ (by simp [hpost]), hs.symm, hsx⟩)
    · rcases hf.vis_sub _ hvis with hseen | ⟨z, hz, hzy⟩
      · exact .inl hseen
      · exact .inr (.inl ⟨z, hzy, pair_sublist_append hz hx⟩)
  · exact PointsBack.append_left (.inr (.inl hback)) _
  · exact PointsBack.append_left (.inr (.inr hback)) _

/-- Once every successor of `b` is visited, the edges out of `b` point back as well. -/
private theorem EdgesOrdered.close {vis : List Int} {b : BlockId} {found : List BlockId}
    (hf : Found g seen b vis found) (ho : EdgesOrdered g seen found)
    (hsucc : ∀ s ∈ g.succBlocks b, g.ordinal s ∈ vis) : EdgesOrdered g seen (found ++ [b]) := by
  intro x hx y hy
  rw [List.mem_append, List.mem_singleton] at hx
  rcases hx with hx | rfl
  · exact (ho x hx y hy).append_right _
  · rcases hf.vis_sub _ (hsucc y hy) with hseen | ⟨z, hz, hzy⟩
    · exact .inl hseen
    · exact .inr (.inl ⟨z, hzy, pair_sublist_append hz List.mem_cons_self⟩)

/-- The search over a list of successors of `b`, each searched with fuel to spare, keeps the
edges of what it finds ordered. -/
private theorem foldl_dfsStep_ordered {fuel : Nat} {b : BlockId}
    (ih : ∀ seen' s, g.unexplored seen' < fuel → EdgesOrdered g seen' (g.dfs fuel seen' s).2)
    (hfuel : g.unexplored seen < fuel + 1) :
    ∀ (l : List BlockId) (vis : List Int) (found : List BlockId), (∀ s ∈ l, s ∈ g.succBlocks b) →
      Found g seen b vis found → EdgesOrdered g seen found →
      EdgesOrdered g seen (l.foldl (g.dfsStep fuel) (vis, found)).2
  | [], _, _, _, _, ho => ho
  | s :: l, vis, found, hl, hf, ho => by
    rw [List.foldl_cons]
    unfold dfsStep
    split
    · exact foldl_dfsStep_ordered ih hfuel l vis found (fun t ht => hl t (List.mem_cons_of_mem _ ht)) hf ho
    · rename_i hc
      have hnew : g.ordinal s ∉ vis := fun h => hc (List.contains_iff_mem.mpr h)
      have hlt : g.unexplored (g.ordinal s :: vis) < fuel := by
        have := unexplored_cons_lt hf.seen_sub hnew; omega
      have hr := dfs_searched g fuel (g.ordinal s :: vis) s hlt
      exact foldl_dfsStep_ordered ih hfuel l _ _ (fun t ht => hl t (List.mem_cons_of_mem _ ht))
        (hf.extend (hl s List.mem_cons_self) hnew hr) (ho.extend hf hr (ih _ s hlt))

/-- With more fuel than ordinals left to visit, every edge out of a block the search finds
points back in its post-order. -/
theorem dfs_edgesOrdered (g : Graph) :
    ∀ (fuel : Nat) (seen : List Int) (b : BlockId), g.unexplored seen < fuel →
      EdgesOrdered g seen (g.dfs fuel seen b).2
  | 0, _, _, h => absurd h (Nat.not_lt_zero _)
  | fuel + 1, seen, b, hfuel => by
    have ih : ∀ seen' s, g.unexplored seen' < fuel → EdgesOrdered g seen' (g.dfs fuel seen' s).2 :=
      fun seen' s h => dfs_edgesOrdered g fuel seen' s h
    obtain ⟨hf, -, hsucc⟩ := foldl_dfsStep (fun seen' s h => dfs_searched g fuel seen' s h) hfuel
      (g.succBlocks b) seen [] (fun _ h => h) (Found.init g seen b)
    rw [dfs_succ]
    exact EdgesOrdered.close hf
      (foldl_dfsStep_ordered ih hfuel _ seen [] (fun _ h => h) (Found.init g seen b) (by simp [EdgesOrdered]))
      hsucc

end Order

/-! ### Reverse post-order -/

/-- The fuel of the search behind `reversePostorder` exceeds the ordinals it may visit. -/
private theorem unexplored_entry_lt (g : Graph) : g.unexplored [g.ordinal g.entry] < g.cells.size + 1 := by
  have hmem : g.ordinal g.entry ∈ g.ordinals := ordinal_mem_ordinals g g.entry
  have hlt : (g.ordinals \ [g.ordinal g.entry].toFinset).card < g.ordinals.card := by
    apply Finset.card_lt_card
    refine Finset.ssubset_iff_of_subset Finset.sdiff_subset |>.mpr ⟨g.ordinal g.entry, hmem, ?_⟩
    simp
  have := card_ordinals_le g
  unfold unexplored
  omega

/-- The search behind `reversePostorder` has fuel to spare. -/
private theorem searched_entry (g : Graph) :
    Searched g [g.ordinal g.entry] g.entry (g.dfs (g.cells.size + 1) [g.ordinal g.entry] g.entry) :=
  dfs_searched g _ _ _ (unexplored_entry_lt g)

theorem reaches_of_mem_reversePostorder {g : Graph} {b : BlockId} (h : b ∈ g.reversePostorder) :
    g.Reaches g.entry b := by
  obtain ⟨found, hpost, hf, -⟩ := searched_entry g
  unfold reversePostorder at h
  rw [List.mem_reverse, hpost, List.mem_append, List.mem_singleton] at h
  rcases h with h | rfl
  · exact hf.reach b h
  · exact Reaches.refl g _

theorem reversePostorder_nodup (g : Graph) : g.reversePostorder.Nodup := by
  obtain ⟨found, hpost, hf, -⟩ := searched_entry g
  unfold reversePostorder
  rw [List.nodup_reverse, hpost]
  apply List.Nodup.of_map g.ordinal
  rw [List.map_append, List.nodup_append]
  refine ⟨hf.nodup, by simp, ?_⟩
  intro o ho o' ho'
  simp only [List.map_cons, List.map_nil, List.mem_singleton] at ho'
  obtain ⟨x, hx, rfl⟩ := List.mem_map.mp ho
  rw [ho']
  exact fun heq => hf.fresh x hx (heq ▸ List.mem_singleton_self _)

theorem reversePostorder_head (g : Graph) : g.reversePostorder.head? = some g.entry := by
  obtain ⟨found, hpost, -, -⟩ := searched_entry g
  unfold reversePostorder
  rw [hpost, List.reverse_append]
  rfl

/-- When the blocks reachable from the entry have distinct ordinals, every one of them is in
reverse post-order. -/
theorem mem_reversePostorder {g : Graph}
    (hinj : ∀ a b, g.Reaches g.entry a → g.Reaches g.entry b → g.ordinal a = g.ordinal b → a = b)
    {b : BlockId} (hb : g.Reaches g.entry b) : b ∈ g.reversePostorder := by
  obtain ⟨found, hpost, hf, hsucc⟩ := searched_entry g
  have hmem : ∀ x, x ∈ g.reversePostorder ↔ x ∈ found ++ [g.entry] := by
    intro x
    unfold reversePostorder
    rw [List.mem_reverse, hpost]
  -- the ordinals of the listed blocks are closed under successors; induction along the path
  induction hb with
  | refl => simp [hmem]
  | tail hab hbc ih =>
    rename_i a c
    have hca : g.Reaches g.entry c := Relation.ReflTransGen.tail hab hbc
    have hvis : g.ordinal c ∈ (g.dfs (g.cells.size + 1) [g.ordinal g.entry] g.entry).1 := by
      rcases (hmem a).mp ih |> List.mem_append.mp with ha | ha
      · exact hf.closed a ha c hbc
      · rw [List.mem_singleton.mp ha] at hbc
        exact hsucc c hbc
    rcases hf.vis_sub _ hvis with ho | ⟨x, hx, hxo⟩
    · have hc : c = g.entry :=
        hinj c g.entry hca (Reaches.refl g _) (List.mem_singleton.mp ho)
      simp [hmem, hc]
    · have hxc : x = c := hinj x c (hf.reach x hx) hca hxo
      simp [hmem, ← hxc, hx]

/-- When the blocks reachable from the entry have distinct ordinals, an edge out of a reachable
block goes forward in reverse post-order, or closes a cycle through its target. -/
theorem reversePostorder_edge {g : Graph}
    (hinj : ∀ a b, g.Reaches g.entry a → g.Reaches g.entry b → g.ordinal a = g.ordinal b → a = b)
    {u v : BlockId} (hu : g.Reaches g.entry u) (hv : v ∈ g.succBlocks u) :
    [u, v].Sublist g.reversePostorder ∨ g.Reaches v u := by
  obtain ⟨found, hpost, -, -⟩ := searched_entry g
  have hpost' : g.reversePostorder = (found ++ [g.entry]).reverse := by
    unfold reversePostorder
    rw [hpost]
  have hlisted : ∀ z ∈ found ++ [g.entry], g.Reaches g.entry z := fun z hz =>
    reaches_of_mem_reversePostorder (by rw [hpost', List.mem_reverse]; exact hz)
  have hvr : g.Reaches g.entry v := hu.tail hv
  have hu' : u ∈ found ++ [g.entry] := by
    rw [← List.mem_reverse, ← hpost']
    exact mem_reversePostorder hinj hu
  have hord := dfs_edgesOrdered g (g.cells.size + 1) [g.ordinal g.entry] g.entry
    (unexplored_entry_lt g)
  rw [hpost] at hord
  rcases hord u hu' v hv with hseen | ⟨z, hzv, hzu⟩ | ⟨z, hz, hzv, hzu⟩
  · -- `v` is the entry, which reaches every reachable block
    have hve : v = g.entry := hinj v g.entry hvr (Reaches.refl g _) (List.mem_singleton.mp hseen)
    exact .inr (hve ▸ hu)
  · have hzv' : z = v := hinj z v (hlisted z (hzu.subset (by simp))) hvr hzv
    subst hzv'
    left
    rw [hpost', ← List.reverse_sublist]
    simpa using hzu
  · exact .inr (hinj z v (hlisted z hz) hvr hzv ▸ hzu)

/-! ### Coherent graphs -/

/-- The reachable part of a graph as `addBlock` and `addEdge` build it: reachable blocks have
distinct ordinals, and a reachable block listed as a predecessor of another lists it as a
successor. -/
structure Coherent (g : Graph) : Prop where
  ordinal_inj : ∀ a b, g.Reaches g.entry a → g.Reaches g.entry b → g.ordinal a = g.ordinal b → a = b
  pred_succ : ∀ a b, g.Reaches g.entry a → g.Reaches g.entry b → a ∈ g.predBlocks b → b ∈ g.succBlocks a

theorem Coherent.mem_reversePostorder {g : Graph} (hg : g.Coherent) {b : BlockId}
    (hb : g.Reaches g.entry b) : b ∈ g.reversePostorder :=
  Graph.mem_reversePostorder hg.ordinal_inj hb

end NullGuard.Graph
