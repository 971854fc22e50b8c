import NullGuard.Graph.Check
import NullGuard.Proofs.Postorder

/-!
# Graphs built through the interface are well wired

A graph made from `Graph.new` by appending blocks, regions and edges between its own blocks, and
by replacing the operations of blocks (`Graph.Built`), keeps its views in agreement
(`Graph.Wired`): its blocks are numbered in order, the entry and the exit first; every stored
edge is registered and joins two of its blocks; and each block lists as outgoing (incoming)
exactly the registered edges that leave (enter) it, in registration order. One lemma per
operation carries this through (`Wired.addBlock`, `Wired.addEdge`, `Wired.addRegion`,
`Wired.setOps`).

* `Wired.count_succBlocks`: successors and predecessors are converse relations, counted with
  multiplicity;
* `Wired.validate_eq`: such a graph passes `Graph.validate`;
* `Wired.coherent`: it is what the solver asks a graph to be;
* each malformation `Graph.validate` is meant to catch is caught, with its own code and message:
  dropping the entry or the exit (`validate_dropMember`), an edge to or from a block of no graph
  (`validate_foreignTarget`, `validate_foreignSource`), and an edge that a block lists but the
  graph never registered (`validate_attachSucc`, `validate_attachPred`);
* `built_wellFormed` gathers these for every built graph.
-/

namespace NullGuard.Graph

/-- The graphs the building interface makes: a new graph, then blocks, regions and edges between
its own blocks appended, and operations of blocks replaced, in any order. -/
inductive Built : Graph → Prop
  | new (m : MethodId) : Built (Graph.new m)
  | addBlock {g : Graph} (ops : List Operation) : Built g → Built (g.addBlock ops).1
  | addRegion {g : Graph} (kind : RegionKind) (blocks : List BlockId) : Built g →
      Built (g.addRegion kind blocks)
  | addEdge {g : Graph} (src dst : BlockId) (kind : EdgeKind) : Built g → src ∈ g.members →
      dst ∈ g.members → Built (g.addEdge src dst kind)
  | setOps {g : Graph} (b : BlockId) (ops : List Operation) : Built g → Built (g.setOps b ops)

/-- The views of a graph agree: the blocks of the store are the members, in order, each with its
position as ordinal, the entry and the exit first; the stored edges are the registered ones, in
order, each between two blocks of the store; and a block lists as outgoing (incoming) the
registered edges leaving (entering) it. -/
structure Wired (g : Graph) : Prop where
  two_le : 2 ≤ g.cells.size
  members_eq : g.members = List.range g.cells.size
  ordinal_eq : ∀ b < g.cells.size, g.ordinal b = b
  entry_eq : g.entry = 0
  exit_eq : g.exit = 1
  edges_eq : g.edges = List.range g.links.size
  src_lt : ∀ e < g.links.size, (g.link e).src < g.cells.size
  dst_lt : ∀ e < g.links.size, (g.link e).dst < g.cells.size
  succs_eq : ∀ b, (g.block b).succs = g.edges.filter fun e => (g.link e).src == b
  preds_eq : ∀ b, (g.block b).preds = g.edges.filter fun e => (g.link e).dst == b

/-! ### Reading a graph after a change -/

theorem block_modifyBlock (g : Graph) (c : BlockId) (f : Block → Block) (b : BlockId) :
    (g.modifyBlock c f).block b = if b = c ∧ c < g.cells.size then f (g.block b) else g.block b := by
  unfold modifyBlock block
  rw [Array.getElem?_modify]
  by_cases h : c = b
  · subst h
    by_cases hc : c < g.cells.size <;> simp [hc]
  · simp [h, Ne.symm h]

theorem block_push (g : Graph) (blk : Block) (b : BlockId) :
    ({ g with cells := g.cells.push blk } : Graph).block b = if b = g.cells.size then blk else g.block b := by
  unfold block
  rw [Array.getElem?_push]
  split <;> rfl

theorem link_push (g : Graph) (e : Edge) (x : EdgeId) :
    ({ g with links := g.links.push e } : Graph).link x = if x = g.links.size then e else g.link x := by
  unfold link
  rw [Array.getElem?_push]
  split <;> rfl

theorem addEdge_eq (g : Graph) (src dst : BlockId) (kind : EdgeKind) :
    g.addEdge src dst kind =
      (({ g with links := g.links.push { src, dst, kind }, edges := g.edges ++ [g.links.size] } : Graph).modifyBlock
        src fun blk => { blk with succs := blk.succs ++ [g.links.size] }).modifyBlock dst
        fun blk => { blk with preds := blk.preds ++ [g.links.size] } := rfl

theorem link_addEdge (g : Graph) (src dst : BlockId) (kind : EdgeKind) (e : EdgeId) :
    (g.addEdge src dst kind).link e = if e = g.links.size then { src, dst, kind } else g.link e :=
  link_push g _ e

theorem succs_addEdge (g : Graph) (src dst : BlockId) (kind : EdgeKind) (b : BlockId) :
    ((g.addEdge src dst kind).block b).succs =
      if b = src ∧ src < g.cells.size then (g.block b).succs ++ [g.links.size] else (g.block b).succs := by
  rw [addEdge_eq, block_modifyBlock, block_modifyBlock]
  simp only [modifyBlock, Array.size_modify]
  split <;> split <;> rfl

theorem preds_addEdge (g : Graph) (src dst : BlockId) (kind : EdgeKind) (b : BlockId) :
    ((g.addEdge src dst kind).block b).preds =
      if b = dst ∧ dst < g.cells.size then (g.block b).preds ++ [g.links.size] else (g.block b).preds := by
  rw [addEdge_eq, block_modifyBlock, block_modifyBlock]
  simp only [modifyBlock, Array.size_modify]
  split <;> split <;> rfl

theorem ordinal_addEdge (g : Graph) (src dst : BlockId) (kind : EdgeKind) (b : BlockId) :
    (g.addEdge src dst kind).ordinal b = g.ordinal b := by
  unfold ordinal
  rw [addEdge_eq, block_modifyBlock, block_modifyBlock]
  simp only [modifyBlock, Array.size_modify]
  split <;> split <;> rfl

@[simp] theorem cells_size_addEdge (g : Graph) (src dst : BlockId) (kind : EdgeKind) :
    (g.addEdge src dst kind).cells.size = g.cells.size := by
  simp [addEdge_eq, modifyBlock]

@[simp] theorem links_size_addEdge (g : Graph) (src dst : BlockId) (kind : EdgeKind) :
    (g.addEdge src dst kind).links.size = g.links.size + 1 := by
  simp [addEdge_eq, modifyBlock]

/-- Appending an edge to a list of the stored ones, read through the links after the edge is
stored: the old edges read as before. -/
private theorem filter_append_link {g : Graph} (hg : g.Wired) (src dst : BlockId) (kind : EdgeKind)
    (p : Edge → Bool) :
    (g.edges ++ [g.links.size]).filter (fun e => p ((g.addEdge src dst kind).link e)) =
      g.edges.filter (fun e => p (g.link e)) ++ if p { src, dst, kind } then [g.links.size] else [] := by
  have hold : g.edges.filter (fun e => p ((g.addEdge src dst kind).link e)) = g.edges.filter (fun e => p (g.link e)) := by
    refine List.filter_congr fun e he => ?_
    have hlt : e < g.links.size := by rw [hg.edges_eq] at he; exact List.mem_range.mp he
    rw [link_addEdge, if_neg (Nat.ne_of_lt hlt)]
  rw [List.filter_append, hold]
  cases hp : p { src, dst, kind } <;> simp [link_addEdge, hp]

/-! ### One lemma per operation -/

theorem wired_new (m : MethodId) : (Graph.new m).Wired where
  two_le := by simp [Graph.new]
  members_eq := rfl
  ordinal_eq b hb := by
    have : b = 0 ∨ b = 1 := by simp [Graph.new] at hb; omega
    rcases this with rfl | rfl <;> rfl
  entry_eq := rfl
  exit_eq := rfl
  edges_eq := rfl
  src_lt e he := by simp [Graph.new] at he
  dst_lt e he := by simp [Graph.new] at he
  succs_eq b := by
    unfold block
    simp only [Graph.new, List.filter_nil]
    match b with
    | 0 | 1 | _ + 2 => rfl
  preds_eq b := by
    unfold block
    simp only [Graph.new, List.filter_nil]
    match b with
    | 0 | 1 | _ + 2 => rfl

variable {g : Graph}

theorem Wired.mem_members (hg : g.Wired) {b : BlockId} : b ∈ g.members ↔ b < g.cells.size := by
  rw [hg.members_eq, List.mem_range]

theorem Wired.lt_of_mem_edges (hg : g.Wired) {e : EdgeId} (he : e ∈ g.edges) : e < g.links.size := by
  rw [hg.edges_eq] at he
  exact List.mem_range.mp he

theorem Wired.addBlock (hg : g.Wired) (ops : List Operation) : (g.addBlock ops).1.Wired := by
  have hlen : g.members.length = g.cells.size := by rw [hg.members_eq, List.length_range]
  have hblock : ∀ b, (g.addBlock ops).1.block b =
      if b = g.cells.size then { ordinal := g.members.length, ops } else g.block b :=
    block_push g _
  have hsize : (g.addBlock ops).1.cells.size = g.cells.size + 1 := by simp [Graph.addBlock]
  have hlink : (g.addBlock ops).1.link = g.link := rfl
  have hedges : (g.addBlock ops).1.edges = g.edges := rfl
  -- no stored edge touches the new block
  have hnone : ∀ p : Edge → BlockId, (∀ e < g.links.size, p (g.link e) < g.cells.size) →
      g.edges.filter (fun e => p (g.link e) == g.cells.size) = [] := by
    intro p hp
    rw [List.filter_eq_nil_iff]
    intro e he
    simp only [beq_iff_eq]
    exact Nat.ne_of_lt (hp e (hg.lt_of_mem_edges he))
  refine ⟨by rw [hsize]; exact Nat.le_succ_of_le hg.two_le, ?_, ?_, hg.entry_eq, hg.exit_eq, hg.edges_eq, ?_, ?_, ?_, ?_⟩
  · have hmem : (g.addBlock ops).1.members = g.members ++ [g.cells.size] := rfl
    rw [hmem, hsize, hg.members_eq, List.range_succ]
  · intro b hb
    rw [hsize] at hb
    unfold ordinal
    rw [hblock]
    by_cases h : b = g.cells.size
    · rw [if_pos h, h, hlen]
    · rw [if_neg h]
      exact hg.ordinal_eq b (by omega)
  · intro e he
    have := hg.src_lt e he
    rw [hsize]
    exact Nat.lt_succ_of_lt this
  · intro e he
    have := hg.dst_lt e he
    rw [hsize]
    exact Nat.lt_succ_of_lt this
  · intro b
    rw [hblock, hlink, hedges]
    by_cases h : b = g.cells.size
    · rw [if_pos h, h]
      exact (hnone (·.src) hg.src_lt).symm
    · rw [if_neg h]
      exact hg.succs_eq b
  · intro b
    rw [hblock, hlink, hedges]
    by_cases h : b = g.cells.size
    · rw [if_pos h, h]
      exact (hnone (·.dst) hg.dst_lt).symm
    · rw [if_neg h]
      exact hg.preds_eq b

theorem Wired.addEdge (hg : g.Wired) {src dst : BlockId} (kind : EdgeKind) (hs : src ∈ g.members)
    (hd : dst ∈ g.members) : (g.addEdge src dst kind).Wired := by
  have hs' := hg.mem_members.mp hs
  have hd' := hg.mem_members.mp hd
  have hedges : (g.addEdge src dst kind).edges = g.edges ++ [g.links.size] := rfl
  have hmembers : (g.addEdge src dst kind).members = g.members := rfl
  refine ⟨by simpa using hg.two_le, by rw [hmembers, cells_size_addEdge]; exact hg.members_eq, ?_, hg.entry_eq, hg.exit_eq, ?_, ?_, ?_, ?_, ?_⟩
  · intro b hb
    rw [ordinal_addEdge]
    exact hg.ordinal_eq b (by simpa using hb)
  · rw [hedges, links_size_addEdge, hg.edges_eq, List.range_succ]
  · intro e he
    rw [links_size_addEdge] at he
    rw [link_addEdge, cells_size_addEdge]
    by_cases h : e = g.links.size
    · rw [if_pos h]
      exact hs'
    · rw [if_neg h]
      exact hg.src_lt e (by omega)
  · intro e he
    rw [links_size_addEdge] at he
    rw [link_addEdge, cells_size_addEdge]
    by_cases h : e = g.links.size
    · rw [if_pos h]
      exact hd'
    · rw [if_neg h]
      exact hg.dst_lt e (by omega)
  · intro b
    rw [succs_addEdge, hedges, filter_append_link hg src dst kind (·.src == b), ← hg.succs_eq b]
    by_cases h : b = src
    · subst h
      simp [hs']
    · simp [h, Ne.symm h]
  · intro b
    rw [preds_addEdge, hedges, filter_append_link hg src dst kind (·.dst == b), ← hg.preds_eq b]
    by_cases h : b = dst
    · subst h
      simp [hd']
    · simp [h, Ne.symm h]

theorem Wired.addRegion (hg : g.Wired) (kind : RegionKind) (blocks : List BlockId) :
    (g.addRegion kind blocks).Wired :=
  -- a region changes neither blocks nor edges
  { hg with }

theorem Wired.setOps (hg : g.Wired) (b : BlockId) (ops : List Operation) : (g.setOps b ops).Wired := by
  have hblock : ∀ c, (g.setOps b ops).block c =
      if c = b ∧ b < g.cells.size then { g.block c with ops } else g.block c :=
    block_modifyBlock g b _
  have hsize : (g.setOps b ops).cells.size = g.cells.size := by simp [Graph.setOps, modifyBlock]
  -- replacing operations keeps ordinals and edge lists
  have hkeep : ∀ c, ((g.setOps b ops).block c).ordinal = (g.block c).ordinal ∧
      ((g.setOps b ops).block c).succs = (g.block c).succs ∧
      ((g.setOps b ops).block c).preds = (g.block c).preds := by
    intro c
    rw [hblock]
    split <;> exact ⟨rfl, rfl, rfl⟩
  refine ⟨by rw [hsize]; exact hg.two_le, by rw [hsize]; exact hg.members_eq, ?_, hg.entry_eq, hg.exit_eq,
    hg.edges_eq, ?_, ?_, ?_, ?_⟩
  · intro c hc
    unfold ordinal
    rw [(hkeep c).1]
    exact hg.ordinal_eq c (hsize ▸ hc)
  · intro e he
    rw [hsize]
    exact hg.src_lt e he
  · intro e he
    rw [hsize]
    exact hg.dst_lt e he
  · intro c
    rw [(hkeep c).2.1]
    exact hg.succs_eq c
  · intro c
    rw [(hkeep c).2.2]
    exact hg.preds_eq c

theorem Built.wired (h : g.Built) : g.Wired := by
  induction h with
  | new m => exact wired_new m
  | addBlock ops _ ih => exact ih.addBlock ops
  | addRegion kind blocks _ ih => exact ih.addRegion kind blocks
  | addEdge _ _ kind _ hs hd ih => exact ih.addEdge kind hs hd
  | setOps b ops _ ih => exact ih.setOps b ops

/-! ### What a wired graph is -/

section Wired

variable (hg : g.Wired)
include hg

theorem Wired.ordinal_getElem_members (i : Nat) (hi : i < g.members.length) : g.ordinal g.members[i] = i := by
  have hlen : g.members.length = g.cells.size := by rw [hg.members_eq, List.length_range]
  have hget : g.members[i] = i := by simp only [hg.members_eq, List.getElem_range]
  rw [hget, hg.ordinal_eq i (hlen ▸ hi)]

theorem Wired.getElem?_members_zero : g.members[0]? = some g.entry := by
  rw [hg.members_eq, hg.entry_eq, List.getElem?_range (by have := hg.two_le; omega)]

theorem Wired.getElem?_members_one : g.members[1]? = some g.exit := by
  rw [hg.members_eq, hg.exit_eq, List.getElem?_range (by have := hg.two_le; omega)]

theorem Wired.succBlocks_eq (a : BlockId) :
    g.succBlocks a = (g.edges.filter fun e => (g.link e).src == a).map fun e => (g.link e).dst := by
  unfold succBlocks
  rw [hg.succs_eq]

theorem Wired.predBlocks_eq (b : BlockId) :
    g.predBlocks b = (g.edges.filter fun e => (g.link e).dst == b).map fun e => (g.link e).src := by
  unfold predBlocks
  rw [hg.preds_eq]

/-- Each registered edge from `a` to `b` makes `b` a successor of `a` once and `a` a
predecessor of `b` once. -/
theorem Wired.count_succBlocks (a b : BlockId) : (g.succBlocks a).count b = (g.predBlocks b).count a := by
  rw [hg.succBlocks_eq, hg.predBlocks_eq, List.count_eq_countP, List.count_eq_countP, List.countP_map,
    List.countP_map, List.countP_filter, List.countP_filter]
  congr 1
  funext e
  simp only [Function.comp, Bool.and_comm]

theorem Wired.lt_of_mem_succBlocks {a b : BlockId} (h : b ∈ g.succBlocks a) : b < g.cells.size := by
  rw [hg.succBlocks_eq] at h
  obtain ⟨e, he, rfl⟩ := List.mem_map.mp h
  exact hg.dst_lt e (hg.lt_of_mem_edges (List.mem_filter.mp he).1)

theorem Wired.lt_of_reaches {b : BlockId} (h : g.Reaches g.entry b) : b < g.cells.size :=
  Reaches.closed h (S := (· < g.cells.size))
    (by show g.entry < g.cells.size; rw [hg.entry_eq]; exact Nat.lt_of_lt_of_le (by decide) hg.two_le)
    fun _ _ c hc => hg.lt_of_mem_succBlocks hc

/-- A wired graph is what the solver asks for: reachable blocks have distinct ordinals, and a
block lists as a successor every block that lists it as a predecessor. -/
theorem Wired.coherent : g.Coherent where
  ordinal_inj a b ha hb hab := by
    rw [hg.ordinal_eq a (hg.lt_of_reaches ha), hg.ordinal_eq b (hg.lt_of_reaches hb)] at hab
    exact_mod_cast hab
  pred_succ a b _ _ h := by
    rw [hg.predBlocks_eq] at h
    obtain ⟨e, he, rfl⟩ := List.mem_map.mp h
    obtain ⟨he, hdst⟩ := List.mem_filter.mp he
    rw [hg.succBlocks_eq]
    exact List.mem_map.mpr ⟨e, List.mem_filter.mpr ⟨he, by simp⟩, by simpa using hdst⟩

theorem Wired.danglingOf_eq_none (b : BlockId) : g.danglingOf b = none := by
  have hsucc : ((g.block b).succs.any fun e => (g.link e).src != b || !g.edges.contains e) = false := by
    rw [List.any_eq_false, hg.succs_eq]
    intro e he
    obtain ⟨he, hsrc⟩ := List.mem_filter.mp he
    simp_all
  have hpred : ((g.block b).preds.any fun e => (g.link e).dst != b || !g.edges.contains e) = false := by
    rw [List.any_eq_false, hg.preds_eq]
    intro e he
    obtain ⟨he, hdst⟩ := List.mem_filter.mp he
    simp_all
  rw [danglingOf, hsucc, hpred]
  rfl

theorem Wired.members_contains_entry : g.members.contains g.entry = true := by
  rw [List.contains_iff_mem, hg.mem_members, hg.entry_eq]
  exact Nat.lt_of_lt_of_le (by decide) hg.two_le

theorem Wired.members_contains_exit : g.members.contains g.exit = true := by
  rw [List.contains_iff_mem, hg.mem_members, hg.exit_eq]
  exact Nat.lt_of_lt_of_le (by decide) hg.two_le

/-- No registered edge has an end outside the members, however edges stored later read. -/
theorem Wired.find?_foreign_eq_none_of_agree {g' : Graph} (hlink : ∀ e < g.links.size, g'.link e = g.link e) :
    g.edges.find? (fun e => !(g.members.contains (g'.link e).src && g.members.contains (g'.link e).dst)) = none := by
  rw [List.find?_eq_none]
  intro e he
  have hlt := hg.lt_of_mem_edges he
  rw [hlink e hlt]
  simp [hg.mem_members, hg.src_lt e hlt, hg.dst_lt e hlt]

/-- A graph whose views agree passes the structural checks. -/
theorem Wired.validate_eq (subject : String) : g.validate subject = .ok () := by
  have hdang : g.members.findSome? g.danglingOf = none :=
    List.findSome?_eq_none_iff.mpr fun b _ => hg.danglingOf_eq_none b
  unfold validate
  rw [hg.members_contains_entry, hg.members_contains_exit, hg.find?_foreign_eq_none_of_agree fun _ _ => rfl, hdang]
  rfl

end Wired

/-! ### Malformations are caught -/

private theorem findSome?_eq_of_unique {α β : Type} {f : α → Option β} {b : α} {m : β} (hfb : f b = some m) :
    ∀ {l : List α}, b ∈ l → (∀ c ∈ l, c ≠ b → f c = none) → l.findSome? f = some m
  | c :: l, hb, hrest => by
    rw [List.findSome?_cons]
    by_cases hc : c = b
    · rw [hc, hfb]
    · rw [hrest c List.mem_cons_self hc]
      exact findSome?_eq_of_unique hfb ((List.mem_cons.mp hb).resolve_left (Ne.symm hc))
        fun c' hc' => hrest c' (List.mem_cons_of_mem _ hc')

theorem links_detachedBlock (g : Graph) (o : Int) : (g.detachedBlock o).1.links = g.links := rfl

theorem link_detachedBlock (g : Graph) (o : Int) : (g.detachedBlock o).1.link = g.link := rfl

theorem detachedBlock_snd (g : Graph) (o : Int) : (g.detachedBlock o).2 = g.cells.size := rfl

/-- Listing a new edge at a block: the block store changes at that block only, and the edges
stored before read as they did. -/
theorem block_attach (g : Graph) (b : BlockId) (e : Edge) (f : Block → Block) (c : BlockId) :
    (({ g with links := g.links.push e } : Graph).modifyBlock b f).block c =
      if c = b ∧ b < g.cells.size then f (g.block c) else g.block c :=
  block_modifyBlock _ b f c

theorem link_attach (g : Graph) (b : BlockId) (e : Edge) (f : Block → Block) {x : EdgeId} (hx : x < g.links.size) :
    (({ g with links := g.links.push e } : Graph).modifyBlock b f).link x = g.link x :=
  (link_push g e x).trans (if_neg (Nat.ne_of_lt hx))

section Malformed

variable (hg : g.Wired)
include hg

/-- Dropping the entry or the exit from the members is reported as such. -/
theorem Wired.validate_dropMember {b : BlockId} (hb : b = g.entry ∨ b = g.exit) (subject : String) :
    ∃ g', g.dropMember? b = some g' ∧
      g'.validate subject = .error ⟨.missingEntryOrExit, "entry or exit block is not part of the graph", some subject⟩ := by
  have hmem : g.members.contains b = true := by
    rcases hb with rfl | rfl
    · exact hg.members_contains_entry
    · exact hg.members_contains_exit
  refine ⟨{ g with members := g.members.erase b }, by rw [dropMember?, if_pos hmem], ?_⟩
  -- the members listed each block once, so the dropped one is gone
  have hgone : (g.members.erase b).contains b = false := by
    rw [Bool.eq_false_iff, ne_eq, List.contains_iff_mem, hg.members_eq]
    exact (List.nodup_range).not_mem_erase
  have hcheck : (((g.members.erase b).contains g.entry && (g.members.erase b).contains g.exit)) = false := by
    rcases hb with rfl | rfl
    · rw [hgone, Bool.false_and]
    · rw [hgone, Bool.and_false]
  simp only [validate, hcheck, Bool.not_false, if_true]

/-- A registered edge with an end outside the members, added after edges that join members, is
the edge reported. -/
private theorem Wired.validate_foreign (g' : Graph) (hm : g'.members = g.members) (hentry : g'.entry = g.entry)
    (hexit : g'.exit = g.exit) (hedges : g'.edges = g.edges ++ [g.links.size])
    (hlink : ∀ e < g.links.size, g'.link e = g.link e)
    (hout : ¬ ((g'.link g.links.size).src < g.cells.size ∧ (g'.link g.links.size).dst < g.cells.size))
    (subject : String) :
    g'.validate subject = .error ⟨.foreignBlock,
      "edge " ++ g'.edgeRepr g.links.size ++ " touches a block outside the graph", some subject⟩ := by
  have hbool : (g.members.contains (g'.link g.links.size).src &&
      g.members.contains (g'.link g.links.size).dst) = false := by
    rw [Bool.eq_false_iff]
    intro h
    simp only [Bool.and_eq_true, List.contains_iff_mem, hg.mem_members] at h
    exact hout h
  have hnew : [g.links.size].find? (fun e => !(g.members.contains (g'.link e).src &&
      g.members.contains (g'.link e).dst)) = some g.links.size := by
    rw [List.find?_singleton, hbool]
    rfl
  unfold validate
  rw [hm, hentry, hexit, hg.members_contains_entry, hg.members_contains_exit, hedges, List.find?_append,
    hg.find?_foreign_eq_none_of_agree hlink, hnew]
  rfl

/-- An edge from any block to a block of no graph is reported, with the edge. -/
theorem Wired.validate_foreignTarget (o : Int) (b : BlockId) (kind : EdgeKind) (subject : String) :
    ((g.detachedBlock o).1.addEdge b (g.detachedBlock o).2 kind).validate subject =
      .error ⟨.foreignBlock, "edge " ++ ((g.detachedBlock o).1.addEdge b (g.detachedBlock o).2 kind).edgeRepr
        g.links.size ++ " touches a block outside the graph", some subject⟩ :=
  hg.validate_foreign ((g.detachedBlock o).1.addEdge b (g.detachedBlock o).2 kind) rfl rfl rfl rfl
    (fun e he => by rw [link_addEdge, links_detachedBlock, if_neg (Nat.ne_of_lt he), link_detachedBlock])
    (by rw [link_addEdge, links_detachedBlock, if_pos rfl, detachedBlock_snd]; exact fun h => Nat.lt_irrefl _ h.2)
    subject

/-- An edge from a block of no graph to any block is reported, with the edge. -/
theorem Wired.validate_foreignSource (o : Int) (b : BlockId) (kind : EdgeKind) (subject : String) :
    ((g.detachedBlock o).1.addEdge (g.detachedBlock o).2 b kind).validate subject =
      .error ⟨.foreignBlock, "edge " ++ ((g.detachedBlock o).1.addEdge (g.detachedBlock o).2 b kind).edgeRepr
        g.links.size ++ " touches a block outside the graph", some subject⟩ :=
  hg.validate_foreign ((g.detachedBlock o).1.addEdge (g.detachedBlock o).2 b kind) rfl rfl rfl rfl
    (fun e he => by rw [link_addEdge, links_detachedBlock, if_neg (Nat.ne_of_lt he), link_detachedBlock])
    (by rw [link_addEdge, links_detachedBlock, if_pos rfl, detachedBlock_snd]; exact fun h => Nat.lt_irrefl _ h.1)
    subject

/-- A block whose edge lists agree with the registered edges reports nothing, however the edges
stored after them read. -/
private theorem Wired.danglingOf_of_agree (g' : Graph) (hedges : g'.edges = g.edges)
    (hlink : ∀ e < g.links.size, g'.link e = g.link e) {c : BlockId} (hs : (g'.block c).succs = (g.block c).succs)
    (hp : (g'.block c).preds = (g.block c).preds) : g'.danglingOf c = none := by
  have hsucc : ((g'.block c).succs.any fun e => (g'.link e).src != c || !g'.edges.contains e) = false := by
    rw [List.any_eq_false, hs, hg.succs_eq]
    intro e he
    obtain ⟨he, hsrc⟩ := List.mem_filter.mp he
    rw [hlink e (hg.lt_of_mem_edges he), hedges]
    simp_all
  have hpred : ((g'.block c).preds.any fun e => (g'.link e).dst != c || !g'.edges.contains e) = false := by
    rw [List.any_eq_false, hp, hg.preds_eq]
    intro e he
    obtain ⟨he, hdst⟩ := List.mem_filter.mp he
    rw [hlink e (hg.lt_of_mem_edges he), hedges]
    simp_all
  rw [danglingOf, hsucc, hpred]
  rfl

/-- The edge about to be stored is not registered. -/
private theorem Wired.links_size_not_mem_edges : g.links.size ∉ g.edges := by
  rw [hg.edges_eq, List.mem_range]
  exact Nat.lt_irrefl _

/-- When exactly one member reports a dangling edge, the check reports it, after the entry, the
exit and the registered edges pass. -/
private theorem Wired.validate_dangling (g' : Graph) (hm : g'.members = g.members) (hentry : g'.entry = g.entry)
    (hexit : g'.exit = g.exit) (hedges : g'.edges = g.edges) (hlink : ∀ e < g.links.size, g'.link e = g.link e)
    {b : BlockId} (hb : b ∈ g.members) {msg : String} (hmsg : g'.danglingOf b = some msg)
    (hrest : ∀ c ∈ g.members, c ≠ b → g'.danglingOf c = none) (subject : String) :
    g'.validate subject = .error ⟨.danglingEdge, msg, some subject⟩ := by
  unfold validate
  rw [hm, hentry, hexit, hg.members_contains_entry, hg.members_contains_exit, hedges,
    hg.find?_foreign_eq_none_of_agree hlink, findSome?_eq_of_unique hmsg hb hrest]
  rfl

/-- An edge a member lists as outgoing but the graph never registered is reported at that member. -/
theorem Wired.validate_attachSucc {b : BlockId} (hb : b ∈ g.members) (e : Edge) (subject : String) :
    (g.attachSucc b e).validate subject =
      .error ⟨.danglingEdge, g.blockName b ++ " lists an unregistered successor edge", some subject⟩ := by
  have hb' := hg.mem_members.mp hb
  have hblock : ∀ c, (g.attachSucc b e).block c =
      if c = b ∧ b < g.cells.size then { g.block c with succs := (g.block c).succs ++ [g.links.size] } else g.block c :=
    block_attach g b e _
  have hlink : ∀ x < g.links.size, (g.attachSucc b e).link x = g.link x := fun _ hx => link_attach g b e _ hx
  have hname : (g.attachSucc b e).blockName b = g.blockName b := by
    unfold blockName ordinal
    rw [hblock, if_pos ⟨rfl, hb'⟩]
  -- the listed edge is not registered
  have hany : ((g.attachSucc b e).block b).succs.any (fun x => ((g.attachSucc b e).link x).src != b ||
      !(g.attachSucc b e).edges.contains x) = true := by
    rw [hblock, if_pos ⟨rfl, hb'⟩, List.any_eq_true]
    exact ⟨g.links.size, by simp, by simp [show (g.attachSucc b e).edges = g.edges from rfl,
      hg.links_size_not_mem_edges]⟩
  refine hg.validate_dangling (g.attachSucc b e) rfl rfl rfl rfl hlink hb ?_ (fun c _ hc => ?_) subject
  · rw [danglingOf, hany, if_pos rfl, hname]
  · have hc' : (g.attachSucc b e).block c = g.block c := by rw [hblock, if_neg fun h => hc h.1]
    exact hg.danglingOf_of_agree (g.attachSucc b e) rfl hlink (by rw [hc']) (by rw [hc'])

/-- An edge a member lists as incoming but the graph never registered is reported at that member. -/
theorem Wired.validate_attachPred {b : BlockId} (hb : b ∈ g.members) (e : Edge) (subject : String) :
    (g.attachPred b e).validate subject =
      .error ⟨.danglingEdge, g.blockName b ++ " lists an unregistered predecessor edge", some subject⟩ := by
  have hb' := hg.mem_members.mp hb
  have hblock : ∀ c, (g.attachPred b e).block c =
      if c = b ∧ b < g.cells.size then { g.block c with preds := (g.block c).preds ++ [g.links.size] } else g.block c :=
    block_attach g b e _
  have hlink : ∀ x < g.links.size, (g.attachPred b e).link x = g.link x := fun _ hx => link_attach g b e _ hx
  have hname : (g.attachPred b e).blockName b = g.blockName b := by
    unfold blockName ordinal
    rw [hblock, if_pos ⟨rfl, hb'⟩]
  -- the outgoing edges still agree; the incoming ones do not
  have hsucc : ((g.attachPred b e).block b).succs.any (fun x => ((g.attachPred b e).link x).src != b ||
      !(g.attachPred b e).edges.contains x) = false := by
    rw [List.any_eq_false, hblock, if_pos ⟨rfl, hb'⟩, hg.succs_eq]
    intro x hx
    obtain ⟨hx, hsrc⟩ := List.mem_filter.mp hx
    rw [hlink x (hg.lt_of_mem_edges hx), show (g.attachPred b e).edges = g.edges from rfl]
    simp_all
  have hpred : ((g.attachPred b e).block b).preds.any (fun x => ((g.attachPred b e).link x).dst != b ||
      !(g.attachPred b e).edges.contains x) = true := by
    rw [hblock, if_pos ⟨rfl, hb'⟩, List.any_eq_true]
    exact ⟨g.links.size, by simp, by simp [show (g.attachPred b e).edges = g.edges from rfl,
      hg.links_size_not_mem_edges]⟩
  refine hg.validate_dangling (g.attachPred b e) rfl rfl rfl rfl hlink hb ?_ (fun c _ hc => ?_) subject
  · rw [danglingOf, hsucc, hpred, if_neg (by decide), if_pos rfl, hname]
  · have hc' : (g.attachPred b e).block c = g.block c := by rw [hblock, if_neg fun h => hc h.1]
    exact hg.danglingOf_of_agree (g.attachPred b e) rfl hlink (by rw [hc']) (by rw [hc'])

end Malformed

/-! ### Built graphs -/

/-- What the building interface promises of a graph, checked against `subject`: its `i`-th block
has ordinal `i`, the entry first and the exit second; each block lists as outgoing (incoming)
exactly the registered edges leaving (entering) it, in registration order, so that successors
and predecessors are converse relations counted with multiplicity; the check passes; and each
malformation the check is meant to catch fails it with its own code and message. -/
structure BuildGuarantees (g : Graph) (subject : String) : Prop where
  ordinal_getElem : ∀ i (hi : i < g.members.length), g.ordinal g.members[i] = i
  entry_first : g.members[0]? = some g.entry
  exit_second : g.members[1]? = some g.exit
  succs_eq : ∀ b, (g.block b).succs = g.edges.filter fun e => (g.link e).src == b
  preds_eq : ∀ b, (g.block b).preds = g.edges.filter fun e => (g.link e).dst == b
  count_succBlocks : ∀ a b, (g.succBlocks a).count b = (g.predBlocks b).count a
  validate_ok : g.validate subject = .ok ()
  drop_caught : ∀ b, b = g.entry ∨ b = g.exit → ∃ g', g.dropMember? b = some g' ∧
    g'.validate subject = .error ⟨.missingEntryOrExit, "entry or exit block is not part of the graph", some subject⟩
  foreign_target_caught : ∀ (o : Int) (b : BlockId) (kind : EdgeKind),
    ((g.detachedBlock o).1.addEdge b (g.detachedBlock o).2 kind).validate subject =
      .error ⟨.foreignBlock, "edge " ++ ((g.detachedBlock o).1.addEdge b (g.detachedBlock o).2 kind).edgeRepr
        g.links.size ++ " touches a block outside the graph", some subject⟩
  foreign_source_caught : ∀ (o : Int) (b : BlockId) (kind : EdgeKind),
    ((g.detachedBlock o).1.addEdge (g.detachedBlock o).2 b kind).validate subject =
      .error ⟨.foreignBlock, "edge " ++ ((g.detachedBlock o).1.addEdge (g.detachedBlock o).2 b kind).edgeRepr
        g.links.size ++ " touches a block outside the graph", some subject⟩
  dangling_succ_caught : ∀ b ∈ g.members, ∀ e : Edge, (g.attachSucc b e).validate subject =
    .error ⟨.danglingEdge, g.blockName b ++ " lists an unregistered successor edge", some subject⟩
  dangling_pred_caught : ∀ b ∈ g.members, ∀ e : Edge, (g.attachPred b e).validate subject =
    .error ⟨.danglingEdge, g.blockName b ++ " lists an unregistered predecessor edge", some subject⟩

/-- Every graph built through the interface keeps what the interface promises, for any rendered
subject. -/
theorem built_wellFormed {g : Graph} (hg : g.Built) (subject : String) : g.BuildGuarantees subject :=
  have hw := hg.wired
  { ordinal_getElem := hw.ordinal_getElem_members
    entry_first := hw.getElem?_members_zero
    exit_second := hw.getElem?_members_one
    succs_eq := hw.succs_eq
    preds_eq := hw.preds_eq
    count_succBlocks := hw.count_succBlocks
    validate_ok := hw.validate_eq subject
    drop_caught := fun _ hb => hw.validate_dropMember hb subject
    foreign_target_caught := fun o b kind => hw.validate_foreignTarget o b kind subject
    foreign_source_caught := fun o b kind => hw.validate_foreignSource o b kind subject
    dangling_succ_caught := fun _ hb e => hw.validate_attachSucc hb e subject
    dangling_pred_caught := fun _ hb e => hw.validate_attachPred hb e subject }

/-- A diamond: the entry branches to blocks 2 and 3, which both return to the exit. -/
def diamondGraph : Graph :=
  ((((((Graph.new 0).addBlock []).1.addBlock []).1.addEdge 0 2 .branchTrue).addEdge 0 3 .branchFalse).addEdge
    2 1 .returnEdge).addEdge 3 1 .returnEdge

theorem built_diamondGraph : diamondGraph.Built := by
  have h0 := ((Built.new 0).addBlock []).addBlock []
  have h1 := h0.addEdge 0 2 .branchTrue (by decide) (by decide)
  have h2 := h1.addEdge 0 3 .branchFalse (by decide) (by decide)
  have h3 := h2.addEdge 2 1 .returnEdge (by decide) (by decide)
  exact h3.addEdge 3 1 .returnEdge (by decide) (by decide)

theorem built_wellFormed_diamond : diamondGraph.Built ∧ diamondGraph.BuildGuarantees "M" :=
  ⟨built_diamondGraph, built_wellFormed built_diamondGraph "M"⟩

end NullGuard.Graph
