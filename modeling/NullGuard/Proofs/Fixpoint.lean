import NullGuard.Proofs.Worklist

/-!
# The solver finds the least solution of the dataflow equations

Over a lawful domain and a coherent graph, when `Dataflow.solve` returns with a pure transfer
`f`, its facts are defined exactly at the blocks reachable from the entry, and there

    IN[B]  = ⊔ (seed, at the entry; OUT[P] for each reachable predecessor P)   (up to the domain's equality)
    OUT[B] = f B (IN[B]);

when `f` is monotone, these facts are below every other assignment that satisfies the
equations with `⊒` (`solve_least_solution`).

The proof carries one invariant through every visit (`Sound`): a rank off the worklist that
was visited has an input equal to the join of the current outputs of its predecessors, and a
successor of a visited rank is visited or queued. For leastness, a second invariant says that
every fact found is below the other assignment (`Below`, the Kildall argument).
-/

namespace NullGuard.Dataflow

variable {L : Type}

open Domain

/-! ### The solver's answer, block by block -/

namespace Solution

/-- The fact at the entry of a block, if the block was visited. -/
def inAt (s : Solution L) (b : BlockId) : Option L := (rankIn s.order b).bind fun r => (s.ins[r]?).join

/-- The fact after the transfer of a block, if the block was visited. -/
def outAt (s : Solution L) (b : BlockId) : Option L :=
  (rankIn s.order b).bind fun r => (s.outs[r]?).join

end Solution

/-- An assignment of facts to the reachable blocks that satisfies the dataflow equations with
`⊒`: above the seed at the entry, above the output of every reachable predecessor, and its
output above the transfer of its input. -/
structure PostSolution (g : Graph) (d : Domain L) (seed : L) (f : BlockId → L → L)
    (IN OUT : BlockId → L) : Prop where
  seed_le : d.le seed (IN g.entry)
  out_le_in : ∀ p b, g.Reaches g.entry p → g.Reaches g.entry b → p ∈ g.predBlocks b → d.le (OUT p) (IN b)
  transfer_le : ∀ b, g.Reaches g.entry b → d.le (f b (IN b)) (OUT b)

/-! ### Runs with a pure transfer -/

section Pure

variable (g : Graph) (d : Domain L) (f : BlockId → L → L) (seed : L) (order : Array BlockId)

/-- The state after visiting rank `r` with the pure transfer `f`. -/
def Progress.visit (st : Progress L) (r : Nat) (rest : List Nat) : Progress L :=
  st.advance g d order r rest (st.input g d seed order r)
    (f (blockAt g order r) (st.input g d seed order r))

/-- Any property that every visit preserves holds when a run with a pure transfer returns, and
the worklist is then empty. -/
theorem run_pure_invariant (Inv : Progress L → Prop)
    (hstep : ∀ st r rest, st.work = r :: rest → Inv st → Inv (st.visit g d f seed order r rest)) :
    ∀ (fuel : Nat) (st st' : Progress L),
      Id.run (run g d (fun b x => pure (f b x)) seed order fuel st) = .ok st' → Inv st →
        Inv st' ∧ st'.work = []
  | fuel, st, st', hrun, hinv => by
    cases hw : st.work with
    | nil =>
      rw [run_nil g d _ seed order fuel st hw] at hrun
      cases hrun
      exact ⟨hinv, hw⟩
    | cons r rest =>
      cases fuel with
      | zero =>
        rw [run_zero g d _ seed order st hw] at hrun
        cases hrun
      | succ fuel =>
        rw [run_cons g d _ seed order fuel st hw] at hrun
        exact run_pure_invariant Inv hstep fuel _ st' hrun (hstep st r rest hw hinv)

end Pure

/-! ### The invariant -/

/-- What holds of the solver's state between visits: the facts of a rank are written together,
the output is the transfer of the input, a visited rank off the worklist is settled, and the
successors of a visited rank are visited or queued; the entry is visited or queued. -/
structure Sound (g : Graph) (d : Domain L) (f : BlockId → L → L) (seed : L) (order : Array BlockId)
    (st : Progress L) : Prop where
  ins_size : st.ins.size = order.size
  outs_size : st.outs.size = order.size
  work_lt : ∀ r ∈ st.work, r < order.size
  out_eq : ∀ r x, st.inAt r = some x → st.outAt r = some (f (blockAt g order r) x)
  in_of_out : ∀ r y, st.outAt r = some y → ∃ x, st.inAt r = some x
  settled : ∀ r x, r ∉ st.work → st.inAt r = some x → d.same x (st.input g d seed order r)
  closed : ∀ r y, st.outAt r = some y → ∀ s ∈ g.succBlocks (blockAt g order r), ∀ rs,
    rankIn order s = some rs → rs ∈ st.work ∨ (st.outAt rs).isSome
  entry : 0 ∈ st.work ∨ (st.outAt 0).isSome

/-- Every fact found is below the assignment `IN`, `OUT`. -/
def Below (g : Graph) (d : Domain L) (order : Array BlockId) (IN OUT : BlockId → L) (st : Progress L) :
    Prop :=
  ∀ r, (∀ x, st.inAt r = some x → d.le x (IN (blockAt g order r))) ∧
    (∀ y, st.outAt r = some y → d.le y (OUT (blockAt g order r)))

section Visit

variable {g : Graph} {d : Domain L} {f : BlockId → L → L} {seed : L} {order : Array BlockId}

theorem blockAt_of_getElem? {r : Nat} {b : BlockId} (h : order[r]? = some b) : blockAt g order r = b := by
  simp [blockAt, h]

/-- The block of an in-range rank is in the order and has that rank. -/
theorem blockAt_spec (hR : Ranking g order) {r : Nat} (hr : r < order.size) :
    order[r]? = some (blockAt g order r) ∧ blockAt g order r ∈ order ∧
      rankIn order (blockAt g order r) = some r := by
  have h : order[r]? = some order[r] := Array.getElem?_eq_getElem hr
  rw [blockAt_of_getElem? h]
  exact ⟨h, Array.getElem_mem hr, rankIn_of_getElem? hR.nodup h⟩

theorem OptSame_refl (hd : d.Lawful) : ∀ o : Option L, d.OptSame o o
  | none => trivial
  | some a => hd.same_refl a

/-- Inputs computed from outputs that agree at every predecessor are equal. -/
theorem input_congr (hd : d.Lawful) {st st' : Progress L} {r : Nat}
    (h : ∀ p ∈ g.predBlocks (blockAt g order r), d.OptSame (st'.outOf order p) (st.outOf order p)) :
    d.same (st'.input g d seed order r) (st.input g d seed order r) := by
  unfold Progress.input joinAll
  rw [Progress.incoming_eq, Progress.incoming_eq, List.foldl_append, List.foldl_append]
  apply hd.foldl_filterMap_congr _ _ _ _ _ _ h
  exact hd.same_refl _

variable {st : Progress L} {r : Nat} {rest : List Nat}

/-- After a visit of rank `r`, the outputs read for the predecessors of a reachable block agree
with the old ones, unless that block is a successor of `r`'s block and the visit changed the
output. -/
theorem outOf_visit_agree (hd : d.Lawful) (hg : g.Coherent) (hR : Ranking g order)
    (hr : r < order.size) (hsz : st.outs.size = order.size) {b : BlockId} (hb : b ∈ order)
    (hnot : ¬ (st.changed d r (f (blockAt g order r) (st.input g d seed order r)) = true ∧
      b ∈ g.succBlocks (blockAt g order r))) :
    ∀ p ∈ g.predBlocks b,
      d.OptSame ((st.visit g d f seed order r rest).outOf order p) (st.outOf order p) := by
  intro p hp
  unfold Progress.outOf
  cases hrank : rankIn order p with
  | none => trivial
  | some rp =>
    simp only [Option.bind_some]
    unfold Progress.visit
    rw [Progress.outAt_advance (by omega)]
    by_cases hrp : rp = r
    · subst hrp
      -- `p` is the visited block itself, so `b` is among its successors
      have hpb : p = blockAt g order rp :=
        (blockAt_of_getElem? (getElem?_of_rankIn hrank)).symm
      have hsucc : b ∈ g.succBlocks (blockAt g order rp) := by
        rw [← hpb]
        exact hg.pred_succ p b (hR.reach p (Array.mem_of_getElem? (getElem?_of_rankIn hrank)))
          (hR.reach b hb) hp
      have hunch : st.changed d rp (f (blockAt g order rp) (st.input g d seed order rp)) = false := by
        cases hc : st.changed d rp _
        · rfl
        · exact absurd ⟨hc, hsucc⟩ hnot
      obtain ⟨old, hold, hsame⟩ := Progress.same_of_not_changed hunch
      rw [if_pos rfl, hold]
      exact hsame
    · rw [if_neg hrp]
      exact OptSame_refl hd _

/-- A rank visited or queued before a visit of the head of the worklist is visited or queued
after it. -/
theorem visited_or_queued_visit (hw : st.work = r :: rest) (hr : r < st.outs.size) {x : Nat}
    (h : x ∈ st.work ∨ (st.outAt x).isSome) :
    x ∈ (st.visit g d f seed order r rest).work ∨ ((st.visit g d f seed order r rest).outAt x).isSome := by
  unfold Progress.visit
  rw [Progress.mem_work_advance, Progress.outAt_advance hr]
  by_cases hx : x = r
  · right; simp [hx]
  · rw [hw] at h
    rcases h with h | h
    · rcases List.mem_cons.mp h with h | h
      · exact absurd h hx
      · exact .inl (.inl h)
    · right; simpa [hx] using h

theorem Sound.visit (hd : d.Lawful) (hg : g.Coherent) (hR : Ranking g order)
    (hs : Sound g d f seed order st) (hw : st.work = r :: rest) :
    Sound g d f seed order (st.visit g d f seed order r rest) := by
  have hr : r < order.size := hs.work_lt r (by simp [hw])
  have hri : r < st.ins.size := by rw [hs.ins_size]; exact hr
  have hro : r < st.outs.size := by rw [hs.outs_size]; exact hr
  have hin : ∀ r', (st.visit g d f seed order r rest).inAt r' =
      if r' = r then some (st.input g d seed order r) else st.inAt r' :=
    fun r' => Progress.inAt_advance hri r'
  have hout : ∀ r', (st.visit g d f seed order r rest).outAt r' =
      if r' = r then some (f (blockAt g order r) (st.input g d seed order r)) else st.outAt r' :=
    fun r' => Progress.outAt_advance hro r'
  have hwork : ∀ x, x ∈ (st.visit g d f seed order r rest).work ↔ x ∈ rest ∨
      (st.changed d r (f (blockAt g order r) (st.input g d seed order r)) = true ∧
        ∃ s ∈ g.succBlocks (blockAt g order r), rankIn order s = some x) :=
    fun x => Progress.mem_work_advance
  refine ⟨?_, ?_, ?_, ?_, ?_, ?_, ?_, ?_⟩
  · simpa [Progress.visit] using hs.ins_size
  · simpa [Progress.visit] using hs.outs_size
  · exact fun x hx => Progress.lt_of_mem_work_advance hs.work_lt hw hx
  · intro r' x hx
    rw [hin] at hx
    rw [hout]
    by_cases h : r' = r
    · subst h; simp_all
    · simp only [h, if_false] at hx ⊢
      exact hs.out_eq r' x hx
  · intro r' y hy
    rw [hout] at hy
    rw [hin]
    by_cases h : r' = r
    · simp [h]
    · simp only [h, if_false] at hy ⊢
      exact hs.in_of_out r' y hy
  · intro r' x hoff hx
    have hr' : r' < order.size := by
      by_cases h : r' = r
      · rw [h]; exact hr
      · rw [hin, if_neg h] at hx
        have := (Array.getElem?_eq_some_iff.mp (Option.join_eq_some_iff.mp hx)).1
        rw [hs.ins_size] at this
        exact this
    obtain ⟨-, hb', hrank'⟩ := blockAt_spec hR hr'
    -- the visit cannot have disturbed the predecessors of an off-worklist rank
    have hnot : ¬ (st.changed d r (f (blockAt g order r) (st.input g d seed order r)) = true ∧
        blockAt g order r' ∈ g.succBlocks (blockAt g order r)) := by
      rintro ⟨hc, hsucc⟩
      exact hoff ((hwork r').mpr (.inr ⟨hc, _, hsucc, hrank'⟩))
    have hcongr : d.same ((st.visit g d f seed order r rest).input g d seed order r')
        (st.input g d seed order r') :=
      input_congr hd (outOf_visit_agree hd hg hR hr hs.outs_size hb' hnot)
    by_cases h : r' = r
    · subst h
      rw [hin, if_pos rfl] at hx
      cases hx
      exact hd.same_symm hcongr
    · rw [hin, if_neg h] at hx
      have hoff' : r' ∉ st.work := by
        rw [hw]
        rintro (_ | ⟨_, hmem⟩)
        · exact h rfl
        · exact hoff ((hwork r').mpr (.inl hmem))
      exact hd.same_trans (hs.settled r' x hoff' hx) (hd.same_symm hcongr)
  · intro r' y hy s hs' rs hrs
    by_cases h : r' = r
    · subst h
      by_cases hc : st.changed d r' (f (blockAt g order r') (st.input g d seed order r')) = true
      · exact .inl ((hwork rs).mpr (.inr ⟨hc, s, hs', hrs⟩))
      · obtain ⟨old, hold, -⟩ := Progress.same_of_not_changed (Bool.eq_false_iff.mpr hc)
        exact visited_or_queued_visit hw hro (hs.closed r' old hold s hs' rs hrs)
    · rw [hout, if_neg h] at hy
      exact visited_or_queued_visit hw hro (hs.closed r' y hy s hs' rs hrs)
  · exact visited_or_queued_visit hw hro hs.entry

/-- Over a post-solution, the input of a visit is below its block's `IN`: it joins the seed and
outputs found so far, each below `IN`. -/
theorem Below.input_le (hd : d.Lawful) (hR : Ranking g order) {IN OUT : BlockId → L}
    (hpost : PostSolution g d seed f IN OUT) (hb : Below g d order IN OUT st) (hr : r < order.size) :
    d.le (st.input g d seed order r) (IN (blockAt g order r)) := by
  obtain ⟨-, hB, -⟩ := blockAt_spec hR hr
  unfold Progress.input joinAll
  rw [Progress.incoming_eq]
  apply hd.foldl_join_le _ _ (hd.bottom_le _)
  intro x hx
  rcases List.mem_append.mp hx with hx | hx
  · by_cases he : blockAt g order r = g.entry
    · rw [if_pos he, List.mem_singleton] at hx
      rw [hx, he]
      exact hpost.seed_le
    · rw [if_neg he] at hx
      cases hx
  · obtain ⟨p, hp, hpx⟩ := List.mem_filterMap.mp hx
    unfold Progress.outOf at hpx
    cases hrank : rankIn order p with
    | none => rw [hrank] at hpx; cases hpx
    | some rp =>
      rw [hrank, Option.bind_some] at hpx
      have hpr : order[rp]? = some p := getElem?_of_rankIn hrank
      have hxp := (hb rp).2 x hpx
      rw [blockAt_of_getElem? hpr] at hxp
      exact hd.le_trans hxp (hpost.out_le_in p _ (hR.reach p (Array.mem_of_getElem? hpr))
        (hR.reach _ hB) hp)

/-- Every visit keeps the facts below a post-solution when the transfer is monotone. -/
theorem Below.visit (hd : d.Lawful) (hR : Ranking g order) (hmono : d.Monotone f)
    {IN OUT : BlockId → L} (hpost : PostSolution g d seed f IN OUT) (hs : Sound g d f seed order st)
    (hb : Below g d order IN OUT st) (hw : st.work = r :: rest) :
    Below g d order IN OUT (st.visit g d f seed order r rest) := by
  have hr : r < order.size := hs.work_lt r (by simp [hw])
  obtain ⟨-, hB, -⟩ := blockAt_spec hR hr
  have hinput := hb.input_le hd hR hpost hr
  have houtput : d.le (f (blockAt g order r) (st.input g d seed order r)) (OUT (blockAt g order r)) :=
    hd.le_trans (hmono _ _ _ hinput) (hpost.transfer_le _ (hR.reach _ hB))
  intro r'
  unfold Progress.visit
  rw [Progress.inAt_advance (by rw [hs.ins_size]; exact hr),
    Progress.outAt_advance (by rw [hs.outs_size]; exact hr)]
  by_cases h : r' = r
  · subst h
    simp only [if_true, Option.some.injEq]
    exact ⟨fun x hx => hx ▸ hinput, fun y hy => hy ▸ houtput⟩
  · simp only [h, if_false]
    exact hb r'

end Visit

/-! ### From the invariant to the answer -/

/-- The state the solver starts from: the entry's rank queued, nothing found. -/
def Progress.start (n : Nat) : Progress L :=
  { work := [0], ins := Array.replicate n none, outs := Array.replicate n none, iterations := 0 }

section Final

variable {g : Graph} {d : Domain L} {f : BlockId → L → L} {seed : L} {order : Array BlockId}

@[simp] theorem inAt_start (n r : Nat) : (Progress.start n : Progress L).inAt r = none := by
  simp only [Progress.start, Progress.inAt, Array.getElem?_replicate]
  split <;> rfl

@[simp] theorem outAt_start (n r : Nat) : (Progress.start n : Progress L).outAt r = none := by
  simp only [Progress.start, Progress.outAt, Array.getElem?_replicate]
  split <;> rfl

theorem sound_start (hR : Ranking g order) : Sound g d f seed order (Progress.start order.size) where
  ins_size := by simp [Progress.start]
  outs_size := by simp [Progress.start]
  work_lt r hr := by
    have : r = 0 := by simpa [Progress.start] using hr
    subst this
    exact (Array.getElem?_eq_some_iff.mp hR.entry).1
  out_eq r x hx := by simp at hx
  in_of_out r y hy := by simp at hy
  settled r x _ hx := by simp at hx
  closed r y hy := by simp at hy
  entry := .inl (by simp [Progress.start])

theorem below_start {IN OUT : BlockId → L} : Below g d order IN OUT (Progress.start order.size) :=
  fun r => ⟨fun x hx => by simp at hx, fun y hy => by simp at hy⟩

variable {st : Progress L}

/-- When the worklist is empty, every block reachable from the entry was visited. -/
theorem Sound.visited_of_reaches (hR : Ranking g order) (hs : Sound g d f seed order st)
    (hw : st.work = []) (hall : ∀ b, g.Reaches g.entry b → b ∈ order) {b : BlockId}
    (hb : g.Reaches g.entry b) : ∃ r, rankIn order b = some r ∧ (st.outAt r).isSome := by
  induction hb with
  | refl =>
    refine ⟨0, rankIn_of_getElem? hR.nodup hR.entry, ?_⟩
    simpa [hw] using hs.entry
  | tail hab hbc ih =>
    rename_i a c
    obtain ⟨ra, hra, hvis⟩ := ih
    obtain ⟨rc, hrc⟩ := rankIn_of_mem (hall c (Relation.ReflTransGen.tail hab hbc))
    obtain ⟨y, hy⟩ := Option.isSome_iff_exists.mp hvis
    have ha : blockAt g order ra = a := blockAt_of_getElem? (getElem?_of_rankIn hra)
    refine ⟨rc, hrc, ?_⟩
    simpa [hw] using hs.closed ra y hy c (ha ▸ hbc) rc hrc

/-- The input found for a block, through its rank. -/
def Progress.inOf (order : Array BlockId) (st : Progress L) (b : BlockId) : Option L :=
  (rankIn order b).bind st.inAt

variable (hR : Ranking g order) (hs : Sound g d f seed order st) (hw : st.work = [])
  (hall : ∀ b, g.Reaches g.entry b → b ∈ order)
include hR hs hw hall

theorem Sound.inOf_isSome_iff (b : BlockId) : (st.inOf order b).isSome ↔ g.Reaches g.entry b := by
  constructor
  · intro h
    obtain ⟨x, hx⟩ := Option.isSome_iff_exists.mp h
    obtain ⟨r, hr, -⟩ := Option.bind_eq_some_iff.mp hx
    exact hR.reach b (Array.mem_of_getElem? (getElem?_of_rankIn hr))
  · intro hb
    obtain ⟨r, hr, hvis⟩ := hs.visited_of_reaches hR hw hall hb
    obtain ⟨y, hy⟩ := Option.isSome_iff_exists.mp hvis
    obtain ⟨x, hx⟩ := hs.in_of_out r y hy
    simp [Progress.inOf, hr, hx]

theorem Sound.outOf_isSome_iff (b : BlockId) : (st.outOf order b).isSome ↔ g.Reaches g.entry b := by
  rw [← hs.inOf_isSome_iff hR hw hall b]
  unfold Progress.inOf Progress.outOf
  cases hr : rankIn order b with
  | none => simp
  | some r =>
    simp only [Option.bind_some]
    constructor
    · intro h
      obtain ⟨y, hy⟩ := Option.isSome_iff_exists.mp h
      obtain ⟨x, hx⟩ := hs.in_of_out r y hy
      simp [hx]
    · intro h
      obtain ⟨x, hx⟩ := Option.isSome_iff_exists.mp h
      simp [hs.out_eq r x hx]

omit hR hall in
/-- At the end, the input of a block equals the join of the seed, at the entry, and of the
outputs of its visited predecessors. -/
theorem Sound.inOf_same {b : BlockId} {x : L} (hx : st.inOf order b = some x) :
    d.same x (d.joinAll ((if b = g.entry then [seed] else []) ++
      (g.predBlocks b).filterMap (st.outOf order))) := by
  obtain ⟨r, hr, hxr⟩ := Option.bind_eq_some_iff.mp hx
  have hsame := hs.settled r x (by simp [hw]) hxr
  unfold Progress.input at hsame
  rwa [Progress.incoming_eq, blockAt_of_getElem? (getElem?_of_rankIn hr)] at hsame

omit hR hw hall in
theorem Sound.outOf_eq {b : BlockId} {x : L} (hx : st.inOf order b = some x) :
    st.outOf order b = some (f b x) := by
  obtain ⟨r, hr, hxr⟩ := Option.bind_eq_some_iff.mp hx
  have hout := hs.out_eq r x hxr
  rw [blockAt_of_getElem? (getElem?_of_rankIn hr)] at hout
  simp [Progress.outOf, hr, hout]

end Final

/-- The answer the solver makes of the result of its run. -/
def finish (g : Graph) : Except Nat (Progress L) → Except Nat (Solution L)
  | .error n => .error n
  | .ok st =>
    .ok { order := g.reversePostorder.toArray, ordinals := g.reversePostorder.toArray.map g.ordinal,
          exitRank := rankIn g.reversePostorder.toArray g.exit, ins := st.ins, outs := st.outs,
          iterations := st.iterations }

theorem solve_pure_eq {g : Graph} {d : Domain L} {f : BlockId → L → L} {seed : L} {budget : Nat} :
    Id.run (solve g d (fun b x => pure (f b x)) seed budget) =
      finish g (Id.run (run g d (fun b x => pure (f b x)) seed g.reversePostorder.toArray budget
        (Progress.start g.reversePostorder.toArray.size))) := rfl

/-- When the solver returns with a pure transfer, it returns the facts of a finished run from
the start state over reverse post-order. -/
theorem solve_pure_ok {g : Graph} {d : Domain L} {f : BlockId → L → L} {seed : L} {budget : Nat}
    {sol : Solution L} (hs : Id.run (solve g d (fun b x => pure (f b x)) seed budget) = .ok sol) :
    ∃ st : Progress L, Id.run (run g d (fun b x => pure (f b x)) seed g.reversePostorder.toArray budget
      (Progress.start g.reversePostorder.toArray.size)) = .ok st ∧
      sol.inAt = st.inOf g.reversePostorder.toArray ∧ sol.outAt = st.outOf g.reversePostorder.toArray := by
  rw [solve_pure_eq] at hs
  cases hrun : Id.run (run g d (fun b x => pure (f b x)) seed g.reversePostorder.toArray budget
      (Progress.start g.reversePostorder.toArray.size)) with
  | error n => rw [hrun] at hs; cases hs
  | ok st =>
    rw [hrun] at hs
    cases hs
    -- the answer reads the final state through ranks in reverse post-order
    exact ⟨st, rfl, rfl, rfl⟩

/-- What a solver answer promises over a graph, a domain, a transfer `f` and a seed:

* the facts at a block's entry and after its transfer are defined exactly when the block is
  reachable from the entry;
* the fact at a block's entry equals the join of the seed (at the entry) and of the facts after
  the transfer of its reachable predecessors;
* the fact after a block's transfer is the transfer of the fact at its entry;
* when `f` is monotone, both facts are below those of every assignment satisfying the
  equations with `⊒`. -/
structure Solution.IsLeastSolution (sol : Solution L) (g : Graph) (d : Domain L) (f : BlockId → L → L)
    (seed : L) : Prop where
  inAt_isSome : ∀ b, (sol.inAt b).isSome ↔ g.Reaches g.entry b
  outAt_isSome : ∀ b, (sol.outAt b).isSome ↔ g.Reaches g.entry b
  inAt_same : ∀ b x, sol.inAt b = some x →
    d.same x (d.joinAll ((if b = g.entry then [seed] else []) ++ (g.predBlocks b).filterMap sol.outAt))
  outAt_eq : ∀ b x, sol.inAt b = some x → sol.outAt b = some (f b x)
  least : d.Monotone f → ∀ IN OUT, PostSolution g d seed f IN OUT → ∀ b,
    (∀ x, sol.inAt b = some x → d.le x (IN b)) ∧ (∀ y, sol.outAt b = some y → d.le y (OUT b))

/-- The solver's answer solves the dataflow equations on the reachable blocks, and is the least
solution when the transfer is monotone: over a lawful domain and a coherent graph, with a pure
transfer, whenever `solve` returns. -/
theorem solve_least_solution {g : Graph} {d : Domain L} {f : BlockId → L → L} {seed : L}
    {budget : Nat} {sol : Solution L} (hg : g.Coherent) (hd : d.Lawful)
    (hs : Id.run (solve g d (fun b x => pure (f b x)) seed budget) = .ok sol) :
    sol.IsLeastSolution g d f seed := by
  obtain ⟨st, hrun, hin, hout⟩ := solve_pure_ok hs
  have hR := ranking_reversePostorder g
  have hall : ∀ b, g.Reaches g.entry b → b ∈ g.reversePostorder.toArray :=
    fun b hb => by simpa using hg.mem_reversePostorder hb
  obtain ⟨hsound, hw⟩ := run_pure_invariant g d f seed _ (Sound g d f seed g.reversePostorder.toArray)
    (fun st r rest hw hst => hst.visit hd hg hR hw) budget _ st hrun (sound_start hR)
  refine ⟨hin ▸ hsound.inOf_isSome_iff hR hw hall, hout ▸ hsound.outOf_isSome_iff hR hw hall,
    hin ▸ hout ▸ fun b x hx => hsound.inOf_same hw hx, hin ▸ hout ▸ fun b x hx => hsound.outOf_eq hx, ?_⟩
  intro hmono IN OUT hpost b
  -- the Kildall invariant, carried alongside the first
  obtain ⟨⟨-, hbelow⟩, -⟩ := run_pure_invariant g d f seed _
    (fun st => Sound g d f seed g.reversePostorder.toArray st ∧ Below g d g.reversePostorder.toArray IN OUT st)
    (fun st r rest hw hst => ⟨hst.1.visit hd hg hR hw, hst.2.visit hd hR hmono hpost hst.1 hw⟩)
    budget _ st hrun ⟨sound_start hR, below_start⟩
  rw [hin, hout]
  constructor
  · intro x hx
    obtain ⟨r, hr, hxr⟩ := Option.bind_eq_some_iff.mp hx
    simpa [blockAt_of_getElem? (getElem?_of_rankIn hr)] using (hbelow r).1 x hxr
  · intro y hy
    obtain ⟨r, hr, hyr⟩ := Option.bind_eq_some_iff.mp hy
    simpa [blockAt_of_getElem? (getElem?_of_rankIn hr)] using (hbelow r).2 y hyr

/-- The graph `entry → body → exit` with a loop on the body. -/
def loopGraph : Graph :=
  let (g, b) := (Graph.new 0).addBlock []
  ((g.addEdge g.entry b .fallThrough).addEdge b b .backEdge).addEdge b g.exit .returnEdge

/-- Truth values joined by disjunction. -/
def orDomain : Domain Bool := { bottom := false, join := (· || ·), same := (· == ·) }

theorem loopGraph_coherent : loopGraph.Coherent := by
  have hreach : ∀ b, loopGraph.Reaches loopGraph.entry b → b ∈ [0, 2, 1] := fun b hb =>
    Graph.Reaches.closed hb (by decide) (by decide)
  constructor
  · intro a b ha hb
    have key : ∀ a ∈ [0, 2, 1], ∀ b ∈ [0, 2, 1], loopGraph.ordinal a = loopGraph.ordinal b → a = b := by
      decide
    exact key a (hreach a ha) b (hreach b hb)
  · intro a b ha hb
    have key : ∀ a ∈ [0, 2, 1], ∀ b ∈ [0, 2, 1], a ∈ loopGraph.predBlocks b → b ∈ loopGraph.succBlocks a := by
      decide
    exact key a (hreach a ha) b (hreach b hb)

theorem orDomain_lawful : orDomain.Lawful := by
  constructor <;> simp [orDomain]

/-- On the loop graph, with the identity transfer over truth values, the solver's answer is the
least solution. -/
theorem solve_least_solution_loop :
    loopGraph.Coherent ∧ orDomain.Lawful ∧
      Id.run (solve loopGraph orDomain (fun _ x => pure x) true 10) =
        .ok { order := #[0, 2, 1], ordinals := #[0, 2, 1].map loopGraph.ordinal, exitRank := some 2,
              ins := #[some true, some true, some true], outs := #[some true, some true, some true],
              iterations := 4 } ∧
      Solution.IsLeastSolution
        { order := #[0, 2, 1], ordinals := #[0, 2, 1].map loopGraph.ordinal, exitRank := some 2,
          ins := #[some true, some true, some true], outs := #[some true, some true, some true],
          iterations := 4 } loopGraph orDomain (fun _ x => x) true := by
  have hs : Id.run (solve loopGraph orDomain (fun _ x => pure x) true 10) =
      .ok { order := #[0, 2, 1], ordinals := #[0, 2, 1].map loopGraph.ordinal, exitRank := some 2,
            ins := #[some true, some true, some true], outs := #[some true, some true, some true],
            iterations := 4 } := rfl
  exact ⟨loopGraph_coherent, orDomain_lawful, hs, solve_least_solution loopGraph_coherent orDomain_lawful hs⟩

end NullGuard.Dataflow
