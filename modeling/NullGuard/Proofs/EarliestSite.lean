import Mathlib
import NullGuard.Proofs.Flow

/-!
# The earliest hazard site

A procedure's hazards collect in a `HazardLog` by one record after another
(`HazardLog.recordAll`), and the log is frozen into the procedure's summary at the end. What the
summary says does not depend on how the records interleave:

* a parameter has an entry exactly when it was recorded, and the entry is the first recorded
  site among those of least rank, a missing site ranking after every other
  (`HazardLog.lookup_recordAll`): the `argmin` of the parameter's sites under `Span.rank`;
* so reordering the records changes neither which parameters have entries nor their ranks
  (`HazardLog.rank_lookup_recordAll_perm`);
* the log lists its parameters in the order they were first recorded
  (`HazardLog.keys_recordAll_pairwise`), and the frozen summary lists its entries by rank,
  ordinal and name (`UsageMap.key`), keeping that order among entries of equal key
  (`UsageMap.pairwise_ofLog_recordAll`), since the sort is stable (`pairwise_mergeSort_key`).
-/

namespace NullGuard

namespace Span

/-- The rank of a possibly missing hazard site: its start, a missing site ranking after every
start. -/
def rank : Option Span → WithTop Int
  | some s => s.start
  | none => ⊤

@[simp] theorem rank_some (s : Span) : rank (some s) = s.start := rfl

@[simp] theorem rank_none : rank none = ⊤ := rfl

/-- Comparing the positions of two sites is comparing their ranks. -/
theorem positionLt_position (a b : Option Span) :
    positionLt (position a) (position b) = decide (rank a < rank b) := by
  cases a <;> cases b <;> simp [position, positionLt]

theorem position_eq_iff {a b : Option Span} : position a = position b ↔ rank a = rank b := by
  cases a <;> cases b <;> simp [position]

end Span

/-! ### One record -/

namespace HazardLog

theorem map_fst_relocate (es : List (ParamRef × Option Span)) (p : ParamRef) (site : Option Span) :
    (relocate es p site).map Prod.fst = es.map Prod.fst := by
  induction es with
  | nil => rfl
  | cons e rest ih =>
    obtain ⟨q, s⟩ := e
    by_cases hq : q = p
    · simp [relocate, hq]
    · simp [relocate, hq, ih]

/-- A record reports whether the parameter had no entry or the site ranks strictly below it. -/
theorem record_fst (log : HazardLog) (p : ParamRef) (site : Option Span) :
    (log.record p site).1 = (log.entries.lookup p).all fun old => decide (Span.rank site < Span.rank old) := by
  unfold record
  cases log.entries.lookup p with
  | none => rfl
  | some old =>
    simp only [Span.positionLt_position, Option.all_some]
    split <;> simp_all

/-- The entry of the recorded parameter afterwards: the new site when there was none or it ranks
strictly below the old one, else the old one. -/
theorem lookup_record_self (log : HazardLog) (p : ParamRef) (site : Option Span) :
    (log.record p site).2.entries.lookup p =
      Option.casesOn (log.entries.lookup p) (some site) fun old =>
        if Span.rank site < Span.rank old then some site else some old := by
  unfold record
  cases h : log.entries.lookup p with
  | none => simp [List.lookup_append, h]
  | some old =>
    simp only [Span.positionLt_position, decide_eq_true_eq]
    split
    · exact lookup_relocate_self _ _ _ (by simp [h])
    · exact h

/-- A record keeps the parameters of the log in place, and adds a new one at the end. -/
theorem keys_record (log : HazardLog) (p : ParamRef) (site : Option Span) :
    (log.record p site).2.entries.map Prod.fst =
      if log.contains p then log.entries.map Prod.fst else log.entries.map Prod.fst ++ [p] := by
  unfold record contains
  cases h : log.entries.lookup p with
  | none => simp
  | some old =>
    dsimp only
    split
    · exact map_fst_relocate _ _ _
    · rfl

/-! ### A series of records -/

/-- The log after recording hazards in order. -/
def recordAll (log : HazardLog) (rs : List (ParamRef × Option Span)) : HazardLog :=
  rs.foldl (fun log r => (log.record r.1 r.2).2) log

@[simp] theorem recordAll_nil (log : HazardLog) : log.recordAll [] = log := rfl

theorem recordAll_append_singleton (log : HazardLog) (rs : List (ParamRef × Option Span))
    (r : ParamRef × Option Span) : log.recordAll (rs ++ [r]) = ((log.recordAll rs).record r.1 r.2).2 := by
  simp [recordAll]

/-- The sites recorded for a parameter, in order. -/
def sitesFor (rs : List (ParamRef × Option Span)) (p : ParamRef) : List (Option Span) :=
  (rs.filter (·.1 == p)).map (·.2)

theorem sitesFor_append_self (rs : List (ParamRef × Option Span)) (p : ParamRef) (site : Option Span) :
    sitesFor (rs ++ [(p, site)]) p = sitesFor rs p ++ [site] := by
  simp [sitesFor]

theorem sitesFor_append_ne (rs : List (ParamRef × Option Span)) {p q : ParamRef} (site : Option Span)
    (h : q ≠ p) : sitesFor (rs ++ [(q, site)]) p = sitesFor rs p := by
  simp [sitesFor, h]

theorem contains_recordAll (rs : List (ParamRef × Option Span)) (p : ParamRef) :
    (({} : HazardLog).recordAll rs).contains p = true ↔ p ∈ rs.map Prod.fst := by
  induction rs using List.reverseRecOn with
  | nil => simp
  | append_singleton rs r ih =>
    rw [recordAll_append_singleton, contains_record_iff, ih]
    simp [eq_comm]

/-- After a series of records from the empty log, the entry of a parameter is the first of its
recorded sites among those of least rank, and it has none when it was never recorded. -/
theorem lookup_recordAll (rs : List (ParamRef × Option Span)) (p : ParamRef) :
    (({} : HazardLog).recordAll rs).entries.lookup p = (sitesFor rs p).argmin Span.rank := by
  induction rs using List.reverseRecOn with
  | nil => rfl
  | append_singleton rs r ih =>
    obtain ⟨q, site⟩ := r
    rw [recordAll_append_singleton]
    by_cases hq : q = p
    · -- recording `p` keeps the earlier of the two sites, as the `argmin` of one more site does
      subst hq
      rw [lookup_record_self, ih, sitesFor_append_self, List.argmin_concat]
    · rw [lookup_record_ne _ _ (Ne.symm hq), ih, sitesFor_append_ne _ _ hq]

/-- Two lists with the same members have minima of the same rank. -/
theorem rank_argmin_perm {l l' : List (Option Span)} (h : l.Perm l') :
    (l.argmin Span.rank).map Span.rank = (l'.argmin Span.rank).map Span.rank := by
  cases hm : l.argmin Span.rank with
  | none =>
    rw [List.argmin_eq_none] at hm
    subst hm
    obtain rfl := h.nil_eq
    rfl
  | some m =>
    have hm' : m ∈ l.argmin Span.rank := hm
    cases hn : l'.argmin Span.rank with
    | none =>
      rw [List.argmin_eq_none] at hn
      subst hn
      exact absurd (h.mem_iff.mp (List.argmin_mem hm')) List.not_mem_nil
    | some n =>
      have hn' : n ∈ l'.argmin Span.rank := hn
      -- each minimum is a member of the other list, so neither ranks above the other
      have hmn := List.le_of_mem_argmin (h.mem_iff.mpr (List.argmin_mem hn')) hm'
      have hnm := List.le_of_mem_argmin (h.mem_iff.mp (List.argmin_mem hm')) hn'
      simp [le_antisymm hmn hnm]

/-- Reordering the records changes neither which parameters have entries nor their ranks. -/
theorem rank_lookup_recordAll_perm {rs rs' : List (ParamRef × Option Span)} (h : rs.Perm rs')
    (p : ParamRef) :
    ((({} : HazardLog).recordAll rs).entries.lookup p).map Span.rank =
      ((({} : HazardLog).recordAll rs').entries.lookup p).map Span.rank := by
  rw [lookup_recordAll, lookup_recordAll]
  exact rank_argmin_perm ((h.filter _).map _)

/-- The log lists its parameters in the order they were first recorded. -/
theorem keys_recordAll_pairwise (rs : List (ParamRef × Option Span)) :
    ((({} : HazardLog).recordAll rs).entries.map Prod.fst).Pairwise
      fun p q => (rs.map Prod.fst).idxOf p < (rs.map Prod.fst).idxOf q := by
  induction rs using List.reverseRecOn with
  | nil => simp [recordAll]
  | append_singleton rs r ih =>
    obtain ⟨q, site⟩ := r
    have hkeys : ∀ k ∈ (({} : HazardLog).recordAll rs).entries.map Prod.fst, k ∈ rs.map Prod.fst := by
      intro k hk
      rw [← contains_recordAll, contains_iff]
      simpa using hk
    -- first indices in the longer list are those in the shorter one for parameters seen before
    have hidx : ∀ k ∈ rs.map Prod.fst, ((rs ++ [(q, site)]).map Prod.fst).idxOf k = (rs.map Prod.fst).idxOf k := by
      intro k hk
      rw [List.map_append, List.idxOf_append, if_pos hk]
    rw [recordAll_append_singleton, keys_record]
    -- the parameters recorded before keep their order
    have hold : ((({} : HazardLog).recordAll rs).entries.map Prod.fst).Pairwise
        fun a b => ((rs ++ [(q, site)]).map Prod.fst).idxOf a < ((rs ++ [(q, site)]).map Prod.fst).idxOf b :=
      ih.imp_of_mem fun {a b} ha hb hab => by rwa [hidx a (hkeys a ha), hidx b (hkeys b hb)]
    split
    · exact hold
    · rename_i hnew
      have hq : q ∉ rs.map Prod.fst := fun hq => hnew ((contains_recordAll rs q).mpr hq)
      refine List.pairwise_append.mpr ⟨hold, List.pairwise_singleton _ _, fun a ha b hb => ?_⟩
      -- a new parameter comes after every one seen before
      rw [List.mem_singleton.mp hb, hidx a (hkeys a ha), List.map_append, List.idxOf_append, if_neg hq]
      have := List.idxOf_lt_length_of_mem (hkeys a ha)
      simp only [List.map_cons, List.map_nil, List.idxOf_cons_self]
      omega

theorem nodup_keys_recordAll (rs : List (ParamRef × Option Span)) :
    ((({} : HazardLog).recordAll rs).entries.map Prod.fst).Nodup :=
  (keys_recordAll_pairwise rs).imp fun hlt heq => by
    subst heq
    exact Nat.lt_irrefl _ hlt

end HazardLog

/-! ### The frozen summary -/

/-- Sorting by a key keeps the order of entries of equal key: sorting a list that increases in
`f` gives a list increasing in the key, and in `f` among entries of equal key. -/
theorem decide_key_le_trans {α β : Type} [LinearOrder β] (key : α → β) (a b c : α)
    (hab : decide (key a ≤ key b) = true) (hbc : decide (key b ≤ key c) = true) :
    decide (key a ≤ key c) = true := by
  simp only [decide_eq_true_eq] at hab hbc ⊢
  exact le_trans hab hbc

theorem decide_key_le_total {α β : Type} [LinearOrder β] (key : α → β) (a b : α) :
    (decide (key a ≤ key b) || decide (key b ≤ key a)) = true := by
  simpa using le_total (key a) (key b)

/-- A sort by key keeps the entries of each key in the order they have in its input. -/
theorem filter_mergeSort_key {α β : Type} [LinearOrder β] (key : α → β) (L : List α) (k : β) :
    (L.mergeSort fun a b => decide (key a ≤ key b)).filter (fun a => decide (key a = k)) =
      L.filter fun a => decide (key a = k) := by
  have hsame : (L.filter fun a => decide (key a = k)).Pairwise fun a b => decide (key a ≤ key b) = true :=
    List.pairwise_of_forall_mem_list fun a ha b hb => by
      simp only [List.mem_filter, decide_eq_true_eq] at ha hb
      simp [ha.2, hb.2]
  -- the entries of key `k` are a sublist of the sorted list, and as many as in the input
  have hsub := (List.sublist_mergeSort (decide_key_le_trans key) (decide_key_le_total key) hsame
    List.filter_sublist).filter fun a => decide (key a = k)
  rw [List.filter_filter] at hsub
  simp only [Bool.and_self] at hsub
  refine (hsub.eq_of_length ?_).symm
  exact (((List.mergeSort_perm L _).filter _).length_eq).symm

theorem pairwise_mergeSort_key {α β : Type} [LinearOrder β] (key : α → β) (f : α → Nat) {L : List α}
    (hL : L.Pairwise fun a b => f a < f b) :
    (L.mergeSort fun a b => decide (key a ≤ key b)).Pairwise
      fun a b => key a < key b ∨ (key a = key b ∧ f a < f b) := by
  have hsorted := List.pairwise_mergeSort (decide_key_le_trans key) (decide_key_le_total key) L
  rw [List.pairwise_iff_forall_sublist]
  intro a b hab
  have hle : key a ≤ key b := by
    simpa using List.pairwise_iff_forall_sublist.mp hsorted hab
  rcases hle.lt_or_eq with hlt | heq
  · exact .inl hlt
  · -- entries of one key keep their input order, in which `f` increases
    refine .inr ⟨heq, ?_⟩
    have hab' : [a, b].Sublist (L.filter fun x => decide (key x = key b)) := by
      rw [← filter_mergeSort_key key L (key b)]
      simpa [heq] using hab.filter fun x => decide (key x = key b)
    exact List.pairwise_iff_forall_sublist.mp (hL.sublist List.filter_sublist) hab'

namespace UsageMap

/-- The sort key of a summary entry: the rank of its site, then the parameter's ordinal, then its
name, compared in that order. -/
def key (prog : Program) (e : ParamRef × Option Span) : WithTop Int ×ₗ Nat ×ₗ String :=
  toLex (Span.rank e.2, toLex (e.1.ordinal, prog.paramName e.1))

/-- An entry sorts before another exactly when its key is smaller. -/
theorem before_iff (prog : Program) (a b : ParamRef × Option Span) :
    before prog a b = true ↔ key prog a < key prog b := by
  unfold before key
  simp only [Prod.Lex.toLex_lt_toLex, Bool.or_eq_true, Bool.and_eq_true, beq_iff_eq, decide_eq_true_eq,
    Span.positionLt_position, Span.position_eq_iff]

theorem not_before_eq (prog : Program) :
    (fun a b => !before prog b a) = fun a b => decide (key prog a ≤ key prog b) := by
  funext a b
  by_cases h : key prog b < key prog a
  · simp [(before_iff prog b a).mpr h, not_le.mpr h]
  · simp [(before_iff prog b a).not.mpr h, not_lt.mp h]

/-- Freezing entries of distinct parameters sorts them stably by key. -/
theorem entries_ofList_of_nodup (prog : Program) {es : List (ParamRef × Option Span)}
    (h : (es.map Prod.fst).Nodup) :
    (ofList prog es).entries = es.mergeSort fun a b => decide (key prog a ≤ key prog b) := by
  -- with distinct parameters the de-duplication appends every entry as it comes
  have hdedup : ∀ (es acc : List (ParamRef × Option Span)), ((acc ++ es).map Prod.fst).Nodup →
      es.foldl (fun (acc : List (ParamRef × Option Span)) (e : ParamRef × Option Span) =>
        if acc.any (·.1 == e.1) then acc.map fun x => if x.1 == e.1 then e else x else acc ++ [e]) acc =
        acc ++ es := by
    intro es
    induction es with
    | nil => simp
    | cons e es ih =>
      intro acc hnd
      have hnew : acc.any (·.1 == e.1) = false := by
        rw [List.map_append, List.map_cons, List.nodup_append] at hnd
        rw [List.any_eq_false]
        intro x hx hxe
        exact hnd.2.2 _ (List.mem_map_of_mem hx) _ List.mem_cons_self (beq_iff_eq.mp hxe)
      rw [List.foldl_cons, if_neg (by simp [hnew]), ih (acc ++ [e]) (by simpa using hnd)]
      simp
  unfold ofList
  rw [hdedup es [] (by simpa using h), List.nil_append, not_before_eq]

/-- A look-up in two arrangements of entries of distinct parameters reads the same. -/
theorem lookup_perm {l l' : List (ParamRef × Option Span)} (hp : l.Perm l') (hnd : (l.map Prod.fst).Nodup)
    (p : ParamRef) : l.lookup p = l'.lookup p := by
  have hnd' : (l'.map Prod.fst).Nodup := (hp.map Prod.fst).nodup_iff.mp hnd
  cases h : l.lookup p with
  | none =>
    rw [List.lookup_eq_none_iff] at h
    exact (List.lookup_eq_none_iff.mpr fun e he => h e (hp.mem_iff.mpr he)).symm
  | some s =>
    obtain ⟨l₁, l₂, rfl, -⟩ := List.lookup_eq_some_iff.mp h
    have hmem : (p, s) ∈ l' := hp.mem_iff.mp (by simp)
    cases h' : l'.lookup p with
    | none => exact absurd (List.lookup_eq_none_iff.mp h' _ hmem) (by simp)
    | some s' =>
      obtain ⟨l₃, l₄, hl', -⟩ := List.lookup_eq_some_iff.mp h'
      have hmem' : (p, s') ∈ l' := by simp [hl']
      -- two entries of `p` in a list of distinct parameters are one
      exact congrArg some (Prod.ext_iff.mp (List.inj_on_of_nodup_map hnd' hmem hmem' rfl)).2

/-- The frozen summary of a series of records: its entries are the log's, sorted by key, and
among entries of equal key in the order their parameters were first recorded. -/
theorem pairwise_ofLog_recordAll (prog : Program) (rs : List (ParamRef × Option Span)) :
    (ofLog prog (({} : HazardLog).recordAll rs)).entries.Pairwise fun a b =>
      key prog a < key prog b ∨
        (key prog a = key prog b ∧ (rs.map Prod.fst).idxOf a.1 < (rs.map Prod.fst).idxOf b.1) := by
  have hL := List.pairwise_map.mp (HazardLog.keys_recordAll_pairwise rs)
  rw [ofLog, entries_ofList_of_nodup prog (HazardLog.nodup_keys_recordAll rs)]
  exact pairwise_mergeSort_key (key prog) (fun e => (rs.map Prod.fst).idxOf e.1) hL

/-- The frozen summary reads as the log it was made of. -/
theorem lookup_ofLog_recordAll (prog : Program) (rs : List (ParamRef × Option Span)) (p : ParamRef) :
    (ofLog prog (({} : HazardLog).recordAll rs)).entries.lookup p =
      (({} : HazardLog).recordAll rs).entries.lookup p := by
  have hnd := HazardLog.nodup_keys_recordAll rs
  rw [ofLog, entries_ofList_of_nodup prog hnd]
  exact (lookup_perm (List.mergeSort_perm _ _) ((List.mergeSort_perm _ _).map Prod.fst |>.nodup_iff.mpr hnd) p)

end UsageMap

/-- A hazard log keeps, for each parameter, its earliest site, whatever the order of the records. -/
theorem HazardLog.recordAll_keeps_earliest (prog : Program) (rs : List (ParamRef × Option Span)) :
    (∀ p, (UsageMap.ofLog prog (({} : HazardLog).recordAll rs)).entries.lookup p =
      (HazardLog.sitesFor rs p).argmin Span.rank) ∧
    (∀ rs', rs.Perm rs' → ∀ p,
      ((UsageMap.ofLog prog (({} : HazardLog).recordAll rs)).entries.lookup p).map Span.rank =
        ((UsageMap.ofLog prog (({} : HazardLog).recordAll rs')).entries.lookup p).map Span.rank) ∧
    (UsageMap.ofLog prog (({} : HazardLog).recordAll rs)).entries.Pairwise (fun a b =>
      UsageMap.key prog a < UsageMap.key prog b ∨
        (UsageMap.key prog a = UsageMap.key prog b ∧ (rs.map Prod.fst).idxOf a.1 < (rs.map Prod.fst).idxOf b.1)) ∧
    (∀ (log : HazardLog) (p : ParamRef) (site : Option Span), (log.record p site).1 = true ↔
      ∀ old, log.entries.lookup p = some old →
        ∃ new, (log.record p site).2.entries.lookup p = some new ∧ Span.rank new < Span.rank old) := by
  refine ⟨fun p => ?_, fun rs' hperm p => ?_, UsageMap.pairwise_ofLog_recordAll prog rs, fun log p site => ?_⟩
  · rw [UsageMap.lookup_ofLog_recordAll, HazardLog.lookup_recordAll]
  · rw [UsageMap.lookup_ofLog_recordAll, UsageMap.lookup_ofLog_recordAll]
    exact HazardLog.rank_lookup_recordAll_perm hperm p
  · rw [HazardLog.record_fst, HazardLog.lookup_record_self]
    cases log.entries.lookup p with
    | none => simp
    | some old =>
      by_cases hlt : Span.rank site < Span.rank old
      · simp [hlt]
      · simp [hlt]

end NullGuard
