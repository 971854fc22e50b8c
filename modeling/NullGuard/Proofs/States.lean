import Mathlib.Data.List.Perm.Subperm
import NullGuard.Lattice.State

/-!
# The cells a state holds

A state holds a cell when one of its keys names it (`AnalysisState.contains`). This file says
how each operation on states changes the keys:

* a write adds the location written, and only when the state tracks it; a write to a cell the
  state already holds leaves the keys as they were (`keys_set_of_contains`), and so does a
  series of such writes (`keys_setAll_of_contains`);
* a series of writes adds only tracked locations (`mem_keys_setAll`);
* a join holds the keys of both states (`mem_keys_merge`);
* a location in a hazardous state names a cell the state holds (`contains_of_isHazardous`).

When the entries name distinct cells (`AnalysisState.Distinct`), as they do in every state the
operations build, a state is the function `get` it reads as: a join reads as the pointwise join
(`get_merge`) and the equality of states is equality of that function (`equiv_iff`). A series
of writes of `validated` to the hazardous cells among some locations validates each such cell
and leaves the others alone (`get_setAll_hazardous`).

Locations naming one cell belong to one parameter (`Location.parameter?_normal`), so whether
a location is tracked depends only on its cell.
-/

namespace NullGuard

@[simp] theorem Location.parameter?_normal (l : Location) : l.normal.parameter? = l.parameter? := by
  cases l <;> rfl

namespace AnalysisState

/-- The locations the entries are written under, in order. -/
def keys (s : AnalysisState) : List Location := s.entries.map (·.1)

theorem isSome_valueOf?_iff {l : Location} :
    ∀ {es : List (Location × Validation)}, (valueOf? es l).isSome ↔ ∃ k ∈ es.map (·.1), k.normal = l.normal
  | [] => by simp [valueOf?]
  | (k, w) :: rest => by
    by_cases h : k.normal = l.normal
    · simp [valueOf?, h]
    · simp [valueOf?, h, isSome_valueOf?_iff]

theorem contains_iff {s : AnalysisState} {l : Location} :
    s.contains l ↔ ∃ k ∈ s.keys, k.normal = l.normal :=
  isSome_valueOf?_iff

theorem contains_of_mem_keys {s : AnalysisState} {k : Location} (hk : k ∈ s.keys) : s.contains k :=
  contains_iff.mpr ⟨k, hk, rfl⟩

/-- A location in a hazardous state names a cell the state holds: an absent one reads as
`unknown`. -/
theorem contains_of_isHazardous {s : AnalysisState} {l : Location} (h : s.isHazardous l = true) :
    s.contains l := by
  unfold isHazardous get at h
  unfold contains
  cases hv : valueOf? s.entries l with
  | none => rw [hv] at h; cases h
  | some w => rfl

theorem mem_keys_upsert {l k : Location} {w : Validation} :
    ∀ {es : List (Location × Validation)}, k ∈ (upsert es l w).map (·.1) → k ∈ es.map (·.1) ∨ k = l
  | [], hk => by simpa [upsert] using hk
  | (k', w') :: rest, hk => by
    unfold upsert at hk
    split at hk
    · simp_all
    · simp only [List.map_cons, List.mem_cons] at hk ⊢
      rcases hk with rfl | hk
      · exact .inl (.inl rfl)
      · rcases mem_keys_upsert hk with h | h
        · exact .inl (.inr h)
        · exact .inr h

/-- Writing a cell the entries already hold keeps every key in place. -/
theorem keys_upsert_of_isSome {l : Location} {w : Validation} :
    ∀ {es : List (Location × Validation)}, (valueOf? es l).isSome →
      (upsert es l w).map (·.1) = es.map (·.1)
  | [], h => by simp [valueOf?] at h
  | (k, w') :: rest, h => by
    by_cases hk : k.normal = l.normal
    · simp [upsert, hk]
    · simp only [valueOf?, hk, if_false] at h
      simp [upsert, hk, keys_upsert_of_isSome h]

theorem mem_keys_set {s : AnalysisState} {l k : Location} {w : Validation} (hk : k ∈ (s.set l w).keys) :
    k ∈ s.keys ∨ (k = l ∧ s.tracks l = true) := by
  unfold set at hk
  split at hk
  · rcases mem_keys_upsert hk with h | h
    · exact .inl h
    · exact .inr ⟨h, by assumption⟩
  · exact .inl hk

theorem keys_set_of_contains {s : AnalysisState} {l : Location} (w : Validation) (hl : s.contains l) :
    (s.set l w).keys = s.keys := by
  unfold set
  split
  · exact keys_upsert_of_isSome hl
  · rfl

@[simp] theorem tracks_setAll (s : AnalysisState) (ls : List Location) (w : Validation) :
    (s.setAll ls w).tracks = s.tracks := by
  unfold setAll
  exact List.foldlRecOn (motive := fun t : AnalysisState => t.tracks = s.tracks) ls
    (fun acc l => acc.set l w) rfl fun t ht _ _ => by rw [tracks_set, ht]

/-- A series of writes adds only locations the state tracks. -/
theorem mem_keys_setAll {s : AnalysisState} {k : Location} {w : Validation} :
    ∀ {ls : List Location}, k ∈ (s.setAll ls w).keys → k ∈ s.keys ∨ s.tracks k = true := by
  unfold setAll
  intro ls
  refine (List.foldlRecOn (motive := fun t : AnalysisState => t.tracks = s.tracks ∧
    (k ∈ t.keys → k ∈ s.keys ∨ s.tracks k = true)) ls (fun acc l => acc.set l w) ⟨rfl, .inl⟩
    (fun t ht l _ => ?_)).2
  refine ⟨by rw [tracks_set, ht.1], fun hk => ?_⟩
  rcases mem_keys_set hk with hk | ⟨rfl, htr⟩
  · exact ht.2 hk
  · exact .inr (ht.1 ▸ htr)

/-- A series of writes to cells the state holds keeps every key in place. -/
theorem keys_setAll_of_contains {w : Validation} :
    ∀ {ls : List Location} {s : AnalysisState}, (∀ l ∈ ls, s.contains l) → (s.setAll ls w).keys = s.keys
  | [], _, _ => rfl
  | l :: ls, s, hls => by
    have hkeys := keys_set_of_contains w (hls l List.mem_cons_self)
    have hrest : ∀ l' ∈ ls, (s.set l w).contains l' := fun l' hl' => by
      rw [contains_iff, hkeys, ← contains_iff]
      exact hls l' (List.mem_cons_of_mem _ hl')
    have hfold : s.setAll (l :: ls) w = (s.set l w).setAll ls w := rfl
    rw [hfold, keys_setAll_of_contains hrest, hkeys]

theorem mem_keys_merge {a b : AnalysisState} {k : Location} (hk : k ∈ (a.merge b).keys) :
    k ∈ a.keys ∨ k ∈ b.keys := by
  unfold merge keys at hk
  unfold keys
  -- the join writes each entry of `b` in turn
  have step : ∀ (bs es : List (Location × Validation)), k ∈ (bs.foldl (fun es e =>
      upsert es e.1 (((valueOf? es e.1).getD .unknown).join e.2)) es).map (·.1) →
      k ∈ es.map (·.1) ∨ k ∈ bs.map (·.1) := by
    intro bs
    induction bs with
    | nil => exact fun _ h => .inl h
    | cons e bs ih =>
      intro es h
      rw [List.foldl_cons] at h
      rcases ih _ h with h | h
      · rcases mem_keys_upsert h with h | rfl
        · exact .inl h
        · exact .inr (by simp)
      · exact .inr (by simp [h])
  exact step b.entries a.entries hk

/-! ### Reading cell by cell -/

theorem valueOf?_congr {l l' : Location} (h : l.normal = l'.normal) :
    ∀ es : List (Location × Validation), valueOf? es l = valueOf? es l'
  | [] => rfl
  | (k, w) :: rest => by simp only [valueOf?, h, valueOf?_congr h rest]

theorem get_congr (s : AnalysisState) {l l' : Location} (h : l.normal = l'.normal) :
    s.get l = s.get l' := by
  unfold get
  rw [valueOf?_congr h]

theorem mem_of_valueOf?_eq_some {l : Location} {w : Validation} :
    ∀ {es : List (Location × Validation)}, valueOf? es l = some w → ∃ k, (k, w) ∈ es ∧ k.normal = l.normal
  | [], h => by cases h
  | (k, w') :: rest, h => by
    unfold valueOf? at h
    split at h
    · cases h
      exact ⟨k, List.mem_cons_self, by assumption⟩
    · obtain ⟨k', hk', hn⟩ := mem_of_valueOf?_eq_some h
      exact ⟨k', List.mem_cons_of_mem _ hk', hn⟩

theorem valueOf?_eq_none {l : Location} :
    ∀ {es : List (Location × Validation)}, (∀ e ∈ es, e.1.normal ≠ l.normal) → valueOf? es l = none
  | [], _ => rfl
  | (k, w) :: rest, h => by
    rw [valueOf?, if_neg (h (k, w) List.mem_cons_self)]
    exact valueOf?_eq_none fun e he => h e (List.mem_cons_of_mem _ he)

/-- A state other than `unknown` is read from an entry of the cell. -/
theorem exists_mem_of_get_ne {s : AnalysisState} {l : Location} (h : s.get l ≠ .unknown) :
    ∃ k, (k, s.get l) ∈ s.entries ∧ k.normal = l.normal := by
  unfold get at h ⊢
  cases hv : valueOf? s.entries l with
  | none => rw [hv] at h; exact absurd rfl h
  | some w => exact mem_of_valueOf?_eq_some hv

/-! ### States whose entries name distinct cells -/

/-- The entries name distinct cells. -/
def Distinct (s : AnalysisState) : Prop := (s.entries.map (·.1.normal)).Nodup

theorem valueOf?_of_mem {k : Location} {w : Validation} :
    ∀ {es : List (Location × Validation)}, (es.map (·.1.normal)).Nodup → (k, w) ∈ es →
      valueOf? es k = some w
  | [], _, h => by cases h
  | (k', w') :: rest, hnd, h => by
    rw [List.map_cons, List.nodup_cons] at hnd
    rcases List.mem_cons.mp h with h | h
    · cases h
      simp [valueOf?]
    · -- a later entry names a cell the first does not
      have hne : k'.normal ≠ k.normal := fun heq => hnd.1 (heq ▸ List.mem_map_of_mem h)
      rw [valueOf?, if_neg hne]
      exact valueOf?_of_mem hnd.2 h

theorem Distinct.get_of_mem {s : AnalysisState} (hs : s.Distinct) {e : Location × Validation}
    (he : e ∈ s.entries) : s.get e.1 = e.2 := by
  unfold get
  rw [valueOf?_of_mem hs he]
  rfl

theorem distinct_empty (tracks : Location → Bool) : (empty tracks).Distinct := List.nodup_nil

theorem nodup_upsert {l : Location} {w : Validation} :
    ∀ {es : List (Location × Validation)}, (es.map (·.1.normal)).Nodup →
      ((upsert es l w).map (·.1.normal)).Nodup
  | [], _ => by simp [upsert]
  | (k, w') :: rest, hnd => by
    rw [List.map_cons, List.nodup_cons] at hnd
    unfold upsert
    split
    · simpa using hnd
    · rename_i hkl
      rw [List.map_cons, List.nodup_cons]
      refine ⟨fun hk => ?_, nodup_upsert hnd.2⟩
      -- the written cell is new, or one of the rest's, and neither is `k`'s
      obtain ⟨e, he, hek⟩ := List.mem_map.mp hk
      rcases mem_keys_upsert (List.mem_map_of_mem (f := (·.1)) he) with h | h
      · obtain ⟨e', he', he'1⟩ := List.mem_map.mp h
        exact hnd.1 (List.mem_map.mpr ⟨e', he', by rw [he'1]; exact hek⟩)
      · exact hkl (hek ▸ h ▸ rfl)

theorem Distinct.set {s : AnalysisState} (hs : s.Distinct) (l : Location) (w : Validation) :
    (s.set l w).Distinct := by
  unfold AnalysisState.set
  split
  · exact nodup_upsert hs
  · exact hs

theorem Distinct.setAll {s : AnalysisState} (hs : s.Distinct) (ls : List Location) (w : Validation) :
    (s.setAll ls w).Distinct :=
  List.foldlRecOn (motive := Distinct) ls (fun acc l => acc.set l w) hs fun _ ht _ _ => ht.set _ _

theorem Distinct.merge {a : AnalysisState} (ha : a.Distinct) (b : AnalysisState) : (a.merge b).Distinct := by
  have ha' : (a.entries.map (·.1.normal)).Nodup := ha
  unfold AnalysisState.merge Distinct
  exact List.foldlRecOn (motive := fun es : List (Location × Validation) => (es.map (·.1.normal)).Nodup)
    b.entries _ ha' fun _ hes _ _ => nodup_upsert hes

/-- The join reads, at every cell, as the join of what the two states read there. -/
theorem get_merge (a : AnalysisState) {b : AnalysisState} (hb : b.Distinct) (l : Location) :
    (a.merge b).get l = (a.get l).join (b.get l) := by
  unfold merge get
  -- the entries of `b` are joined in one by one, each into its own cell
  have step : ∀ (bs es : List (Location × Validation)), (bs.map (·.1.normal)).Nodup →
      (valueOf? (bs.foldl (fun es e => upsert es e.1 (((valueOf? es e.1).getD .unknown).join e.2)) es) l).getD
        .unknown = ((valueOf? es l).getD .unknown).join ((valueOf? bs l).getD .unknown) := by
    intro bs
    induction bs with
    | nil => intro es _; simp [valueOf?]
    | cons e bs ih =>
      obtain ⟨k, w⟩ := e
      intro es hnd
      rw [List.map_cons, List.nodup_cons] at hnd
      rw [List.foldl_cons, ih _ hnd.2]
      by_cases hkl : k.normal = l.normal
      · have hrest : valueOf? bs l = none := valueOf?_eq_none fun e he heq =>
          hnd.1 (hkl ▸ heq ▸ List.mem_map_of_mem he)
        rw [valueOf?_congr hkl.symm, valueOf?_upsert_self, hrest, valueOf?, if_pos hkl,
          valueOf?_congr hkl]
        simp
      · rw [valueOf?_upsert_ne _ _ (Ne.symm hkl), valueOf?, if_neg hkl]
  exact step b.entries a.entries hb

/-- The cells of the entries that are not `unknown`. -/
theorem nodup_significant {s : AnalysisState} (hs : s.Distinct) :
    (s.significant.map (·.1.normal)).Nodup :=
  have hsub : (s.significant.map (·.1.normal)).Sublist (s.entries.map (·.1.normal)) :=
    List.filter_sublist.map _
  hsub.nodup hs

theorem mem_significant {s : AnalysisState} (hs : s.Distinct) {n : Location} :
    n ∈ s.significant.map (·.1.normal) ↔ ∃ l, l.normal = n ∧ s.get l ≠ .unknown := by
  constructor
  · intro hn
    obtain ⟨e, he, rfl⟩ := List.mem_map.mp hn
    obtain ⟨he, hu⟩ := List.mem_filter.mp he
    exact ⟨e.1, rfl, by rw [hs.get_of_mem he]; simpa using hu⟩
  · rintro ⟨l, rfl, hl⟩
    obtain ⟨k, hk, hkl⟩ := exists_mem_of_get_ne hl
    exact List.mem_map.mpr ⟨(k, s.get l), List.mem_filter.mpr ⟨hk, by simpa using hl⟩, hkl⟩

theorem get_eq_of_equiv {a b : AnalysisState} (h : a.equiv b = true) {l : Location}
    (hl : a.get l ≠ .unknown) : b.get l = a.get l := by
  unfold equiv at h
  obtain ⟨-, hall⟩ := Bool.and_eq_true_iff.mp h
  obtain ⟨k, hk, hkl⟩ := exists_mem_of_get_ne hl
  have hb := List.all_eq_true.mp hall (k, a.get l) (List.mem_filter.mpr ⟨hk, by simpa using hl⟩)
  rw [get_congr b hkl.symm]
  simpa using hb

/-- Two states whose entries name distinct cells are equal for the analysis exactly when they
read the same at every cell. -/
theorem equiv_iff {a b : AnalysisState} (ha : a.Distinct) (hb : b.Distinct) :
    a.equiv b = true ↔ ∀ l, a.get l = b.get l := by
  constructor
  · intro h l
    by_cases hl : a.get l = .unknown
    · -- a cell `b` holds and `a` lacks would make `b` hold more cells than `a`
      by_contra hne
      have hsub : a.significant.map (·.1.normal) ⊆ b.significant.map (·.1.normal) := by
        intro n hn
        obtain ⟨l', rfl, hl'⟩ := (mem_significant ha).mp hn
        exact (mem_significant hb).mpr ⟨l', rfl, by rw [get_eq_of_equiv h hl']; exact hl'⟩
      have hlen : (b.significant.map (·.1.normal)).length ≤ (a.significant.map (·.1.normal)).length := by
        unfold equiv at h
        simp only [List.length_map]
        exact Nat.le_of_eq (beq_iff_eq.mp (Bool.and_eq_true_iff.mp h).1).symm
      have hperm := ((nodup_significant ha).subperm hsub).perm_of_length_le hlen
      obtain ⟨l', hl'n, hl'⟩ := (mem_significant ha).mp
        (hperm.mem_iff.mpr ((mem_significant hb).mpr ⟨l, rfl, fun hbl => hne (hl.trans hbl.symm)⟩))
      exact hl' (by rw [get_congr a hl'n, hl])
    · exact (get_eq_of_equiv h hl).symm
  · intro h
    unfold equiv
    have hcells : ∀ n, n ∈ a.significant.map (·.1.normal) ↔ n ∈ b.significant.map (·.1.normal) :=
      fun n => by rw [mem_significant ha, mem_significant hb]; simp only [h]
    have hlen := ((List.perm_ext_iff_of_nodup (nodup_significant ha) (nodup_significant hb)).mpr
      hcells).length_eq
    simp only [List.length_map] at hlen
    refine Bool.and_eq_true_iff.mpr ⟨beq_iff_eq.mpr hlen, List.all_eq_true.mpr fun e he => ?_⟩
    rw [← h, ha.get_of_mem (List.mem_filter.mp he).1]
    simp

theorem Distinct.isHazardous_of_mem_hazardous {s : AnalysisState} (hs : s.Distinct) {l : Location}
    (hl : l ∈ s.hazardous) : s.isHazardous l = true := by
  unfold hazardous at hl
  obtain ⟨e, he, rfl⟩ := List.mem_map.mp hl
  obtain ⟨he, hhz⟩ := List.mem_filter.mp he
  unfold isHazardous
  rw [hs.get_of_mem he]
  exact hhz

/-- A hazardous cell is listed among the hazardous locations, under the spelling it was
written with. -/
theorem exists_mem_hazardous {s : AnalysisState} {l : Location} (h : s.isHazardous l = true) :
    ∃ k ∈ s.hazardous, k.normal = l.normal := by
  unfold isHazardous at h
  have hne : s.get l ≠ .unknown := fun hu => by rw [hu] at h; cases h
  obtain ⟨k, hk, hkl⟩ := exists_mem_of_get_ne hne
  exact ⟨k, List.mem_map.mpr ⟨(k, s.get l), List.mem_filter.mpr ⟨hk, h⟩, rfl⟩, hkl⟩

/-! ### Writes, read cell by cell -/

theorem get_set (s : AnalysisState) (k l : Location) (w : Validation) :
    (s.set k w).get l = if s.tracks k = true ∧ k.normal = l.normal then w else s.get l := by
  by_cases htr : s.tracks k = true
  · by_cases hkl : k.normal = l.normal
    · rw [if_pos ⟨htr, hkl⟩, get_congr _ hkl.symm, get_set_self _ _ _ htr]
    · rw [if_neg fun h => hkl h.2, get_set_ne _ _ (Ne.symm hkl)]
  · rw [if_neg fun h => htr h.1, get_set_of_not_tracks _ _ _ _ (Bool.eq_false_iff.mpr htr)]

theorem get_setAll (w : Validation) (l : Location) :
    ∀ (ls : List Location) (s : AnalysisState),
      (s.setAll ls w).get l = if ∃ k ∈ ls, s.tracks k = true ∧ k.normal = l.normal then w else s.get l
  | [], s => by simp [setAll]
  | k :: ks, s => by
    have hfold : s.setAll (k :: ks) w = (s.set k w).setAll ks w := rfl
    rw [hfold, get_setAll w l ks, tracks_set, get_set]
    by_cases hk : s.tracks k = true ∧ k.normal = l.normal
    · rw [if_pos hk, ite_self, if_pos ⟨k, List.mem_cons_self, hk⟩]
    · by_cases hks : ∃ k' ∈ ks, s.tracks k' = true ∧ k'.normal = l.normal
      · obtain ⟨k', hk', hk'l⟩ := hks
        rw [if_pos ⟨k', hk', hk'l⟩, if_pos ⟨k', List.mem_cons_of_mem _ hk', hk'l⟩]
      · rw [if_neg hks, if_neg hk, if_neg]
        rintro ⟨k', hk', hk'l⟩
        rcases List.mem_cons.mp hk' with rfl | hk'
        · exact hk hk'l
        · exact hks ⟨k', hk', hk'l⟩

end AnalysisState

namespace Validation

/-- The state of a cell after it is validated when `c` holds: a hazardous state becomes
`validated`, any other is kept. -/
def validateIf (c : Bool) (w : Validation) : Validation := if c && w.isHazardous then .validated else w

theorem validateIf_mono (c : Bool) {a b : Validation} (h : a.le b = true) :
    (a.validateIf c).le (b.validateIf c) = true := by
  cases c <;> cases a <;> cases b <;> simp_all [validateIf, le, isHazardous]

/-- Validating twice is validating under either condition. -/
theorem validateIf_validateIf (c₁ c₂ : Bool) (w : Validation) :
    (w.validateIf c₁).validateIf c₂ = w.validateIf (c₁ || c₂) := by
  cases c₁ <;> cases c₂ <;> cases w <;> rfl

@[simp] theorem validateIf_false (w : Validation) : w.validateIf false = w := by
  cases w <;> rfl

/-- A state above a hazardous one is hazardous. -/
theorem isHazardous_of_le {a b : Validation} (h : a.le b = true) (ha : a.isHazardous = true) :
    b.isHazardous = true := by
  cases a <;> cases b <;> simp_all [le, isHazardous]

end Validation

namespace AnalysisState

/-- Writing `validated` to the hazardous ones among some locations validates each hazardous cell
that one of them names, when whether a location is tracked depends only on its cell. -/
theorem get_setAll_hazardous {s : AnalysisState} {ls ls' : List Location}
    (htr : ∀ k l : Location, k.normal = l.normal → s.tracks k = s.tracks l)
    (hls : ∀ k, k ∈ ls' ↔ k ∈ ls ∧ s.isHazardous k = true) (l : Location) :
    (s.setAll ls' .validated).get l =
      (s.get l).validateIf (s.tracks l && ls.any (·.normal == l.normal)) := by
  rw [get_setAll]
  unfold Validation.validateIf
  have key : (∃ k ∈ ls', s.tracks k = true ∧ k.normal = l.normal) ↔
      (s.tracks l && ls.any (·.normal == l.normal) && (s.get l).isHazardous) = true := by
    simp only [Bool.and_eq_true, List.any_eq_true, beq_iff_eq]
    constructor
    · rintro ⟨k, hk, htk, hkl⟩
      obtain ⟨hk, hhz⟩ := (hls k).mp hk
      unfold isHazardous at hhz
      exact ⟨⟨htr k l hkl ▸ htk, k, hk, hkl⟩, get_congr s hkl ▸ hhz⟩
    · rintro ⟨⟨htl, k, hk, hkl⟩, hhz⟩
      exact ⟨k, (hls k).mpr ⟨hk, by unfold isHazardous; rwa [get_congr s hkl]⟩, htr k l hkl ▸ htl, hkl⟩
  by_cases h : ∃ k ∈ ls', s.tracks k = true ∧ k.normal = l.normal
  · rw [if_pos h, if_pos (key.mp h)]
  · rw [if_neg h, if_neg (fun h' => h (key.mpr h'))]

end AnalysisState

end NullGuard
