import Mathlib
import NullGuard.Config.Options

/-!
# Reading options from a configuration mapping

An entry of a configuration mapping is accepted when it names an option, its value has the kind
the option takes (`Options.accepts`), and an integer time budget fits a binary64
(`Options.entryError`). `Options.ofMapping` accepts a mapping exactly when every entry is
accepted and the range checks pass. The options then hold, for each option, the last value the
mapping gives it, an integer time budget as the binary64 it rounds to, and the default otherwise
(`Options.overrides`). Otherwise it reports the first entry refused, and only when every entry
is accepted, the first failing range check of `Options.check`.

Every error it reports is a configuration error with its code, but one: an integer time budget
too large for a binary64 is refused, before any range check, by an error that has no code.
-/

namespace NullGuard

namespace Except

theorem map_eq_error_iff {ε α β : Type} (f : α → β) (x : Except ε α) (e : ε) :
    f <$> x = .error e ↔ x = .error e := by
  cases x <;> simp [Functor.map, Except.map]

theorem map_eq_ok_iff {ε α β : Type} (f : α → β) (x : Except ε α) (b : β) :
    f <$> x = .ok b ↔ ∃ a, x = .ok a ∧ f a = b := by
  cases x <;> simp [Functor.map, Except.map]

end Except

namespace Options

/-! ### Entries -/

/-- Whether a value has the kind an option takes: the time budget takes nothing, an integer or a
binary64; the truth-value options a truth value; the integer options an integer, never a truth
value; the text options a non-empty text. A name that is no option takes nothing. -/
def accepts : String → Setting → Bool
  | "max_seconds", .none => true
  | "max_seconds", .int _ => true
  | "max_seconds", .real _ => true
  | "interprocedural", .bool _ => true
  | "validated_via_unhandled_throw", .bool _ => true
  | "max_iterations", .int _ => true
  | "max_call_chain", .int _ => true
  | "validated_not_null_attribute", .text s => !s.isEmpty
  | "null_check_prefix", .text s => !s.isEmpty
  | "serialization_method_name", .text s => !s.isEmpty
  | _, _ => false

/-- Whether a value is an integer too large for a binary64. -/
def overflows : Setting → Bool
  | .int n => (Binary64.ofInt? n).isNone
  | _ => false

/-- The error an entry of a mapping is refused with, if it is: a name that is no option, a value
of a kind its option does not take, or an integer time budget too large for a binary64. -/
def entryError (e : String × Setting) : Option OptionError :=
  if e.1 ∉ names then some (.unknown e.1)
  else if !accepts e.1 e.2 then some (.invalid e.1 e.2)
  else if e.1 = "max_seconds" ∧ overflows e.2 then some .tooLarge
  else none

/-- The setting an accepted value leaves in its option: an integer time budget as the binary64
it rounds to, any other value as it is. -/
def stored : String → Setting → Setting
  | "max_seconds", .int n => ((Binary64.ofInt? n).map .real).getD (.int n)
  | _, v => v

/-- A setting with an entry stored in it, when the entry names its option. -/
def update (e : String × Setting) (kd : String × Setting) : String × Setting :=
  if kd.1 = e.1 then (e.1, stored e.1 e.2) else kd

/-- Settings with the entries of a mapping stored: each option holds the last value the mapping
gives it, and keeps its setting when the mapping gives none. -/
def overrides (M base : List (String × Setting)) : List (String × Setting) :=
  base.map fun kd => ((M.reverse.lookup kd.1).map fun v => (kd.1, stored kd.1 v)).getD kd

theorem assign_unknown (o : Options) (k : String) (v : Setting) (hk : k ∉ names) :
    assign o (k, v) = .error (.unknown k) := by
  simp only [names, List.mem_cons, List.not_mem_nil, or_false, not_or] at hk
  obtain ⟨h1, h2, h3, h4, h5, h6, h7, h8⟩ := hk
  unfold assign
  split <;> simp_all

/-- Whether and why an entry is refused does not depend on the options it is set on. -/
theorem assign_eq_error_iff (o : Options) (e : String × Setting) (err : OptionError) :
    assign o e = .error err ↔ entryError e = some err := by
  obtain ⟨k, v⟩ := e
  by_cases hk : k ∈ names
  · simp only [names, List.mem_cons, List.not_mem_nil, or_false] at hk
    -- each option and each kind of value; an integer time budget may not fit, a text may be empty
    rcases hk with rfl | rfl | rfl | rfl | rfl | rfl | rfl | rfl <;> cases v <;>
      simp [assign, entryError, names, accepts, overflows, intValue, boolValue, textValue, secondsValue,
        Except.map_eq_error_iff]
    all_goals split <;> simp_all
  · rw [assign_unknown o k v hk]
    simp [entryError, hk]

/-- An accepted entry stores its value in its option and leaves the others. -/
theorem settings_assign (o o' : Options) (e : String × Setting) (h : assign o e = .ok o') :
    o'.settings = o.settings.map (update e) := by
  obtain ⟨k, v⟩ := e
  by_cases hk : k ∈ names
  · simp only [names, List.mem_cons, List.not_mem_nil, or_false] at hk
    rcases hk with rfl | rfl | rfl | rfl | rfl | rfl | rfl | rfl <;> cases v <;>
      simp [assign, intValue, boolValue, textValue, secondsValue, Except.map_eq_ok_iff] at h
    -- what is left: a value set as it is, or one that is read first: an integer time budget,
    -- which fits, or a text, which is not empty
    all_goals first
      | (subst h; simp [settings, update, stored])
      | (obtain ⟨a, ha, rfl⟩ := h; split at ha <;> cases ha; simp_all [settings, update, stored])
  · rw [assign_unknown o k v hk] at h
    cases h

/-- Options are determined by their settings. -/
theorem settings_injective {o o' : Options} (h : o.settings = o'.settings) : o = o' := by
  obtain ⟨i, s, b, c, t, a, p, m⟩ := o
  obtain ⟨i', s', b', c', t', a', p', m'⟩ := o'
  simp only [settings, List.cons.injEq, Prod.mk.injEq, Setting.int.injEq, Setting.bool.injEq,
    Setting.text.injEq, true_and, and_true] at h
  obtain ⟨rfl, hs, rfl, rfl, rfl, rfl, rfl, rfl⟩ := h
  cases s <;> cases s' <;> simp_all

/-- The range checks pass the options they are given, or fail. -/
theorem check_eq_ok {o o' : Options} (h : o.check = .ok o') : o' = o := by
  unfold check at h
  split_ifs at h
  cases h
  rfl

/-! ### Mappings -/

@[simp] theorem overrides_nil (base : List (String × Setting)) : overrides [] base = base := by
  simp [overrides]

theorem fst_update (e kd : String × Setting) : (update e kd).1 = kd.1 := by
  unfold update
  split <;> simp_all

/-- Storing the entries of `e :: M` is storing `e`, then the entries of `M`: a later entry for an
option overrides an earlier one. -/
theorem overrides_cons (e : String × Setting) (M base : List (String × Setting)) :
    overrides (e :: M) base = overrides M (base.map (update e)) := by
  obtain ⟨k, v⟩ := e
  simp only [overrides, List.map_map, List.reverse_cons, List.lookup_append]
  apply List.map_congr_left
  intro kd _
  simp only [Function.comp_apply, fst_update]
  cases h : M.reverse.lookup kd.1 with
  | some v => simp
  | none =>
    simp only [Option.none_or, update]
    by_cases hk : kd.1 = k
    · simp [hk]
    · simp [List.lookup, beq_false_of_ne hk, hk]

/-- A fold over a mapping fails with the error of its first refused entry. -/
theorem foldlM_assign_eq_error {err : OptionError} :
    ∀ (M : List (String × Setting)) (o : Options), M.findSome? entryError = some err →
      M.foldlM assign o = .error err
  | [], _, h => nomatch h
  | e :: M, o, h => by
    rw [List.foldlM_cons]
    cases he : entryError e with
    | some err' =>
      rw [List.findSome?_cons_of_isSome (by simp [he])] at h
      rw [(assign_eq_error_iff o e err).mpr h]
      rfl
    | none =>
      rw [List.findSome?_cons_of_isNone (by simp [he])] at h
      cases ha : assign o e with
      | error err' => simp [(assign_eq_error_iff o e err').mp ha] at he
      | ok o₁ => exact foldlM_assign_eq_error M o₁ h

/-- A fold over a mapping whose entries are all accepted stores them all. -/
theorem foldlM_assign_ok :
    ∀ (M : List (String × Setting)) (o : Options), (∀ e ∈ M, entryError e = none) →
      ∃ o', M.foldlM assign o = .ok o' ∧ o'.settings = overrides M o.settings
  | [], o, _ => ⟨o, rfl, (overrides_nil _).symm⟩
  | e :: M, o, h => by
    cases ha : assign o e with
    | error err => simp [(assign_eq_error_iff o e err).mp ha] at h
    | ok o₁ =>
      obtain ⟨o', hrun, hs⟩ := foldlM_assign_ok M o₁ fun e' he' => h e' (List.mem_cons_of_mem e he')
      refine ⟨o', ?_, ?_⟩
      · rw [List.foldlM_cons, ha]
        exact hrun
      · rw [hs, settings_assign o o₁ e ha, overrides_cons]

theorem ofMapping_eq_error_of_findSome {M : List (String × Setting)} {err : OptionError}
    (h : M.findSome? entryError = some err) : ofMapping M = .error err := by
  unfold ofMapping
  rw [foldlM_assign_eq_error M {} h]
  rfl

theorem ofMapping_of_accepted {M : List (String × Setting)} (h : ∀ e ∈ M, entryError e = none) :
    ∃ o : Options, o.settings = overrides M ({} : Options).settings ∧ ofMapping M = o.check := by
  obtain ⟨o, hrun, hs⟩ := foldlM_assign_ok M {} h
  refine ⟨o, hs, ?_⟩
  unfold ofMapping
  rw [hrun]
  rfl

/-! ### Errors -/

/-- A refused entry is refused with a configuration error, unless it is an integer time budget
too large for a binary64. -/
theorem code?_of_entryError {e : String × Setting} {err : OptionError} (h : entryError e = some err) :
    err.code? = some .unknownOption ∨ err.code? = some .invalidOptionValue ∨
      (err = .tooLarge ∧ ∃ n, e = ("max_seconds", .int n) ∧ Binary64.ofInt? n = none) := by
  obtain ⟨k, v⟩ := e
  by_cases h1 : k ∈ names
  · by_cases h2 : accepts k v = true
    · by_cases h3 : k = "max_seconds" ∧ overflows v = true
      · -- the only error without a code
        obtain ⟨rfl, hv⟩ := h3
        simp only [entryError, h1, h2, hv, not_true_eq_false, Bool.not_true, and_self, if_false,
          if_true] at h
        cases h
        cases v with
        | int n => exact .inr (.inr ⟨rfl, n, rfl, by simpa [overflows] using hv⟩)
        | _ => simp [overflows] at hv
      · simp [entryError, h1, h2, h3] at h
    · simp only [entryError, h1, h2] at h
      cases h
      exact .inr (.inl rfl)
  · simp only [entryError, h1] at h
    cases h
    exact .inl rfl

/-- A failing range check is a configuration error. -/
theorem code?_of_check {o : Options} {err : OptionError} (h : o.check = .error err) :
    err.code? = some .invalidOptionValue := by
  unfold check at h
  split_ifs at h <;> cases h <;> rfl

/-! ### The whole mapping -/

/-- A mapping that gives options has no refused entry. -/
theorem accepted_of_ofMapping_eq_ok {M : List (String × Setting)} {o : Options} (h : ofMapping M = .ok o) :
    ∀ e ∈ M, entryError e = none := by
  rw [← List.findSome?_eq_none_iff]
  cases hf : M.findSome? entryError with
  | none => rfl
  | some err =>
    rw [ofMapping_eq_error_of_findSome hf] at h
    cases h

/-- The error of a mapping is that of its first refused entry, or of its first failing range
check: a configuration error, or the error of an integer time budget too large for a binary64. -/
theorem code?_of_ofMapping_eq_error {M : List (String × Setting)} {err : OptionError}
    (h : ofMapping M = .error err) :
    err.code? = some .unknownOption ∨ err.code? = some .invalidOptionValue ∨
      (err = .tooLarge ∧ ∃ n, ("max_seconds", Setting.int n) ∈ M ∧ Binary64.ofInt? n = none) := by
  cases hf : M.findSome? entryError with
  | some err' =>
    rw [ofMapping_eq_error_of_findSome hf] at h
    cases h
    obtain ⟨e, he, hee⟩ := List.exists_of_findSome?_eq_some hf
    rcases code?_of_entryError hee with hc | hc | ⟨rfl, n, rfl, hn⟩
    · exact .inl hc
    · exact .inr (.inl hc)
    · exact .inr (.inr ⟨rfl, n, he, hn⟩)
  | none =>
    obtain ⟨o, -, hrun⟩ := ofMapping_of_accepted (List.findSome?_eq_none_iff.mp hf)
    rw [hrun] at h
    exact .inr (.inl (code?_of_check h))

/-- A configuration mapping gives options exactly when every entry is accepted and the range checks
pass, and the first refusal names the error otherwise. -/
theorem ofMapping_accepts_exactly (M : List (String × Setting)) :
    (∀ o, ofMapping M = .ok o ↔
      (∀ e ∈ M, entryError e = none) ∧ o.settings = overrides M ({} : Options).settings ∧
        o.check = .ok o) ∧
    (∀ err, M.findSome? entryError = some err → ofMapping M = .error err) ∧
    ((∀ e ∈ M, entryError e = none) →
      ∃ o : Options, o.settings = overrides M ({} : Options).settings ∧ ofMapping M = o.check) ∧
    (∀ err, ofMapping M = .error err →
      err.code? = some .unknownOption ∨ err.code? = some .invalidOptionValue ∨
        (err = .tooLarge ∧ ∃ n, ("max_seconds", Setting.int n) ∈ M ∧ Binary64.ofInt? n = none)) := by
  refine ⟨fun o => ⟨fun h => ?_, fun ⟨hM, hs, hc⟩ => ?_⟩, fun err h => ofMapping_eq_error_of_findSome h,
    ofMapping_of_accepted, fun err h => code?_of_ofMapping_eq_error h⟩
  · -- the options are those the range checks pass
    have hM := accepted_of_ofMapping_eq_ok h
    obtain ⟨o', hs, hrun⟩ := ofMapping_of_accepted hM
    rw [hrun] at h
    obtain rfl := check_eq_ok h
    exact ⟨hM, hs, h⟩
  · -- options with the same settings are the same options
    obtain ⟨o', hs', hrun⟩ := ofMapping_of_accepted hM
    rw [hrun, settings_injective (hs'.trans hs.symm), hc]

/-- A time budget of minus ten to the four hundredth is refused by the error without a code,
not by a configuration error. -/
theorem ofMapping_huge_seconds :
    ofMapping [("max_seconds", .int (-10 ^ 400))] = .error .tooLarge ∧ OptionError.tooLarge.code? = none := by
  have hn : Binary64.ofInt? (-10 ^ 400) = none := by decide +kernel
  refine ⟨ofMapping_eq_error_of_findSome ?_, rfl⟩
  generalize (-10 ^ 400 : Int) = n at hn ⊢
  simp [entryError, names, accepts, overflows, hn]

end Options

end NullGuard
