import Mathlib.Data.List.Nodup
import Mathlib.Logic.Function.Basic
import Cheryl.Go

/-!
# `filter/filter.go`: the filter chain

The chain is threaded through the `next` fields of the filters themselves. `CreateFilterChain` sets
the fields of all its filters but the last, so the chain does not end there when an earlier call gave
that filter a successor. `runsExactly_iff` says that this is the only thing that goes wrong.
-/

namespace Cheryl.Filter

/-- `FilterFunc`: the error it returns, and what it makes of the response and the request. -/
abbrev FilterFunc (ω : Type) := ω → Option GoError × ω

/-- The `next` fields of the filters, and `FilterChain`. A filter is known by its address. -/
structure Chains (φ : Type) where
  next : φ → Option φ
  filterChain : Option φ

/-- What a call of `ExecuteFilterChain` does: the filters it runs, its result, and the response and
the request as it leaves them. -/
structure Executed (φ ω : Type) where
  ran : List φ
  err : Option GoError
  world : ω
  deriving DecidableEq

variable {φ ω : Type}

/-- `NewFilter` makes filters without a successor. -/
def Chains.new : Chains φ := ⟨fun _ => none, none⟩

/-- The loop of `CreateFilterChain`. -/
def linkAfter [DecidableEq φ] : φ → List φ → (φ → Option φ) → φ → Option φ
  | _, [], next => next
  | tail, cur :: filters, next => linkAfter cur filters (Function.update next tail (some cur))

/-- `CreateFilterChain`. When there is one filter only, it is assigned to `FilterChain` twice. -/
def createFilterChain [DecidableEq φ] (s : Chains φ) : List φ → Chains φ
  | [] => s
  | head :: filters => ⟨linkAfter head filters s.next, some head⟩

/-- The loop of `ExecuteFilterChain`, for a number of rounds: `none` when they were not enough. -/
def executeFrom (func : φ → FilterFunc ω) (next : φ → Option φ) :
    Nat → Option φ → ω → Option (Executed φ ω)
  | _, none, w => some ⟨[], none, w⟩
  | 0, some _, _ => none
  | rounds + 1, some root, w =>
      match func root w with
      | (some err, w) => some ⟨[root], some err, w⟩
      | (none, w) =>
          (executeFrom func next rounds (next root) w).map fun e => { e with ran := root :: e.ran }

def executeFilterChain (func : φ → FilterFunc ω) (s : Chains φ) (rounds : Nat) (w : ω) :
    Option (Executed φ ω) :=
  executeFrom func s.next rounds s.filterChain w

/-! ## What a chain is for

A chain is given as a list of filters and should run these, in this order, until one of them returns an
error. The fields it is threaded through are shared by all chains a filter was ever part of, so whether it
does is a question about the calls before. -/

/-- Run the filters in order, up to and including the first that returns an error. -/
def runFilters (func : φ → FilterFunc ω) : List φ → ω → Executed φ ω
  | [], w => ⟨[], none, w⟩
  | f :: fs, w =>
      match func f w with
      | (some err, w) => ⟨[f], some err, w⟩
      | (none, w) => { runFilters func fs w with ran := f :: (runFilters func fs w).ran }

/-- Some filter returns an error for the request, as the filters before it leave it. -/
def Rejected (func : φ → FilterFunc ω) : List φ → ω → Prop
  | [], _ => False
  | f :: fs, w => (func f w).1 ≠ none ∨ Rejected func fs (func f w).2

/-- For this request the chain terminates and does what running the filters in order does. -/
def RunsExactly (func : φ → FilterFunc ω) (s : Chains φ) (fs : List φ) (w : ω) : Prop :=
  ∃ rounds, ∀ more, rounds ≤ more → executeFilterChain func s more w = some (runFilters func fs w)

/-! ## Running along the links

Whatever the `next` fields are, `ExecuteFilterChain` follows them from `FilterChain` until there is none or
a filter returns an error. If they lead over the filters `fs`, only what comes after the last of these is
left to ask about. -/

section Execute

variable {func : φ → FilterFunc ω} {next : φ → Option φ} {o o' : Option φ} {fs : List φ} {w : ω}

/-- The links lead from `o` over the filters `fs` to `o'`. -/
def Leads (next : φ → Option φ) : Option φ → List φ → Option φ → Prop
  | o, [], o' => o = o'
  | o, f :: fs, o' => o = some f ∧ Leads next (next f) fs o'

theorem executeFrom_of_rejected (hl : Leads next o fs o') (hr : Rejected func fs w) {rounds : Nat}
    (hle : fs.length ≤ rounds) : executeFrom func next rounds o w = some (runFilters func fs w) := by
  -- on the filters, with the request as the one before leaves it
  induction fs generalizing o w rounds with
  | nil => exact hr.elim
  | cons f fs ih =>
      obtain ⟨rfl, hl⟩ := hl
      obtain ⟨rounds, rfl⟩ : ∃ r, rounds = r + 1 := ⟨rounds - 1, by simp at hle; omega⟩
      rw [List.length_cons, Nat.add_le_add_iff_right] at hle
      rw [executeFrom, runFilters]
      rcases hf : func f w with ⟨err, w'⟩
      rw [Rejected, hf] at hr
      cases err with
      | some err => rfl
      | none =>
          have hrest := ih hl (hr.resolve_left fun hne => hne rfl) hle
          simp only [hrest, Option.map_some]

/-- Running filters that let the request pass: all of them run, and then comes what they lead to. -/
theorem executeFrom_of_not_rejected (hl : Leads next o fs o') (hr : ¬ Rejected func fs w)
    (rounds : Nat) : executeFrom func next (fs.length + rounds) o w =
      (executeFrom func next rounds o' (runFilters func fs w).world).map fun e =>
        { e with ran := fs ++ e.ran } := by
  induction fs generalizing o w with
  | nil =>
      obtain rfl : o = o' := hl
      simp [runFilters]
  | cons f fs ih =>
      obtain ⟨rfl, hl⟩ := hl
      rw [List.length_cons, Nat.add_right_comm, executeFrom, runFilters]
      rcases hf : func f w with ⟨err, w'⟩
      rw [Rejected, hf, not_or, not_not] at hr
      obtain ⟨rfl, hr⟩ := hr
      simp only [ih hl hr, Option.map_map]
      rfl

/-- When no filter rejects the request, all of them run. -/
theorem runFilters_of_not_rejected (hr : ¬ Rejected func fs w) :
    runFilters func fs w = ⟨fs, none, (runFilters func fs w).world⟩ := by
  induction fs generalizing w with
  | nil => rfl
  | cons f fs ih =>
      rw [runFilters]
      rcases hf : func f w with ⟨err, w'⟩
      rw [Rejected, hf, not_or, not_not] at hr
      obtain ⟨rfl, hr⟩ := hr
      simp only
      rw [ih hr]

/-- Whatever runs from a filter runs this filter. -/
theorem ran_ne_nil {f : φ} {rounds : Nat} {e : Executed φ ω}
    (h : executeFrom func next rounds (some f) w = some e) : e.ran ≠ [] := by
  cases rounds with
  | zero => cases h
  | succ rounds =>
      rw [executeFrom] at h
      split at h
      · cases h
        simp
      · obtain ⟨e', -, rfl⟩ := Option.map_eq_some_iff.mp h
        simp

/-- A chain of filters that leads on after the last one runs exactly these filters if and only if one
of them rejects the request. -/
theorem executes_iff (hl : Leads next o fs o') :
    (∃ rounds, ∀ more, rounds ≤ more →
      executeFrom func next more o w = some (runFilters func fs w)) ↔
    o' = none ∨ Rejected func fs w := by
  by_cases hr : Rejected func fs w
  · simp only [hr, or_true, iff_true]
    exact ⟨fs.length, fun more hle => executeFrom_of_rejected hl hr hle⟩
  · simp only [hr, or_false]
    constructor
    · rintro ⟨rounds, hrun⟩
      -- enough rounds to come to the end of the filters and one filter further
      have heq := hrun (fs.length + rounds) (Nat.le_add_left _ _)
      rw [executeFrom_of_not_rejected hl hr, runFilters_of_not_rejected hr] at heq
      obtain ⟨e, he, heq⟩ := Option.map_eq_some_iff.mp heq
      have hran : fs ++ e.ran = fs := congrArg Executed.ran heq
      cases o' with
      | none => rfl
      | some f => exact absurd (List.append_right_eq_self.mp hran) (ran_ne_nil he)
    · rintro rfl
      -- nothing comes after the filters, so more rounds than these change nothing
      refine ⟨fs.length, fun more hle => ?_⟩
      obtain ⟨rounds, rfl⟩ := Nat.exists_eq_add_of_le hle
      rw [executeFrom_of_not_rejected hl hr, runFilters_of_not_rejected hr]
      cases rounds <;> simp [executeFrom]

/-- Links that stay among filters which let everything pass are followed for ever. -/
theorem executeFrom_eq_none {S : φ → Prop} (hlinks : ∀ f, S f → ∃ g, next f = some g ∧ S g)
    (hpass : ∀ f, S f → ∀ w, (func f w).1 = none) (rounds : Nat) {f : φ} (hf : S f) (w : ω) :
    executeFrom func next rounds (some f) w = none := by
  induction rounds generalizing f w with
  | zero => rfl
  | succ rounds ih =>
      obtain ⟨g, hg, hS⟩ := hlinks f hf
      have hnone := hpass f hf w
      rw [executeFrom]
      rcases hfw : func f w with ⟨err, w'⟩
      rw [hfw] at hnone
      obtain rfl : err = none := hnone
      simp only [hg, ih hS, Option.map_none]

end Execute

/-! ## What the links are

The loop of `CreateFilterChain` writes one field for each filter but the last. Distinct filters are then
linked as the list has them, and behind the last one stands what stood there before: for filters that were
always made into chains of distinct ones, something just when an earlier call had this filter before its
end. -/

section Links

variable [DecidableEq φ] {next : φ → Option φ} {s : Chains φ} {fs : List φ} {f : φ}

/-- The loop sets the fields of all filters but the last. -/
theorem linkAfter_of_notMem {tail : φ} (h : f ∉ (tail :: fs).dropLast) :
    linkAfter tail fs next f = next f := by
  induction fs generalizing tail next with
  | nil => rfl
  | cons cur fs ih =>
      rw [List.dropLast_cons_cons, List.mem_cons, not_or] at h
      rw [linkAfter, ih h.2, Function.update_of_ne h.1]

/-- A field the loop sets holds a filter. -/
theorem linkAfter_of_mem {tail : φ} (h : f ∈ (tail :: fs).dropLast) :
    linkAfter tail fs next f ≠ none := by
  induction fs generalizing tail next with
  | nil => cases h
  | cons cur fs ih =>
      rw [linkAfter]
      by_cases hf : f ∈ (cur :: fs).dropLast
      · exact ih hf
      · rw [List.dropLast_cons_cons, List.mem_cons] at h
        obtain rfl := h.resolve_right hf
        rw [linkAfter_of_notMem hf, Function.update_self]
        exact Option.some_ne_none _

/-- The links the loop sets lead over the filters to whatever came after the last one before. -/
theorem leads_linkAfter {tail : φ} (hnodup : (tail :: fs).Nodup) :
    Leads (linkAfter tail fs next) (some tail) (tail :: fs)
      (next ((tail :: fs).getLast (List.cons_ne_nil _ _))) := by
  induction fs generalizing tail next with
  | nil => exact ⟨rfl, rfl⟩
  | cons cur fs ih =>
      -- the rest of the list leaves the field of the first filter alone, since it is not among them
      obtain ⟨hnot, hnodup⟩ := List.nodup_cons.mp hnodup
      have hset : linkAfter cur fs (Function.update next tail (some cur)) tail = some cur := by
        rw [linkAfter_of_notMem fun h => hnot (List.mem_of_mem_dropLast h), Function.update_self]
      have hlast : (cur :: fs).getLast (List.cons_ne_nil _ _) ≠ tail := by
        rintro rfl
        exact hnot (List.getLast_mem _)
      have hkept : Function.update next tail (some cur) ((cur :: fs).getLast (List.cons_ne_nil _ _)) =
          next ((cur :: fs).getLast (List.cons_ne_nil _ _)) := Function.update_of_ne hlast ..
      refine ⟨rfl, ?_⟩
      rw [linkAfter, hset, List.getLast_cons (List.cons_ne_nil _ _), ← hkept]
      exact ih hnodup

/-- A call gives a successor to all its filters but the last, and takes none away. -/
theorem next_createFilterChain :
    (createFilterChain s fs).next f = none ↔ s.next f = none ∧ f ∉ fs.dropLast := by
  cases fs with
  | nil => simp [createFilterChain]
  | cons head fs =>
      by_cases hf : f ∈ (head :: fs).dropLast
      · simp only [hf, not_true_eq_false, and_false, iff_false]
        exact linkAfter_of_mem hf
      · simp only [hf, not_false_eq_true, and_true]
        show linkAfter head fs s.next f = none ↔ _
        rw [linkAfter_of_notMem hf]

/-- After any calls a filter is without successor just when it was the last one in each call that it
was part of. -/
theorem next_foldl_createFilterChain (calls : List (List φ)) :
    (calls.foldl createFilterChain s).next f = none ↔
      s.next f = none ∧ ∀ l ∈ calls, f ∉ l.dropLast := by
  induction calls generalizing s with
  | nil => simp
  | cons l calls ih =>
      rw [List.foldl_cons, ih, next_createFilterChain, List.forall_mem_cons, and_assoc]

/-- After any calls, the last of which is with distinct filters, `ExecuteFilterChain` does for a
request what it should, if and only if no earlier call gave the last filter a successor, or some
filter rejects the request. -/
theorem runsExactly_iff (func : φ → FilterFunc ω) (calls : List (List φ)) (hne : fs ≠ [])
    (hnodup : fs.Nodup) (w : ω) :
    RunsExactly func (createFilterChain (calls.foldl createFilterChain Chains.new) fs) fs w ↔
      (∀ l ∈ calls, fs.getLast hne ∉ l.dropLast) ∨ Rejected func fs w := by
  obtain ⟨head, rest, rfl⟩ := List.exists_cons_of_ne_nil hne
  have hfresh := next_foldl_createFilterChain (s := Chains.new) (f := (head :: rest).getLast hne) calls
  rw [RunsExactly]
  simp only [executeFilterChain, createFilterChain]
  rw [executes_iff (leads_linkAfter hnodup), hfresh]
  simp [Chains.new]

end Links

def pass : FilterFunc Unit := fun w => (none, w)

theorem runsExactly_iff_extended : RunsExactly (fun _ => pass)
    (createFilterChain ([[1]].foldl createFilterChain Chains.new) [0, 1]) [0, 1] () :=
  (runsExactly_iff (fun _ => pass) [[1]] (by decide) (by decide) ()).mpr (.inl (by decide))

/-- A filter that was the first of two and is then the only one still leads to the second. -/
theorem not_runsExactly : ¬ ∀ (calls : List (List Nat)) (fs : List Nat),
    (∀ l ∈ calls, l ≠ [] ∧ l.Nodup) → fs ≠ [] → fs.Nodup → ∀ (func : Nat → FilterFunc Unit) w,
    RunsExactly func (createFilterChain (calls.foldl createFilterChain Chains.new) fs) fs w := by
  intro h
  obtain ⟨rounds, hrun⟩ := h [[0, 1]] [0] (by decide) (by decide) (by decide) (fun _ => pass) ()
  have heq : some (⟨[0, 1], none, ()⟩ : Executed Nat Unit) = some ⟨[0], none, ()⟩ :=
    hrun (rounds + 3) (Nat.le_add_right _ _)
  exact absurd heq (by decide)

/-- Two filters chained in both orders lead to each other. -/
example (rounds : Nat) : executeFilterChain (fun _ : Nat => pass)
    (createFilterChain (createFilterChain Chains.new [0, 1]) [1, 0]) rounds () = none := by
  refine executeFrom_eq_none (S := fun f => f = 0 ∨ f = 1) ?_ (fun _ _ _ => rfl) rounds (.inr rfl) ()
  rintro f (rfl | rfl)
  · exact ⟨1, rfl, .inr rfl⟩
  · exact ⟨0, rfl, .inl rfl⟩

end Cheryl.Filter
