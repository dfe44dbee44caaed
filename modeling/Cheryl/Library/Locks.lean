import Mathlib.Data.List.MinMax
import Mathlib.Logic.Hydra
import Cheryl.Library.Trace

/-!
# Calls that take locks

Any number of calls run at once on a shared state. A call takes and releases read-write locks, and
between two of these it makes atomic steps, which may have to wait. A `Discipline` ranks the locks, and
says what holds while nobody has a lock for writing, and what others may do meanwhile to a call that has
it. Calls that keep to it (`Discipline.Sound`) never lock each other out: `Good.progress` says that
somebody can always go on, and `Good.returns` that from wherever they are they can all be brought to return.
-/

namespace Cheryl.Library.Locks

variable {σ L ρ : Type}

inductive Mode
  | read
  | write
  deriving DecidableEq

/-! ## Programs

A call is a tree: it waits for a lock, lets one go, or looks at the state and changes it in one step, and
what it does next may depend on what it saw. Nothing in it loops, so a call that is never kept waiting ends.
`alone` runs it with nobody in its way. -/

/-- What is left to do of a call, that returns an `ρ`. -/
inductive Prog (σ L ρ : Type)
  | done (r : ρ)
  | lock (mode : Mode) (l : L) (k : Prog σ L ρ)
  | unlock (l : L) (k : Prog σ L ρ)
  /-- One step on the state, as soon as it is ready. What comes next depends on the state before. -/
  | act (ready : σ → Bool) (effect : σ → σ) (k : σ → Prog σ L ρ)

namespace Prog

def set (effect : σ → σ) (k : σ → Prog σ L ρ) : Prog σ L ρ := .act (fun _ => true) effect k

def read (k : σ → Prog σ L ρ) : Prog σ L ρ := .set id k

/-- What a call comes to that nobody else is in the way of, `none` if it waits in vain. -/
def alone : Prog σ L ρ → σ → Option (ρ × σ)
  | .done r, s => some (r, s)
  | .lock _ _ k, s => k.alone s
  | .unlock _ k, s => k.alone s
  | .act ready effect k, s => if ready s = true then (k s).alone (effect s) else none

/-! The equations of `alone`, so that later proofs never unfold it. -/

@[simp] theorem alone_done (r : ρ) (s : σ) : (Prog.done r : Prog σ L ρ).alone s = some (r, s) := rfl

@[simp] theorem alone_lock (mode : Mode) (l : L) (k : Prog σ L ρ) (s : σ) :
    (Prog.lock mode l k).alone s = k.alone s := rfl

@[simp] theorem alone_unlock (l : L) (k : Prog σ L ρ) (s : σ) :
    (Prog.unlock l k).alone s = k.alone s := rfl

@[simp] theorem alone_set (effect : σ → σ) (k : σ → Prog σ L ρ) (s : σ) :
    (Prog.set effect k).alone s = (k s).alone (effect s) := rfl

@[simp] theorem alone_read (k : σ → Prog σ L ρ) (s : σ) : (Prog.read k).alone s = (k s).alone s := rfl

/-- What a program goes on with. -/
inductive Next : Prog σ L ρ → Prog σ L ρ → Prop
  | lock (mode : Mode) (l : L) (k : Prog σ L ρ) : Next k (.lock mode l k)
  | unlock (l : L) (k : Prog σ L ρ) : Next k (.unlock l k)
  | act (ready : σ → Bool) (effect : σ → σ) (k : σ → Prog σ L ρ) (s : σ) :
      Next (k s) (.act ready effect k)

/-- A program does not go on for ever. -/
theorem next_wellFounded : WellFounded (Next (σ := σ) (L := L) (ρ := ρ)) := by
  refine ⟨fun p => ?_⟩
  induction p with
  | done r => exact ⟨_, fun q h => by cases h⟩
  | lock mode l k ih => exact ⟨_, fun q h => by cases h; exact ih⟩
  | unlock l k ih => exact ⟨_, fun q h => by cases h; exact ih⟩
  | act ready effect k ih => exact ⟨_, fun q h => by cases h; exact ih _⟩

def wants : Prog σ L ρ → Option L
  | .lock _ l _ => some l
  | _ => none

end Prog

/-! ## Pools

The calls share a state and nothing else. Each is a thread, with the locks it has, and its number in the
list never changes; one that has returned stays there. `Step` grants a lock whenever it is free enough.
`Able` is more careful, since a real lock may make readers wait as soon as somebody wants to write: where it
says that a call can go on, any such lock lets it. -/

/-- A call under way, with the locks it has. -/
structure Thread (σ L ρ : Type) where
  held : L → Option Mode
  prog : Prog σ L ρ

/-- The calls that were ever made, on the state they share. -/
structure Pool (σ L ρ : Type) where
  state : σ
  threads : List (Thread σ L ρ)

inductive Event (σ L ρ : Type)
  | call (prog : Prog σ L ρ)
  | step (i : Nat)

namespace Pool

def At (p : Pool σ L ρ) (i : Nat) (t : Thread σ L ρ) : Prop := p.threads[i]? = some t

def replace (p : Pool σ L ρ) (s : σ) (i : Nat) (t : Thread σ L ρ) : Pool σ L ρ :=
  ⟨s, p.threads.set i t⟩

/-- Many may read, or one may write. -/
def Grants (p : Pool σ L ρ) (mode : Mode) (l : L) : Prop :=
  ∀ i t, p.At i t → t.held l = none ∨ (mode = .read ∧ t.held l = some .read)

variable [DecidableEq L]

/-- A call is made, or goes on by one step. -/
inductive Step (p : Pool σ L ρ) : Event σ L ρ → Pool σ L ρ → Prop
  | call (prog : Prog σ L ρ) : Step p (.call prog) ⟨p.state, p.threads ++ [⟨fun _ => none, prog⟩]⟩
  | lock {i : Nat} {held : L → Option Mode} {mode : Mode} {l : L} {k : Prog σ L ρ}
      (at_i : p.At i ⟨held, .lock mode l k⟩) (grants : p.Grants mode l) :
      Step p (.step i) (p.replace p.state i ⟨Function.update held l (some mode), k⟩)
  | unlock {i : Nat} {held : L → Option Mode} {l : L} {k : Prog σ L ρ}
      (at_i : p.At i ⟨held, .unlock l k⟩) :
      Step p (.step i) (p.replace p.state i ⟨Function.update held l none, k⟩)
  | act {i : Nat} {held : L → Option Mode} {ready : σ → Bool} {effect : σ → σ} {k : σ → Prog σ L ρ}
      (at_i : p.At i ⟨held, .act ready effect k⟩) (is_ready : ready p.state = true) :
      Step p (.step i) (p.replace (effect p.state) i ⟨held, k p.state⟩)

/-- The call can go on, also where readers are made to wait for those that want to write. -/
inductive Able (p : Pool σ L ρ) (i : Nat) : Prop
  | write {held : L → Option Mode} {l : L} {k : Prog σ L ρ} (at_i : p.At i ⟨held, .lock .write l k⟩)
      (free : ∀ j t, p.At j t → t.held l = none)
  | read {held : L → Option Mode} {l : L} {k : Prog σ L ρ} (at_i : p.At i ⟨held, .lock .read l k⟩)
      (free : ∀ j t, p.At j t → t.held l ≠ some .write)
      (unwanted : ∀ j t k, p.At j t → t.prog ≠ .lock .write l k)
  | unlock {held : L → Option Mode} {l : L} {k : Prog σ L ρ} (at_i : p.At i ⟨held, .unlock l k⟩)
  | act {held : L → Option Mode} {ready : σ → Bool} {effect : σ → σ} {k : σ → Prog σ L ρ}
      (at_i : p.At i ⟨held, .act ready effect k⟩) (is_ready : ready p.state = true)

def Returned (p : Pool σ L ρ) : Prop := ∀ i t, p.At i t → ∃ r, t.prog = .done r

variable {p p' : Pool σ L ρ} {i j : Nat} {t t' u : Thread σ L ρ} {s : σ} {l : L}

/-- Who is able to go on does. -/
theorem Able.step (h : p.Able i) : ∃ p', p.Step (.step i) p' := by
  cases h with
  | write at_i free => exact ⟨_, .lock at_i fun j t hj => .inl (free j t hj)⟩
  | @read held l k at_i free unwanted =>
      refine ⟨_, .lock at_i fun j t hj => ?_⟩
      cases hheld : t.held l with
      | none => exact .inl rfl
      | some mode =>
          cases mode with
          | read => exact .inr ⟨rfl, rfl⟩
          | write => exact absurd hheld (free j t hj)
  | unlock at_i => exact ⟨_, .unlock at_i⟩
  | act at_i is_ready => exact ⟨_, .act at_i is_ready⟩

omit [DecidableEq L] in
theorem at_replace (hi : p.At i t) :
    (p.replace s i t').At j u ↔ (j = i ∧ u = t') ∨ (j ≠ i ∧ p.At j u) := by
  have hlt : i < p.threads.length := (List.getElem?_eq_some_iff.mp hi).1
  unfold At replace
  by_cases hj : j = i
  · subst hj
    simp [hlt, eq_comm]
  · simp [hj, Ne.symm hj]

omit [DecidableEq L] in
theorem at_call {prog : Prog σ L ρ} :
    (⟨p.state, p.threads ++ [⟨fun _ => none, prog⟩]⟩ : Pool σ L ρ).At j u ↔
      p.At j u ∨ (j = p.threads.length ∧ u = ⟨fun _ => none, prog⟩) := by
  unfold At
  rcases lt_trichotomy j p.threads.length with hlt | rfl | hgt
  · rw [List.getElem?_append_left hlt]
    grind
  · simp [eq_comm]
  · grind

/-! ### Calls come to an end

A step replaces the program of one thread by a part of it. So the multiset of all programs gets smaller, in
the order in which one element may be replaced by smaller ones. -/

def progs (p : Pool σ L ρ) : Multiset (Prog σ L ρ) := (p.threads.map Thread.prog : List _)

omit [DecidableEq L] in
theorem cutExpand_replace (hi : p.At i t) (hnext : Prog.Next t'.prog t.prog) :
    Relation.CutExpand Prog.Next (p.replace s i t').progs p.progs := by
  obtain ⟨hlt, hget⟩ := List.getElem?_eq_some_iff.mp hi
  obtain ⟨as, bs, hthreads, -, hset⟩ : ∃ as bs, p.threads = as ++ p.threads[i] :: bs ∧ as.length = i ∧
      p.threads.set i t' = as ++ t' :: bs := List.exists_of_set hlt
  rw [hget] at hthreads
  refine ⟨{t'.prog}, t.prog, fun q hq => ?_, ?_⟩
  · rw [Multiset.mem_singleton.mp hq]
    exact hnext
  · have hnew : (p.replace s i t').threads = as ++ t' :: bs := hset
    simp only [progs, hnew, hthreads, List.map_append, List.map_cons, ← Multiset.coe_add,
      ← Multiset.cons_coe, ← Multiset.singleton_add]
    ac_rfl

/-- Calls come to an end: while none is made, only finitely many steps are. -/
theorem step_wellFounded : WellFounded fun p' p : Pool σ L ρ => ∃ i, p.Step (.step i) p' := by
  refine Subrelation.wf (r := InvImage (Relation.CutExpand Prog.Next) progs) ?_
    (InvImage.wf progs Prog.next_wellFounded.cutExpand)
  rintro p' p ⟨i, hstep⟩
  cases hstep with
  | lock at_i grants => exact cutExpand_replace at_i (.lock _ _ _)
  | unlock at_i => exact cutExpand_replace at_i (.unlock _ _)
  | act at_i is_ready => exact cutExpand_replace at_i (.act _ _ _ _)

end Pool

/-! ## Disciplines

Two things are asked of a call. It takes its locks by rank, so that those who wait for each other would have
to wait above each other. And where it waits for something else than a lock, it has made sure that this is
there: such a fact is guarded by a lock, and may be broken only by the one who has this lock for writing,
who mends it before letting the lock go. What the others do meanwhile is bounded by `rely`. -/

/-- What calls keep to, so that they do not lock each other out. -/
structure Discipline (σ L : Type) where
  /-- A lock is only taken by a call that has none of this rank or a greater one. -/
  rank : L → Nat
  /-- What always holds of the state. -/
  inv : σ → Prop
  /-- What holds while nobody has the lock for writing. -/
  guarded : L → σ → Prop
  /-- What others may do to a call that has the lock for writing. -/
  rely : L → σ → σ → Prop
  rely_refl : ∀ l s, rely l s s
  rely_guarded : ∀ l s s', rely l s s' → inv s → inv s' → guarded l s → guarded l s'

namespace Discipline

variable (D : Discipline σ L)

def Stable (held : L → Option Mode) (P : σ → Prop) : Prop :=
  ∀ s s', (∀ l, held l = some .write → D.rely l s s') → D.inv s → D.inv s' → P s → P s'

/-- A step that is fair to the others. -/
structure Fair (held : L → Option Mode) (s s' : σ) : Prop where
  inv : D.inv s'
  guarded : ∀ l, held l ≠ some .write → D.guarded l s → D.guarded l s'
  rely : ∀ l, held l ≠ some .write → D.rely l s s'

variable [DecidableEq L]

/-! A sound program carries, at every point, something the call knows about the state. It is stable, so it
is still true when the call goes on after the others have. -/

/-- A program keeps to the discipline, for a call that has these locks and knows `P`. -/
inductive Sound : (L → Option Mode) → (σ → Prop) → Prog σ L ρ → Prop
  | done {held : L → Option Mode} {P : σ → Prop} {r : ρ} (none_held : ∀ l, held l = none) :
      Sound held P (.done r)
  | lock {held : L → Option Mode} {P Q : σ → Prop} {mode : Mode} {l : L} {k : Prog σ L ρ}
      (above : ∀ l', held l' ≠ none → D.rank l' < D.rank l)
      (gains : ∀ s, D.inv s → P s → (mode = .write → D.guarded l s) → Q s)
      (stable : D.Stable (Function.update held l (some mode)) Q)
      (rest : Sound (Function.update held l (some mode)) Q k) : Sound held P (.lock mode l k)
  | unlock {held : L → Option Mode} {P Q : σ → Prop} {l : L} {k : Prog σ L ρ}
      (restores : held l = some .write → ∀ s, D.inv s → P s → D.guarded l s)
      (keeps : ∀ s, D.inv s → P s → Q s) (stable : D.Stable (Function.update held l none) Q)
      (rest : Sound (Function.update held l none) Q k) : Sound held P (.unlock l k)
  | act {held : L → Option Mode} {P : σ → Prop} {Q : σ → σ → Prop} {ready : σ → Bool}
      {effect : σ → σ} {k : σ → Prog σ L ρ} (is_ready : ∀ s, D.inv s → P s → ready s = true)
      (fair : ∀ s, D.inv s → P s → D.Fair held s (effect s))
      (knows : ∀ s, D.inv s → P s → Q s (effect s)) (stable : ∀ s, D.inv s → P s → D.Stable held (Q s))
      (rest : ∀ s, D.inv s → P s → Sound held (Q s) (k s)) : Sound held P (.act ready effect k)

/-! ### Pools of sound calls

The invariant of a pool: locks for writing are exclusive, what is guarded holds where nobody writes, and
each call knows something that makes the rest of its program sound. Only `Good.progress` argues about all
threads at once. -/

/-- A pool of calls that keep to the discipline. -/
structure Good (p : Pool σ L ρ) : Prop where
  inv : D.inv p.state
  exclusive : ∀ i j t u l, p.At i t → p.At j u → i ≠ j → t.held l = some .write → u.held l = none
  guarded : ∀ l, (∀ i t, p.At i t → t.held l ≠ some .write) → D.guarded l p.state
  sound : ∀ i t, p.At i t → ∃ P : σ → Prop, P p.state ∧ D.Stable t.held P ∧ D.Sound t.held P t.prog

variable {D} {p p' : Pool σ L ρ} {i : Nat} {t : Thread σ L ρ} {held : L → Option Mode} {P : σ → Prop}
  {s : σ} {l : L} {k : Prog σ L ρ} {mode : Mode} {e : Event σ L ρ}

omit [DecidableEq L] in
theorem Fair.refl (hinv : D.inv s) : D.Fair held s s :=
  ⟨hinv, fun _ _ h => h, fun l _ => D.rely_refl l s⟩

/-- Who waits for a lock waits above all that it has. -/
theorem Sound.above (h : D.Sound held P (.lock mode l k)) {l' : L} (hheld : held l' ≠ none) :
    D.rank l' < D.rank l := by
  cases h with
  | lock above => exact above l' hheld

/-- It may know more. -/
theorem Sound.mono {Q : σ → Prop} {prog : Prog σ L ρ} (h : D.Sound held P prog)
    (sub : ∀ s, D.inv s → Q s → P s) : D.Sound held Q prog := by
  cases h with
  | done none_held => exact .done none_held
  | lock above gains stable rest =>
      exact .lock above (fun s hinv hQ hguarded => gains s hinv (sub s hinv hQ) hguarded) stable rest
  | unlock restores keeps stable rest =>
      exact .unlock (fun hwrite s hinv hQ => restores hwrite s hinv (sub s hinv hQ))
        (fun s hinv hQ => keeps s hinv (sub s hinv hQ)) stable rest
  | act is_ready fair knows stable rest =>
      exact .act (fun s hinv hQ => is_ready s hinv (sub s hinv hQ))
        (fun s hinv hQ => fair s hinv (sub s hinv hQ)) (fun s hinv hQ => knows s hinv (sub s hinv hQ))
        (fun s hinv hQ => stable s hinv (sub s hinv hQ)) fun s hinv hQ => rest s hinv (sub s hinv hQ)

/-! ### Somebody can go on

Suppose nobody can. Then everybody who has not returned waits for a lock. Take one of the greatest rank that
is waited for: whoever had it would wait for a lock above it, so nobody has it, and it is granted after all,
to a writer if there is one. -/

/-- Nothing but a lock is waited for. -/
theorem Good.waits (G : D.Good p) (hi : p.At i t) (hleft : ∀ r, t.prog ≠ .done r)
    (hstuck : ¬ p.Able i) :
    ∃ mode l k, t = ⟨t.held, .lock mode l k⟩ := by
  obtain ⟨held, prog⟩ := t
  obtain ⟨P, hP, -, hsound⟩ := G.sound i _ hi
  cases prog with
  | done r => exact absurd rfl (hleft r)
  | lock mode l k => exact ⟨mode, l, k, rfl⟩
  | unlock l k => exact absurd (.unlock hi) hstuck
  | act ready effect k =>
      cases hsound with
      | act is_ready => exact absurd (.act hi (is_ready _ G.inv hP)) hstuck

/-- A call that has returned has no locks. -/
theorem Good.unheld {r : ρ} (G : D.Good p) (hi : p.At i t) (hdone : t.prog = .done r) (l : L) :
    t.held l = none := by
  obtain ⟨P, -, -, hsound⟩ := G.sound i t hi
  rw [hdone] at hsound
  cases hsound with
  | done none_held => exact none_held l

/-- Somebody can go on, if not all calls have returned. -/
theorem Good.progress (G : D.Good p) : p.Returned ∨ ∃ i, p.Able i := by
  classical
  by_contra hstuck
  obtain ⟨hleft, hable⟩ := not_or.mp hstuck
  replace hable : ∀ i, ¬ p.Able i := not_exists.mp hable
  -- the lock of the greatest rank that somebody waits for
  obtain ⟨i, t, hi, ht⟩ : ∃ i t, p.At i t ∧ ∀ r, t.prog ≠ .done r := by
    simpa only [Pool.Returned, not_forall, not_exists, exists_prop] using hleft
  have hwanted : ∀ {i t mode l k}, p.At i t → t.prog = .lock mode l k →
      l ∈ p.threads.filterMap fun t => t.prog.wants := by
    intro i t mode l k hi ht
    exact List.mem_filterMap.mpr ⟨t, List.mem_of_getElem? hi, by rw [ht]; rfl⟩
  obtain ⟨m, hm⟩ : ∃ m, m ∈ (p.threads.filterMap fun t => t.prog.wants).argmax D.rank := by
    obtain ⟨mode, l, k, hlock⟩ := G.waits hi ht (hable i)
    have hmem := hwanted hi (congrArg Thread.prog hlock)
    cases hmax : (p.threads.filterMap fun t => t.prog.wants).argmax D.rank with
    | none => rw [List.argmax_eq_none.mp hmax] at hmem; cases hmem
    | some m => exact ⟨m, rfl⟩
  -- nobody has it, for that one would wait for a greater one
  have hfree : ∀ j u, p.At j u → u.held m = none := by
    intro j u hj
    by_contra hheld
    obtain ⟨P, -, -, hsound⟩ := G.sound j u hj
    have hleft : ∀ r, u.prog ≠ .done r := fun r hr => hheld (G.unheld hj hr m)
    obtain ⟨mode, l, k, hlock⟩ := G.waits hj hleft (hable j)
    have hprog : u.prog = .lock mode l k := congrArg Thread.prog hlock
    rw [hprog] at hsound
    have hgreater := hsound.above hheld
    have hmax := List.le_of_mem_argmax (hwanted hj hprog) hm
    omega
  obtain ⟨u, humem, hu⟩ := List.mem_filterMap.mp (List.argmax_mem hm)
  obtain ⟨j, hj⟩ := List.getElem?_of_mem humem
  by_cases hwriter : ∃ j u k, p.At j u ∧ u.prog = .lock .write m k
  · obtain ⟨j, ⟨held, prog⟩, k, hj, rfl⟩ := hwriter
    exact hable j (.write hj hfree)
  -- nobody waits to write, so a reader gets it
  · obtain ⟨held, prog⟩ := u
    cases prog with
    | lock mode l k =>
        obtain rfl : l = m := Option.some.inj hu
        cases mode with
        | write => exact hwriter ⟨j, _, k, hj, rfl⟩
        | read =>
            refine hable j (.read hj (fun j u hj => by rw [hfree j u hj]; simp) fun j u k hj hu => ?_)
            exact hwriter ⟨j, u, k, hj, hu⟩
    | done r => cases hu
    | unlock l k => cases hu
    | act ready effect k => cases hu

/-! ### The invariant, step by step

There are two kinds of steps: the locks of one call change, or the state does. In either case the others
know what they knew: what a call knows is stable under all that others may do without its locks. -/

/-- A call takes a lock, or lets one go. -/
theorem Good.rehold (G : D.Good p) {held' : L → Option Mode} {prog : Prog σ L ρ} (hi : p.At i t)
    (hothers : ∀ l, t.held l = held' l ∨ (∀ j u, j ≠ i → p.At j u → u.held l = none) ∨
      (held' l ≠ some .write ∧ ∀ j u, j ≠ i → p.At j u → u.held l ≠ some .write))
    (hguarded : ∀ l, t.held l = some .write → held' l ≠ some .write → D.guarded l p.state)
    (hsound : ∃ P : σ → Prop, P p.state ∧ D.Stable held' P ∧ D.Sound held' P prog) :
    D.Good (p.replace p.state i ⟨held', prog⟩) where
  inv := G.inv
  exclusive := by
    intro j j' u u' l h h' hne hwrite
    rcases (Pool.at_replace hi).mp h with ⟨rfl, rfl⟩ | ⟨hji, hj⟩
    · rcases (Pool.at_replace hi).mp h' with ⟨rfl, rfl⟩ | ⟨hji', hj'⟩
      · exact absurd rfl hne
      -- what it has now, it had before, or nobody else had, or it only reads
      · rcases hothers l with hsame | hnone | ⟨hread, -⟩
        · exact G.exclusive _ _ _ _ l hi hj' hne (hsame.trans hwrite)
        · exact hnone j' u' hji' hj'
        · exact absurd hwrite hread
    · rcases (Pool.at_replace hi).mp h' with ⟨rfl, rfl⟩ | ⟨hji', hj'⟩
      · rcases hothers l with hsame | hnone | ⟨-, hnone⟩
        · exact hsame.symm.trans (G.exclusive _ _ _ _ l hj hi hne hwrite)
        · rw [hnone j u hji hj] at hwrite
          cases hwrite
        · exact absurd hwrite (hnone j u hji hj)
      · exact G.exclusive _ _ _ _ l hj hj' hne hwrite
  guarded := by
    intro l hfree
    have hnew := hfree i _ ((Pool.at_replace hi).mpr (.inl ⟨rfl, rfl⟩))
    by_cases hold : t.held l = some .write
    · exact hguarded l hold hnew
    · refine G.guarded l fun j u hj => ?_
      by_cases hji : j = i
      · subst hji
        obtain rfl : t = u := Option.some.inj (hi.symm.trans hj)
        exact hold
      · exact hfree j u ((Pool.at_replace hi).mpr (.inr ⟨hji, hj⟩))
  sound := by
    intro j u h
    rcases (Pool.at_replace hi).mp h with ⟨rfl, rfl⟩ | ⟨-, hj⟩
    · exact hsound
    · exact G.sound j u hj

/-- A call makes a step on the state. -/
theorem Good.effect (G : D.Good p) {prog : Prog σ L ρ} (hi : p.At i t)
    (hfair : D.Fair t.held p.state s)
    (hsound : ∃ P : σ → Prop, P s ∧ D.Stable t.held P ∧ D.Sound t.held P prog) :
    D.Good (p.replace s i ⟨t.held, prog⟩) where
  inv := hfair.inv
  -- no lock has changed hands
  exclusive := by
    intro j j' u u' l h h' hne hwrite
    rcases (Pool.at_replace hi).mp h with ⟨rfl, rfl⟩ | ⟨-, hj⟩
    · rcases (Pool.at_replace hi).mp h' with ⟨rfl, rfl⟩ | ⟨-, hj'⟩
      · exact absurd rfl hne
      · exact G.exclusive _ _ _ _ l hi hj' hne hwrite
    · rcases (Pool.at_replace hi).mp h' with ⟨rfl, rfl⟩ | ⟨-, hj'⟩
      · exact (G.exclusive _ _ _ t l hj hi hne hwrite :)
      · exact G.exclusive _ _ _ _ l hj hj' hne hwrite
  guarded := by
    intro l hfree
    have hnew := hfree i _ ((Pool.at_replace hi).mpr (.inl ⟨rfl, rfl⟩))
    -- a lock that nobody has now, nobody had before
    refine hfair.guarded l hnew (G.guarded l fun j u hj => ?_)
    by_cases hji : j = i
    · subst hji
      obtain rfl : t = u := Option.some.inj (hi.symm.trans hj)
      exact hnew
    · exact hfree j u ((Pool.at_replace hi).mpr (.inr ⟨hji, hj⟩))
  sound := by
    intro j u h
    rcases (Pool.at_replace hi).mp h with ⟨rfl, rfl⟩ | ⟨hji, hj⟩
    · exact hsound
    · -- what another call knows still holds
      obtain ⟨P, hP, hstable, hu⟩ := G.sound j u hj
      refine ⟨P, hstable _ _ (fun l hwrite => hfair.rely l ?_) G.inv hfair.inv hP, hstable, hu⟩
      rw [G.exclusive j i u t l hj hi hji hwrite]
      simp

/-! ## Calls that leave alone what the locks guard

Most calls know nothing but that what is guarded by their own locks holds. For these the conditions on locks
are about ranks alone, and those on steps about fairness to everybody. -/

def Clean (D : Discipline σ L) (held : L → Option Mode) (s : σ) : Prop :=
  ∀ l, held l = some .write → D.guarded l s

omit [DecidableEq L] in
theorem Clean.stable : D.Stable held (D.Clean held) :=
  fun s s' hrely hinv hinv' hclean l hl => D.rely_guarded l s s' (hrely l hl) hinv hinv' (hclean l hl)

omit [DecidableEq L] in
/-- A step that is fair to everybody. -/
theorem Fair.mono {s' : σ} (h : D.Fair (fun _ => none) s s') : D.Fair held s s' where
  inv := h.inv
  guarded := fun l _ => h.guarded l (by simp)
  rely := fun l _ => h.rely l (by simp)

omit [DecidableEq L] in
/-- Such a step leaves what is guarded as it is. -/
theorem Fair.clean {s' : σ} (h : D.Fair (fun _ => none) s s') (hclean : D.Clean held s) :
    D.Clean held s' := fun l hl => h.guarded l (by simp) (hclean l hl)

omit [DecidableEq L] in
/-- A lock that ranks above all one has is not among them. -/
theorem not_held (hrank : ∀ l', held l' ≠ none → D.rank l' < D.rank l) : held l = none := by
  by_contra hheld
  exact lt_irrefl _ (hrank l hheld)

theorem Sound.lock_clean (hrank : ∀ l', held l' ≠ none → D.rank l' < D.rank l)
    (rest : D.Sound (Function.update held l (some mode))
      (D.Clean (Function.update held l (some mode))) k) :
    D.Sound held (D.Clean held) (.lock mode l k) := by
  refine .lock hrank (fun s _ hclean hguarded l' hl' => ?_) Clean.stable rest
  by_cases hl : l' = l
  · subst hl
    rw [Function.update_self] at hl'
    exact hguarded (Option.some.inj hl')
  · rw [Function.update_of_ne hl] at hl'
    exact hclean l' hl'

theorem Sound.unlock_clean (hnot : held l = none) (rest : D.Sound held (D.Clean held) k) :
    D.Sound (Function.update held l (some mode)) (D.Clean (Function.update held l (some mode)))
      (.unlock l k) := by
  have hback : Function.update (Function.update held l (some mode)) l none = held := by
    rw [Function.update_idem, ← hnot, Function.update_eq_self]
  refine .unlock (fun hwrite s _ hclean => hclean l hwrite) (fun s _ hclean l' hl' => hclean l' ?_)
    Clean.stable (hback.symm ▸ rest)
  rw [hback] at hl'
  rw [Function.update_of_ne (fun hl => by rw [hl, hnot] at hl'; cases hl')]
  exact hl'

theorem Sound.set_clean {effect : σ → σ} {k : σ → Prog σ L ρ}
    (hfair : ∀ s, D.inv s → D.Fair (fun _ => none) s (effect s))
    (rest : ∀ s, D.inv s → D.Sound held (D.Clean held) (k s)) :
    D.Sound held (D.Clean held) (.set effect k) :=
  .act (Q := fun _ => D.Clean held) (fun _ _ _ => rfl) (fun s hinv _ => (hfair s hinv).mono)
    (fun s hinv hclean => (hfair s hinv).clean hclean) (fun _ _ _ => Clean.stable)
    fun s hinv _ => rest s hinv

theorem Sound.read_clean {k : σ → Prog σ L ρ}
    (rest : ∀ s, D.inv s → D.Sound held (D.Clean held) (k s)) :
    D.Sound held (D.Clean held) (.read k) := .set_clean (fun _ hinv => .refl hinv) rest

/-- A call that starts without locks keeps to the discipline. -/
def Kept (D : Discipline σ L) (prog : Prog σ L ρ) : Prop :=
  D.Sound (fun _ => none) (D.Clean fun _ => none) prog

/-! ## Runs

A run starts with no calls. New ones come at any time, in any number, as long as each keeps to the
discipline by itself. -/

/-- A pool of sound calls stays one. -/
theorem Good.step (G : D.Good p) (hcall : ∀ prog, e = .call prog → D.Kept prog) (h : p.Step e p') :
    D.Good p' := by
  cases h with
  | call prog =>
      refine ⟨G.inv, fun i j t u l hi hj hne hwrite => ?_, fun l hfree => ?_, fun i t hi => ?_⟩
      · rcases Pool.at_call.mp hi with hi | ⟨-, rfl⟩
        · rcases Pool.at_call.mp hj with hj | ⟨-, rfl⟩
          · exact G.exclusive i j t u l hi hj hne hwrite
          · rfl
        · cases hwrite
      · exact G.guarded l fun i t hi => hfree i t (Pool.at_call.mpr (.inl hi))
      · rcases Pool.at_call.mp hi with hi | ⟨-, rfl⟩
        · exact G.sound i t hi
        · exact ⟨_, fun l hl => (by cases hl), Clean.stable, hcall prog rfl⟩
  | @lock i held mode l k at_i grants =>
      obtain ⟨P, hP, -, hsound⟩ := G.sound i _ at_i
      cases hsound with
      | lock above gains stable rest =>
          -- it did not have the lock, since it takes them by rank
          have hnew : held l = none := not_held above
          refine G.rehold at_i (fun l' => ?_) (fun l' hold hwrite => ?_)
            ⟨_, gains _ G.inv hP fun hmode => G.guarded l fun j u hj => ?_, stable, rest⟩
          · by_cases hl : l' = l
            · subst hl
              rw [Function.update_self]
              cases mode with
              | write =>
                  refine .inr (.inl fun j u _ hj => (grants j u hj).resolve_right ?_)
                  exact fun hread => by cases hread.1
              | read =>
                  refine .inr (.inr ⟨by simp, fun j u _ hj hwrite => ?_⟩)
                  rcases grants j u hj with hnone | ⟨-, hread⟩
                  · rw [hnone] at hwrite; cases hwrite
                  · rw [hread] at hwrite; cases hwrite
            · exact .inl (Function.update_of_ne hl _ _).symm
          -- the lock that was free has nothing to mend
          · by_cases hl : l' = l
            · subst hl
              exact absurd (hnew.symm.trans hold) (by simp)
            · rw [Function.update_of_ne hl] at hwrite
              exact absurd hold hwrite
          · subst hmode
            rw [(grants j u hj).resolve_right fun hread => by cases hread.1]
            simp
  | @unlock i held l k at_i =>
      obtain ⟨P, hP, -, hsound⟩ := G.sound i _ at_i
      cases hsound with
      | unlock restores keeps stable rest =>
          refine G.rehold at_i (fun l' => ?_) (fun l' hold hwrite => ?_)
            ⟨_, keeps _ G.inv hP, stable, rest⟩
          · by_cases hl : l' = l
            · subst hl
              rw [Function.update_self]
              by_cases hwrite : held l' = some .write
              · exact .inr (.inl fun j u hji hj => G.exclusive i j _ u l' at_i hj (Ne.symm hji) hwrite)
              · cases hold : held l' with
                | none => exact .inl hold
                | some mode =>
                    refine .inr (.inr ⟨by simp, fun j u hji hj hwriter => ?_⟩)
                    have hnone := G.exclusive j i u _ l' hj at_i hji hwriter
                    exact absurd (hold.symm.trans hnone) (by simp)
            · exact .inl (Function.update_of_ne hl _ _).symm
          · by_cases hl : l' = l
            · subst hl
              exact restores hold _ G.inv hP
            · rw [Function.update_of_ne hl] at hwrite
              exact absurd hold hwrite
  | @act i held ready effect k at_i is_ready =>
      obtain ⟨P, hP, -, hsound⟩ := G.sound i _ at_i
      cases hsound with
      | act is_ready fair knows stable rest =>
          exact G.effect at_i (fair _ G.inv hP)
            ⟨_, knows _ G.inv hP, stable _ G.inv hP, rest _ G.inv hP⟩

/-- And so in every run. -/
theorem Good.run {es : List (Event σ L ρ)} (G : D.Good p)
    (hcalls : ∀ prog, .call prog ∈ es → D.Kept prog)
    (h : Trace Pool.Step p es p') : D.Good p' := by
  induction h with
  | nil => exact G
  | snoc _ hstep ih =>
      have hgood := ih fun prog hmem => hcalls prog (List.mem_append_left _ hmem)
      refine hgood.step (fun prog he => ?_) hstep
      exact hcalls prog (List.mem_append_right _ (by rw [he]; exact List.mem_singleton_self _))

/-- Wherever the calls are, they can all be brought to return. -/
theorem Good.returns (G : D.Good p) : ∃ es p', (∀ e ∈ es, ∃ i, e = .step i) ∧
    Trace Pool.Step p es p' ∧ p'.Returned := by
  -- a step leaves less to do, for somebody
  induction p using (Pool.step_wellFounded (σ := σ) (L := L) (ρ := ρ)).induction with
  | h p ih =>
      rcases G.progress with hreturned | ⟨i, hable⟩
      · exact ⟨[], p, fun e he => (by cases he), .nil, hreturned⟩
      · obtain ⟨p', hstep⟩ := hable.step
        have G' : D.Good p' := G.step (fun prog he => by cases he) hstep
        obtain ⟨es, p'', hes, hrun, hreturned⟩ := ih p' ⟨i, hstep⟩ G'
        refine ⟨_, p'', fun e he => ?_, (Trace.snoc .nil hstep).append hrun, hreturned⟩
        rcases List.mem_append.mp he with he | he
        · exact ⟨i, List.mem_singleton.mp he⟩
        · exact hes e he

/-- Nobody is there yet. -/
theorem Good.idle (hinv : D.inv s) (hguarded : ∀ l, D.guarded l s) : D.Good (ρ := ρ) ⟨s, []⟩ where
  inv := hinv
  exclusive := fun i j t u l hi => by cases hi
  guarded := fun l _ => hguarded l
  sound := fun i t hi => by cases hi

/-- A call that is alone takes all its locks, and returns what `alone` says. -/
theorem Sound.returns {prog : Prog σ L ρ} (h : D.Sound held P prog) (hinv : D.inv s) (hP : P s)
    (hguarded : ∀ l, held l ≠ some .write → D.guarded l s) :
    ∃ r s' es, prog.alone s = some (r, s') ∧
      Trace Pool.Step ⟨s, [⟨held, prog⟩]⟩ es ⟨s', [⟨fun _ => none, .done r⟩]⟩ := by
  induction h generalizing s with
  | @done held P r none_held =>
      obtain rfl : held = fun _ => none := funext none_held
      exact ⟨r, s, [], rfl, .nil⟩
  | @lock held P Q mode l k above gains stable rest ih =>
      have hnew : held l = none := not_held above
      -- nobody else is there, so the lock is free, and what it guards holds
      have hfree : D.guarded l s := hguarded l (by rw [hnew]; simp)
      obtain ⟨r, s', es, halone, hrun⟩ := ih hinv (gains s hinv hP fun _ => hfree) fun l' hl' => by
        by_cases hl : l' = l
        · exact hl ▸ hfree
        · rw [Function.update_of_ne hl] at hl'
          exact hguarded l' hl'
      have hstep : Pool.Step ⟨s, [⟨held, .lock mode l k⟩]⟩ (.step 0)
          ⟨s, [⟨Function.update held l (some mode), k⟩]⟩ := by
        refine .lock (i := 0) rfl fun i t hi => ?_
        cases i with
        | zero => cases hi; exact .inl hnew
        | succ i => cases hi
      exact ⟨r, s', _, halone, (Trace.snoc .nil hstep).append hrun⟩
  | @unlock held P Q l k restores keeps stable rest ih =>
      obtain ⟨r, s', es, halone, hrun⟩ := ih hinv (keeps s hinv hP) fun l' hl' => by
        by_cases hl : l' = l
        · subst hl
          by_cases hheld : held l' = some .write
          · exact restores hheld s hinv hP
          · exact hguarded l' hheld
        · rw [Function.update_of_ne hl] at hl'
          exact hguarded l' hl'
      have hstep : Pool.Step ⟨s, [⟨held, .unlock l k⟩]⟩ (.step 0)
          ⟨s, [⟨Function.update held l none, k⟩]⟩ := .unlock (i := 0) rfl
      exact ⟨r, s', _, halone, (Trace.snoc .nil hstep).append hrun⟩
  | @act held P Q ready effect k is_ready fair knows stable rest ih =>
      have hfair := fair s hinv hP
      obtain ⟨r, s', es, halone, hrun⟩ := ih s hinv hP hfair.inv (knows s hinv hP) fun l hl =>
        hfair.guarded l hl (hguarded l hl)
      have hstep : Pool.Step ⟨s, [⟨held, .act ready effect k⟩]⟩ (.step 0)
          ⟨effect s, [⟨held, k s⟩]⟩ := .act (i := 0) rfl (is_ready s hinv hP)
      refine ⟨r, s', _, ?_, (Trace.snoc .nil hstep).append hrun⟩
      rw [Prog.alone, if_pos (is_ready s hinv hP)]
      exact halone

end Discipline

end Cheryl.Library.Locks
