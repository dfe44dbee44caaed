import Cheryl.Server.Restore

/-!
# Snapshots and what they leave out

A snapshot keeps the locations of the patterns, not the hosts and the mode they are served with
now, so restoring brings back the hosts and the mode a pattern was created with. That is the same
as long as nothing has changed them (`restore_backends`). It also keeps the limiters recorded for a
pattern, and restoring records them again, so the lists grow from snapshot to snapshot unless they
are empty (`restore_limiters_iff`).
-/

namespace Cheryl.Server

open Library ReverseProxy Acl RateLimit

/-! ## Hosts and modes

A location is written when a pattern is created and never again. So hosts and modes are those of the
locations until something changes one of them; the changes that do not are the ones a `BackendStep` may
make. -/

/-- The change leaves hosts and mode of a pattern that is served as they are. -/
def Change.KeepsBackends (c : Config) : Change → Prop
  | .addHost p host => ∀ s, c.services p = some s → host ∈ s.hosts
  | .removeHost p host => ∀ s, c.services p = some s → host ∉ s.hosts
  | .setMode p mode => ∀ s, c.services p = some s → s.mode = mode
  | _ => True

/-- So does every change the event may ask for. -/
def Event.KeepsBackends {δ : Type} (env : Env) (enc : Encoding δ) (c : Config) (e : Event δ) : Prop :=
  ∀ change, e.Asks env enc c (some change) → change.KeepsBackends c

/-- Every pattern is served with the hosts and the mode of its location. -/
def Config.AsLocated (env : Env) (c : Config) : Prop :=
  ∀ p l s, c.locations p = some l → c.services p = some s →
    s.hosts = hostsOf env l.proxyPass ∧ s.mode = l.balanceMode

section Backends

variable {δ : Type} {env : Env} {enc : Encoding δ} {c : Config} {n n₀ : Node} {es : List (Event δ)}

/-- A change to one service that keeps its hosts and its mode. -/
theorem Config.AsLocated.modify (h : Config.AsLocated env c) {p : String} {f : Service → Service}
    (hf : ∀ s, c.services p = some s → (f s).hosts = s.hosts ∧ (f s).mode = s.mode) :
    Config.AsLocated env (c.modify p f) := by
  intro q l s hl hs
  by_cases hq : q = p
  · subst hq
    rw [Config.services_modify_self] at hs
    obtain ⟨s₀, hs₀, rfl⟩ := Option.map_eq_some_iff.mp hs
    rw [(hf s₀ hs₀).1, (hf s₀ hs₀).2]
    exact h _ _ _ hl hs₀
  · rw [Config.services_modify_of_ne hq] at hs
    exact h _ _ _ hl hs

/-- A change that keeps hosts and modes keeps them those of the locations. -/
theorem Config.AsLocated.change (h : Config.AsLocated env c) {change : Change}
    (hk : change.KeepsBackends c) : Config.AsLocated env (change.apply env c) := by
  cases change with
  | create l =>
      intro q l' s hl hs
      by_cases hq : q = l.pattern
      · subst hq
        simp only [Change.apply, Config.locations_put_self, Config.services_put_self,
          Option.some.injEq] at hl hs
        subst hl hs
        exact ⟨rfl, rfl⟩
      · rw [Change.apply, Config.locations_put_of_ne hq] at hl
        rw [Change.apply, Config.services_put_of_ne hq] at hs
        exact h _ _ _ hl hs
  | remove p =>
      intro q l s hl hs
      by_cases hq : q = p
      · subst hq
        simp [Change.apply] at hl
      · rw [Change.apply, Config.locations_remove_of_ne hq] at hl
        rw [Change.apply, Config.services_remove_of_ne hq] at hs
        exact h _ _ _ hl hs
  | addHost p host => exact h.modify fun s hs => ⟨Finset.insert_eq_of_mem (hk s hs), rfl⟩
  | removeHost p host => exact h.modify fun s hs => ⟨Finset.erase_eq_of_notMem (hk s hs), rfl⟩
  | setMode p mode => exact h.modify fun s hs => ⟨rfl, (hk s hs).symm⟩
  | setLimiter p info => exact h.modify fun s _ => ⟨rfl, rfl⟩

/-! ### Runs that keep hosts and modes

The snapshot has the locations and not the hosts that were added or removed since. So what is restored is
what was served if nothing was changed that the locations do not show. -/

/-- A step of which no change touches hosts or modes. -/
def BackendStep (env : Env) (enc : Encoding δ) (n : Node) (e : Event δ) (n' : Node) : Prop :=
  Step env enc n e n' ∧ e.KeepsBackends env enc n.config

/-- After such a run the hosts and modes are those of the locations. -/
theorem run_asLocated (h₀ : Start n₀) (hrun : Trace (BackendStep env enc) n₀ es n) :
    Sane env n ∧ Config.AsLocated env n.config := by
  refine hrun.invariant (I := fun n => Sane env n ∧ Config.AsLocated env n.config)
    ⟨h₀.sane, ?_⟩ ?_
  · intro p l s hl
    rw [h₀.config] at hl
    cases hl
  · rintro n e n' ⟨S, h⟩ ⟨hstep, hkeeps⟩
    refine ⟨S.step hstep, ?_⟩
    obtain ⟨-, ⟨change, hasks, hconfig⟩, -⟩ := hstep.spec S.toReady
    rw [hconfig]
    cases change with
    | none => exact h
    | some change => exact h.change (hkeeps change hasks)

/-- What is restored from the locations is then what was served. -/
theorem Config.AsLocated.backends_restored (h : Config.AsLocated env c)
    (hs : Config.Storable env c) : Config.backends (Config.restored env c) = Config.backends c := by
  funext p
  cases hserv : c.services p with
  | none => simp [Config.backends, Config.restored, hserv, (hs.served p).mp hserv]
  | some s =>
      obtain ⟨l, hl⟩ := Option.ne_none_iff_exists'.mp
        (fun hnone => by rw [(hs.served p).mpr hnone] at hserv; cases hserv)
      obtain ⟨hhosts, hmode⟩ := h _ _ _ hl hserv
      simp only [Config.backends, Config.restored, hl, hserv, Option.map_some,
        Service.hosts_replay, Service.mode_replay, hhosts, hmode]
      rfl

/-- Every snapshot has an order in which to restore it. -/
theorem exists_orders (s : Snapshot) : ∃ o : Orders, o.Of s :=
  ⟨⟨s.locations.keys.toList, s.limiters.keys.toList, s.record.toList⟩,
    ⟨s.locations.keys.nodup_toList, fun _ => by rw [Finset.mem_toList, Finmap.mem_keys]⟩,
    ⟨s.limiters.keys.nodup_toList, fun _ => by rw [Finset.mem_toList, Finmap.mem_keys]⟩,
    s.record.nodup_toList, fun _ => Finset.mem_toList⟩

/-- After every run in which no host of a served pattern is added or removed and no mode is changed:
restoring a snapshot, on whatever node, succeeds and serves the same patterns with the same hosts
and modes. -/
theorem restore_backends (h₀ : Start n₀) (hrun : Trace (BackendStep env enc) n₀ es n)
    {o : Orders} (ho : o.Of (FSM.snapshot n)) (m : Node) :
    ∃ m', FSM.restore env (FSM.snapshot n) o m = (.ok none, m') ∧
      Config.backends m'.config = Config.backends n.config := by
  obtain ⟨S, hlocated⟩ := run_asLocated h₀ hrun
  obtain ⟨m', heq, -, hconfig⟩ := restore_spec (m := m) S.restorable ho
  refine ⟨m', heq, ?_⟩
  rw [hconfig]
  exact hlocated.backends_restored S.storable

end Backends

def addApiHost (host : String) : LogEntry Payload := ⟨6, .hostLog ⟨"/api", host⟩⟩

def limitApi : LogEntry Payload := ⟨2, .limiterInfo ⟨"/api", "/x", "qps", 10, 5, 0, 0⟩⟩

/-- A host that is added again, a limiter, and a second start of the router. -/
theorem restore_backends_again : ∃ n es, es.length = 4 ∧
    Trace (BackendStep Env.plain Payload.encoding) Node.new es n ∧
    ∀ o m, o.Of (FSM.snapshot n) → ∃ m',
      FSM.restore Env.plain (FSM.snapshot n) o m = (.ok none, m') ∧
        Config.backends m'.config = Config.backends n.config := by
  have hrun : Trace (BackendStep Env.plain Payload.encoding) Node.new [] Node.new := .nil
  have hrun := hrun.snoc (e := .apply createApi false) ⟨.apply rfl, by
    intro change hasks
    cases hasks.trans (show _ = some (.create apiLocation) from rfl)
    trivial⟩
  have hrun := hrun.snoc (e := .apply (addApiHost "http://a:80") false) ⟨.apply rfl, by
    intro change hasks
    cases hasks.trans (show _ = some (.addHost "/api" "a:80") from rfl)
    rintro s hs
    cases hs
    decide⟩
  have hrun := hrun.snoc (e := .apply limitApi false) ⟨.apply rfl, by
    intro change hasks
    cases hasks.trans (show _ = some (.setLimiter "/api" ⟨"/api", "/x", "qps", 10, 5, 0, 0⟩) from rfl)
    trivial⟩
  have hrun := hrun.snoc (e := .startRouter "default") ⟨.startRouter _, by
    intro change hasks
    cases hasks⟩
  exact ⟨_, _, rfl, hrun, fun o m ho => restore_backends start_new hrun ho m⟩

/-- A host that was added is not in the snapshot. -/
theorem not_restore_backends : ¬ ∀ (n₀ n m : Node) (es : List (Event Payload)) (o : Orders),
    Start n₀ → Trace (Step Env.plain Payload.encoding) n₀ es n → o.Of (FSM.snapshot n) →
    ∃ m', FSM.restore Env.plain (FSM.snapshot n) o m = (.ok none, m') ∧
      Config.backends m'.config = Config.backends n.config := by
  intro h
  have hrun : Trace (Step Env.plain Payload.encoding) Node.new
      ([] ++ [.apply createApi false] ++ [.apply (addApiHost "http://b:80") false]) _ :=
    .snoc (.snoc .nil (.apply rfl)) (.apply rfl)
  obtain ⟨o, ho⟩ := exists_orders (FSM.snapshot _)
  obtain ⟨m', heq, hbackends⟩ := h _ _ Node.new _ o start_new hrun ho
  obtain ⟨m'', heq', -, hconfig⟩ := restore_spec (m := Node.new) (run_sane start_new hrun).restorable ho
  obtain rfl : m' = m'' := congrArg Prod.snd (heq.symm.trans heq')
  rw [hconfig] at hbackends
  have hapi := congrFun hbackends "/api"
  revert hapi
  decide

/-! ## Limiters

The records are what a snapshot keeps of the limiters, and the source of the limiters that are restored.
Setting them appends to the same records, so only lists that are empty come back as they were. -/

/-- `n` stored and restored `k` times in a row, each time on some node. -/
inductive Restored (env : Env) (n : Node) : Nat → Node → Prop
  | zero : Restored env n 0 n
  | succ {k : Nat} {m m₀ m' : Node} {o : Orders} (h : Restored env n k m)
      (ho : o.Of (FSM.snapshot m))
      (heq : FSM.restore env (FSM.snapshot m) o m₀ = (.ok none, m')) : Restored env n (k + 1) m'

/-- The same limiters are recorded, and every pattern served has the same ones in place. -/
structure SameLimiters (n m : Node) : Prop where
  recorded : m.config.limiters = n.config.limiters
  methods : ∀ p s, n.config.services p = some s →
    ∃ s', m.config.services p = some s' ∧ s'.methods = s.methods

/-- No pattern that is served has a limiter. -/
def Config.Unlimited (c : Config) : Prop := ∀ p, c.services p ≠ none → c.limiters p = []

section Limiters

variable {δ : Type} {env : Env} {enc : Encoding δ} {c : Config} {n n₀ m : Node} {es : List (Event δ)}

/-- Without limiters restoring changes no list, and no proxy has a limiter before or after. -/
theorem Config.Unlimited.restored (h : Config.Unlimited c) (hs : Config.Storable env c) :
    (Config.restored env c).limiters = c.limiters ∧ Config.Unlimited (Config.restored env c) ∧
      ∀ p s, c.services p = some s →
        ∃ s', (Config.restored env c).services p = some s' ∧ s'.methods = s.methods := by
  have hlims : (Config.restored env c).limiters = c.limiters := by
    funext p
    show (if (c.locations p).isSome then _ else _) = _
    split
    · next hl =>
        have hserved : c.services p ≠ none := by
          rw [ne_eq, hs.served, ← ne_eq, ← Option.isSome_iff_ne_none]
          exact hl
        -- doubling an empty list
        rw [h p hserved]
        rfl
    · rfl
  refine ⟨hlims, fun p hp => ?_, fun p s hp => ?_⟩
  · rw [hlims]
    refine h p fun hnone => hp ?_
    rw [(hs.restored).served]
    exact (hs.served p).mp hnone
  · have hnil : c.limiters p = [] := h p (by simp [hp])
    obtain ⟨l, hl⟩ := Option.ne_none_iff_exists'.mp
      (fun hnone => by rw [(hs.served p).mpr hnone] at hp; cases hp)
    refine ⟨l.service env, ?_, ?_⟩
    · simp only [Config.restored, hl, hnil, Option.map_some]
      rfl
    · rw [hs.recorded hp hnil]
      rfl

/-- Nodes that can be restored stay so. -/
theorem Restored.restorable (R : Restorable env n) {k : Nat} (h : Restored env n k m) :
    Restorable env m := by
  induction h with
  | zero => exact R
  | succ h ho heq ih =>
      obtain ⟨m'', heq', R', -⟩ := restore_spec ih ho
      rw [heq] at heq'
      cases heq'
      exact R'

/-- In every state of every run: storing and restoring any number of times in a row always
succeeds and keeps the lists and the limiters in place, exactly when no pattern served has a
limiter. -/
theorem restore_limiters_iff (h₀ : Start n₀) (hrun : Trace (Step env enc) n₀ es n) :
    (∀ k m, Restored env n k m → SameLimiters n m ∧ ∀ o m₀, o.Of (FSM.snapshot m) →
      ∃ m', FSM.restore env (FSM.snapshot m) o m₀ = (.ok none, m')) ↔
    Config.Unlimited n.config := by
  have R : Restorable env n := (run_sane h₀ hrun).restorable
  constructor
  · intro h p hp
    obtain ⟨o, ho⟩ := exists_orders (FSM.snapshot n)
    obtain ⟨m', heq, -, hconfig⟩ := restore_spec (m := n) R ho
    have hsame := (h 1 m' (.succ .zero ho heq)).1.recorded
    rw [hconfig] at hsame
    have hl : (n.config.locations p).isSome := by
      rw [Option.isSome_iff_ne_none, ne_eq, ← R.storable.served]
      exact hp
    -- a list that is equal to itself twice over is empty
    have hdouble : n.config.limiters p ++ n.config.limiters p = n.config.limiters p := by
      have hp := congrFun hsame p
      simpa only [Config.restored, hl, if_true] using hp
    simpa using hdouble
  · intro hunlimited k m hrestored
    have hinv : SameLimiters n m ∧ Config.Unlimited m.config := by
      induction hrestored with
      | zero => exact ⟨⟨rfl, fun p s hs => ⟨s, hs, rfl⟩⟩, hunlimited⟩
      | succ h ho heq ih =>
          obtain ⟨hsame, hfree⟩ := ih
          have Rm := h.restorable R
          obtain ⟨m'', heq', -, hconfig⟩ := restore_spec Rm ho
          rw [heq] at heq'
          cases heq'
          obtain ⟨hlims, hfree', hmethods⟩ := hfree.restored Rm.storable
          rw [← hconfig] at hlims hfree' hmethods
          refine ⟨⟨hlims.trans hsame.recorded, fun p s hs => ?_⟩, hfree'⟩
          obtain ⟨s', hs', heq'⟩ := hsame.methods p s hs
          obtain ⟨s'', hs'', heq''⟩ := hmethods p s' hs'
          exact ⟨s'', hs'', heq''.trans heq'⟩
    refine ⟨hinv.1, fun o m₀ ho => ?_⟩
    obtain ⟨m', heq, -⟩ := restore_spec (m := m₀) (hrestored.restorable R) ho
    exact ⟨m', heq⟩

end Limiters

/-- A proxy and no limiter. -/
theorem restore_limiters_iff_unlimited : ∃ n es, es.length = 1 ∧
    Trace (Step Env.plain Payload.encoding) Node.new es n ∧ n.config.services "/api" ≠ none ∧
    ∀ k m, Restored Env.plain n k m → SameLimiters n m := by
  have hrun : Trace (Step Env.plain Payload.encoding) Node.new ([] ++ [.apply createApi false]) _ :=
    .snoc .nil (.apply rfl)
  have hkeep := (restore_limiters_iff start_new hrun).mpr fun _ _ => rfl
  exact ⟨_, _, rfl, hrun, by decide, fun k m h => (hkeep k m h).1⟩

/-- A limiter that was set is recorded twice after one restore. -/
theorem not_restore_limiters : ¬ ∀ (n₀ n : Node) (es : List (Event Payload)), Start n₀ →
    Trace (Step Env.plain Payload.encoding) n₀ es n →
    ∀ k m, Restored Env.plain n k m → SameLimiters n m := by
  intro h
  have hrun : Trace (Step Env.plain Payload.encoding) Node.new
      ([] ++ [.apply createApi false] ++ [.apply limitApi false]) _ :=
    .snoc (.snoc .nil (.apply rfl)) (.apply rfl)
  obtain ⟨o, ho⟩ := exists_orders (FSM.snapshot _)
  obtain ⟨m', heq, -, hconfig⟩ := restore_spec (m := Node.new) (run_sane start_new hrun).restorable ho
  have hsame := (h _ _ _ start_new hrun 1 m' (.succ .zero ho heq)).recorded
  rw [hconfig] at hsame
  have hlength := congrArg List.length (congrFun hsame "/api")
  revert hlength
  decide

end Cheryl.Server
