import Cheryl.Server.Fleet
import Cheryl.Server.Restarts

/-!
# The limiters over the life of a node

A node applies entries, serves requests, handles admin requests, and is restarted from its own snapshots.
`Methods` is not stored, only the list of the limiters that were ever recorded for a pattern, with those of
a proxy that the pattern had before. The limiters in place are always those that a last part of the list
makes (`Config.Explained`). So a restart, which sets the whole list again, leaves each of them in place
(`limiters_survive`), and may bring back one of a path that only the proxy before had.
-/

namespace Cheryl.Server

open Library ReverseProxy Acl RateLimit

/-! ## `/methodInfo`

The handler looks the limiter up and shows it. It reads nothing but the configuration of the node, so nodes
with the same services answer alike. -/

structure MethodReq where
  pattern : String
  method : String

/-- The `Response` of `doGetMehtodLimiter`. -/
structure MethodInfo where
  type : String
  speed : Int
  volumn : Int
  timeout : Int
  deriving DecidableEq, Repr

/-- What `doGetMehtodLimiter` writes: `Error`, or the limiter. -/
inductive MethodReply
  | error (code : Nat) (text : String)
  | method (info : MethodInfo)
  deriving DecidableEq, Repr

/-- What is shown of a limiter. `inf` is the speed of an unlimited one. -/
def MethodInfo.of (inf : Int) (limiter : QpsRateLimiter) : MethodInfo :=
  ⟨"qps", limiter.getSpeed inf, limiter.getVolumn, limiter.getTimeout⟩

/-- `doGetMehtodLimiter`. The proxy of an unknown pattern is `nil`. -/
def doGetMehtodLimiter (inf : Int) (n : Node) (body : Except GoError MethodReq) : Ending MethodReply :=
  match body with
  | .error err => .returned (.error 500 ("can't receive the json data: " ++ err.text))
  | .ok req =>
      match n.current.relations.lookup req.pattern with
      | none => .panicked .nilDereference
      | some a =>
          match (n.proxies a).methods.lookup req.method with
          | none => .returned (.error 404 "没有找到该方法")
          | some limiter => .returned (.method (.of inf limiter))

theorem doGetMehtodLimiter_eq (inf : Int) (n : Node) (pattern method : String) :
    doGetMehtodLimiter inf n (.ok ⟨pattern, method⟩) = (n.config.services pattern).elim
      (.panicked .nilDereference) fun s => (s.methods method).elim (.returned (.error 404 "没有找到该方法"))
        fun limiter => .returned (.method (.of inf limiter)) := by
  unfold doGetMehtodLimiter
  cases hp : n.current.relations.lookup pattern with
  | none => simp [hp, Node.services_eq_none.mpr hp]
  | some a =>
      simp only [hp, Node.services_of_lookup hp, Option.elim_some, HTTPProxy.service]
      cases (n.proxies a).methods.lookup method <;> rfl

/-! ## The record explains the limiters

Setting a limiter appends to the record and replaces one entry of `Methods`. A proxy that takes the place of
another starts with no limiters, while the record of the pattern goes on. So the limiters in place are made
by a part of the record that begins where the proxy was made, and as a later limiter for a path replaces an
earlier one, the whole record makes them too, and perhaps others. -/

def lastRecorded (infos : List LimiterInfo) (path : String) : Option LimiterInfo :=
  infos.reverse.find? fun info => info.pathName = path

/-- The limiters that a list makes. -/
def madeBy (infos : List LimiterInfo) : String → Option QpsRateLimiter :=
  replay (fun _ => none) (infos.map limiterWrite)

/-- The limiters in place are those that the last part of the record makes. -/
def Config.Explained (c : Config) : Prop :=
  ∀ p s, c.services p = some s → ∃ old new, c.limiters p = old ++ new ∧ s.methods = madeBy new

section Explained

variable {env : Env} {c : Config} {p path : String} {s : Service} {infos old new : List LimiterInfo}
  {limiter : QpsRateLimiter}

/-- The last one recorded for a path counts. -/
theorem madeBy_eq (infos : List LimiterInfo) (path : String) :
    madeBy infos path = (lastRecorded infos path).map LimiterInfo.described := by
  rw [madeBy, replay_eq_find?, ← List.map_reverse, List.find?_map]
  unfold lastRecorded
  show ((infos.reverse.find? fun info => info.pathName = path).map limiterWrite |>.map Write.val).getD none = _
  cases infos.reverse.find? fun info => info.pathName = path <;> rfl

/-- A limiter that a last part of a list makes, the whole list makes. -/
theorem madeBy_append (h : madeBy new path = some limiter) : madeBy (old ++ new) path = some limiter := by
  have hmem : ∃ w ∈ new.map limiterWrite, w.key = path := by
    by_contra hnone
    have hnot : madeBy new path = none :=
      replay_of_notMem fun w hw heq => hnone ⟨w, hw, heq⟩
    rw [hnot] at h
    cases h
  rw [madeBy, List.map_append, replay_append, replay_of_mem hmem]
  exact h

/-- A change of one service that leaves its limiters alone. -/
theorem Config.Explained.modify (h : Config.Explained c) (p : String) {f : Service → Service}
    (hf : ∀ s, (f s).methods = s.methods) : Config.Explained (c.modify p f) := by
  intro q s hs
  by_cases hq : q = p
  · subst hq
    rw [Config.services_modify_self] at hs
    obtain ⟨s₀, hs₀, rfl⟩ := Option.map_eq_some_iff.mp hs
    rw [hf]
    exact h q s₀ hs₀
  · rw [Config.services_modify_of_ne hq] at hs
    exact h q s hs

/-- Every change of the configuration keeps the record and the limiters together. -/
theorem Config.Explained.change (h : Config.Explained c) (change : Change) :
    Config.Explained (change.apply env c) := by
  cases change with
  | create l =>
      intro q s hs
      by_cases hq : q = l.pattern
      · -- the record of an earlier proxy stays, and says nothing of the new one
        subst hq
        rw [Change.apply, Config.services_put_self, Option.some.injEq] at hs
        exact ⟨c.limiters l.pattern, [], (List.append_nil _).symm, by rw [← hs]; rfl⟩
      · rw [Change.apply, Config.services_put_of_ne hq] at hs
        exact h q s hs
  | remove p =>
      intro q s hs
      by_cases hq : q = p
      · subst hq
        simp [Change.apply] at hs
      · rw [Change.apply, Config.services_remove_of_ne hq] at hs
        exact h q s hs
  | addHost p host => exact h.modify p fun _ => rfl
  | removeHost p host => exact h.modify p fun _ => rfl
  | setMode p mode => exact h.modify p fun _ => rfl
  -- the one change of both: the record grows at the end of its last part
  | setLimiter p info =>
      intro q s hs
      by_cases hq : q = p
      · subst hq
        have hmodified : (c.services q).map (fun s => s.setLimiter info.pathName info.described) = some s :=
          Config.services_modify_self.symm.trans hs
        obtain ⟨s₀, hs₀, rfl⟩ := Option.map_eq_some_iff.mp hmodified
        obtain ⟨old, new, hlimiters, hmethods⟩ := h q s₀ hs₀
        refine ⟨old, new ++ [info], ?_, ?_⟩
        · simp [Change.apply, Config.record, Config.modify, hlimiters]
        · rw [madeBy, List.map_append, replay_append, ← madeBy, ← hmethods]
          rfl
      · have hs' : c.services q = some s := (Config.services_modify_of_ne hq).symm.trans hs
        obtain ⟨old, new, hlimiters, hmethods⟩ := h q s hs'
        refine ⟨old, new, ?_, hmethods⟩
        rw [← hlimiters]
        exact Function.update_of_ne hq ..

/-- What a pattern is served with after `Restore`. -/
theorem Config.services_restored (hs : Config.Storable env c) (hp : c.services p = some s) :
    ∃ s', (Config.restored env c).services p = some s' ∧ s'.methods = madeBy (c.limiters p) := by
  obtain ⟨l, hl⟩ := Option.ne_none_iff_exists'.mp
    (fun hnone => by rw [(hs.served p).mpr hnone] at hp; cases hp)
  exact ⟨_, by simp [Config.restored, hl]; rfl, Service.methods_replay _ _⟩

/-- `Restore` makes all the limiters of the record, so the whole of it explains them. -/
theorem Config.Explained.restored (hs : Config.Storable env c) :
    Config.Explained (Config.restored env c) := by
  intro p s hp
  have hserved : c.services p ≠ none := by
    rw [ne_eq, hs.served]
    intro hnone
    simp [Config.restored, hnone] at hp
  obtain ⟨s₀, hs₀⟩ := Option.ne_none_iff_exists'.mp hserved
  obtain ⟨s', hs', hmethods⟩ := Config.services_restored hs hs₀
  rw [hp, Option.some.injEq] at hs'
  have hlocated : (c.locations p).isSome := by
    rw [Option.isSome_iff_ne_none, ne_eq, ← hs.served]
    exact hserved
  refine ⟨c.limiters p, c.limiters p, ?_, by rw [hs']; exact hmethods⟩
  simp [Config.restored, hlocated]

end Explained

/-! ## Lives

A life is a run of the node with restarts in it. The new process starts from nothing and restores the
snapshot of the old one, after which the record begins with the proxy again. -/

inductive LifeEvent (δ : Type)
  | event (e : Event δ)
  | request (o : Outside) (req : AdminRequest)
  /-- the process ends, and the next one restores the snapshot, with the maps visited in these orders -/
  | restart (o : Orders)

/-- One step of a life. A handler may panic, an entry must not; `/addProxy` finds a router. -/
inductive LifeStep {δ : Type} (env : Env) (enc : Encoding δ) : Node → LifeEvent δ → Node → Prop
  | event {n n' : Node} {e : Event δ} (h : Step env enc n e n') : LifeStep env enc n (.event e) n'
  | request {h h' : HttpServer δ} {o : Outside} {req : AdminRequest} {ending : Ending Reply}
      (routed : ∀ l, req = .addProxy (.ok l) → h.state.router ≠ none)
      (heq : h.handle env enc o req = (ending, h')) (up : ∀ fault, ending ≠ .down fault) :
      LifeStep env enc h.state (.request o req) h'.state
  | restart {n m n' : Node} {o : Orders} {err : Option GoError} (fresh : Start m)
      (visits : o.Of (FSM.snapshot n)) (h : FSM.restore env (FSM.snapshot n) o m = (.ok err, n')) :
      LifeStep env enc n (.restart o) n'

section Lives

variable {δ : Type} {env : Env} {enc : Encoding δ} {n n' n₀ : Node} {e : LifeEvent δ}
  {es : List (LifeEvent δ)}

/-- A touch keeps the record and the limiters together. -/
theorem Config.Explained.touched (h : Config.Explained n.config) (ht : Touched env n n') :
    Config.Explained n'.config := by
  rcases ht.config with heq | ⟨change, -, heq⟩ <;> rw [heq]
  · exact h
  · exact h.change change

/-- One step of a life keeps the node sane and its limiters explained. -/
theorem LifeStep.keeps (h : LifeStep env enc n e n') (I : Sane env n ∧ Config.Explained n.config) :
    Sane env n' ∧ Config.Explained n'.config := by
  cases h with
  | event h =>
      have ht := h.touched I.1.toReady
      exact ⟨I.1.touched ht, I.2.touched ht⟩
  | request routed heq up =>
      have ht := handle_touches I.1.toReady routed heq up
      exact ⟨I.1.touches ht, ht.invariant Config.Explained.touched I.2⟩
  | restart fresh visits h =>
      obtain ⟨hsane, hconfig⟩ := I.1.restore visits (fresh.replaces _) h
      refine ⟨hsane, ?_⟩
      rw [hconfig]
      exact Config.Explained.restored I.1.storable

theorem run_explained (h₀ : Start n₀) (hlife : Trace (LifeStep env enc) n₀ es n) :
    Sane env n ∧ Config.Explained n.config := by
  refine hlife.invariant (I := fun n => Sane env n ∧ Config.Explained n.config) ⟨h₀.sane, ?_⟩
    fun I hstep => hstep.keeps I
  intro p s hs
  rw [h₀.config] at hs
  cases hs

/-- Over its whole life, with entries, requests, admin requests and restarts in any order: each limiter in
place is the one recorded last for its path. A restart from the snapshot succeeds on whatever node; then a
pattern is served if it was before, with the limiter recorded last for each path, so every limiter that was
in place is in place, and `/methodInfo` shows what it showed. -/
theorem limiters_survive (h₀ : Start n₀) (hlife : Trace (LifeStep env enc) n₀ es n) :
    (∀ p s path limiter, n.config.services p = some s → s.methods path = some limiter →
      (lastRecorded (n.config.limiters p) path).map LimiterInfo.described = some limiter) ∧
    ∀ o m, o.Of (FSM.snapshot n) → ∃ n', FSM.restore env (FSM.snapshot n) o m = (.ok none, n') ∧
      (∀ p, n'.config.services p = none ↔ n.config.services p = none) ∧
      (∀ p s', n'.config.services p = some s' → ∀ path, s'.methods path =
        (lastRecorded (n.config.limiters p) path).map LimiterInfo.described) ∧
      ∀ inf p path info,
        doGetMehtodLimiter inf n (.ok ⟨p, path⟩) = .returned (.method info) →
          doGetMehtodLimiter inf n' (.ok ⟨p, path⟩) = .returned (.method info) := by
  obtain ⟨S, hexplained⟩ := run_explained h₀ hlife
  -- a limiter in place comes from the last part of the record, hence from all of it
  have hlast : ∀ p s path limiter, n.config.services p = some s → s.methods path = some limiter →
      madeBy (n.config.limiters p) path = some limiter := by
    intro p s path limiter hs hlimiter
    obtain ⟨old, new, hlimiters, hmethods⟩ := hexplained p s hs
    rw [hmethods] at hlimiter
    rw [hlimiters]
    exact madeBy_append hlimiter
  refine ⟨fun p s path limiter hs hlimiter => ?_, fun o m ho => ?_⟩
  · rw [← madeBy_eq]
    exact hlast p s path limiter hs hlimiter
  obtain ⟨n', heq, -, hconfig⟩ := restore_spec (m := m) S.restorable ho
  have hserved : ∀ p, n'.config.services p = none ↔ n.config.services p = none := by
    intro p
    rw [hconfig, S.storable.restored.served, S.storable.served]
    rfl
  -- after the restart the limiters of a pattern are all those its record makes
  have hmade : ∀ p s', n'.config.services p = some s' → s'.methods = madeBy (n.config.limiters p) := by
    intro p s' hs'
    obtain ⟨s, hs⟩ := Option.ne_none_iff_exists'.mp fun hnone => by
      rw [(hserved p).mpr hnone] at hs'
      cases hs'
    obtain ⟨s'', hs'', hmethods⟩ := Config.services_restored S.storable hs
    rw [← hconfig, hs', Option.some.injEq] at hs''
    rw [hs'']
    exact hmethods
  refine ⟨n', heq, hserved, fun p s' hs' path => ?_, fun inf p path info hinfo => ?_⟩
  · rw [hmade p s' hs', madeBy_eq]
  · rw [doGetMehtodLimiter_eq] at hinfo ⊢
    cases hs : n.config.services p with
    | none =>
        rw [hs] at hinfo
        cases hinfo
    | some s =>
        rw [hs, Option.elim_some] at hinfo
        cases hlimiter : s.methods path with
        | none =>
            rw [hlimiter] at hinfo
            cases hinfo
        | some limiter =>
            rw [hlimiter] at hinfo
            obtain ⟨s', hs'⟩ := Option.ne_none_iff_exists'.mp fun hnone => by
              rw [(hserved p).mp hnone] at hs
              cases hs
            rw [hs', Option.elim_some, hmade p s' hs', hlast p s path limiter hs hlimiter]
            exact hinfo

end Lives

/-- Ten tokens, five a second, and two restarts. -/
theorem limiters_survive_twice : ∃ es n o n', es.length = 3 ∧
    Trace (LifeStep Env.plain Payload.encoding) Node.new es n ∧
    FSM.restore Env.plain (FSM.snapshot n) o Node.new = (.ok none, n') ∧
    doGetMehtodLimiter 0 n' (.ok ⟨"/api", "/x"⟩) = .returned (.method ⟨"qps", 5, 10, 0⟩) := by
  have hlife : Trace (LifeStep Env.plain Payload.encoding) Node.new
      ([] ++ [.event (.apply createApi false)] ++ [.event (.apply limitApi false)]) _ :=
    .snoc (.snoc .nil (.event (.apply rfl))) (.event (.apply rfl))
  obtain ⟨o, ho⟩ := exists_orders (FSM.snapshot _)
  obtain ⟨m, heq, -, -, hshown⟩ := (limiters_survive start_new hlife).2 o Node.new ho
  have hlife' := hlife.snoc (e := LifeEvent.restart o) (.restart start_new ho heq)
  obtain ⟨o', ho'⟩ := exists_orders (FSM.snapshot m)
  obtain ⟨m', heq', -, -, hshown'⟩ := (limiters_survive start_new hlife').2 o' Node.new ho'
  exact ⟨_, m, o', m', rfl, hlife', heq', hshown' 0 "/api" "/x" _ (hshown 0 "/api" "/x" _ rfl)⟩

end Cheryl.Server
