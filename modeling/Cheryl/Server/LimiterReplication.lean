import Cheryl.Server.Cluster

/-!
# Replication of the limiters

The leader applies the entry of a `/limiter` request, and then its handler sets the limiter again.
Setting a limiter twice leaves the same limiter in place, but records it twice. So over any run of
such requests leader and follower have the same limiters, and the same lists exactly when no
request was accepted.
-/

namespace Cheryl.Server

open Library ReverseProxy RateLimit

/-! ## Limiters as a machine of their own

`/limiter` requests touch the limiters and their record, and for the question at hand a configuration is no
more than these two. Setting a limiter is one function on them: it overwrites one entry of `methods`, so
doing it twice is doing it once, and it appends to `limiters`, so doing it twice is not. -/

/-- The limiters in place for each pattern that is served, and those recorded. -/
@[ext] structure Rates where
  methods : String → Option (String → Option QpsRateLimiter)
  limiters : String → List LimiterInfo

def Config.rates (c : Config) : Rates := ⟨fun p => (c.services p).map (·.methods), c.limiters⟩

/-- Set a limiter and record it, if its type is supported. -/
def Rates.set (r : Rates) (info : LimiterInfo) : Rates :=
  if info.limiterType = "qps" then
    { methods := Function.update r.methods info.Prefix ((r.methods info.Prefix).map fun m =>
        Function.update m info.pathName (some info.described))
      limiters := Function.update r.limiters info.Prefix (r.limiters info.Prefix ++ [info]) }
  else r

/-- Each limiter twice. -/
def doubled (infos : List LimiterInfo) : List LimiterInfo := infos.flatMap fun info => [info, info]

section Rates

variable {r r' : Rates} {info : LimiterInfo} {p : String}

/-- On the limiters, the change of a configuration is `Rates.set`. -/
theorem rates_setLimiter (env : Env) (c : Config) (hqps : info.limiterType = "qps") :
    Config.rates ((Change.setLimiter info.Prefix info).apply env c) = (Config.rates c).set info := by
  rw [Rates.set, if_pos hqps]
  refine Rates.ext ?_ rfl
  funext q
  show ((c.modify info.Prefix _).services q).map _ = Function.update (Config.rates c).methods
    info.Prefix _ q
  by_cases hq : q = info.Prefix
  · subst hq
    simp only [Config.services_modify_self, Option.map_map, Function.update_self, Config.rates]
    rfl
  · rw [Config.services_modify_of_ne hq, Function.update_of_ne hq]
    rfl

/-- Which patterns are served stays as it is. -/
theorem isSome_methods_set (r : Rates) (info : LimiterInfo) (p : String) :
    ((r.set info).methods p).isSome = (r.methods p).isSome := by
  unfold Rates.set
  split
  · by_cases hp : p = info.Prefix
    · subst hp; simp
    · simp [hp]
  · rfl

theorem isSome_methods_foldl (infos : List LimiterInfo) (r : Rates) (p : String) :
    ((infos.foldl Rates.set r).methods p).isSome = (r.methods p).isSome := by
  induction infos generalizing r with
  | nil => rfl
  | cons info infos ih => rw [List.foldl_cons, ih, isSome_methods_set]

/-- What is in place after a limiter is set depends on what was in place, not on the record. -/
theorem methods_set_congr (h : r.methods = r'.methods) (info : LimiterInfo) :
    (r.set info).methods = (r'.set info).methods := by
  unfold Rates.set
  split
  · simp only [h]
  · exact h

/-- The second time nothing changes but the record. -/
theorem methods_set_set (r : Rates) (info : LimiterInfo) :
    ((r.set info).set info).methods = (r.set info).methods := by
  unfold Rates.set
  split
  · simp only [Function.update_self, Function.update_idem, Option.map_map]
    congr 2
    funext m
    simp
  · rfl

/-- Setting each limiter twice leaves the same ones in place as setting each once. -/
theorem methods_foldl_doubled (infos : List LimiterInfo) : ∀ {r r' : Rates},
    r.methods = r'.methods →
    ((doubled infos).foldl Rates.set r).methods = (infos.foldl Rates.set r').methods := by
  induction infos with
  | nil => exact fun h => h
  | cons info infos ih =>
      intro r r' h
      show ((doubled infos).foldl Rates.set ((r.set info).set info)).methods = _
      refine ih ?_
      rw [methods_set_set]
      exact methods_set_congr h info

/-- The limiters recorded for a pattern are those set for it, in order. -/
theorem limiters_foldl (infos : List LimiterInfo) (r : Rates) (p : String) :
    (infos.foldl Rates.set r).limiters p = r.limiters p ++
      infos.filter fun info => info.limiterType = "qps" ∧ info.Prefix = p := by
  -- each limiter goes to the end of the list of its own pattern
  induction infos generalizing r with
  | nil => simp
  | cons info infos ih =>
      rw [List.foldl_cons, ih]
      unfold Rates.set
      by_cases hqps : info.limiterType = "qps"
      · by_cases hp : p = info.Prefix
        · subst hp
          simp [hqps]
        · simp [hqps, hp, Ne.symm hp]
      · simp [hqps]

/-- Of everything that is doubled there is twice as much. -/
theorem length_filter_doubled (infos : List LimiterInfo) (P : LimiterInfo → Bool) :
    ((doubled infos).filter P).length = 2 * (infos.filter P).length := by
  induction infos with
  | nil => rfl
  | cons info infos ih =>
      show ((info :: info :: doubled infos).filter P).length = _
      by_cases hP : P info
      · simp only [List.filter_cons, hP, if_true, List.length_cons, ih]
        omega
      · simp only [List.filter_cons, hP]
        exact ih

/-- Setting each limiter twice is setting it once exactly when there is nothing to set. -/
theorem foldl_doubled_eq_iff (infos : List LimiterInfo) (r : Rates) :
    (doubled infos).foldl Rates.set r = infos.foldl Rates.set r ↔
      ∀ info ∈ infos, info.limiterType ≠ "qps" := by
  constructor
  · intro h info hmem hqps
    have hp := congrFun (congrArg Rates.limiters h) info.Prefix
    rw [limiters_foldl, limiters_foldl, List.append_cancel_left_eq] at hp
    -- the lists for its pattern differ in length already
    have hlen := congrArg List.length hp
    rw [length_filter_doubled] at hlen
    have hpos : 0 < (infos.filter fun i => i.limiterType = "qps" ∧ i.Prefix = info.Prefix).length :=
      List.length_pos_of_mem (List.mem_filter.mpr ⟨hmem, by simp [hqps]⟩)
    omega
  · intro h
    refine Rates.ext (methods_foldl_doubled infos rfl) (funext fun p => ?_)
    rw [limiters_foldl, limiters_foldl]
    congr 1
    have hnone : ∀ {l : List LimiterInfo}, (∀ info ∈ l, info.limiterType ≠ "qps") →
        (l.filter fun i => i.limiterType = "qps" ∧ i.Prefix = p) = [] := by
      intro l hl
      rw [List.filter_eq_nil_iff]
      intro info hmem
      simp [hl info hmem]
    rw [hnone h, hnone]
    intro info hmem
    simp only [doubled, List.mem_flatMap, List.mem_cons, List.not_mem_nil, or_false, or_self] at hmem
    obtain ⟨info', hmem, rfl⟩ := hmem
    exact h info hmem

end Rates

/-! ## The leader and the follower

`FSM.Apply` runs on the leader before `writeLogEntry` returns, and sets the limiter; then the handler sets
it on the proxy it looked up before. The follower only has the entry. So the two replay the list of accepted
limiters, the leader with each one doubled, and what is proved above about doubled lists decides the rest.
-/

def limiterEntry {δ : Type} (enc : Encoding δ) (info : LimiterInfo) : LogEntry δ :=
  ⟨2, enc.limiterInfo.marshal info⟩

section Limited

variable {δ : Type} {env : Env} {enc : Encoding δ} {n : Node} {info : LimiterInfo} {received : Bool}

/-- A node that has applied the entry has set the limiter. -/
theorem rates_applied {n' : Node} (A : FSM.Applied env enc n (limiterEntry enc info) received n')
    (hserved : ((Config.rates n.config).methods info.Prefix).isSome) :
    Config.rates n'.config = (Config.rates n.config).set info := by
  have hsome : (n.config.services info.Prefix).isSome := by simpa [Config.rates] using hserved
  rw [A.config]
  simp only [FSM.asked, limiterEntry, enc.limiterInfo.unmarshal_marshal, hsome]
  by_cases hqps : info.limiterType = "qps"
  · simp only [hqps]
    exact rates_setLimiter env n.config hqps
  · simp only [hqps, and_false, if_false]
    rw [Rates.set, if_neg hqps]
    rfl

/-- Applying the entry leaves every pattern with its proxy. -/
theorem relations_applied {h h₁ : HttpServer δ} (R : Ready h.state)
    (heq : h.writeLogEntry env enc 2 (enc.limiterInfo.marshal info) (.committed received) =
      (.ok none, h₁)) : h₁.state.current.relations = h.state.current.relations := by
  have hsame : ∀ {ret n'}, FSM.doSetRateLimiter enc h.state (enc.limiterInfo.marshal info) =
      (.ok ret, n') → n'.current.relations = h.state.current.relations := by
    intro ret n' h
    simp only [FSM.doSetRateLimiter, enc.limiterInfo.unmarshal_marshal] at h
    split at h
    · cases h
      rfl
    · next a hp =>
        cases hbuild : RateLimit.build info.limiterType with
        | error err =>
            rw [setRateLimiter_error hbuild] at h
            cases h
            rfl
        | ok limiter =>
            obtain ⟨n₁, hset, hrec⟩ := setRateLimiter_spec R.linked hp hbuild
            rw [hset] at h
            cases h
            exact hrec.relations
  simp only [HttpServer.writeLogEntry] at heq
  rcases happly : FSM.apply env enc h.state ⟨2, enc.limiterInfo.marshal info⟩ received with
    ⟨fault | ret, n⟩ <;> rw [happly] at heq <;> cases heq
  exact hsame happly

/-- A `/limiter` request on a leader: it is turned away, or its entry is committed and the limiter
set twice. -/
theorem doSetRateLimiter_rates {h h' : HttpServer δ} {ending : Ending Reply}
    {body : Except GoError LimiterInfo} (R : Ready h.state) (hflag : h.enableWrite = true)
    (heq : h.doSetRateLimiter env enc body (.committed received) = (ending, h'))
    (up : ∀ fault, ending ≠ .down fault) :
    (Unchanged h h' ∧ ∀ info, body = .ok info →
      (Config.rates h.state.config).methods info.Prefix = none) ∨
    ∃ info, body = .ok info ∧ ((Config.rates h.state.config).methods info.Prefix).isSome ∧
      Ready h'.state ∧ h'.committed = h.committed ++ [limiterEntry enc info] ∧
      Config.rates h'.state.config = ((Config.rates h.state.config).set info).set info := by
  -- the leader may write
  have hcheck : ¬ h.checkWritePermission = false := by
    show ¬ h.enableWrite = false
    rw [hflag]
    decide
  unfold HttpServer.doSetRateLimiter at heq
  rw [if_neg hcheck] at heq
  cases body with
  | error err =>
      cases heq
      exact .inl ⟨⟨rfl, rfl⟩, fun info hinfo => by cases hinfo⟩
  | ok info =>
      cases hp : h.state.current.relations.lookup info.Prefix with
      | none =>
          simp only [hp] at heq
          cases heq
          refine .inl ⟨⟨rfl, rfl⟩, fun info' hinfo => ?_⟩
          cases hinfo
          simp [Config.rates, Node.services_eq_none.mpr hp]
      | some a =>
          have hserved : ((Config.rates h.state.config).methods info.Prefix).isSome := by
            simp [Config.rates, Node.services_of_lookup hp]
          rcases hwrite : h.writeLogEntry env enc 2 (enc.limiterInfo.marshal info)
            (.committed received) with ⟨out, h₁⟩
          simp only [hp, hwrite] at heq
          have hup : ∀ fault, out ≠ .error fault := by
            rintro fault rfl
            cases heq
            exact absurd rfl (up fault)
          obtain ⟨rfl, happlied, hcommitted⟩ := writeLogEntry_committed R hwrite hup
          have hrates := rates_applied happlied hserved
          -- the proxy found before is still the proxy of the pattern
          have hp₁ : h₁.state.current.relations.lookup info.Prefix = some a := by
            rw [relations_applied R hwrite, hp]
          rcases hset : h₁.state.setRateLimiter a info with ⟨out, n⟩
          simp only [hset] at heq
          refine .inr ⟨info, rfl, hserved, ?_⟩
          rcases happlied.ready.setRateLimiter env hp₁ hset with
            ⟨hqps, rfl, err, rfl⟩ | ⟨hqps, rfl, hchanged⟩
          · cases heq
            refine ⟨happlied.ready, hcommitted, ?_⟩
            show Config.rates h₁.state.config = _
            rw [hrates, Rates.set, Rates.set, if_neg hqps, if_neg hqps]
          · cases heq
            refine ⟨hchanged.ready, hcommitted, ?_⟩
            show Config.rates n.config = _
            rw [hchanged.config, rates_setLimiter _ _ hqps, hrates]

end Limited

namespace Cluster

variable {δ : Type} {env : Env} {enc : Encoding δ} {base : Rates} {infos : List LimiterInfo}
  {c c' : Cluster δ} {a : Action}

def LimiterStep (env : Env) (enc : Encoding δ) (c : Cluster δ) (a : Action) (c' : Cluster δ) : Prop :=
  Step env enc c a c' ∧ ∀ o req, a = .request o req → ∃ body, req = .limiter body

/-- The same lists, and for each path of each pattern the same limiter. -/
def RatesAgree (c : Cluster δ) : Prop :=
  Config.rates c.leader.state.config = Config.rates c.follower.config

/-- The log is that of `infos`. The leader has set each of them twice, the follower each of those
delivered once. -/
structure LimiterInv (enc : Encoding δ) (base : Rates) (infos : List LimiterInfo) (c : Cluster δ) :
    Prop where
  flag : c.leader.enableWrite = true
  leaderReady : Ready c.leader.state
  followerReady : Ready c.follower
  log : c.leader.committed = infos.map (limiterEntry enc)
  applied_le : c.applied ≤ infos.length
  served : ∀ info ∈ infos, (base.methods info.Prefix).isSome
  leader : Config.rates c.leader.state.config = (doubled infos).foldl Rates.set base
  follower : Config.rates c.follower.config = (infos.take c.applied).foldl Rates.set base

theorem doubled_snoc (infos : List LimiterInfo) (info : LimiterInfo) :
    doubled (infos ++ [info]) = doubled infos ++ [info, info] := by
  simp [doubled]

/-! ### Requests and deliveries

Each request that is accepted makes the list of limiters one longer, and each delivery brings the follower
one on. -/

/-- A request either leaves the invariant as it is, and then its pattern is not served, or it adds
its limiter to the log. -/
theorem LimiterInv.request (I : LimiterInv enc base infos c) {o : Outside}
    {body : Except GoError LimiterInfo} (hstep : Step env enc c (.request o (.limiter body)) c') :
    (LimiterInv enc base infos c' ∧ ∀ info, body = .ok info → base.methods info.Prefix = none) ∨
    ∃ info, body = .ok info ∧ (base.methods info.Prefix).isSome ∧
      LimiterInv enc base (infos ++ [info]) c' := by
  cases hstep with
  | request commits h up =>
      next ending leader =>
        obtain ⟨received, hraft⟩ := commits
        have hsame := HttpServer.enableWrite_handle env enc c.leader o (.limiter body)
        rw [h, I.flag] at hsame
        have hserved : ∀ p, ((Config.rates c.leader.state.config).methods p).isSome =
            (base.methods p).isSome := by
          intro p
          rw [I.leader, isSome_methods_foldl]
        simp only [HttpServer.handle, hraft] at h
        rcases doSetRateLimiter_rates I.leaderReady I.flag h up with
          ⟨hu, hnone⟩ | ⟨info, hbody, hsome, hready, hcommitted, hrates⟩
        -- turned away: leader and log are as they were
        · refine .inl ⟨⟨hsame, ?_, I.followerReady, ?_, I.applied_le, I.served, ?_, I.follower⟩, ?_⟩
          · show Ready leader.state
            rw [hu.state]
            exact I.leaderReady
          · show leader.committed = _
            rw [hu.committed]
            exact I.log
          · show Config.rates leader.state.config = _
            rw [hu.state]
            exact I.leader
          · intro info hinfo
            rw [← Option.not_isSome_iff_eq_none, ← hserved, hnone info hinfo]
            simp
        · have hbase : (base.methods info.Prefix).isSome := by rw [← hserved]; exact hsome
          -- accepted: one more entry, and the follower is one more behind
          refine .inr ⟨info, hbody, hbase, ⟨hsame, hready, I.followerReady, ?_, ?_, ?_, ?_, ?_⟩⟩
          · show leader.committed = _
            rw [hcommitted, I.log, List.map_append]
            rfl
          · rw [List.length_append]
            exact Nat.le_add_right_of_le I.applied_le
          · intro info' hmem
            rcases List.mem_append.mp hmem with hmem | hmem
            · exact I.served info' hmem
            · rw [List.mem_singleton.mp hmem]
              exact hbase
          · show Config.rates leader.state.config = _
            rw [hrates, I.leader, doubled_snoc, List.foldl_append]
            rfl
          · show Config.rates c.follower.config = _
            rw [List.take_append_of_le_length I.applied_le]
            exact I.follower

/-- The follower sets the limiter of its next entry. -/
theorem LimiterInv.deliver (I : LimiterInv enc base infos c) {received : Bool}
    (hstep : Step env enc c (.deliver received) c') : LimiterInv enc base infos c' := by
  cases hstep with
  | deliver next h =>
      next entry ret n =>
        have A := FSM.apply_spec I.followerReady h
        rw [I.log, List.getElem?_map] at next
        obtain ⟨info, hinfo, rfl⟩ := Option.map_eq_some_iff.mp next
        have hlt : c.applied < infos.length := (List.getElem?_eq_some_iff.mp hinfo).1
        refine ⟨I.flag, I.leaderReady, A.ready, I.log, hlt, I.served, I.leader, ?_⟩
        have htake : infos.take (c.applied + 1) = infos.take c.applied ++ [info] := by
          rw [List.take_add_one, hinfo]
          rfl
        have hserved : ((Config.rates c.follower.config).methods info.Prefix).isSome := by
          rw [I.follower, isSome_methods_foldl]
          exact I.served info (List.mem_of_getElem? hinfo)
        calc Config.rates n.config
            = (Config.rates c.follower.config).set info := rates_applied A hserved
          _ = ((infos.take c.applied).foldl Rates.set base).set info := by rw [I.follower]
          _ = (infos.take (c.applied + 1)).foldl Rates.set base := by
              rw [htake, List.foldl_append]
              rfl

/-! ### Runs of `/limiter` requests

Which limiters are in the log is said in terms of the requests of the run: all that were for a pattern that
is served, whether their type is supported or not. -/

/-- The limiters in the log are those of the requests for a pattern that is served. -/
def LimiterHistory (enc : Encoding δ) (base : Rates) (as : List Action) (c : Cluster δ) : Prop :=
  ∃ infos, LimiterInv enc base infos c ∧ ∀ info, (base.methods info.Prefix).isSome →
    (info ∈ infos ↔ ∃ o, Action.request o (.limiter (.ok info)) ∈ as)

/-- A step keeps both: what is in the log was asked for, and what was asked for with success is in the log.
-/
theorem LimiterHistory.step {as : List Action} (H : LimiterHistory enc base as c)
    (hstep : LimiterStep env enc c a c') : LimiterHistory enc base (as ++ [a]) c' := by
  obtain ⟨infos, I, hlog⟩ := H
  obtain ⟨hstep, honly⟩ := hstep
  cases a with
  | deliver received =>
      refine ⟨infos, I.deliver hstep, fun info hserved => ?_⟩
      simpa using hlog info hserved
  | request o req =>
      obtain ⟨body, rfl⟩ := honly o req rfl
      rcases I.request hstep with ⟨I', hnone⟩ | ⟨info, rfl, hserved, I'⟩
      · refine ⟨infos, I', fun info hserved => ?_⟩
        rw [hlog info hserved]
        refine exists_congr fun o' => ?_
        rw [List.mem_append, List.mem_singleton]
        refine ⟨.inl, fun h => h.resolve_right fun heq => ?_⟩
        cases heq
        rw [hnone info rfl] at hserved
        cases hserved
      · refine ⟨infos ++ [info], I', fun info' hserved' => ?_⟩
        rw [List.mem_append, List.mem_singleton, hlog info' hserved']
        constructor
        · rintro (⟨o', h⟩ | rfl)
          · exact ⟨o', List.mem_append_left _ h⟩
          · exact ⟨o, List.mem_append_right _ (List.mem_singleton.mpr rfl)⟩
        · rintro ⟨o', h⟩
          rcases List.mem_append.mp h with h | h
          · exact .inl ⟨o', h⟩
          · cases List.mem_singleton.mp h
            exact .inr rfl

/-- From nodes with the same limiters, in every run of `/limiter` requests: once the follower has
applied every entry, the nodes have the same lists and the same limiters in place, exactly when every
request was for a pattern that is not served or of a type that is not supported. -/
theorem limiter_replicas_agree_iff {leader follower : Node} (hleader : Reachable env enc leader)
    (hfollower : Reachable env enc follower)
    (heq : Config.rates leader.config = Config.rates follower.config) {as : List Action}
    (hrun : Trace (LimiterStep env enc) (start leader follower) as c) (hquiet : c.Quiet) :
    c.RatesAgree ↔ ∀ o info, Action.request o (.limiter (.ok info)) ∈ as →
      leader.config.services info.Prefix = none ∨ info.limiterType ≠ "qps" := by
  have hinit : LimiterHistory enc (Config.rates follower.config) [] (start leader follower : Cluster δ) :=
    ⟨[], ⟨rfl, hleader.sane.toReady, hfollower.sane.toReady, rfl, Nat.le_refl _,
      fun _ h => by simp at h, heq, rfl⟩, fun info _ => by simp⟩
  obtain ⟨infos, I, hlog⟩ := hrun.history hinit fun H hstep => H.step hstep
  have hserved : ∀ info : LimiterInfo, leader.config.services info.Prefix = none ↔
      ¬ ((Config.rates follower.config).methods info.Prefix).isSome := by
    intro info
    rw [← heq]
    simp [Config.rates]
  -- the follower has applied the whole log, so it has set every limiter once
  have hfollow := I.follower
  rw [hquiet, I.log, List.length_map, List.take_length] at hfollow
  unfold RatesAgree
  rw [I.leader, hfollow, foldl_doubled_eq_iff]
  constructor
  · intro h o info hmem
    by_cases hs : ((Config.rates follower.config).methods info.Prefix).isSome
    · exact .inr (h info ((hlog info hs).mpr ⟨o, hmem⟩))
    · exact .inl ((hserved info).mpr hs)
  · intro h info hmem
    have hs := I.served info hmem
    obtain ⟨o, hin⟩ := (hlog info hs).mp hmem
    exact (h o info hin).resolve_left fun hnone => (hserved info).mp hnone hs

/-- The limiter `/api/x` of a type that is not supported. -/
def unsupportedLimiter : LimiterInfo := ⟨"/api", "/x", "concurrency", 10, 5, 0, 0⟩

def apiLimiter : LimiterInfo := ⟨"/api", "/x", "qps", 10, 5, 0, 0⟩

/-- A limiter of a type that is not supported goes through the log without effect. -/
theorem limiter_replicas_agree_iff_unsupported : ∃ as c,
    Trace (LimiterStep Env.plain Payload.encoding) (start Node.api Node.api) as c ∧
    as.length = 2 ∧ c.leader.committed.length = 1 ∧ c.RatesAgree := by
  have hrun : Trace (LimiterStep Env.plain Payload.encoding) (start Node.api Node.api) []
    (start Node.api Node.api) := .nil
  have hrun := hrun.snoc (e := Action.request Member.commits (.limiter (.ok unsupportedLimiter)))
    ⟨.request ⟨false, rfl⟩ (show _ = (Ending.returned (.error _), _) from rfl) (by simp),
      fun o req h => by cases h; exact ⟨_, rfl⟩⟩
  have hrun := hrun.snoc (e := Action.deliver false) ⟨.deliver rfl rfl, fun o req h => by cases h⟩
  refine ⟨_, _, hrun, rfl, rfl, (limiter_replicas_agree_iff reachable_api reachable_api rfl hrun
    rfl).mpr fun o info hmem => .inr ?_⟩
  simp only [List.nil_append, List.cons_append, List.mem_cons, List.not_mem_nil, or_false,
    Action.request.injEq, AdminRequest.limiter.injEq, Except.ok.injEq, reduceCtorEq] at hmem
  rw [hmem.2]
  decide

/-- A limiter that is set is recorded twice on the leader. -/
theorem not_limiter_replicas_agree : ¬ ∀ (leader follower : Node) (as : List Action)
    (c : Cluster Payload), Reachable Env.plain Payload.encoding leader →
    Reachable Env.plain Payload.encoding follower →
    Config.rates leader.config = Config.rates follower.config →
    Trace (LimiterStep Env.plain Payload.encoding) (start leader follower) as c → c.Quiet →
    c.RatesAgree := by
  intro h
  have hrun : Trace (LimiterStep Env.plain Payload.encoding) (start Node.api Node.api) []
    (start Node.api Node.api) := .nil
  have hrun := hrun.snoc (e := Action.request Member.commits (.limiter (.ok apiLimiter)))
    ⟨.request ⟨false, rfl⟩ (show _ = (Ending.returned .ok, _) from rfl) (by simp),
      fun o req h => by cases h; exact ⟨_, rfl⟩⟩
  have hrun := hrun.snoc (e := Action.deliver false) ⟨.deliver rfl rfl, fun o req h => by cases h⟩
  have hagree := h _ _ _ _ reachable_api reachable_api rfl hrun rfl
  have hlength := congrArg (fun r => (r.limiters "/api").length) hagree
  revert hlength
  decide

end Cluster

end Cheryl.Server
