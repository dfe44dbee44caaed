import Cheryl.Library.Trace
import Cheryl.ReverseProxy.Requests

/-!
# The limiter that `SetRateLimiter` makes

`SetRateLimiter` makes a limiter of the numbers in a `LimiterInfo`, and `invaildToken` asks it until
the next change. A `Duration` counts milliseconds and is stored in nanoseconds; `GetTimeout` gives
milliseconds back, and they are then taken for nanoseconds (`waitsAsConfigured_iff`). A `Speed` becomes
the time between two tokens, in whole nanoseconds, so a limiter cannot have every speed
(`ratedAsConfigured_iff`).
-/

namespace Cheryl.ReverseProxy

open Library RateLimit

/-! ## Asking a limiter

Which of its two calls `invaildToken` makes depends on what `GetTimeout` gives back. The answer itself is a
matter of the `rate.Limiter`, so it is a parameter here: whatever it says, these are the questions it is
asked. -/

def tokenCall (limiter : QpsRateLimiter) : TokenCall :=
  if limiter.getTimeout = 0 then .take else .takeWithTimeout limiter.getTimeout

namespace Node

/-- `invaildToken` on the proxy at `a`, where the `rate.Limiter` behind a limiter gives the answers. -/
def askToken (answer : QpsRateLimiter → TokenCall → Bool) (n : Node) (a : Nat) (api : String) :
    Outcome × Node :=
  match (n.proxies a).methods.lookup api with
  | none => n.configRate a api
  | some limiter =>
      (.ok (if answer limiter (tokenCall limiter) then none else some noReaminTokenError), n)

variable {n n' : Node} {a b : Nat} {path api : String} {info : LimiterInfo}

/-- Without a limiter nobody is asked. -/
theorem askToken_of_lookup_none {answer : QpsRateLimiter → TokenCall → Bool}
    (h : (n.proxies a).methods.lookup api = none) (token : Bool) :
    n.askToken answer a api = n.invaildToken a api token := by
  rw [askToken, h, invaildToken, if_neg (Finmap.lookup_eq_none.mp h)]

/-- With one, the answer decides. -/
theorem askToken_of_lookup_some {answer : QpsRateLimiter → TokenCall → Bool}
    {limiter : QpsRateLimiter} (h : (n.proxies a).methods.lookup api = some limiter) :
    n.askToken answer a api = n.invaildToken a api (answer limiter (tokenCall limiter)) := by
  rw [askToken, h, invaildToken, if_pos (Finmap.mem_of_lookup_eq_some h)]

/-! ## What is kept until the next change

Nothing but `SetRateLimiter` replaces the limiter of a path. So what it has put there is what later requests
ask, however many have come since. -/

/-- Recording writes into the proxy map, not into a proxy. -/
theorem proxies_recordLimiter : (n.recordLimiter a info).2.proxies = n.proxies := by
  unfold recordLimiter
  split <;> rfl

/-- A request for a token leaves the limiters that are there alone. -/
theorem lookup_invaildToken (h : path ∈ (n.proxies a).methods) (token : Bool) :
    ((n.invaildToken b api token).2.proxies a).methods.lookup path =
      (n.proxies a).methods.lookup path := by
  unfold invaildToken configRate
  split
  · rfl
  · next hapi =>
      rw [proxies_recordLimiter]
      by_cases hab : a = b
      · subst hab
        have hne : path ≠ api := by
          rintro rfl
          exact hapi h
        rw [proxies_modifyProxy_self, Finmap.lookup_insert_of_ne _ hne]
      · rw [proxies_modifyProxy_of_ne _ hab]

/-- So does serving a request. -/
theorem lookup_serveHTTP (h : path ∈ (n.proxies a).methods) (req : Request) :
    ((n.serveHTTP req).2.proxies a).methods.lookup path = (n.proxies a).methods.lookup path := by
  by_cases hr : ∃ b realpath, n.Routes req b realpath
  · obtain ⟨b, realpath, hacl, hfiltered, hosts, hrouter, hroute⟩ := hr
    have hkept : ((n.invaildToken b realpath req.token).2.proxies a).methods.lookup path =
        (n.proxies a).methods.lookup path := lookup_invaildToken h req.token
    rcases htoken : n.invaildToken b realpath req.token with ⟨out, n₁⟩
    rw [htoken] at hkept
    unfold serveHTTP
    simp only [hacl, hfiltered, hrouter, hroute, htoken]
    -- the answer of the balancer is assigned to another field
    have hbalanced : ∀ lb, (((n₁.modifyProxy b fun h => { h with lb := lb }).proxies a).methods) =
        (n₁.proxies a).methods := by
      intro lb
      by_cases hab : a = b
      · subst hab
        rw [proxies_modifyProxy_self]
      · rw [proxies_modifyProxy_of_ne _ hab]
    cases out with
    | error fault => exact hkept
    | ok err =>
        cases err with
        | some err => exact hkept
        | none =>
            simp only
            split
            · rw [hbalanced]
              exact hkept
            · split
              · rw [hbalanced]
                exact hkept
              · rw [hbalanced]
                exact hkept
  · rw [serveHTTP_of_not_routes fun b realpath hb => hr ⟨b, realpath, hb⟩]

/-- And so does serving any number of them. -/
theorem lookup_served {reqs : List Request}
    (hrun : Trace (fun n req n' => (n.serveHTTP req).2 = n') n reqs n')
    (h : path ∈ (n.proxies a).methods) :
    (n'.proxies a).methods.lookup path = (n.proxies a).methods.lookup path := by
  refine hrun.invariant (I := fun n' => (n'.proxies a).methods.lookup path =
    (n.proxies a).methods.lookup path) rfl ?_
  rintro n₁ req n₂ hkept rfl
  rw [lookup_serveHTTP _ req, hkept]
  rw [← Finmap.lookup_isSome, hkept, Finmap.lookup_isSome]
  exact h

/-- `SetRateLimiter`, when it succeeds, has put the limiter there. -/
theorem lookup_setRateLimiter (hset : n.setRateLimiter a info = (.ok none, n')) :
    (n'.proxies a).methods.lookup info.pathName = some (info.limiter newQpsRateLimiter) := by
  unfold setRateLimiter at hset
  split at hset
  · cases hset
  · next limiter hbuild =>
      obtain ⟨-, rfl⟩ := build_eq_ok.mp hbuild
      have hproxies := congrArg (fun res => (res.2.proxies a).methods) hset
      simp only [proxies_recordLimiter, proxies_modifyProxy_self] at hproxies
      rw [← hproxies, Finmap.lookup_insert]

/-- And that is the only limiter the path has then. -/
theorem eq_of_lookup_setRateLimiter (hset : n.setRateLimiter a info = (.ok none, n'))
    {limiter : QpsRateLimiter} (h : (n'.proxies a).methods.lookup info.pathName = some limiter) :
    limiter = info.limiter newQpsRateLimiter :=
  Option.some.inj (h.symm.trans (lookup_setRateLimiter hset))

end Node

/-! ## Timeouts

`Duration` milliseconds are stored as so many nanoseconds, which is right. `GetTimeout` divides by a million
and returns the quotient as a `time.Duration`, so the number is that of the milliseconds and its unit is the
nanosecond. -/

def milliseconds (d : Int) : Int := d * 1000000

/-- The path has a limiter that waits as the `LimiterInfo` says: not at all if there is no `Duration`,
and else for so many milliseconds, which is the timeout stored and read back. -/
structure WaitsAsConfigured (n : Node) (a : Nat) (info : LimiterInfo) (limiter : QpsRateLimiter) :
    Prop where
  present : (n.proxies a).methods.lookup info.pathName = some limiter
  stored : 0 < info.duration → limiter.timeout = milliseconds info.duration
  readBack : 0 < info.duration → limiter.getTimeout = milliseconds info.duration
  asked : ∀ answer, n.askToken answer a info.pathName =
    (.ok (if answer limiter
        (if info.duration = 0 then .take else .takeWithTimeout (milliseconds info.duration))
      then none else some noReaminTokenError), n)

section Timeout

variable {n n' later : Node} {a : Nat} {info : LimiterInfo}

/-- What is stored, if it fits: the milliseconds, or the sentinel of a new limiter. -/
theorem LimiterInfo.timeout_limiter (h0 : 0 ≤ info.duration)
    (hfits : milliseconds info.duration < 2 ^ 63) : (info.limiter newQpsRateLimiter).timeout =
      if info.duration = 0 then -1 else milliseconds info.duration := by
  have hwrap : wrap64 (info.duration * 1000000) = milliseconds info.duration := by
    rw [milliseconds] at hfits ⊢
    rw [wrap64, BitVec.toInt_ofInt, Int.bmod_eq_of_le (by omega) (by omega)]
  unfold LimiterInfo.limiter
  by_cases hd : info.duration = 0
  · rw [if_neg (not_not.mpr hd), if_pos hd]
    split <;> rfl
  · rw [if_pos hd, if_neg hd, hwrap]
    rfl

/-- What is read back is the number of milliseconds. -/
theorem LimiterInfo.getTimeout_limiter (h0 : 0 ≤ info.duration)
    (hfits : milliseconds info.duration < 2 ^ 63) :
    (info.limiter newQpsRateLimiter).getTimeout = info.duration := by
  rw [QpsRateLimiter.getTimeout, LimiterInfo.timeout_limiter h0 hfits]
  split
  · next hd => rw [hd]; rfl
  · exact Int.mul_tdiv_cancel _ (by decide)

/-- As long as the limiter that `SetRateLimiter` made is there, it waits as configured if and only if
no `Duration` was given. -/
theorem waitsAsConfigured_iff (h0 : 0 ≤ info.duration)
    (hfits : milliseconds info.duration < 2 ^ 63) (hset : n.setRateLimiter a info = (.ok none, n'))
    (hkept : (later.proxies a).methods.lookup info.pathName =
      (n'.proxies a).methods.lookup info.pathName) :
    (∃ limiter, WaitsAsConfigured later a info limiter) ↔ info.duration = 0 := by
  have hread := LimiterInfo.getTimeout_limiter h0 hfits
  constructor
  · rintro ⟨limiter, W⟩
    obtain rfl := Node.eq_of_lookup_setRateLimiter hset (hkept.symm.trans W.present)
    by_contra hd
    have hback := W.readBack (by omega)
    rw [hread, milliseconds] at hback
    omega
  · intro hd
    have hlookup := hkept.trans (Node.lookup_setRateLimiter hset)
    refine ⟨_, hlookup, fun hpos => by omega, fun hpos => by omega, fun answer => ?_⟩
    rw [Node.askToken, hlookup, if_pos hd]
    simp only [tokenCall, hread, if_pos hd]

end Timeout

def oneProxy : Node :=
  (Node.new.addProxyWithLocation Env.plain ⟨"/api", ["http://a:80"], "round-robin"⟩).2

/-- A limiter for `/x`, with ten tokens, so many in a second, and a timeout. -/
def limiterFor (speed duration : Int) : LimiterInfo := ⟨"/api", "/x", "qps", 10, speed, 0, duration⟩

/-- Without a `Duration` it is as configured. -/
theorem waitsAsConfigured_iff_none : ∃ limiter, WaitsAsConfigured
    (oneProxy.setRateLimiter 0 (limiterFor 5 0)).2 0 (limiterFor 5 0) limiter :=
  (waitsAsConfigured_iff (n := oneProxy) (by decide) (by decide) rfl rfl).mpr rfl

/-- Half a second becomes half a microsecond. -/
theorem not_waitsAsConfigured : ¬ ∀ (n n' later : Node) (a : Nat) (info : LimiterInfo),
    0 ≤ info.duration → milliseconds info.duration < 2 ^ 63 →
    n.setRateLimiter a info = (.ok none, n') →
    (later.proxies a).methods.lookup info.pathName =
      (n'.proxies a).methods.lookup info.pathName →
    ∃ limiter, WaitsAsConfigured later a info limiter := by
  intro h
  obtain ⟨limiter, W⟩ := h oneProxy _ _ 0 (limiterFor 5 500) (by decide) (by decide) rfl rfl
  obtain rfl := Node.eq_of_lookup_setRateLimiter (n := oneProxy) rfl W.present
  exact absurd (W.readBack (by decide)) (by decide)

/-! ## Speeds

`Speed` tokens a second become one token in `second / Speed` nanoseconds, and reading the speed back divides
once more. The speeds that survive are the quotients of a second by a whole number of nanoseconds; a
quotient of zero makes the limiter unlimited. -/

/-- The path has a limiter with the volume and the speed of the `LimiterInfo`. -/
structure RatedAsConfigured (n : Node) (a : Nat) (info : LimiterInfo) (inf : Int)
    (limiter : QpsRateLimiter) : Prop where
  present : (n.proxies a).methods.lookup info.pathName = some limiter
  limited : limiter.limit ≠ .inf
  volumn : limiter.getVolumn = info.volumn
  speed : limiter.getSpeed inf = info.speed

section Speed

variable {n n' : Node} {a : Nat} {info : LimiterInfo}

theorem ediv_ediv_ediv {k d : Int} (hd : 0 < d) (hq : 0 < k / d) : k / (k / (k / d)) = k / d := by
  have hle : k / d * d ≤ k := Int.ediv_mul_le k hd.ne'
  have hde : d ≤ k / (k / d) := (Int.le_ediv_iff_mul_le hq).mpr (by rwa [mul_comm])
  have he : 0 < k / (k / d) := by omega
  apply le_antisymm
  · have hlt : k < (k / d + 1) * d := Int.lt_ediv_add_one_mul_self k hd
    have hbound : k < (k / d + 1) * (k / (k / d)) :=
      calc k < (k / d + 1) * d := hlt
        _ ≤ (k / d + 1) * (k / (k / d)) := Int.mul_le_mul_of_nonneg_left hde (by omega)
    have := Int.ediv_lt_of_lt_mul he hbound
    omega
  · rw [Int.le_ediv_iff_mul_le he, mul_comm]
    exact Int.ediv_mul_le k hq.ne'

/-- What the limiter is, for a positive speed. -/
theorem LimiterInfo.limit_limiter (hpos : 0 < info.speed) :
    (info.limiter newQpsRateLimiter).limit = .ofInterval (1000000000 / info.speed) ∧
      (info.limiter newQpsRateLimiter).burst = info.volumn := by
  have hdiv : Int.tdiv 1000000000 info.speed = 1000000000 / info.speed :=
    Int.tdiv_eq_ediv_of_nonneg (by decide)
  rw [← hdiv]
  unfold LimiterInfo.limiter
  rw [if_pos hpos.ne']
  split <;> exact ⟨rfl, rfl⟩

/-- The limiter that `SetRateLimiter` made for a positive speed is as configured if and only if the
speed is a second divided by a whole number of nanoseconds, rounded down. -/
theorem ratedAsConfigured_iff (hpos : 0 < info.speed)
    (hset : n.setRateLimiter a info = (.ok none, n')) (inf : Int) :
    (∃ limiter, RatedAsConfigured n' a info inf limiter) ↔
      ∃ d : Int, 0 < d ∧ info.speed = 1000000000 / d := by
  obtain ⟨hlimit, hburst⟩ := LimiterInfo.limit_limiter hpos
  by_cases hq : 0 < 1000000000 / info.speed
  · have hevery : (info.limiter newQpsRateLimiter).limit = .every (1000000000 / info.speed) := by
      rw [hlimit, Limit.ofInterval, if_neg (by omega)]
    have hspeed : (info.limiter newQpsRateLimiter).getSpeed inf =
        1000000000 / (1000000000 / info.speed) := by
      simp only [QpsRateLimiter.getSpeed, hevery]
      exact Int.tdiv_eq_ediv_of_nonneg (by decide)
    constructor
    · rintro ⟨limiter, R⟩
      obtain rfl := Node.eq_of_lookup_setRateLimiter hset R.present
      exact ⟨_, hq, R.speed.symm.trans hspeed⟩
    · rintro ⟨d, hd, hs⟩
      refine ⟨_, Node.lookup_setRateLimiter hset, by rw [hevery]; exact Limit.noConfusion, hburst, ?_⟩
      rw [hspeed, hs]
      exact ediv_ediv_ediv hd (hs ▸ hpos)
  · -- less than a nanosecond between two tokens is no time at all
    have hinf : (info.limiter newQpsRateLimiter).limit = .inf := by
      rw [hlimit, Limit.ofInterval, if_pos (by omega)]
    constructor
    · rintro ⟨limiter, R⟩
      obtain rfl := Node.eq_of_lookup_setRateLimiter hset R.present
      exact absurd hinf R.limited
    · rintro ⟨d, hd, hs⟩
      -- a speed that is such a quotient is at most a thousand million, so the interval is not zero
      refine absurd ?_ hq
      have hle : info.speed ≤ 1000000000 :=
        calc info.speed = info.speed * 1 := (Int.mul_one _).symm
          _ ≤ info.speed * d := Int.mul_le_mul_of_nonneg_left hd (by omega)
          _ = 1000000000 / d * d := by rw [← hs]
          _ ≤ 1000000000 := Int.ediv_mul_le _ hd.ne'
      exact (Int.le_ediv_iff_mul_le hpos).mpr (by omega)

end Speed

/-- Five tokens a second are one in every 200 milliseconds. -/
theorem ratedAsConfigured_iff_five : ∃ limiter, RatedAsConfigured
    (oneProxy.setRateLimiter 0 (limiterFor 5 0)).2 0 (limiterFor 5 0) 0 limiter :=
  (ratedAsConfigured_iff (n := oneProxy) (by decide) rfl 0).mpr ⟨200000000, by decide, by decide⟩

/-- There is no limiter of 100001 tokens a second: 9999 nanoseconds make 100010. -/
theorem not_ratedAsConfigured : ¬ ∀ (n n' : Node) (a : Nat) (info : LimiterInfo) (inf : Int),
    0 < info.speed → info.speed < 2 ^ 63 → n.setRateLimiter a info = (.ok none, n') →
    ∃ limiter, RatedAsConfigured n' a info inf limiter := by
  intro h
  obtain ⟨limiter, R⟩ := h oneProxy _ 0 (limiterFor 100001 0) 0 (by decide) (by decide) rfl
  obtain rfl := Node.eq_of_lookup_setRateLimiter (n := oneProxy) rfl R.present
  exact absurd R.speed (by decide)

end Cheryl.ReverseProxy
