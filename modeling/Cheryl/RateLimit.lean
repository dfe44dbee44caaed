import Cheryl.Go

/-!
# `rate_limit/`: the limiters

There is one registered type, `qps`. A limiter is its configuration; how many tokens it has left is
a matter of time and left out, so `Take` and `TakeWithTimeout` appear as an answer given from
outside where they are called.
-/

namespace Cheryl.RateLimit

def limiterAlreadyExists : GoError := ⟨"limiter already exists"⟩

def limiterTypeNotSupportedError : GoError := ⟨"limiter type not supported"⟩

def noReaminTokenError : GoError := ⟨"The token has been used up"⟩

/-! ## `rate.Limiter`

Of `golang.org/x/time/rate` the configuration is kept: the limit, which is a number of nanoseconds for one
token, and the burst, which is how many tokens the bucket holds. -/

/-- `rate.Limit`: unlimited, or one token every so many nanoseconds. -/
inductive Limit
  | inf
  | every (ns : Int)
  deriving DecidableEq, Repr

def Limit.ofInterval (ns : Int) : Limit := if ns ≤ 0 then .inf else .every ns

/-- The two calls that take a token; a `time.Duration` counts nanoseconds. -/
inductive TokenCall
  | take
  | takeWithTimeout (timeout : Int)
  deriving DecidableEq, Repr

/-! ## `qps_limiter.go`

The setters take what they are given, without a check, and the getters read back what became of it: the
speed through two integer divisions, the timeout through one. -/

/-- `QpsRateLimiter`: limit and burst of its `rate.Limiter`, and the timeout in nanoseconds. -/
structure QpsRateLimiter where
  limit : Limit
  burst : Int
  timeout : Int
  deriving DecidableEq, Repr

def newQpsRateLimiter : QpsRateLimiter := ⟨.inf, 0, -1⟩

def build (t : String) : Except GoError QpsRateLimiter :=
  if t = "qps" then .ok newQpsRateLimiter else .error limiterTypeNotSupportedError

/-- The limiter of a supported type is a new one, without limit and without tokens. -/
theorem build_eq_ok {t : String} {limiter : QpsRateLimiter} :
    build t = .ok limiter ↔ t = "qps" ∧ limiter = newQpsRateLimiter := by
  unfold build
  split
  · next h => simp [h, eq_comm]
  · next h => simp [h]

namespace QpsRateLimiter

/-- `SetRate`; `time.Second / time.Duration(speed)` rounds towards zero. -/
def setRate (r : QpsRateLimiter) (init speed : Int) : QpsRateLimiter :=
  { r with limit := .ofInterval (Int.tdiv 1000000000 speed), burst := init }

def setTimeout (r : QpsRateLimiter) (time : Int) : QpsRateLimiter := { r with timeout := time }

def getVolumn (r : QpsRateLimiter) : Int := r.burst

/-- `GetSpeed`: the tokens per second, without the fraction. `inf` is what the conversion to `int64`
makes of `rate.Inf`, which Go leaves open. -/
def getSpeed (r : QpsRateLimiter) (inf : Int) : Int :=
  match r.limit with
  | .inf => inf
  | .every ns => Int.tdiv 1000000000 ns

/-- `GetTimeout`: the number of milliseconds, as a `time.Duration`. -/
def getTimeout (r : QpsRateLimiter) : Int := Int.tdiv r.timeout 1000000

end QpsRateLimiter

end Cheryl.RateLimit
