import Cheryl.ReverseProxy.Tokens

/-!
# The first requests to a path

`invaildToken` looks the path up without the lock, and takes the lock to create a limiter when there
is none. So a request has two steps, and other requests come between them. All that are between them
when a limiter is created find it there, and are turned away with `LimiterAlreadyExists`.
`firstRequests_iff` says that these are the only requests that are turned away.
-/

namespace Cheryl.ReverseProxy

open Library RateLimit

/-! ## Requests on their way -/

/-- Where a request is in `invaildToken`. -/
inductive Progress
  | arrived
  /-- the lookup found no limiter -/
  | absent
  | found (limiter : QpsRateLimiter)
  | returned (out : Outcome)

namespace Progress

/-- Not back from the lookup with a limiter, and not returned. -/
def Waiting : Progress → Prop
  | arrived => True
  | absent => True
  | _ => False

/-- A limiter that was found is the default one, and the error that is returned is that there already
is one. -/
def Usual : Progress → Prop
  | found limiter => limiter = newQpsRateLimiter
  | returned out => out = .ok none ∨ out = .ok (some limiterAlreadyExists)
  | _ => True

def Fine : Progress → Prop
  | returned out => out = .ok none
  | _ => True

/-- A request that waits is as it usually is. -/
theorem Waiting.usual {p : Progress} (h : p.Waiting) : p.Usual := by
  cases p with
  | arrived => trivial
  | absent => trivial
  | found => exact h.elim
  | returned => exact h.elim

end Progress

/-! ## The crowd

Requests to one path run together. What they share is the node; what each has for itself is how far it has
come, and with which limiter. The lookup and the creation are separate steps, and between them anything may
happen. -/

/-- A node, and the requests to one path of a proxy. -/
structure Crowd (ρ : Type) where
  node : Node
  progress : ρ → Progress

/-- The steps of a request. `token` is the answer of the `rate.Limiter`. -/
inductive Move (ρ : Type)
  | lookup (r : ρ)
  | configRate (r : ρ)
  | take (r : ρ) (token : Bool)

namespace Crowd

variable {ρ : Type}

def start (n : Node) : Crowd ρ := ⟨n, fun _ => .arrived⟩

def put [DecidableEq ρ] (s : Crowd ρ) (r : ρ) (p : Progress) : Crowd ρ :=
  { s with progress := Function.update s.progress r p }

/-- What the answer of a limiter may be: an infinite limit has a token for whoever does not wait. -/
def Answers (limiter : QpsRateLimiter) (token : Bool) : Prop :=
  limiter.limit = .inf → tokenCall limiter = .take → token = true

/-- One step of a request in `invaildToken(path)` on the proxy at `a`. -/
inductive Step [DecidableEq ρ] (a : Nat) (path : String) : Crowd ρ → Move ρ → Crowd ρ → Prop
  | absent {s : Crowd ρ} {r : ρ} (here : s.progress r = .arrived)
      (h : (s.node.proxies a).methods.lookup path = none) :
      Step a path s (.lookup r) (s.put r .absent)
  | found {s : Crowd ρ} {r : ρ} {limiter : QpsRateLimiter} (here : s.progress r = .arrived)
      (h : (s.node.proxies a).methods.lookup path = some limiter) :
      Step a path s (.lookup r) (s.put r (.found limiter))
  | configRate {s : Crowd ρ} {r : ρ} {out : Outcome} {n : Node} (here : s.progress r = .absent)
      (h : s.node.configRate a path = (out, n)) :
      Step a path s (.configRate r) ({ s with node := n }.put r (.returned out))
  | take {s : Crowd ρ} {r : ρ} {limiter : QpsRateLimiter} {token : Bool}
      (here : s.progress r = .found limiter) (answer : Answers limiter token) :
      Step a path s (.take r token)
        (s.put r (.returned (.ok (if token then none else some noReaminTokenError))))

/-- No request is about to create a limiter. -/
def Settled (s : Crowd ρ) : Prop := ∀ r, s.progress r ≠ .absent

/-- A request looks the path up when there is a limiter, or no other request is about to create
one. -/
def Orderly (a : Nat) (path : String) (s : Crowd ρ) : Move ρ → Prop
  | .lookup _ => path ∈ (s.node.proxies a).methods ∨ s.Settled
  | _ => True

def OrderlyStep [DecidableEq ρ] (a : Nat) (path : String) (s : Crowd ρ) (e : Move ρ)
    (s' : Crowd ρ) : Prop :=
  Step a path s e s' ∧ Orderly a path s e

/-! ## What holds of a run

Three things are said of a crowd. `Recorded` is about the records, and holds of every run. `Calm` is about
who can still be turned away, and holds as long as the requests come in order. `Course` is the invariant
behind both: until the first limiter is created the node has not changed, and afterwards it has changed
once. -/

/-- At most one request is about to create a limiter, and only while there is none. Nobody was turned
away. -/
structure Calm (a : Nat) (path : String) (s : Crowd ρ) : Prop where
  single : ∀ r r', s.progress r = .absent → s.progress r' = .absent → r = r'
  settled : path ∈ (s.node.proxies a).methods → s.Settled
  fine : ∀ r, (s.progress r).Fine

/-- One default limiter is recorded for the path, as soon as the first request has returned. -/
structure Recorded (n : Node) (a m : Nat) (path : String) (s : Crowd ρ) : Prop where
  recorded : ∀ r out, s.progress r = .returned out →
    (s.node.proxyMaps m).limiters.lookup (n.proxies a).pattern =
      some (((n.proxyMaps m).limiters.lookup (n.proxies a).pattern).getD [] ++
        [defaultLimiterInfo path])
  unrecorded : (∀ r out, s.progress r ≠ .returned out) →
    (s.node.proxyMaps m).limiters = (n.proxyMaps m).limiters

/-- And all requests that have returned were let pass. -/
structure Passed (n : Node) (a m : Nat) (path : String) (s : Crowd ρ) : Prop
    extends Recorded n a m path s where
  passed : ∀ r out, s.progress r = .returned out → out = .ok none

/-- What every run has made of the node, and how its requests can stand. -/
inductive Course (n : Node) (a m : Nat) (path : String) (s : Crowd ρ) : Prop
  | before (node : s.node = n) (waiting : ∀ r, (s.progress r).Waiting)
  | after (node : s.node = n.seen a m path) (creator : ∃ r out, s.progress r = .returned out)
      (usual : ∀ r, (s.progress r).Usual)

/-- The records of a run on its course. -/
theorem Course.records {n : Node} {a m : Nat} {path : String} {s : Crowd ρ}
    (h : Course n a m path s) : Recorded n a m path s where
  recorded := by
    intro r out hr
    cases h with
    | before _ hwaiting =>
        have hw := hwaiting r
        rw [hr] at hw
        exact hw.elim
    | after hnode =>
        rw [hnode]
        simp [Node.seen, Node.modifyMap, Node.modifyProxy]
  unrecorded := by
    intro hnone
    cases h with
    | before hnode => rw [hnode]
    | after _ hcreator =>
        obtain ⟨r, out, hr⟩ := hcreator
        exact absurd hr (hnone r out)

section Lemmas

variable [DecidableEq ρ] {s s' : Crowd ρ} {r r' : ρ} {p : Progress} {n : Node} {a m : Nat} {path : String}
  {e : Move ρ} {es : List (Move ρ)}

/-! ### Moving one request -/

@[simp] theorem node_put : (s.put r p).node = s.node := rfl

@[simp] theorem progress_put_self : (s.put r p).progress r = p := Function.update_self ..

theorem progress_put_of_ne (h : r' ≠ r) : (s.put r p).progress r' = s.progress r' :=
  Function.update_of_ne h ..

/-- What holds of all requests, and of where one of them gets, holds of all of them then. -/
theorem forall_put {Q : Progress → Prop} (hp : Q p) (h : ∀ r', Q (s.progress r')) (r' : ρ) :
    Q ((s.put r p).progress r') := by
  by_cases hr : r' = r
  · subst hr
    rwa [progress_put_self]
  · rw [progress_put_of_ne hr]
    exact h r'

/-- A request that is elsewhere than the one that gets on stays where it is. -/
theorem progress_put_of_progress_ne {q q' : Progress} (here : s.progress r = q)
    (h : s.progress r' = q') (hne : q ≠ q') : (s.put r p).progress r' = q' := by
  have hr : r' ≠ r := by
    rintro rfl
    exact hne (here.symm.trans h)
  rwa [progress_put_of_ne hr]

/-- A request that has returned stays so. -/
theorem Step.returned {out : Outcome} (hstep : Step a path s e s')
    (h : s.progress r = .returned out) : s'.progress r = .returned out := by
  cases hstep with
  | absent here => exact progress_put_of_progress_ne here h (by simp)
  | found here => exact progress_put_of_progress_ne here h (by simp)
  | configRate here => exact progress_put_of_progress_ne here h (by simp)
  | take here => exact progress_put_of_progress_ne here h (by simp)

/-- A request that is on its own does what `invaildToken` does. -/
theorem step_step_invaildToken {t : Crowd ρ} (hlookup : Step a path s (.lookup r) s')
    (hrest : Step a path s' e t) (hr : e = .configRate r ∨ ∃ token, e = .take r token) :
    ∃ token, t.node = (s.node.invaildToken a path token).2 ∧
      t.progress r = .returned (s.node.invaildToken a path token).1 := by
  cases hlookup with
  -- no limiter was found, so the other step is `configRate`
  | absent here h =>
      have hnot : path ∉ (s.node.proxies a).methods := Finmap.lookup_eq_none.mp h
      rcases hr with rfl | ⟨token, rfl⟩
      · cases hrest with
        | configRate here' h' =>
            refine ⟨true, ?_⟩
            rw [node_put] at h'
            rw [Node.invaildToken, if_neg hnot, h']
            exact ⟨rfl, progress_put_self⟩
      · cases hrest with
        | take here' =>
            rw [progress_put_self] at here'
            cases here'
  -- one was found, so the other step asks it
  | found here h =>
      have hmem : path ∈ (s.node.proxies a).methods := Finmap.mem_of_lookup_eq_some h
      rcases hr with rfl | ⟨token, rfl⟩
      · cases hrest with
        | configRate here' =>
            rw [progress_put_self] at here'
            cases here'
      · cases hrest with
        | take here' =>
            refine ⟨token, ?_⟩
            rw [Node.invaildToken_of_mem hmem]
            exact ⟨rfl, progress_put_self⟩

/-! ## Every run creates one limiter

The first `configRate` finds no limiter and makes one; all later ones find it and return the error. So
however the steps are mixed, one limiter comes to the path and one record with it. -/

theorem configRate_of_notMem (h : path ∉ (n.proxies a).methods)
    (hm : (n.proxies a).proxyMap = some m) : n.configRate a path = (.ok none, n.seen a m path) := by
  have hnew : n.invaildToken a path true = (.ok none, n.seen a m path) :=
    Node.invaildToken_of_notMem h hm
  rwa [Node.invaildToken, if_neg h] at hnew

theorem configRate_of_mem (h : path ∈ (n.proxies a).methods) :
    n.configRate a path = (.ok (some limiterAlreadyExists), n) := by
  rw [Node.configRate, if_pos h]

theorem lookup_seen : ((n.seen a m path).proxies a).methods.lookup path = some newQpsRateLimiter := by
  rw [Node.seen, Node.proxies_modifyMap, Node.proxies_modifyProxy_self, Finmap.lookup_insert]

theorem Course.step (hn : path ∉ (n.proxies a).methods) (hm : (n.proxies a).proxyMap = some m)
    (h : Course n a m path s) (hstep : Step a path s e s') : Course n a m path s' := by
  cases h with
  | before hnode hwaiting =>
      cases hstep with
      | absent here h => exact .before hnode (forall_put trivial hwaiting)
      | found here h =>
          rw [hnode] at h
          exact absurd (Finmap.mem_of_lookup_eq_some h) hn
      | configRate here h =>
          rw [hnode, configRate_of_notMem hn hm] at h
          cases h
          exact .after rfl ⟨_, _, progress_put_self⟩
            (forall_put (.inl rfl) fun r => (hwaiting r).usual)
      | @take r _ _ here _ =>
          have hr := hwaiting r
          rw [here] at hr
          exact hr.elim
  | after hnode hcreator husual =>
      have hcreator' : ∃ r out, s'.progress r = .returned out := by
        obtain ⟨r, out, hr⟩ := hcreator
        exact ⟨r, out, hstep.returned hr⟩
      cases hstep with
      | absent here h =>
          rw [hnode, lookup_seen] at h
          cases h
      | found here h =>
          rw [hnode, lookup_seen] at h
          cases h
          exact .after hnode hcreator' (forall_put rfl husual)
      | configRate here h =>
          rw [hnode, configRate_of_mem (Finmap.mem_of_lookup_eq_some lookup_seen)] at h
          cases h
          exact .after rfl hcreator' (forall_put (.inr rfl) husual)
      | @take r limiter token here answer =>
          have hr := husual r
          rw [here] at hr
          obtain rfl : limiter = newQpsRateLimiter := hr
          -- the default limiter is unlimited and is asked without waiting, so it has a token
          obtain rfl := answer rfl (by decide)
          exact .after hnode hcreator' (forall_put (.inl rfl) husual)

theorem run_course (hn : path ∉ (n.proxies a).methods) (hm : (n.proxies a).proxyMap = some m)
    (hrun : Trace (Step a path) (.start n : Crowd ρ) es s) : Course n a m path s :=
  hrun.invariant (.before rfl fun _ => trivial) fun h hstep => h.step hn hm hstep

/-! ## Orderly runs

If nobody looks the path up while another one is about to create its limiter, at most one request creates at
a time, and it finds no limiter. Then nobody gets the error. -/

/-- A request that gets on elsewhere is not about to create a limiter. -/
theorem absent_put (hp : p ≠ .absent) (h : (s.put r p).progress r' = .absent) :
    r' ≠ r ∧ s.progress r' = .absent := by
  by_cases hr : r' = r
  · subst hr
    rw [progress_put_self] at h
    exact absurd h hp
  · rw [progress_put_of_ne hr] at h
    exact ⟨hr, h⟩

/-- An orderly step keeps the crowd calm. -/
theorem Calm.step (hn : path ∉ (n.proxies a).methods) (hm : (n.proxies a).proxyMap = some m)
    (hcourse : Course n a m path s) (h : Calm a path s) (hstep : OrderlyStep a path s e s') :
    Calm a path s' := by
  obtain ⟨hstep, horderly⟩ := hstep
  cases hstep with
  | @absent r here hnone =>
      have hnot : path ∉ (s.node.proxies a).methods := Finmap.lookup_eq_none.mp hnone
      have hsettled : s.Settled := horderly.resolve_left hnot
      -- it is the only one that is about to create, since no other was before
      have honly : ∀ r', (s.put r .absent).progress r' = .absent → r' = r := by
        intro r' h'
        by_contra hne
        rw [progress_put_of_ne hne] at h'
        exact hsettled r' h'
      exact ⟨fun r₁ r₂ h₁ h₂ => (honly r₁ h₁).trans (honly r₂ h₂).symm, fun hmem => absurd hmem hnot,
        forall_put trivial h.fine⟩
  | @found r limiter here hsome =>
      have hmem := Finmap.mem_of_lookup_eq_some hsome
      have hsettled : (s.put r (.found limiter)).Settled := fun r' h' =>
        h.settled hmem r' (absent_put (by simp) h').2
      exact ⟨fun r₁ _ h₁ => absurd h₁ (hsettled r₁), fun _ => hsettled, forall_put trivial h.fine⟩
  | @configRate r out n' here hconfig =>
      have hnot : path ∉ (s.node.proxies a).methods := fun hmem => h.settled hmem r here
      have hnode : s.node = n := by
        cases hcourse with
        | before hnode => exact hnode
        | after hnode =>
            rw [hnode] at hnot
            exact absurd (Finmap.mem_of_lookup_eq_some lookup_seen) hnot
      rw [hnode, configRate_of_notMem hn hm] at hconfig
      cases hconfig
      have hsettled : (put ⟨n.seen a m path, s.progress⟩ r (.returned (.ok none))).Settled := by
        intro r' h'
        obtain ⟨hne, habsent⟩ := absent_put (by simp) h'
        exact hne (h.single r' r habsent here)
      exact ⟨fun r₁ _ h₁ => absurd h₁ (hsettled r₁), fun _ => hsettled, forall_put rfl h.fine⟩
  | @take r limiter token here answer =>
      have hfound : limiter = newQpsRateLimiter := by
        cases hcourse with
        | before _ hwaiting =>
            have hr := hwaiting r
            rw [here] at hr
            exact hr.elim
        | after _ _ husual =>
            have hr := husual r
            rwa [here] at hr
      subst hfound
      obtain rfl := answer rfl (by decide)
      have habsent : ∀ r', (s.put r (.returned (.ok none))).progress r' = .absent →
          s.progress r' = .absent := fun r' h' => (absent_put (by simp) h').2
      exact ⟨fun r₁ r₂ h₁ h₂ => h.single r₁ r₂ (habsent r₁ h₁) (habsent r₂ h₂),
        fun hmem r' h' => h.settled hmem r' (habsent r' h'), forall_put rfl h.fine⟩

theorem run_calm (hn : path ∉ (n.proxies a).methods) (hm : (n.proxies a).proxyMap = some m)
    (hrun : Trace (OrderlyStep a path) (.start n : Crowd ρ) es s) :
    Course n a m path s ∧ Calm a path s := by
  refine hrun.invariant (I := fun s => Course n a m path s ∧ Calm a path s) ?_ ?_
  · refine ⟨.before rfl fun _ => trivial, fun r _ h => ?_, fun _ r h => ?_, fun _ => trivial⟩
    · cases h
    · cases h
  · rintro s e s' ⟨hcourse, hcalm⟩ hstep
    exact ⟨hcourse.step hn hm hstep.1, hcalm.step hn hm hcourse hstep⟩

/-- In orderly runs everybody is let pass. -/
theorem run_passed (hn : path ∉ (n.proxies a).methods) (hm : (n.proxies a).proxyMap = some m)
    (hrun : Trace (OrderlyStep a path) (.start n : Crowd ρ) es s) : Passed n a m path s := by
  obtain ⟨hcourse, hcalm⟩ := run_calm hn hm hrun
  refine { hcourse.records with passed := fun r out hr => ?_ }
  have hf := hcalm.fine r
  rwa [hr] at hf

/-! ## Disorderly runs

If somebody does look the path up in such a moment, two requests are about to create. One of them creates
the limiter and the other one finds it; nothing that happens in between can help the second. -/

/-- Some request has been turned away, or will be. -/
inductive Doomed (a : Nat) (path : String) (s : Crowd ρ) : Prop
  | failed (r : ρ) (err : GoError) (h : s.progress r = .returned (.ok (some err)))
  | late (r : ρ) (hmem : path ∈ (s.node.proxies a).methods) (h : s.progress r = .absent)
  | two (r r' : ρ) (hne : r ≠ r') (h : s.progress r = .absent) (h' : s.progress r' = .absent)

/-- A request stays about to create a limiter until it does. -/
theorem Step.absent_stays (hstep : Step a path s e s') (h : s.progress r = .absent)
    (hne : e ≠ .configRate r) : s'.progress r = .absent := by
  cases hstep with
  | absent here => exact progress_put_of_progress_ne here h (by simp)
  | found here => exact progress_put_of_progress_ne here h (by simp)
  | configRate here =>
      rw [progress_put_of_ne]
      · exact h
      · rintro rfl
        exact hne rfl
  | take here => exact progress_put_of_progress_ne here h (by simp)

/-- Afterwards there is one. -/
theorem Step.mem_methods_configRate (hstep : Step a path s (.configRate r) s') :
    path ∈ (s'.node.proxies a).methods := by
  cases hstep with
  | configRate here h =>
      by_cases hmem : path ∈ (s.node.proxies a).methods
      · rw [configRate_of_mem hmem] at h
        cases h
        exact hmem
      · rw [Node.configRate, if_neg hmem] at h
        have hproxies := congrArg (fun res => res.2.proxies a) h
        simp only [Node.proxies_recordLimiter, Node.proxies_modifyProxy_self] at hproxies
        rw [node_put, ← hproxies]
        exact Finmap.mem_insert.mpr (.inl rfl)

/-- A limiter that is there stays. -/
theorem Step.mem_methods (hstep : Step a path s e s') (h : path ∈ (s.node.proxies a).methods) :
    path ∈ (s'.node.proxies a).methods := by
  cases hstep with
  | absent => exact h
  | found => exact h
  | configRate here hconfig => exact (Step.configRate here hconfig).mem_methods_configRate
  | take => exact h

/-- Nothing saves it. -/
theorem Doomed.step (h : Doomed a path s) (hstep : Step a path s e s') : Doomed a path s' := by
  cases h with
  | failed r err hr => exact .failed r err (hstep.returned hr)
  | late r hmem hr =>
      by_cases he : e = .configRate r
      · subst he
        cases hstep with
        | configRate here hconfig =>
            rw [configRate_of_mem hmem] at hconfig
            cases hconfig
            exact .failed r limiterAlreadyExists progress_put_self
      · exact .late r (hstep.mem_methods hmem) (hstep.absent_stays hr he)
  | two r r' hne hr hr' =>
      by_cases he : e = .configRate r
      · subst he
        exact .late r' hstep.mem_methods_configRate (hstep.absent_stays hr' (by simpa using hne))
      · by_cases he' : e = .configRate r'
        · subst he'
          exact .late r hstep.mem_methods_configRate (hstep.absent_stays hr he)
        · exact .two r r' hne (hstep.absent_stays hr he) (hstep.absent_stays hr' he')

/-- A run is orderly, or dooms a request. -/
theorem run_orderly_or_doomed {s₀ : Crowd ρ} (hrun : Trace (Step a path) s₀ es s) :
    Trace (OrderlyStep a path) s₀ es s ∨ Doomed a path s := by
  induction hrun with
  | nil => exact .inl .nil
  | @snoc es s s' e _ hstep ih =>
      -- the first disorderly step dooms a request, and that stays so
      rcases ih with horderly | hdoomed
      · by_cases he : Orderly a path s e
        · exact .inl (.snoc horderly ⟨hstep, he⟩)
        · right
          cases hstep with
          | @absent r here hnone =>
              -- another request has looked the path up in vain
              obtain ⟨-, hpending⟩ := not_or.mp he
              obtain ⟨r', hr'⟩ := not_forall_not.mp hpending
              have hne : r' ≠ r := by
                rintro rfl
                rw [here] at hr'
                cases hr'
              exact .two r' r hne (by rwa [progress_put_of_ne hne]) progress_put_self
          | found here hsome => exact absurd (.inl (Finmap.mem_of_lookup_eq_some hsome)) he
          | configRate => exact absurd trivial he
          | take => exact absurd trivial he
      · exact .inr (hdoomed.step hstep)

/-- For a path without limiter every run records one default limiter. When each request looks the path
up only if there is a limiter by now, or nobody is about to create one, they are all let pass. In every
other run some request is turned away, once all those that looked the path up in vain have returned. -/
theorem firstRequests_iff (hn : path ∉ (n.proxies a).methods)
    (hm : (n.proxies a).proxyMap = some m) (hrun : Trace (Step a path) (.start n : Crowd ρ) es s) :
    Recorded n a m path s ∧
    (Trace (OrderlyStep a path) (.start n : Crowd ρ) es s → Passed n a m path s) ∧
    (s.Settled → (Passed n a m path s ↔ Trace (OrderlyStep a path) (.start n : Crowd ρ) es s)) := by
  refine ⟨(run_course hn hm hrun).records, run_passed hn hm, fun hsettled =>
    ⟨fun h => ?_, run_passed hn hm⟩⟩
  rcases run_orderly_or_doomed hrun with horderly | hdoomed
  · exact horderly
  · cases hdoomed with
    | failed r err hr => cases h.passed r _ hr
    | late r _ hr => exact absurd hr (hsettled r)
    | two r _ _ hr => exact absurd hr (hsettled r)

end Lemmas

/-- One request after the other. -/
theorem firstRequests_iff_one_by_one : ∃ s : Crowd Nat,
    Trace (OrderlyStep 0 "/x") (.start oneProxy)
      ([] ++ [.lookup 0] ++ [.configRate 0] ++ [.lookup 1] ++ [.take 1 true]) s ∧
      Passed oneProxy 0 0 "/x" s := by
  have hrun : Trace (OrderlyStep 0 "/x") (.start oneProxy : Crowd Nat)
      ([] ++ [.lookup 0] ++ [.configRate 0] ++ [.lookup 1] ++ [.take 1 true]) _ :=
    .snoc (.snoc (.snoc (.snoc .nil ⟨.absent rfl (by decide), .inr fun r => Progress.noConfusion⟩)
      ⟨.configRate rfl rfl, trivial⟩) ⟨.found rfl rfl, .inl (by decide)⟩)
      ⟨.take rfl fun _ _ => rfl, trivial⟩
  exact ⟨_, hrun, (firstRequests_iff (m := 0) (by decide) rfl (hrun.mono And.left)).2.1 hrun⟩

/-- Of two requests that both look the path up before a limiter is created, one is turned away. -/
theorem not_passed : ¬ ∀ (n : Node) (a m : Nat) (path : String) (es : List (Move Nat)) (s : Crowd Nat),
    path ∉ (n.proxies a).methods → (n.proxies a).proxyMap = some m →
    Trace (Step a path) (.start n) es s → Passed n a m path s := by
  intro h
  have hrun : Trace (Step 0 "/x") (.start oneProxy : Crowd Nat)
      ([] ++ [.lookup 0] ++ [.lookup 1] ++ [.configRate 0] ++ [.configRate 1]) _ :=
    .snoc (.snoc (.snoc (.snoc .nil (.absent rfl (by decide))) (.absent rfl (by decide)))
      (.configRate rfl rfl)) (.configRate rfl rfl)
  have hpassed := (h oneProxy 0 0 "/x" _ _ (by decide) rfl hrun).passed 1 _ rfl
  revert hpassed
  decide

end Crowd

end Cheryl.ReverseProxy
