import Cheryl.ReverseProxy.Config
import Cheryl.Server.HttpServer

/-!
# What `validLocation` lets through

`validLocation` stands between a client and `createProxyWithLocation`, which ends the process when no
proxy can be made. It looks at the pattern and counts the targets. Whether the targets parse and the
balance mode is supported is found out afterwards (`soundlyValidated_iff`).
-/

namespace Cheryl.Server

open ReverseProxy

/-! ## When a proxy can be made

`NewHTTPProxy` fails at the first target that is no URL, and at a mode without a balancer. Nothing else can
go wrong with it. -/

def SupportedMode (mode : String) : Prop := mode = "round-robin" ∨ mode = "consistence-hash"

section Constructible

variable {env : Env}

/-- The factory knows the registered modes. -/
theorem exists_build {algo : String} (hosts : List String) :
    (∃ lb, Balancer.build env.toEnv algo hosts = .ok lb) ↔ SupportedMode algo := by
  unfold Balancer.build SupportedMode
  by_cases hr : algo = "round-robin"
  · simp [hr]
  · by_cases hc : algo = "consistence-hash"
    · simp [hc]
    · simp [hr, hc]

/-- All targets parse, or the first that does not ends it. -/
theorem exists_parseHosts (targets : List String) : (∃ hosts, parseHosts env targets = .ok hosts) ↔
    ∀ target ∈ targets, ∃ url, env.parse target = .ok url := by
  induction targets with
  | nil => simp [parseHosts]
  | cons target targets ih =>
      rw [List.forall_mem_cons, ← ih, parseHosts]
      cases env.parse target with
      | error err => simp
      | ok url =>
          cases parseHosts env targets with
          | error err => simp
          | ok hosts => simp

/-- A proxy can be made of a location when its targets parse and its mode is supported. -/
theorem constructible_iff (l : Location) : l.Constructible env ↔
    (∀ target ∈ l.proxyPass, ∃ url, env.parse target = .ok url) ∧ SupportedMode l.balanceMode := by
  rw [← exists_parseHosts, Location.Constructible, newHTTPProxy]
  cases parseHosts env l.proxyPass with
  | error err => simp
  | ok hosts =>
      rw [← exists_build (hosts.map Prod.fst)]
      cases hlb : Balancer.build env.toEnv l.balanceMode (hosts.map Prod.fst) with
      | error err => simp [hlb]
      | ok lb => simp [hlb]

end Constructible

/-! ## When validation is sound -/

/-- What validating a location is for: `validLocation` returns, and when it accepts the location then
it is added on this node, without the process ending, and a proxy can be made of it on every node. -/
structure SoundlyValidated {δ : Type} (env : Env) (enc : Encoding δ) (h : HttpServer δ) (l : Location) :
    Prop where
  returns : ∃ err, HttpServer.validLocation l = .ok err
  added : HttpServer.validLocation l = .ok none →
    ∃ n, h.state.addProxyWithLocation env l = (.ok none, n)
  survives : HttpServer.validLocation l = .ok none →
    ∀ raft, (h.createProxyWithLocation env enc l raft).1 ≠ .down .exit
  constructible : HttpServer.validLocation l = .ok none → l.Constructible env

namespace HttpServer

variable {δ : Type} {env : Env} {enc : Encoding δ} {h : HttpServer δ} {l : Location}

/-- An empty pattern has no first character. -/
theorem validLocation_returns_iff : (∃ err, validLocation l = .ok err) ↔ l.pattern ≠ "" := by
  rw [ne_eq, ← String.toList_eq_nil_iff]
  unfold validLocation
  cases hp : l.pattern.toList with
  | nil => simp
  | cons c cs =>
      simp only [reduceCtorEq, not_false_eq_true, iff_true]
      split
      · exact ⟨_, rfl⟩
      · split <;> exact ⟨_, rfl⟩

/-- What is accepted begins with a slash, and has a target. -/
theorem validLocation_accepts_iff :
    validLocation l = .ok none ↔ l.pattern.toList.head? = some '/' ∧ l.proxyPass ≠ [] := by
  unfold validLocation
  cases hp : l.pattern.toList with
  | nil => simp
  | cons c cs =>
      by_cases hc : c = '/'
      · by_cases ht : l.proxyPass = []
        · simp [hc, ht]
        · simp [hc, ht]
      · simp [hc]

/-- Adding a location that cannot be added is an error, or finds no router; neither ends the
process. -/
theorem addProxyWithLocation_ne_exit (env : Env) (n : Node) (l : Location) :
    (n.addProxyWithLocation env l).1 ≠ .error .exit := by
  unfold Node.addProxyWithLocation
  split
  · simp
  · rw [Node.addRelations_eq]
    cases n.router <;> simp

/-- Nor does applying the entry of it. -/
theorem doNewHttpProxy_ne_exit (env : Env) (enc : Encoding δ) (n : Node) (data : δ) :
    (FSM.doNewHttpProxy env enc n data).1 ≠ .error .exit := by
  unfold FSM.doNewHttpProxy
  cases enc.location.unmarshal data with
  | error err => simp
  | ok l =>
      have hne := addProxyWithLocation_ne_exit env n l
      simp only
      split
      · simp
      · rcases hadd : n.addProxyWithLocation env l with ⟨fault | err, n'⟩
        · rw [hadd] at hne
          simpa using hne
        · simp

/-- So only the branch of `logger.Errorf` ends it. -/
theorem createProxyWithLocation_ne_exit {n : Node}
    (hadd : h.state.addProxyWithLocation env l = (.ok none, n)) (raft : RaftOutcome) :
    (h.createProxyWithLocation env enc l raft).1 ≠ .down .exit := by
  unfold createProxyWithLocation
  simp only [hadd]
  cases raft with
  | failed err => simp [writeLogEntry]
  | committed received =>
      have hne := doNewHttpProxy_ne_exit env enc n (enc.location.marshal l)
      simp only [writeLogEntry, FSM.apply, if_true, withState]
      rcases happly : FSM.doNewHttpProxy env enc n (enc.location.marshal l) with ⟨fault | err, n'⟩
      · rw [happly] at hne
        simpa using hne
      · simp

/-- Adding a location succeeds when a proxy can be made of it, and there is a router to tell. -/
theorem exists_addProxyWithLocation (n : Node) :
    (∃ n', n.addProxyWithLocation env l = (.ok none, n')) ↔
      l.Constructible env ∧ n.router ≠ none := by
  constructor
  · rintro ⟨n', heq⟩
    obtain ⟨proxy, hosts, hproxy, hr, -⟩ := Node.addProxyWithLocation_eq_ok heq
    exact ⟨⟨proxy, hproxy⟩, by rw [hr]; exact Option.some_ne_none hosts⟩
  · rintro ⟨⟨proxy, hproxy⟩, hr⟩
    obtain ⟨hosts, hr⟩ := Option.ne_none_iff_exists'.mp hr
    unfold Node.addProxyWithLocation
    rw [hproxy]
    simp only
    rw [Node.addRelations_eq, hr]
    exact ⟨_, rfl⟩

end HttpServer

/-- Validation of a location is sound if and only if its pattern is not empty, and every target parses,
the mode is supported and the router is there, if the pattern begins with a slash and there are
targets. -/
theorem soundlyValidated_iff {δ : Type} (env : Env) (enc : Encoding δ) (h : HttpServer δ)
    (l : Location) : SoundlyValidated env enc h l ↔
      l.pattern ≠ "" ∧ (l.pattern.toList.head? = some '/' → l.proxyPass ≠ [] →
        (∀ target ∈ l.proxyPass, ∃ url, env.parse target = .ok url) ∧
          SupportedMode l.balanceMode ∧ h.state.router ≠ none) := by
  constructor
  · intro V
    refine ⟨HttpServer.validLocation_returns_iff.mp V.returns, fun hslash htargets => ?_⟩
    obtain ⟨hcon, hr⟩ := (HttpServer.exists_addProxyWithLocation h.state).mp
      (V.added (HttpServer.validLocation_accepts_iff.mpr ⟨hslash, htargets⟩))
    obtain ⟨hparse, hmode⟩ := (constructible_iff l).mp hcon
    exact ⟨hparse, hmode, hr⟩
  · rintro ⟨hpattern, hrest⟩
    have haccepted : HttpServer.validLocation l = .ok none → l.Constructible env ∧
        h.state.router ≠ none := by
      intro hvalid
      obtain ⟨hslash, htargets⟩ := HttpServer.validLocation_accepts_iff.mp hvalid
      obtain ⟨hparse, hmode, hr⟩ := hrest hslash htargets
      exact ⟨(constructible_iff l).mpr ⟨hparse, hmode⟩, hr⟩
    have hadded : HttpServer.validLocation l = .ok none →
        ∃ n, h.state.addProxyWithLocation env l = (.ok none, n) := fun hvalid =>
      (HttpServer.exists_addProxyWithLocation h.state).mpr (haccepted hvalid)
    refine ⟨HttpServer.validLocation_returns_iff.mpr hpattern, hadded, fun hvalid raft => ?_,
      fun hvalid => (haccepted hvalid).1⟩
    obtain ⟨n, hadd⟩ := hadded hvalid
    exact HttpServer.createProxyWithLocation_ne_exit hadd raft

/-- A location with a balance mode that does not exist is accepted, and ends the process. -/
theorem not_soundlyValidated : ¬ ∀ (env : Env) (enc : Encoding Payload) (h : HttpServer Payload)
    (l : Location), h.state.router ≠ none → SoundlyValidated env enc h l := by
  intro h
  have V := h Env.plain Payload.encoding (.newHttpServer Node.new)
    ⟨"/api", ["http://a:80"], "random"⟩ (by decide)
  exact V.survives (by decide) (.committed false) rfl

end Cheryl.Server
