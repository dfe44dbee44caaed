import Mathlib.Data.List.Sort
import Cheryl.Utils.Net

/-!
# `balancer/`: the load balancers

The two balancers behind the `Balancer` interface, as one inductive type, and the factory `Build`.
The hash function of the ring is a parameter.
-/

namespace Cheryl.Balancer

def noHostError : GoError := ⟨"no host"⟩

def algorithmNotSupportedError : GoError := ⟨"algorithm not supported"⟩

/-- What the balancers read of their surroundings: the hash function and `LoadBalance.Replicas`
of the configuration. -/
structure Env where
  hash : String → Nat
  replicas : Int

/-! ## `round_robin.go`

The index is a `uint64` that every answered call moves up by one, and the host at the index modulo the
number of hosts answers. `Add` looks a host up before it appends it; the constructor takes the list it is
given as it is, so a host may be on it twice. With no hosts `Balance` fails and leaves the index alone. -/

structure RoundRobin where
  idx : UInt64
  hosts : List String
  deriving DecidableEq

namespace RoundRobin

def add (r : RoundRobin) (host : String) : RoundRobin :=
  if host ∈ r.hosts then r else { r with hosts := r.hosts ++ [host] }

/-- `Remove` takes the first occurrence. -/
def remove (r : RoundRobin) (host : String) : RoundRobin := { r with hosts := r.hosts.erase host }

def balance (r : RoundRobin) : Except GoError String × RoundRobin :=
  match r.hosts[(r.idx % UInt64.ofNat r.hosts.length).toNat]? with
  | none => (.error noHostError, r)
  | some host => (.ok host, { r with idx := r.idx + 1 })

end RoundRobin

/-! ## `consistence_hash.go`

The ring is a sorted list of hashes with a map from hashes to hosts, and the two need not fit each other:
`keys` may repeat a hash, and a hash that two hosts share has one owner in `hosts`, the host added last. A
key that is in `keys` and not in `hosts` answers with the empty string, the zero value of the map. -/

structure ConsistenceHash where
  hash : String → Nat
  replicas : Int
  keys : List Nat
  hosts : GoMap Nat String

namespace ConsistenceHash

/-- The label of the virtual node `i` of a host: `strconv.Itoa(i) + host`. -/
def label (i : Nat) (host : String) : String := toString i ++ host

/-- The hashes of the virtual nodes of a host, in the order of the loops. -/
def points (c : ConsistenceHash) (host : String) : List Nat :=
  (List.range c.replicas.toNat).map fun i => c.hash (label i host)

def add (c : ConsistenceHash) (host : String) : ConsistenceHash :=
  { c with
    keys := (c.keys ++ c.points host).insertionSort (· ≤ ·)
    hosts := (c.points host).foldl (fun m h => m.insert h host) c.hosts }

def newConsistenceHash (env : Env) (hosts : List String) : ConsistenceHash :=
  hosts.foldl add ⟨env.hash, env.replicas, [], ∅⟩

/-- `sort.SearchInts`: the first position whose key is not below `h`. -/
def search (keys : List Nat) (h : Nat) : Nat := keys.findIdx fun k => decide (h ≤ k)

/-- One round of `Remove`. The key at the position `SearchInts` gives is cut out, whichever it is;
beyond the last key there is nothing to cut. -/
def cut (c : ConsistenceHash) (hash : Nat) : Except Fault ConsistenceHash :=
  let idx := search c.keys hash
  if idx < c.keys.length then
    .ok { c with keys := c.keys.eraseIdx idx, hosts := c.hosts.erase hash }
  else .error .outOfRange

def remove (c : ConsistenceHash) (host : String) : Except Fault ConsistenceHash :=
  (c.points host).foldlM cut c

def balance (c : ConsistenceHash) (url : String) : Except GoError String :=
  match c.keys[search c.keys (c.hash url) % c.keys.length]? with
  | none => .error ⟨"can't find any host"⟩
  | some key => .ok ((c.hosts.lookup key).getD "")

end ConsistenceHash

end Balancer

/-! ## `balancer.go`

The methods of the interface, by cases on which balancer it is. Only the ring can panic, in `Remove`; only
round robin is changed by answering. -/

open Balancer

/-- A value of the interface `Balancer`. -/
inductive Balancer
  | roundRobin (r : RoundRobin)
  | consistenceHash (c : ConsistenceHash)

namespace Balancer

def build (env : Env) (algo : String) (hosts : List String) : Except GoError Balancer :=
  if algo = "round-robin" then .ok (.roundRobin ⟨0, hosts⟩)
  else if algo = "consistence-hash" then
    .ok (.consistenceHash (hosts.foldl ConsistenceHash.add ⟨env.hash, env.replicas, [], ∅⟩))
  else .error algorithmNotSupportedError

def mode : Balancer → String
  | roundRobin _ => "round-robin"
  | consistenceHash _ => "consistence-hash"

def add (b : Balancer) (host : String) : Balancer :=
  match b with
  | roundRobin r => roundRobin (r.add host)
  | consistenceHash c => consistenceHash (c.add host)

def remove (b : Balancer) (host : String) : Except Fault Balancer :=
  match b with
  | roundRobin r => .ok (roundRobin (r.remove host))
  | consistenceHash c =>
      match c.remove host with
      | .error fault => .error fault
      | .ok c => .ok (consistenceHash c)

def balance (b : Balancer) (url : String) : Except GoError String × Balancer :=
  match b with
  | roundRobin r => (r.balance.1, roundRobin r.balance.2)
  | consistenceHash c => (c.balance url, consistenceHash c)

variable {env : Env} {algo : String} {hosts : List String} {b : Balancer}

/-- The calls on a balancer leave its mode as it is. -/
@[simp] theorem mode_add (b : Balancer) (host : String) : (b.add host).mode = b.mode := by
  cases b <;> rfl

@[simp] theorem mode_balance (b : Balancer) (url : String) : (b.balance url).2.mode = b.mode := by
  cases b <;> rfl

/-- A balancer has the mode it was asked for. -/
theorem mode_build (h : build env algo hosts = .ok b) : b.mode = algo := by
  unfold build at h
  split at h
  · next halgo => cases h; exact halgo.symm
  · split at h
    · next halgo => cases h; exact halgo.symm
    · cases h

end Balancer

end Cheryl
