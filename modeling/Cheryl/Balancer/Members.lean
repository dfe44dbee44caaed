import Cheryl.Balancer.Ring

/-!
# The hosts of a balancer

Which hosts a balancer can answer with (`Has`), for both of them at once, and what `Add`, `Remove`
and `Build` do to these. A ring answers with the empty string for a key without a host, so it has to
be `Sound` for its answers to be hosts it has.
-/

namespace Cheryl.Balancer

open Library

/-! ## What a balancer has

The code that owns a balancer keeps a list of hosts beside it, and cannot see whether the two agree. The
statements here are about all hosts a balancer can ever answer with: none that were not added, and none but
these. -/

/-- The host is one of those `Balance` chooses from. -/
def Has : Balancer → String → Prop
  | roundRobin r, host => host ∈ r.hosts
  | consistenceHash c, host => ∃ key ∈ c.keys, c.hosts.lookup key = some host

/-- The keys of a ring are sorted, and each has a host. -/
def Sound : Balancer → Prop
  | roundRobin _ => True
  | consistenceHash c => c.keys.Pairwise (· ≤ ·) ∧ ∀ key ∈ c.keys, c.hosts.lookup key ≠ none

/-- `Remove` takes all of the host, and nothing else. -/
def RemovesCleanly : Balancer → String → Prop
  | roundRobin _, _ => True
  | consistenceHash c, host => c.RemovesCleanly host

variable {env : Env} {b b' : Balancer} {algo host h url : String} {hosts : List String}

@[simp] theorem has_roundRobin {r : RoundRobin} : (roundRobin r).Has host ↔ host ∈ r.hosts := Iff.rfl

/-- What a balancer answers with, it has. -/
theorem Sound.has_of_balance (S : b.Sound) (hok : (b.balance url).1 = .ok host) : b.Has host := by
  cases b with
  | roundRobin r =>
      have hres : r.balance.1 = .ok host := hok
      unfold RoundRobin.balance at hres
      split at hres
      · cases hres
      · next h hget =>
          cases hres
          exact List.mem_of_getElem? hget
  | consistenceHash c =>
      have hres : c.balance url = .ok host := hok
      -- the answer of a ring is the owner of one of its keys
      rcases c.balance_eq url with ⟨-, err, herr⟩ | ⟨key, hkey, heq⟩
      · rw [herr] at hres
        cases hres
      · obtain ⟨h, howner⟩ := Option.ne_none_iff_exists'.mp (S.2 key hkey)
        rw [heq, howner] at hres
        cases hres
        exact ⟨key, hkey, howner⟩

/-- Answering changes neither. -/
theorem balance_keeps (b : Balancer) (url host : String) :
    ((b.balance url).2.Sound ↔ b.Sound) ∧ ((b.balance url).2.Has host ↔ b.Has host) ∧
      ((b.balance url).2.RemovesCleanly host ↔ b.RemovesCleanly host) := by
  cases b with
  | consistenceHash c => exact ⟨Iff.rfl, Iff.rfl, Iff.rfl⟩
  | roundRobin r =>
      refine ⟨Iff.rfl, ?_, Iff.rfl⟩
      show host ∈ r.balance.2.hosts ↔ host ∈ r.hosts
      unfold RoundRobin.balance
      split <;> rfl

/-! ## `Add`

A new host comes in, whichever balancer it is, and a ring stays sound: the keys that come with a host have
this host as owner. -/

theorem mem_keys_add {c : ConsistenceHash} {key : Nat} :
    key ∈ (c.add host).keys ↔ key ∈ c.keys ∨ key ∈ c.points host := by
  show key ∈ (c.keys ++ c.points host).insertionSort (· ≤ ·) ↔ _
  rw [List.mem_insertionSort, List.mem_append]

/-- The owners after `Add`: a shared node goes to the new host. -/
theorem lookup_hosts_add {c : ConsistenceHash} {key : Nat} :
    (c.add host).hosts.lookup key = if key ∈ c.points host then some host else c.hosts.lookup key :=
  ConsistenceHash.lookup_foldl_insert _ host key c.hosts

/-- `Add` keeps a ring sound. -/
theorem Sound.add (S : b.Sound) (host : String) : (b.add host).Sound := by
  cases b with
  | roundRobin r => trivial
  | consistenceHash c =>
      refine ⟨List.pairwise_insertionSort _ _, fun key hkey => ?_⟩
      rw [lookup_hosts_add]
      split
      · simp
      · next hnot => exact S.2 key ((mem_keys_add.mp hkey).resolve_right hnot)

/-- `Add` adds no other host. -/
theorem has_of_has_add (hhas : (b.add host).Has h) : h = host ∨ b.Has h := by
  cases b with
  | roundRobin r =>
      have hmem : h ∈ (r.add host).hosts := hhas
      unfold RoundRobin.add at hmem
      split at hmem
      · exact .inr hmem
      · rcases List.mem_append.mp hmem with hold | hnew
        · exact .inr hold
        · exact .inl (List.mem_singleton.mp hnew)
  | consistenceHash c =>
      obtain ⟨key, hkey, howner⟩ := hhas
      rw [lookup_hosts_add] at howner
      -- the key was one before unless the new host owns it
      split at howner
      · cases howner
        exact .inl rfl
      · next hnot => exact .inr ⟨key, (mem_keys_add.mp hkey).resolve_right hnot, howner⟩

/-! ## `Remove`

A ring loses as many keys as the host has nodes, and the owners of these. Taken cleanly that is all that is
the host's, and what stays keeps its owner; taken any other way a key can stay behind without one. -/

/-- `Remove` that takes all of the host adds none and leaves no key without a host. -/
theorem Sound.remove (S : b.Sound) (hclean : b.RemovesCleanly host) :
    ∃ b', b.remove host = .ok b' ∧ b'.Sound ∧ ∀ h, b'.Has h → b.Has h := by
  cases b with
  | roundRobin r =>
      exact ⟨_, rfl, trivial, fun h hmem => List.mem_of_mem_erase hmem⟩
  | consistenceHash c =>
      obtain ⟨c', hremove, -, -, hsorted, hkeys, hhosts⟩ :=
        ConsistenceHash.foldlM_cut (c.points host) S.1 fun k hk => (hclean k hk).ge
      -- a key that stays was none of the host's, so its owner stays too
      have hkept : ∀ key ∈ c'.keys, key ∈ c.keys ∧ c'.hosts.lookup key = c.hosts.lookup key := by
        intro key hkey
        have hpos := List.count_pos_iff.mpr hkey
        rw [hkeys] at hpos
        have hnot : key ∉ c.points host := by
          intro hmem
          have hcount := hclean key hmem
          omega
        exact ⟨List.count_pos_iff.mp (by omega), by rw [hhosts, if_neg hnot]⟩
      refine ⟨consistenceHash c', ?_, ⟨hsorted, fun key hkey => ?_⟩, fun h hhas => ?_⟩
      · have hring : c.remove host = .ok c' := hremove
        simp only [Balancer.remove, hring]
      · obtain ⟨hold, howner⟩ := hkept key hkey
        rw [howner]
        exact S.2 key hold
      · obtain ⟨key, hkey, howner⟩ := hhas
        obtain ⟨hold, heq⟩ := hkept key hkey
        exact ⟨key, hold, heq ▸ howner⟩

/-! ## `Build` -/

/-- A new balancer has no hosts but those it is given. -/
theorem build_spec (hbuild : build env algo hosts = .ok b) : b.Sound ∧ ∀ h, b.Has h → h ∈ hosts := by
  unfold build at hbuild
  split at hbuild
  · cases hbuild
    exact ⟨trivial, fun h hmem => hmem⟩
  · split at hbuild
    · cases hbuild
      obtain ⟨H, -⟩ := ConsistenceHash.holds_new env hosts
      refine ⟨⟨H.sorted, fun key hkey => ?_⟩, fun h ⟨key, hkey, howner⟩ => ?_⟩
      · obtain ⟨h, -, -, howner⟩ := H.carries.owned key hkey
        exact Option.ne_none_iff_exists'.mpr ⟨h, howner⟩
      · obtain ⟨h', hmem, -, howner'⟩ := H.carries.owned key hkey
        have heq : some h' = some h := howner'.symm.trans howner
        cases heq
        exact List.mem_toFinset.mp hmem
    · cases hbuild

end Cheryl.Balancer
