import Cheryl.Balancer.History
import Cheryl.Library.Numerals

/-!
# The labels of virtual nodes

The label of a virtual node is its number with the host behind it, and nothing in between. So with
enough replicas a host that begins with digits has a label in common with the host behind these
digits, and one of the two loses the node, however good the hash function is (`grow_spread`).
-/

namespace Cheryl.Balancer

open Library

namespace ConsistenceHash

variable {env : Env} {c : ConsistenceHash} {hosts : List String} {host h h' : String} {i j : Nat}

def len (c : ConsistenceHash) : Nat := c.hosts.keys.card

/-! ## When every host has its share

A ring should have `replicas` nodes for each host. A hash function that gives different labels different
hashes is not enough for that, because `strconv.Itoa(i) + host` is not injective: `1` before `1.2.3.4` is
also `11` before `.2.3.4`. `Unprefixed` says for which hosts and how many replicas no two labels meet. -/

/-- Every host has all its virtual nodes, and there are no others. -/
structure Spread (env : Env) (hosts : List String) (c : ConsistenceHash) : Prop where
  len_eq : (c.len : Int) = env.replicas * hosts.toFinset.card
  keeps : ∀ host ∈ hosts, ∀ i : Nat, (i : Int) < env.replicas →
    c.hosts.lookup (env.hash (label i host)) = some host

def DistinctHashes (env : Env) (hosts : List String) : Prop :=
  ∀ h ∈ hosts, ∀ h' ∈ hosts, ∀ i j : Nat, (i : Int) < env.replicas → (j : Int) < env.replicas →
    env.hash (label i h) = env.hash (label j h') → label i h = label j h'

/-- The numbers of the nodes are bounded, so this can be decided too. -/
theorem distinctHashes_iff_bounded (env : Env) (hosts : List String) :
    (∀ h ∈ hosts, ∀ h' ∈ hosts, ∀ i < env.replicas.toNat, ∀ j < env.replicas.toNat,
      env.hash (label i h) = env.hash (label j h') → label i h = label j h') ↔
      DistinctHashes env hosts :=
  ⟨fun hall h hh h' hh' i j hi hj => hall h hh h' hh' i (by omega) j (by omega),
    fun hhash h hh h' hh' i hi j hj => hhash h hh h' hh' i j (by omega) (by omega)⟩

instance (env : Env) (hosts : List String) : Decidable (DistinctHashes env hosts) :=
  decidable_of_iff _ (distinctHashes_iff_bounded env hosts)

/-- Where one host is another behind some digits, there are too few replicas for a number that
ends in these digits. -/
def Unprefixed (env : Env) (hosts : List String) : Prop :=
  ∀ h ∈ hosts, ∀ ds, IsNumeral ds → String.ofList ds ++ h ∈ hosts →
    env.replicas ≤ decimal ('1' :: ds)

/-! ## Labels

The number of a node is written in decimal. So two labels are equal when their digits and hosts are cut at
the same place, or when one host takes up the last digits of the number of the other; the smallest number
that can give the digits `ds` away is `1` with `ds` behind it. -/

theorem toList_label (i : Nat) (host : String) :
    (label i host).toList = Nat.toDigits 10 i ++ host.toList := by
  unfold label
  rw [String.toList_append, Nat.toString_eq_repr, Nat.toList_repr]

/-- The number one and digits behind it. -/
theorem decimal_one_cons (ds : List Char) :
    decimal ('1' :: ds) = 10 ^ ds.length + Nat.ofDigitChars 10 ds 0 := by
  show Nat.ofDigitChars 10 ('1' :: ds) 0 = _
  rw [Nat.ofDigitChars_cons, Nat.ofDigitChars_eq_ofDigitChars_zero,
    show 10 * 0 + ('1'.toNat - '0'.toNat) = 1 from rfl, Nat.mul_one]

/-- The first number whose label gives digits away. -/
theorem label_one (ds : List Char) (hds : IsNumeral ds) (host : String) :
    label (decimal ('1' :: ds)) host = label 1 (String.ofList ds ++ host) := by
  have hdigits : ∀ c ∈ '1' :: ds, c.isDigit = true := by
    intro c hc
    rcases List.mem_cons.mp hc with rfl | hc
    · decide
    · exact List.all_eq_true.mp hds.2 c hc
  have hwritten : Nat.toDigits 10 (decimal ('1' :: ds)) = '1' :: ds :=
    toDigits_ofDigitChars (by decide) hdigits
  apply String.toList_injective
  rw [toList_label, toList_label, hwritten, String.toList_append, String.toList_ofList]
  rfl

/-- If a number is another with digits behind it, it is not below the first such. -/
theorem decimal_le_of_toDigits {ds : List Char} (h : Nat.toDigits 10 j = Nat.toDigits 10 i ++ ds)
    (hne : ds ≠ []) : IsNumeral ds ∧ decimal ('1' :: ds) ≤ j := by
  obtain ⟨hi, hj⟩ := toDigits_eq_append h hne
  refine ⟨⟨hne, List.all_eq_true.mpr fun c hc => ?_⟩, ?_⟩
  · exact Nat.isDigit_of_mem_toDigits (b := 10) (n := j) (by decide) (by decide)
      (by rw [h]; exact List.mem_append_right _ hc)
  · have hle : 10 ^ ds.length * 1 ≤ 10 ^ ds.length * i := Nat.mul_le_mul_left _ hi
    rw [decimal_one_cons]
    omega

/-- Digits that stand in the number of one node and in the host of the other: there are none and the
nodes are the same, or one host is the other behind them. -/
theorem same_or_behind {ds : List Char} (hnumber : Nat.toDigits 10 j = Nat.toDigits 10 i ++ ds)
    (hhost : h.toList = ds ++ h'.toList) : (i = j ∧ h = h') ∨
      ∃ ds, IsNumeral ds ∧ decimal ('1' :: ds) ≤ j ∧ h = String.ofList ds ++ h' := by
  by_cases hne : ds = []
  · subst hne
    rw [List.append_nil] at hnumber
    refine .inl ⟨?_, String.toList_injective hhost⟩
    rw [← Nat.ofDigitChars_ten_toDigits (n := i), ← hnumber, Nat.ofDigitChars_ten_toDigits]
  · obtain ⟨hds, hle⟩ := decimal_le_of_toDigits hnumber hne
    refine .inr ⟨ds, hds, hle, String.toList_injective ?_⟩
    rw [hhost, String.toList_append, String.toList_ofList]

/-- Two nodes have the same label when they are the same, or one host is the other behind digits that
the number of the other ends in. -/
theorem label_eq (heq : label i h = label j h') : (i = j ∧ h = h') ∨
    (∃ ds, IsNumeral ds ∧ decimal ('1' :: ds) ≤ j ∧ h = String.ofList ds ++ h') ∨
    (∃ ds, IsNumeral ds ∧ decimal ('1' :: ds) ≤ i ∧ h' = String.ofList ds ++ h) := by
  have htexts := congrArg String.toList heq
  rw [toList_label, toList_label, List.append_eq_append_iff] at htexts
  obtain ⟨ds, hnumber, hhost⟩ | ⟨ds, hnumber, hhost⟩ := htexts
  · obtain hsame | hbehind := same_or_behind hnumber hhost
    · exact .inl hsame
    · exact .inr (.inl hbehind)
  · obtain ⟨rfl, rfl⟩ | hbehind := same_or_behind hnumber hhost
    · exact .inl ⟨rfl, rfl⟩
    · exact .inr (.inr hbehind)

/-- Under a good hash function it is the labels that keep the nodes apart. -/
theorem distinctNodes_iff (hhash : DistinctHashes env hosts) :
    DistinctNodes env hosts ↔ Unprefixed env hosts := by
  constructor
  · intro hnodes h hh ds hds hh'
    -- with enough replicas both nodes exist, and they have one label
    by_contra hlt
    have hlt : (decimal ('1' :: ds) : Int) < env.replicas := not_le.mp hlt
    have hone : ((1 : Nat) : Int) < env.replicas := by
      have hpos : 1 ≤ 10 ^ ds.length := Nat.one_le_pow _ _ (by decide)
      rw [decimal_one_cons] at hlt
      omega
    have hlabel := congrArg env.hash (label_one ds hds h)
    obtain ⟨hnumber, -⟩ := hnodes h hh _ hh' _ _ hlt hone hlabel
    -- but the number has more digits than the one
    have hpos : 10 ^ 1 ≤ 10 ^ ds.length :=
      Nat.pow_le_pow_right (by decide) (List.length_pos_iff.mpr hds.1)
    rw [decimal_one_cons] at hnumber
    omega
  · intro hun h hh h' hh' i j hi hj heq
    obtain hsame | ⟨ds, hds, hle, rfl⟩ | ⟨ds, hds, hle, rfl⟩ :=
      label_eq (hhash h hh h' hh' i j hi hj heq)
    · exact hsame
    · have hbound := hun h' hh' ds hds hh
      omega
    · have hbound := hun h hh ds hds hh'
      omega

/-! ## The length of a ring

`Len` counts the hashes that have an owner. Every node of a host has one, and nothing else does, so the
length is the number of different hashes. -/

/-- What is in the map are the hashes of all nodes of all hosts. -/
theorem keys_hosts (B : BuiltFrom env hosts c) : c.hosts.keys =
    (Finset.range env.replicas.toNat ×ˢ hosts.toFinset).image fun p => env.hash (label p.1 p.2) := by
  ext k
  -- a hash has an owner when it is the hash of a node of some host
  have howner : k ∈ c.hosts.keys ↔ ∃ h ∈ hosts, VirtualNode env k h := by
    rw [Finmap.mem_keys, ← Finmap.lookup_isSome, Option.isSome_iff_exists]
    constructor
    · rintro ⟨h, hlookup⟩
      obtain ⟨before, after, rfl, hnode, -⟩ := (B.built.owner k h).mp hlookup
      exact ⟨h, by simp, mem_nodes.mp hnode⟩
    · rintro ⟨h, hmem, hnode⟩
      exact B.built.owned ((B.built.mem k).mpr ⟨h, hmem, mem_nodes.mpr hnode⟩)
  rw [howner]
  simp only [Finset.mem_image, Finset.mem_product, Finset.mem_range, List.mem_toFinset, Prod.exists]
  constructor
  · rintro ⟨h, hmem, i, hi, hhash⟩
    exact ⟨i, h, ⟨by omega, hmem⟩, hhash⟩
  · rintro ⟨i, h, ⟨hi, hmem⟩, hhash⟩
    exact ⟨h, hmem, i, by omega, hhash⟩

/-- The length is the number of pairs of a node and a host, if no two of these hash alike. -/
theorem len_eq_iff (B : BuiltFrom env hosts c) :
    c.len = env.replicas.toNat * hosts.toFinset.card ↔ DistinctNodes env hosts := by
  unfold len
  have hcard : (Finset.range env.replicas.toNat ×ˢ hosts.toFinset).card =
      env.replicas.toNat * hosts.toFinset.card := by
    rw [Finset.card_product, Finset.card_range]
  rw [keys_hosts B, ← hcard, Finset.card_image_iff]
  constructor
  · intro hinj h hh h' hh' i j hi hj heq
    have hpair : (i, h) = (j, h') := hinj (by simp [hh]; omega) (by simp [hh']; omega) heq
    exact Prod.mk.inj hpair
  · rintro hnodes ⟨i, h⟩ hp ⟨j, h'⟩ hp' heq
    simp only [Finset.coe_product, Set.mem_prod, Finset.mem_coe, Finset.mem_range,
      List.mem_toFinset] at hp hp'
    obtain ⟨rfl, rfl⟩ := hnodes h hp.2 h' hp'.2 i j (by omega) (by omega) heq
    rfl

/-- A node whose hash no other host has stays with its host. -/
theorem lookup_of_distinctNodes (B : BuiltFrom env hosts c) (hnodes : DistinctNodes env hosts)
    (hhost : host ∈ hosts) (hi : (i : Int) < env.replicas) :
    c.hosts.lookup (env.hash (label i host)) = some host := by
  have hnode : VirtualNode env (env.hash (label i host)) host := ⟨i, hi, rfl⟩
  obtain ⟨last, howner⟩ := B.built.owned ((B.built.mem _).mpr ⟨host, hhost, mem_nodes.mpr hnode⟩)
  obtain ⟨before, after, hsplit, hlast, -⟩ := (B.built.owner _ last).mp howner
  obtain ⟨j, hj, hhash⟩ := mem_nodes.mp hlast
  obtain ⟨-, rfl⟩ := hnodes last (by rw [hsplit]; simp) host hhost j i hj hi hhash
  exact howner

/-- A ring is spread when no two nodes of its hosts hash alike; fewer than no replicas make an empty ring,
which is spread over no hosts only. -/
theorem spread_iff (B : BuiltFrom env hosts c) :
    Spread env hosts c ↔ (hosts = [] ∨ 0 ≤ env.replicas) ∧ DistinctNodes env hosts := by
  rw [← len_eq_iff B]
  have hkeeps : c.len = env.replicas.toNat * hosts.toFinset.card →
      ∀ host ∈ hosts, ∀ i : Nat, (i : Int) < env.replicas →
        c.hosts.lookup (env.hash (label i host)) = some host :=
    fun hlen host hhost i hi => lookup_of_distinctNodes B ((len_eq_iff B).mp hlen) hhost hi
  by_cases hpos : 0 ≤ env.replicas
  · have hcast : (c.len : Int) = env.replicas * hosts.toFinset.card ↔
        c.len = env.replicas.toNat * hosts.toFinset.card := by
      rw [← Int.toNat_of_nonneg hpos, Int.toNat_natCast]
      exact_mod_cast Iff.rfl
    exact ⟨fun S => ⟨.inr hpos, hcast.mp S.len_eq⟩, fun ⟨_, hlen⟩ => ⟨hcast.mpr hlen, hkeeps hlen⟩⟩
  · -- below zero there are no nodes
    have hzero : env.replicas.toNat = 0 := by omega
    rw [hzero, Nat.zero_mul] at hkeeps ⊢
    constructor
    · intro S
      have hcard : hosts.toFinset.card = 0 := by
        by_contra hne
        -- the length would have to be negative
        have hneg := Int.mul_neg_of_neg_of_pos (not_le.mp hpos)
          (Int.natCast_pos.mpr (Nat.pos_of_ne_zero hne))
        have hlen := S.len_eq
        omega
      have hnil : hosts = [] := List.toFinset_eq_empty_iff hosts |>.mp (Finset.card_eq_zero.mp hcard)
      refine ⟨.inl hnil, ?_⟩
      have hlen := S.len_eq
      rw [hcard] at hlen
      omega
    · rintro ⟨hnil | hle, hlen⟩
      · refine ⟨?_, hkeeps hlen⟩
        rw [hlen, hnil]
        simp
      · exact absurd hle hpos

/-- With a hash function that keeps the labels apart, every host has all its virtual nodes if and
only if no host is another behind digits that a number of a node ends in. -/
theorem grow_spread (env : Env) (hosts adds : List String)
    (hhash : DistinctHashes env (hosts ++ adds)) :
    Spread env (hosts ++ adds) (grow env hosts adds) ↔
      (hosts ++ adds = [] ∨ 0 ≤ env.replicas) ∧ Unprefixed env (hosts ++ adds) := by
  rw [grow_eq_new, spread_iff (builtFrom_new env _), distinctNodes_iff hhash]

/-- Two hosts that are not each other's tails. -/
theorem grow_spread_two : Spread ⟨fun s => s.length, 1⟩ ["a:80", "bb:80"] (grow ⟨fun s => s.length, 1⟩ ["a:80"] ["bb:80"]) ↔
    (["a:80", "bb:80"] = [] ∨ 0 ≤ (1 : Int)) ∧ Unprefixed ⟨fun s => s.length, 1⟩ ["a:80", "bb:80"] :=
  grow_spread ⟨fun s => s.length, 1⟩ ["a:80"] ["bb:80"] (by decide +kernel)

/-- A hash function of 32 bits, and twelve replicas. -/
def twelve : Env := ⟨fun s => s.toList.foldl (fun n ch => (31 * n + ch.toNat) % 2 ^ 32) 0, 12⟩

/-- Node `11` of `1.2.3.4:80` is node `1` of `11.2.3.4:80`. -/
theorem not_grow_spread : ¬ ∀ (env : Env) (hosts adds : List String),
    DistinctHashes env (hosts ++ adds) → Spread env (hosts ++ adds) (grow env hosts adds) := by
  intro h
  have S := h twelve ["1.2.3.4:80"] ["11.2.3.4:80"] (by decide +kernel)
  have hfirst := S.keeps "1.2.3.4:80" (by simp) 11 (by decide)
  have hsecond := S.keeps "11.2.3.4:80" (by simp) 1 (by decide)
  rw [show label 11 "1.2.3.4:80" = label 1 "11.2.3.4:80" by decide +kernel, hsecond] at hfirst
  revert hfirst
  decide

end ConsistenceHash

end Cheryl.Balancer
