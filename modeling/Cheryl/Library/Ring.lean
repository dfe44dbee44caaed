import Mathlib.Algebra.BigOperators.Group.Finset.Basic
import Mathlib.Algebra.Order.BigOperators.Group.Finset
import Mathlib.Data.List.Sort

/-!
# Rings of owned keys

A ring for consistent hashing is a sorted list of keys, with an owner for each key. Every member
contributes its points; an input goes to the owner of the first key that is not below it. This file
says what a list of keys and an owner function must satisfy to represent a set of members
(`Carries`), and which additions and removals keep that.

The keys are a list with repetitions, since two members may share a point. A removal takes as many
keys away as the member has points, so it is sound exactly when none of them is shared.
-/

namespace Cheryl.Library

open Finset

variable {κ η : Type} [LinearOrder κ]

/-! ## Looking a key up in a sorted list

`firstNotBelow` is the place where a binary search ends. What it finds is stated without places, as the
successor of the input among the keys, and a successor depends on the set of keys alone. -/

def firstNotBelow (keys : List κ) (k : κ) : Nat := keys.findIdx fun x => decide (k ≤ x)

/-- A key that is there is at that position. -/
theorem eraseIdx_firstNotBelow {keys : List κ} (hsorted : keys.Pairwise (· ≤ ·)) {k : κ}
    (hk : k ∈ keys) : firstNotBelow keys k < keys.length ∧
      keys.eraseIdx (firstNotBelow keys k) = keys.erase k := by
  induction keys with
  | nil => cases hk
  | cons x keys ih =>
      obtain ⟨hx, htail⟩ := List.pairwise_cons.mp hsorted
      unfold firstNotBelow at ih ⊢
      rw [List.findIdx_cons]
      by_cases hkx : k ≤ x
      · -- the keys are sorted, so `x` is the key itself
        have heq : x = k := by
          rcases List.mem_cons.mp hk with rfl | hmem
          · rfl
          · exact le_antisymm (hx k hmem) hkx
        subst heq
        simp
      · have hne : x ≠ k := fun heq => hkx (heq ▸ le_refl x)
        have hmem : k ∈ keys := (List.mem_cons.mp hk).resolve_left fun heq => hne heq.symm
        obtain ⟨hlt, herase⟩ := ih htail hmem
        simp only [hkx, decide_false, cond_false, List.length_cons, List.eraseIdx_cons_succ]
        exact ⟨by omega, by rw [herase, List.erase_cons_tail (by simpa using hne)]⟩

/-- The key an input goes to: the smallest that is not below it, or the smallest of all when all are
below it. -/
def IsSuccessor (K : Set κ) (x k : κ) : Prop :=
  k ∈ K ∧ ((x ≤ k ∧ ∀ k' ∈ K, x ≤ k' → k ≤ k') ∨ ((∀ k' ∈ K, k' < x) ∧ ∀ k' ∈ K, k ≤ k'))

/-- An input goes to one key. -/
theorem IsSuccessor.unique {K : Set κ} {x k k' : κ} (h : IsSuccessor K x k) (h' : IsSuccessor K x k') :
    k = k' := by
  obtain ⟨hk, ⟨hx, hmin⟩ | ⟨hbelow, hmin⟩⟩ := h
  · obtain ⟨hk', ⟨hx', hmin'⟩ | ⟨hbelow', -⟩⟩ := h'
    · exact le_antisymm (hmin k' hk' hx') (hmin' k hk hx)
    · exact absurd hx (not_le.mpr (hbelow' k hk))
  · obtain ⟨hk', ⟨hx', -⟩ | ⟨-, hmin'⟩⟩ := h'
    · exact absurd hx' (not_le.mpr (hbelow k' hk'))
    · exact le_antisymm (hmin k' hk') (hmin' k hk)

/-- With fewer keys an input goes to the same key, if that is still there. -/
theorem IsSuccessor.subset {K K' : Set κ} {x k : κ} (h : IsSuccessor K' x k) (hk : k ∈ K)
    (hsub : K ⊆ K') : IsSuccessor K x k := by
  obtain ⟨-, ⟨hx, hmin⟩ | ⟨hbelow, hmin⟩⟩ := h
  · exact ⟨hk, .inl ⟨hx, fun k' hk' => hmin k' (hsub hk')⟩⟩
  · exact ⟨hk, .inr ⟨fun k' hk' => hbelow k' (hsub hk'), fun k' hk' => hmin k' (hsub hk')⟩⟩

/-- With some keys gone and others come, an input goes to the same key, unless that is one of those. -/
theorem IsSuccessor.eq_of_mem {K K' : Set κ} {x k k' : κ} (h : IsSuccessor K x k)
    (h' : IsSuccessor K' x k') (hk : k ∈ K') (hk' : k' ∈ K) : k = k' := by
  have hleft : IsSuccessor (K ∩ K') x k := h.subset ⟨h.1, hk⟩ Set.inter_subset_left
  have hright : IsSuccessor (K ∩ K') x k' := h'.subset ⟨hk', h'.1⟩ Set.inter_subset_right
  exact hleft.unique hright

/-- The search in a sorted list, taken modulo its length, finds the key an input goes to. -/
theorem isSuccessor_firstNotBelow {keys : List κ} (hsorted : keys.Pairwise (· ≤ ·)) (hne : keys ≠ [])
    (x : κ) : ∃ k, keys[firstNotBelow keys x % keys.length]? = some k ∧
      IsSuccessor {k | k ∈ keys} x k := by
  have hpos := List.length_pos_iff.mpr hne
  have hle : firstNotBelow keys x ≤ keys.length := List.findIdx_le_length
  rcases Nat.lt_or_eq_of_le hle with hlt | hend
  · rw [Nat.mod_eq_of_lt hlt]
    refine ⟨_, List.getElem?_eq_getElem hlt, List.getElem_mem hlt, .inl ⟨?_, fun k' hk' hx => ?_⟩⟩
    -- the key found is not below `x`, and all before it are
    · have hfound := List.findIdx_getElem (w := hlt)
      exact of_decide_eq_true hfound
    · obtain ⟨j, hj, rfl⟩ := List.getElem_of_mem hk'
      have hge : firstNotBelow keys x ≤ j := by
        by_contra hnot
        have hbelow : decide (x ≤ keys[j]) = false := List.not_of_lt_findIdx (Nat.lt_of_not_le hnot)
        simp [hx] at hbelow
      rcases Nat.lt_or_eq_of_le hge with hbefore | heq
      · exact List.pairwise_iff_getElem.mp hsorted _ _ hlt hj hbefore
      · simp only [heq, le_refl]
  · -- every key is below `x`, and the search wraps to the first
    rw [hend, Nat.mod_self]
    refine ⟨_, List.getElem?_eq_getElem hpos, List.getElem_mem hpos, .inr ⟨fun k' hk' => ?_, fun k' hk' => ?_⟩⟩
    · have hall := List.findIdx_eq_length.mp hend k' hk'
      simpa using hall
    · obtain ⟨j, hj, rfl⟩ := List.getElem_of_mem hk'
      rcases Nat.eq_zero_or_pos j with rfl | hjpos
      · exact le_refl _
      · exact List.pairwise_iff_getElem.mp hsorted _ _ hpos hj hjpos

/-! ## Rings

A member puts its points on the ring, and two members may share a point: then the point is a key twice, with
one owner. `Carries` is what is left to say of such a ring. It is kept by every addition, and by a removal
if no point of the member is shared. -/

/-- The keys and their owners represent the members: every key is a point of the member that owns
it, and every member has its points among the keys, however often they are shared. -/
structure Carries (points : η → List κ) (M : Finset η) (keys : List κ) (owner : κ → Option η) :
    Prop where
  owned : ∀ k ∈ keys, ∃ h ∈ M, k ∈ points h ∧ owner k = some h
  counted : ∀ k, ∑ h ∈ M, (points h).count k ≤ keys.count k

/-- The points of a member are on the ring once, and nobody else's. -/
def Unshared (points : η → List κ) (keys : List κ) (h : η) : Prop :=
  ∀ k ∈ points h, keys.count k = (points h).count k

instance (points : η → List κ) (keys : List κ) (h : η) : Decidable (Unshared points keys h) :=
  inferInstanceAs (Decidable (∀ k ∈ points h, _))

namespace Carries

variable [DecidableEq η] {points : η → List κ} {M : Finset η} {keys keys' : List κ} {owner owner' : κ → Option η}
  {h : η}

omit [DecidableEq η] in
/-- The ring without members. -/
theorem empty (points : η → List κ) (owner : κ → Option η) : Carries points ∅ [] owner where
  owned := fun k hk => by cases hk
  counted := fun k => by simp

/-- A new member, or one that adds its points once more. -/
theorem add (C : Carries points M keys owner) (h : η)
    (hkeys : ∀ k, keys'.count k = keys.count k + (points h).count k)
    (howner : ∀ k, owner' k = if k ∈ points h then some h else owner k) :
    Carries points (insert h M) keys' owner' where
  owned := by
    intro k hk
    rw [howner]
    by_cases hmem : k ∈ points h
    · exact ⟨h, mem_insert_self h M, hmem, by rw [if_pos hmem]⟩
    · have hold : k ∈ keys := by
        have hpos := List.count_pos_iff.mpr hk
        rw [hkeys, List.count_eq_zero_of_not_mem hmem] at hpos
        exact List.count_pos_iff.mp (by omega)
      obtain ⟨h', hM, hpoint, hown⟩ := C.owned k hold
      exact ⟨h', mem_insert_of_mem hM, hpoint, by rw [if_neg hmem, hown]⟩
  counted := by
    intro k
    rw [hkeys]
    have hold := C.counted k
    -- a member that was there has its points twice now
    by_cases hM : h ∈ M
    · rw [insert_eq_self.mpr hM]
      omega
    · rw [sum_insert hM]
      omega

/-- A member whose points are not shared leaves nothing behind. -/
theorem remove (C : Carries points M keys owner) (hM : h ∈ M) (hun : Unshared points keys h)
    (hkeys : ∀ k, keys'.count k = keys.count k - (points h).count k)
    (howner : ∀ k, owner' k = if k ∈ points h then none else owner k) :
    Carries points (M.erase h) keys' owner' where
  owned := by
    intro k hk
    have hpos := List.count_pos_iff.mpr hk
    rw [hkeys] at hpos
    have hmem : k ∉ points h := by
      intro hmem
      have hcount := hun k hmem
      omega
    obtain ⟨h', hM', hpoint, hown⟩ := C.owned k (List.count_pos_iff.mp (by omega))
    have hne : h' ≠ h := by
      rintro rfl
      exact hmem hpoint
    exact ⟨h', mem_erase.mpr ⟨hne, hM'⟩, hpoint, by rw [howner, if_neg hmem, hown]⟩
  counted := by
    intro k
    have hsum := C.counted k
    rw [← add_sum_erase M (fun h => (points h).count k) hM] at hsum
    rw [hkeys]
    omega

/-- The ring is empty when it has no members, if members have points. -/
theorem keys_eq_nil (C : Carries points M keys owner) (hpoints : ∀ h ∈ M, points h ≠ []) :
    keys = [] ↔ M = ∅ := by
  constructor
  · intro hnil
    by_contra hne
    obtain ⟨h, hM⟩ := nonempty_of_ne_empty hne
    obtain ⟨k, hk⟩ := List.exists_mem_of_ne_nil _ (hpoints h hM)
    have hle : (points h).count k ≤ ∑ h ∈ M, (points h).count k :=
      single_le_sum (f := fun h => (points h).count k) (fun _ _ => Nat.zero_le _) hM
    have hsum := C.counted k
    have hpos := List.count_pos_iff.mpr hk
    rw [hnil, List.count_nil] at hsum
    omega
  · rintro rfl
    rw [List.eq_nil_iff_forall_not_mem]
    intro k hk
    obtain ⟨h, hM, -⟩ := C.owned k hk
    exact notMem_empty h hM

end Carries

/-! ## Rings without shared points

If no two members share a point, a ring says who is on it and nothing else: the keys are exactly the points
of the members. So additions and removals can be undone, and the ring does not remember in which order they
came. -/

/-- The keys are the points of the members, as often as these have them, and each is owned by the
member whose point it is. So nothing is left of how the ring came about. -/
structure Exact (points : η → List κ) (M : Finset η) (keys : List κ) (owner : κ → Option η) :
    Prop where
  counted : ∀ k, keys.count k = ∑ h ∈ M, (points h).count k
  owner : ∀ k h, owner k = some h ↔ h ∈ M ∧ k ∈ points h

/-- The member shares no point with another. -/
def Apart (points : η → List κ) (M : Finset η) (h : η) : Prop :=
  ∀ h' ∈ M, ∀ k, k ∈ points h → k ∈ points h' → h' = h

namespace Exact

variable {points : η → List κ} {M : Finset η} {keys keys' : List κ} {owner owner' : κ → Option η} {h : η}

/-- The ring without members. -/
theorem empty (points : η → List κ) : Exact points ∅ [] fun _ => none where
  counted := fun k => by simp
  owner := fun k h => by simp

/-- A new member that shares no point. -/
theorem add [DecidableEq η] (E : Exact points M keys owner) (hM : h ∉ M) (hapart : Apart points M h)
    (hkeys : ∀ k, keys'.count k = keys.count k + (points h).count k)
    (howner : ∀ k, owner' k = if k ∈ points h then some h else owner k) :
    Exact points (insert h M) keys' owner' where
  counted := by
    intro k
    rw [hkeys, E.counted, sum_insert hM, Nat.add_comm]
  owner := by
    intro k h'
    rw [howner, mem_insert]
    by_cases hk : k ∈ points h
    · rw [if_pos hk, Option.some_inj]
      constructor
      · rintro rfl
        exact ⟨.inl rfl, hk⟩
      · rintro ⟨rfl | hM', hk'⟩
        · rfl
        · exact (hapart h' hM' k hk hk').symm
    · rw [if_neg hk, E.owner]
      constructor
      · exact fun ⟨hM', hk'⟩ => ⟨.inr hM', hk'⟩
      · rintro ⟨rfl | hM', hk'⟩
        · exact absurd hk' hk
        · exact ⟨hM', hk'⟩

/-- The points of a member are on the ring, as often as it has them. -/
theorem count_le (E : Exact points M keys owner) (hM : h ∈ M) (k : κ) :
    (points h).count k ≤ keys.count k := by
  rw [E.counted]
  exact single_le_sum (f := fun h => (points h).count k) (fun _ _ => Nat.zero_le _) hM

/-- A member that shares no point goes. -/
theorem remove [DecidableEq η] (E : Exact points M keys owner) (hM : h ∈ M) (hapart : Apart points M h)
    (hkeys : ∀ k, keys'.count k = keys.count k - (points h).count k)
    (howner : ∀ k, owner' k = if k ∈ points h then none else owner k) :
    Exact points (M.erase h) keys' owner' where
  counted := by
    intro k
    have hsum := E.counted k
    rw [← add_sum_erase M (fun h => (points h).count k) hM] at hsum
    rw [hkeys]
    omega
  owner := by
    intro k h'
    rw [howner, mem_erase]
    by_cases hk : k ∈ points h
    · rw [if_pos hk]
      refine ⟨fun hnone => (by cases hnone), fun ⟨⟨hne, hM'⟩, hk'⟩ => ?_⟩
      exact absurd (hapart h' hM' k hk hk') hne
    · rw [if_neg hk, E.owner]
      refine ⟨fun ⟨hM', hk'⟩ => ⟨⟨?_, hM'⟩, hk'⟩, fun ⟨⟨_, hM'⟩, hk'⟩ => ⟨hM', hk'⟩⟩
      rintro rfl
      exact hk hk'

/-- The members determine the ring. -/
theorem unique (E : Exact points M keys owner) (E' : Exact points M keys' owner')
    (hsorted : keys.Pairwise (· ≤ ·)) (hsorted' : keys'.Pairwise (· ≤ ·)) :
    keys = keys' ∧ owner = owner' := by
  constructor
  -- sorted lists with the same elements, as often
  · have hperm : keys.Perm keys' :=
      List.perm_iff_count.mpr fun k => (E.counted k).trans (E'.counted k).symm
    exact hperm.eq_of_pairwise (fun _ _ _ _ => le_antisymm) hsorted hsorted'
  · funext k
    rw [Option.ext_iff]
    intro h
    rw [E.owner, E'.owner]

end Exact

/-! ## Rings that only grow

Where members share points and none is ever removed, the owner of a key is still determined, by the order in
which the members came: each addition takes over the keys of its points. -/

def IsLast (P : η → Prop) (l : List η) (x : η) : Prop :=
  ∃ before after, l = before ++ x :: after ∧ P x ∧ ∀ y ∈ after, ¬ P y

/-- The last entry of a longer list. -/
theorem isLast_snoc {P : η → Prop} {l : List η} {x y : η} :
    IsLast P (l ++ [y]) x ↔ (P y ∧ x = y) ∨ (¬ P y ∧ IsLast P l x) := by
  constructor
  · rintro ⟨before, after, heq, hx, hafter⟩
    rcases List.eq_nil_or_concat after with rfl | ⟨after', z, rfl⟩
    · obtain ⟨-, hlast⟩ := List.append_inj' heq rfl
      cases hlast
      exact .inl ⟨hx, rfl⟩
    · rw [List.concat_eq_append, ← List.cons_append, ← List.append_assoc] at heq
      obtain ⟨hinit, hlast⟩ := List.append_inj' heq rfl
      cases hlast
      refine .inr ⟨hafter y (by simp), before, after', hinit, hx, fun z hz => hafter z (by simp [hz])⟩
  · rintro (⟨hy, rfl⟩ | ⟨hy, before, after, rfl, hx, hafter⟩)
    · exact ⟨l, [], rfl, hy, by simp⟩
    · refine ⟨before, after ++ [y], by simp, hx, fun z hz => ?_⟩
      rcases List.mem_append.mp hz with hz | hz
      · exact hafter z hz
      · rw [List.mem_singleton.mp hz]
        exact hy

/-- If an entry has the property, there is a last that has it. -/
theorem exists_isLast {P : η → Prop} {l : List η} {y : η} (hmem : y ∈ l) (hy : P y) :
    ∃ x, IsLast P l x := by
  induction l using List.reverseRecOn with
  | nil => cases hmem
  | append_singleton l z ih =>
      by_cases hz : P z
      · exact ⟨z, isLast_snoc.mpr (.inl ⟨hz, rfl⟩)⟩
      · have hne : y ≠ z := by
          rintro rfl
          exact hz hy
        obtain ⟨x, hx⟩ := ih ((List.mem_append.mp hmem).resolve_right (by simpa using hne))
        exact ⟨x, isLast_snoc.mpr (.inr ⟨hz, hx⟩)⟩

/-- The ring to which the members have been added in this order, some of them more than once: its
keys are their points, and a key belongs to the one that was added last of those it is a point of. -/
structure Built (points : η → List κ) (hs : List η) (keys : List κ) (owner : κ → Option η) : Prop where
  mem : ∀ k, k ∈ keys ↔ ∃ h ∈ hs, k ∈ points h
  owner : ∀ k h, owner k = some h ↔ IsLast (fun h => k ∈ points h) hs h

namespace Built

variable {points : η → List κ} {hs : List η} {keys keys' : List κ} {owner owner' : κ → Option η} {h : η}

omit [LinearOrder κ] in
theorem nil (points : η → List κ) : Built points [] [] fun _ => none where
  mem := by simp
  owner := by
    intro k h
    simp [IsLast]

omit [LinearOrder κ] in
/-- One more member takes over the keys of its points. -/
theorem add [DecidableEq κ] (B : Built points hs keys owner) (h : η)
    (hkeys : ∀ k, k ∈ keys' ↔ k ∈ keys ∨ k ∈ points h)
    (howner : ∀ k, owner' k = if k ∈ points h then some h else owner k) :
    Built points (hs ++ [h]) keys' owner' where
  mem := by
    intro k
    rw [hkeys, B.mem]
    simp only [List.mem_append, List.mem_singleton, or_and_right, exists_or, exists_eq_left]
  owner := by
    intro k h'
    rw [howner, isLast_snoc, ← B.owner]
    by_cases hk : k ∈ points h
    · simp [hk, eq_comm]
    · simp [hk]

omit [LinearOrder κ] in
/-- A key has an owner. -/
theorem owned (B : Built points hs keys owner) {k : κ} (hk : k ∈ keys) : ∃ h, owner k = some h := by
  obtain ⟨h, hmem, hpoint⟩ := (B.mem k).mp hk
  obtain ⟨last, hlast⟩ := exists_isLast (P := fun h => k ∈ points h) hmem hpoint
  exact ⟨last, (B.owner k last).mpr hlast⟩

omit [LinearOrder κ] in
/-- An owner has been added, and the key is one of its points. -/
theorem mem_of_owner (B : Built points hs keys owner) {k : κ} (hk : owner k = some h) :
    h ∈ hs ∧ k ∈ points h := by
  obtain ⟨before, after, rfl, hpoint, -⟩ := (B.owner k h).mp hk
  exact ⟨by simp, hpoint⟩

end Built

end Cheryl.Library
