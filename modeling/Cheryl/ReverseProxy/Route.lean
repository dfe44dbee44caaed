import Cheryl.ReverseProxy.ProxyMap

/-!
# What `Route` finds

`Route` tries the slashes of the path from the end, and takes the first with a pattern before it. So
it finds the longest pattern that the path continues with a slash, and hands on all that comes
behind the pattern (`route_spec`). Characters are only compared and cut apart, so it makes no
difference that those of the source are bytes.
-/

namespace Cheryl.ReverseProxy

variable {hosts : GoMap String Nat} {path : List Char} {a : Nat} {rest : String}

namespace Node

/-! ## The search

The loop counts positions down and stops at the first slash with a pattern before it. Seen from its result
that is the last such slash of the path, with no other between it and the end. -/

/-- What the search finds among the first positions: the last slash of those with a pattern before
it. -/
theorem route_eq_some {i : Nat} : route hosts path i = some (a, rest) ↔
    ∃ j < i, path[j]? = some '/' ∧ hosts.lookup (String.ofList (path.take j)) = some a ∧
      rest = String.ofList (path.drop j) ∧
      ∀ k, j < k → k < i → path[k]? = some '/' → hosts.lookup (String.ofList (path.take k)) = none := by
  induction i with
  | zero => simp [route]
  | succ i ih =>
      -- below the last position nothing changes, if nothing is found there
      have hbelow (hlast : path[i]? = some '/' → hosts.lookup (String.ofList (path.take i)) = none) :
          route hosts path (i + 1) = route hosts path i := by
        rw [route]
        split
        · next hslash => rw [hlast hslash]
        · rfl
      -- either the last position is the one that is found, or it changes nothing
      by_cases hlast : path[i]? = some '/' ∧ hosts.lookup (String.ofList (path.take i)) ≠ none
      · obtain ⟨hslash, hsome⟩ := hlast
        obtain ⟨b, hb⟩ := Option.ne_none_iff_exists'.mp hsome
        rw [route, if_pos hslash, hb]
        constructor
        · intro h
          cases h
          exact ⟨i, by omega, hslash, hb, rfl, fun k _ _ => by omega⟩
        · rintro ⟨j, hj, -, hlookup, rfl, hnone⟩
          have heq : j = i := by
            by_contra hne
            exact hsome (hnone i (by omega) (by omega) hslash)
          subst heq
          rw [hb] at hlookup
          cases hlookup
          rfl
      · have hnone (hslash : path[i]? = some '/') : hosts.lookup (String.ofList (path.take i)) = none := by
          by_contra hsome
          exact hlast ⟨hslash, hsome⟩
        rw [hbelow hnone, ih]
        constructor
        · rintro ⟨j, hj, hslash, hlookup, hrest, hlater⟩
          refine ⟨j, by omega, hslash, hlookup, hrest, fun k hk hki hkslash => ?_⟩
          rcases Nat.lt_or_eq_of_le (Nat.le_of_lt_succ hki) with hlt | rfl
          · exact hlater k hk hlt hkslash
          · exact hnone hkslash
        · rintro ⟨j, hj, hslash, hlookup, hrest, hlater⟩
          have hne : j ≠ i := by
            rintro rfl
            rw [hnone hslash] at hlookup
            cases hlookup
          exact ⟨j, by omega, hslash, hlookup, hrest, fun k hk hki => hlater k hk (by omega)⟩

/-- The search finds nothing when no slash has a pattern before it. -/
theorem route_eq_none {i : Nat} : route hosts path i = none ↔
    ∀ j < i, path[j]? = some '/' → hosts.lookup (String.ofList (path.take j)) = none := by
  induction i with
  | zero => simp [route]
  | succ i ih =>
      rw [route]
      by_cases hslash : path[i]? = some '/'
      · rw [if_pos hslash]
        cases hlookup : hosts.lookup (String.ofList (path.take i)) with
        | some b =>
            refine ⟨fun h => (by cases h), fun h => ?_⟩
            rw [h i (by omega) hslash] at hlookup
            cases hlookup
        | none =>
            show route hosts path i = none ↔ _
            rw [ih]
            refine ⟨fun h j hj => ?_, fun h j hj => h j (by omega)⟩
            rcases Nat.lt_or_eq_of_le (Nat.le_of_lt_succ hj) with hlt | rfl
            · exact h j hlt
            · exact fun _ => hlookup
      · rw [if_neg hslash, ih]
        refine ⟨fun h j hj hjslash => ?_, fun h j hj => h j (by omega)⟩
        have hne : j ≠ i := by
          rintro rfl
          exact hslash hjslash
        exact h j (by omega) hjslash

end Node

/-- The routes of the router lead to the proxies it holds. -/
theorem mem_of_route {i : Nat} (h : Node.route hosts path i = some (a, rest)) :
    ∃ p, hosts.lookup p = some a := by
  obtain ⟨j, -, -, hlookup, -⟩ := Node.route_eq_some.mp h
  exact ⟨_, hlookup⟩

/-! ## The longest pattern

What the search finds is now said without positions: the path continues a pattern when it is the pattern and
then a slash with the rest. The positions of slashes are the places where this can be. -/

/-- The path is the pattern and then the rest, which begins with a slash. -/
def Continues (path p rest : String) : Prop := path = p ++ rest ∧ "/".toList <+: rest.toList

/-- At a slash the path continues what stands before it. -/
theorem continues_take {path : String} {j : Nat} (hslash : path.toList[j]? = some '/') :
    Continues path (String.ofList (path.toList.take j)) (String.ofList (path.toList.drop j)) := by
  obtain ⟨hj, hget⟩ := List.getElem?_eq_some_iff.mp hslash
  refine ⟨?_, path.toList.drop (j + 1), ?_⟩
  · rw [← String.ofList_append, List.take_append_drop, String.ofList_toList]
  · simp only [String.toList_ofList, List.drop_eq_getElem_cons hj, hget]
    rfl

/-- Where the path continues a pattern there is a slash, right behind the pattern. -/
theorem Continues.cut {path p rest : String} (h : Continues path p rest) :
    path.toList[p.length]? = some '/' ∧ String.ofList (path.toList.take p.length) = p ∧
      String.ofList (path.toList.drop p.length) = rest := by
  obtain ⟨rfl, r, hr⟩ := h
  have hlen : p.length = p.toList.length := String.length_toList.symm
  rw [String.toList_append, hlen, List.take_left, List.drop_left, String.ofList_toList,
    String.ofList_toList, List.getElem?_append_right (Nat.le_refl _), Nat.sub_self, ← hr]
  exact ⟨rfl, rfl, rfl⟩

/-- A path that continues a pattern begins with the pattern and a slash. -/
theorem exists_continues_iff {path p : String} :
    (∃ rest, Continues path p rest) ↔ (p ++ "/").toList <+: path.toList := by
  constructor
  · rintro ⟨rest, rfl, r, hr⟩
    exact ⟨r, by rw [String.toList_append, String.toList_append, List.append_assoc, hr]⟩
  · rintro ⟨r, hr⟩
    refine ⟨"/" ++ String.ofList r, ?_, r, by simp only [String.toList_append, String.toList_ofList]⟩
    apply String.toList_injective
    rw [← hr]
    simp only [String.toList_append, String.toList_ofList, List.append_assoc]

/-- `Route` gives the proxy of the longest pattern that the path continues, with the rest of the
path; and none if and only if no pattern with a slash behind it begins the path. -/
theorem route_spec (hosts : GoMap String Nat) (path : String) :
    (∀ a rest, Node.route hosts path.toList path.toList.length = some (a, rest) ↔
      ∃ p, hosts.lookup p = some a ∧ Continues path p rest ∧
        ∀ p' rest', p' ∈ hosts → Continues path p' rest' → p'.length ≤ p.length) ∧
    (Node.route hosts path.toList path.toList.length = none ↔
      ∀ p ∈ hosts, ¬ (p ++ "/").toList <+: path.toList) := by
  have hbound {j : Nat} (hslash : path.toList[j]? = some '/') : j < path.toList.length :=
    (List.getElem?_eq_some_iff.mp hslash).1
  have hlength {j : Nat} (hj : j < path.toList.length) :
      (String.ofList (path.toList.take j)).length = j := by
    rw [← String.length_toList, String.toList_ofList, List.length_take]
    omega
  constructor
  · intro a rest
    rw [Node.route_eq_some]
    constructor
    · rintro ⟨j, hj, hslash, hlookup, rfl, hlater⟩
      refine ⟨_, hlookup, continues_take hslash, fun p' rest' hmem hcont => ?_⟩
      obtain ⟨hslash', hp', -⟩ := hcont.cut
      rw [hlength hj]
      by_contra hlt
      -- a longer pattern would have been found first
      have hnone := hlater p'.length (by omega) (hbound hslash') hslash'
      rw [hp'] at hnone
      exact Finmap.lookup_eq_none.mp hnone hmem
    · rintro ⟨p, hlookup, hcont, hlongest⟩
      obtain ⟨hslash, hp, hrest⟩ := hcont.cut
      refine ⟨p.length, hbound hslash, hslash, by rw [hp, hlookup], hrest.symm, ?_⟩
      intro k hk hkend hkslash
      rw [Finmap.lookup_eq_none]
      intro hmem
      have hle := hlongest _ _ hmem (continues_take hkslash)
      rw [hlength hkend] at hle
      omega
  · rw [Node.route_eq_none]
    constructor
    · intro hnone p hmem hprefix
      obtain ⟨rest, hcont⟩ := exists_continues_iff.mpr hprefix
      obtain ⟨hslash, hp, -⟩ := hcont.cut
      have hlookup := hnone p.length (hbound hslash) hslash
      rw [hp] at hlookup
      exact Finmap.lookup_eq_none.mp hlookup hmem
    · intro hno j hj hslash
      rw [Finmap.lookup_eq_none]
      intro hmem
      exact hno _ hmem (exists_continues_iff.mp ⟨_, continues_take hslash⟩)

end Cheryl.ReverseProxy
