import Cheryl.Acl.Runs

/-!
# The shape of the tree

What the nodes and their links have to be like, said of the links alone: `WellFormed` says it with a
layout, which the tree does not have. From the layout the shape follows (`WellFormedBut.shape`), so
every run of calls that reuse free nodes cleanly keeps it (`run_shape`).
-/

namespace Cheryl.Acl

open Library

namespace RadixTree

/-! ## The shape

The source knows no layout. What one can say in its own terms is which nodes are reached from the root, that
each of them is reached by one link alone, and that the free list is apart from them. -/

def Reachable (t : RadixTree) (a : Nat) : Prop := ∃ p, follow t.store t.root p = some a

/-- The nodes that can be reached form a tree of depth at most 32, whose childless nodes other than the
root hold a value; and the free list is a list, of none of these nodes. -/
structure Shape (t : RadixTree) : Prop where
  depth : ∀ {p a}, follow t.store t.root p = some a → p.length ≤ 32
  root : ∀ {a b}, t.Reachable a → (t.store a).child b ≠ some t.root
  incoming : ∀ {c}, t.Reachable c → c ≠ t.root → ∃ a b, t.Reachable a ∧
    (t.store a).child b = some c ∧ (t.store c).parent = some a ∧
      ∀ {a' b'}, t.Reachable a' → (t.store a').child b' = some c → a' = a ∧ b' = b
  busy : ∀ {a}, t.Reachable a → a ≠ t.root → (∀ b, (t.store a).child b = none) →
    (t.store a).value ≠ noValue
  free : ∃ fl, Chain t.store t.free fl ∧ fl.Nodup ∧ ∀ a ∈ fl, ¬ t.Reachable a

section Shape

variable {t : RadixTree} {A : Layout} {fl : List Nat} {a : Nat}

/-- The nodes that can be reached are those of the layout. -/
theorem WellFormedBut.follow_eq {X : List Bool → Prop} (W : WellFormedBut X t A fl) (p : List Bool) :
    follow t.store t.root p = A p :=
  W.lays.follow_eq W.lays.top

/-- So they are the nodes at the ends of paths. -/
theorem WellFormedBut.reachable_iff {X : List Bool → Prop} (W : WellFormedBut X t A fl) :
    t.Reachable a ↔ ∃ p, A p = some a := by
  simp only [Reachable, W.follow_eq]

/-- A well-formed tree has the shape it should have. -/
theorem WellFormedBut.shape (W : WellFormed t A fl) : Shape t where
  depth := by
    intro p a ha
    rw [W.follow_eq] at ha
    exact W.depth ha
  root := by
    intro a b ha hb
    -- no path ends at the root but the empty one
    obtain ⟨p, ha⟩ := W.reachable_iff.mp ha
    rw [← W.lays.down ha] at hb
    exact absurd (W.lays.inj hb W.lays.top) (by simp)
  incoming := by
    intro c hc hroot
    obtain ⟨p, hc⟩ := W.reachable_iff.mp hc
    cases p using List.reverseRecOn with
    | nil =>
        rw [W.lays.top] at hc
        exact absurd (Option.some.inj hc).symm hroot
    | append_singleton p b =>
        obtain ⟨a, ha⟩ := W.lays.exists_of_append hc
        refine ⟨a, b, W.reachable_iff.mpr ⟨p, ha⟩, (W.lays.down ha b).symm.trans hc,
          (W.lays.up hc).trans ha, ?_⟩
        intro a' b' ha' hb'
        obtain ⟨q, ha'⟩ := W.reachable_iff.mp ha'
        -- two links to one node are the last step of the same path
        rw [← W.lays.down ha'] at hb'
        obtain ⟨rfl, rfl⟩ : q = p ∧ b' = b := by simpa using W.lays.inj hb' hc
        exact ⟨Option.some.inj (ha'.symm.trans ha), rfl⟩
  busy := by
    intro a ha hroot hleaf
    obtain ⟨p, ha⟩ := W.reachable_iff.mp ha
    refine W.busy not_false ?_ ha fun b => (W.lays.down ha b).trans (hleaf b)
    rintro rfl
    rw [W.lays.top] at ha
    exact hroot (Option.some.inj ha).symm
  free := by
    refine ⟨fl, W.chain, W.nodup, fun a ha hreach => ?_⟩
    obtain ⟨p, hp⟩ := W.reachable_iff.mp hreach
    exact W.apart hp ha

end Shape

end RadixTree

/-! ## Runs -/

/-- Every run in which `Add` reuses free nodes cleanly keeps the shape. -/
theorem run_shape {es : List Event} {t : RadixTree} (h : Trace CleanCall RadixTree.new es t) :
    RadixTree.Shape t := by
  obtain ⟨A, fl, W, -⟩ := run_stores h
  exact W.shape

/-- A run with a node released and handed out again. -/
theorem run_shape_reuse :
    ∃ es t, Trace CleanCall RadixTree.new es t ∧ es.length = 3 ∧ RadixTree.Shape t := by
  have hrun : Trace CleanCall RadixTree.new ([] ++ [⟨.add .zeroes1, none⟩] ++
      [⟨.delete .zeroes1, none⟩] ++ [⟨.add .zeroes1, none⟩]) _ :=
    .snoc (.snoc (.snoc .nil ⟨rfl, rfl⟩) ⟨rfl, rfl⟩) ⟨rfl, rfl⟩
  exact ⟨_, _, hrun, rfl, run_shape hrun⟩

/-- `Delete` of `0.0.0.0/2` frees two nodes. The next `Add`, of `0.0.0.0/1`, takes the first, and the
second is reached through its stale link, while it is the first of the free list. -/
theorem not_shape : ¬ ∀ es t, Trace Call RadixTree.new es t → RadixTree.Shape t := by
  intro h
  have hrun : Trace Call RadixTree.new ([] ++ [⟨.add .zeroes2, none⟩] ++
      [⟨.delete .zeroes2, none⟩] ++ [⟨.add .zeroes1, none⟩]) _ :=
    .snoc (.snoc (.snoc .nil rfl) rfl) rfl
  obtain ⟨fl, hchain, -, hapart⟩ := (h _ _ hrun).free
  cases fl with
  | nil => cases hchain
  | cons a fl =>
      obtain ⟨ha, -⟩ := hchain
      cases ha
      exact hapart 2 List.mem_cons_self ⟨[false, true], by decide +kernel⟩

end Cheryl.Acl
