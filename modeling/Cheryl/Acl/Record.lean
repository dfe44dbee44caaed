import Cheryl.Acl.Runs

/-!
# The tree and its `Record`

`Record` holds the texts that were added and not deleted, and is all a snapshot keeps of the tree.
Tree and `Record` agree (`Agrees`) when the networks stored are those of the texts in `Record`.
Two texts may name one network, and then `Delete` takes the network but only one of the texts:
agreement needs that no text in `Record` is such an alias of the one deleted (`SoleName`).
-/

namespace Cheryl.Acl

open Library

/-! ## Verdicts and records

A verdict is that of the tree. What it should be is said with the record, since that is what an operator
sees and what a snapshot keeps. -/

/-- The verdict `AccessControl` passes on an address, once it is parsed. -/
def RadixTree.denies (t : RadixTree) (k : BitVec 32) : Except Fault Bool :=
  (t.search k).map fun ret => decide (ret ≠ "")

/-- Some text of the record names a network that covers the address. -/
def Covered (record : Finset String) (k : BitVec 32) : Prop :=
  ∃ n : Cidr, n.text ∈ record ∧ n.Covers k

def SoleName (record : Finset String) (n : Cidr) : Prop :=
  ∀ n' : Cidr, n'.text ∈ record → n'.network = n.network → n'.text = n.text

/-- A `Delete` has no alias of its text in `Record`. -/
def Op.Unaliased (t : RadixTree) : Op → Prop
  | .add _ => True
  | .delete n => SoleName t.record n

/-- A clean call that leaves no alias behind. -/
def UnaliasedCall (t : RadixTree) (e : Event) (t' : RadixTree) : Prop :=
  CleanCall t e t' ∧ e.op.Unaliased t

/-- The loop at the end of `FSM.Restore`: `Add` every key of the decoded `Record`, in the order
`range` takes. -/
def RadixTree.restore : List String → RadixTree → Except Fault RadixTree
  | [], t => .ok t
  | key :: keys, t =>
      match t.add key key with
      | .error fault => .error fault
      | .ok (_, t) => restore keys t

/-! ## Agreement

Each call does to the record what it does to the stored table, one text for one network. That is lost when
two texts of the record name the same network and one of them is deleted. -/

def Recorded (record : Finset String) : Prop := ∀ s ∈ record, ∃ n : Cidr, n.text = s

/-- The tree stores the networks its `Record` names. -/
structure Agrees (t : RadixTree) (V : List Bool → Option String) : Prop where
  stores : Stores t V
  recorded : Recorded t.record
  named : ∀ p, V p ≠ none ↔ ∃ n : Cidr, n.text ∈ t.record ∧ n.network = p

/-- The tree is well formed and holds the entries: it stores their networks and no others. -/
def HoldsEntries (t : RadixTree) (E : Set Cidr) : Prop :=
  ∃ V, Stores t V ∧ ∀ p, V p ≠ none ↔ ∃ n ∈ E, n.network = p

section Agrees

variable {t t' : RadixTree} {V : List Bool → Option String} {n : Cidr}

theorem agrees_new : Agrees RadixTree.new fun _ => none where
  stores := stores_new
  recorded := by intro s hs; simp [RadixTree.new] at hs
  named := by intro p; simp [RadixTree.new]

/-- Adding keeps the agreement. -/
theorem Agrees.add (h : Agrees t V) (hclean : t.insertsCleanly n.network) :
    ∃ t', t.add n.text n.text = .ok (none, t') ∧ t'.record = insert n.text t.record ∧
      Agrees t' (Function.update V n.network (some n.text)) := by
  obtain ⟨t', heq, hstores, hrec⟩ := add_spec h.stores hclean
  refine ⟨t', heq, hrec, hstores, ?_, ?_⟩
  · intro s hs
    rw [hrec, Finset.mem_insert] at hs
    rcases hs with rfl | hs
    · exact ⟨n, rfl⟩
    · exact h.recorded s hs
  · intro p
    rw [hrec]
    by_cases hp : p = n.network
    · subst hp
      simp only [Function.update_self, ne_eq, reduceCtorEq, not_false_eq_true, true_iff]
      exact ⟨n, Finset.mem_insert_self _ _, rfl⟩
    · rw [Function.update_of_ne hp, h.named]
      constructor
      · rintro ⟨n', hn', hnet⟩
        exact ⟨n', Finset.mem_insert_of_mem hn', hnet⟩
      · rintro ⟨n', hn', rfl⟩
        rcases Finset.mem_insert.mp hn' with htext | hn'
        · exact absurd (Cidr.network_congr htext) hp
        · exact ⟨n', hn', rfl⟩

/-- Deleting keeps the agreement when the text is the only name of its network. -/
theorem Agrees.delete (h : Agrees t V) (hsole : SoleName t.record n) (hstores :
    Stores t' (Function.update V n.network none)) (hrec : t'.record = t.record.erase n.text) :
    Agrees t' (Function.update V n.network none) := by
  refine ⟨hstores, ?_, ?_⟩
  · intro s hs
    rw [hrec] at hs
    exact h.recorded s (Finset.mem_of_mem_erase hs)
  · intro p
    rw [hrec]
    by_cases hp : p = n.network
    · subst hp
      simp only [Function.update_self, ne_eq, not_true_eq_false, false_iff]
      rintro ⟨n', hn', hnet⟩
      obtain ⟨hne, hn'⟩ := Finset.mem_erase.mp hn'
      exact hne (hsole n' hn' hnet)
    · rw [Function.update_of_ne hp, h.named]
      constructor
      · rintro ⟨n', hn', rfl⟩
        refine ⟨n', Finset.mem_erase.mpr ⟨?_, hn'⟩, rfl⟩
        exact fun htext => hp (Cidr.network_congr htext)
      · rintro ⟨n', hn', hnet⟩
        exact ⟨n', Finset.mem_of_mem_erase hn', hnet⟩

/-- What a call that returns does, when it is clean and leaves no alias behind. -/
theorem Agrees.call {e : Event} (h : Agrees t V) (hcall : UnaliasedCall t e t') :
    Agrees t' (e.apply V) := by
  obtain ⟨⟨hexec, hclean⟩, halias⟩ := hcall
  obtain ⟨op, err⟩ := e
  cases op with
  | add n =>
      obtain ⟨t₁, heq, -, hagrees⟩ := h.add hclean
      obtain ⟨rfl, rfl⟩ : none = err ∧ t₁ = t' := by simpa [Call, Op.exec, heq] using hexec
      exact hagrees
  | delete n =>
      rcases Delete_spec (n := n) h.stores with ⟨-, heq⟩ | ⟨-, heq⟩ | ⟨-, t₁, heq, hstores, hrec⟩
      · simp [Call, Op.exec, heq] at hexec
      · obtain ⟨rfl, rfl⟩ : some cantFindIpNet = err ∧ t = t' := by
          simpa [Call, Op.exec, heq] using hexec
        exact h
      · obtain ⟨rfl, rfl⟩ : none = err ∧ t₁ = t' := by simpa [Call, Op.exec, heq] using hexec
        exact h.delete halias hstores hrec

def Op.record (r : Finset String) : Op → Finset String
  | .add n => insert n.text r
  | .delete n => r.erase n.text

/-- Also a `Delete` that fails leaves no text of the record behind: there was none. -/
theorem Agrees.record_call {e : Event} (h : Agrees t V) (hcall : UnaliasedCall t e t') :
    t'.record = e.op.record t.record ∧ (e.err ≠ none → t' = t) := by
  obtain ⟨⟨hexec, hclean⟩, halias⟩ := hcall
  obtain ⟨op, err⟩ := e
  cases op with
  | add n =>
      obtain ⟨t₁, heq, hrec, -⟩ := h.add hclean
      obtain ⟨rfl, rfl⟩ : none = err ∧ t₁ = t' := by simpa [Call, Op.exec, heq] using hexec
      exact ⟨hrec, fun hne => absurd rfl hne⟩
  | delete n =>
      rcases Delete_spec (n := n) h.stores with ⟨-, heq⟩ | ⟨hnone, heq⟩ | ⟨-, t₁, heq, -, hrec⟩
      · simp [Call, Op.exec, heq] at hexec
      · obtain ⟨rfl, rfl⟩ : some cantFindIpNet = err ∧ t = t' := by
          simpa [Call, Op.exec, heq] using hexec
        have habsent : n.text ∉ t.record := fun hmem =>
          (h.named n.network).mpr ⟨n, hmem, rfl⟩ hnone
        exact ⟨(Finset.erase_eq_of_notMem habsent).symm, fun _ => rfl⟩
      · obtain ⟨rfl, rfl⟩ : none = err ∧ t₁ = t' := by simpa [Call, Op.exec, heq] using hexec
        exact ⟨hrec, fun hne => absurd rfl hne⟩

/-- Where the tree holds a set of entries, an address is denied exactly when one of them covers it. -/
theorem HoldsEntries.denies {E : Set Cidr} (h : HoldsEntries t E) (k : BitVec 32) :
    ∃ b, t.denies k = .ok b ∧ (b = true ↔ ∃ n ∈ E, n.Covers k) := by
  obtain ⟨V, hstores, hnamed⟩ := h
  refine ⟨_, by rw [RadixTree.denies, hstores.search]; rfl, ?_⟩
  rw [decide_eq_true_iff]
  have hvalue : ∀ p v, V p = some v → v ≠ noValue := by
    obtain ⟨A, fl, W, rfl⟩ := hstores
    intro p v hv
    simp only [RadixTree.contents, Option.bind_eq_some_iff] at hv
    obtain ⟨a, -, hv⟩ := hv
    split at hv
    · cases hv
    · next hne => exact (Option.some.inj hv) ▸ hne
  have hsome : (longestMatch V (bits k)).getD noValue ≠ "" ↔ (longestMatch V (bits k)).isSome := by
    cases hm : longestMatch V (bits k) with
    | none => simp [noValue]
    | some v =>
        obtain ⟨p, -, hv, -⟩ := longestMatch_eq_some.mp hm
        simpa [noValue] using hvalue p v hv
  rw [hsome, longestMatch_isSome]
  constructor
  · rintro ⟨p, hp, hv⟩
    obtain ⟨n, hn, rfl⟩ := (hnamed p).mp (Option.isSome_iff_ne_none.mp hv)
    exact ⟨n, hn, hp⟩
  · rintro ⟨n, hn, hcovers⟩
    exact ⟨n.network, hcovers, Option.isSome_iff_ne_none.mpr ((hnamed _).mpr ⟨n, hn, rfl⟩)⟩

/-- The entries of the tree are those of the record. -/
theorem Agrees.holdsEntries (h : Agrees t V) : HoldsEntries t {n | n.text ∈ t.record} :=
  ⟨V, h.stores, h.named⟩

/-- Where tree and record agree, an address is denied exactly when the record covers it. -/
theorem Agrees.denies (h : Agrees t V) (k : BitVec 32) :
    ∃ b, t.denies k = .ok b ∧ (b = true ↔ Covered t.record k) :=
  h.holdsEntries.denies k

end Agrees

/-! ## Restoring

A new tree has no free nodes, and adding makes none. So a restore never reuses a node, and cannot go wrong
in the way `Add` can. In which order the texts come does not matter, although it decides which of two
aliases gives its network the value: the value is asked for nothing but whether it is empty. -/

section Restore

variable {t : RadixTree}

/-- Hanging fresh nodes leaves the free list empty. -/
@[simp] theorem RadixTree.free_insertExtend {key mask : BitVec 32} (rounds : Nat) :
    ∀ {bit : BitVec 32} {node : Nat} {t : RadixTree}, t.free = none →
      (insertExtend key mask rounds bit node t).2.free = none := by
  induction rounds with
  | zero => intro bit node t h; exact h
  | succ rounds ih =>
      intro bit node t h
      rw [insertExtend]
      split
      · apply ih
        have hnode : t.newNode.2.free = none := by simp [newNode, h]
        split <;> exact hnode
      · exact h

/-- Inserting into a tree without free nodes leaves it without free nodes. -/
theorem RadixTree.free_insert {key mask : BitVec 32} {value : String} (h : t.free = none) :
    (t.insert key mask value).free = none := by
  rw [RadixTree.insert]
  split
  · exact h
  · exact free_insertExtend 33 h

/-- A tree without free nodes reuses none. -/
theorem RadixTree.insertsCleanly_of_free (h : t.free = none) (path : List Bool) :
    t.insertsCleanly path := by
  simp [insertsCleanly, h]

/-- Restoring the texts of a record adds them, and each value it stores is one of these texts, stored
for the network it names. -/
theorem restore_names (keys : List String) : ∀ {t V}, Agrees t V → t.free = none →
    (∀ s ∈ keys, ∃ n : Cidr, n.text = s) →
    ∃ t' V', t.restore keys = .ok t' ∧ Agrees t' V' ∧ t'.record = t.record ∪ keys.toFinset ∧
      ∀ p s, V' p = some s → V p = some s ∨ ∃ n : Cidr, n.text = s ∧ s ∈ keys ∧ n.network = p := by
  induction keys with
  | nil => intro t V h _ _; exact ⟨t, V, rfl, h, by simp, fun p s hs => .inl hs⟩
  | cons key keys ih =>
      intro t V h hfree hkeys
      obtain ⟨n, rfl⟩ := hkeys key (by simp)
      obtain ⟨t₁, heq, hrec, h₁⟩ := h.add (n := n) (RadixTree.insertsCleanly_of_free hfree _)
      -- without free nodes every insertion takes fresh ones
      have hfree₁ : t₁.free = none := by
        have hadd := n.add_eq t n.text
        rw [heq] at hadd
        obtain ⟨-, rfl⟩ : (none : Option GoError) = none ∧ t₁ = _ := by simpa using hadd
        exact RadixTree.free_insert hfree
      obtain ⟨t', V', hres, h', hrec', hnames⟩ := ih h₁ hfree₁ fun s hs => hkeys s (by simp [hs])
      refine ⟨t', V', ?_, h', ?_, fun p s hs => ?_⟩
      · rw [RadixTree.restore, heq]
        exact hres
      · rw [hrec', hrec, List.toFinset_cons, Finset.insert_union, Finset.union_insert]
      · rcases hnames p s hs with hs | ⟨n', htext, hmem, hnet⟩
        -- the network of this text has its value from here, unless a later text has replaced it
        · by_cases hp : p = n.network
          · subst hp
            rw [Function.update_self] at hs
            cases hs
            exact .inr ⟨n, rfl, List.mem_cons_self, rfl⟩
          · rw [Function.update_of_ne hp] at hs
            exact .inl hs
        · exact .inr ⟨n', htext, List.mem_cons_of_mem _ hmem, hnet⟩

/-- Restoring the texts of a record gives a tree that agrees with exactly that record. -/
theorem restore_spec (keys : List String) {t : RadixTree} {V : List Bool → Option String}
    (h : Agrees t V) (hfree : t.free = none) (hkeys : ∀ s ∈ keys, ∃ n : Cidr, n.text = s) :
    ∃ t' V', t.restore keys = .ok t' ∧ Agrees t' V' ∧ t'.record = t.record ∪ keys.toFinset := by
  obtain ⟨t', V', heq, h', hrec, -⟩ := restore_names keys h hfree hkeys
  exact ⟨t', V', heq, h', hrec⟩

end Restore

/-! ## Runs -/

/-- A run of clean calls that leave no aliases keeps tree and record in agreement. -/
theorem run_agrees {es : List Event} {t : RadixTree}
    (h : Trace UnaliasedCall RadixTree.new es t) : Agrees t (lastAdded es) :=
  h.history (I := fun es t => Agrees t (lastAdded es)) agrees_new fun hI hstep => by
    rw [lastAdded_snoc]
    exact hI.call hstep

/-- What a record is for: an address is denied when a text of the record covers it, and a tree
restored from the record, in whatever order its keys come, passes the same verdicts. -/
structure RecordFaithful (t : RadixTree) : Prop where
  denies : ∀ k, ∃ b, t.denies k = .ok b ∧ (b = true ↔ Covered t.record k)
  restored : ∀ order : List String, order.Nodup → (∀ s, s ∈ order ↔ s ∈ t.record) →
    ∃ t', RadixTree.new.restore order = .ok t' ∧ ∀ k, t'.denies k = t.denies k

/-- Where tree and record agree, the record is faithful. -/
theorem Agrees.recordFaithful {t : RadixTree} {V : List Bool → Option String} (h : Agrees t V) :
    RecordFaithful t where
  denies := h.denies
  restored := by
    intro order _ hmem
    obtain ⟨t', V', heq, h', hrec⟩ := restore_spec order agrees_new rfl fun s hs =>
      h.recorded s ((hmem s).mp hs)
    have hsame : t'.record = t.record := by
      rw [hrec]
      ext s
      simp [RadixTree.new, hmem]
    refine ⟨t', heq, fun k => ?_⟩
    obtain ⟨b, hb, hiff⟩ := h.denies k
    obtain ⟨b', hb', hiff'⟩ := h'.denies k
    rw [hsame] at hiff'
    rw [hb, hb', Bool.eq_iff_iff.mpr (hiff'.trans hiff.symm)]

/-- After every run of clean calls without aliases the record is faithful. -/
theorem run_recordFaithful {es : List Event} {t : RadixTree}
    (h : Trace UnaliasedCall RadixTree.new es t) : RecordFaithful t :=
  (run_agrees h).recordFaithful

/-- `0.0.0.1/1`, another name for the network of `0.0.0.0/1`. -/
def Cidr.one1 : Cidr := .ofParts "0" "0" "0" "1" "1" (by decide)

/-- A run with two names for one network, only one of them at a time in the record. -/
theorem run_recordFaithful_renamed :
    ∃ es t, Trace UnaliasedCall RadixTree.new es t ∧ es.length = 3 ∧ RecordFaithful t := by
  have hrun : Trace UnaliasedCall RadixTree.new ([] ++ [⟨.add .zeroes1, none⟩] ++
      [⟨.delete .zeroes1, none⟩] ++ [⟨.add .one1, none⟩]) _ :=
    .snoc (.snoc (.snoc .nil ⟨⟨rfl, rfl⟩, trivial⟩) ⟨⟨rfl, rfl⟩, fun n' hn' _ => by
      have hmem : n'.text ∈ (insert Cidr.zeroes1.text ∅ : Finset String) := hn'
      simpa [Op.net] using hmem⟩) ⟨⟨rfl, rfl⟩, trivial⟩
  exact ⟨_, _, hrun, rfl, run_recordFaithful hrun⟩

/-- With both names in the record, deleting one of them takes the network from the tree and leaves
the other name in the record. -/
theorem not_recordFaithful_aliases :
    ¬ ∀ es t, Trace Call RadixTree.new es t → RecordFaithful t := by
  intro h
  have hrun : Trace Call RadixTree.new ([] ++ [⟨.add .zeroes1, none⟩] ++ [⟨.add .one1, none⟩] ++
      [⟨.delete .zeroes1, none⟩]) _ :=
    .snoc (.snoc (.snoc .nil rfl) rfl) rfl
  obtain ⟨b, hb, hiff⟩ := (h _ _ hrun).denies 0
  have hfalse : b = false := by
    revert hb
    cases b <;> decide
  rw [hfalse] at hiff
  exact absurd (hiff.mpr ⟨Cidr.one1, by decide +kernel, by decide⟩) (by decide)

end Cheryl.Acl
