import Cheryl.Acl.Addresses
import Cheryl.Acl.Deletion

/-!
# The syntax of `Add` and of `Delete`

Both read a text of their own accord: the same address, but `Delete` checks the mask and `Add` does
not. A mask above 32 makes `Add` panic, since it shifts by what is left of 32; one below 0 it takes
for 0, and enters a text that `Delete` rejects ever after (`addsExactly_iff`).
-/

namespace Cheryl.Acl

open Library Utils

variable {t t' : RadixTree} {ipNet : String} {a b c d : List Char}

/-! ## What is meant

`Add` should take the texts that `Delete` takes. Whether it does depends on the text alone and not on the
tree. -/

/-- The mask of the text is in `0..32`, if it is a number. -/
def MaskInRange (ipNet : String) : Prop :=
  ∀ mask k, maskPart ipNet = some mask → atoi mask = .ok k → 0 ≤ k ∧ k ≤ 32

/-- What `Add` of a text should be: it returns, takes a mask in `0..32` only and otherwise fails and
does nothing, and takes no text that `Delete` finds ill formed. -/
structure AddsExactly (t : RadixTree) (ipNet : String) : Prop where
  returns : ∃ res, t.add ipNet ipNet = .ok res
  range : ∀ t', t.add ipNet ipNet = .ok (none, t') →
    ∃ mask k, maskPart ipNet = some mask ∧ atoi mask = .ok k ∧ 0 ≤ k ∧ k ≤ 32
  unchanged : ∀ err t', t.add ipNet ipNet = .ok (some err, t') → t' = t
  formed : ∀ t', t.add ipNet ipNet = .ok (none, t') → ∀ (u u' : RadixTree) (err : GoError),
    u.Delete ipNet = .ok (some err, u') → err ≠ invaildIpAddress ∧ err ≠ invaildNetMask

namespace RadixTree

/-- With a dotted quad for an address it is the mask that decides. -/
theorem readAdd_of_quad (Q : IsQuad (addressPart ipNet) a b c d) :
    ((∃ err, readAdd ipNet = .ok (.error err)) ∧
      ∀ mask k, maskPart ipNet = some mask → atoi mask ≠ .ok k) ∨
    ∃ mask k, maskPart ipNet = some mask ∧ atoi mask = .ok k ∧
      readAdd ipNet = if wrap64 (32 - k) < 0 then .error .negativeShift
        else .ok (.ok (quadAddress a b c d, netMaskOf (wrap64 (32 - k)))) := by
  unfold readAdd
  rw [Q.inetToi]
  cases hmask : maskPart ipNet with
  | none => exact .inl ⟨⟨_, rfl⟩, fun mask k h => by cases h⟩
  | some mask =>
      cases hk : atoi mask with
      | error err =>
          refine .inl ⟨⟨err, by simp only [hk]⟩, fun mask' k h => ?_⟩
          cases h
          simp [hk]
      | ok k => exact .inr ⟨mask, k, rfl, hk, by simp only [hk]⟩

/-- `Delete` takes a mask in `0..32`. -/
theorem readDelete_of_quad (Q : IsQuad (addressPart ipNet) a b c d) {mask : String} {k : Int}
    (hmask : maskPart ipNet = some mask) (hk : atoi mask = .ok k) (hlow : 0 ≤ k) (hhigh : k ≤ 32) :
    readDelete ipNet = .ok (.ok (quadAddress a b c d, k)) := by
  unfold readDelete
  rw [Q.inetToi, hmask]
  simp only [hk]
  rw [if_neg (by omega)]

/-! The mask 0 is a network like others, but its path is empty: `Add` puts a value at the root. -/

theorem insert_zero (t : RadixTree) (key : BitVec 32) (value : String) :
    t.insert key (netMask 32 0) value = t.setValue t.root value := by
  have hbit : ¬ maxIpv4Bit &&& netMask 32 0 ≠ 0#32 := by decide
  rw [RadixTree.insert, insertDescend, if_neg hbit]

end RadixTree

/-! ## One text -/

/-- Adding a dotted quad with any mask text does what it should if and only if the mask is no number
outside `0..32`. -/
theorem addsExactly_iff_maskInRange (t : RadixTree) (Q : IsQuad (addressPart ipNet) a b c d) :
    AddsExactly t ipNet ↔ MaskInRange ipNet := by
  have hadd := t.add_eq_readAdd ipNet ipNet
  constructor
  · intro A mask k hmask hk
    -- what `Add` does with the mask `k`
    obtain ⟨-, hnone⟩ | ⟨mask', k', hmask', hk', hread⟩ := RadixTree.readAdd_of_quad Q
    · exact absurd hk (hnone mask k hmask)
    · cases hmask.symm.trans hmask'
      cases hk.symm.trans hk'
      rw [hread] at hadd
      by_cases hshift : wrap64 (32 - k) < 0
      · -- the shift count is negative
        obtain ⟨res, hres⟩ := A.returns
        rw [if_pos hshift] at hadd
        rw [hadd] at hres
        cases hres
      · rw [if_neg hshift] at hadd
        obtain ⟨mask', k', hmask', hk', hrange⟩ := A.range _ hadd
        cases hmask.symm.trans hmask'
        cases hk.symm.trans hk'
        exact hrange
  · intro hrange
    obtain ⟨⟨err, hread⟩, -⟩ | ⟨mask, k, hmask, hk, hread⟩ := RadixTree.readAdd_of_quad Q
    · rw [hread] at hadd
      refine ⟨⟨_, hadd⟩, fun t' h => ?_, fun err t' h => RadixTree.add_error h, fun t' h => ?_⟩ <;>
        rw [hadd] at h <;> cases h
    · obtain ⟨hlow, hhigh⟩ := hrange mask k hmask hk
      -- a mask in range leaves a shift that is not negative
      have hshift : ¬ wrap64 (32 - k) < 0 := by
        obtain ⟨hmin, hmax⟩ := atoi_range hk
        rw [wrap64, BitVec.toInt_ofInt, Int.bmod_eq_of_le (by omega) (by omega)]
        omega
      rw [hread, if_neg hshift] at hadd
      refine ⟨⟨_, hadd⟩, fun t' _ => ⟨mask, k, hmask, hk, hlow, hhigh⟩,
        fun err t' h => RadixTree.add_error h, fun _ _ u u' err h => ?_⟩
      rw [RadixTree.Delete_eq_readDelete, RadixTree.readDelete_of_quad Q hmask hk hlow hhigh] at h
      simp only [RadixTree.deleted] at h
      split at h <;> cases h
      exact ⟨by decide, by decide⟩

/-! ## Adding and deleting again

In a run of clean calls the text that was added is found by `Delete`, which reads the same network. Only at
the root there is something in the way: `Delete` of the empty network wants to unlink the root, if that has
no children. -/

/-- `Add` at the root hangs nothing below it. -/
theorem alone_of_add (hadd : t.add ipNet ipNet = .ok (none, t')) (hroot : networkOf ipNet = [])
    (halone : t'.Alone) : t.Alone := by
  rw [RadixTree.add_eq_readAdd] at hadd
  rcases hread : RadixTree.readAdd ipNet with fault | err | ⟨ip, mask⟩ <;> rw [hread] at hadd <;>
    cases hadd
  obtain ⟨m, -, rfl, hnetwork⟩ := RadixTree.readAdd_network hread
  obtain rfl : m = 0 := take_bits_eq_nil.mp (hnetwork ▸ hroot)
  simpa only [RadixTree.Alone, RadixTree.insert_zero, RadixTree.setValue, RadixTree.modify,
    Function.update_self] using halone

/-- What was added can be deleted again, but for the mask 0 at a root without children. -/
theorem Stores.delete_added {V : List Bool → Option String} (h : Stores t V)
    (Q : IsQuad (addressPart ipNet) a b c d) (hrange : MaskInRange ipNet)
    (hclean : t.insertsCleanly (networkOf ipNet)) (hroot : networkOf ipNet = [] → ¬ t.Alone)
    (hadd : t.add ipNet ipNet = .ok (none, t')) : ∃ t'', t'.Delete ipNet = .ok (none, t'') := by
  obtain ⟨mask, k, hmask, hk, hlow, hhigh⟩ :=
    ((addsExactly_iff_maskInRange t Q).mpr hrange).range t' hadd
  have hvalue : ipNet ≠ noValue := (RadixTree.record_add hadd).1.ne_noValue
  obtain ⟨V', h', hV'⟩ := h.add_text hvalue hclean hadd
  have hread := RadixTree.readDelete_of_quad Q hmask hk hlow hhigh
  obtain ⟨m, hm, hnetmask, hnetwork⟩ := RadixTree.readDelete_network hread
  obtain ⟨A, fl, W, hcont⟩ := h'
  rw [RadixTree.Delete_eq_readDelete, hread]
  simp only [RadixTree.deleted, hnetmask]
  rcases RadixTree.delete_spec W (quadAddress a b c d) hm with
    ⟨hempty, hbare, -⟩ | ⟨hnone, -⟩ | ⟨-, t'', -, -, heq, -⟩
  · have hempty' : networkOf ipNet = [] := hnetwork.trans hempty
    exact absurd (alone_of_add hadd hempty' (alone_of_bare W.lays hbare)) (hroot hempty')
  · -- the value is there
    rw [hcont, hV' rfl, hnetwork, Function.update_self] at hnone
    cases hnone
  · exact ⟨_, by rw [heq]⟩

/-- A text with a dotted quad for its address is added as it should be if and only if its mask is no
number outside `0..32`. What is added then, in any state that clean calls lead to, the same text
deletes again; but for the mask 0 while the root has no children, which `Delete` cannot take. -/
theorem addsExactly_iff (Q : IsQuad (addressPart ipNet) a b c d) :
    (∀ t, AddsExactly t ipNet ↔ MaskInRange ipNet) ∧
    (MaskInRange ipNet → ∀ (ops : List TextOp) (t t' : RadixTree),
      Trace (fun t op t' => TextCall t op t' ∧ op.Clean t) RadixTree.new ops t →
      t.insertsCleanly (networkOf ipNet) = true → (networkOf ipNet = [] → ¬ t.Alone) →
      t.add ipNet ipNet = .ok (none, t') → ∃ t'', t'.Delete ipNet = .ok (none, t'')) := by
  refine ⟨fun t => addsExactly_iff_maskInRange t Q, fun hrange ops t t' hrun hclean hroot hadd => ?_⟩
  obtain ⟨V, h⟩ := run_stores_texts hrun
  exact h.delete_added Q hrange hclean hroot hadd

/-- `1.2.3.4/8` -/
theorem isQuad_one : IsQuad (addressPart "1.2.3.4/8") ['1'] ['2'] ['3'] ['4'] :=
  ⟨by decide +kernel, by decide, by decide, by decide, by decide⟩

/-- A text that both take. -/
theorem addsExactly_iff_eight : AddsExactly RadixTree.new "1.2.3.4/8" := by
  have hrange : MaskInRange "1.2.3.4/8" := by
    intro mask k hmask hk
    rw [show maskPart "1.2.3.4/8" = some "8" by decide +kernel] at hmask
    cases hmask
    rw [show atoi "8" = .ok 8 by decide +kernel] at hk
    cases hk
    decide
  exact ((addsExactly_iff isQuad_one).1 RadixTree.new).mpr hrange

/-- `Add` shifts by minus one. -/
theorem not_addsExactly : ¬ ∀ (ops : List TextOp) (t : RadixTree) (ipNet : String) (a b c d : List Char),
    Trace TextCall RadixTree.new ops t → IsQuad (addressPart ipNet) a b c d → AddsExactly t ipNet := by
  intro h
  have Q : IsQuad (addressPart "1.2.3.4/33") ['1'] ['2'] ['3'] ['4'] :=
    ⟨by decide +kernel, by decide, by decide, by decide, by decide⟩
  obtain ⟨res, hres⟩ := (h [] RadixTree.new "1.2.3.4/33" _ _ _ _ .nil Q).returns
  have hread : RadixTree.readAdd "1.2.3.4/33" = .error .negativeShift := by decide +kernel
  rw [RadixTree.add_eq_readAdd, hread] at hres
  cases hres

end Cheryl.Acl
