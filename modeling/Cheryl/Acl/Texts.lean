import Cheryl.Acl.Cidr
import Cheryl.Acl.Intact

/-!
# Any text

What `Add` and `Delete` make of an arbitrary text, a CIDR or not. How a text is read depends on the
text alone (`readAdd`, `readDelete`): reading panics, fails, or ends with an address and a mask.
So a text that was added once can be added to any tree (`Accepted`), which is why the texts of a
`Record` can be restored. `AddPanics` and `DeletePanics` say exactly when the calls panic.
-/

namespace Cheryl.Acl

open Library Utils

/-! ## Fields

A text is cut at its slashes, and the part before the first is cut at its dots. `Atoi` is asked for each
field. -/

def parses (s : String) : Bool :=
  match atoi s with
  | .ok _ => true
  | .error _ => false

/-- How many of the dotted fields are numbers, before the first that is not. -/
def numbers (ip : String) : Nat := ((split ip '.').takeWhile parses).length

def addressPart (ipNet : String) : String := (split ipNet '/').headD ""

/-- The part between the first slash and the second, if there is a slash. -/
def maskPart (ipNet : String) : Option String := (split ipNet '/')[1]?

/-! ## `InetToi`

Four numbers fit. With a fifth the shift count is negative, which is a panic in Go, and before that a field
that is no number ends the loop with an error. -/

/-- The loop panics when it meets one number more than there are shifts left. -/
theorem inetToiLoop_total (segs : List String) : ∀ (k : Nat) (ret : BitVec 32),
    (k < (segs.takeWhile parses).length ∧
      inetToiLoop segs (8 * k - 8) ret = .error .negativeShift) ∨
    ((segs.takeWhile parses).length ≤ k ∧ ∃ r, inetToiLoop segs (8 * k - 8) ret = .ok r) := by
  induction segs with
  | nil => intro k ret; exact .inr ⟨by simp, _, rfl⟩
  | cons seg segs ih =>
      intro k ret
      unfold inetToiLoop
      cases hseg : atoi seg with
      | error err =>
          have hp : parses seg = false := by simp [parses, hseg]
          exact .inr ⟨by simp [hp], _, rfl⟩
      | ok n =>
          have hp : parses seg = true := by simp [parses, hseg]
          simp only [List.takeWhile_cons, hp, if_true, List.length_cons]
          cases k with
          | zero => exact .inl ⟨by omega, by rw [if_pos (by omega)]⟩
          | succ k =>
              have hpos : ¬ (8 * ((k + 1 : Nat) : Int) - 8 < 0) := by omega
              have hnext : 8 * ((k + 1 : Nat) : Int) - 8 - 8 = 8 * k - 8 := by omega
              rw [if_neg hpos, hnext]
              rcases ih k (ret ||| (BitVec.ofInt 64 n <<<
                (8 * ((k + 1 : Nat) : Int) - 8).toNat).setWidth 32) with ⟨hlt, h⟩ | ⟨hle, h⟩
              · exact .inl ⟨by omega, h⟩
              · exact .inr ⟨by omega, h⟩

/-- `InetToi` panics exactly on five leading numbers. -/
theorem inetToi_total (ip : String) :
    (4 < numbers ip ∧ inetToi ip = .error .negativeShift) ∨
      (numbers ip ≤ 4 ∧ ∃ r, inetToi ip = .ok r) :=
  inetToiLoop_total (split ip '.') 4 0#32

namespace RadixTree

/-! ## `Add`

The reading of `Add` is taken apart from the inserting, which never fails. -/

/-- How `Add` reads a text: as an address and a mask. -/
def readAdd (ipNet : String) : Except Fault (Except GoError (BitVec 32 × BitVec 32)) :=
  match inetToi (addressPart ipNet) with
  | .error fault => .error fault
  | .ok (.error _) => .ok (.error invaildIpAddress)
  | .ok (.ok ip) =>
      match maskPart ipNet with
      | none => .ok (.error invaildIpAddress)
      | some mask =>
          match atoi mask with
          | .error err => .ok (.error err)
          | .ok cidr =>
              if wrap64 (32 - cidr) < 0 then .error .negativeShift
              else .ok (.ok (ip, netMaskOf (wrap64 (32 - cidr))))

/-- `Add` reads its text and inserts. -/
theorem add_eq_readAdd (t : RadixTree) (ipNet value : String) :
    t.add ipNet value = match readAdd ipNet with
      | .error fault => .error fault
      | .ok (.error err) => .ok (some err, t)
      | .ok (.ok (ip, mask)) => .ok (none, { t.insert ip mask value with
          record := Insert.insert ipNet (t.insert ip mask value).record }) := by
  cases hip : inetToi (addressPart ipNet) with
  | error fault =>
      simp only [add, readAdd, ← addressPart.eq_1, hip]
  | ok r =>
      cases r with
      | error err => simp only [add, readAdd, ← addressPart.eq_1, hip]
      | ok ip =>
          simp only [add, readAdd, ← addressPart.eq_1, hip]
          unfold maskPart
          rcases split ipNet '/' with _ | ⟨a, _ | ⟨mask, rest⟩⟩
          · rfl
          · rfl
          · simp only [List.getElem?_cons_succ, List.getElem?_cons_zero]
            cases hc : atoi mask with
            | error err => rfl
            | ok cidr =>
                by_cases h : wrap64 (32 - cidr) < 0
                · simp only [if_pos h]
                · simp only [if_neg h]

def Accepted (ipNet : String) : Prop := ∃ ip mask, readAdd ipNet = .ok (.ok (ip, mask))

/-- `Add` panics for five leading numbers, and for a mask that leaves no shift count. -/
def AddPanics (ipNet : String) : Prop :=
  4 < numbers (addressPart ipNet) ∨
    (∃ ip, inetToi (addressPart ipNet) = .ok (.ok ip)) ∧
      ∃ mask cidr, maskPart ipNet = some mask ∧ atoi mask = .ok cidr ∧ wrap64 (32 - cidr) < 0

/-- Reading panics for these texts and for no others. -/
theorem readAdd_total (ipNet : String) :
    (AddPanics ipNet ∧ ∃ fault, readAdd ipNet = .error fault) ∨
      (¬ AddPanics ipNet ∧ ∃ r, readAdd ipNet = .ok r) := by
  unfold readAdd AddPanics
  rcases inetToi_total (addressPart ipNet) with ⟨hlt, h⟩ | ⟨hle, r, h⟩
  · rw [h]
    exact .inl ⟨.inl hlt, _, rfl⟩
  · have hnot : ¬ 4 < numbers (addressPart ipNet) := by omega
    rw [h]
    rcases r with err | ip
    · exact .inr ⟨by simp [hnot], _, rfl⟩
    · cases hm : maskPart ipNet with
      | none => exact .inr ⟨by simp [hnot], _, rfl⟩
      | some mask =>
          cases hc : atoi mask with
          | error err => exact .inr ⟨by simp [hnot, hc], .error err, by simp only [hc]⟩
          | ok cidr =>
              by_cases hneg : wrap64 (32 - cidr) < 0
              -- the shift count is negative
              · refine .inl ⟨.inr ⟨⟨ip, rfl⟩, mask, cidr, rfl, hc, hneg⟩, .negativeShift, ?_⟩
                simp only [hc, if_pos hneg]
              · refine .inr ⟨?_, .ok (ip, netMaskOf (wrap64 (32 - cidr))), ?_⟩
                swap
                · simp only [hc, if_neg hneg]
                rintro (h | ⟨-, mask', cidr', hm', hc', hneg'⟩)
                · exact hnot h
                · cases hm'
                  rw [hc] at hc'
                  cases hc'
                  exact hneg hneg'

/-- The empty text is never added, so no node gets the value that means none. -/
theorem Accepted.ne_noValue {ipNet : String} (h : Accepted ipNet) : ipNet ≠ noValue := by
  rintro rfl
  obtain ⟨ip, mask, h⟩ := h
  have hread : readAdd noValue = .ok (.error invaildIpAddress) := by decide +kernel
  rw [hread] at h
  cases h

/-- An `Add` that fails does nothing. -/
theorem add_error {t t' : RadixTree} {ipNet value : String} {err : GoError}
    (h : t.add ipNet value = .ok (some err, t')) : t' = t := by
  rw [add_eq_readAdd] at h
  rcases hread : readAdd ipNet with fault | err' | ⟨ip, mask⟩ <;> rw [hread] at h <;> cases h
  rfl

/-! ### What `Add` does to `Record`

The node part of the tree and its record are changed by different lines of `Add`, and are followed apart. -/

/-- Inserting is about nodes, not about `Record`. -/
theorem record_insertExtend {key mask : BitVec 32} (rounds : Nat) :
    ∀ {bit : BitVec 32} {node : Nat} {t : RadixTree},
      (insertExtend key mask rounds bit node t).2.record = t.record := by
  induction rounds with
  | zero => intro bit node t; rfl
  | succ rounds ih =>
      intro bit node t
      rw [insertExtend]
      split
      · have hnew : t.newNode.2.record = t.record := by
          unfold newNode
          split <;> rfl
        refine ih.trans ?_
        split <;> exact hnew
      · rfl

/-- An `Add` that succeeds has entered a text that it takes. -/
theorem record_add {t t' : RadixTree} {ipNet value : String}
    (h : t.add ipNet value = .ok (none, t')) :
    Accepted ipNet ∧ t'.record = Insert.insert ipNet t.record := by
  rw [add_eq_readAdd] at h
  rcases hread : readAdd ipNet with fault | err' | ⟨ip, mask⟩ <;> rw [hread] at h <;> cases h
  refine ⟨⟨ip, mask, hread⟩, ?_⟩
  have hinsert : (t.insert ip mask value).record = t.record := by
    rw [RadixTree.insert]
    split
    · rfl
    · exact record_insertExtend 33
  show Insert.insert ipNet (t.insert ip mask value).record = _
  rw [hinsert]

/-- What holds of the nodes does not depend on `Record`. -/
theorem IntactBut.withRecord {X : Nat → Prop} {t : RadixTree} (I : IntactBut X t)
    (record : Finset String) : IntactBut X { t with record := record } :=
  ⟨I.root_lt, I.top, I.child, I.parent, I.spare, I.busy⟩

/-- `Add` panics, or rejects the text and does nothing, or adds it. -/
theorem Intact.add {t : RadixTree} (I : Intact t) (ipNet : String) :
    (AddPanics ipNet ∧ ∃ fault, t.add ipNet ipNet = .error fault) ∨
    (¬ AddPanics ipNet ∧ ¬ Accepted ipNet ∧ ∃ err, t.add ipNet ipNet = .ok (some err, t)) ∨
    (¬ AddPanics ipNet ∧ Accepted ipNet ∧ ∃ t', t.add ipNet ipNet = .ok (none, t') ∧ Intact t' ∧
      t'.record = Insert.insert ipNet t.record) := by
  rw [add_eq_readAdd]
  rcases readAdd_total ipNet with ⟨hpanics, fault, hread⟩ | ⟨hnot, r, hread⟩
  · rw [hread]
    exact .inl ⟨hpanics, fault, rfl⟩
  · rcases r with err | ⟨ip, mask⟩
    · refine .inr (.inl ⟨hnot, ?_, err, by rw [hread]⟩)
      rintro ⟨ip, mask, hok⟩
      rw [hread] at hok
      cases hok
    · have hacc : Accepted ipNet := ⟨ip, mask, hread⟩
      obtain ⟨I', hrec⟩ := IntactBut.insert I ip mask hacc.ne_noValue
      refine .inr (.inr ⟨hnot, hacc, _, by rw [hread], I'.withRecord _, ?_⟩)
      show Insert.insert ipNet _ = _
      rw [hrec]

/-! ## `Delete`

The same for `Delete`, which rejects more texts, and may panic after reading: at the root of a tree that has
no other node. -/

/-- How `Delete` reads a text: as an address and a mask length. -/
def readDelete (ipNet : String) : Except Fault (Except GoError (BitVec 32 × Int)) :=
  match inetToi (addressPart ipNet) with
  | .error fault => .error fault
  | .ok (.error _) => .ok (.error invaildIpAddress)
  | .ok (.ok ip) =>
      match maskPart ipNet with
      | none => .ok (.error invaildIpAddress)
      | some mask =>
          match atoi mask with
          | .error _ => .ok (.error invaildNetMask)
          | .ok cidr =>
              if cidr < 0 ∨ cidr > 32 then .ok (.error invaildNetMask) else .ok (.ok (ip, cidr))

/-- What `Delete` makes of the end of `delete`. -/
def deleted (t : RadixTree) (ipNet : String) (ip : BitVec 32) (cidr : Int) :
    Except Fault (Option GoError × RadixTree) :=
  match t.delete ip (netMaskOf (32 - cidr)) with
  | .error fault => .error fault
  | .ok (true, t) => .ok (none, { t with record := t.record.erase ipNet })
  | .ok (false, t) => .ok (some cantFindIpNet, t)

/-- `Delete` reads its text and deletes. -/
theorem Delete_eq_readDelete (t : RadixTree) (ipNet : String) :
    t.Delete ipNet = match readDelete ipNet with
      | .error fault => .error fault
      | .ok (.error err) => .ok (some err, t)
      | .ok (.ok (ip, cidr)) => deleted t ipNet ip cidr := by
  cases hip : inetToi (addressPart ipNet) with
  | error fault => simp only [Delete, readDelete, ← addressPart.eq_1, hip]
  | ok r =>
      cases r with
      | error err => simp only [Delete, readDelete, ← addressPart.eq_1, hip]
      | ok ip =>
          simp only [Delete, readDelete, ← addressPart.eq_1, hip]
          unfold maskPart
          rcases split ipNet '/' with _ | ⟨a, _ | ⟨mask, rest⟩⟩
          · rfl
          · rfl
          · simp only [List.getElem?_cons_succ, List.getElem?_cons_zero]
            cases hc : atoi mask with
            | error err => rfl
            | ok cidr =>
                by_cases h : cidr < 0 ∨ cidr > 32
                · simp only [if_pos h]
                · simp only [if_neg h]
                  rfl

/-- `delete` that finds nothing does nothing. -/
theorem delete_false {t t' : RadixTree} {key mask : BitVec 32}
    (h : t.delete key mask = .ok (false, t')) : t' = t := by
  unfold delete at h
  split at h
  · cases h
    rfl
  · split at h
    · split at h <;> cases h
      rfl
    · next node hnode hleaf =>
        rcases hprune : deletePrune t.next t node with fault | t'' <;> rw [hprune] at h <;> cases h

/-- A `Delete` that fails does nothing. -/
theorem Delete_error {t t' : RadixTree} {ipNet : String} {err : GoError}
    (h : t.Delete ipNet = .ok (some err, t')) : t' = t := by
  rw [Delete_eq_readDelete] at h
  rcases hread : readDelete ipNet with fault | err' | ⟨ip, cidr⟩
  · rw [hread] at h
    cases h
  · rw [hread] at h
    cases h
    rfl
  · simp only [hread, deleted] at h
    rcases hdelete : t.delete ip (netMaskOf (32 - cidr)) with fault | ⟨_ | _, t''⟩ <;>
      rw [hdelete] at h <;> cases h
    exact delete_false hdelete

/-! ### What `Delete` does to `Record`

As for `Add`, the loops are about nodes. -/

/-- Pruning is about nodes, not about `Record`. -/
theorem record_deletePrune (rounds : Nat) : ∀ {t t' : RadixTree} {node : Nat},
    deletePrune rounds t node = .ok t' → t'.record = t.record := by
  induction rounds with
  | zero => intro t t' node h; cases h
  | succ rounds ih =>
      intro t t' node h
      cases hparent : (t.store node).parent with
      | none =>
          rw [deletePrune, hparent] at h
          cases h
      | some parent =>
          have hreleased := record_released t parent node
          rw [deletePrune_succ rounds hparent] at h
          split at h
          · cases h
            exact hreleased
          split at h
          · cases h
            exact hreleased
          split at h
          · cases h
            exact hreleased
          · exact (ih h).trans hreleased

theorem record_delete {t t' : RadixTree} {key mask : BitVec 32} {done : Bool}
    (h : t.delete key mask = .ok (done, t')) : t'.record = t.record := by
  unfold delete at h
  split at h
  · cases h
    rfl
  · split at h
    · split at h <;> cases h <;> rfl
    · next node hnode hleaf =>
        rcases hprune : deletePrune t.next t node with fault | t'' <;> rw [hprune] at h <;> cases h
        exact record_deletePrune _ hprune

/-- A `Delete` that succeeds has taken its text out. -/
theorem record_Delete {t t' : RadixTree} {ipNet : String}
    (h : t.Delete ipNet = .ok (none, t')) : t'.record = t.record.erase ipNet := by
  rw [Delete_eq_readDelete] at h
  rcases hread : readDelete ipNet with fault | err' | ⟨ip, cidr⟩
  · rw [hread] at h
    cases h
  · rw [hread] at h
    cases h
  · simp only [hread, deleted] at h
    rcases hdelete : t.delete ip (netMaskOf (32 - cidr)) with fault | ⟨_ | _, t''⟩ <;>
      rw [hdelete] at h <;> cases h
    show t''.record.erase ipNet = _
    rw [record_delete hdelete]

/-! ### When `Delete` panics

Reading may panic as in `Add`. Beside that, the mask 0 leads to the root: the tests for a leaf look at its
children, and with none the code unlinks it from a parent that is not there. -/

/-- `Delete` panics for five leading numbers, and for the mask 0 when the root is alone. -/
def DeletePanics (t : RadixTree) (ipNet : String) : Prop :=
  4 < numbers (addressPart ipNet) ∨
    (∃ ip, inetToi (addressPart ipNet) = .ok (.ok ip)) ∧
      (∃ mask, maskPart ipNet = some mask ∧ atoi mask = .ok 0) ∧
        (t.store t.root).right = none ∧ (t.store t.root).left = none

/-- The text names the mask 0. -/
theorem readDelete_eq_zero (ipNet : String) : (∃ ip, readDelete ipNet = .ok (.ok (ip, 0))) ↔
    (∃ ip, inetToi (addressPart ipNet) = .ok (.ok ip)) ∧
      ∃ mask, maskPart ipNet = some mask ∧ atoi mask = .ok 0 := by
  constructor
  · rintro ⟨ip, h⟩
    unfold readDelete at h
    split at h
    · cases h
    · cases h
    · next ip' hip =>
        split at h
        · cases h
        · next mask hmask =>
            split at h
            · cases h
            · next cidr hcidr =>
                split at h
                · cases h
                · cases h
                  exact ⟨⟨_, hip⟩, mask, hmask, hcidr⟩
  · rintro ⟨⟨ip, hip⟩, mask, hmask, hcidr⟩
    refine ⟨ip, ?_⟩
    unfold readDelete
    simp only [hip, hmask, hcidr]
    rfl

/-- Reading panics exactly on five leading numbers, and ends with a mask in `0..32`. -/
theorem readDelete_total (ipNet : String) :
    (4 < numbers (addressPart ipNet) ∧ ∃ fault, readDelete ipNet = .error fault) ∨
    (numbers (addressPart ipNet) ≤ 4 ∧ ((∃ err, readDelete ipNet = .ok (.error err)) ∨
      ∃ ip cidr, readDelete ipNet = .ok (.ok (ip, cidr)) ∧ 0 ≤ cidr ∧ cidr ≤ 32)) := by
  unfold readDelete
  rcases inetToi_total (addressPart ipNet) with ⟨hlt, h⟩ | ⟨hle, r, h⟩
  · rw [h]
    exact .inl ⟨hlt, _, rfl⟩
  · rw [h]
    refine .inr ⟨hle, ?_⟩
    rcases r with err | ip
    · exact .inl ⟨_, rfl⟩
    · cases hm : maskPart ipNet with
      | none => exact .inl ⟨_, rfl⟩
      | some mask =>
          cases hc : atoi mask with
          | error err => exact .inl ⟨invaildNetMask, by simp only [hc]⟩
          | ok cidr =>
              by_cases hr : cidr < 0 ∨ cidr > 32
              · exact .inl ⟨invaildNetMask, by simp only [hc, if_pos hr]⟩
              · exact .inr ⟨ip, cidr, by simp only [hc, if_neg hr], by omega, by omega⟩

/-- A mask in `1..32` has the first bit. -/
theorem maxIpv4Bit_and_netMaskOf {cidr : Int} (hpos : 0 < cidr) (hle : cidr ≤ 32) :
    maxIpv4Bit &&& netMaskOf (32 - cidr) ≠ 0#32 := by
  have hmask : ∀ k : Fin 32, maxIpv4Bit &&& netMaskOf (k.val : Int) ≠ 0#32 := by decide +kernel
  have hk : (32 - cidr) = (((⟨(32 - cidr).toNat, by omega⟩ : Fin 32).val : Nat) : Int) := by
    show 32 - cidr = (((32 - cidr).toNat : Nat) : Int)
    omega
  rw [hk]
  exact hmask _

theorem netMaskOf_all : netMaskOf (32 - 0) = 0#32 := by decide +kernel

/-- A mask with the first bit leads away from the root. -/
theorem Intact.deleteDescend_ne_root {t : RadixTree} (I : Intact t) {key mask : BitVec 32}
    (hbit : maxIpv4Bit &&& mask ≠ 0#32) :
    deleteDescend t.store key mask 33 maxIpv4Bit (some t.root) ≠ some t.root := by
  intro h
  rw [deleteDescend, if_pos hbit] at h
  obtain ⟨b, hb⟩ : ∃ b, (t.store t.root).child b =
      if key &&& maxIpv4Bit ≠ 0#32 then (t.store t.root).right else (t.store t.root).left := by
    by_cases hkey : key &&& maxIpv4Bit ≠ 0#32
    · exact ⟨true, by rw [if_pos hkey]; rfl⟩
    · exact ⟨false, by rw [if_neg hkey]; rfl⟩
  rw [← hb] at h
  obtain ⟨-, hstart | hne⟩ :=
    IntactBut.deleteDescend I 32 (fun a ha => (I.child I.root_lt ha).1) h
  · exact (I.child I.root_lt hstart).2 rfl
  · exact hne rfl

/-- The mask 0 names the root, which cannot be unlinked. -/
theorem delete_root {t : RadixTree} (hlt : t.root < t.next) (htop : (t.store t.root).parent = none)
    (key : BitVec 32) (hright : (t.store t.root).right = none) (hleft : (t.store t.root).left = none) :
    t.delete key 0#32 = .error .nilDereference := by
  have hdescend : deleteDescend t.store key 0#32 33 maxIpv4Bit (some t.root) = some t.root := by
    rw [deleteDescend, if_neg (by simp)]
  obtain ⟨k, hk⟩ : ∃ k, t.next = k + 1 := ⟨t.next - 1, by omega⟩
  have hprune : deletePrune t.next t t.root = .error .nilDereference := by
    rw [hk, deletePrune, htop]
  unfold RadixTree.delete
  simp only [hdescend, hright, hleft, hprune]
  rfl

/-- `Delete` panics, or fails and does nothing, or deletes. -/
theorem Intact.Delete {t : RadixTree} (I : Intact t) (ipNet : String) :
    (DeletePanics t ipNet ∧ ∃ fault, t.Delete ipNet = .error fault) ∨
    (¬ DeletePanics t ipNet ∧ ∃ err, t.Delete ipNet = .ok (some err, t)) ∨
    (¬ DeletePanics t ipNet ∧ ∃ t', t.Delete ipNet = .ok (none, t') ∧ Intact t' ∧
      t'.record = t.record.erase ipNet) := by
  have hpanics : DeletePanics t ipNet ↔ 4 < numbers (addressPart ipNet) ∨
      (∃ ip, readDelete ipNet = .ok (.ok (ip, 0))) ∧
        (t.store t.root).right = none ∧ (t.store t.root).left = none := by
    rw [DeletePanics, readDelete_eq_zero, and_assoc]
  rw [Delete_eq_readDelete, hpanics]
  rcases readDelete_total ipNet with ⟨hlt, fault, hread⟩ | ⟨hle, ⟨err, hread⟩ | ⟨ip, cidr, hread, hpos, hmax⟩⟩
  · rw [hread]
    exact .inl ⟨.inl hlt, fault, rfl⟩
  · rw [hread]
    exact .inr (.inl ⟨by simp [hle], err, rfl⟩)
  · simp only [hread]
    by_cases halone : cidr = 0 ∧ (t.store t.root).right = none ∧ (t.store t.root).left = none
    · obtain ⟨rfl, hright, hleft⟩ := halone
      refine .inl ⟨.inr ⟨⟨ip, rfl⟩, hright, hleft⟩, .nilDereference, ?_⟩
      rw [deleted, netMaskOf_all, delete_root I.root_lt I.top ip hright hleft]
    -- `delete` returns now, since it panics at the root only
    · have hnot : ¬ (4 < numbers (addressPart ipNet) ∨
          (∃ ip', (Except.ok (Except.ok (ip, cidr)) : Except Fault (Except GoError (BitVec 32 × Int)))
              = .ok (.ok (ip', 0))) ∧
            (t.store t.root).right = none ∧ (t.store t.root).left = none) := by
        rintro (h | ⟨⟨ip', h⟩, hright, hleft⟩)
        · omega
        · cases h
          exact halone ⟨rfl, hright, hleft⟩
      rcases I.delete ip (netMaskOf (32 - cidr)) with
        ⟨done, t', hdelete, I', hrec, hsame⟩ | ⟨hroot, hright, hleft, -⟩
      · cases done with
        | false =>
            obtain rfl := hsame rfl
            exact .inr (.inl ⟨hnot, cantFindIpNet, by rw [deleted, hdelete]⟩)
        | true =>
            refine .inr (.inr ⟨hnot, _, by rw [deleted, hdelete], I'.withRecord _, ?_⟩)
            show t'.record.erase ipNet = _
            rw [hrec]
      · have hzero : cidr ≠ 0 := fun h => halone ⟨h, hright, hleft⟩
        exact absurd hroot (I.deleteDescend_ne_root (maxIpv4Bit_and_netMaskOf (by omega) hmax))

end RadixTree

end Cheryl.Acl
