import Cheryl.Acl.Texts

/-!
# Which texts `InetToi` reads

`InetToi` puts the numbers between the dots next to each other, each eight places to the right of
the one before. That makes an address of a dotted quad. But the numbers are not counted, and may
have a sign or any size, so other texts are read as well, or make it panic (`readsExactly_iff`).
-/

namespace Cheryl.Acl

open Utils

variable {s : String} {a b c d a' b' c' d' : List Char}

/-! ## What is meant

An address is written as a dotted quad, and it stands for its four octets, the first one on the left. -/

structure IsQuad (s : String) (a b c d : List Char) : Prop where
  spelled : s = String.ofList (quad a b c d)
  octet_a : IsOctet a
  octet_b : IsOctet b
  octet_c : IsOctet c
  octet_d : IsOctet d

namespace IsQuad

/-- The octets do not overflow the word. -/
theorem toNat_quadAddress (Q : IsQuad s a b c d) : (quadAddress a b c d).toNat =
    decimal a * 2 ^ 24 + decimal b * 2 ^ 16 + decimal c * 2 ^ 8 + decimal d := by
  have ha := Q.octet_a.2
  have hb := Q.octet_b.2
  have hc := Q.octet_c.2
  have hd := Q.octet_d.2
  rw [quadAddress, BitVec.toNat_ofNat, Nat.mod_eq_of_lt (by omega)]

/-- The source reads it as that. -/
theorem inetToi (Q : IsQuad s a b c d) : inetToi s = .ok (.ok (quadAddress a b c d)) := by
  rw [Q.spelled]
  exact inetToi_quad Q.octet_a Q.octet_b Q.octet_c Q.octet_d

/-- All its fields are numbers. -/
theorem parses (Q : IsQuad s a b c d) : ∀ field ∈ split s '.', parses field = true := by
  have hparses {ds : List Char} (hds : IsOctet ds) : Acl.parses (String.ofList ds) = true := by
    have hle := hds.2
    unfold Acl.parses
    rw [atoi_of_isNumeral hds.1 (by omega)]
  intro field hfield
  rw [Q.spelled, split_quad Q.octet_a Q.octet_b Q.octet_c Q.octet_d] at hfield
  simp only [List.mem_cons, List.not_mem_nil, or_false] at hfield
  rcases hfield with rfl | rfl | rfl | rfl
  · exact hparses Q.octet_a
  · exact hparses Q.octet_b
  · exact hparses Q.octet_c
  · exact hparses Q.octet_d

end IsQuad

/-- What reading an address should be: no panic, and a number for the dotted quads only, the one
their octets stand for. -/
structure ReadsExactly (s : String) : Prop where
  returns : ∃ r, inetToi s = .ok r
  value : ∀ v, inetToi s = .ok (.ok v) ↔ ∃ a b c d, IsQuad s a b c d ∧
    v.toNat = decimal a * 2 ^ 24 + decimal b * 2 ^ 16 + decimal c * 2 ^ 8 + decimal d

/-! ## When there is a number

The loop stops at the first field that is no number, with an error. So a number comes out only when all
fields are numbers, however many there are, and an error only when one is not; from the fifth number on the
shift count is negative, and the loop panics. -/

theorem parses_of_inetToiLoop (segs : List String) : ∀ {pos : Int} {ret v : BitVec 32},
    inetToiLoop segs pos ret = .ok (.ok v) → ∀ seg ∈ segs, parses seg = true := by
  induction segs with
  | nil =>
      intro pos ret v _ seg hmem
      cases hmem
  | cons seg segs ih =>
      intro pos ret v h
      unfold inetToiLoop at h
      cases hseg : atoi seg with
      | error err =>
          rw [hseg] at h
          cases h
      | ok n =>
          rw [hseg] at h
          simp only at h
          split at h
          · cases h
          · intro seg' hmem
            rcases List.mem_cons.mp hmem with rfl | hmem
            · simp [parses, hseg]
            · exact ih h seg' hmem

/-- Only a field that is no number gives an error. -/
theorem exists_not_parses_of_inetToiLoop (segs : List String) :
    ∀ {pos : Int} {ret : BitVec 32} {err : GoError}, inetToiLoop segs pos ret = .ok (.error err) →
      ∃ seg ∈ segs, parses seg = false := by
  induction segs with
  | nil =>
      intro pos ret err h
      cases h
  | cons seg segs ih =>
      intro pos ret err h
      unfold inetToiLoop at h
      cases hseg : atoi seg with
      | error err => exact ⟨seg, List.mem_cons_self, by simp [parses, hseg]⟩
      | ok n =>
          rw [hseg] at h
          simp only at h
          split at h
          · cases h
          · obtain ⟨seg', hmem, hnot⟩ := ih h
            exact ⟨seg', List.mem_cons_of_mem _ hmem, hnot⟩

/-- How far a property goes in a list. -/
theorem length_takeWhile_le_iff {α : Type} (p : α → Bool) (l : List α) : ∀ k : Nat,
    (l.takeWhile p).length ≤ k ↔ l.length ≤ k ∨ ∃ x ∈ l.take (k + 1), p x = false := by
  induction l with
  | nil => simp
  | cons x l ih =>
      intro k
      cases hx : p x with
      | false => simp [hx]
      | true =>
          cases k with
          | zero => simp [hx]
          | succ k =>
              simp only [List.takeWhile_cons, hx, if_true, List.length_cons, Nat.add_le_add_iff_right,
                List.take_succ_cons, List.exists_mem_cons_iff, reduceCtorEq, false_or]
              exact ih k

/-- The loop ends before a fifth number, if there are not so many fields or one of the first five is
no number. -/
theorem numbers_le_iff (s : String) : numbers s ≤ 4 ↔
    (split s '.').length ≤ 4 ∨ ∃ field ∈ (split s '.').take 5, parses field = false :=
  length_takeWhile_le_iff parses (split s '.') 4

/-- `InetToi` reads a text as it should if and only if this is a dotted quad, or one of its first
five fields is no number. -/
theorem readsExactly_iff (s : String) : ReadsExactly s ↔ (∃ a b c d, IsQuad s a b c d) ∨
    ∃ field ∈ (split s '.').take 5, parses field = false := by
  constructor
  · intro R
    rw [or_iff_not_imp_left]
    intro hnot
    obtain ⟨r, hr⟩ := R.returns
    cases r with
    | ok v =>
        obtain ⟨a, b, c, d, Q, -⟩ := (R.value v).mp hr
        exact absurd ⟨a, b, c, d, Q⟩ hnot
    | error err =>
        have hle : numbers s ≤ 4 := by
          rcases inetToi_total s with ⟨-, h⟩ | ⟨hle, -⟩
          · rw [h] at hr
            cases hr
          · exact hle
        rcases (numbers_le_iff s).mp hle with hfew | hfield
        · obtain ⟨field, hmem, hfield⟩ := exists_not_parses_of_inetToiLoop _ hr
          exact ⟨field, by rwa [List.take_of_length_le (by omega)], hfield⟩
        · exact hfield
  · rintro (⟨a, b, c, d, Q⟩ | hfield)
    · refine ⟨⟨_, Q.inetToi⟩, fun v => ?_⟩
      rw [Q.inetToi]
      constructor
      · intro h
        cases h
        exact ⟨a, b, c, d, Q, Q.toNat_quadAddress⟩
      · rintro ⟨a', b', c', d', Q', hv⟩
        -- the octets of a text are not in doubt
        have hv' : v = quadAddress a' b' c' d' := by
          apply BitVec.eq_of_toNat_eq
          rw [hv, Q'.toNat_quadAddress]
        rw [hv', ← Q.inetToi, ← Q'.inetToi]
    -- the loop stops before it panics, and not with a number
    · have hle : numbers s ≤ 4 := (numbers_le_iff s).mpr (.inr hfield)
      refine ⟨?_, fun v => ?_⟩
      · rcases inetToi_total s with ⟨hlt, -⟩ | ⟨-, hr⟩
        · omega
        · exact hr
      · obtain ⟨field, hmem, hnot⟩ := hfield
        have hmem' : field ∈ split s '.' := List.mem_of_mem_take hmem
        constructor
        · intro h
          rw [parses_of_inetToiLoop _ h field hmem'] at hnot
          cases hnot
        · rintro ⟨a, b, c, d, Q, -⟩
          rw [Q.parses field hmem'] at hnot
          cases hnot

/-- A fifth number makes it panic. -/
theorem not_readsExactly : ¬ ∀ s, ReadsExactly s := by
  intro h
  obtain ⟨r, hr⟩ := (h "1.2.3.4.5").returns
  have hpanics : inetToi "1.2.3.4.5" = .error .negativeShift := by decide +kernel
  rw [hpanics] at hr
  cases hr

end Cheryl.Acl
