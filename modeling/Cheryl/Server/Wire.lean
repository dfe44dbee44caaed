import Cheryl.Server.HttpServer

/-!
# The log as bytes

What raft replicates are bytes: `Encode` puts the two bytes of `Opt` before the data, and `Apply` takes
them off again. Here both are modelled on bytes. Every string of at least two bytes is one entry, so the
bytes can be left out of the rest of the model, where an entry is a pair (`wire_faithful`). A shorter
string panics in the goroutine that applies the log, on every node that comes to it.
-/

namespace Cheryl.Server

open ReverseProxy

/-! ## Encoding and decoding -/

abbrev Bytes := List UInt8

/-- What `binary.Write` makes of a `uint16` in the order `binary.BigEndian`. -/
def putUint16 (v : UInt16) : Bytes := [(v >>> 8).toUInt8, v.toUInt8]

/-- `binary.BigEndian.Uint16`. It panics on fewer than two bytes. -/
def uint16 : Bytes → Except Fault UInt16
  | high :: low :: _ => .ok (low.toUInt16 ||| high.toUInt16 <<< 8)
  | _ => .error .outOfRange

/-- `Encode`. Neither of its writes to the buffer fails. -/
def LogEntry.encode (l : LogEntry Bytes) : Bytes := putUint16 l.opt ++ l.data

/-- `Apply`, on the bytes of a `raft.Log`. -/
def FSM.applyLog (env : Env) (enc : Encoding Bytes) (n : Node) (data : Bytes) (received : Bool) :
    Outcome × Node :=
  match uint16 data with
  | .error fault => (.error fault, n)
  | .ok optType => FSM.apply env enc n ⟨optType, data.drop 2⟩ received

/-! ## Two bytes

Big endian: the high byte first. Going one way and then the other gives back what was there, in both
directions. -/

/-- The number two bytes stand for. -/
theorem toNat_uint16 (high low : UInt8) :
    (low.toUInt16 ||| high.toUInt16 <<< 8).toNat = high.toNat * 256 + low.toNat := by
  have hhigh := high.toNat_lt
  have hlow := low.toNat_lt
  have hfits : high.toNat <<< 8 % 2 ^ 16 = high.toNat <<< 8 := Nat.mod_eq_of_lt (by omega)
  rw [UInt16.toNat_or, UInt16.toNat_shiftLeft, UInt8.toNat_toUInt16, UInt8.toNat_toUInt16,
    show (8 : UInt16).toNat % 16 = 8 from rfl, hfits, Nat.or_comm,
    ← Nat.shiftLeft_add_eq_or_of_lt hlow, Nat.shiftLeft_eq]

theorem toNat_high (v : UInt16) : (v >>> 8).toUInt8.toNat = v.toNat / 256 := by
  have hv := v.toNat_lt
  rw [UInt16.toNat_toUInt8, UInt16.toNat_shiftRight, show (8 : UInt16).toNat % 16 = 8 from rfl,
    Nat.shiftRight_eq_div_pow]
  omega

/-- What is put is read again, whatever follows. -/
theorem uint16_putUint16 (v : UInt16) (data : Bytes) : uint16 (putUint16 v ++ data) = .ok v := by
  refine congrArg Except.ok (UInt16.toNat_inj.mp ?_)
  rw [toNat_uint16, toNat_high, UInt16.toNat_toUInt8]
  omega

/-- What is read is put again. -/
theorem putUint16_uint16 (high low : UInt8) :
    putUint16 (low.toUInt16 ||| high.toUInt16 <<< 8) = [high, low] := by
  have hhigh := high.toNat_lt
  have hlow := low.toNat_lt
  have hfirst : ((low.toUInt16 ||| high.toUInt16 <<< 8) >>> 8).toUInt8 = high := by
    refine UInt8.toNat_inj.mp ?_
    rw [toNat_high, toNat_uint16]
    omega
  have hsecond : (low.toUInt16 ||| high.toUInt16 <<< 8).toUInt8 = low := by
    refine UInt8.toNat_inj.mp ?_
    rw [UInt16.toNat_toUInt8, toNat_uint16]
    omega
  rw [putUint16, hfirst, hsecond]

/-! ## Entries

Encoding is injective, and its values are the strings of at least two bytes. So an entry and its bytes
determine each other. -/

section Entries

variable {env : Env} {enc : Encoding Bytes} {n : Node} {received : Bool}

/-- Bytes make the number that is put only in one way. -/
theorem LogEntry.encode_injective : Function.Injective LogEntry.encode := by
  intro l l' heq
  have hopt : l.opt = l'.opt := by
    have hread := uint16_putUint16 l.opt l.data
    rw [show putUint16 l.opt ++ l.data = putUint16 l'.opt ++ l'.data from heq, uint16_putUint16] at hread
    exact (Except.ok.inj hread).symm
  have hdata : l.data = l'.data := congrArg (List.drop 2) heq
  cases l
  cases l'
  cases hopt
  cases hdata
  rfl

/-- The strings of at least two bytes are those of the entries. -/
theorem exists_encode_eq_iff {data : Bytes} : (∃ l : LogEntry Bytes, l.encode = data) ↔ 2 ≤ data.length := by
  constructor
  · rintro ⟨l, rfl⟩
    simp [LogEntry.encode, putUint16]
  · intro hlen
    match data, hlen with
    | high :: low :: rest, _ =>
        exact ⟨⟨low.toUInt16 ||| high.toUInt16 <<< 8, rest⟩, by
          rw [LogEntry.encode, putUint16_uint16]
          rfl⟩

/-- `Apply` on the bytes of an entry is `Apply` on the entry. -/
theorem FSM.applyLog_encode (l : LogEntry Bytes) :
    FSM.applyLog env enc n l.encode received = FSM.apply env enc n l received := by
  rw [FSM.applyLog, LogEntry.encode, uint16_putUint16]
  rfl

/-- `Apply` on a shorter string panics. -/
theorem FSM.applyLog_short {data : Bytes} (hshort : data.length < 2) :
    FSM.applyLog env enc n data received = (.error .outOfRange, n) := by
  match data, hshort with
  | [], _ => rfl
  | [_], _ => rfl

end Entries

/-! ## Writing and applying the log

The functions of `Cheryl.Server.HttpServer` and the goroutine that applies the log, once on bytes and once
on entries, and that they do the same. -/

/-- `HttpServer`, with the log as bytes. -/
structure WireServer where
  enableWrite : Bool
  state : Node
  committed : List Bytes

/-- `writeLogEntry`: encode the event, hand the bytes to raft, and wait until `Apply` has run on them. -/
def WireServer.writeLogEntry (env : Env) (enc : Encoding Bytes) (h : WireServer) (optType : UInt16)
    (data : Bytes) (raft : RaftOutcome) : Outcome × WireServer :=
  let eventBytes := LogEntry.encode ⟨optType, data⟩
  match raft with
  | .failed err => (.ok (some err), h)
  | .committed received =>
      let h := { h with committed := h.committed ++ [eventBytes] }
      match FSM.applyLog env enc h.state eventBytes received with
      | (.error fault, n) => (.error fault, { h with state := n })
      | (.ok _, n) => (.ok none, { h with state := n })

def HttpServer.wire (h : HttpServer Bytes) : WireServer :=
  ⟨h.enableWrite, h.state, h.committed.map LogEntry.encode⟩

/-- Writing an entry, seen on bytes. -/
theorem HttpServer.writeLogEntry_wire (env : Env) (enc : Encoding Bytes) (h : HttpServer Bytes)
    (optType : UInt16) (data : Bytes) (raft : RaftOutcome) :
    h.wire.writeLogEntry env enc optType data raft =
      ((h.writeLogEntry env enc optType data raft).1,
        (h.writeLogEntry env enc optType data raft).2.wire) := by
  cases raft with
  | failed err => rfl
  | committed received =>
      simp only [WireServer.writeLogEntry, HttpServer.writeLogEntry, HttpServer.wire,
        FSM.applyLog_encode]
      rcases FSM.apply env enc h.state ⟨optType, data⟩ received with ⟨fault | ret, n⟩ <;>
        simp [HttpServer.withState]

/-- The goroutine of raft that applies the log: one `Apply` after the other, until one panics. Each comes
with what the outside answers. -/
def FSM.runLog (env : Env) (enc : Encoding Bytes) : List (Bytes × Bool) → Node → Outcome × Node
  | [], n => (.ok none, n)
  | (data, received) :: rest, n =>
      match FSM.applyLog env enc n data received with
      | (.error fault, n) => (.error fault, n)
      | (.ok _, n) => FSM.runLog env enc rest n

/-- The same for entries. -/
def FSM.runEntries {δ : Type} (env : Env) (enc : Encoding δ) :
    List (LogEntry δ × Bool) → Node → Outcome × Node
  | [], n => (.ok none, n)
  | (entry, received) :: rest, n =>
      match FSM.apply env enc n entry received with
      | (.error fault, n) => (.error fault, n)
      | (.ok _, n) => FSM.runEntries env enc rest n

def wire (es : List (LogEntry Bytes × Bool)) : List (Bytes × Bool) := es.map fun e => (e.1.encode, e.2)

section Runs

variable {env : Env} {enc : Encoding Bytes}

/-- A log that goes on after some entries. -/
theorem runLog_wire_append (es : List (LogEntry Bytes × Bool)) (rest : List (Bytes × Bool)) (n : Node) :
    FSM.runLog env enc (wire es ++ rest) n =
      match FSM.runEntries env enc es n with
      | (.error fault, n) => (.error fault, n)
      | (.ok _, n) => FSM.runLog env enc rest n := by
  induction es generalizing n with
  | nil => rfl
  | cons e es ih =>
      obtain ⟨entry, received⟩ := e
      show FSM.runLog env enc ((entry.encode, received) :: (wire es ++ rest)) n = _
      rw [FSM.runLog, FSM.applyLog_encode, FSM.runEntries]
      rcases FSM.apply env enc n entry received with ⟨fault | ret, n'⟩
      · rfl
      · exact ih n'

/-- A log of entries that is applied to the end returns nothing. -/
theorem runEntries_ok {es : List (LogEntry Bytes × Bool)} {n n' : Node} {ret : Option GoError}
    (h : FSM.runEntries env enc es n = (.ok ret, n')) : ret = none := by
  induction es generalizing n with
  | nil =>
      cases h
      rfl
  | cons e es ih =>
      obtain ⟨entry, received⟩ := e
      rw [FSM.runEntries] at h
      rcases happly : FSM.apply env enc n entry received with ⟨fault | ret', n₁⟩ <;> rw [happly] at h
      · cases h
      · exact ih h

end Runs

/-- Bytes are as good as entries. Every string of at least two bytes is one entry, and no other string is
one; a server that writes bytes to the log does what one does that writes entries; a node that applies the
bytes of entries does what one does that applies the entries; and if a shorter string follows, the node
panics when it comes to it. -/
theorem wire_faithful (env : Env) (enc : Encoding Bytes) :
    (∀ data : Bytes, 2 ≤ data.length ↔ ∃! l : LogEntry Bytes, l.encode = data) ∧
    (∀ (h : HttpServer Bytes) optType data raft, h.wire.writeLogEntry env enc optType data raft =
      ((h.writeLogEntry env enc optType data raft).1,
        (h.writeLogEntry env enc optType data raft).2.wire)) ∧
    (∀ es n, FSM.runLog env enc (wire es) n = FSM.runEntries env enc es n) ∧
    ∀ es n short received rest, short.length < 2 →
      FSM.runLog env enc (wire es ++ (short, received) :: rest) n =
        match FSM.runEntries env enc es n with
        | (.error fault, n) => (.error fault, n)
        | (.ok _, n) => (.error .outOfRange, n) := by
  refine ⟨fun data => ⟨fun hlen => ?_, fun ⟨l, hl, _⟩ => exists_encode_eq_iff.mp ⟨l, hl⟩⟩,
    fun h optType data raft => h.writeLogEntry_wire env enc optType data raft, fun es n => ?_,
    fun es n short received rest hshort => ?_⟩
  · obtain ⟨l, hl⟩ := exists_encode_eq_iff.mpr hlen
    exact ⟨l, hl, fun l' hl' => LogEntry.encode_injective (hl'.trans hl.symm)⟩
  · rw [← List.append_nil (wire es), runLog_wire_append]
    rcases hentries : FSM.runEntries env enc es n with ⟨fault | ret, n'⟩
    · rfl
    · rw [runEntries_ok hentries]
      rfl
  · rw [runLog_wire_append]
    rcases FSM.runEntries env enc es n with ⟨fault | ret, n'⟩
    · rfl
    · show FSM.runLog env enc ((short, received) :: rest) n' = _
      rw [FSM.runLog, FSM.applyLog_short hshort]

end Cheryl.Server
