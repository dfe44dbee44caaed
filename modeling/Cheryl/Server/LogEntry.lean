import Cheryl.ReverseProxy.ProxyMap
import Cheryl.Server.AclLog

/-!
# `cheryl/log_entry.go`: what goes through the log

The data of an entry is JSON text, or the text of a pattern. The encoder is a third-party package,
so the data is of any type `δ` with an encoding and a decoding for each record, of which the model
knows that decoding undoes encoding. What decoding does with other data is left open.
-/

namespace Cheryl.Server

open ReverseProxy

structure HostLog where
  pattern : String
  host : String
  deriving DecidableEq, Repr

/-! ## Encodings -/

/-- `jsoniter.Marshal` and `jsoniter.Unmarshal` at one type of records. -/
structure Codec (δ α : Type) where
  marshal : α → δ
  unmarshal : δ → Except GoError α
  unmarshal_marshal : ∀ a, unmarshal (marshal a) = .ok a

/-- The encodings in use; `bytes` and `string` are the conversions `[]byte(s)` and `string(data)`. -/
structure Encoding (δ : Type) where
  location : Codec δ Location
  limiterInfo : Codec δ LimiterInfo
  aclLog : Codec δ AclLog
  hostLog : Codec δ HostLog
  bytes : String → δ
  string : δ → String
  string_bytes : ∀ s, string (bytes s) = s

/-- The records themselves, as data. -/
inductive Payload
  | location (l : Location)
  | limiterInfo (info : LimiterInfo)
  | aclLog (aclLog : AclLog)
  | hostLog (log : HostLog)
  | text (s : String)

/-- The encoding that leaves the records as they are; any other data does not decode. -/
def Payload.encoding : Encoding Payload where
  location :=
    { marshal := location
      unmarshal := fun d => match d with | location l => .ok l | _ => .error ⟨"ReadObject"⟩
      unmarshal_marshal := fun _ => rfl }
  limiterInfo :=
    { marshal := limiterInfo
      unmarshal := fun d => match d with | limiterInfo info => .ok info | _ => .error ⟨"ReadObject"⟩
      unmarshal_marshal := fun _ => rfl }
  aclLog :=
    { marshal := aclLog
      unmarshal := fun d => match d with | aclLog a => .ok a | _ => .error ⟨"ReadObject"⟩
      unmarshal_marshal := fun _ => rfl }
  hostLog :=
    { marshal := hostLog
      unmarshal := fun d => match d with | hostLog log => .ok log | _ => .error ⟨"ReadObject"⟩
      unmarshal_marshal := fun _ => rfl }
  bytes := text
  string := fun d => match d with | text s => s | _ => ""
  string_bytes := fun _ => rfl

/-- `LogEntry`. `Encode` writes `Opt` in two bytes before the data, and `FSM.Apply` reads the two
bytes back, so an entry is this pair on both sides. -/
structure LogEntry (δ : Type) where
  opt : UInt16
  data : δ

/-! ## Entries to try things with -/

/-- The proxy `/api` with one host. -/
def apiLocation : Location := ⟨"/api", ["http://a:80"], "round-robin"⟩

def createApi : LogEntry Payload := ⟨1, .location apiLocation⟩

def removeApiHost : LogEntry Payload := ⟨5, .hostLog ⟨"/api", "a:80"⟩⟩

end Cheryl.Server
