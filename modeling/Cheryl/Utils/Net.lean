import Cheryl.Go

/-!
# `utils/net.go`: reading addresses
-/

namespace Cheryl.Utils

/-! ## Addresses as numbers

`InetToi` makes one number of the parts between the dots and asks nothing about how many there are or how
large each is: `1.2` is a number, and so is `300.0.0.1`, with the excess of a part running into the ones
before it. -/

/-- The loop of `InetToi` over the segments of the address. `pos` is the shift for the next
segment; Go panics when a shift count is negative, which is where a fifth number ends. -/
def inetToiLoop : List String → Int → BitVec 32 → Except Fault (Except GoError (BitVec 32))
  | [], _, ret => .ok (.ok ret)
  | ipSeg :: ipSegs, pos, ret =>
      match atoi ipSeg with
      | .error err => .ok (.error err)
      | .ok tempInt =>
          if pos < 0 then .error .negativeShift
          else
            inetToiLoop ipSegs (pos - 8)
              (ret ||| (BitVec.ofInt 64 tempInt <<< pos.toNat).setWidth 32)

def inetToi (ip : String) : Except Fault (Except GoError (BitVec 32)) :=
  inetToiLoop (split ip '.') 24 0#32

/-- `RemoteIp`: the first of the remote address and four headers that is there. `get` is
`req.Header.Get`. -/
def remoteIp (remoteAddr : String) (get : String → String) : String :=
  if remoteAddr ≠ "" then remoteAddr
  else if get "ipv4" ≠ "" then get "ipv4"
  else if get "XForwardedFor" ≠ "" then get "XForwardedFor"
  else if get "X-Forwarded-For" ≠ "" then get "X-Forwarded-For"
  else if get "X-Real-Ip" ≠ "" then get "X-Real-Ip"
  else "127.0.0.1"

/-! ## Addresses of requests and of backends -/

/-- The parts of a `url.URL` that choose a backend. -/
structure URL where
  scheme : String
  host : String
  deriving DecidableEq, Repr

/-- `net.SplitHostPort`: the host and the port around the last colon; `none` for its errors. A
host with colons must stand in brackets, and brackets may stand nowhere else. -/
def splitHostPort (hostport : String) : Option (String × String) :=
  let s := hostport.toList
  let port := (s.reverse.takeWhile (· ≠ ':')).reverse
  let before := s.take (s.length - 1 - port.length)
  if ':' ∉ s then none
  else
    match before with
    | '[' :: inner =>
        -- the first closing bracket must be the last character before the colon
        if inner.takeWhile (· ≠ ']') ++ [']'] = inner ∧ '[' ∉ inner ∧ '[' ∉ port ∧ ']' ∉ port then
          some (String.ofList inner.dropLast, String.ofList port)
        else none
    | _ =>
        if ':' ∈ before ∨ '[' ∈ s ∨ ']' ∈ s then none
        else some (String.ofList before, String.ofList port)

def getIP (remoteAddr : String) : String := ((splitHostPort remoteAddr).map Prod.fst).getD ""

/-- `GetHost`: the host with its port, by default that of the scheme. -/
def getHost (url : URL) : String :=
  if (splitHostPort url.host).isSome then url.host
  else if url.scheme = "http" then url.host ++ ":80"
  else if url.scheme = "https" then url.host ++ ":443"
  else url.host

end Cheryl.Utils
