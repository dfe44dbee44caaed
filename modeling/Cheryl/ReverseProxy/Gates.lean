import Cheryl.Acl.Record
import Cheryl.ReverseProxy.ProxyMap

/-!
# The two gates

A request meets the access list twice: `DefaultRouter.ServeHTTP` asks `AccessControl`, and
`HTTPProxy.ServeHTTP` asks its own `accessControl`, both about the remote address. The first cuts the
port off, the second searches for the address with its port, which no parser takes, and so always for
the address 0. `gatesExact_iff` says when that makes no difference.
-/

namespace Cheryl.ReverseProxy

open Library Acl Utils

/-! ## Remote addresses

Go writes the remote address of a connection as a host and a port, with brackets around the host when it has
colons in it. Both gates are given this text, through `RemoteIp`, which prefers it to any header. -/

/-- The host of a remote address: a dotted quad, or whatever stands in brackets. -/
inductive Host
  | ipv4 (a b c d : List Char) (octets : IsOctet a ∧ IsOctet b ∧ IsOctet c ∧ IsOctet d)
  | ipv6 (address : List Char)

structure RemoteAddr where
  host : Host
  port : List Char

namespace Host

def text : Host → List Char
  | ipv4 a b c d _ => quad a b c d
  | ipv6 address => '[' :: (address ++ [']'])

/-- The host is an IPv4 address, and an entry covers it. -/
def Covered (E : Set Cidr) : Host → Prop
  | ipv4 a b c d _ => ∃ n ∈ E, n.Covers (quadAddress a b c d)
  | ipv6 _ => False

end Host

def RemoteAddr.text (r : RemoteAddr) : String := String.ofList (r.host.text ++ ':' :: r.port)

/-- Both gates let the address pass exactly when it is not covered. -/
structure GatesExact (t : RadixTree) (ip : String) (covered : Prop) : Prop where
  agree : t.accessControl ip = .ok true ↔ HTTPProxy.accessControl t ip = .ok false
  router : t.accessControl ip = .ok true ↔ covered
  proxy : HTTPProxy.accessControl t ip = .ok false ↔ covered

section Gates

variable {t : RadixTree} {E : Set Cidr} {a b c d : List Char}

/-! ## What is searched for

`Search` answers with the longest entry that covers a number, and for a text that is no address it asks
about the number 0, since the error of `InetToi` is dropped. So an entry that covers `0.0.0.0` also covers
every text that does not parse. -/

/-- An address is searched for as its number. -/
theorem Search_of_inetToi {ip : String} {k : BitVec 32} (h : inetToi ip = .ok (.ok k)) :
    t.Search ip = t.search k := by
  simp only [RadixTree.Search, h]

/-- An address that does not parse is searched for as 0. -/
theorem Search_of_error {ip : String} {err : GoError} (h : inetToi ip = .ok (.error err)) :
    t.Search ip = t.search 0 := by
  simp only [RadixTree.Search, h]

/-- Brackets do not parse. -/
theorem inetToi_bracket (rest : List Char) :
    ∃ err, inetToi (String.ofList ('[' :: rest)) = .ok (.error err) := by
  obtain ⟨parts, hsplit⟩ := split_cons_takeWhile ('[' :: rest) '.'
  have hmem : '[' ∈ ('[' :: rest).takeWhile (· ≠ '.') := by simp
  obtain ⟨err, herr⟩ := atoi_error_of_mem hmem (by decide) (by decide) (by decide)
  exact ⟨err, by rw [inetToi, hsplit]; simp only [inetToiLoop, herr]⟩

/-- The octet that the port is left on does not parse. -/
theorem inetToi_port (ha : IsOctet a) (hb : IsOctet b) (hc : IsOctet c) (hd : IsOctet d)
    (port : List Char) :
    ∃ err, inetToi (String.ofList (quad a b c d ++ ':' :: port)) = .ok (.error err) := by
  have hdot : ('.' : Char).isDigit = false := by decide
  have hlt : ∀ {x}, IsOctet x → decimal x < 2 ^ 63 := fun hx => by have := hx.2; omega
  obtain ⟨parts, hsplit⟩ := split_cons_takeWhile (d ++ ':' :: port) '.'
  have hmem : ':' ∈ (d ++ ':' :: port).takeWhile (· ≠ '.') := by
    have hall : ∀ x ∈ d, (decide (x ≠ '.')) = true := by
      intro x hx
      rw [decide_eq_true_iff]
      rintro rfl
      exact hd.1.not_mem hdot hx
    rw [List.takeWhile_append_of_pos hall]
    simp
  obtain ⟨err, herr⟩ := atoi_error_of_mem hmem (by decide) (by decide) (by decide)
  refine ⟨err, ?_⟩
  have hquad : quad a b c d ++ ':' :: port =
      a ++ '.' :: (b ++ '.' :: (c ++ '.' :: (d ++ ':' :: port))) := by simp [quad]
  -- three octets parse, and the loop stops with an error at the fourth
  rw [inetToi, hquad, split_cons_of_notMem (ha.1.not_mem hdot), split_cons_of_notMem (hb.1.not_mem hdot),
    split_cons_of_notMem (hc.1.not_mem hdot), hsplit]
  simp only [inetToiLoop, atoi_of_isNumeral ha.1 (hlt ha), atoi_of_isNumeral hb.1 (hlt hb),
    atoi_of_isNumeral hc.1 (hlt hc), herr, show ¬ ((24 : Int) < 0) by decide,
    show ¬ ((24 : Int) - 8 < 0) by decide, show ¬ ((24 : Int) - 8 - 8 < 0) by decide, if_false]

/-- What the gate of the router searches for. -/
def Host.key : Host → BitVec 32
  | ipv4 a b c d _ => quadAddress a b c d
  | ipv6 _ => 0

/-- The gate of the router: the text before the first colon, which for a bracketed host is no address. -/
theorem router_gate (t : RadixTree) (r : RemoteAddr) : t.accessControl r.text = t.denies r.host.key := by
  have hcolon : (':' : Char).isDigit = false := by decide
  suffices H : t.Search ((split r.text ':').headD "") = t.search r.host.key by
    rw [RadixTree.accessControl, H]
    rfl
  obtain ⟨host, port⟩ := r
  cases host with
  | ipv4 a b c d octets =>
      obtain ⟨ha, hb, hc, hd⟩ := octets
      have hnot : ':' ∉ quad a b c d := by
        simp only [quad, List.mem_append, List.mem_cons, not_or]
        exact ⟨ha.1.not_mem hcolon, by decide, hb.1.not_mem hcolon, by decide,
          hc.1.not_mem hcolon, by decide, hd.1.not_mem hcolon⟩
      -- the text before the first colon is the host
      rw [RemoteAddr.text, Host.text, split_cons_of_notMem hnot, List.headD_cons]
      exact Search_of_inetToi (inetToi_quad ha hb hc hd)
  | ipv6 address =>
      obtain ⟨parts, hsplit⟩ := split_cons_takeWhile ('[' :: (address ++ [']'] ++ ':' :: port)) ':'
      have htext : (⟨.ipv6 address, port⟩ : RemoteAddr).text =
          String.ofList ('[' :: (address ++ [']'] ++ ':' :: port)) := rfl
      -- the first colon is one of the address, so what is left begins with the bracket
      rw [htext, hsplit, List.headD_cons, List.takeWhile_cons_of_pos (by decide)]
      obtain ⟨err, herr⟩ := inetToi_bracket ((address ++ [']'] ++ ':' :: port).takeWhile (· ≠ ':'))
      exact Search_of_error herr

/-- The gate of the proxy: with the port behind it no host is an address, so the question is always about 0.
-/
theorem proxy_gate (t : RadixTree) (r : RemoteAddr) :
    HTTPProxy.accessControl t r.text = (t.denies 0).map fun denied => !denied := by
  -- the port stays on, so the text never parses, and the error of `inetToi` is dropped
  have hzero : t.Search r.text = t.search 0 := by
    obtain ⟨host, port⟩ := r
    cases host with
    | ipv4 a b c d octets =>
        obtain ⟨ha, hb, hc, hd⟩ := octets
        obtain ⟨err, herr⟩ := inetToi_port ha hb hc hd port
        exact Search_of_error herr
    | ipv6 address =>
        obtain ⟨err, herr⟩ := inetToi_bracket (address ++ [']'] ++ ':' :: port)
        exact Search_of_error herr
  rw [HTTPProxy.accessControl, hzero, RadixTree.denies]
  cases t.search 0 with
  | error fault => rfl
  | ok ret => simp [Except.map]

/-! ## What the gates say

On a tree that holds its entries both gates answer by whether an entry covers the number they ask about.
They differ in the number, and agree when that does not matter. -/

/-- A remote address is never empty, so no header is asked. -/
theorem remoteIp_text (r : RemoteAddr) (get : String → String) : remoteIp r.text get = r.text := by
  have hne : r.text ≠ "" := by
    intro h
    have hlist := congrArg String.toList h
    simp [RemoteAddr.text] at hlist
  rw [remoteIp, if_pos hne]

/-- The gates never panic. They agree, and are exact, exactly when an entry covers the address 0 just
in case the host is an IPv4 address that an entry covers. -/
theorem gatesExact_iff (h : HoldsEntries t E) (r : RemoteAddr) (get : String → String) :
    ((∃ denied, t.accessControl (remoteIp r.text get) = .ok denied) ∧
      ∃ passes, HTTPProxy.accessControl t (remoteIp r.text get) = .ok passes) ∧
    (GatesExact t (remoteIp r.text get) (r.host.Covered E) ↔
      ((∃ n ∈ E, n.Covers 0) ↔ r.host.Covered E)) := by
  rw [remoteIp_text]
  obtain ⟨denied, hrouter, hdenied⟩ := h.denies r.host.key
  obtain ⟨zero, hproxy, hzero⟩ := h.denies 0
  have hr : t.accessControl r.text = .ok denied := (router_gate t r).trans hrouter
  have hp : HTTPProxy.accessControl t r.text = .ok (!zero) := by
    rw [proxy_gate, hproxy]
    rfl
  refine ⟨⟨⟨_, hr⟩, ⟨_, hp⟩⟩, ?_⟩
  have hr' : t.accessControl r.text = .ok true ↔ denied = true := by simp [hr]
  have hp' : HTTPProxy.accessControl t r.text = .ok false ↔ zero = true := by simp [hp]
  constructor
  · intro hexact
    rw [← hzero, ← hp']
    exact hexact.proxy
  · intro hcover
    have hcovered : denied = true ↔ r.host.Covered E := by
      rw [hdenied]
      -- an IPv6 host is searched for as 0 by the router as well
      cases hhost : r.host with
      | ipv4 a b c d octets => exact Iff.rfl
      | ipv6 address =>
          rw [hhost] at hcover
          exact hcover
    have hagree : denied = true ↔ zero = true := by rw [hcovered, hzero, hcover]
    exact ⟨hr'.trans (hagree.trans hp'.symm), hr'.trans hcovered, hp'.trans (hzero.trans hcover)⟩

end Gates

def onePort80 : RemoteAddr where
  host := .ipv4 "1".toList "2".toList "3".toList "4".toList (by decide)
  port := "80".toList

/-- The first half of all addresses is denied, 0 among them. -/
theorem gatesExact_iff_half : ∃ t E, HoldsEntries t E ∧ onePort80.host.Covered E ∧
    GatesExact t (remoteIp onePort80.text fun _ => "") (onePort80.host.Covered E) := by
  have hrun : Trace UnaliasedCall RadixTree.new ([] ++ [⟨.add .zeroes1, none⟩]) _ :=
    .snoc .nil ⟨⟨rfl, rfl⟩, trivial⟩
  have hentries := (run_agrees hrun).holdsEntries
  have hmem : Cidr.zeroes1 ∈ {n : Cidr | n.text ∈ ({Cidr.zeroes1.text} : Finset String)} :=
    Finset.mem_singleton_self _
  have hone : onePort80.host.Covered {n | n.text ∈ ({Cidr.zeroes1.text} : Finset String)} :=
    ⟨_, hmem, by decide⟩
  exact ⟨_, _, hentries, hone, (gatesExact_iff hentries onePort80 _).2.mpr
    ⟨fun _ => hone, fun _ => ⟨_, hmem, by decide⟩⟩⟩

def one32 : Cidr := .ofParts "1" "2" "3" "4" "32" (by decide)

/-- The proxy lets an address pass that the router turns away. -/
theorem not_gatesExact : ¬ ∀ (t : RadixTree) (E : Set Cidr) (r : RemoteAddr) (get : String → String),
    HoldsEntries t E → GatesExact t (remoteIp r.text get) (r.host.Covered E) := by
  intro h
  have hrun : Trace UnaliasedCall RadixTree.new ([] ++ [⟨.add one32, none⟩]) _ :=
    .snoc .nil ⟨⟨rfl, rfl⟩, trivial⟩
  have hagree := (h _ _ onePort80 (fun _ => "") (run_agrees hrun).holdsEntries).agree
  revert hagree
  decide +kernel

end Cheryl.ReverseProxy
