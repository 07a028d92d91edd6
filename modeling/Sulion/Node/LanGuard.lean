import Sulion.Lib.Checked
import Sulion.Lib.Prefixes
import Sulion.Rust.Text

set_option autoImplicit false

/-! # Source addresses of nodes

`NodeLanGuard` and `NodeSourcePolicy` of `node_protocol/lan.rs`. An empty list admits every source
as a LAN and trusts nobody as a list of proxies. How a text is read as an address is the parameter
`parseIp`.
-/

namespace Sulion.Node.Lan

open Rust

abbrev Ipv4Addr := BitVec 32

abbrev Ipv6Addr := BitVec 128

inductive IpAddr
  | v4 (address : Ipv4Addr)
  | v6 (address : Ipv6Addr)
  deriving DecidableEq, Repr

def IpAddr.width : IpAddr → Nat
  | .v4 _ => 32
  | .v6 _ => 128

/-- `Ipv6Addr::to_ipv4_mapped`. -/
def toIpv4Mapped (address : Ipv6Addr) : Option Ipv4Addr :=
  if address.extractLsb' 32 96 = 0xffff then some (address.extractLsb' 0 32) else none

def unmap : IpAddr → IpAddr
  | .v6 value =>
      match toIpv4Mapped value with
      | some value => .v4 value
      | none => .v6 value
  | value => value

/-- A range; its length is within the width of its address. -/
structure Network where
  address : IpAddr
  prefixLen : Nat
  bounded : prefixLen ≤ address.width

structure NodeLanGuard where
  networks : List Network

variable (parseIp : String → Option IpAddr)

def parseNetwork (entry : String) : Except String Network := do
  let (address, prefixLen) ← (splitOnce entry "/").elim
    (.error ("node LAN entry " ++ entry ++ " must be CIDR notation")) .ok
  let address ← (parseIp address).elim
    (.error ("node LAN entry " ++ entry ++ " has an invalid address")) .ok
  let address := unmap address
  let prefixLen ← (parseU8 prefixLen).elim
    (.error ("node LAN entry " ++ entry ++ " has an invalid prefix")) .ok
  if hwidth : prefixLen ≤ address.width then return ⟨address, prefixLen, hwidth⟩
  else .error ("node LAN entry " ++ entry ++ " prefix exceeds the address width")

def NodeLanGuard.parse (value : String) : Except String NodeLanGuard := do
  let networks ← (((splitChar value ',').map trim).filter fun entry => !entry.isEmpty).mapM
    (parseNetwork parseIp)
  return ⟨networks⟩

def maskedV4 (address : Ipv4Addr) (prefixLen : Nat) : Ipv4Addr := masked address prefixLen

def maskedV6 (address : Ipv6Addr) (prefixLen : Nat) : Ipv6Addr := masked address prefixLen

def contains (network : Network) (address : IpAddr) : Bool :=
  match network.address, address with
  | .v4 networkAddress, .v4 address =>
      decide (maskedV4 networkAddress network.prefixLen = maskedV4 address network.prefixLen)
  | .v6 networkAddress, .v6 address =>
      decide (maskedV6 networkAddress network.prefixLen = maskedV6 address network.prefixLen)
  | _, _ => false

namespace NodeLanGuard

def unrestricted : NodeLanGuard := ⟨[]⟩

def isUnrestricted (guard : NodeLanGuard) : Bool := guard.networks.isEmpty

def admits (guard : NodeLanGuard) (address : IpAddr) : Bool :=
  if guard.isUnrestricted then true
  else guard.networks.any fun network => contains network (unmap address)

end NodeLanGuard

inductive SourceRefusal
  | peerUnknown
  | forwardedAddressMissing
  | outsideLan
  deriving DecidableEq, Repr

structure NodeSourcePolicy where
  lan : NodeLanGuard
  trustedProxies : NodeLanGuard

namespace NodeSourcePolicy

def trustsProxy (policy : NodeSourcePolicy) (peer : IpAddr) : Bool :=
  !policy.trustedProxies.isUnrestricted && policy.trustedProxies.admits peer

/-- The address of the first hop in a forwarded header. -/
def firstHop (forwarded : Option String) : Option IpAddr :=
  ((forwarded.bind fun value => (splitChar value ',').head?).map trim).bind parseIp

/-- `admit`. -/
def admitPeer (policy : NodeSourcePolicy) (peer : Option IpAddr) (forwarded : Option String) :
    Except SourceRefusal IpAddr := do
  if policy.lan.isUnrestricted then return peer.getD (.v4 0)
  let peer ← peer.elim (.error .peerUnknown) .ok
  let client ←
    if policy.trustsProxy peer then
      (firstHop parseIp forwarded).elim (.error .forwardedAddressMissing) .ok
    else .ok peer
  if policy.lan.admits client then .ok client else .error .outsideLan

end NodeSourcePolicy

/-! ## Ranges -/

/-- The IPv6 address that stands for an IPv4 address. -/
def mapped (address : Ipv4Addr) : Ipv6Addr := (0xffff : BitVec 96) ++ address

/-- The addresses of a range: those of its family with its first bits. A mapped address counts as
its IPv4 address. -/
inductive Network.Covers (network : Network) : IpAddr → Prop
  | v4 {first address : Ipv4Addr} : network.address = .v4 first →
      AgreeOn network.prefixLen first address → Covers network (.v4 address)
  | mapped {first address : Ipv4Addr} : network.address = .v4 first →
      AgreeOn network.prefixLen first address → Covers network (.v6 (mapped address))
  | v6 {first address : Ipv6Addr} : network.address = .v6 first → (∀ v4, address ≠ Lan.mapped v4) →
      AgreeOn network.prefixLen first address → Covers network (.v6 address)

theorem toIpv4Mapped_eq_some_iff {address : Ipv6Addr} {v4 : Ipv4Addr} :
    toIpv4Mapped address = some v4 ↔ address = mapped v4 := by
  unfold toIpv4Mapped mapped
  constructor
  · intro h
    split at h
    · rename_i hhigh
      cases h
      rw [← hhigh]
      exact (@BitVec.extractLsb'_append_extractLsb' 96 32 address).symm
    · cases h
  · rintro rfl
    have hhigh : ((0xffff : BitVec 96) ++ v4).extractLsb' 32 96 = 0xffff :=
      BitVec.extractLsb'_append_eq_left
    have hlow : ((0xffff : BitVec 96) ++ v4).extractLsb' 0 32 = v4 :=
      BitVec.extractLsb'_append_eq_right
    rw [if_pos hhigh, hlow]

theorem mapped_injective : Function.Injective mapped := by
  intro a b h
  have ha : toIpv4Mapped (mapped b) = some a := toIpv4Mapped_eq_some_iff.mpr h.symm
  rw [toIpv4Mapped_eq_some_iff.mpr rfl] at ha
  exact (Option.some.inj ha).symm

theorem Network.Covers.of_v6 {network : Network} {covered : IpAddr} {address : Ipv6Addr}
    (h : network.Covers covered) (heq : covered = .v6 address) :
    (∃ v4 first, address = Lan.mapped v4 ∧ network.address = .v4 first ∧
      AgreeOn network.prefixLen first v4) ∨
    ((∀ v4, address ≠ Lan.mapped v4) ∧ ∃ first, network.address = .v6 first ∧
      AgreeOn network.prefixLen first address) := by
  cases h with
  | v4 hfirst hagree => cases heq
  | mapped hfirst hagree =>
      cases heq
      exact .inl ⟨_, _, rfl, hfirst, hagree⟩
  | v6 hfirst hne hagree =>
      cases heq
      exact .inr ⟨hne, _, hfirst, hagree⟩

theorem contains_v4_iff {network : Network} {address : Ipv4Addr} :
    contains network (.v4 address) ↔
      ∃ first, network.address = .v4 first ∧ AgreeOn network.prefixLen first address := by
  obtain ⟨base, prefixLen, hbounded⟩ := network
  cases base with
  | v4 first =>
      unfold contains maskedV4
      have hbounded' : prefixLen ≤ 32 := hbounded
      dsimp only
      rw [decide_eq_true_iff, masked_eq_iff hbounded']
      constructor
      · intro h
        exact ⟨first, rfl, h⟩
      · rintro ⟨_, ⟨⟩, h⟩
        exact h
  | v6 first =>
      unfold contains
      constructor
      · intro h
        cases h
      · rintro ⟨_, ⟨⟩, _⟩

theorem contains_v6_iff {network : Network} {address : Ipv6Addr} :
    contains network (.v6 address) ↔
      ∃ first, network.address = .v6 first ∧ AgreeOn network.prefixLen first address := by
  obtain ⟨base, prefixLen, hbounded⟩ := network
  cases base with
  | v4 first =>
      unfold contains
      constructor
      · intro h
        cases h
      · rintro ⟨_, ⟨⟩, _⟩
  | v6 first =>
      unfold contains maskedV6
      have hbounded' : prefixLen ≤ 128 := hbounded
      dsimp only
      rw [decide_eq_true_iff, masked_eq_iff hbounded']
      constructor
      · intro h
        exact ⟨first, rfl, h⟩
      · rintro ⟨_, ⟨⟩, h⟩
        exact h

/-- The masks decide whether an address lies in a range, for every length of the range. -/
theorem contains_iff {network : Network} {address : IpAddr} :
    contains network (unmap address) ↔ network.Covers address := by
  cases address with
  | v4 address =>
      change contains network (.v4 address) ↔ _
      rw [contains_v4_iff]
      constructor
      · rintro ⟨first, hfirst, hagree⟩
        exact .v4 hfirst hagree
      · intro hcovers
        cases hcovers with
        | v4 hfirst hagree => exact ⟨_, hfirst, hagree⟩
  | v6 address =>
      cases hmapped : toIpv4Mapped address with
      | some v4 =>
          have hunmap : unmap (.v6 address) = .v4 v4 := by
            unfold unmap
            simp only [hmapped]
          rw [hunmap, contains_v4_iff, toIpv4Mapped_eq_some_iff.mp hmapped]
          constructor
          · rintro ⟨first, hfirst, hagree⟩
            exact .mapped hfirst hagree
          · intro hcovers
            rcases hcovers.of_v6 rfl with ⟨v4', first, heq, hfirst, hagree⟩ | ⟨hne, -⟩
            · rw [mapped_injective heq]
              exact ⟨first, hfirst, hagree⟩
            · exact absurd rfl (hne v4)
      | none =>
          have hunmap : unmap (.v6 address) = .v6 address := by
            unfold unmap
            simp only [hmapped]
          have hne : ∀ v4, address ≠ mapped v4 := by
            intro v4 heq
            rw [toIpv4Mapped_eq_some_iff.mpr heq] at hmapped
            cases hmapped
          rw [hunmap, contains_v6_iff]
          constructor
          · rintro ⟨first, hfirst, hagree⟩
            exact .v6 hfirst hne hagree
          · intro hcovers
            rcases hcovers.of_v6 rfl with ⟨v4, first, heq, -⟩ | ⟨-, first, hfirst, hagree⟩
            · exact absurd heq (hne v4)
            · exact ⟨first, hfirst, hagree⟩

/-! ## Admission -/

/-- One of the ranges covers the address. -/
def NodeLanGuard.Covers (guard : NodeLanGuard) (address : IpAddr) : Prop :=
  ∃ network ∈ guard.networks, network.Covers address

theorem any_contains_iff {guard : NodeLanGuard} {address : IpAddr} :
    (guard.networks.any fun network => contains network (unmap address)) ↔
      guard.Covers address := by
  rw [List.any_eq_true]
  unfold NodeLanGuard.Covers
  simp only [contains_iff]

theorem isUnrestricted_eq_true {guard : NodeLanGuard} (h : guard.networks = []) :
    guard.isUnrestricted = true := by
  unfold NodeLanGuard.isUnrestricted
  rw [h]
  rfl

theorem isUnrestricted_eq_false {guard : NodeLanGuard} (h : guard.networks ≠ []) :
    guard.isUnrestricted = false := by
  unfold NodeLanGuard.isUnrestricted
  exact List.isEmpty_eq_false_iff.mpr h

theorem admits_iff {guard : NodeLanGuard} (h : guard.networks ≠ []) {address : IpAddr} :
    guard.admits address ↔ guard.Covers address := by
  unfold NodeLanGuard.admits NodeLanGuard.isUnrestricted
  rw [if_neg (by simpa using h)]
  exact any_contains_iff

/-- An empty list of proxies trusts nobody. -/
theorem trustsProxy_iff {policy : NodeSourcePolicy} {peer : IpAddr} :
    policy.trustsProxy peer ↔ policy.trustedProxies.Covers peer := by
  unfold NodeSourcePolicy.trustsProxy
  by_cases hempty : policy.trustedProxies.networks = []
  · rw [isUnrestricted_eq_true hempty]
    unfold NodeLanGuard.Covers
    simp [hempty]
  · rw [isUnrestricted_eq_false hempty, Bool.not_false, Bool.true_and]
    exact admits_iff hempty

/-- The client that a peer and its forwarded header stand for. -/
inductive EffectiveClient (policy : NodeSourcePolicy) (forwarded : Option String) :
    IpAddr → IpAddr → Prop
  | direct {peer : IpAddr} : ¬ policy.trustedProxies.Covers peer →
      EffectiveClient policy forwarded peer peer
  | forwarded {peer client : IpAddr} : policy.trustedProxies.Covers peer →
      NodeSourcePolicy.firstHop parseIp forwarded = some client →
      EffectiveClient policy forwarded peer client

variable {parseIp}

/-- A client is admitted when one of the ranges covers it. -/
theorem admitted_iff {guard : NodeLanGuard} (h : guard.networks ≠ []) {resolved client : IpAddr} :
    (if guard.admits resolved then Except.ok resolved else .error SourceRefusal.outsideLan) =
      .ok client ↔ resolved = client ∧ guard.Covers client := by
  by_cases hadmits : guard.admits resolved
  · rw [if_pos hadmits]
    constructor
    · intro hok
      obtain rfl := Except.ok.inj hok
      exact ⟨rfl, (admits_iff h).mp hadmits⟩
    · rintro ⟨rfl, _⟩
      rfl
  · rw [if_neg hadmits]
    constructor
    · intro hok
      cases hok
    · rintro ⟨rfl, hcovers⟩
      exact absurd ((admits_iff h).mpr hcovers) hadmits

/-- `admitPeer` of a known peer behind a LAN boundary. -/
theorem admit_eq {policy : NodeSourcePolicy} (hlan : policy.lan.networks ≠ []) (peer : IpAddr)
    (forwarded : Option String) :
    policy.admitPeer parseIp (some peer) forwarded =
      if policy.trustsProxy peer then
        match NodeSourcePolicy.firstHop parseIp forwarded with
        | none => .error .forwardedAddressMissing
        | some client =>
            if policy.lan.admits client then .ok client else .error .outsideLan
      else if policy.lan.admits peer then .ok peer else .error .outsideLan := by
  unfold NodeSourcePolicy.admitPeer
  rw [isUnrestricted_eq_false hlan]
  by_cases htrusted : policy.trustsProxy peer
  · rw [if_pos htrusted]
    cases hhop : NodeSourcePolicy.firstHop parseIp forwarded with
    | none => simp [htrusted, Bind.bind, Except.bind]
    | some client => simp [htrusted, Bind.bind, Except.bind]
  · rw [if_neg htrusted]
    simp [htrusted, Bind.bind, Except.bind]

theorem admit_some_iff {policy : NodeSourcePolicy} (hlan : policy.lan.networks ≠ [])
    {peer client : IpAddr} {forwarded : Option String} :
    policy.admitPeer parseIp (some peer) forwarded = .ok client ↔
      EffectiveClient parseIp policy forwarded peer client ∧ policy.lan.Covers client := by
  rw [admit_eq hlan]
  by_cases htrusted : policy.trustsProxy peer
  · have hcovers := trustsProxy_iff.mp htrusted
    rw [if_pos htrusted]
    cases hhop : NodeSourcePolicy.firstHop parseIp forwarded with
    | none =>
        constructor
        · intro hok
          cases hok
        · rintro ⟨hclient, _⟩
          cases hclient with
          | direct huntrusted => exact absurd hcovers huntrusted
          | forwarded _ hclient =>
              rw [hhop] at hclient
              cases hclient
    | some resolved =>
        rw [admitted_iff hlan]
        constructor
        · rintro ⟨rfl, hlanCovers⟩
          exact ⟨.forwarded hcovers hhop, hlanCovers⟩
        · rintro ⟨hclient, hlanCovers⟩
          cases hclient with
          | direct huntrusted => exact absurd hcovers huntrusted
          | forwarded _ hclient =>
              rw [hhop] at hclient
              exact ⟨Option.some.inj hclient, hlanCovers⟩
  · have huncovered : ¬ policy.trustedProxies.Covers peer :=
      fun h => htrusted (trustsProxy_iff.mpr h)
    rw [if_neg htrusted, admitted_iff hlan]
    constructor
    · rintro ⟨rfl, hlanCovers⟩
      exact ⟨.direct huncovered, hlanCovers⟩
    · rintro ⟨hclient, hlanCovers⟩
      cases hclient with
      | direct _ => exact ⟨rfl, hlanCovers⟩
      | forwarded hcovers _ => exact absurd hcovers huncovered

/-- **Admission is exact.** Behind a LAN boundary `admitPeer` returns a client if and only if it is
the one that the peer stands for and a range of the LAN covers it, and the header of a peer outside
the proxy ranges does not matter. -/
theorem admit_exact (parseIp : String → Option IpAddr) (policy : NodeSourcePolicy) :
    (policy.lan.networks ≠ [] → ∀ peer forwarded client,
      policy.admitPeer parseIp peer forwarded = .ok client ↔
        ∃ source ∈ peer, EffectiveClient parseIp policy forwarded source client ∧
          policy.lan.Covers client) ∧
    ∀ source, ¬ policy.trustedProxies.Covers source → ∀ forwarded forwarded',
      policy.admitPeer parseIp (some source) forwarded =
        policy.admitPeer parseIp (some source) forwarded' := by
  constructor
  · intro hlan peer forwarded client
    cases peer with
    | none =>
        constructor
        · intro hok
          unfold NodeSourcePolicy.admitPeer at hok
          rw [isUnrestricted_eq_false hlan] at hok
          cases hok
        · rintro ⟨source, hsource, _⟩
          cases hsource
    | some source =>
        rw [admit_some_iff hlan]
        simp
  · intro source huncovered forwarded forwarded'
    by_cases hlan : policy.lan.networks = []
    · unfold NodeSourcePolicy.admitPeer
      rw [isUnrestricted_eq_true hlan]
      rfl
    · have huntrusted : ¬ policy.trustsProxy source := fun h => huncovered (trustsProxy_iff.mp h)
      rw [admit_eq hlan, admit_eq hlan, if_neg huntrusted, if_neg huntrusted]

/-- The LAN `192.168.66.0/24` behind the proxies `172.28.0.0/16`. -/
def proxiedPolicy : NodeSourcePolicy where
  lan := ⟨[⟨.v4 0xc0a84200, 24, by decide⟩]⟩
  trustedProxies := ⟨[⟨.v4 0xac1c0000, 16, by decide⟩]⟩

/-- Reads the one address of the example. -/
def parseSample (text : String) : Option IpAddr :=
  if text = "192.168.66.4" then some (.v4 0xc0a84204) else none

/-- A proxy forwards a node of the LAN, and a second hop. -/
theorem admit_exact_proxied :
    EffectiveClient parseSample proxiedPolicy (some "192.168.66.4, 10.9.9.9") (.v4 0xac1c0002)
      (.v4 0xc0a84204) ∧ proxiedPolicy.lan.Covers (.v4 0xc0a84204) := by
  have hne : proxiedPolicy.lan.networks ≠ [] := by simp [proxiedPolicy]
  have hadmit : proxiedPolicy.admitPeer parseSample (some (.v4 0xac1c0002))
      (some "192.168.66.4, 10.9.9.9") = .ok (.v4 0xc0a84204) := by rfl
  obtain ⟨source, hsource, hclient⟩ :=
    ((admit_exact parseSample proxiedPolicy).1 hne _ _ _).mp hadmit
  obtain rfl := Option.some.inj hsource
  exact hclient

end Sulion.Node.Lan
