import Dwara.Config.Net
import Mathlib.Data.Nat.Notation

/-! The filter of outbound connections, and what an address is to a net. -/

namespace Dwara.Config.Ssrf
open Dwara.Config.Net

def DEFAULT_DENY_CIDRS : List String :=
  ["127.0.0.0/8","10.0.0.0/8","172.16.0.0/12","192.168.0.0/16","169.254.0.0/16","100.64.0.0/10","198.18.0.0/15","224.0.0.0/4","240.0.0.0/4",
    "255.255.255.255/32","::1/128","fe80::/10","fc00::/7","ff00::/8","::/128"]

structure SsrfFilterConfig where
  enabled : Bool
  allowlist : List String

structure SsrfFilter where
  deny : List (IpAddr × ℕ)
  allow : List (IpAddr × ℕ)
  enabled : Bool

/-- Whether an address is in one of the nets. -/
def covers (nets : List (IpAddr × ℕ)) (ip : IpAddr) : Bool := nets.any fun n => ipInNet ip n.1 n.2

namespace SsrfFilter

def disabled : SsrfFilter := ⟨[],[],false⟩

def fromConfig (cfg : SsrfFilterConfig) : SsrfFilter :=
  if !cfg.enabled then disabled else ⟨DEFAULT_DENY_CIDRS.filterMap parseIpOrCidr,cfg.allowlist.filterMap parseIpOrCidr,true⟩

def deniedReason : String := "SSRF egress filter: target IP is in a denied range (private/loopback/link-local/metadata)"

/-- The allow list first. -/
def check (filter : SsrfFilter) (ip : IpAddr) : Except String Unit :=
  if !filter.enabled then .ok ()
  else if covers filter.allow ip then .ok ()
  else if covers filter.deny ip then .error deniedReason
  else .ok ()

end SsrfFilter

section Nets

/-- The address and the net are of one family and begin with the same bits. -/
def SharesPrefix : IpAddr → IpAddr → ℕ → Prop
  | .v4 a, .v4 b, p => ∀ i < p, a.getMsbD i = b.getMsbD i
  | .v6 a, .v6 b, p => ∀ i < p, a.getMsbD i = b.getMsbD i
  | .v4 _, .v6 _, _ => False
  | .v6 _, .v4 _, _ => False

/-- Shifting the differences out leaves those of the first bits. -/
theorem ushiftRight_xor_eq_zero_iff {w : ℕ} (a b : BitVec w) (p : ℕ) :
    (a ^^^ b) >>> (w - p) = 0#w ↔ ∀ i < p, a.getMsbD i = b.getMsbD i := by
  constructor
  · intro h i hi
    by_cases hw : i < w
    · have hbit := congrArg (BitVec.getLsbD · (w - 1 - i - (w - p))) h
      have hplace : w - p + (w - 1 - i - (w - p)) = w - 1 - i := by omega
      simp only [BitVec.getLsbD_ushiftRight,hplace,BitVec.getLsbD_xor,BitVec.getLsbD_zero] at hbit
      rw [BitVec.getMsbD_eq_getLsbD,BitVec.getMsbD_eq_getLsbD]
      simpa [hw] using hbit
    · rw [BitVec.getMsbD_of_ge a i (by omega),BitVec.getMsbD_of_ge b i (by omega)]
  · intro h
    refine BitVec.eq_of_getLsbD_eq fun j _ => ?_
    rw [BitVec.getLsbD_ushiftRight,BitVec.getLsbD_xor,BitVec.getLsbD_zero]
    by_cases hw : w - p + j < w
    · have hbit := h (w - 1 - (w - p + j)) (by omega)
      have hplace : w - 1 - (w - 1 - (w - p + j)) = w - p + j := by omega
      have hlt : w - 1 - (w - p + j) < w := by omega
      rw [BitVec.getMsbD_eq_getLsbD,BitVec.getMsbD_eq_getLsbD,hplace] at hbit
      simpa [hlt] using hbit
    · rw [BitVec.getLsbD_of_ge a _ (by omega),BitVec.getLsbD_of_ge b _ (by omega)]
      rfl

theorem ipInNet_iff (ip net : IpAddr) (p : ℕ) : ipInNet ip net p = true ↔ SharesPrefix ip net p := by
  have hbits : ∀ {w : ℕ} (a b : BitVec w), (decide (p = 0) || decide ((a ^^^ b) >>> (w - p) = 0)) = true ↔
      ∀ i < p, a.getMsbD i = b.getMsbD i := by
    intro w a b
    rw [← ushiftRight_xor_eq_zero_iff,Bool.or_eq_true,decide_eq_true_eq,decide_eq_true_eq]
    refine or_iff_right_of_imp fun hp => (ushiftRight_xor_eq_zero_iff a b p).mpr fun i hi => ?_
    rw [hp] at hi
    exact absurd hi (Nat.not_lt_zero i)
  cases ip with
  | v4 a =>
    cases net with
    | v4 b => exact hbits a b
    | v6 b => exact iff_of_false Bool.false_ne_true id
  | v6 a =>
    cases net with
    | v4 b => exact iff_of_false Bool.false_ne_true id
    | v6 b => exact hbits a b

/-- An IPv4 address in the form of an IPv6 address. -/
def mapped (a : BitVec 32) : BitVec 128 := 0xffff#96 ++ a

theorem sharesPrefix_mapped (a b : BitVec 32) (p : ℕ) : SharesPrefix (.v6 (mapped a)) (.v6 (mapped b)) (96 + p) ↔ SharesPrefix (.v4 a) (.v4 b) p := by
  constructor
  · intro h i hi
    have hbit := h (96 + i) (by omega)
    rw [mapped,mapped,BitVec.getMsbD_append,BitVec.getMsbD_append,if_pos (Nat.le_add_right 96 i),if_pos (Nat.le_add_right 96 i),
      Nat.add_sub_cancel_left] at hbit
    exact hbit
  · intro h i hi
    rw [mapped,mapped,BitVec.getMsbD_append,BitVec.getMsbD_append]
    split
    · exact h (i - 96) (by omega)
    · rfl

/-- The IPv4 nets of a list are there in the form of IPv6 nets too, and other IPv6 nets have no
addresses of this form. -/
structure Mirrored (nets : List (IpAddr × ℕ)) : Prop where
  there : ∀ net p, (.v4 net,p) ∈ nets → (.v6 (mapped net),96 + p) ∈ nets
  back : ∀ net p, (.v6 net,p) ∈ nets → (∃ net' q, net = mapped net' ∧ p = 96 + q ∧ (.v4 net',q) ∈ nets) ∨
    ∀ a, ¬ SharesPrefix (.v6 (mapped a)) (.v6 net) p

theorem covers_iff {nets : List (IpAddr × ℕ)} {ip : IpAddr} : covers nets ip = true ↔ ∃ n ∈ nets, SharesPrefix ip n.1 n.2 := by
  rw [covers,List.any_eq_true]
  exact exists_congr fun n => and_congr_right fun _ => ipInNet_iff ip n.1 n.2

/-- Both forms of an address are in nets of a list that has both forms of its nets. -/
theorem Mirrored.covers_mapped {nets : List (IpAddr × ℕ)} (h : Mirrored nets) (a : BitVec 32) :
    covers nets (.v4 a) = covers nets (.v6 (mapped a)) := by
  rw [Bool.eq_iff_iff,covers_iff,covers_iff]
  constructor
  · rintro ⟨⟨net,p⟩,hmem,hshares⟩
    cases net with
    | v4 b => exact ⟨_,h.there b p hmem,(sharesPrefix_mapped a b p).mpr hshares⟩
    | v6 b => exact absurd hshares id
  · rintro ⟨⟨net,p⟩,hmem,hshares⟩
    cases net with
    | v4 b => exact absurd hshares id
    | v6 b =>
      rcases h.back b p hmem with ⟨b',q,rfl,rfl,hv4⟩ | hnone
      · exact ⟨_,hv4,(sharesPrefix_mapped a b' q).mp hshares⟩
      · exact absurd hshares (hnone a)

end Nets

namespace SsrfFilter
variable {filter : SsrfFilter} {cfg : SsrfFilterConfig}

theorem check_mapped (hallow : Mirrored filter.allow) (hdeny : Mirrored filter.deny) (a : BitVec 32) :
    filter.check (.v4 a) = filter.check (.v6 (mapped a)) := by
  rw [check,check,hallow.covers_mapped a,hdeny.covers_mapped a]

theorem covers_filterMap (entries : List String) (ip : IpAddr) : covers (entries.filterMap parseIpOrCidr) ip = entries.any (ipMatches · ip) := by
  induction entries with
  | nil => rfl
  | cons entry entries ih =>
    rw [List.any_cons,← ih,List.filterMap_cons,ipMatches]
    cases parseIpOrCidr entry with
    | none => rfl
    | some n => rfl

/-- What the allow list has is accepted, be it denied or not. -/
theorem check_of_allowed {ip : IpAddr} (h : cfg.allowlist.any (ipMatches · ip) = true) : (fromConfig cfg).check ip = .ok () := by
  rw [check,fromConfig]
  cases cfg.enabled with
  | false => rfl
  | true =>
    rw [← covers_filterMap] at h
    exact if_pos h

/-- Without an allow list the addresses of each net of the deny list are rejected. -/
theorem check_of_denied (henabled : cfg.enabled = true) (hallow : cfg.allowlist = []) {entry : String} (hentry : entry ∈ DEFAULT_DENY_CIDRS)
    {ip net : IpAddr} {p : ℕ} (hparse : parseIpOrCidr entry = some (net,p)) (hshares : SharesPrefix ip net p) :
    (fromConfig cfg).check ip = .error deniedReason := by
  have hdeny : covers (DEFAULT_DENY_CIDRS.filterMap parseIpOrCidr) ip = true :=
    covers_iff.mpr ⟨(net,p),List.mem_filterMap.mpr ⟨entry,hentry,hparse⟩,hshares⟩
  rw [check,fromConfig,henabled,hallow]
  exact if_pos hdeny

end SsrfFilter

end Dwara.Config.Ssrf
