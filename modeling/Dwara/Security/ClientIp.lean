import Dwara.Dataplane.RouteMatch
import Dwara.Security.Authz
import Mathlib.Data.Bool.AllAny

/-! The client of a request behind trusted proxies, and what of it a client can choose. -/

namespace Dwara.Security
open Dwara.Config Dwara.Config.Net Dwara.Lib Dwara.Dataplane

/-- The address that the IP and GeoIP rules of a request are decided by. -/
def contextIp (trusted : List String) (peer : IpAddr) (head : RequestHead) : IpAddr :=
  effectiveClientIp trusted peer ((head.header "x-forwarded-for").bind toStr)

/-- The entries of all lines of the header, in order. -/
def forwardedEntries (head : RequestHead) : List String := (head.headerAll "x-forwarded-for").flatMap (Text.split ',')

def entryAddress (entry : String) : Option IpAddr := parseIp (Text.trim entry)

def isTrustedEntry (trusted : List String) (entry : String) : Bool := (entryAddress entry).any (peerIsTrusted trusted)

/-- `entry` is the rightmost entry that is not the address of a trusted proxy. -/
structure ForwardedBy (trusted : List String) (head : RequestHead) (left : List String) (entry : String) (hops : List String) : Prop where
  entries_eq : forwardedEntries head = left ++ entry :: hops
  untrusted : isTrustedEntry trusted entry = false
  hops_trusted : ∀ hop ∈ hops, isTrustedEntry trusted hop = true

/-- The first line is text, and goes further than what is to the left. -/
def FirstLineReaches (head : RequestHead) (left : List String) : Prop :=
  ∃ line rest, head.headerAll "x-forwarded-for" = line :: rest ∧ toStr line = some line ∧ left.length < (Text.split ',' line).length

/-- A text that can be an entry of a line. -/
def PlainEntry (entry : String) : Prop := ',' ∉ entry.toList ∧ toStr entry = some entry

theorem contextIp_of_untrusted {trusted : List String} {peer : IpAddr} (h : peerIsTrusted trusted peer = false) (head : RequestHead) :
    contextIp trusted peer head = peer := by
  simp [contextIp,effectiveClientIp,h]

section Trusted
variable {trusted : List String} {peer : IpAddr} (hpeer : peerIsTrusted trusted peer = true)
include hpeer

theorem contextIp_of_line {head : RequestHead} {line : String} {rest : List String} (hlines : head.headerAll "x-forwarded-for" = line :: rest)
    (htext : toStr line = some line) : contextIp trusted peer head =
      ((((Text.split ',' line).filterMap entryAddress).reverse.find? fun ip => !peerIsTrusted trusted ip).getD
        (((Text.split ',' line).filterMap entryAddress).head?.getD peer)) := by
  have hheader : head.header "x-forwarded-for" = some line := by rw [RequestHead.header,hlines]; rfl
  rw [contextIp,hheader,Option.bind_some,htext,effectiveClientIp,hpeer]
  have hentry : (fun e => parseIp (Text.trim e)) = entryAddress := rfl
  simp only [Bool.not_true,Bool.false_eq_true,if_false,hentry]
  split
  case h_1 ip hfound => rw [hfound]; rfl
  case h_2 hnone => rw [hnone]; rfl

end Trusted

/-- The trusted addresses at the end are passed over. -/
theorem find_untrusted {trusted : List String} (front : List String) {hops : List String} (hhops : ∀ hop ∈ hops, isTrustedEntry trusted hop = true) :
    ((front ++ hops).filterMap entryAddress).reverse.find? (fun ip => !peerIsTrusted trusted ip) =
      (front.filterMap entryAddress).reverse.find? (fun ip => !peerIsTrusted trusted ip) := by
  rw [List.filterMap_append,List.reverse_append,List.find?_append]
  have hnone : (hops.filterMap entryAddress).reverse.find? (fun ip => !peerIsTrusted trusted ip) = none := by
    rw [List.find?_eq_none]
    intro ip hip
    obtain ⟨hop,hhop,haddress⟩ := List.mem_filterMap.mp (List.mem_reverse.mp hip)
    have htrusted := hhops hop hhop
    rw [isTrustedEntry,haddress,Option.any_some] at htrusted
    simp [htrusted]
  rw [hnone,Option.none_or]

theorem contextIp_of_address {trusted : List String} {peer : IpAddr} (hpeer : peerIsTrusted trusted peer = true) {head : RequestHead}
    {left hops : List String} {entry : String} (h : ForwardedBy trusted head left entry hops) (hreach : FirstLineReaches head left)
    {ip : IpAddr} (hip : entryAddress entry = some ip) : contextIp trusted peer head = ip := by
  obtain ⟨line,rest,hlines,htext,hlength⟩ := hreach
  have hentries := h.entries_eq
  rw [forwardedEntries,hlines,List.flatMap_cons] at hentries
  have huntrusted := h.untrusted
  rw [isTrustedEntry,hip,Option.any_some] at huntrusted
  rcases List.append_eq_append_iff.mp hentries with ⟨more,hleft,-⟩ | ⟨more,hsplit,hmore⟩
  · rw [hleft,List.length_append] at hlength
    omega
  · cases more with
    | nil =>
      rw [hsplit,List.append_nil] at hlength
      exact absurd hlength (Nat.lt_irrefl _)
    | cons e more =>
      obtain ⟨rfl,hhops⟩ := List.cons.inj hmore
      have hmoreTrusted : ∀ hop ∈ more, isTrustedEntry trusted hop = true := fun hop hm => h.hops_trusted hop (hhops ▸ List.mem_append_left _ hm)
      rw [contextIp_of_line hpeer hlines htext,hsplit,List.append_cons,find_untrusted _ hmoreTrusted,List.filterMap_append]
      simp [hip,huntrusted]

/-- A line of entries. -/
def lineOf : String → List String → String
  | entry, [] => entry
  | entry, next :: entries => entry ++ String.ofList [','] ++ lineOf next entries

theorem split_lineOf {entry : String} {entries : List String} (h : ∀ e ∈ entry :: entries, PlainEntry e) :
    Text.split ',' (lineOf entry entries) = entry :: entries := by
  induction entries generalizing entry with
  | nil => exact Text.split_eq_singleton (h entry List.mem_cons_self).1
  | cons next entries ih =>
    rw [lineOf,Text.split_append_sep,Text.split_eq_singleton (h entry List.mem_cons_self).1,
      ih fun e he => h e (List.mem_cons_of_mem _ he)]
    rfl

theorem toStr_eq_some_iff {value : String} :
    toStr value = some value ↔ ∀ c ∈ value.toList, ((32 ≤ c.toNat && c.toNat < 127) || c = '\t') = true := by
  rw [toStr]
  split
  case isTrue h => exact ⟨fun _ => List.all_eq_true.mp h,fun _ => rfl⟩
  case isFalse h => exact ⟨nofun,fun hall => absurd (List.all_eq_true.mpr hall) h⟩

theorem toStr_lineOf {entry : String} {entries : List String} (h : ∀ e ∈ entry :: entries, PlainEntry e) :
    toStr (lineOf entry entries) = some (lineOf entry entries) := by
  induction entries generalizing entry with
  | nil => exact (h entry List.mem_cons_self).2
  | cons next entries ih =>
    have hentry := toStr_eq_some_iff.mp (h entry List.mem_cons_self).2
    have hrest := toStr_eq_some_iff.mp (ih fun e he => h e (List.mem_cons_of_mem _ he))
    refine toStr_eq_some_iff.mpr fun c hc => ?_
    rw [lineOf,String.toList_append,String.toList_append,String.toList_ofList] at hc
    rcases List.mem_append.mp hc with hc | hc
    · rcases List.mem_append.mp hc with hc | hc
      · exact hentry c hc
      · rw [List.mem_singleton.mp hc]
        decide
    · exact hrest c hc

/-- A request with one line of the header. -/
def oneLine (line : String) : RequestHead := ⟨"GET","/",none,[("x-forwarded-for",line)]⟩

theorem headerAll_oneLine (line : String) : (oneLine line).headerAll "x-forwarded-for" = [line] := by
  have hname : Text.eqIgnoreAsciiCase "x-forwarded-for" "x-forwarded-for" = true := by simp [Text.eqIgnoreAsciiCase]
  simp [RequestHead.headerAll,oneLine,hname]

/-- Where the rightmost untrusted entry is no address, the one to its left is taken. -/
theorem contextIp_spoofed {trusted : List String} {peer : IpAddr} (hpeer : peerIsTrusted trusted peer = true) {entry spoof : String} {hops : List String}
    (hplain : ∀ e ∈ spoof :: entry :: hops, PlainEntry e) (hhops : ∀ hop ∈ hops, isTrustedEntry trusted hop = true)
    (hentry : entryAddress entry = none) {ip : IpAddr} (hspoof : entryAddress spoof = some ip) :
    contextIp trusted peer (oneLine (lineOf spoof (entry :: hops))) = ip := by
  rw [contextIp_of_line hpeer (headerAll_oneLine _) (toStr_lineOf hplain),split_lineOf hplain]
  have hfront : spoof :: entry :: hops = [spoof,entry] ++ hops := rfl
  have hhead : (([spoof,entry] ++ hops).filterMap entryAddress).head? = some ip := by simp [hspoof]
  rw [hfront,find_untrusted _ hhops,hhead]
  cases htrusted : peerIsTrusted trusted ip with
  | true => simp [hspoof,hentry,htrusted]
  | false => simp [hspoof,hentry,htrusted]

/-- Behind an untrusted peer no header counts. Behind a trusted one, what is to the left of the
rightmost untrusted entry does not count exactly if that entry is an address, in requests whose
first line is text and reaches it. -/
theorem client_ip_unspoofed_iff (trusted : List String) (peer : IpAddr) {entry : String} {hops : List String}
    (hplain : ∀ e ∈ entry :: hops, PlainEntry e) (hentry : isTrustedEntry trusted entry = false)
    (hhops : ∀ hop ∈ hops, isTrustedEntry trusted hop = true) :
    (peerIsTrusted trusted peer = false → ∀ head, contextIp trusted peer head = peer) ∧
      (peerIsTrusted trusted peer = true →
        ((∀ head head' left left', ForwardedBy trusted head left entry hops → ForwardedBy trusted head' left' entry hops →
            FirstLineReaches head left → FirstLineReaches head' left' → contextIp trusted peer head = contextIp trusted peer head') ↔
          (entryAddress entry).isSome)) := by
  refine ⟨contextIp_of_untrusted,fun hpeer => ⟨fun hsame => ?_,fun hsome => ?_⟩⟩
  · by_contra hnone
    rw [Option.not_isSome_iff_eq_none] at hnone
    have hspoof : ∀ spoof, PlainEntry spoof →
        (∀ e ∈ spoof :: entry :: hops, PlainEntry e) ∧ ForwardedBy trusted (oneLine (lineOf spoof (entry :: hops))) [spoof] entry hops ∧
          FirstLineReaches (oneLine (lineOf spoof (entry :: hops))) [spoof] := by
      intro spoof hspoof
      have hall : ∀ e ∈ spoof :: entry :: hops, PlainEntry e := List.forall_mem_cons.mpr ⟨hspoof,hplain⟩
      refine ⟨hall,⟨?_,hentry,hhops⟩,_,[],headerAll_oneLine _,toStr_lineOf hall,?_⟩
      · rw [forwardedEntries,headerAll_oneLine,List.flatMap_cons,List.flatMap_nil,List.append_nil,split_lineOf hall]
        rfl
      · rw [split_lineOf hall]
        exact Nat.succ_lt_succ (Nat.succ_pos _)
    have hone : PlainEntry "192.0.2.1" ∧ entryAddress "192.0.2.1" = some (.v4 0xC0000201#32) := by
      rw [PlainEntry]
      decide +kernel
    have htwo : PlainEntry "192.0.2.2" ∧ entryAddress "192.0.2.2" = some (.v4 0xC0000202#32) := by
      rw [PlainEntry]
      decide +kernel
    obtain ⟨hall,hby,hreach⟩ := hspoof _ hone.1
    obtain ⟨hall',hby',hreach'⟩ := hspoof _ htwo.1
    have heq := hsame _ _ _ _ hby hby' hreach hreach'
    rw [contextIp_spoofed hpeer hall hhops hnone hone.2,contextIp_spoofed hpeer hall' hhops hnone htwo.2] at heq
    exact absurd heq (by decide)
  · obtain ⟨ip,hip⟩ := Option.isSome_iff_exists.mp hsome
    intro head head' left left' hby hby' hreach hreach'
    rw [contextIp_of_address hpeer hby hreach hip,contextIp_of_address hpeer hby' hreach' hip]

/-- A proxy of the net `10.0.0.0/8`, in front of which a client is at `198.51.100.7`. -/
theorem client_ip_unspoofed_example :
    contextIp ["10.0.0.0/8"] (.v4 0x0A000001#32) (oneLine "9.9.9.9,198.51.100.7,10.0.0.5") =
      contextIp ["10.0.0.0/8"] (.v4 0x0A000001#32) (oneLine "198.51.100.7,10.0.0.5") := by
  have hplain : ∀ e ∈ ["198.51.100.7","10.0.0.5"], PlainEntry e := by simp only [PlainEntry]; decide +kernel
  have hhops : ∀ hop ∈ ["10.0.0.5"], isTrustedEntry ["10.0.0.0/8"] hop = true := by decide +kernel
  have hiff := (client_ip_unspoofed_iff ["10.0.0.0/8"] (.v4 0x0A000001#32) hplain (by decide +kernel) hhops).2 (by decide +kernel)
  refine hiff.mpr (by decide +kernel) _ _ ["9.9.9.9"] [] ⟨?_,by decide +kernel,hhops⟩ ⟨?_,by decide +kernel,hhops⟩
    ⟨_,[],headerAll_oneLine _,by decide +kernel,by decide +kernel⟩ ⟨_,[],headerAll_oneLine _,by decide +kernel,by decide +kernel⟩
  · rw [forwardedEntries,headerAll_oneLine]
    decide +kernel
  · rw [forwardedEntries,headerAll_oneLine]
    decide +kernel

/-- A proxy that adds a line of its own: the line of the client decides. -/
theorem client_ip_spoofed :
    ¬∀ (trusted : List String) (peer : IpAddr) (head head' : RequestHead) (left left' hops : List String) (entry : String),
      ForwardedBy trusted head left entry hops → ForwardedBy trusted head' left' entry hops →
        contextIp trusted peer head = contextIp trusted peer head' := by
  intro h
  have hsame := h ["10.0.0.0/8"] (.v4 0x0A000001#32)
    ⟨"GET","/",none,[("x-forwarded-for","192.0.2.1"),("x-forwarded-for","198.51.100.7")]⟩
    ⟨"GET","/",none,[("x-forwarded-for","198.51.100.7")]⟩ ["192.0.2.1"] [] [] "198.51.100.7"
    ⟨by decide +kernel,by decide +kernel,nofun⟩ ⟨by decide +kernel,by decide +kernel,nofun⟩
  exact absurd hsame (by decide +kernel)

end Dwara.Security
