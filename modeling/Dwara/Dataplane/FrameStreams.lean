import Dwara.Dataplane.FramePolicing
import Mathlib.Tactic.MkIffOfInductiveProp

/-! The scanner over whole streams: however they are cut into chunks, and what of them it reads as
the policy does. -/

namespace Dwara.Dataplane.WebSocket
open Dwara.Lib Dwara.Lib.WebSocketFrame Dwara.Lib.Framing

abbrev Policed := Cut UInt8 Header Refusal

/-- The frames of a stream as far as it has come in. -/
def parse (max : Option ℕ) (bs : Bytes) : Policed := (policing max).cut bs

def dataFrames (r : Policed) : ℕ := r.frames.countP Header.isData

/-- The headers read: those of the whole frames, and that of the frame being read. -/
def headers (r : Policed) : List Header := r.frames ++ if r.rejected = none then (readHeader r.rest).toList else []

/-- The scanner counts the data frames of the stream, has seen its violation, and is where the
frames are. -/
@[mk_iff]
structure Follows (c : FrameCounter) (r : Policed) : Prop where
  frames : c.frames = dataFrames r
  violation : c.violation = r.rejected.elim .none Refusal.violation
  scan : r.rejected = none → c.scan = scanOf r.rest

/-- The streams the scanner reads as the policy does. -/
@[mk_iff]
structure Policeable (max : Option ℕ) (r : Policed) : Prop where
  kept : ∀ h ∈ headers r, Kept max h
  count : dataFrames r < 2 ^ 64

theorem violation_ne_none (why : Refusal) : why.violation ≠ .none := by
  cases why <;> exact nofun

theorem byte_maxFrameSize (c : FrameCounter) (b : UInt8) : (c.byte b).maxFrameSize = c.maxFrameSize := by
  rw [FrameCounter.byte]
  repeat' split
  all_goals try rfl
  · rw [FrameCounter.head]
    repeat' split
    all_goals rfl
  · rw [FrameCounter.extension]
    split <;> rfl

theorem foldl_maxFrameSize (c : FrameCounter) (bs : Bytes) : (bs.foldl FrameCounter.byte c).maxFrameSize = c.maxFrameSize := by
  induction bs generalizing c with
  | nil => rfl
  | cons b bs ih => rw [List.foldl_cons,ih,byte_maxFrameSize]

theorem headers_extend (r more : Policed) : headers (r.extend more) = r.frames ++ headers more := List.append_assoc ..

theorem dataFrames_extend (r more : Policed) : dataFrames (r.extend more) = dataFrames r + dataFrames more := List.countP_append

section Step
variable {max : Option ℕ} {bs : Bytes} {b : UInt8}

theorem parse_rest_waits (h : (parse max bs).rejected = none) : front max (parse max bs).rest = .wait := Reader.front_rest h

/-- What one more byte adds to a stream that is not given up. -/
theorem parse_snoc (h : (parse max bs).rejected = none) (b : UInt8) :
    parse max (bs ++ [b]) =
      (parse max bs).extend
        (match front max ((parse max bs).rest ++ [b]) with
        | .wait => ⟨[],none,(parse max bs).rest ++ [b]⟩
        | .reject why => ⟨[],some why,(parse max bs).rest ++ [b]⟩
        | .frame header _ => ⟨[header],none,[]⟩) := by
  rw [parse,Reader.cut_append h]
  congr 1
  split
  · rename_i hfront
    exact Reader.cut_wait hfront
  · rename_i hfront
    exact Reader.cut_reject hfront
  · rename_i hfront
    exact Reader.cut_frame_of_wait (parse_rest_waits h) hfront

theorem follows_snoc_iff {c c' : FrameCounter} (h : (parse max bs).rejected = none) (hc : Follows c (parse max bs)) :
    Follows c' (parse max (bs ++ [b])) ↔
      Agrees c c' ((parse max bs).rest ++ [b]) (front max ((parse max bs).rest ++ [b])) := by
  rw [parse_snoc h]
  cases front max ((parse max bs).rest ++ [b]) with
  | wait => simp [follows_iff,Agrees,hc.frames,dataFrames,Cut.extend]
  | reject why => simp [follows_iff,Agrees,hc.frames,dataFrames,Cut.extend]
  | frame header size => cases hdata : header.isData <;> simp [follows_iff,Agrees,hc.frames,dataFrames,Cut.extend,hdata,scanOf]

theorem policeable_snoc_iff (h : (parse max bs).rejected = none) (hp : Policeable max (parse max bs)) :
    Policeable max (parse max (bs ++ [b])) ↔
      Allowed max (dataFrames (parse max bs)) ((parse max bs).rest ++ [b]) (front max ((parse max bs).rest ++ [b])) := by
  have hframes : ∀ h ∈ (parse max bs).frames, Kept max h := fun h hmem => hp.kept h (List.mem_append_left _ hmem)
  have hcount := hp.count
  rw [parse_snoc h,policeable_iff,headers_extend,dataFrames_extend]
  simp only [List.forall_mem_append,and_iff_right hframes]
  cases front max ((parse max bs).rest ++ [b]) with
  | wait => simpa [Allowed,headers,dataFrames] using fun _ => hcount
  | reject why => simpa [Allowed,headers,dataFrames] using hcount
  | frame header size => cases hdata : header.isData <;> simp [Allowed,headers,dataFrames,readHeader,hdata]

/-- A stream that is given up gains nothing. -/
theorem parse_snoc_rejected {why : Refusal} (h : (parse max bs).rejected = some why) (b : UInt8) :
    parse max (bs ++ [b]) = { parse max bs with rest := (parse max bs).rest ++ [b] } := Reader.cut_append_rejected h [b]

theorem policeable_snoc_rejected_iff {why : Refusal} (h : (parse max bs).rejected = some why) :
    Policeable max (parse max (bs ++ [b])) ↔ Policeable max (parse max bs) := by
  rw [parse_snoc_rejected h,policeable_iff,policeable_iff]
  simp only [headers,dataFrames,h,reduceCtorEq,if_false]

/-- One more byte of a stream the scanner has followed: it follows it exactly when the policy's
reading says so. -/
theorem follows_byte_iff {c : FrameCounter} (hmax : c.maxFrameSize = max) (hc : Follows c (parse max bs))
    (hp : Policeable max (parse max bs)) (b : UInt8) :
    Follows (c.byte b) (parse max (bs ++ [b])) ↔ Policeable max (parse max (bs ++ [b])) := by
  subst hmax
  cases hrejected : (parse c.maxFrameSize bs).rejected with
  | some why =>
    have hviolated : c.violation ≠ .none := by
      rw [hc.violation,hrejected]
      exact violation_ne_none why
    rw [parse_snoc_rejected hrejected,FrameCounter.byte,if_neg hviolated]
    refine iff_of_true ⟨hc.frames,hc.violation,?_⟩ ?_
    · rw [hrejected]
      intro hnone
      cases hnone
    · rwa [← parse_snoc_rejected hrejected b,policeable_snoc_rejected_iff hrejected]
  | none =>
    have hok : c.violation = .none := by
      rw [hc.violation,hrejected]
      rfl
    have hframes : c.frames < 2 ^ 64 := by
      rw [hc.frames]
      exact hp.count
    have hkept : ∀ h ∈ readHeader (parse c.maxFrameSize bs).rest, Kept c.maxFrameSize h := by
      intro h hread
      refine hp.kept h (List.mem_append_right _ ?_)
      rw [if_pos hrejected]
      exact Option.mem_toList.mpr hread
    rw [follows_snoc_iff hrejected hc,policeable_snoc_iff hrejected hp,← hc.frames]
    exact byte_agrees_iff hok hframes (parse_rest_waits hrejected) hkept (hc.scan hrejected) b

/-- A header that is in stays the header of its frame. -/
theorem header_stays {p : Bytes} {h : Header} (hwait : front max p = .wait) (hread : readHeader p = some h) (b : UInt8) :
    (∃ size, front max (p ++ [b]) = .frame h size) ∨ front max (p ++ [b]) = .wait ∧ readHeader (p ++ [b]) = some h := by
  match p, hread with
  | b0 :: b1 :: rest, hread =>
    obtain ⟨hmalformed,hoversize,-⟩ := front_eq_wait hwait hread
    have hmore : readHeader (b0 :: b1 :: (rest ++ [b])) = some h := readHeader_append hread [b]
    simp only [List.cons_append,front_header hmalformed hmore,hoversize,Bool.false_eq_true,if_false]
    split
    · exact Or.inl ⟨_,rfl⟩
    · exact Or.inr ⟨rfl,hmore⟩

/-- A stream the scanner follows is one it has followed so far. -/
theorem Policeable.of_snoc (h : Policeable max (parse max (bs ++ [b]))) : Policeable max (parse max bs) := by
  cases hrejected : (parse max bs).rejected with
  | some why =>
    exact (policeable_snoc_rejected_iff hrejected).mp h
  | none =>
    have hkept := h.kept
    have hcount := h.count
    rw [parse_snoc hrejected] at hkept hcount
    rw [headers_extend] at hkept
    rw [dataFrames_extend] at hcount
    refine ⟨?_,by omega⟩
    intro header hmem
    rcases List.mem_append.mp hmem with hmem | hmem
    · exact hkept header (List.mem_append_left _ hmem)
    · rw [if_pos hrejected,Option.mem_toList] at hmem
      refine hkept header (List.mem_append_right _ ?_)
      rcases header_stays (parse_rest_waits hrejected) hmem b with ⟨size,hfront⟩ | ⟨hfront,hread⟩
      · rw [hfront]
        exact List.mem_append_left _ List.mem_cons_self
      · rw [hfront]
        refine List.mem_append_right _ ?_
        rw [if_pos rfl,hread]
        exact List.mem_cons_self

end Step

theorem parse_nil (max : Option ℕ) : parse max [] = ⟨[],none,[]⟩ := Reader.cut_wait (policing max).front_nil

/-- The scanner follows a stream byte by byte exactly when it is policeable. -/
theorem follows_all_iff (max : Option ℕ) (bs : Bytes) :
    (∀ p, p <+: bs → Follows (p.foldl FrameCounter.byte (FrameCounter.new max)) (parse max p)) ↔ Policeable max (parse max bs) := by
  induction bs using List.reverseRecOn with
  | nil =>
    refine iff_of_true ?_ ?_
    · intro p hp
      obtain rfl := List.prefix_nil.mp hp
      rw [parse_nil]
      exact ⟨rfl,rfl,fun _ => rfl⟩
    · rw [parse_nil]
      exact ⟨nofun,Nat.zero_lt_succ _⟩
  | append_singleton bs b ih =>
    have hmax : (bs.foldl FrameCounter.byte (FrameCounter.new max)).maxFrameSize = max := foldl_maxFrameSize _ bs
    have hsnoc : (bs ++ [b]).foldl FrameCounter.byte (FrameCounter.new max) =
        (bs.foldl FrameCounter.byte (FrameCounter.new max)).byte b := by
      rw [List.foldl_append]
      rfl
    constructor
    · intro hall
      have hbefore := fun p (hp : p <+: bs) => hall p (hp.trans (List.prefix_append bs [b]))
      have hlast := hall (bs ++ [b]) (List.prefix_refl _)
      rw [hsnoc] at hlast
      exact (follows_byte_iff hmax (hbefore bs (List.prefix_refl _)) (ih.mp hbefore) b).mp hlast
    · intro hp p hprefix
      have hbefore := ih.mpr hp.of_snoc
      rcases List.prefix_concat_iff.mp hprefix with rfl | hprefix
      · rw [hsnoc]
        exact (follows_byte_iff hmax (hbefore bs (List.prefix_refl _)) hp.of_snoc b).mpr hp
      · exact hbefore p hprefix

theorem foldl_feed_new (max : Option ℕ) (chunks : List Bytes) :
    chunks.foldl FrameCounter.feed (FrameCounter.new max) = chunks.flatten.foldl FrameCounter.byte (FrameCounter.new max) := by
  rw [FrameCounter.foldl_feed (FrameCounter.resumable_new max),FrameCounter.feed_eq_foldl (FrameCounter.resumable_new max)]

open FrameCounter in
/-- How the stream is cut into chunks makes no difference, and the scanner reads it as the policy
does exactly when it is policeable. -/
theorem frame_counter_follows_iff (max : Option ℕ) :
    (∀ chunks : List Bytes, chunks.foldl feed (new max) = (new max).feed chunks.flatten) ∧
      ∀ bs : Bytes, (∀ chunks : List Bytes, chunks.flatten <+: bs → Follows (chunks.foldl feed (new max)) (parse max chunks.flatten)) ↔
        Policeable max (parse max bs) := by
  refine ⟨foldl_feed (resumable_new max),fun bs => ?_⟩
  rw [← follows_all_iff]
  constructor
  · intro hall p hprefix
    have hone : [p].flatten = p := List.append_nil p
    have hfollows := hall [p] (by rwa [hone])
    rwa [foldl_feed_new,hone] at hfollows
  · intro hall chunks hprefix
    rw [foldl_feed_new]
    exact hall chunks.flatten hprefix

/-- A ping above the limit for data frames, a masked length that overflows with its mask and two
frames of no payload after it, and an empty payload declared in an extension. -/
theorem frames_misread :
    ¬ Follows ([[0x89,20]].foldl FrameCounter.feed (FrameCounter.new (some 10))) (parse (some 10) [0x89,20]) ∧
      ¬ Follows ([[0x82,0xff,0xff,0xff,0xff,0xff,0xff,0xff,0xff,0xff],[0,0,0,0x82,0,0x82,0]].foldl FrameCounter.feed (FrameCounter.new none))
        (parse none [0x82,0xff,0xff,0xff,0xff,0xff,0xff,0xff,0xff,0xff,0,0,0,0x82,0,0x82,0]) ∧
      ¬ Follows ([[0x82,0x7e,0,0]].foldl FrameCounter.feed (FrameCounter.new none)) (parse none [0x82,0x7e,0,0]) := by
  refine ⟨fun h => ?_,fun h => ?_,fun h => ?_⟩
  · have hviolation := h.violation
    rw [foldl_feed_new,parse,Reader.cut_wait rfl] at hviolation
    exact absurd hviolation (by decide)
  · have hframes := h.frames
    rw [foldl_feed_new,parse,Reader.cut_wait rfl] at hframes
    exact absurd hframes (by decide)
  · have hframes := h.frames
    rw [foldl_feed_new,parse,Reader.cut_frame rfl,Reader.cut_wait rfl] at hframes
    exact absurd hframes (by decide)

end Dwara.Dataplane.WebSocket
