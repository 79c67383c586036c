import Dwara.Lib.Pieces
import Dwara.Lib.Text
import Dwara.Lib.Utf8Chunks
import Mathlib.Data.List.Infix

/-! The decoders that a rule may have in front of its pattern: percent escapes and HTML
entities. Each decodes its input piece by piece. -/

namespace Dwara.Dataplane.WafDecode
open Dwara.Lib Dwara.Lib.Utf8
open Dwara.Lib.Piece (raw raws outs)

section Digits

/-- The value of a digit to a base of at most sixteen. -/
def toDigit (base : ℕ) (c : Char) : Option ℕ :=
  let value :=
    if '0' ≤ c ∧ c ≤ '9' then c.toNat - 48
    else if 'a' ≤ c ∧ c ≤ 'f' then c.toNat - 87
    else if 'A' ≤ c ∧ c ≤ 'F' then c.toNat - 55
    else base
  if value < base then some value else none

/-- An unsigned number below a bound; a plus sign may come first. -/
def fromStrRadix (base bound : ℕ) (cs : List Char) : Option ℕ :=
  let digits := match cs with
    | '+' :: digits => digits
    | digits => digits
  if digits = [] then none
  else
    (digits.foldlM (fun value c => (toDigit base c).bind fun d => if value * base + d < bound then some (value * base + d) else none) 0)

end Digits

section Percent

def hexDigit (b : UInt8) : Option UInt8 :=
  if 0x30 ≤ b ∧ b ≤ 0x39 then some (b - 0x30)
  else if 0x61 ≤ b ∧ b ≤ 0x66 then some (b - 0x57)
  else if 0x41 ≤ b ∧ b ≤ 0x46 then some (b - 0x37)
  else none

/-- The byte of two digits, or of one behind a plus sign. -/
def hexPair (a b : UInt8) : Option UInt8 :=
  if a = 0x2b then hexDigit b else (hexDigit a).bind fun high => (hexDigit b).map (high * 16 + ·)

/-- The pieces of the input; nothing when two bytes behind a percent sign are no text. -/
def percentScan : Bytes → Option (List (Piece UInt8))
  | 0x25 :: a :: b :: rest =>
    if IsValid [a,b] then
      match hexPair a b with
      | some value => (percentScan rest).map (⟨[0x25,a,b],[value]⟩ :: ·)
      | none => (percentScan (a :: b :: rest)).map (raw 0x25 :: ·)
    else none
  | byte :: rest => (percentScan rest).map (raw byte :: ·)
  | [] => some []

def percentDecode (input : List Char) : Option (List Char) :=
  (percentScan (encode input)).bind fun ps => if IsValid (outs ps) then some (fromUtf8Lossy (outs ps)) else none

end Percent

section Entities

/-- The character of an entity, from behind the ampersand to the semicolon. -/
def decodeEntity (entity : List Char) : Option Char :=
  if entity = "lt;".toList then some '<'
  else if entity = "gt;".toList then some '>'
  else if entity = "amp;".toList then some '&'
  else if entity = "quot;".toList then some '"'
  else if entity = "apos;".toList then some '\''
  else
    match entity with
    | '#' :: rest =>
      if rest.getLast? = some ';' then
        let code := match rest.dropLast with
          | 'x' :: hex => fromStrRadix 16 (2 ^ 32) hex
          | num => fromStrRadix 10 (2 ^ 32) num
        code.bind fun code => if code.isValidChar then some (Char.ofNat code) else none
      else none
    | _ => none

/-- An entity that is not known is kept as it is. -/
def entityPieces (entity : List Char) : List (Piece Char) :=
  match decodeEntity entity with
  | some c => [⟨'&' :: entity,[c]⟩]
  | none => raws ('&' :: entity)

/-- The pieces from within an entity, or from outside. Behind an ampersand every character is
taken up to a semicolon, or until there are more than ten bytes. -/
def htmlScan : Option (List Char) → List Char → List (Piece Char)
  | none, [] => []
  | none, c :: rest => if c = '&' then htmlScan (some []) rest else raw c :: htmlScan none rest
  | some entity, [] => raws ('&' :: entity)
  | some entity, c :: rest =>
    let entity := entity ++ [c]
    if c = ';' then entityPieces entity ++ htmlScan none rest
    else if 10 < (encode entity).length then raws ('&' :: entity) ++ htmlScan none rest
    else htmlScan (some entity) rest

def htmlEntityDecode (input : List Char) : List Char := outs (htmlScan none input)

end Entities

/-- The decoders among the transformations. -/
inductive Transformation where
  | urlDecode
  | htmlEntityDecode
  deriving DecidableEq, Repr

def Transformation.apply (t : Transformation) (input : List Char) : List Char :=
  match t with
  | .urlDecode => (percentDecode input).getD input
  | .htmlEntityDecode => WafDecode.htmlEntityDecode input

/-- What the pattern of a rule is tried on. -/
def transform (transformations : List Transformation) (value : List Char) : List Char :=
  transformations.foldl (fun result t => t.apply result) value

end Dwara.Dataplane.WafDecode

/-! Whether what comes before a text changes how it is decoded: for one decoder exactly when,
and for the decoders of a rule one after the other. -/

namespace Dwara.Dataplane.WafDecode
open Dwara.Lib Dwara.Lib.Utf8
open Dwara.Lib.Piece (raw raws outs sources Solid)

section Entities
variable {p s entity : List Char}

/-- What has been taken of the input and stands in no piece yet. -/
def pending : Option (List Char) → List Char
  | none => []
  | some entity => '&' :: entity

theorem sources_entityPieces (entity : List Char) : sources (entityPieces entity) = '&' :: entity := by
  rw [entityPieces]
  split <;> simp

theorem solid_entityPieces (entity : List Char) : Solid (entityPieces entity) := by
  rw [entityPieces]
  split
  · exact Solid.cons (List.cons_ne_nil _ _) (fun _ h => absurd h List.not_mem_nil)
  · exact Piece.solid_raws _

theorem sources_htmlScan (st : Option (List Char)) (s : List Char) : sources (htmlScan st s) = pending st ++ s := by
  induction s generalizing st with
  | nil => cases st <;> simp [htmlScan,pending]
  | cons c s ih =>
    cases st with
    | none =>
      rw [htmlScan]
      split
      · rename_i hc
        rw [ih,hc]
        rfl
      · rw [Piece.sources_cons,ih]
        rfl
    | some entity =>
      rw [htmlScan]
      split_ifs
      · rw [Piece.sources_append,sources_entityPieces,ih]
        simp [pending]
      · rw [Piece.sources_append,Piece.sources_raws,ih]
        simp [pending]
      · rw [ih]
        simp [pending]

theorem solid_htmlScan (st : Option (List Char)) (s : List Char) : Solid (htmlScan st s) := by
  induction s generalizing st with
  | nil =>
    cases st with
    | none => exact fun _ h => absurd h List.not_mem_nil
    | some entity => exact Piece.solid_raws _
  | cons c s ih =>
    cases st with
    | none =>
      rw [htmlScan]
      split
      · exact ih _
      · exact Solid.cons (List.cons_ne_nil _ _) (ih _)
    | some entity =>
      rw [htmlScan]
      split_ifs
      · exact (solid_entityPieces _).append (ih _)
      · exact (Piece.solid_raws _).append (ih _)
      · exact ih _

/-- The pieces of a text that goes on, and where it leaves the decoder. -/
def htmlRun : Option (List Char) → List Char → List (Piece Char) × Option (List Char)
  | st, [] => ([],st)
  | none, c :: rest => if c = '&' then htmlRun (some []) rest else ((raw c :: (htmlRun none rest).1),(htmlRun none rest).2)
  | some entity, c :: rest =>
    if c = ';' then (entityPieces (entity ++ [c]) ++ (htmlRun none rest).1,(htmlRun none rest).2)
    else if 10 < (encode (entity ++ [c])).length then (raws ('&' :: (entity ++ [c])) ++ (htmlRun none rest).1,(htmlRun none rest).2)
    else htmlRun (some (entity ++ [c])) rest

theorem htmlScan_append (st : Option (List Char)) (p s : List Char) :
    htmlScan st (p ++ s) = (htmlRun st p).1 ++ htmlScan (htmlRun st p).2 s := by
  induction p generalizing st with
  | nil => cases st <;> rfl
  | cons c p ih =>
    cases st with
    | none =>
      rw [List.cons_append,htmlScan,htmlRun]
      split
      · exact ih _
      · exact congrArg (raw c :: ·) (ih _)
    | some entity =>
      rw [List.cons_append,htmlScan,htmlRun]
      split_ifs
      · rw [ih,List.append_assoc]
      · rw [ih,List.append_assoc]
      · exact ih _

/-- What an ampersand that is not done yet takes of the text behind it. -/
def lookahead (entity : List Char) : List Char → List Char
  | [] => []
  | c :: rest => if c = ';' ∨ 10 < (encode (entity ++ [c])).length then [c] else c :: lookahead (entity ++ [c]) rest

theorem htmlScan_pending (entity s : List Char) :
    htmlScan (some entity) s =
      (if (lookahead entity s).getLast? = some ';' then entityPieces (entity ++ lookahead entity s)
        else raws ('&' :: (entity ++ lookahead entity s))) ++ htmlScan none (s.drop (lookahead entity s).length) := by
  induction s generalizing entity with
  | nil => simp [lookahead,htmlScan]
  | cons c s ih =>
    rw [htmlScan]
    by_cases hend : c = ';'
    · have hlook : lookahead entity (c :: s) = [c] := if_pos (.inl hend)
      rw [hlook]
      simp [hend]
    · by_cases hlen : 10 < (encode (entity ++ [c])).length
      · have hlook : lookahead entity (c :: s) = [c] := if_pos (.inr hlen)
        simp [hlook,hend,hlen]
      · have hlook : lookahead entity (c :: s) = c :: lookahead (entity ++ [c]) s := if_neg (by simp [hend,hlen])
        have hlast : (c :: lookahead (entity ++ [c]) s).getLast? = some ';' ↔ (lookahead (entity ++ [c]) s).getLast? = some ';' := by
          cases lookahead (entity ++ [c]) s with
          | nil => simp [hend]
          | cons d rest => rw [List.getLast?_cons_cons]
        rw [if_neg hend,if_neg hlen,ih,hlook]
        simp only [hlast,List.append_assoc,List.singleton_append,List.length_cons,List.drop_succ_cons]

/-- An ampersand that is not done yet decodes to nothing with what it takes of the text, and
what it takes is plain there. -/
def EntityClean (p s : List Char) : Prop :=
  ∀ entity ∈ (htmlRun none p).2,
    ¬ ((lookahead entity s).getLast? = some ';' ∧ (decodeEntity (entity ++ lookahead entity s)).isSome) ∧
      htmlScan none s = raws (lookahead entity s) ++ htmlScan none (s.drop (lookahead entity s).length)

/-- Without an entity that decodes, the ampersand and what it takes are left alone. -/
theorem htmlScan_pending_plain {s : List Char}
    (h : ¬ ((lookahead entity s).getLast? = some ';' ∧ (decodeEntity (entity ++ lookahead entity s)).isSome)) :
    htmlScan (some entity) s =
      raws ('&' :: entity) ++ (raws (lookahead entity s) ++ htmlScan none (s.drop (lookahead entity s).length)) := by
  have hraws : raws ('&' :: (entity ++ lookahead entity s)) = raws ('&' :: entity) ++ raws (lookahead entity s) := by
    rw [← List.cons_append,Piece.raws_append]
  rw [htmlScan_pending,← List.append_assoc,← hraws]
  congr 1
  split
  · rename_i hlast
    have hnone : decodeEntity (entity ++ lookahead entity s) = none := by
      simpa [hlast] using h
    rw [entityPieces,hnone]
  · rfl

/-- An entity across the boundary leaves no cut there. -/
theorem not_suffix_of_decoded {front q rest tail : List (Piece Char)} {entity taken : List Char} {c : Char}
    (htaken : taken ≠ []) (hsource : sources q = sources front ++ '&' :: entity) :
    q ++ rest ≠ front ++ (⟨'&' :: (entity ++ taken),[c]⟩ :: tail) := by
  intro heq
  have hlen := congrArg List.length hsource
  rw [List.length_append,List.length_cons] at hlen
  rcases List.append_eq_append_iff.mp heq with ⟨rs,rfl,-⟩ | ⟨rs,rfl,hrs⟩
  · rw [Piece.sources_append,List.length_append] at hlen
    omega
  · cases rs with
    | nil =>
      rw [List.append_nil] at hlen
      omega
    | cons x rs =>
      obtain ⟨rfl,-⟩ := List.cons.inj hrs
      have hpos := List.length_pos_iff.mpr htaken
      simp only [Piece.sources_append,Piece.sources_cons,List.length_append,List.length_cons] at hlen
      omega

theorem sources_htmlRun (p : List Char) : sources (htmlRun none p).1 ++ pending (htmlRun none p).2 = p := by
  have h := sources_htmlScan none (p ++ [])
  rw [htmlScan_append,Piece.sources_append,sources_htmlScan,List.append_nil,List.append_nil] at h
  exact h

/-- The entities of a text are decoded as they are alone iff no ampersand before it gets hold of one. -/
theorem htmlScan_suffix_iff (p s : List Char) : htmlScan none s <:+ htmlScan none (p ++ s) ↔ EntityClean p s := by
  have hrun := sources_htmlRun p
  rw [htmlScan_append]
  cases hstate : (htmlRun none p).2 with
  | none =>
    refine ⟨fun _ entity hentity => ?_,fun _ => List.suffix_append _ _⟩
    rw [hstate] at hentity
    cases hentity
  | some entity =>
    rw [hstate] at hrun
    constructor
    · rintro ⟨q,hq⟩ _ hentity
      obtain rfl := Option.some.inj (hstate.symm.trans hentity)
      have hsource : sources q = p := by
        have hall := congrArg sources hq
        rw [Piece.sources_append,Piece.sources_append,sources_htmlScan,sources_htmlScan,
          ← List.append_assoc (sources (htmlRun none p).1),hrun] at hall
        exact List.append_cancel_right hall
      have hplain : ¬ ((lookahead entity s).getLast? = some ';' ∧ (decodeEntity (entity ++ lookahead entity s)).isSome) := by
        rintro ⟨hlast,hdecoded⟩
        obtain ⟨c,hc⟩ := Option.isSome_iff_exists.mp hdecoded
        have htaken : lookahead entity s ≠ [] := by
          intro hnil
          rw [hnil] at hlast
          cases hlast
        rw [htmlScan_pending,if_pos hlast,entityPieces,hc] at hq
        exact not_suffix_of_decoded htaken (hsource.trans hrun.symm) hq
      refine ⟨hplain,?_⟩
      rw [htmlScan_pending_plain hplain,← List.append_assoc] at hq
      refine (Solid.cut_eq ?_ hq ?_).2
      · rw [hq,List.append_assoc,← htmlScan_pending_plain hplain,← hstate,← htmlScan_append]
        exact solid_htmlScan none _
      · rw [hsource,Piece.sources_append,Piece.sources_raws]
        exact hrun.symm
    · intro hclean
      obtain ⟨hplain,htaken⟩ := hclean entity hstate
      rw [htmlScan_pending_plain hplain,← htaken,← List.append_assoc]
      exact List.suffix_append _ _

end Entities

section Percent
variable {x y : Bytes} {p s : List Char}

/-- The pieces that the percent decoder goes by: where it gives up, everything is left alone. -/
def urlPieces (input : List Char) : List (Piece UInt8) :=
  ((percentScan (encode input)).filter fun ps => IsValid (outs ps)).getD (raws (encode input))

/-- Two bytes behind a percent sign that do not leave it alone. -/
def Opens (a b : UInt8) : Prop := ¬ IsValid [a,b] ∨ (hexPair a b).isSome

/-- A percent sign at the end of the one text gets hold of the other one. -/
def Crosses (x y : Bytes) : Prop :=
  ∃ a b, Opens a b ∧ ([0x25] <:+ x ∧ [a,b] <+: y ∨ [0x25,a] <:+ x ∧ [b] <+: y)

/-- Two bytes that give a byte are not a percent sign. -/
theorem ne_percent_of_hexPair {a b value : UInt8} (h : hexPair a b = some value) : a ≠ 0x25 ∧ b ≠ 0x25 := by
  constructor
  · rintro rfl
    cases h
  · rintro rfl
    have hnone : hexDigit 0x25 = none := rfl
    rw [hexPair,hnone] at h
    split at h
    · cases h
    · simp at h

/-- The runs of the decoder that do not give up. -/
inductive Scanned : Bytes → List (Piece UInt8) → Prop
  | nil : Scanned [] []
  | plain {byte : UInt8} {rest : Bytes} {ps : List (Piece UInt8)} (h : byte = 0x25 → ∀ a b, [a,b] <+: rest → ¬ Opens a b)
      (hrest : Scanned rest ps) : Scanned (byte :: rest) (raw byte :: ps)
  | decoded {a b value : UInt8} {rest : Bytes} {ps : List (Piece UInt8)} (hvalid : IsValid [a,b]) (hvalue : hexPair a b = some value)
      (hrest : Scanned rest ps) : Scanned (0x25 :: a :: b :: rest) (⟨[0x25,a,b],[value]⟩ :: ps)

theorem Scanned.percentScan_eq {ps : List (Piece UInt8)} (h : Scanned x ps) : percentScan x = some ps := by
  induction h with
  | nil => rfl
  | @plain byte rest ps h _ ih =>
    rw [percentScan.eq_def]
    split
    · rename_i a b rest heq
      obtain ⟨rfl,rfl⟩ := List.cons.inj heq
      have hplain := h rfl a b ⟨rest,rfl⟩
      rw [Opens,not_or,not_not,Option.not_isSome_iff_eq_none] at hplain
      rw [if_pos hplain.1,hplain.2,ih]
      rfl
    · rename_i heq
      obtain ⟨rfl,rfl⟩ := List.cons.inj heq
      rw [ih]
      rfl
    · rename_i heq
      cases heq
  | decoded hvalid hvalue _ ih =>
    rw [percentScan,if_pos hvalid,hvalue,ih]
    rfl

theorem scanned_of_percentScan {ps : List (Piece UInt8)} (h : percentScan x = some ps) : Scanned x ps := by
  induction x using percentScan.induct generalizing ps with
  | case1 a b rest hvalid value hvalue ih =>
    rw [percentScan,if_pos hvalid,hvalue] at h
    obtain ⟨qs,hqs,rfl⟩ := Option.map_eq_some_iff.mp h
    exact .decoded hvalid hvalue (ih hqs)
  | case2 a b rest hvalid hnone ih =>
    rw [percentScan,if_pos hvalid,hnone] at h
    obtain ⟨qs,hqs,rfl⟩ := Option.map_eq_some_iff.mp h
    refine .plain (fun _ c d hstart hopens => ?_) (ih hqs)
    simp only [List.cons_prefix_cons,List.nil_prefix,and_true] at hstart
    obtain ⟨rfl,rfl⟩ := hstart
    rcases hopens with hopens | hopens
    · exact hopens hvalid
    · rw [hnone] at hopens
      cases hopens
  | case3 a b rest hvalid =>
    rw [percentScan,if_neg hvalid] at h
    cases h
  | case4 byte rest hshort ih =>
    rw [percentScan.eq_def] at h
    split at h
    · rename_i a b tail heq
      obtain ⟨rfl,rfl⟩ := List.cons.inj heq
      exact absurd rfl (hshort a b tail rfl)
    · rename_i heq
      obtain ⟨rfl,rfl⟩ := List.cons.inj heq
      obtain ⟨qs,hqs,rfl⟩ := Option.map_eq_some_iff.mp h
      refine .plain (fun hbyte a b hstart => ?_) (ih hqs)
      obtain ⟨tail,rfl⟩ := hstart
      exact absurd rfl (hshort a b tail hbyte)
    · rename_i heq
      cases heq
  | case5 =>
    obtain rfl := Option.some.inj h
    exact .nil

theorem Scanned.sources_eq {ps : List (Piece UInt8)} (h : Scanned x ps) : sources ps = x := by
  induction h with
  | nil => rfl
  | plain _ _ ih => rw [Piece.sources_cons,ih]; rfl
  | decoded _ _ _ ih => rw [Piece.sources_cons,ih]; rfl

/-- A percent sign before a text either gets hold of what lies behind, or only moves the boundary. -/
theorem crosses_cons {byte : UInt8} (h : Crosses (byte :: x) y) :
    Crosses x y ∨ byte = 0x25 ∧ ∃ a b, [a,b] <+: x ++ y ∧ Opens a b := by
  obtain ⟨a,b,hopens,⟨hx,hy⟩ | ⟨hx,hy⟩⟩ := h
  · rcases List.suffix_cons_iff.mp hx with heq | hx
    · obtain ⟨rfl,rfl⟩ := List.cons.inj heq
      exact .inr ⟨rfl,a,b,hy,hopens⟩
    · exact .inl ⟨a,b,hopens,.inl ⟨hx,hy⟩⟩
  · rcases List.suffix_cons_iff.mp hx with heq | hx
    · obtain ⟨rfl,rfl⟩ := List.cons.inj heq
      exact .inr ⟨rfl,a,b,List.cons_prefix_cons.mpr ⟨rfl,hy⟩,hopens⟩
    · exact .inl ⟨a,b,hopens,.inr ⟨hx,hy⟩⟩

theorem Crosses.cons {byte : UInt8} (h : Crosses x y) : Crosses (byte :: x) y := by
  obtain ⟨a,b,hopens,h⟩ := h
  exact ⟨a,b,hopens,h.imp (fun h => ⟨h.1.trans (List.suffix_cons _ _),h.2⟩) fun h => ⟨h.1.trans (List.suffix_cons _ _),h.2⟩⟩

/-- Behind an escape nothing of it is left to cross. -/
theorem crosses_decoded {a b value : UInt8} (hvalue : hexPair a b = some value) (h : Crosses (0x25 :: a :: b :: x) y) : Crosses x y := by
  obtain ⟨ha,hb⟩ := ne_percent_of_hexPair hvalue
  obtain ⟨c,d,hopens,h⟩ := h
  refine ⟨c,d,hopens,h.imp (fun h => ⟨?_,h.2⟩) fun h => ⟨?_,h.2⟩⟩
  · simpa [List.suffix_cons_iff,ha.symm,hb.symm] using h.1
  · simpa [List.suffix_cons_iff,ha.symm,hb.symm] using h.1

theorem not_crosses_nil : ¬ Crosses [] y := by
  rintro ⟨a,b,-,⟨h,-⟩ | ⟨h,-⟩⟩
  · cases List.suffix_nil.mp h
  · cases List.suffix_nil.mp h

/-- Two texts that nothing crosses between are decoded one by one. -/
theorem Scanned.append {ps qs : List (Piece UInt8)} (hx : Scanned x ps) (hy : Scanned y qs) (h : ¬ Crosses x y) :
    Scanned (x ++ y) (ps ++ qs) := by
  induction hx with
  | nil => exact hy
  | @plain byte rest ps hplain _ ih =>
    refine .plain (fun hbyte a b hstart hopens => ?_) (ih fun hcross => h hcross.cons)
    subst hbyte
    match rest with
    | [] => exact h ⟨a,b,hopens,.inl ⟨List.suffix_rfl,hstart⟩⟩
    | [c] =>
      obtain ⟨rfl,hb⟩ := List.cons_prefix_cons.mp hstart
      exact h ⟨a,b,hopens,.inr ⟨List.suffix_rfl,hb⟩⟩
    | c :: d :: rest =>
      refine hplain rfl a b ?_ hopens
      simpa [List.cons_prefix_cons] using hstart
  | decoded hvalid hvalue _ ih =>
    exact .decoded hvalid hvalue (ih fun hcross => h hcross.cons.cons.cons)

/-- A cut at the end of the one text means that nothing crosses. -/
theorem Scanned.of_append {ps qs : List (Piece UInt8)} (h : Scanned (x ++ y) (ps ++ qs)) (hps : sources ps = x) :
    Scanned x ps ∧ Scanned y qs ∧ ¬ Crosses x y := by
  induction ps generalizing x with
  | nil =>
    obtain rfl : [] = x := hps
    exact ⟨.nil,h,not_crosses_nil⟩
  | cons piece ps ih =>
    rw [List.cons_append] at h
    generalize hall : x ++ y = all at h
    cases h with
    | @plain byte rest _ hplain hrest =>
      obtain rfl : byte :: sources ps = x := hps
      obtain ⟨-,rfl⟩ := List.cons.inj hall
      obtain ⟨hx,hy,hcross⟩ := ih hrest rfl
      refine ⟨.plain (fun hbyte a b hstart => hplain hbyte a b (hstart.trans (List.prefix_append _ _))) hx,hy,fun h => ?_⟩
      rcases crosses_cons h with h | ⟨hbyte,a,b,hstart,hopens⟩
      · exact hcross h
      · exact hplain hbyte a b hstart hopens
    | @decoded a b value rest _ hvalid hvalue hrest =>
      obtain rfl : 0x25 :: a :: b :: sources ps = x := hps
      obtain rfl : sources ps ++ y = rest := by simpa using hall
      obtain ⟨hx,hy,hcross⟩ := ih hrest rfl
      exact ⟨.decoded hvalid hvalue hx,hy,fun h => hcross (crosses_decoded hvalue h)⟩

/-- The decoder does not give up on the text. -/
def Decodable (input : List Char) : Prop := (percentDecode input).isSome

/-- The text holds no escape. -/
def Unescaped (input : List Char) : Prop := percentScan (encode input) = some (raws (encode input))

theorem decodable_iff {input : List Char} : Decodable input ↔ ∃ ps, Scanned (encode input) ps ∧ IsValid (outs ps) := by
  rw [Decodable,percentDecode]
  constructor
  · intro h
    obtain ⟨out,hout⟩ := Option.isSome_iff_exists.mp h
    obtain ⟨ps,hscan,hps⟩ := Option.bind_eq_some_iff.mp hout
    split at hps
    · exact ⟨ps,scanned_of_percentScan hscan,‹_›⟩
    · cases hps
  · rintro ⟨ps,hscan,hvalid⟩
    rw [hscan.percentScan_eq,Option.bind_some,if_pos hvalid]
    rfl

theorem urlPieces_of_scanned {input : List Char} {ps : List (Piece UInt8)} (hscan : Scanned (encode input) ps) (hvalid : IsValid (outs ps)) :
    urlPieces input = ps := by
  rw [urlPieces,hscan.percentScan_eq]
  simp [Option.filter,hvalid]

theorem urlPieces_of_not_decodable {input : List Char} (h : ¬ Decodable input) : urlPieces input = raws (encode input) := by
  rw [urlPieces]
  cases hscan : percentScan (encode input) with
  | none => rfl
  | some ps =>
    have hvalid : ¬ IsValid (outs ps) := fun hvalid => h (decodable_iff.mpr ⟨ps,scanned_of_percentScan hscan,hvalid⟩)
    simp [Option.filter,hvalid]

theorem sources_urlPieces (input : List Char) : sources (urlPieces input) = encode input := by
  by_cases h : Decodable input
  · obtain ⟨ps,hscan,hvalid⟩ := decodable_iff.mp h
    rw [urlPieces_of_scanned hscan hvalid,hscan.sources_eq]
  · rw [urlPieces_of_not_decodable h,Piece.sources_raws]

theorem isValid_urlPieces (input : List Char) : IsValid (outs (urlPieces input)) := by
  by_cases h : Decodable input
  · obtain ⟨ps,hscan,hvalid⟩ := decodable_iff.mp h
    rwa [urlPieces_of_scanned hscan hvalid]
  · rw [urlPieces_of_not_decodable h,Piece.outs_raws]
    exact isValid_encode input

/-- Either nothing crosses and the decoder gives up on neither text, or it gives up on both together
and has nothing to decode in the second one, on which it gives up or which holds no escape. -/
def EscapeClean (p s : List Char) : Prop :=
  ¬ Crosses (encode p) (encode s) ∧ Decodable p ∧ Decodable s ∨ ¬ Decodable (p ++ s) ∧ (¬ Decodable s ∨ Unescaped s)

/-- The escapes of a text are decoded as they are alone iff the text before it is clean. -/
theorem urlPieces_suffix_iff (p s : List Char) : urlPieces s <:+ urlPieces (p ++ s) ↔ EscapeClean p s := by
  constructor
  · rintro ⟨q,hq⟩
    have hsource : sources q = encode p := by
      have hall := congrArg sources hq
      rw [Piece.sources_append,sources_urlPieces,sources_urlPieces,encode_append] at hall
      exact List.append_cancel_right hall
    by_cases hall : Decodable (p ++ s)
    · obtain ⟨ps,hscan,hvalid⟩ := decodable_iff.mp hall
      rw [urlPieces_of_scanned hscan hvalid] at hq
      rw [← hq,encode_append] at hscan
      obtain ⟨hp,hs,hcross⟩ := hscan.of_append hsource
      have hright := isValid_urlPieces s
      have hleft : IsValid (outs q) := by
        rw [← hq,Piece.outs_append] at hvalid
        exact isValid_of_append hright hvalid
      exact .inl ⟨hcross,decodable_iff.mpr ⟨q,hp,hleft⟩,decodable_iff.mpr ⟨_,hs,hright⟩⟩
    · refine .inr ⟨hall,?_⟩
      by_cases hs : Decodable s
      · obtain ⟨ps,hscan,hvalid⟩ := decodable_iff.mp hs
        rw [urlPieces_of_not_decodable hall,urlPieces_of_scanned hscan hvalid,encode_append,Piece.raws_append] at hq
        have hraws : ps = raws (encode s) := by
          refine (Solid.cut_eq ?_ hq ?_).2
          · rw [hq]
            exact (Piece.solid_raws _).append (Piece.solid_raws _)
          · rw [hsource,Piece.sources_raws]
        rw [hraws] at hscan
        exact .inr hscan.percentScan_eq
      · exact .inl hs
  · rintro (⟨hcross,hp,hs⟩ | ⟨hall,hs⟩)
    · obtain ⟨ps,hpscan,hpvalid⟩ := decodable_iff.mp hp
      obtain ⟨qs,hsscan,hsvalid⟩ := decodable_iff.mp hs
      have hscan : Scanned (encode (p ++ s)) (ps ++ qs) := by
        rw [encode_append]
        exact hpscan.append hsscan hcross
      have hvalid : IsValid (outs (ps ++ qs)) := by
        rw [Piece.outs_append]
        exact (isValid_append_iff hpvalid).mpr hsvalid
      rw [urlPieces_of_scanned hsscan hsvalid,urlPieces_of_scanned hscan hvalid]
      exact List.suffix_append _ _
    · have hraws : urlPieces s = raws (encode s) := by
        rcases hs with hs | hs
        · exact urlPieces_of_not_decodable hs
        · refine urlPieces_of_scanned (scanned_of_percentScan hs) ?_
          rw [Piece.outs_raws]
          exact isValid_encode s
      rw [hraws,urlPieces_of_not_decodable hall,encode_append,Piece.raws_append]
      exact List.suffix_append _ _

end Percent

section Rules

/-- What the decoder makes of a text, piece by piece, is what it makes of it behind another text. -/
def Transformation.LocalAt (t : Transformation) (p s : List Char) : Prop :=
  match t with
  | .urlDecode => urlPieces s <:+ urlPieces (p ++ s)
  | .htmlEntityDecode => htmlScan none s <:+ htmlScan none (p ++ s)

/-- What the decoder makes of the text in front. -/
def Transformation.front (t : Transformation) (p s : List Char) : List Char :=
  (t.apply (p ++ s)).take ((t.apply (p ++ s)).length - (t.apply s).length)

/-- One decoder after the other treats the text as it does alone, each as the one before left it. -/
def Local : List Transformation → List Char → List Char → Prop
  | [], _, _ => True
  | t :: ts, p, s => t.LocalAt p s ∧ Local ts (t.front p s) (t.apply s)

/-- Every escape and every entity is clear of the text before it, decoder by decoder. -/
def Clean : List Transformation → List Char → List Char → Prop
  | [], _, _ => True
  | .urlDecode :: ts, p, s =>
    EscapeClean p s ∧ Clean ts (Transformation.urlDecode.front p s) (Transformation.urlDecode.apply s)
  | .htmlEntityDecode :: ts, p, s =>
    EntityClean p s ∧ Clean ts (Transformation.htmlEntityDecode.front p s) (Transformation.htmlEntityDecode.apply s)

theorem apply_urlDecode (input : List Char) : Transformation.urlDecode.apply input = fromUtf8Lossy (outs (urlPieces input)) := by
  rw [Transformation.apply]
  by_cases h : Decodable input
  · obtain ⟨ps,hscan,hvalid⟩ := decodable_iff.mp h
    rw [urlPieces_of_scanned hscan hvalid,percentDecode,hscan.percentScan_eq,Option.bind_some,if_pos hvalid]
    rfl
  · rw [urlPieces_of_not_decodable h,Piece.outs_raws,fromUtf8Lossy_of_encode,Option.not_isSome_iff_eq_none.mp h]
    rfl

/-- A decoder that is local decodes the text in front and the text. -/
theorem apply_append {t : Transformation} {p s : List Char} (h : t.LocalAt p s) : t.apply (p ++ s) = t.front p s ++ t.apply s := by
  have hsuffix : t.apply s <:+ t.apply (p ++ s) := by
    cases t with
    | urlDecode =>
      obtain ⟨q,hq⟩ := h
      have hvalid := isValid_urlPieces (p ++ s)
      rw [← hq,Piece.outs_append] at hvalid
      rw [apply_urlDecode,apply_urlDecode,← hq,Piece.outs_append,
        fromUtf8Lossy_append_of_isValid (isValid_of_append (isValid_urlPieces s) hvalid)]
      exact List.suffix_append _ _
    | htmlEntityDecode =>
      obtain ⟨q,hq⟩ := h
      refine ⟨outs q,?_⟩
      rw [Transformation.apply,Transformation.apply,htmlEntityDecode,htmlEntityDecode,← hq,Piece.outs_append]
  obtain ⟨q,hq⟩ := hsuffix
  rw [Transformation.front,← hq]
  simp

/-- Local decoders leave what the rule sees of the text at the end of what it sees. -/
theorem transform_of_local {ts : List Transformation} {p s : List Char} (h : Local ts p s) :
    transform ts s <:+ transform ts (p ++ s) := by
  induction ts generalizing p s with
  | nil => exact List.suffix_append p s
  | cons t ts ih =>
    obtain ⟨hat,hrest⟩ := h
    rw [transform,transform,List.foldl_cons,List.foldl_cons,apply_append hat]
    exact ih hrest

/-- When the decoders of a rule treat a text behind another one as they do alone: exactly when the
text is clean of the other one for each, and then it is seen decoded at the end. -/
theorem local_iff_clean (ts : List Transformation) (p s : List Char) :
    (Local ts p s ↔ Clean ts p s) ∧ (Local ts p s → transform ts s <:+ transform ts (p ++ s)) := by
  refine ⟨?_,transform_of_local⟩
  induction ts generalizing p s with
  | nil => rfl
  | cons t ts ih =>
    cases t with
    | urlDecode => exact and_congr (urlPieces_suffix_iff p s) (ih _ _)
    | htmlEntityDecode => exact and_congr (htmlScan_suffix_iff p s) (ih _ _)

/-- A stray ampersand before an entity, and a byte before an escape that is no text. The rule sees
neither decoded, as `<` is where each stands alone. -/
theorem not_local_behind_stray :
    ¬ Local [.htmlEntityDecode] ['&'] "&lt;".toList ∧ ¬ Local [.urlDecode] "%FF".toList "%3C".toList := by
  constructor
  · rintro ⟨h,-⟩
    have hnot : ¬ htmlScan none "&lt;".toList <:+ htmlScan none (['&'] ++ "&lt;".toList) := by decide
    exact hnot h
  · rintro ⟨h,-⟩
    have hp : Scanned (encode "%FF".toList) [⟨[0x25,0x46,0x46],[0xff]⟩] := .decoded (isValid_encode ['F','F']) rfl .nil
    have hs : Scanned (encode "%3C".toList) [⟨[0x25,0x33,0x43],[0x3c]⟩] := .decoded (isValid_encode ['3','C']) rfl .nil
    rcases (urlPieces_suffix_iff _ _).mp h with ⟨-,hdecodable,-⟩ | ⟨-,hnot | hunescaped⟩
    · obtain ⟨ps,hscan,hvalid⟩ := decodable_iff.mp hdecodable
      obtain rfl := Option.some.inj (hp.percentScan_eq.symm.trans hscan.percentScan_eq)
      have hbyte : IsValid [0xff] := hvalid
      rw [IsValid,fromUtf8Lossy_of_none (by decide)] at hbyte
      cases hbyte
    · exact hnot (decodable_iff.mpr ⟨_,hs,isValid_encode ['<']⟩)
    · rw [Unescaped,hs.percentScan_eq] at hunescaped
      exact absurd (Option.some.inj hunescaped) (by decide)

end Rules
end Dwara.Dataplane.WafDecode
