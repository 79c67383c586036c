import Dwara.Lib.Utf8

/-! A text in UTF-8 read in pieces: a character all of whose bytes are in one piece is read as it
is, one that is cut is read as several others. -/

namespace Dwara.Lib.Utf8

/-- A piece ends behind so many bytes. -/
def Ends (pieces : List Bytes) (k : ℕ) : Prop := ∃ n, (pieces.take n).flatten.length = k

/-- A piece ends within the `i`-th character of the text. -/
def IsCut (pieces : List Bytes) (text : List Char) (i : ℕ) : Prop :=
  ∃ k, Ends pieces k ∧ (encode (text.take i)).length < k ∧ k < (encode (text.take (i + 1))).length

theorem ends_cons {piece : Bytes} {pieces : List Bytes} {k : ℕ} :
    Ends (piece :: pieces) k ↔ k = 0 ∨ ∃ k', Ends pieces k' ∧ k = piece.length + k' := by
  constructor
  · rintro ⟨n,rfl⟩
    cases n with
    | zero => exact .inl rfl
    | succ n => exact .inr ⟨_,⟨n,rfl⟩,by rw [List.take_succ_cons,List.flatten_cons,List.length_append]⟩
  · rintro (rfl | ⟨k',⟨n,rfl⟩,rfl⟩)
    · exact ⟨0,rfl⟩
    · exact ⟨n + 1,by rw [List.take_succ_cons,List.flatten_cons,List.length_append]⟩

/-- What is read of `bs` and of what follows it is read apart, from every byte of `bs` on. -/
def Breaks (bs : Bytes) : Prop := ∀ s t, s <:+ bs → s ≠ [] → fromUtf8Lossy (s ++ t) = fromUtf8Lossy s ++ fromUtf8Lossy t

/-- Pieces split where `front` ends. -/
theorem split_pieces {pieces : List Bytes} {front rest : Bytes} (h : pieces.flatten = front ++ rest) (hbreaks : Breaks front) :
    ∃ before after, before.flatten = front ∧ after.flatten = rest ∧
      (∀ k, k < front.length → (Ends before k ↔ Ends pieces k)) ∧ (∀ k, 0 < k → (Ends after k ↔ Ends pieces (front.length + k))) ∧
      pieces.flatMap fromUtf8Lossy = before.flatMap fromUtf8Lossy ++ after.flatMap fromUtf8Lossy := by
  induction pieces generalizing front with
  | nil =>
    obtain ⟨rfl,rfl⟩ := List.append_eq_nil_iff.mp h.symm
    refine ⟨[],[],rfl,rfl,fun k _ => Iff.rfl,fun k _ => ?_,rfl⟩
    rw [List.length_nil,Nat.zero_add]
  | cons piece pieces ih =>
    rw [List.flatten_cons] at h
    rcases List.append_eq_append_iff.mp h with ⟨more,rfl,hmore⟩ | ⟨more,rfl,rfl⟩
    · obtain ⟨before,after,rfl,rfl,hbefore,hafter,hread⟩ := ih hmore fun s t hs => hbreaks s t (hs.trans (List.suffix_append _ _))
      refine ⟨piece :: before,after,rfl,rfl,fun k hk => ?_,fun k hk => ?_,?_⟩
      · rw [ends_cons,ends_cons]
        rw [List.length_append] at hk
        refine or_congr_right (exists_congr fun k' => and_congr_left fun hk' => hbefore k' (by omega))
      · rw [hafter k hk,ends_cons,List.length_append]
        constructor
        · exact fun hends => .inr ⟨_,hends,by omega⟩
        · rintro (hzero | ⟨k',hends,hk'⟩)
          · omega
          · rw [show before.flatten.length + k = k' by omega]
            exact hends
      · rw [List.flatMap_cons,List.flatMap_cons,hread,List.append_assoc]
    · refine ⟨[front],more :: pieces,by rw [List.flatten_singleton],rfl,fun k hk => ?_,fun k hk => ?_,?_⟩
      · rw [ends_cons,ends_cons,List.length_append]
        refine or_congr_right (iff_of_false ?_ ?_)
        · rintro ⟨k',-,hk'⟩
          omega
        · rintro ⟨k',-,hk'⟩
          omega
      · rw [ends_cons,ends_cons,List.length_append]
        constructor
        · rintro (hzero | ⟨k',hends,hk'⟩)
          · omega
          · exact .inr ⟨k',hends,by omega⟩
        · rintro (hzero | ⟨k',hends,hk'⟩)
          · omega
          · exact .inr ⟨k',hends,by omega⟩
      · rw [List.flatMap_cons,List.flatMap_cons,List.flatMap_cons,List.flatMap_nil,List.append_nil,← List.append_assoc]
        congr 1
        by_cases hempty : front = []
        · rw [hempty,fromUtf8Lossy,List.nil_append,List.nil_append]
        · exact hbreaks front more (List.suffix_refl _) hempty

theorem flatMap_fromUtf8Lossy_ne_nil {pieces : List Bytes} (h : pieces.flatten ≠ []) : pieces.flatMap fromUtf8Lossy ≠ [] := by
  intro hnil
  refine h (List.flatten_eq_nil_iff.mpr fun piece hpiece => ?_)
  by_contra hne
  exact fromUtf8Lossy_ne_nil hne (List.flatMap_eq_nil_iff.mp hnil piece hpiece)

theorem flatMap_fromUtf8Lossy_of_flatten_nil {pieces : List Bytes} (h : pieces.flatten = []) : pieces.flatMap fromUtf8Lossy = [] := by
  refine List.flatMap_eq_nil_iff.mpr fun piece hpiece => ?_
  rw [List.flatten_eq_nil_iff.mp h piece hpiece,fromUtf8Lossy]

/-- Pieces none of which ends within their whole are read as the whole is. -/
theorem read_of_uncut {pieces : List Bytes} (h : ∀ k, Ends pieces k → 0 < k → pieces.flatten.length ≤ k) :
    pieces.flatMap fromUtf8Lossy = fromUtf8Lossy pieces.flatten := by
  induction pieces with
  | nil => rw [List.flatten_nil,fromUtf8Lossy,List.flatMap_nil]
  | cons piece pieces ih =>
    by_cases hpiece : piece = []
    · rw [hpiece,List.flatMap_cons,fromUtf8Lossy,List.nil_append,List.flatten_cons,List.nil_append]
      refine ih fun k hends hk => ?_
      have := h k (ends_cons.mpr (.inr ⟨k,hends,by rw [hpiece,List.length_nil,Nat.zero_add]⟩)) hk
      rw [hpiece,List.flatten_cons,List.nil_append] at this
      exact this
    · have hrest : pieces.flatten = [] := by
        have := h piece.length (ends_cons.mpr (.inr ⟨0,⟨0,rfl⟩,rfl⟩)) (List.length_pos_iff.mpr hpiece)
        rw [List.flatten_cons,List.length_append] at this
        exact List.length_eq_zero_iff.mp (by omega)
      rw [List.flatMap_cons,flatMap_fromUtf8Lossy_of_flatten_nil hrest,List.flatten_cons,hrest,List.append_nil,List.append_nil]

/-- Pieces one of which ends within their whole are read as two characters or more. -/
theorem read_of_cut {pieces : List Bytes} {k : ℕ} (h : Ends pieces k) (hpos : 0 < k) (hlt : k < pieces.flatten.length) :
    2 ≤ (pieces.flatMap fromUtf8Lossy).length := by
  obtain ⟨n,rfl⟩ := h
  have hsplit := List.take_append_drop n pieces
  rw [← hsplit,List.flatten_append,List.length_append] at hlt
  rw [← hsplit,List.flatMap_append,List.length_append]
  have hfront : 0 < ((pieces.take n).flatMap fromUtf8Lossy).length :=
    List.length_pos_iff.mpr (flatMap_fromUtf8Lossy_ne_nil (List.length_pos_iff.mp hpos))
  have hrest : 0 < ((pieces.drop n).flatMap fromUtf8Lossy).length :=
    List.length_pos_iff.mpr (flatMap_fromUtf8Lossy_ne_nil (List.length_pos_iff.mp (by rw [hsplit] at hlt; omega)))
  omega

private theorem isFirstByte_of_range : ∀ n : Fin 256, 0xe0 ≤ UInt8.ofNat n.val → UInt8.ofNat n.val ≤ 0xf4 → (UInt8.ofNat n.val).IsUTF8FirstByte := by
  decide +kernel

private theorem SecondOk.isFirstByte {b c : UInt8} (h : SecondOk b c) : b.IsUTF8FirstByte := by
  have hb : UInt8.ofNat b.toNat = b := UInt8.ofNat_toNat
  have hrange : 0xe0 ≤ b ∧ b ≤ 0xf4 := by
    rcases h with ⟨rfl,-⟩ | ⟨rfl,-⟩ | ⟨rfl,-⟩ | ⟨rfl,-⟩ | ⟨⟨hle,hle',-⟩ | ⟨hle,hle'⟩,-⟩
    · decide
    · decide
    · decide
    · decide
    · exact ⟨UInt8.le_trans (by decide) hle,UInt8.le_trans hle' (by decide)⟩
    · exact ⟨UInt8.le_trans (by decide) hle,UInt8.le_trans hle' (by decide)⟩
  have := isFirstByte_of_range ⟨b.toNat,b.toNat_lt⟩
  dsimp only at this
  rw [hb] at this
  exact this hrange.1 hrange.2

theorem isFirstByte_iff {c : Char} {i : ℕ} {b : UInt8} (h : (String.utf8EncodeChar c)[i]? = some b) : b.IsUTF8FirstByte ↔ i = 0 := by
  obtain ⟨hi,rfl⟩ := List.getElem?_eq_some_iff.mp h
  exact UInt8.isUTF8FirstByte_getElem_utf8EncodeChar

/-- A byte that starts no character is read by itself. -/
theorem fromUtf8Lossy_continuation {b : UInt8} (hb : ¬ b.IsUTF8FirstByte) (bs : Bytes) : fromUtf8Lossy (b :: bs) = '\uFFFD' :: fromUtf8Lossy bs := by
  have hnone : decodeChar (b :: bs) = none := by
    cases hd : decodeChar (b :: bs) with
    | none => rfl
    | some c =>
      obtain ⟨rest,hrest⟩ := eq_append_of_decodeChar hd
      have hpos : 0 < (String.utf8EncodeChar c).length := by
        rw [String.length_utf8EncodeChar]
        exact c.utf8Size_pos
      have hget : (String.utf8EncodeChar c)[0]? = some b := by
        rw [← List.getElem?_append_left hpos,← hrest]
        rfl
      exact absurd ((isFirstByte_iff hget).mpr rfl) hb
  have hlen : invalidLen (b :: bs) = 1 := by
    cases bs with
    | nil => rfl
    | cons c bs => exact if_neg fun h => hb h.isFirstByte
  rw [fromUtf8Lossy_of_none hnone,hlen]
  rfl

theorem fromUtf8Lossy_continuations {s : Bytes} (hs : ∀ b ∈ s, ¬ b.IsUTF8FirstByte) (t : Bytes) :
    fromUtf8Lossy (s ++ t) = fromUtf8Lossy s ++ fromUtf8Lossy t := by
  induction s with
  | nil => rw [fromUtf8Lossy,List.nil_append,List.nil_append]
  | cons b s ih =>
    have hb := hs b List.mem_cons_self
    rw [List.cons_append,fromUtf8Lossy_continuation hb,fromUtf8Lossy_continuation hb,ih fun b' hb' => hs b' (List.mem_cons_of_mem _ hb'),List.cons_append]

theorem breaks_encode (c : Char) : Breaks (String.utf8EncodeChar c) := by
  rintro s t ⟨start,hstart⟩ -
  cases start with
  | nil =>
    rw [List.nil_append] at hstart
    have hall := fromUtf8Lossy_encode c []
    rw [List.append_nil,fromUtf8Lossy] at hall
    rw [hstart,fromUtf8Lossy_encode,hall,List.singleton_append]
  | cons b start =>
    refine fromUtf8Lossy_continuations (fun x hx hfirst => ?_) t
    obtain ⟨i,hi⟩ := List.mem_iff_getElem?.mp hx
    have hget : (String.utf8EncodeChar c)[(b :: start).length + i]? = some x := by
      rw [← hstart,List.getElem?_append_right (Nat.le_add_right _ _),Nat.add_sub_cancel_left]
      exact hi
    have hzero := (isFirstByte_iff hget).mp hfirst
    rw [List.length_cons] at hzero
    omega

theorem length_encode_of_ascii {c : Char} (h : c.toNat < 128) : (String.utf8EncodeChar c).length = 1 := by
  rw [String.length_utf8EncodeChar]
  exact Char.utf8Size_eq_one_iff.mpr (UInt32.le_iff_toNat_le.mpr (Nat.le_of_lt_succ h))

/-- Of pieces of a character of several bytes no ASCII character is read. -/
theorem high_of_mem_read {c d : Char} {pieces : List Bytes} (h : pieces.flatten = String.utf8EncodeChar c)
    (hlen : 2 ≤ (String.utf8EncodeChar c).length) (hd : d ∈ pieces.flatMap fromUtf8Lossy) : 128 ≤ d.toNat := by
  obtain ⟨piece,hpiece,hread⟩ := List.mem_flatMap.mp hd
  rcases mem_fromUtf8Lossy hread with rfl | hbytes
  · decide
  · by_contra hascii
    -- its one byte starts a character, so it starts `c`
    obtain ⟨b,hb⟩ := List.length_eq_one_iff.mp (length_encode_of_ascii (Nat.lt_of_not_le hascii))
    have hfirst : b.IsUTF8FirstByte := (isFirstByte_iff (show (String.utf8EncodeChar d)[0]? = some b by rw [hb]; rfl)).mpr rfl
    have hmem : b ∈ String.utf8EncodeChar c := h ▸ List.mem_flatten.mpr ⟨piece,hpiece,hbytes b (hb ▸ List.mem_singleton_self b)⟩
    obtain ⟨i,hi⟩ := List.mem_iff_getElem?.mp hmem
    obtain rfl := (isFirstByte_iff hi).mp hfirst
    have hc := decodeChar_encode c []
    cases henc : String.utf8EncodeChar c with
    | nil =>
      rw [henc] at hi
      cases hi
    | cons x rest =>
      rw [henc] at hi hlen hc
      cases hi
      have hd' := decodeChar_encode d rest
      rw [hb,List.singleton_append] at hd'
      rw [List.append_nil,hd'] at hc
      cases hc
      rw [hb] at henc
      cases henc
      exact absurd hlen (Nat.lt_irrefl 1)

theorem encode_cons (c : Char) (cs : List Char) : encode (c :: cs) = String.utf8EncodeChar c ++ encode cs := rfl

theorem isCut_zero {pieces : List Bytes} {c : Char} {cs : List Char} :
    IsCut pieces (c :: cs) 0 ↔ ∃ k, Ends pieces k ∧ 0 < k ∧ k < (String.utf8EncodeChar c).length := by
  have htake : (encode ((c :: cs).take (0 + 1))).length = (String.utf8EncodeChar c).length := by
    rw [List.take_succ_cons,List.take_zero,encode_cons,encode,List.flatMap_nil,List.append_nil]
  rw [IsCut,htake]
  rfl

theorem isCut_succ {pieces after : List Bytes} {c : Char} {cs : List Char}
    (h : ∀ k, 0 < k → (Ends after k ↔ Ends pieces ((String.utf8EncodeChar c).length + k))) (i : ℕ) :
    IsCut pieces (c :: cs) (i + 1) ↔ IsCut after cs i := by
  rw [IsCut,IsCut,List.take_succ_cons,List.take_succ_cons,encode_cons,encode_cons,List.length_append,List.length_append]
  constructor
  · rintro ⟨k,hends,hlt,hlt'⟩
    obtain ⟨k',rfl⟩ := Nat.exists_eq_add_of_le (Nat.le_trans (Nat.le_add_right _ _) hlt.le)
    exact ⟨k',(h k' (by omega)).mpr hends,by omega,by omega⟩
  · rintro ⟨k,hends,hlt,hlt'⟩
    exact ⟨_,(h k (by omega)).mp hends,by omega,by omega⟩

/-- What is read for a character: itself, unless a piece ends within it. -/
structure ReadAs (pieces : List Bytes) (text : List Char) (i : ℕ) (c : Char) (r : List Char) : Prop where
  uncut : ¬ IsCut pieces text i → r = [c]
  wide : IsCut pieces text i → 128 ≤ c.toNat
  long : IsCut pieces text i → 2 ≤ r.length
  high : IsCut pieces text i → ∀ d ∈ r, 128 ≤ d.toNat

theorem readAs_zero {pieces before : List Bytes} {c : Char} {cs : List Char} (hflat : before.flatten = String.utf8EncodeChar c)
    (hends : ∀ k, k < (String.utf8EncodeChar c).length → (Ends before k ↔ Ends pieces k)) :
    ReadAs pieces (c :: cs) 0 c (before.flatMap fromUtf8Lossy) := by
  have hlen : IsCut pieces (c :: cs) 0 → 2 ≤ (String.utf8EncodeChar c).length := by
    intro hcut
    obtain ⟨k,-,hpos,hlt⟩ := isCut_zero.mp hcut
    omega
  refine ⟨fun huncut => ?_,fun hcut => ?_,fun hcut => ?_,fun hcut d hd => high_of_mem_read hflat (hlen hcut) hd⟩
  · rw [read_of_uncut fun k hk hpos => ?_,hflat]
    · have hread := fromUtf8Lossy_encode c []
      rw [List.append_nil,fromUtf8Lossy] at hread
      exact hread
    · by_contra hlt
      rw [hflat,Nat.not_le] at hlt
      exact huncut (isCut_zero.mpr ⟨k,(hends k hlt).mp hk,hpos,hlt⟩)
  · by_contra hascii
    have := hlen hcut
    rw [length_encode_of_ascii (Nat.lt_of_not_le hascii)] at this
    omega
  · obtain ⟨k,hk,hpos,hlt⟩ := isCut_zero.mp hcut
    exact read_of_cut ((hends k hlt).mpr hk) hpos (by rw [hflat]; exact hlt)

/-- A text in pieces is read character by character. -/
theorem read_chars {pieces : List Bytes} {text : List Char} (h : pieces.flatten = encode text) :
    ∃ reads : List (List Char), reads.length = text.length ∧ pieces.flatMap fromUtf8Lossy = reads.flatten ∧
      ∀ i c r, text[i]? = some c → reads[i]? = some r → ReadAs pieces text i c r := by
  induction text generalizing pieces with
  | nil => exact ⟨[],rfl,flatMap_fromUtf8Lossy_of_flatten_nil h,fun i c r hc => by cases hc⟩
  | cons c cs ih =>
    obtain ⟨before,after,hbefore,hafter,hends₁,hends₂,hread⟩ := split_pieces h (breaks_encode c)
    obtain ⟨reads,hlength,hreads,hall⟩ := ih hafter
    refine ⟨before.flatMap fromUtf8Lossy :: reads,congrArg (· + 1) hlength,by rw [hread,hreads,List.flatten_cons],fun i d r hd hr => ?_⟩
    cases i with
    | zero =>
      cases hd
      cases hr
      exact readAs_zero hbefore hends₁
    | succ i =>
      rw [List.getElem?_cons_succ] at hd hr
      have hrest := hall i d r hd hr
      have hcut : IsCut pieces (c :: cs) (i + 1) ↔ IsCut after cs i := isCut_succ hends₂ i
      exact ⟨fun hn => hrest.uncut (mt hcut.mpr hn),fun hy => hrest.wide (hcut.mp hy),fun hy => hrest.long (hcut.mp hy),
        fun hy => hrest.high (hcut.mp hy)⟩

/-- Bytes that are the encoding of a text. -/
def IsValid (bs : Bytes) : Prop := encode (fromUtf8Lossy bs) = bs

instance (bs : Bytes) : Decidable (IsValid bs) := inferInstanceAs (Decidable (_ = _))

theorem encode_append (cs ds : List Char) : encode (cs ++ ds) = encode cs ++ encode ds := List.flatMap_append

theorem isValid_encode (cs : List Char) : IsValid (encode cs) := congrArg encode (fromUtf8Lossy_of_encode cs)

theorem isValid_iff {bs : Bytes} : IsValid bs ↔ ∃ cs, bs = encode cs :=
  ⟨fun h => ⟨fromUtf8Lossy bs,h.symm⟩,fun ⟨cs,hcs⟩ => hcs ▸ isValid_encode cs⟩

theorem fromUtf8Lossy_append_of_isValid {bs : Bytes} (h : IsValid bs) (rest : Bytes) :
    fromUtf8Lossy (bs ++ rest) = fromUtf8Lossy bs ++ fromUtf8Lossy rest := by
  obtain ⟨cs,rfl⟩ := isValid_iff.mp h
  rw [fromUtf8Lossy_encode_append,fromUtf8Lossy_of_encode]

/-- What comes before a valid text is valid if the whole is: a character ends where another one starts. -/
theorem isValid_of_append {bs rest : Bytes} (hrest : IsValid rest) (h : IsValid (bs ++ rest)) : IsValid bs := by
  obtain ⟨ds,rfl⟩ := isValid_iff.mp hrest
  obtain ⟨es,hes⟩ := isValid_iff.mp h
  refine isValid_iff.mpr ?_
  clear h hrest
  induction es generalizing bs with
  | nil => exact ⟨[],(List.append_eq_nil_iff.mp hes).1⟩
  | cons e es ih =>
    rw [encode_cons] at hes
    rcases List.append_eq_append_iff.mp hes with ⟨tail,hchar,hds⟩ | ⟨tail,rfl,htail⟩
    · cases bs with
      | nil => exact ⟨[],rfl⟩
      | cons b bs =>
        -- the rest would start within a character
        cases ds with
        | nil => exact ⟨e :: es,by rw [encode_cons,← hes]; exact (List.append_nil _).symm⟩
        | cons d ds =>
          have hpos : 0 < (String.utf8EncodeChar d).length := by
            rw [String.length_utf8EncodeChar]
            exact d.utf8Size_pos
          obtain ⟨x,hx⟩ : ∃ x, (String.utf8EncodeChar d)[0]? = some x := ⟨_,List.getElem?_eq_getElem hpos⟩
          have hfirst : x.IsUTF8FirstByte := (isFirstByte_iff hx).mpr rfl
          cases tail with
          | nil => exact ⟨[e],by rw [List.append_nil] at hchar; rw [encode_cons,hchar]; exact (List.append_nil _).symm⟩
          | cons t tail =>
            have htx : t = x := by
              rw [encode_cons] at hds
              have hget := congrArg (·[0]?) hds
              simp only [List.getElem?_append_left hpos,hx] at hget
              exact (Option.some.inj hget).symm
            have hget : (String.utf8EncodeChar e)[(b :: bs).length]? = some x := by
              rw [hchar,List.getElem?_append_right (Nat.le_refl _),Nat.sub_self,htx]
              rfl
            exact absurd ((isFirstByte_iff hget).mp hfirst) (Nat.succ_ne_zero _)
    · obtain ⟨cs,rfl⟩ := ih htail.symm
      exact ⟨e :: cs,rfl⟩

theorem isValid_append_iff {bs rest : Bytes} (h : IsValid bs) : IsValid (bs ++ rest) ↔ IsValid rest := by
  obtain ⟨cs,rfl⟩ := isValid_iff.mp h
  constructor
  · intro hall
    rw [IsValid,fromUtf8Lossy_append_of_isValid h,encode_append,fromUtf8Lossy_of_encode] at hall
    exact List.append_cancel_left hall
  · intro hrest
    obtain ⟨ds,rfl⟩ := isValid_iff.mp hrest
    exact encode_append cs ds ▸ isValid_encode (cs ++ ds)

/-- A character of ASCII is its own byte. -/
theorem encodeChar_ascii {c : Char} (h : c.toNat < 128) : String.utf8EncodeChar c = [UInt8.ofNat c.toNat] := by
  rw [String.utf8EncodeChar]
  exact if_pos (by change c.toNat ≤ 127; omega)

/-- The bytes of another character are all beyond ASCII, and more than one. -/
theorem encodeChar_high {c : Char} (h : 128 ≤ c.toNat) :
    ∃ b b' bs, String.utf8EncodeChar c = b :: b' :: bs ∧ ∀ d ∈ b :: b' :: bs, 128 ≤ d.toNat := by
  have hlt : c.toNat < 1114112 := by
    have hvalid : c.toNat < 55296 ∨ 57343 < c.toNat ∧ c.toNat < 1114112 := c.valid
    omega
  have hval : c.val.toNat = c.toNat := rfl
  rw [String.utf8EncodeChar]
  simp only [hval]
  split
  · omega
  split
  · refine ⟨_,_,_,rfl,?_⟩
    simp only [List.mem_cons,List.not_mem_nil,or_false,forall_eq_or_imp,forall_eq,UInt8.toNat_ofNat']
    omega
  split
  · refine ⟨_,_,_,rfl,?_⟩
    simp only [List.mem_cons,List.not_mem_nil,or_false,forall_eq_or_imp,forall_eq,UInt8.toNat_ofNat']
    omega
  · refine ⟨_,_,_,rfl,?_⟩
    simp only [List.mem_cons,List.not_mem_nil,or_false,forall_eq_or_imp,forall_eq,UInt8.toNat_ofNat']
    omega

/-- A test of bytes that asks of a character's bytes what another one asks of the character. -/
def Tests (p : UInt8 → Bool) (q : Char → Bool) : Prop :=
  ∀ c, (q c = true → ∀ b ∈ String.utf8EncodeChar c, p b = true) ∧ (q c = false → ∃ b bs, String.utf8EncodeChar c = b :: bs ∧ p b = false)

/-- Bytes are taken off a text as its characters are. -/
theorem span_encode {p : UInt8 → Bool} {q : Char → Bool} (h : Tests p q) (cs : List Char) :
    (encode cs).takeWhile p = encode (cs.takeWhile q) ∧ (encode cs).dropWhile p = encode (cs.dropWhile q) := by
  induction cs with
  | nil => exact ⟨rfl,rfl⟩
  | cons c cs ih =>
    rw [encode_cons]
    cases hc : q c with
    | true =>
      have hall := (h c).1 hc
      rw [List.takeWhile_append_of_pos hall,List.dropWhile_append_of_pos hall,ih.1,ih.2,List.takeWhile_cons_of_pos hc,
        List.dropWhile_cons_of_pos hc]
      exact ⟨rfl,rfl⟩
    | false =>
      obtain ⟨b,bs,henc,hb⟩ := (h c).2 hc
      rw [henc,List.cons_append,List.takeWhile_cons_of_neg (by simp [hb]),List.dropWhile_cons_of_neg (by simp [hb]),
        List.takeWhile_cons_of_neg (by simp [hc]),List.dropWhile_cons_of_neg (by simp [hc]),encode_cons,henc]
      exact ⟨rfl,rfl⟩

end Dwara.Lib.Utf8
