import Dwara.Dataplane.GraphqlScan

/-! When the scanner tells of no less depth and cost than a query has. -/

namespace Dwara.Dataplane.GraphqlCheck
open Dwara.Lib Dwara.Lib.Graphql Dwara.Lib.Utf8
variable (costPerField : List (String × UInt64)) (coefficient : UInt64)

def fieldCost (name : List Char) : UInt64 := (costPerField.lookup (String.ofList name)).getD coefficient

/-- What fields cost together. -/
def fieldsCost (names : List (List Char)) : ℕ := (names.map fun name => (fieldCost costPerField coefficient name).toNat).sum

/-- No field with the name of a keyword costs anything. -/
def KeywordsFree (names : List (List Char)) : Prop :=
  ∀ name ∈ names, isKeyword (String.ofList name) = true → fieldCost costPerField coefficient name = 0

/-- What is told of a query is no less than what its lexemes have. -/
structure NeverUnder (ls : List Lexeme) (scanned : ℕ × UInt64) : Prop where
  depth : braceNesting ls ≤ scanned.1 ∨ scanned.1 = parseDepthCap + 1
  complexity : fieldsCost costPerField coefficient (fieldNames ls) ≤ scanned.2.toNat

/-- The scanner reads the lexemes it is given and can count what they have. -/
structure Countable (ls : List Lexeme) : Prop where
  comments : commentsLast ls = true
  blocks : blocksPlain ls
  brackets : closed {} ls = true
  nesting : nesting ls ≤ parseDepthCap
  keywords : KeywordsFree costPerField coefficient (fieldNames ls)
  fits : fieldsCost costPerField coefficient (fieldNames ls) < 2^64

section Run
variable {costPerField : List (String × UInt64)} {coefficient : UInt64} {o : Scope} {role : Role} {s s' : ScanState} {ls : List Lexeme}

@[simp] theorem fieldsCost_nil : fieldsCost costPerField coefficient [] = 0 := rfl

theorem fieldsCost_append (xs ys : List (List Char)) :
    fieldsCost costPerField coefficient (xs ++ ys) = fieldsCost costPerField coefficient xs + fieldsCost costPerField coefficient ys := by
  rw [fieldsCost,List.map_append,List.sum_append]
  rfl

theorem fieldsCost_singleton (name : List Char) :
    fieldsCost costPerField coefficient [name] = (fieldCost costPerField coefficient name).toNat := List.sum_singleton

/-- The state agrees with what is open. -/
structure Agrees (o : Scope) (s : ScanState) : Prop where
  depth : s.depth = o.total
  maxDepth : s.depth ≤ s.maxDepth

/-- From one state to the next nothing is lost, and the fields named are paid for. -/
structure Keeps (costPerField : List (String × UInt64)) (coefficient : UInt64) (o : Scope) (names : List (List Char))
    (s s' : ScanState) : Prop where
  agrees : Agrees o s'
  maxDepth : s.maxDepth ≤ s'.maxDepth
  complexity : KeywordsFree costPerField coefficient names →
    min (s.complexity.toNat + fieldsCost costPerField coefficient names) (2^64 - 1) ≤ s'.complexity.toNat

/-- What is told behind a state covers the state and what is left. -/
structure Counts (costPerField : List (String × UInt64)) (coefficient : UInt64) (o : Scope) (role : Role) (ls : List Lexeme)
    (s : ScanState) (scanned : ℕ × UInt64) : Prop where
  depth : max s.maxDepth (peak Scope.braces o ls) ≤ scanned.1 ∨ scanned.1 = parseDepthCap + 1
  complexity : peak Scope.total o ls ≤ parseDepthCap → KeywordsFree costPerField coefficient (fieldNamesFrom o role ls) →
    min (s.complexity.toNat + fieldsCost costPerField coefficient (fieldNamesFrom o role ls)) (2^64 - 1) ≤ scanned.2.toNat

theorem Keeps.refl (h : Agrees o s) : Keeps costPerField coefficient o [] s s where
  agrees := h
  maxDepth := le_rfl
  complexity _ := by simp

/-- One lexeme that is kept, before all others. -/
theorem Counts.cons {a : Lexeme} {scanned : ℕ × UInt64} (hs : Agrees o s)
    (hkeeps : Keeps costPerField coefficient (o.step a) (selected o role ls a) s s')
    (h : Counts costPerField coefficient (o.step a) (role.step a) ls s' scanned) :
    Counts costPerField coefficient o role (a :: ls) s scanned where
  depth := by
    refine h.depth.imp_left fun hdepth => ?_
    have hopen : o.braces ≤ s.maxDepth := by
      have hle := hs.maxDepth
      rw [hs.depth,Scope.total] at hle
      omega
    have hmax := hkeeps.maxDepth
    rw [peak]
    omega
  complexity hpeak hfree := by
    rw [fieldNamesFrom] at hfree ⊢
    have hpaid := hkeeps.complexity fun name hname => hfree name (List.mem_append_left _ hname)
    have hrest := h.complexity ((peak_step_le _ _ _ _).trans hpeak) fun name hname => hfree name (List.mem_append_right _ hname)
    rw [fieldsCost_append]
    omega

theorem Counts.silent (pre : List Lexeme) {scanned : ℕ × UInt64} (hs : Agrees o s) (hpre : ∀ a ∈ pre, a.isSilent = true)
    (h : Counts costPerField coefficient o role ls s scanned) : Counts costPerField coefficient o role (pre ++ ls) s scanned := by
  induction pre with
  | nil => exact h
  | cons a pre ih =>
    have ha := hpre a List.mem_cons_self
    have hrest := ih fun b hb => hpre b (List.mem_cons_of_mem a hb)
    refine Counts.cons hs (?_ : Keeps _ _ _ _ s s) ?_
    · rw [Scope.step_silent ha,selected_silent ha]
      exact Keeps.refl hs
    · rw [Scope.step_silent ha,Role.step_silent ha]
      exact hrest

theorem ScanState.name_depth (s : ScanState) (name : String) : (s.name costPerField coefficient name).depth = s.depth := by
  rw [ScanState.name]
  split <;> rfl

theorem ScanState.name_maxDepth (s : ScanState) (name : String) : (s.name costPerField coefficient name).maxDepth = s.maxDepth := by
  rw [ScanState.name]
  split <;> rfl

theorem Agrees.name (costPerField : List (String × UInt64)) (coefficient : UInt64) (h : Agrees o s) (name : String) :
    Agrees o (s.name costPerField coefficient name) where
  depth := (s.name_depth name).trans h.depth
  maxDepth := by
    rw [s.name_depth,s.name_maxDepth]
    exact h.maxDepth

/-- A name is never refunded, and a field is paid for unless a keyword hides it. -/
theorem Keeps.name (h : Agrees o s) {t : List Char} {names : List (List Char)} (hnames : names = [] ∨ names = [t] ∧ 0 < o.braces) :
    Keeps costPerField coefficient o names s (s.name costPerField coefficient (String.ofList t)) where
  agrees := h.name _ _ _
  maxDepth := (s.name_maxDepth _).ge
  complexity hfree := by
    rw [ScanState.name]
    obtain rfl | ⟨rfl,hopen⟩ := hnames
    · rw [fieldsCost_nil]
      split
      · omega
      · rw [U64.toNat_saturatingAdd]
        omega
    · have hdepth : s.depth ≠ 0 := by
        rw [h.depth,Scope.total]
        omega
      rw [fieldsCost_singleton]
      split
      · rename_i hfree'
        have hzero := hfree t (List.mem_singleton_self t) (hfree'.resolve_right hdepth)
        rw [hzero,UInt64.toNat_zero]
        omega
      · rw [U64.toNat_saturatingAdd]
        exact le_rfl

theorem Keeps.trans {s'' : ScanState} {names : List (List Char)} (h : Keeps costPerField coefficient o [] s s')
    (h' : Keeps costPerField coefficient o names s' s'') : Keeps costPerField coefficient o names s s'' where
  agrees := h'.agrees
  maxDepth := h.maxDepth.trans h'.maxDepth
  complexity hfree := by
    have hfirst := h.complexity fun name hname => absurd hname List.not_mem_nil
    have hsecond := h'.complexity hfree
    rw [fieldsCost_nil] at hfirst
    omega

theorem scanText_spread (cs : List Char) :
    scanText costPerField coefficient s ('.' :: '.' :: '.' :: cs) = scanText costPerField coefficient s cs := by
  rw [scanText_cons,if_neg (by decide),if_neg (by decide),if_neg (by decide),if_neg (by decide),if_pos ⟨rfl,rfl⟩]
  rfl

private theorem head?_of_take {n : ℕ} {d : Char} {cs rest : List Char} (h : cs.take (n + 1) = d :: rest) : cs.head? = some d := by
  cases cs with
  | nil =>
    rw [List.take_nil] at h
    cases h
  | cons e cs => exact congrArg some (List.cons.inj h).1

/-- In a number the scanner reads names, and pays for them, but nothing else. -/
theorem scanText_number (costPerField : List (String × UInt64)) (coefficient : UInt64) {t r : List Char}
    (hall : ∀ c ∈ t, Graphql.isNameChar c = true ∨ c ∈ ['-','+','.']) (hr : r.head?.any isNumberFollow = false) (h : Agrees o s) :
    ∃ s', scanText costPerField coefficient s (t ++ r) = scanText costPerField coefficient s' r ∧
      Keeps costPerField coefficient o [] s s' := by
  have hend : r.head?.any Graphql.isNameChar = false := by
    cases r with
    | nil => rfl
    | cons d r =>
      have hd : isNumberFollow d = false := hr
      cases hname : Graphql.isNameChar d with
      | false => exact hname
      | true => exact absurd (isNumberFollow_of_isNameChar hname) (by simp [hd])
  have hdot : r.head? ≠ some '.' := by
    intro hhead
    rw [hhead] at hr
    exact absurd hr (by decide)
  induction hlen : t.length using Nat.strong_induction_on generalizing t s with
  | h n ih =>
    subst hlen
    cases t with
    | nil => exact ⟨s,rfl,Keeps.refl h⟩
    | cons c t =>
      have ht := fun d hd => hall d (List.mem_cons_of_mem c hd)
      by_cases hstart : Graphql.isNameStart c = true
      · -- the exponent and what stands behind it is read as a name
        have hsub := List.dropWhile_sublist Graphql.isNameChar (l := t)
        have hname : isName (c :: t.takeWhile Graphql.isNameChar) = true := by
          rw [isName,hstart]
          exact List.all_eq_true.mpr fun d hd => List.mem_takeWhile_imp hd
        have hhead : (t.dropWhile Graphql.isNameChar ++ r).head?.any Graphql.isNameChar = false := by
          have hdrop := head_dropWhile Graphql.isNameChar t
          cases hrest : t.dropWhile Graphql.isNameChar with
          | nil => exact hend
          | cons d ds =>
            rw [hrest] at hdrop
            exact hdrop
        obtain ⟨s',hs',hkeeps⟩ := ih _ (Nat.lt_succ_of_le hsub.length_le) (fun d hd => ht d (hsub.subset hd))
          (h.name costPerField coefficient (String.ofList (c :: t.takeWhile Graphql.isNameChar))) rfl
        have hsplit : c :: t = c :: t.takeWhile Graphql.isNameChar ++ t.dropWhile Graphql.isNameChar := by
          rw [List.cons_append,List.takeWhile_append_dropWhile]
        refine ⟨s',?_,(Keeps.name h (.inl rfl)).trans hkeeps⟩
        rw [hsplit,List.append_assoc,scanText_name hname hhead,hs']
      · have hnot : Graphql.isNameStart c = false := by simpa using hstart
        have hstops : c ∉ stops := by
          intro hmem
          obtain hc | hc := hall c List.mem_cons_self
          · have hall' : ∀ d ∈ stops, Graphql.isNameChar d = false := List.all_iff_forall_prop.mp (by decide)
            exact absurd hc (by simp [hall' c hmem])
          · have hall' : ∀ d ∈ stops, d ∉ ['-','+','.'] := List.all_iff_forall_prop.mp (by decide)
            exact hall' c hmem hc
        by_cases hdots : c = '.' ∧ (t ++ r).take 2 = ['.','.']
        · obtain ⟨rfl,htwo⟩ := hdots
          cases t with
          | nil => exact absurd (head?_of_take htwo) hdot
          | cons d t =>
            obtain ⟨rfl,hrest⟩ := List.cons.inj htwo
            cases t with
            | nil => exact absurd (head?_of_take hrest) hdot
            | cons e t =>
              obtain ⟨rfl,-⟩ := List.cons.inj hrest
              obtain ⟨s',hs',hkeeps⟩ := ih t.length (by simp only [List.length_cons]; omega) (fun d hd => ht d (by simp [hd])) h rfl
              exact ⟨s',(scanText_spread _).trans hs',hkeeps⟩
        · obtain ⟨s',hs',hkeeps⟩ := ih t.length (Nat.lt_succ_self _) ht h rfl
          exact ⟨s',(scanText_other hstops hdots hnot).trans hs',hkeeps⟩

/-- An opening bracket that is not too deep. -/
theorem Keeps.opening {o' : Scope} (h : Agrees o s) (ho : o'.total = o.total + 1) :
    Keeps costPerField coefficient o' [] s { s with depth := s.depth + 1, maxDepth := max s.maxDepth (s.depth + 1) } where
  agrees := ⟨by rw [ho,h.depth],le_max_right _ _⟩
  maxDepth := le_max_left _ _
  complexity _ := by simp

theorem Keeps.closing {o' : Scope} (h : Agrees o s) (ho : o'.total = o.total - 1) :
    Keeps costPerField coefficient o' [] s { s with depth := s.depth - 1 } where
  agrees := ⟨by rw [ho,h.depth],(Nat.sub_le _ _).trans h.maxDepth⟩
  maxDepth := le_rfl
  complexity _ := by simp

private theorem ignored_other {c : Char} (h : isIgnored c = true) : c ∉ stops ∧ c ≠ '.' ∧ Graphql.isNameChar c = false := by
  refine ⟨fun hmem => ?_,?_,?_⟩
  · have hall : ∀ d ∈ stops, isIgnored d = false := List.all_iff_forall_prop.mp (by decide)
    exact absurd h (by simp [hall c hmem])
  · rintro rfl
    exact absurd h (by decide)
  · cases hname : Graphql.isNameChar c with
    | false => rfl
    | true =>
      simp only [isIgnored,isLineEnd,Bool.or_eq_true,beq_iff_eq] at h
      obtain ((((rfl | rfl) | (rfl | rfl)) | rfl) | hbom) := h
      · exact absurd hname (by decide)
      · exact absurd hname (by decide)
      · exact absurd hname (by decide)
      · exact absurd hname (by decide)
      · exact absurd hname (by decide)
      · exact absurd hname (by simp [isNameChar_of_high (c := c) (by omega)])

private theorem isNameStart_eq_false {c : Char} (h : Graphql.isNameChar c = false) : Graphql.isNameStart c = false := by
  cases hstart : Graphql.isNameStart c with
  | false => rfl
  | true => exact absurd (isNameChar_of_isNameStart hstart) (by simp [h])

/-- A string is not taken for a block string. -/
private theorem skipQuoted_string {raw r : List Char} (h : lexString .plain (raw ++ '"' :: r) = some (raw,r))
    (hr : r.head?.any (Lexeme.string raw).joins = false) :
    skipQuoted (encode (raw ++ '"' :: r)) = skipString (encode (raw ++ '"' :: r)) := by
  unfold skipQuoted
  split
  · rename_i a b rest heq
    rw [if_neg,heq]
    rintro ⟨rfl,rfl⟩
    have htwo : (raw ++ '"' :: r).take 2 = ['"','"'] := (take_two (by decide)).mp (by rw [heq]; rfl)
    cases raw with
    | nil =>
      cases r with
      | nil => exact nomatch htwo
      | cons d r =>
        obtain rfl := (List.cons.inj (List.cons.inj htwo).2).1
        exact nomatch hr
    | cons c raw =>
      obtain rfl := (List.cons.inj htwo).1
      exact nomatch h
  · rfl

private theorem number_chars {t : List Char} (h : isNumber t = true) {c : Char} (hc : c ∈ t) :
    Graphql.isNameChar c = true ∨ c ∈ ['-','+','.'] := by
  obtain hdigit | hc := mem_number h hc
  · exact .inl (by simp [Graphql.isNameChar,Char.isAlphanum,hdigit])
  · simp only [List.mem_cons,List.not_mem_nil,or_false] at hc ⊢
    obtain rfl | rfl | rfl | rfl | rfl := hc
    · exact .inr (.inl rfl)
    · exact .inr (.inr (.inl rfl))
    · exact .inr (.inr (.inr rfl))
    · exact .inl (by decide)
    · exact .inl (by decide)

/-- What the scanner reads at a lexeme that is neither a comment nor the start of a directive. -/
theorem scanText_lexeme (costPerField : List (String × UInt64)) (coefficient : UInt64) (role : Role) (ls : List Lexeme)
    {a : Lexeme} (ha : a.Valid) {r : List Char} (hr : r.head?.any a.joins = false)
    (hcomment : ∀ t, a ≠ .comment t) (hdirective : a ≠ .punctuator '@')
    (hblock : ∀ raw, a = .blockString raw → ¬ ['\\','"','"','"'] <:+: raw) (hcloses : o.closes a = true) (h : Agrees o s) :
    (scanText costPerField coefficient s (a.text ++ r) = (parseDepthCap + 1,s.complexity) ∧ parseDepthCap < (o.step a).total) ∨
      ∃ s', scanText costPerField coefficient s (a.text ++ r) = scanText costPerField coefficient s' r ∧
        Keeps costPerField coefficient (o.step a) (selected o role ls a) s s' := by
  have htotal := Scope.total_step hcloses
  cases a with
  | ignored c =>
    obtain ⟨hstops,hdot,hname⟩ := ignored_other ha
    exact .inr ⟨s,scanText_other hstops (fun hdots => hdot hdots.1) (isNameStart_eq_false hname),Keeps.refl h⟩
  | comment t => exact absurd rfl (hcomment t)
  | punctuator c =>
    by_cases hopen : c = '\x7b' ∨ c = '('
    · rw [if_pos (by simpa using hopen)] at htotal
      have hscan : scanText costPerField coefficient s (c :: r) = if parseDepthCap < s.depth + 1 then (parseDepthCap + 1,s.complexity)
          else scanText costPerField coefficient { s with depth := s.depth + 1, maxDepth := max s.maxDepth (s.depth + 1) } r := by
        rw [scanText_cons,if_neg (by rintro rfl; simp at hopen),if_neg (by rintro rfl; simp at hopen),if_pos hopen]
      change (scanText costPerField coefficient s (c :: r) = _ ∧ _) ∨ ∃ s', scanText costPerField coefficient s (c :: r) = _ ∧ _
      rw [hscan]
      by_cases hdeep : parseDepthCap < s.depth + 1
      · rw [if_pos hdeep,htotal,← h.depth]
        exact .inl ⟨rfl,hdeep⟩
      · rw [if_neg hdeep]
        exact .inr ⟨_,rfl,Keeps.opening h htotal⟩
    · rw [if_neg (by simpa using hopen)] at htotal
      by_cases hclose : c = '\x7d' ∨ c = ')'
      · rw [if_pos (by simpa using hclose)] at htotal
        refine .inr ⟨_,?_,Keeps.closing h htotal⟩
        change scanText costPerField coefficient s (c :: r) = _
        rw [scanText_cons,if_neg (by rintro rfl; simp at hclose),if_neg (by rintro rfl; simp at hclose),if_neg hopen,if_pos hclose]
      · rw [if_neg (by simpa using hclose)] at htotal
        have hat : c ≠ '@' := fun hc => hdirective (congrArg _ hc)
        have hmem : c ∈ ['!','$','&',':','=','[',']','|'] := by
          have hc : isPunctuator c = true := ha
          simp only [isPunctuator,List.contains_eq_mem,List.mem_cons,List.not_mem_nil,or_false,decide_eq_true_eq] at hc ⊢
          tauto
        have hall : ∀ d ∈ ['!','$','&',':','=','[',']','|'], d ∉ stops ∧ d ≠ '.' ∧ Graphql.isNameStart d = false :=
          List.all_iff_forall_prop.mp (by decide)
        obtain ⟨hstops,hdot,hstart⟩ := hall c hmem
        exact .inr ⟨s,scanText_other hstops (fun hdots => hdot hdots.1) hstart,⟨⟨by rw [htotal,h.depth],h.maxDepth⟩,le_rfl,fun _ => by
          simp [selected]⟩⟩
  | spread => exact .inr ⟨s,scanText_spread r,Keeps.refl h⟩
  | name t =>
    refine .inr ⟨_,scanText_name ha hr,Keeps.name h ?_⟩
    rw [selected]
    split
    · rename_i hsel
      exact .inr ⟨rfl,hsel.1⟩
    · exact .inl rfl
  | reference t =>
    refine .inr ⟨_,?_,Keeps.name h (t := t) (.inl rfl)⟩
    change scanText costPerField coefficient s ('$' :: (t ++ r)) = _
    rw [scanText_other (by decide) (fun hdots => absurd hdots.1 (by decide)) (by decide),scanText_name ha hr]
  | number t =>
    obtain ⟨s',hs',hkeeps⟩ := scanText_number costPerField coefficient (t := t)
      (fun c hc => number_chars ha hc) hr h
    exact .inr ⟨s',hs',hkeeps⟩
  | string raw =>
    refine .inr ⟨s,?_,Keeps.refl h⟩
    have hlex : lexString .plain (raw ++ '"' :: r) = some (raw,r) := ha r
    have hskip := skipString_of_lexString hlex
    rw [if_neg (by decide)] at hskip
    have htext : (Lexeme.string raw).text ++ r = '"' :: (raw ++ '"' :: r) := by simp [Lexeme.text]
    rw [htext,scanText_cons,if_neg (by decide),if_pos rfl,skipQuoted_string hlex hr,hskip]
    rfl
  | blockString raw =>
    refine .inr ⟨s,?_,Keeps.refl h⟩
    have hlex : lexBlockString 0 (raw ++ ['"','"','"'] ++ r) = some (raw,r) := ha r
    have hskip := skipBlock_of_lexBlockString hlex (hblock raw rfl)
    have htext : (Lexeme.blockString raw).text ++ r = '"' :: '"' :: '"' :: (raw ++ ['"','"','"'] ++ r) := by simp [Lexeme.text]
    rw [htext,scanText_cons,if_neg (by decide),if_pos rfl]
    change scanRest costPerField coefficient s (skipQuoted ('"'.toUInt8 :: '"'.toUInt8 :: encode (raw ++ ['"','"','"'] ++ r))) = _
    rw [skipQuoted,if_pos ⟨rfl,rfl⟩,hskip]
    rfl

/-- What the scanner needs of the lexemes that are left. -/
structure Readable (o : Scope) (ls : List Lexeme) : Prop where
  spaced : WellSpaced ls
  comments : commentsLast ls = true
  blocks : blocksPlain ls
  brackets : closed o ls = true

theorem Readable.tail {a : Lexeme} (h : Readable o (a :: ls)) : Readable (o.step a) ls where
  spaced := (wellSpaced_cons.mp h.spaced).2.2
  comments := by
    have hcomments := h.comments
    cases a with
    | comment t => exact (Bool.and_eq_true_iff.mp hcomments).2
    | _ => exact hcomments
  blocks := fun raw hraw => h.blocks raw (List.mem_cons_of_mem a hraw)
  brackets := (Bool.and_eq_true_iff.mp h.brackets).2

theorem Readable.drop {pre : List Lexeme} (hpre : ∀ a ∈ pre, a.isSilent = true) (h : Readable o (pre ++ ls)) : Readable o ls := by
  induction pre with
  | nil => exact h
  | cons a pre ih =>
    have htail := h.tail
    rw [Scope.step_silent (hpre a List.mem_cons_self)] at htail
    exact ih (fun b hb => hpre b (List.mem_cons_of_mem a hb)) htail

/-- A line of nothing but comments and white space is dropped with its lexemes. -/
private theorem dropWhile_render (hspaced : WellSpaced ls) (hsilent : ∀ a ∈ restOfLine ls, a.isSilent = true) :
    (render ls).dropWhile (· ≠ '\n') = render (ls.dropWhile (· ≠ .ignored '\n')) := by
  induction ls with
  | nil => rfl
  | cons a ls ih =>
    obtain ⟨ha,-,hrest⟩ := wellSpaced_cons.mp hspaced
    by_cases hline : a = .ignored '\n'
    · subst hline
      rfl
    · rw [restOfLine,List.takeWhile_cons_of_pos (by simpa using hline)] at hsilent
      have hchars : ∀ c ∈ a.text, c ≠ '\n' := by
        have hquiet := hsilent a List.mem_cons_self
        cases a with
        | ignored c =>
          intro d hd
          obtain rfl := List.mem_singleton.mp hd
          rintro rfl
          exact hline rfl
        | comment t =>
          intro d hd
          obtain rfl | hd := List.mem_cons.mp hd
          · decide
          · rintro rfl
            exact absurd (ha _ hd) (by decide)
        | _ => exact nomatch hquiet
      rw [render_cons,List.dropWhile_append_of_pos (by simpa using hchars),List.dropWhile_cons_of_pos (by simpa using hline),
        ih hrest fun b hb => hsilent b (List.mem_cons_of_mem a hb)]

/-- Of the lexemes only names and numbers start with a character of names. -/
private theorem head_not_name {a : Lexeme} (ha : a.Valid) (hname : ∀ t, a ≠ .name t) (hnumber : ∀ t, a ≠ .number t) (r : List Char) :
    (a.text ++ r).head?.any Graphql.isNameChar = false := by
  cases a with
  | ignored c => exact (ignored_other ha).2.2
  | punctuator c =>
    have hall : ∀ d ∈ ['!','$','&','(',')',':','=','@','[',']','\x7b','|','\x7d'], Graphql.isNameChar d = false :=
      List.all_iff_forall_prop.mp (by decide)
    exact hall c (by simpa [Lexeme.Valid,isPunctuator] using ha)
  | name t => exact absurd rfl (hname t)
  | number t => exact absurd rfl (hnumber t)
  | _ => rfl

/-- Behind `@` the scanner skips what could be the name of a directive, and counts the rest. -/
private theorem counts_directive (h : Readable o (.punctuator '@' :: ls)) (hs : Agrees o s)
    (ih : ∀ ls' (role : Role) (s' : ScanState), ls'.length ≤ ls.length → Readable o ls' → Agrees o s' →
      Counts costPerField coefficient o role ls' s' (scanText costPerField coefficient s' (render ls'))) :
    Counts costPerField coefficient o role (.punctuator '@' :: ls) s (scanText costPerField coefficient s (render (.punctuator '@' :: ls))) := by
  have hrole : role.step (.punctuator '@') = .directive := by cases role <;> rfl
  have htail : Readable o ls := h.tail
  have hscan : scanText costPerField coefficient s (render (.punctuator '@' :: ls)) =
      scanText costPerField coefficient s ((render ls).dropWhile Graphql.isNameChar) := by
    change scanText costPerField coefficient s ('@' :: render ls) = _
    rw [scanText_cons,if_neg (by decide),if_neg (by decide),if_neg (by decide),if_neg (by decide),
      if_neg (fun hdots => absurd hdots.1 (by decide)),if_pos rfl]
  have hfirst : ∀ {scanned}, Counts costPerField coefficient o .directive ls s scanned →
      Counts costPerField coefficient o role (.punctuator '@' :: ls) s scanned := by
    intro scanned hcounts
    refine Counts.cons hs (Keeps.refl hs) ?_
    rw [hrole]
    exact hcounts
  rw [hscan]
  apply hfirst
  cases ls with
  | nil => exact ih [] .directive s le_rfl htail hs
  | cons a ls =>
    obtain ⟨ha,hhead,-⟩ := wellSpaced_cons.mp htail.spaced
    rw [render_cons]
    by_cases hname : ∃ t, a = .name t
    · obtain ⟨t,rfl⟩ := hname
      have hdrop := (takeWhile_append_head (isNameChar_of_isName ha) hhead).2
      change Counts _ _ _ _ _ _ (scanText costPerField coefficient s ((t ++ render ls).dropWhile Graphql.isNameChar))
      rw [hdrop]
      refine Counts.cons hs (?_ : Keeps _ _ _ _ s s) (ih ls _ s (Nat.le_succ _) htail.tail hs)
      rw [selected_directive]
      exact Keeps.refl hs
    by_cases hnumber : ∃ t, a = .number t
    · obtain ⟨t,rfl⟩ := hnumber
      have hend : (render ls).head?.any Graphql.isNameChar = false := by
        cases hrender : render ls with
        | nil => rfl
        | cons d r =>
          rw [hrender] at hhead
          have hd : isNumberFollow d = false := hhead
          cases hc : Graphql.isNameChar d with
          | false => exact hc
          | true => exact absurd (isNumberFollow_of_isNameChar hc) (by simp [hd])
      have hdrop : (t ++ render ls).dropWhile Graphql.isNameChar = t.dropWhile Graphql.isNameChar ++ render ls := by
        rw [List.dropWhile_append]
        split
        · rename_i hempty
          rw [List.isEmpty_iff.mp hempty]
          exact (takeWhile_append_head (t := []) (fun _ hc => absurd hc List.not_mem_nil) hend).2
        · rfl
      obtain ⟨s',hs',hkeeps⟩ := scanText_number costPerField coefficient (r := render ls)
        (fun c hc => number_chars ha ((List.dropWhile_sublist _).subset hc)) hhead hs
      change Counts _ _ _ _ _ _ (scanText costPerField coefficient s ((t ++ render ls).dropWhile Graphql.isNameChar))
      rw [hdrop,hs']
      exact Counts.cons hs hkeeps (ih ls _ s' (Nat.le_succ _) htail.tail hkeeps.agrees)
    · have hdrop : (a.text ++ render ls).dropWhile Graphql.isNameChar = a.text ++ render ls :=
        (takeWhile_append_head (t := []) (fun _ hc => absurd hc List.not_mem_nil)
          (head_not_name ha (fun t ht => hname ⟨t,ht⟩) (fun t ht => hnumber ⟨t,ht⟩) _)).2
      rw [hdrop]
      exact ih (a :: ls) .directive s le_rfl htail hs

/-- The scanner counts what is left of a query as its lexemes have it. -/
theorem counts_scanText (h : Readable o ls) (hs : Agrees o s) :
    Counts costPerField coefficient o role ls s (scanText costPerField coefficient s (render ls)) := by
  induction hlen : ls.length using Nat.strong_induction_on generalizing o role s ls with
  | h n ih =>
    subst hlen
    cases ls with
    | nil =>
      have hopen : o.braces ≤ s.maxDepth := by
        have hle := hs.maxDepth
        rw [hs.depth,Scope.total] at hle
        omega
      exact ⟨.inl (max_le le_rfl hopen),fun _ _ => by
        change min (s.complexity.toNat + 0) _ ≤ s.complexity.toNat
        omega⟩
    | cons a ls =>
      obtain ⟨ha,hhead,hspaced⟩ := wellSpaced_cons.mp h.spaced
      by_cases hcomment : ∃ t, a = .comment t
      · obtain ⟨t,rfl⟩ := hcomment
        have hsilent : ∀ b ∈ restOfLine ls, b.isSilent = true := List.all_eq_true.mp (Bool.and_eq_true_iff.mp h.comments).1
        have hsplit : restOfLine ls ++ ls.dropWhile (· ≠ .ignored '\n') = ls := List.takeWhile_append_dropWhile
        have htail : Readable o ls := h.tail
        -- the comment and the rest of its line are skipped together
        have hscan : scanText costPerField coefficient s ('#' :: (t ++ render ls)) =
            scanText costPerField coefficient s (render (ls.dropWhile (· ≠ .ignored '\n'))) := by
          have ht : ∀ c ∈ t, c ≠ '\n' := by
            rintro c hc rfl
            exact absurd (ha _ hc) (by decide)
          rw [scanText_cons,if_pos rfl,List.dropWhile_append_of_pos (by simpa using ht),dropWhile_render hspaced hsilent]
        have hrest : Readable o (ls.dropWhile (· ≠ .ignored '\n')) := by
          rw [← hsplit] at htail
          exact htail.drop hsilent
        have hbehind : Counts costPerField coefficient o role (ls.dropWhile (· ≠ .ignored '\n')) s _ :=
          ih _ (Nat.lt_succ_of_le (List.dropWhile_sublist _).length_le) hrest hs rfl
        have hcounts := Counts.silent (.comment t :: restOfLine ls) hs (fun b hb => by
          obtain rfl | hb := List.mem_cons.mp hb
          · rfl
          · exact hsilent b hb) hbehind
        rw [List.cons_append,hsplit,← hscan] at hcounts
        exact hcounts
      by_cases hdirective : a = .punctuator '@'
      · subst hdirective
        exact counts_directive h hs fun ls' role s' hle hread hs' => ih _ (Nat.lt_succ_of_le hle) hread hs' rfl
      · have hcloses : o.closes a = true := (Bool.and_eq_true_iff.mp h.brackets).1
        rw [render_cons]
        obtain ⟨hcut,hdeep⟩ | ⟨s',hs',hkeeps⟩ := scanText_lexeme costPerField coefficient role ls ha hhead
          (fun t ht => hcomment ⟨t,ht⟩) hdirective (fun raw hraw => h.blocks raw (by rw [hraw]; exact List.mem_cons_self)) hcloses hs
        · rw [hcut]
          refine ⟨.inr rfl,fun hpeak => ?_⟩
          have hle := (le_peak Scope.total (o.step a) ls).trans ((peak_step_le _ _ _ _).trans hpeak)
          omega
        · rw [hs']
          exact Counts.cons hs hkeeps (ih ls.length (Nat.lt_succ_self _) h.tail hkeeps.agrees rfl)

theorem scanDepthComplexity_eq (query : String) :
    scanDepthComplexity costPerField coefficient query = scanText costPerField coefficient {} query.toList := by
  have hbytes : Snapshot.bytes query = encode query.toList := by
    conv_lhs => rw [← String.ofList_toList (s := query)]
    rw [Snapshot.bytes,String.toUTF8,String.toByteArray_ofList,List.utf8Encode,encode]
    simp
  rw [scanDepthComplexity,hbytes]
  rfl

/-- The scanner never tells of less than a query has that it can count. -/
theorem scan_neverUnder {query : String} {ls : List Lexeme} (hlex : lex query.toList = some ls)
    (h : Countable costPerField coefficient ls) :
    NeverUnder costPerField coefficient ls (scanDepthComplexity costPerField coefficient query) := by
  obtain ⟨htext,hspaced⟩ := lex_eq_some.mp hlex
  have hread : Readable {} ls := ⟨hspaced,h.comments,h.blocks,h.brackets⟩
  have hcounts : Counts costPerField coefficient {} .free ls {} _ := counts_scanText hread ⟨rfl,le_rfl⟩
  rw [scanDepthComplexity_eq,htext]
  constructor
  · exact hcounts.depth.imp_left fun hdepth => (le_max_right _ _).trans hdepth
  · have hcost := hcounts.complexity h.nesting h.keywords
    have hfits := h.fits
    have hzero : ({} : ScanState).complexity.toNat = 0 := rfl
    rw [hzero] at hcost
    rw [fieldNames] at hfits ⊢
    omega

end Run

/-- `#{`, a line end and `{a(b:"{"){c}}`. -/
def commented : List Lexeme :=
  [.comment ['\x7b'],.ignored '\r',.ignored '\n',.punctuator '\x7b',.name ['a'],.punctuator '(',.name ['b'],.punctuator ':',.string ['\x7b'],
    .punctuator ')',.punctuator '\x7b',.name ['c'],.punctuator '\x7d',.punctuator '\x7d']

private theorem lex_commented : lex (String.ofList (render commented)).toList = some commented := by
  refine lex_eq_some.mpr ⟨String.toList_ofList,?_,by decide⟩
  intro a ha
  simp only [commented,List.mem_cons,List.not_mem_nil,or_false] at ha
  obtain rfl | rfl | rfl | rfl | rfl | rfl | rfl | rfl | rfl | rfl | rfl | rfl | rfl | rfl := ha
  case inr.inr.inr.inr.inr.inr.inr.inr.inl => exact fun r => rfl
  case inl =>
    intro c hc
    obtain rfl := List.mem_singleton.mp hc
    rfl
  all_goals rfl

theorem scan_neverUnder_commented :
    NeverUnder [("c",5)] 1 commented (scanDepthComplexity [("c",5)] 1 (String.ofList (render commented))) := by
  refine scan_neverUnder lex_commented ⟨by decide,?_,by decide,by decide,?_,by decide⟩
  · intro raw hraw
    simp [commented] at hraw
  · unfold KeywordsFree
    decide

/-- A query the scanner tells too little of. -/
def Undercounted (costPerField : List (String × UInt64)) (coefficient : UInt64) (ls : List Lexeme) : Prop :=
  lex (String.ofList (render ls)).toList = some ls ∧
    ¬ NeverUnder costPerField coefficient ls (scanDepthComplexity costPerField coefficient (String.ofList (render ls)))

private theorem undercounted_of {costPerField : List (String × UInt64)} {coefficient : UInt64} {ls : List Lexeme} (hspaced : WellSpaced ls)
    (h : (scanText costPerField coefficient {} (render ls)).2.toNat < fieldsCost costPerField coefficient (fieldNames ls)) :
    Undercounted costPerField coefficient ls := by
  refine ⟨lex_eq_some.mpr ⟨String.toList_ofList,hspaced⟩,fun hnever => ?_⟩
  have hcost := hnever.complexity
  rw [scanDepthComplexity_eq,String.toList_ofList] at hcost
  omega

/-- `#`, a carriage return and `{a}`; a field with the name of a keyword, `{type}`; and the block
string `\"""` in the arguments of `{a(b:"""\""""""){c}}`. -/
theorem scan_undercounts :
    Undercounted [] 1 [.comment [],.ignored '\r',.punctuator '\x7b',.name ['a'],.punctuator '\x7d'] ∧
      Undercounted [] 1 [.punctuator '\x7b',.name ['t','y','p','e'],.punctuator '\x7d'] ∧
      Undercounted [("c",5)] 1 [.punctuator '\x7b',.name ['a'],.punctuator '(',.name ['b'],.punctuator ':',.blockString ['\\','"','"','"'],
        .punctuator ')',.punctuator '\x7b',.name ['c'],.punctuator '\x7d',.punctuator '\x7d'] := by
  refine ⟨undercounted_of ⟨?_,by decide⟩ (by decide),undercounted_of ⟨?_,by decide⟩ (by decide),
    undercounted_of ⟨?_,by decide⟩ (by decide)⟩
  · intro a ha
    simp only [List.mem_cons,List.not_mem_nil,or_false] at ha
    obtain rfl | rfl | rfl | rfl | rfl := ha
    case inl => exact fun c hc => absurd hc List.not_mem_nil
    all_goals rfl
  · intro a ha
    simp only [List.mem_cons,List.not_mem_nil,or_false] at ha
    obtain rfl | rfl | rfl := ha <;> rfl
  · intro a ha
    simp only [List.mem_cons,List.not_mem_nil,or_false] at ha
    obtain rfl | rfl | rfl | rfl | rfl | rfl | rfl | rfl | rfl | rfl | rfl := ha
    case inr.inr.inr.inr.inr.inl => exact fun r => rfl
    all_goals rfl

end Dwara.Dataplane.GraphqlCheck
