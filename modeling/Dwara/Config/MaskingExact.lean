import Dwara.Config.Masking

/-! What masking leaves of a document, and for which policies it does not matter in what
order their pointers come. -/

namespace Dwara.Config.Transforms
open Dwara.Lib (Json)

section Steps
variable {p q : JsonPointer} {doc : Json} {es : List JsonPointer}

/-- The document with the value at a pointer replaced. -/
def mask (doc : Json) (p : JsonPointer) : Json := doc.modify parseIndex (fun _ => .string maskedValue) p.tokens

/-- The pointer leads to a value. -/
def Resolves (doc : Json) (p : JsonPointer) : Prop := (doc.descend parseIndex p.tokens).isSome

instance : Decidable (Resolves doc p) := inferInstanceAs (Decidable (_ = true))

/-- The value at the one pointer holds the value at the other. -/
def JsonPointer.IsAbove (p q : JsonPointer) : Prop := p.tokens <+: q.tokens ∧ p ≠ q

instance (p q : JsonPointer) : Decidable (p.IsAbove q) := inferInstanceAs (Decidable (_ ∧ _))

theorem JsonPointer.ext_tokens (h : p.tokens = q.tokens) : p = q := by
  cases p
  cases q
  exact congrArg _ h

/-- Only the sentinel itself is found at or below a masked pointer. -/
theorem descend_mask (doc : Json) (p : JsonPointer) (tail : List String) :
    (mask doc p).descend parseIndex (p.tokens ++ tail) =
      if Resolves doc p ∧ tail = [] then some (.string maskedValue) else none := by
  rw [mask,Json.descend_modify]
  cases hp : doc.descend parseIndex p.tokens with
  | none => simp [Resolves,hp]
  | some v =>
    cases tail with
    | nil => simp [Resolves,hp,Json.descend]
    | cons token tail => simp [Json.descend,Json.child]

theorem shape_mask (doc : Json) {path : List String} (h : ¬ p.tokens <+: path) :
    ((mask doc p).descend parseIndex path).map Json.shape = (doc.descend parseIndex path).map Json.shape :=
  Json.shape_descend_modify parseIndex_inj h

/-- A masked pointer makes exactly the pointers below it unresolved. -/
theorem resolves_mask_iff (hp : Resolves doc p) : Resolves (mask doc p) q ↔ Resolves doc q ∧ ¬ p.IsAbove q := by
  by_cases h : p.tokens <+: q.tokens
  · obtain ⟨tail,htail⟩ := h
    have hdescend := descend_mask doc p tail
    rw [htail] at hdescend
    rw [Resolves,hdescend]
    by_cases hnil : tail = []
    · have hpq : p = q := JsonPointer.ext_tokens (by rw [← htail,hnil,List.append_nil])
      subst hpq
      simp [hp,hnil,JsonPointer.IsAbove]
    · have hne : p ≠ q := by
        rintro rfl
        exact hnil (List.append_right_eq_self.mp htail)
      have habove : p.IsAbove q := ⟨⟨tail,htail⟩,hne⟩
      simp [hnil,habove]
  · have hshape := congrArg Option.isSome (shape_mask doc h)
    rw [Option.isSome_map,Option.isSome_map] at hshape
    rw [Resolves,hshape]
    exact ⟨fun hq => ⟨hq,fun habove => h habove.1⟩,fun hq => hq.1⟩

theorem foldlM_cons_ok_iff {result : Json} :
    (p :: es).foldlM (fun doc p => applyMaskPointer p doc) doc = .ok result ↔
      Resolves doc p ∧ es.foldlM (fun doc p => applyMaskPointer p doc) (mask doc p) = .ok result := by
  rw [List.foldlM_cons,applyMaskPointer_eq,Resolves]
  split_ifs with h
  · simp [h,mask,bind,Except.bind]
  · simp [h,bind,Except.bind]

theorem resolves_of_ok {result : Json} (h : es.foldlM (fun doc p => applyMaskPointer p doc) doc = .ok result) :
    ∀ q ∈ es, Resolves doc q := by
  induction es generalizing doc with
  | nil => exact fun q hq => absurd hq List.not_mem_nil
  | cons p es ih =>
    obtain ⟨hp,hrest⟩ := foldlM_cons_ok_iff.mp h
    intro q hq
    rcases List.mem_cons.mp hq with rfl | hq
    · exact hp
    · exact ((resolves_mask_iff hp).mp (ih hrest q hq)).1

/-- Pointers that resolve are all masked, one after the other, iff none comes behind one above it. -/
theorem foldlM_ok_iff (h : ∀ p ∈ es, Resolves doc p) {result : Json} :
    es.foldlM (fun doc p => applyMaskPointer p doc) doc = .ok result ↔
      es.Pairwise (fun p q => ¬ p.IsAbove q) ∧ result = es.foldl mask doc := by
  induction es generalizing doc with
  | nil => simp [pure,Except.pure,eq_comm]
  | cons p es ih =>
    have hp : Resolves doc p := h p List.mem_cons_self
    have hes : ∀ q ∈ es, Resolves doc q := fun q hq => h q (List.mem_cons_of_mem p hq)
    rw [foldlM_cons_ok_iff,List.pairwise_cons,List.foldl_cons]
    constructor
    · rintro ⟨-,hrest⟩
      have hstill := resolves_of_ok hrest
      obtain ⟨hpairs,hresult⟩ := (ih hstill).mp hrest
      exact ⟨⟨fun q hq => ((resolves_mask_iff hp).mp (hstill q hq)).2,hpairs⟩,hresult⟩
    · rintro ⟨⟨habove,hpairs⟩,hresult⟩
      exact ⟨hp,(ih fun q hq => (resolves_mask_iff hp).mpr ⟨hes q hq,habove q hq⟩).mpr ⟨hpairs,hresult⟩⟩

/-- Off every pointer of the list the shapes stay. -/
theorem shape_foldl_mask {path : List String} (h : ∀ p ∈ es, ¬ p.tokens <+: path) :
    ((es.foldl mask doc).descend parseIndex path).map Json.shape = (doc.descend parseIndex path).map Json.shape := by
  induction es generalizing doc with
  | nil => rfl
  | cons p es ih =>
    rw [List.foldl_cons,ih fun q hq => h q (List.mem_cons_of_mem p hq),shape_mask doc (h p List.mem_cons_self)]

theorem shape_eq_string {v : Json} {s : String} : v.shape = .string s ↔ v = .string s := by
  cases v <;> simp [Json.shape]

/-- At a pointer with none above it the sentinel is what remains. -/
theorem descend_foldl_mask (houter : ∀ q ∈ es, ¬ q.IsAbove p)
    (h : Resolves doc p ∧ p ∈ es ∨ doc.descend parseIndex p.tokens = some (.string maskedValue)) :
    (es.foldl mask doc).descend parseIndex p.tokens = some (.string maskedValue) := by
  induction es generalizing doc with
  | nil => exact h.resolve_left fun h => absurd h.2 List.not_mem_nil
  | cons q es ih =>
    rw [List.foldl_cons]
    refine ih (fun q' hq' => houter q' (List.mem_cons_of_mem q hq')) ?_
    rcases eq_or_ne q p with rfl | hne
    · have hq : Resolves doc q := by
        rcases h with h | h
        · exact h.1
        · rw [Resolves,h]
          rfl
      have hdescend := descend_mask doc q []
      rw [List.append_nil,if_pos ⟨hq,rfl⟩] at hdescend
      exact .inr hdescend
    · have hshape : ¬ q.tokens <+: p.tokens := fun hstart => houter q List.mem_cons_self ⟨hstart,hne⟩
      have hkept := shape_mask doc hshape
      rcases h with ⟨hp,hmem⟩ | hstring
      · have hsome := congrArg Option.isSome hkept
        rw [Option.isSome_map,Option.isSome_map] at hsome
        exact .inl ⟨hsome.trans hp,(List.mem_cons.mp hmem).resolve_left hne.symm⟩
      · rw [hstring,Option.map_some] at hkept
        obtain ⟨v,hv,hvshape⟩ := Option.map_eq_some_iff.mp hkept
        exact .inr (hv.trans (congrArg some (shape_eq_string.mp hvshape)))

end Steps

section Policy
variable (m : CompiledMasking) (consumerGroups : List String) (doc : Json)

/-- Every pointer the policy has for the consumer, as often as it is listed. -/
def CompiledMasking.named : List JsonPointer :=
  m.base ++ consumerGroups.flatMap fun group => (m.groups.lookup group).getD []

/-- The document is masked exactly, and the pointers are counted. -/
structure Masked (result : Json) (count : ℕ) : Prop where
  sentinel : ∀ p ∈ m.named consumerGroups, (∀ q ∈ m.named consumerGroups, ¬ q.IsAbove p) →
    result.descend parseIndex p.tokens = some (.string maskedValue)
  unchanged : ∀ path, (∀ p ∈ m.named consumerGroups, ¬ p.tokens <+: path) →
    (result.descend parseIndex path).map Json.shape = (doc.descend parseIndex path).map Json.shape
  count : count = (m.named consumerGroups).toFinset.card

variable {m consumerGroups doc}

theorem effective_eq : m.effective consumerGroups =
    (consumerGroups.flatMap fun group => (m.groups.lookup group).getD []).foldl CompiledMasking.pushNew m.base := by
  rw [List.foldl_flatMap]
  rfl

theorem mem_foldl_pushNew {base extra : List JsonPointer} {p : JsonPointer} :
    p ∈ extra.foldl CompiledMasking.pushNew base ↔ p ∈ base ∨ p ∈ extra := by
  induction extra generalizing base with
  | nil => simp
  | cons q extra ih =>
    rw [List.foldl_cons,ih,CompiledMasking.pushNew,List.mem_cons]
    split
    · rename_i hq
      exact ⟨fun h => h.imp_right .inr,fun h => h.elim .inl fun h => h.elim (fun heq => .inl (heq ▸ hq)) .inr⟩
    · rw [List.mem_append,List.mem_singleton,or_assoc]

theorem nodup_foldl_pushNew {base extra : List JsonPointer} : (extra.foldl CompiledMasking.pushNew base).Nodup ↔ base.Nodup := by
  induction extra generalizing base with
  | nil => rfl
  | cons q extra ih =>
    rw [List.foldl_cons,ih,CompiledMasking.pushNew]
    split
    · rfl
    · rename_i hq
      rw [List.nodup_append]
      simp only [List.nodup_singleton,List.mem_singleton,forall_eq,true_and,and_iff_left_iff_imp]
      exact fun _ p hp heq => hq (heq ▸ hp)

theorem mem_effective_iff {p : JsonPointer} : p ∈ m.effective consumerGroups ↔ p ∈ m.named consumerGroups := by
  rw [effective_eq,mem_foldl_pushNew,CompiledMasking.named,List.mem_append]

theorem length_effective_iff :
    (m.effective consumerGroups).length = (m.named consumerGroups).toFinset.card ↔ m.base.Nodup := by
  have hset : (m.effective consumerGroups).toFinset = (m.named consumerGroups).toFinset := by
    ext p
    rw [List.mem_toFinset,List.mem_toFinset,mem_effective_iff]
  have hnodup : (m.effective consumerGroups).Nodup ↔ m.base.Nodup := by
    rw [effective_eq,nodup_foldl_pushNew]
  rw [← hnodup,← hset,eq_comm]
  exact Multiset.toFinset_card_eq_card_iff_nodup

/-- Where every pointer resolves, masking is exact iff the floor lists none twice and none comes
behind one above it. -/
theorem apply_masked_iff (m : CompiledMasking) (consumerGroups : List String) (doc : Json)
    (hresolves : ∀ p ∈ m.named consumerGroups, Resolves doc p) :
    (∃ result count, m.apply consumerGroups doc = .ok (result,count) ∧ Masked m consumerGroups doc result count) ↔
      m.base.Nodup ∧ (m.effective consumerGroups).Pairwise (fun p q => ¬ p.IsAbove q) := by
  have heffective : ∀ p ∈ m.effective consumerGroups, Resolves doc p := fun p hp => hresolves p (mem_effective_iff.mp hp)
  constructor
  · rintro ⟨result,count,happly,hmasked⟩
    rw [CompiledMasking.apply] at happly
    cases hfold : (m.effective consumerGroups).foldlM (fun doc p => applyMaskPointer p doc) doc with
    | error e => simp [hfold,Except.map] at happly
    | ok doc' =>
      rw [hfold] at happly
      obtain ⟨-,rfl⟩ := Prod.mk.inj (Except.ok.inj happly)
      exact ⟨length_effective_iff.mp hmasked.count,((foldlM_ok_iff heffective).mp hfold).1⟩
  · rintro ⟨hnodup,hpairs⟩
    refine ⟨(m.effective consumerGroups).foldl mask doc,(m.effective consumerGroups).length,?_,?_,?_,?_⟩
    · rw [CompiledMasking.apply,(foldlM_ok_iff heffective).mpr ⟨hpairs,rfl⟩]
      rfl
    · intro p hp houter
      exact descend_foldl_mask (fun q hq => houter q (mem_effective_iff.mp hq))
        (.inl ⟨hresolves p hp,mem_effective_iff.mpr hp⟩)
    · exact fun path hpath => shape_foldl_mask fun p hp => hpath p (mem_effective_iff.mp hp)
    · exact length_effective_iff.mpr hnodup

/-- One pointer of the floor, and one more for the staff. -/
theorem apply_masked_staff :
    let cfg : Masking := ⟨1024,["/user/email"],[("staff",["/items/0/id"])]⟩
    let doc : Json := .object [("user",.object [("email",.string "a@b.c"),("name",.string "a")]),
      ("items",.array [.object [("id",.int 1)]])]
    ∃ result count, (CompiledMasking.compile cfg).apply ["staff"] doc = .ok (result,count) ∧
      Masked (.compile cfg) ["staff"] doc result count :=
  (apply_masked_iff _ _ _ (by decide)).mpr (by decide)

/-- A valid policy names a user and the email of the user, and the document has both. Behind the
user there is no email any more. -/
theorem apply_masked_nested :
    let cfg : Masking := ⟨1024,["/user","/user/email"],[]⟩
    let doc : Json := .object [("user",.object [("email",.string "a@b.c")])]
    validateMasking "users" cfg [] = [] ∧ (∀ p ∈ (CompiledMasking.compile cfg).named [], Resolves doc p) ∧
      (CompiledMasking.compile cfg).apply [] doc = .error (.unresolved "/user/email") :=
  ⟨by decide,by decide,rfl⟩

end Policy
end Dwara.Config.Transforms
