import Dwara.Config.Net
import Dwara.Extensions.RateLimiter

/-! Which requests share a rate-limit key. -/

namespace Dwara.Extensions.RateLimiter
open Dwara.Lib Dwara.Config.Net

/-- A consumer name the configuration admits. -/
structure ConsumerName where
  text : String
  nonempty : text ≠ ""
  visible : ∀ c ∈ text.toList, '!' ≤ c ∧ c ≤ '~'

/-- What a rule key is to tell apart of a request. -/
structure Caller where
  peer : IpAddr
  consumer : Option ConsumerName
  route : String

def Caller.keyContext (r : Caller) : RateLimitKeyContext := ⟨r.peer.text,r.consumer.map (·.text),r.route⟩

/-- The value of a selected attribute; an anonymous request is its peer, and no consumer. -/
def Caller.Same (a b : Caller) : RateLimitSelector → Prop
  | .ip => a.peer = b.peer
  | .credential =>
    match a.consumer,b.consumer with
    | some c,some d => c.text = d.text
    | none,none => a.peer = b.peer
    | _,_ => False
  | .route => a.route = b.route

/-- The number of separators in the name of a consumer, none for an anonymous request. -/
def Caller.bars (r : Caller) : ℕ := r.consumer.elim 0 fun c => c.text.toList.count '|'

/-- The pieces of a key: leading empty components are left out, the others cut at their separators. -/
def pieces (ctx : RateLimitKeyContext) (selectors : List RateLimitSelector) : List String :=
  (selectors.dropWhile fun s => ctx.component s = "").flatMap fun s => Text.split '|' (ctx.component s)

section Pieces
variable (ctx : RateLimitKeyContext)

theorem split_ne_nil (sep : Char) (s : String) : Text.split sep s ≠ [] := by
  rw [Text.split]
  simp

theorem split_injective (sep : Char) : Function.Injective (Text.split sep) := by
  intro a b h
  have hsplit : a.toList.splitOn sep = b.toList.splitOn sep :=
    List.map_injective_iff.mpr (fun x y hxy => String.ofList_injective hxy) h
  have hjoin : ∀ s : String, [sep].intercalate (s.toList.splitOn sep) = s.toList := fun s => List.intercalate_splitOn sep
  rw [← String.toList_inj,← hjoin a,hsplit,hjoin]

/-- Once the key is not empty, every further component comes after a separator. -/
theorem split_foldl (selectors : List RateLimitSelector) {key : String} (hkey : key ≠ "") :
    Text.split '|' (selectors.foldl (fun key s => (if key = "" then key else key ++ "|") ++ ctx.component s) key) =
      Text.split '|' key ++ selectors.flatMap fun s => Text.split '|' (ctx.component s) := by
  induction selectors generalizing key with
  | nil => simp
  | cons s rest ih =>
    have hnext : key ++ "|" ++ ctx.component s ≠ "" := by simp
    rw [List.foldl_cons,if_neg hkey,ih hnext,List.flatMap_cons,← List.append_assoc]
    congr 1
    exact Text.split_append_sep '|' key (ctx.component s)

/-- A key is cut into its pieces. -/
theorem split_buildKey (selectors : List RateLimitSelector) :
    Text.split '|' (buildKey ctx selectors) = if pieces ctx selectors = [] then [""] else pieces ctx selectors := by
  rw [buildKey]
  induction selectors with
  | nil => rfl
  | cons s rest ih =>
    by_cases hs : ctx.component s = ""
    · have hskip : pieces ctx (s :: rest) = pieces ctx rest := by simp [pieces,hs]
      rw [hskip,← ih,List.foldl_cons,hs]
      rfl
    · have htake : pieces ctx (s :: rest) = (s :: rest).flatMap fun s => Text.split '|' (ctx.component s) := by simp [pieces,hs]
      have hne : pieces ctx (s :: rest) ≠ [] := by
        rw [htake,List.flatMap_cons]
        exact List.append_ne_nil_of_left_ne_nil (split_ne_nil _ _) _
      rw [if_neg hne,htake,List.foldl_cons,if_pos rfl,String.empty_append,split_foldl ctx rest hs,List.flatMap_cons]

theorem pieces_ne_blank (selectors : List RateLimitSelector) : pieces ctx selectors ≠ [""] := by
  rw [pieces]
  cases hkept : selectors.dropWhile fun s => decide (ctx.component s = "") with
  | nil => simp
  | cons s rest =>
    have hs : ctx.component s ≠ "" := by
      have hhead := List.head?_dropWhile_not (fun s => decide (ctx.component s = "")) selectors
      rw [hkept] at hhead
      simpa using hhead
    rw [List.flatMap_cons]
    intro h
    have hblank : Text.split '|' (ctx.component s) = [""] := by
      obtain ⟨p,ps,hp⟩ := List.exists_cons_of_ne_nil (split_ne_nil '|' (ctx.component s))
      rw [hp,List.cons_append,List.cons.injEq,List.append_eq_nil_iff] at h
      rw [hp,h.1,h.2.1]
    exact hs (split_injective '|' hblank)

end Pieces

/-- Two requests share a key exactly when their keys have the same pieces. -/
theorem buildKey_eq_iff (a b : RateLimitKeyContext) (selectors : List RateLimitSelector) :
    buildKey a selectors = buildKey b selectors ↔ pieces a selectors = pieces b selectors := by
  rw [← (split_injective '|').eq_iff,split_buildKey,split_buildKey]
  have ha := pieces_ne_blank a selectors
  have hb := pieces_ne_blank b selectors
  by_cases hna : pieces a selectors = []
  · by_cases hnb : pieces b selectors = []
    · simp [hna,hnb]
    · rw [if_pos hna,if_neg hnb,hna]
      exact ⟨fun h => absurd h.symm hb,fun h => absurd h.symm hnb⟩
  · by_cases hnb : pieces b selectors = []
    · rw [if_neg hna,if_pos hnb,hnb]
      exact ⟨fun h => absurd h ha,fun h => absurd h hna⟩
    · rw [if_neg hna,if_neg hnb]

section Counting
variable {α β : Type} {f g : α → List β}

/-- Equal rows of pieces of equal numbers are equal piece by piece. -/
private theorem eq_of_flatMap_eq {xs : List α} (hlen : ∀ x ∈ xs, (f x).length = (g x).length) (h : xs.flatMap f = xs.flatMap g) :
    ∀ x ∈ xs, f x = g x := by
  induction xs with
  | nil => exact fun x hx => absurd hx List.not_mem_nil
  | cons y ys ih =>
    rw [List.flatMap_cons,List.flatMap_cons] at h
    obtain ⟨hy,hys⟩ := List.append_inj h (hlen y List.mem_cons_self)
    intro x hx
    rcases List.mem_cons.mp hx with rfl | hx
    · exact hy
    · exact ih (fun z hz => hlen z (List.mem_cons_of_mem _ hz)) hys x hx

private theorem length_flatMap_le {xs : List α} (hle : ∀ x ∈ xs, (f x).length ≤ (g x).length) :
    (xs.flatMap f).length ≤ (xs.flatMap g).length := by
  induction xs with
  | nil => exact Nat.le_refl _
  | cons y ys ih =>
    have hy := hle y List.mem_cons_self
    have hys := ih fun z hz => hle z (List.mem_cons_of_mem _ hz)
    rw [List.flatMap_cons,List.flatMap_cons,List.length_append,List.length_append]
    omega

private theorem length_eq_of_flatMap_length_eq {xs : List α} (hle : ∀ x ∈ xs, (f x).length ≤ (g x).length)
    (h : (xs.flatMap f).length = (xs.flatMap g).length) : ∀ x ∈ xs, (f x).length = (g x).length := by
  induction xs with
  | nil => exact fun x hx => absurd hx List.not_mem_nil
  | cons y ys ih =>
    have hy := hle y List.mem_cons_self
    have hys := length_flatMap_le fun z hz => hle z (List.mem_cons_of_mem _ hz)
    rw [List.flatMap_cons,List.flatMap_cons,List.length_append,List.length_append] at h
    intro x hx
    rcases List.mem_cons.mp hx with rfl | hx
    · omega
    · exact ih (fun z hz => hle z (List.mem_cons_of_mem _ hz)) (by omega) x hx

/-- Nothing was left out of a row that has the pieces of one that cuts every component at least as often. -/
private theorem eq_of_dropWhile_flatMap_eq {xs : List α} {p : α → Bool} (hne : ∀ x, f x ≠ [])
    (hle : ∀ x ∈ xs, (f x).length ≤ (g x).length) (h : (xs.dropWhile p).flatMap f = xs.flatMap g) : ∀ x ∈ xs, f x = g x := by
  have hsum : (xs.takeWhile p ++ xs.dropWhile p).flatMap f = (xs.takeWhile p).flatMap f ++ xs.flatMap g := by
    rw [List.flatMap_append,h]
  rw [List.takeWhile_append_dropWhile] at hsum
  have htake : xs.takeWhile p = [] := by
    cases hkept : xs.takeWhile p with
    | nil => rfl
    | cons y ys =>
      have hlen := length_flatMap_le hle
      have hy := List.length_pos_iff.mpr (hne y)
      rw [hsum,hkept,List.flatMap_cons,List.length_append,List.length_append] at hlen
      omega
  rw [htake,List.flatMap_nil,List.nil_append] at hsum
  exact eq_of_flatMap_eq (length_eq_of_flatMap_length_eq hle (congrArg List.length hsum)) hsum

end Counting

section Components
variable {a b : Caller} {selectors : List RateLimitSelector}

theorem length_split (s : String) : (Text.split '|' s).length = s.toList.count '|' + 1 := by
  rw [Text.split,List.length_map]
  induction s.toList with
  | nil => rfl
  | cons c cs ih =>
    rw [List.splitOn_cons_eq_if_modifyHead,List.count_cons]
    split <;> simp [ih]

/-- Only a route has an empty text. -/
theorem component_eq_empty (r : Caller) (s : RateLimitSelector) :
    r.keyContext.component s = "" ↔ s = .route ∧ r.route = "" := by
  cases s with
  | ip => simpa [Caller.keyContext,RateLimitKeyContext.component] using r.peer.text_ne_empty
  | credential =>
    cases hc : r.consumer with
    | none => simpa [Caller.keyContext,RateLimitKeyContext.component,hc] using r.peer.text_ne_empty
    | some c => simpa [Caller.keyContext,RateLimitKeyContext.component,hc] using c.nonempty
  | route => simp [Caller.keyContext,RateLimitKeyContext.component]

theorem length_split_peer (ip : IpAddr) : (Text.split '|' ip.text).length = 1 := by
  have hbar : '|' ∉ ip.text.toList := fun h => absurd (IpAddr.mem_text h) (by decide)
  rw [Text.split_eq_singleton hbar]
  rfl

/-- A component is cut as often as the route or the consumer's name has separators. -/
theorem length_split_component (r : Caller) (s : RateLimitSelector) :
    (Text.split '|' (r.keyContext.component s)).length =
      match s with
      | .ip => 1
      | .credential => r.bars + 1
      | .route => (Text.split '|' r.route).length := by
  cases s with
  | ip => exact length_split_peer r.peer
  | credential =>
    cases hc : r.consumer with
    | none => simpa [Caller.keyContext,RateLimitKeyContext.component,Caller.bars,hc] using length_split_peer r.peer
    | some c => simpa [Caller.keyContext,RateLimitKeyContext.component,Caller.bars,hc] using length_split c.text
  | route => rfl

/-- Requests whose keys have the same pieces agree on every component, when the names in
them are cut alike and the second one's route has no fewer pieces. -/
private theorem components_eq_of_le (hbars : .credential ∈ selectors → a.bars = b.bars) (hroute : b.route ≠ "")
    (hle : (Text.split '|' a.route).length ≤ (Text.split '|' b.route).length)
    (h : pieces a.keyContext selectors = pieces b.keyContext selectors) :
    ∀ s ∈ selectors, a.keyContext.component s = b.keyContext.component s := by
  have hkept : pieces b.keyContext selectors = selectors.flatMap fun s => Text.split '|' (b.keyContext.component s) := by
    rw [pieces]
    congr 1
    cases selectors with
    | nil => rfl
    | cons s rest =>
      have hs : ¬ b.keyContext.component s = "" := fun hempty => hroute ((component_eq_empty b s).mp hempty).2
      rw [List.dropWhile_cons_of_neg (by simpa using hs)]
  rw [hkept,pieces] at h
  have hpieces := eq_of_dropWhile_flatMap_eq (fun s => split_ne_nil '|' (a.keyContext.component s)) (fun s hs => by
    rw [length_split_component,length_split_component]
    cases s with
    | ip => exact Nat.le_refl _
    | credential => simp only [hbars hs,Nat.le_refl]
    | route => exact hle) h
  exact fun s hs => split_injective '|' (hpieces s hs)

private theorem components_eq_of_route (hbars : .credential ∈ selectors → a.bars = b.bars) (hroute : a.route = b.route)
    (h : pieces a.keyContext selectors = pieces b.keyContext selectors) :
    ∀ s ∈ selectors, a.keyContext.component s = b.keyContext.component s := by
  have hempty : (fun s => decide (a.keyContext.component s = "")) = fun s => decide (b.keyContext.component s = "") := by
    funext s
    simp only [component_eq_empty,hroute]
  rw [pieces,pieces,hempty] at h
  have hpieces := eq_of_flatMap_eq (fun s hs => by
    have hs := (List.dropWhile_suffix _).subset hs
    rw [length_split_component,length_split_component]
    cases s with
    | ip => rfl
    | credential => simp only [hbars hs]
    | route => rw [hroute]) h
  intro s hs
  rw [← List.takeWhile_append_dropWhile (p := fun s => decide (b.keyContext.component s = "")) (l := selectors),
    List.mem_append] at hs
  rcases hs with hs | hs
  · have hb : b.keyContext.component s = "" := by simpa using List.mem_takeWhile_imp hs
    obtain ⟨rfl,hblank⟩ := (component_eq_empty b s).mp hb
    rw [hb,(component_eq_empty a .route).mpr ⟨rfl,hroute.trans hblank⟩]
  · exact split_injective '|' (hpieces s hs)

/-- Names cut alike leave nothing to confuse: equal keys have equal components. -/
theorem components_eq (hbars : .credential ∈ selectors → a.bars = b.bars)
    (h : pieces a.keyContext selectors = pieces b.keyContext selectors) :
    ∀ s ∈ selectors, a.keyContext.component s = b.keyContext.component s := by
  by_cases hroute : a.route = b.route
  · exact components_eq_of_route hbars hroute h
  · have hone : ∀ r : Caller, 1 ≤ (Text.split '|' r.route).length := fun r => by
      rw [length_split]
      exact Nat.le_add_left 1 _
    have hblank : (Text.split '|' "").length = 1 := rfl
    rcases Nat.le_total (Text.split '|' a.route).length (Text.split '|' b.route).length with hle | hle
    · by_cases hb : b.route = ""
      · have ha : a.route ≠ "" := fun ha => hroute (ha.trans hb.symm)
        intro s hs
        exact (components_eq_of_le (fun hc => (hbars hc).symm) ha (by rw [hb,hblank]; exact hone a) h.symm s hs).symm
      · exact components_eq_of_le hbars hb hle h
    · by_cases ha : a.route = ""
      · have hb : b.route ≠ "" := fun hb => hroute (ha.trans hb.symm)
        exact components_eq_of_le hbars hb (by rw [ha,hblank]; exact hone b) h
      · intro s hs
        exact (components_eq_of_le (fun hc => (hbars hc).symm) ha hle h.symm s hs).symm

/-- Equal components of requests of one kind, both anonymous or both of consumers, have equal values. -/
theorem same_of_component_eq {s : RateLimitSelector} (hkind : s = .credential → a.consumer.isSome = b.consumer.isSome)
    (h : a.keyContext.component s = b.keyContext.component s) : a.Same b s := by
  cases s with
  | ip => exact IpAddr.text_injective h
  | credential =>
    have hkind := hkind rfl
    cases ha : a.consumer with
    | none =>
      cases hb : b.consumer with
      | none =>
        simp only [Caller.keyContext,RateLimitKeyContext.component,ha,hb,Option.map_none,Option.getD_none] at h
        simp only [Caller.Same,ha,hb]
        exact IpAddr.text_injective h
      | some d => simp [ha,hb] at hkind
    | some c =>
      cases hb : b.consumer with
      | none => simp [ha,hb] at hkind
      | some d =>
        simp only [Caller.keyContext,RateLimitKeyContext.component,ha,hb,Option.map_some,Option.getD_some] at h
        simp only [Caller.Same,ha,hb]
        exact h
  | route => exact h

theorem bars_eq_of_same (h : a.Same b .credential) : a.consumer.isSome = b.consumer.isSome ∧ a.bars = b.bars := by
  rw [Caller.Same] at h
  rw [Caller.bars,Caller.bars]
  cases ha : a.consumer with
  | none =>
    cases hb : b.consumer with
    | none => exact ⟨rfl,rfl⟩
    | some d => simp [ha,hb] at h
  | some c =>
    cases hb : b.consumer with
    | none => simp [ha,hb] at h
    | some d =>
      simp only [ha,hb] at h
      exact ⟨rfl,by simp [h]⟩

end Components

/-- Two requests the key cannot tell apart: the credential is selected, the pieces of the
two keys are the same, and only one request is anonymous or the two consumers' names
differ in their number of separators. -/
def Confused (a b : Caller) (selectors : List RateLimitSelector) : Prop :=
  .credential ∈ selectors ∧ pieces a.keyContext selectors = pieces b.keyContext selectors ∧
    (a.consumer.isSome ≠ b.consumer.isSome ∨ a.bars ≠ b.bars)

/-- Equal keys mean equal selected attributes, exactly when the key does not confuse the requests. -/
theorem buildKey_separates_iff (a b : Caller) (selectors : List RateLimitSelector) :
    (buildKey a.keyContext selectors = buildKey b.keyContext selectors → ∀ s ∈ selectors, a.Same b s) ↔
      ¬ Confused a b selectors := by
  rw [buildKey_eq_iff]
  constructor
  · rintro hsep ⟨hcred,hpieces,hdiffer⟩
    obtain ⟨hkind,hbars⟩ := bars_eq_of_same (hsep hpieces .credential hcred)
    exact hdiffer.elim (fun h => h hkind) fun h => h hbars
  · intro hclear hpieces s hs
    have halike : .credential ∈ selectors → a.consumer.isSome = b.consumer.isSome ∧ a.bars = b.bars := by
      intro hcred
      by_contra hdiffer
      exact hclear ⟨hcred,hpieces,by rwa [← not_and_or]⟩
    have hcomponents := components_eq (fun hcred => (halike hcred).2) hpieces
    exact same_of_component_eq (fun hcred => (halike (hcred ▸ hs)).1) (hcomponents s hs)

/-- A consumer whose name is the text of an address. -/
def numericName : ConsumerName := ⟨"10.0.0.1",by decide,by simp⟩

/-- An anonymous client and the consumer named like its address share their credential key. -/
theorem anonymous_shares_consumer_key :
    buildKey (Caller.keyContext ⟨.v4 0x0a000001#32,none,"api"⟩) [.credential] =
        buildKey (Caller.keyContext ⟨.v4 0x0a000002#32,some numericName,"api"⟩) [.credential] ∧
      ¬ Caller.Same ⟨.v4 0x0a000001#32,none,"api"⟩ ⟨.v4 0x0a000002#32,some numericName,"api"⟩ .credential :=
  ⟨by decide,fun h => h⟩

end Dwara.Extensions.RateLimiter
