import Dwara.Lib.System
import Mathlib.Algebra.Group.Int.Defs
import Mathlib.Algebra.GroupWithZero.Nat
import Mathlib.Data.Int.Notation
import Mathlib.Data.Int.Order.Basic
import Mathlib.Logic.Function.Basic

/-! Token introspections and revocations of one identity provider, over a cache of active results.
Every turn of a call at the cache or at the provider is one step. -/

namespace Dwara.Security.Introspection
open Dwara.Lib

structure IntrospectionResponse where
  active : Bool
  sub : Option String
  iss : Option String
  exp : Option ℤ
  deriving DecidableEq, Repr

inductive OidcError where
  | fetch
  | endpointStatus (status : ℕ)
  | malformedResponse
  | inactive
  deriving DecidableEq, Repr

/-- What comes of one exchange with the provider. -/
inductive Exchange where
  | failed
  | status (status : ℕ)
  | notJson
  | response (result : IntrospectionResponse)
  deriving DecidableEq, Repr

structure OidcProvider where
  name : String
  issuer : String
  introspectionCacheTtlS : ℕ

/-- A cached result, with the moment it was stored and the turn the provider gave it at. -/
structure CachedIntrospection where
  result : IntrospectionResponse
  expiresAt : ℕ
  stored : ℕ
  given : ℕ
  deriving DecidableEq, Repr

/-- A call between two of its turns. -/
inductive Pending where
  | idle
  | asking (token : String) (started : ℕ)
  | answered (token : String) (started : ℕ) (result : IntrospectionResponse) (given : ℕ)
  | revoking (token : String)
  | revoked (token : String) (exchanged : ℕ)
  deriving DecidableEq, Repr

/-- A return of a call; turns are counted, and `at` is the moment of the clock. -/
inductive Outcome where
  | active (token : String) (started : ℕ) (result : IntrospectionResponse) (given : ℕ) (stored : Option ℕ) (now : ℕ)
  | revokedOk (token : String) (exchanged returned : ℕ)
  deriving DecidableEq, Repr

structure State where
  clock : ℕ
  turn : ℕ
  cache : String → Option CachedIntrospection
  calls : ℕ → Pending
  log : List Outcome

inductive Turn where
  | introspect (call : ℕ) (token : String)
  | answer (call : ℕ) (exchange : Exchange)
  | store (call : ℕ)
  | revoke (call : ℕ) (token : String)
  | revokeAnswer (call : ℕ) (exchange : Exchange)
  | invalidate (call : ℕ)
  | tick (elapsed : ℕ)
  deriving DecidableEq, Repr

section Model
variable (sha256Hex : String → String) (provider : OidcProvider)

def cacheKey (token : String) : String := provider.name ++ ":" ++ sha256Hex token

/-- What `introspect` makes of the provider's answer. -/
def accept : Exchange → Except OidcError IntrospectionResponse
  | .failed => .error .fetch
  | .status status => .error (.endpointStatus status)
  | .notJson => .error .malformedResponse
  | .response result =>
    if !result.active then .error .inactive
    else if result.iss.any (· ≠ provider.issuer) then .error .malformedResponse
    else .ok result

/-- The cached result of a token, when it is fresh. -/
def fresh (s : State) (token : String) : Option CachedIntrospection :=
  (s.cache (cacheKey sha256Hex provider token)).filter (s.clock < ·.expiresAt)

def State.goto (s : State) (call : ℕ) (pending : Pending) : State :=
  { s with turn := s.turn + 1, calls := Function.update s.calls call pending }

def State.outcome (s : State) (o : Outcome) : State := { s with log := s.log ++ [o] }

def State.setCache (s : State) (key : String) (entry : Option CachedIntrospection) : State :=
  { s with cache := Function.update s.cache key entry }

@[simp] theorem State.goto_calls (s : State) (call : ℕ) (pending : Pending) :
    (s.goto call pending).calls = Function.update s.calls call pending := rfl

@[simp] theorem State.setCache_cache (s : State) (key : String) (entry : Option CachedIntrospection) :
    (s.setCache key entry).cache = Function.update s.cache key entry := rfl

@[simp] theorem State.setCache_calls (s : State) (key : String) (entry : Option CachedIntrospection) :
    (s.setCache key entry).calls = s.calls := rfl

@[simp] theorem State.outcome_calls (s : State) (o : Outcome) : (s.outcome o).calls = s.calls := rfl

/-- A revocation succeeds with any answer of the 2xx range. -/
def revokeOk : Exchange → Bool
  | .failed => false
  | .status status => 200 ≤ status && status < 300
  | .notJson => true
  | .response _ => true

def step (s : State) : Turn → Option State
  | .introspect call token =>
    if s.calls call ≠ .idle then none
    else
      match fresh sha256Hex provider s token with
      | some entry => some ((s.outcome (.active token s.turn entry.result entry.given (some entry.stored) s.clock)).goto call .idle)
      | none => some (s.goto call (.asking token s.turn))
  | .answer call exchange =>
    match s.calls call with
    | .asking token started =>
      match accept provider exchange with
      | .error _ => some (s.goto call .idle)
      | .ok result => some (s.goto call (.answered token started result s.turn))
    | _ => none
  | .store call =>
    match s.calls call with
    | .answered token started result given =>
      some (((s.setCache (cacheKey sha256Hex provider token)
        (some ⟨result,s.clock + provider.introspectionCacheTtlS * 10^9,s.clock,given⟩)).outcome
          (.active token started result given none s.clock)).goto call .idle)
    | _ => none
  | .revoke call token => if s.calls call ≠ .idle then none else some (s.goto call (.revoking token))
  | .revokeAnswer call exchange =>
    match s.calls call with
    | .revoking token => some (s.goto call (if revokeOk exchange then .revoked token s.turn else .idle))
    | _ => none
  | .invalidate call =>
    match s.calls call with
    | .revoked token exchanged =>
      some (((s.setCache (cacheKey sha256Hex provider token) none).outcome (.revokedOk token exchanged s.turn)).goto call .idle)
    | _ => none
  | .tick elapsed => some { s with clock := s.clock + elapsed, turn := s.turn + 1 }

/-- The calls to one provider, in any interleaving. -/
def calling : System State Turn where
  init := ⟨0,0,fun _ => none,fun _ => .idle,[]⟩
  step := step sha256Hex provider

end Model

/-- No result that was given before a revocation returns from a call that starts after it. -/
def RevokedStayOut (s : State) : Prop :=
  ∀ token exchanged returned, .revokedOk token exchanged returned ∈ s.log → ∀ started result given stored now,
    .active token started result given stored now ∈ s.log → returned < started → exchanged < given

/-- No result returns past the expiry the provider reported with it. -/
def ExpiredStayOut (s : State) : Prop :=
  ∀ token started result given stored (now : ℕ), .active token started result given stored now ∈ s.log →
    ∀ exp, result.exp = some exp → (now : ℤ) ≤ exp * 10^9

/-- A result from the cache returns within the cache's lifetime of it. -/
def WithinTtl (provider : OidcProvider) (s : State) : Prop :=
  ∀ token started result given stored now, .active token started result given (some stored) now ∈ s.log →
    now < stored + provider.introspectionCacheTtlS * 10^9

/-- No call has an answer from before the revocation that is about to clear the cache. -/
def NoneWaiting (s : State) : Turn → Prop
  | .invalidate call =>
    ∀ token exchanged, s.calls call = .revoked token exchanged →
      ∀ other started result given, s.calls other = .answered token started result given → exchanged < given
  | _ => True

section Runs
variable {sha256Hex : String → String} {provider : OidcProvider}

theorem cacheKey_injective (hsha : Function.Injective sha256Hex) : Function.Injective (cacheKey sha256Hex provider) := by
  intro a b h
  have hlist := congrArg String.toList h
  simp only [cacheKey,String.toList_append] at hlist
  exact hsha (String.toList_inj.mp (List.append_cancel_left hlist))

/-- What is known of the results of a revoked token, and of the turns counted so far. -/
structure Sound (sha256Hex : String → String) (provider : OidcProvider) (s : State) : Prop where
  started_le : ∀ token started result given stored now, .active token started result given stored now ∈ s.log → started ≤ s.turn
  answered_le : ∀ call token started result given, s.calls call = .answered token started result given → started ≤ s.turn
  asking_le : ∀ call token started, s.calls call = .asking token started → started ≤ s.turn
  exchanged_lt : ∀ call token exchanged, s.calls call = .revoked token exchanged → exchanged < s.turn
  revoked_lt : ∀ token exchanged returned, .revokedOk token exchanged returned ∈ s.log → exchanged < s.turn
  cached : ∀ token exchanged returned, .revokedOk token exchanged returned ∈ s.log →
    ∀ entry, s.cache (cacheKey sha256Hex provider token) = some entry → exchanged < entry.given
  waiting : ∀ token exchanged returned, .revokedOk token exchanged returned ∈ s.log →
    ∀ call started result given, s.calls call = .answered token started result given → exchanged < given
  out : RevokedStayOut s
  lifetime : ∀ key entry, s.cache key = some entry → entry.expiresAt = entry.stored + provider.introspectionCacheTtlS * 10^9
  within : WithinTtl provider s

/-- What a call may wait with. -/
def Pending.Fits (s : State) : Pending → Prop
  | .asking _ started => started ≤ s.turn
  | .answered token started _ given => started ≤ s.turn ∧ ∀ exchanged returned, .revokedOk token exchanged returned ∈ s.log → exchanged < given
  | .revoked _ exchanged => exchanged ≤ s.turn
  | _ => True

theorem sound_init : Sound sha256Hex provider (calling sha256Hex provider).init := by
  constructor <;> intros <;> simp_all [calling,RevokedStayOut,WithinTtl]

variable {s : State}

theorem Sound.goto (h : Sound sha256Hex provider s) {call : ℕ} {pending : Pending} (hfits : pending.Fits s) :
    Sound sha256Hex provider (s.goto call pending) := by
  have hcalls : ∀ other p, (s.goto call pending).calls other = p → p = pending ∨ s.calls other = p := by
    intro other p hp
    rw [State.goto_calls] at hp
    by_cases hother : other = call
    · subst hother
      rw [Function.update_self] at hp
      exact .inl hp.symm
    · rw [Function.update_of_ne hother] at hp
      exact .inr hp
  constructor
  · exact fun _ _ _ _ _ _ hmem => Nat.le_succ_of_le (h.started_le _ _ _ _ _ _ hmem)
  · intro other token started result given hp
    rcases hcalls other _ hp with rfl | hold
    · exact Nat.le_succ_of_le hfits.1
    · exact Nat.le_succ_of_le (h.answered_le _ _ _ _ _ hold)
  · intro other token started hp
    rcases hcalls other _ hp with rfl | hold
    · exact Nat.le_succ_of_le hfits
    · exact Nat.le_succ_of_le (h.asking_le _ _ _ hold)
  · intro other token exchanged hp
    rcases hcalls other _ hp with rfl | hold
    · exact Nat.lt_succ_of_le hfits
    · exact Nat.lt_succ_of_lt (h.exchanged_lt _ _ _ hold)
  · exact fun _ _ _ hmem => Nat.lt_succ_of_lt (h.revoked_lt _ _ _ hmem)
  · exact h.cached
  · intro token exchanged returned hmem other started result given hp
    rcases hcalls other _ hp with rfl | hold
    · exact hfits.2 exchanged returned hmem
    · exact h.waiting token exchanged returned hmem other started result given hold
  · exact h.out
  · exact h.lifetime
  · exact h.within

theorem Sound.store (hsha : Function.Injective sha256Hex) (h : Sound sha256Hex provider s) {token : String} {entry : CachedIntrospection}
    (hgiven : ∀ exchanged returned, .revokedOk token exchanged returned ∈ s.log → exchanged < entry.given)
    (hlifetime : entry.expiresAt = entry.stored + provider.introspectionCacheTtlS * 10^9) :
    Sound sha256Hex provider (s.setCache (cacheKey sha256Hex provider token) (some entry)) := by
  refine { h with cached := ?_, lifetime := ?_ }
  · intro other exchanged returned hmem found hfound
    rw [State.setCache_cache] at hfound
    by_cases hkey : cacheKey sha256Hex provider other = cacheKey sha256Hex provider token
    · obtain rfl := cacheKey_injective hsha hkey
      rw [Function.update_self] at hfound
      obtain rfl := Option.some.inj hfound
      exact hgiven exchanged returned hmem
    · rw [Function.update_of_ne hkey] at hfound
      exact h.cached other exchanged returned hmem found hfound
  · intro key found hfound
    rw [State.setCache_cache] at hfound
    by_cases hkey : key = cacheKey sha256Hex provider token
    · subst hkey
      rw [Function.update_self] at hfound
      obtain rfl := Option.some.inj hfound
      exact hlifetime
    · rw [Function.update_of_ne hkey] at hfound
      exact h.lifetime key found hfound

theorem Sound.active (h : Sound sha256Hex provider s) {token : String} {started given now : ℕ} {result : IntrospectionResponse}
    {stored : Option ℕ} (hstarted : started ≤ s.turn)
    (hgiven : ∀ exchanged returned, .revokedOk token exchanged returned ∈ s.log → exchanged < given)
    (hwithin : ∀ moment ∈ stored, now < moment + provider.introspectionCacheTtlS * 10^9) :
    Sound sha256Hex provider (s.outcome (.active token started result given stored now)) := by
  have hrevoked : ∀ {t x r}, Outcome.revokedOk t x r ∈ (s.outcome (.active token started result given stored now)).log → .revokedOk t x r ∈ s.log := by
    intro t x r hmem
    rcases List.mem_append.mp hmem with hold | hnew
    · exact hold
    · exact nomatch List.mem_singleton.mp hnew
  refine ⟨?_,h.answered_le,h.asking_le,h.exchanged_lt,fun t x r hmem => h.revoked_lt t x r (hrevoked hmem),
    fun t x r hmem => h.cached t x r (hrevoked hmem),fun t x r hmem => h.waiting t x r (hrevoked hmem),?_,h.lifetime,?_⟩
  · intro t st res g sto n hmem
    rcases List.mem_append.mp hmem with hold | hnew
    · exact h.started_le t st res g sto n hold
    · obtain ⟨-,rfl,-⟩ := Outcome.active.inj (List.mem_singleton.mp hnew)
      exact hstarted
  · intro t x r hrev st res g sto n hmem hlater
    rcases List.mem_append.mp hmem with hold | hnew
    · exact h.out t x r (hrevoked hrev) st res g sto n hold hlater
    · obtain ⟨rfl,-,-,rfl,-⟩ := Outcome.active.inj (List.mem_singleton.mp hnew)
      exact hgiven x r (hrevoked hrev)
  · intro t st res g sto n hmem
    rcases List.mem_append.mp hmem with hold | hnew
    · exact h.within t st res g sto n hold
    · obtain ⟨-,-,-,-,hstored,rfl⟩ := Outcome.active.inj (List.mem_singleton.mp hnew)
      exact hwithin sto hstored.symm

theorem Sound.cleared (h : Sound sha256Hex provider s) {token : String} {exchanged : ℕ} (hexchanged : exchanged < s.turn)
    (hnone : ∀ call started result given, s.calls call = .answered token started result given → exchanged < given) :
    Sound sha256Hex provider ((s.setCache (cacheKey sha256Hex provider token) none).outcome (.revokedOk token exchanged s.turn)) := by
  have hcache : ∀ {key entry}, (s.setCache (cacheKey sha256Hex provider token) none).cache key = some entry →
      key ≠ cacheKey sha256Hex provider token ∧ s.cache key = some entry := by
    intro key entry hentry
    rw [State.setCache_cache] at hentry
    by_cases hkey : key = cacheKey sha256Hex provider token
    · subst hkey
      rw [Function.update_self] at hentry
      cases hentry
    · rw [Function.update_of_ne hkey] at hentry
      exact ⟨hkey,hentry⟩
  have hactive : ∀ {t st res g sto n}, Outcome.active t st res g sto n ∈ s.log ++ [.revokedOk token exchanged s.turn] → .active t st res g sto n ∈ s.log := by
    intro t st res g sto n hmem
    rcases List.mem_append.mp hmem with hold | hnew
    · exact hold
    · exact nomatch List.mem_singleton.mp hnew
  refine ⟨fun t st res g sto n hmem => h.started_le t st res g sto n (hactive hmem),h.answered_le,h.asking_le,h.exchanged_lt,?_,?_,?_,?_,
    fun key entry hentry => h.lifetime key entry (hcache hentry).2,fun t st res g sto n hmem => h.within t st res g sto n (hactive hmem)⟩
  · intro t x r hmem
    rcases List.mem_append.mp hmem with hold | hnew
    · exact h.revoked_lt t x r hold
    · obtain ⟨-,rfl,-⟩ := Outcome.revokedOk.inj (List.mem_singleton.mp hnew)
      exact hexchanged
  · intro t x r hmem entry hentry
    obtain ⟨hkey,hold'⟩ := hcache hentry
    rcases List.mem_append.mp hmem with hold | hnew
    · exact h.cached t x r hold entry hold'
    · obtain ⟨rfl,-,-⟩ := Outcome.revokedOk.inj (List.mem_singleton.mp hnew)
      exact absurd rfl hkey
  · intro t x r hmem call st res g hcall
    rcases List.mem_append.mp hmem with hold | hnew
    · exact h.waiting t x r hold call st res g hcall
    · obtain ⟨rfl,rfl,-⟩ := Outcome.revokedOk.inj (List.mem_singleton.mp hnew)
      exact hnone call st res g hcall
  · intro t x r hrev st res g sto n hmem hlater
    rcases List.mem_append.mp hrev with hold | hnew
    · exact h.out t x r hold st res g sto n (hactive hmem) hlater
    · obtain ⟨-,-,rfl⟩ := Outcome.revokedOk.inj (List.mem_singleton.mp hnew)
      exact absurd (h.started_le t st res g sto n (hactive hmem)) (Nat.not_le.mpr hlater)

theorem Sound.step (hsha : Function.Injective sha256Hex) (h : Sound sha256Hex provider s) {turn : Turn} (hnone : NoneWaiting s turn) {s' : State}
    (hs : (calling sha256Hex provider).step s turn = some s') : Sound sha256Hex provider s' := by
  cases turn with
  | introspect call token =>
    simp only [calling,Introspection.step] at hs
    split at hs
    case isTrue => cases hs
    case isFalse =>
      split at hs
      case h_1 entry hfresh =>
        obtain rfl := Option.some.inj hs
        obtain ⟨hentry,hlive⟩ := Option.filter_eq_some_iff.mp hfresh
        have hnow := of_decide_eq_true hlive
        rw [h.lifetime _ _ hentry] at hnow
        refine Sound.goto (h.active (Nat.le_refl _) (fun x r hmem => h.cached token x r hmem entry hentry) ?_) trivial
        rintro moment hmoment
        obtain rfl := Option.some.inj hmoment
        exact hnow
      case h_2 =>
        obtain rfl := Option.some.inj hs
        exact h.goto (show Pending.Fits s (.asking token s.turn) from Nat.le_refl _)
  | answer call exchange =>
    simp only [calling,Introspection.step] at hs
    split at hs
    case h_1 token started hcall =>
      split at hs
      case h_1 =>
        obtain rfl := Option.some.inj hs
        exact h.goto (show Pending.Fits s .idle from trivial)
      case h_2 result haccept =>
        obtain rfl := Option.some.inj hs
        exact h.goto (show Pending.Fits s (.answered token started result s.turn) from
          ⟨h.asking_le _ _ _ hcall,fun x r hmem => h.revoked_lt token x r hmem⟩)
    case h_2 => cases hs
  | store call =>
    simp only [calling,Introspection.step] at hs
    split at hs
    case h_1 token started result given hcall =>
      obtain rfl := Option.some.inj hs
      have hgiven := fun x r hmem => h.waiting token x r hmem call started result given hcall
      exact Sound.goto (Sound.active (h.store hsha hgiven rfl) (h.answered_le _ _ _ _ _ hcall) hgiven fun _ hm => absurd hm (Option.not_mem_none _)) trivial
    case h_2 => cases hs
  | revoke call token =>
    simp only [calling,Introspection.step] at hs
    split at hs
    case isTrue => cases hs
    case isFalse =>
      obtain rfl := Option.some.inj hs
      exact h.goto (show Pending.Fits s (.revoking token) from trivial)
  | revokeAnswer call exchange =>
    simp only [calling,Introspection.step] at hs
    split at hs
    case h_1 token hcall =>
      obtain rfl := Option.some.inj hs
      refine h.goto ?_
      split
      · exact Nat.le_refl s.turn
      · trivial
    case h_2 => cases hs
  | invalidate call =>
    simp only [calling,Introspection.step] at hs
    split at hs
    case h_1 token exchanged hcall =>
      obtain rfl := Option.some.inj hs
      exact Sound.goto (h.cleared (h.exchanged_lt _ _ _ hcall) fun other started result given hother =>
        hnone token exchanged hcall other started result given hother) trivial
    case h_2 => cases hs
  | tick elapsed =>
    obtain rfl := Option.some.inj hs
    constructor
    · exact fun _ _ _ _ _ _ hmem => Nat.le_succ_of_le (h.started_le _ _ _ _ _ _ hmem)
    · exact fun _ _ _ _ _ hp => Nat.le_succ_of_le (h.answered_le _ _ _ _ _ hp)
    · exact fun _ _ _ hp => Nat.le_succ_of_le (h.asking_le _ _ _ hp)
    · exact fun _ _ _ hp => Nat.lt_succ_of_lt (h.exchanged_lt _ _ _ hp)
    · exact fun _ _ _ hmem => Nat.lt_succ_of_lt (h.revoked_lt _ _ _ hmem)
    · exact h.cached
    · exact h.waiting
    · exact h.out
    · exact h.lifetime
    · exact h.within

/-- A revocation takes back what the provider said before it, when no answer of before it is on
its way to the cache; and a cached result returns for the cache's lifetime only. -/
theorem revoked_results_stay_out (hsha : Function.Injective sha256Hex) {turns : List Turn} (hrun : (calling sha256Hex provider).run turns = some s)
    (hnone : (calling sha256Hex provider).Along NoneWaiting turns) : RevokedStayOut s ∧ WithinTtl provider s := by
  have hsound := System.guarded_inv (Sound sha256Hex provider) sound_init (fun _ _ _ h hG hs => h.step hsha hG hs) hnone hrun
  exact ⟨hsound.out,hsound.within⟩

end Runs

section Examples

def corporate : OidcProvider := ⟨"corporate","https://id.example",60⟩

/-- The provider reports the token as active until second 10. -/
def untilTen : IntrospectionResponse := ⟨true,some "alice",some "https://id.example",some 10⟩

/-- A result is cached and its token revoked. -/
def revocation : List Turn :=
  [.introspect 0 "t", .answer 0 (.response untilTen), .store 0, .revoke 0 "t", .revokeAnswer 0 (.status 200), .invalidate 0]

theorem revoked_results_stay_out_cached : ∃ s, (calling id corporate).run revocation = some s ∧ RevokedStayOut s ∧ WithinTtl corporate s := by
  have hfrom : System.AlongFrom (calling id corporate) NoneWaiting (calling id corporate).init revocation := by
    refine ⟨trivial,trivial,trivial,trivial,trivial,?_,trivial⟩
    intro token exchanged _ other started result given hother
    by_cases hcall : other = 0
    · subst hcall
      cases hother
    · simp only [State.goto_calls,State.setCache_calls,State.outcome_calls,Function.update_of_ne hcall] at hother
      cases hother
  exact ⟨_,rfl,revoked_results_stay_out Function.injective_id rfl (System.along_of_alongFrom hfrom)⟩

/-- An answer of before the revocation is stored behind it; and a result is returned in second 30
that was good until second 10. -/
theorem revoked_results_return :
    (¬∀ (sha256Hex : String → String), Function.Injective sha256Hex → ∀ (provider : OidcProvider) (turns : List Turn) (s : State),
      (calling sha256Hex provider).run turns = some s → RevokedStayOut s) ∧
    ¬∀ (sha256Hex : String → String), Function.Injective sha256Hex → ∀ (provider : OidcProvider) (turns : List Turn) (s : State),
      (calling sha256Hex provider).run turns = some s → ExpiredStayOut s := by
  constructor
  · intro h
    have hlate := h id Function.injective_id corporate [.introspect 0 "t", .answer 0 (.response untilTen), .revoke 1 "t",
      .revokeAnswer 1 (.status 200), .invalidate 1, .store 0, .introspect 2 "t"] _ rfl
    exact absurd (hlate "t" 3 4 (List.mem_cons_self) 6 untilTen 1 (some 0) 0 (by decide) (by decide)) (by decide)
  · intro h
    have hpast := h id Function.injective_id corporate [.introspect 0 "t", .answer 0 (.response untilTen), .store 0, .tick 30000000000,
      .introspect 1 "t"] _ rfl
    exact absurd (hpast "t" 4 untilTen 1 (some 0) 30000000000 (by decide) 10 rfl) (by decide)

end Examples
end Dwara.Security.Introspection
