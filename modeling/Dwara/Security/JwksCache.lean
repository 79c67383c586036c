import Dwara.Lib.RollingWindow
import Dwara.Lib.System
import Mathlib.Logic.Function.Basic

/-! The key set of a token issuer: fetched when it is stale or a key is unknown, kept a while once it is
superseded. Any number of calls are under way, and one of them at a time fetches. -/

namespace Dwara.Security.Jwks
open Dwara.Lib Dwara.Lib.RollingWindow

inductive AlgorithmParameters where
  | ellipticCurve (params : List UInt8)
  | rsa (params : List UInt8)
  | octetKey (params : List UInt8)
  | octetKeyPair (params : List UInt8)
  deriving DecidableEq, Repr

structure Jwk where
  keyId : Option String
  algorithm : AlgorithmParameters
  deriving DecidableEq, Repr

inductive Algorithm where
  | hs256 | hs384 | hs512 | es256 | es384 | rs256 | rs384 | rs512 | ps256 | ps384 | ps512 | edDsa
  deriving DecidableEq, Repr

/-- The family of keys an algorithm verifies with. -/
def algorithmFamily : Algorithm → String
  | .hs256 | .hs384 | .hs512 => "HS"
  | .rs256 | .rs384 | .rs512 => "RS"
  | .es256 | .es384 => "ES"
  | .edDsa => "Ed"
  | .ps256 | .ps384 | .ps512 => "PS"

def answersFamily (family : String) : AlgorithmParameters → Bool
  | .rsa _ => family == "RS" || family == "PS"
  | .ellipticCurve _ => family == "ES"
  | .octetKeyPair _ => family == "Ed"
  | .octetKey _ => false

def findJwk (set : List Jwk) (kid : Option String) (alg : Algorithm) : Option Jwk :=
  (set.filter fun k => kid.elim true fun id => k.keyId == some id).find? fun k => answersFamily (algorithmFamily alg) k.algorithm

def kids (set : List Jwk) : List String := set.filterMap Jwk.keyId

/-- The sets carry the same key ids, in whatever order. -/
def jwkSetsSameKids (a b : List Jwk) : Bool := (kids a).isPerm (kids b)

inductive AuthError where
  | invalid (reason : String)
  | unavailable (reason : String)
  deriving DecidableEq, Repr

/-- The times of a provider, in seconds. -/
structure JwtProvider where
  refreshSecs : ℕ
  retiredKeyGraceSecs : Option ℕ
  staleOnErrorSecs : Option ℕ

def jwksForcedRefreshMinInterval : ℕ := 5000

namespace JwtProvider
variable (cfg : JwtProvider)

def staleAfter : ℕ := 1000 * max cfg.refreshSecs 1

def failureBackoff : ℕ := 1000 * max (cfg.staleOnErrorSecs.getD (min cfg.refreshSecs 300)) 1

def forcedMinInterval : ℕ := min jwksForcedRefreshMinInterval cfg.staleAfter

def grace : ℕ := 1000 * cfg.retiredKeyGraceSecs.getD 86400

end JwtProvider

structure JwksCacheEntry where
  keys : List Jwk
  retired : Option (List Jwk × ℕ)
  lastRefresh : ℕ
  lastForcedRefresh : Option ℕ
  lastFailedRefresh : Option ℕ

/-- A call of `key_for`: waiting for the lock, with what it read of the cache's age and when, or fetching. -/
inductive Call where
  | idle
  | waiting (kid : Option String) (alg : Algorithm) (fresh : Bool) (since : ℕ)
  | fetching (kid : Option String) (alg : Algorithm) (unknownKid : Bool)

/-- What is seen of the calls, with its time: a fetch begins (of a call begun at `since`, because of an unknown
key or not), a fetch fails (with keys cached or not), a set is delivered, a call returns. -/
inductive JwksAct where
  | fetch (now since : ℕ) (unknownKid : Bool)
  | failed (now : ℕ) (unknownKid cached : Bool)
  | delivered (now : ℕ) (set : List Jwk)
  | returned (now : ℕ) (result : Except AuthError Jwk)

structure Verifier where
  now : ℕ
  cache : JwksCacheEntry
  holder : Option ℕ
  call : ℕ → Call
  log : List JwksAct

inductive JwksEvent where
  | tick (ms : ℕ)
  | keyFor (i : ℕ) (kid : Option String) (alg : Algorithm)
  | locked (i : ℕ)
  | fetched (i : ℕ) (result : Except AuthError (List Jwk))
  | dropped (i : ℕ)

def unknownKey : AuthError := .invalid "token key id is unknown"

namespace Verifier
variable (cfg : JwtProvider) (s : Verifier)

/-- An entry of before `now`, where that can be told. -/
def start (now : ℕ) (dayBefore : Option ℕ) : Verifier where
  now := now
  cache := ⟨[],none,dayBefore.getD now,none,none⟩
  holder := none
  call _ := .idle
  log := []

def fresh : Bool := s.now - s.cache.lastRefresh < cfg.staleAfter

def inFailureBackoff : Bool :=
  !s.cache.keys.isEmpty && s.cache.lastFailedRefresh.any fun t => s.now - t < cfg.failureBackoff

def findRetired (kid : Option String) (alg : Algorithm) : Option Jwk :=
  if cfg.grace = 0 then none
  else
    match s.cache.retired with
    | none => none
    | some (set,stamp) => if cfg.grace ≤ s.now - stamp then none else findJwk set kid alg

/-- A key of the set or else of the superseded one, or else the error. -/
def choose (set : List Jwk) (kid : Option String) (alg : Algorithm) (e : AuthError) : Except AuthError Jwk :=
  match findJwk set kid alg with
  | some jwk => .ok jwk
  | none =>
    match s.findRetired cfg kid alg with
    | some jwk => .ok jwk
    | none => .error e

def answer (i : ℕ) (result : Except AuthError Jwk) : Verifier :=
  { s with call := Function.update s.call i .idle, log := s.log ++ [.returned s.now result] }

def startFetch (i : ℕ) (kid : Option String) (alg : Algorithm) (since : ℕ) (unknownKid : Bool) : Verifier :=
  { s with
    holder := some i
    call := Function.update s.call i (.fetching kid alg unknownKid)
    log := s.log ++ [.fetch s.now since unknownKid] }

/-- Before the lock: a key of a fresh cache is returned. -/
def enter (i : ℕ) (kid : Option String) (alg : Algorithm) : Verifier :=
  match s.fresh cfg,findJwk s.cache.keys kid alg with
  | true,some jwk => s.answer i (.ok jwk)
  | fresh,_ => { s with call := Function.update s.call i (.waiting kid alg fresh s.now) }

/-- Under the lock, where the cache was stale. -/
def refresh (i : ℕ) (kid : Option String) (alg : Algorithm) (since : ℕ) : Verifier :=
  if s.fresh cfg || s.inFailureBackoff cfg then s.answer i (s.choose cfg s.cache.keys kid alg unknownKey)
  else s.startFetch i kid alg since false

def forcedEligible : Bool := !s.cache.lastForcedRefresh.any fun t => s.now - t < cfg.forcedMinInterval

/-- Under the lock, where the cache was fresh and the key unknown. -/
def rotate (i : ℕ) (kid : Option String) (alg : Algorithm) (since : ℕ) : Verifier :=
  match s.choose cfg s.cache.keys kid alg unknownKey with
  | .ok jwk => s.answer i (.ok jwk)
  | .error e =>
    if s.forcedEligible cfg then
      ({ s with cache := { s.cache with lastForcedRefresh := some s.now } }).startFetch i kid alg since true
    else s.answer i (.error e)

/-- A set is delivered: the one it supersedes retires, if the key ids differ. -/
def deliver (set : List Jwk) : Verifier :=
  { s with
    holder := none
    cache := { s.cache with
      keys := set
      retired := if jwkSetsSameKids s.cache.keys set then s.cache.retired else some (s.cache.keys,s.now)
      lastRefresh := s.now
      lastFailedRefresh := none }
    log := s.log ++ [.delivered s.now set] }

def fail (unknownKid : Bool) : Verifier :=
  { s with
    holder := none
    cache := { s.cache with lastFailedRefresh := some s.now }
    log := s.log ++ [.failed s.now unknownKid !s.cache.keys.isEmpty] }

/-- What a call returns whose fetch failed. -/
def degraded (kid : Option String) (alg : Algorithm) (unknownKid : Bool) (e : AuthError) : Except AuthError Jwk :=
  if unknownKid then s.choose cfg [] kid alg (if s.cache.keys.isEmpty then e else unknownKey)
  else if s.cache.keys.isEmpty then .error e
  else s.choose cfg s.cache.keys kid alg unknownKey

def step : JwksEvent → Option Verifier
  | .tick ms => some { s with now := s.now + ms }
  | .keyFor i kid alg =>
    match s.call i with
    | .idle => some (s.enter cfg i kid alg)
    | _ => none
  | .locked i =>
    match s.call i,s.holder with
    | .waiting kid alg fresh since,none => some (if fresh then s.rotate cfg i kid alg since else s.refresh cfg i kid alg since)
    | _,_ => none
  | .fetched i result =>
    match s.call i with
    | .fetching kid alg unknownKid =>
      match result with
      | .ok set => some ((s.deliver set).answer i ((s.deliver set).choose cfg set kid alg unknownKey))
      | .error e => some ((s.fail unknownKid).answer i ((s.fail unknownKid).degraded cfg kid alg unknownKid e))
    | _ => none
  | .dropped i =>
    match s.call i with
    | .idle => none
    | .waiting _ _ _ _ => some { s with call := Function.update s.call i .idle }
    | .fetching _ _ _ => some { s with call := Function.update s.call i .idle, holder := none }

end Verifier

def verifier (cfg : JwtProvider) (now : ℕ) (dayBefore : Option ℕ) : System Verifier JwksEvent :=
  ⟨.start now dayBefore,Verifier.step cfg⟩

/-- The times at which a fetch for an unknown key began. -/
def unknownFetches (log : List JwksAct) : List ℕ := log.filterMap fun act =>
  match act with
  | .fetch now _ true => some now
  | _ => none

/-- Fetches for unknown keys are at most one for each interval started. -/
def ForcedBounded (cfg : JwtProvider) (log : List JwksAct) : Prop := ∀ a l,
  ((unknownFetches log).filter fun t => a ≤ t && t < a + l).length ≤ (l + cfg.forcedMinInterval - 1) / cfg.forcedMinInterval

/-- The failures of stale refreshes, with keys cached, since a set was delivered last. -/
def openFailures (log : List JwksAct) : List ℕ := log.foldl (fun failures act =>
  match act with
  | .failed now false true => failures ++ [now]
  | .delivered _ _ => []
  | _ => failures) []

/-- A fetch keeps its distance from every such failure, or is one for an unknown key by a call that began
before it. -/
def BacksOff (cfg : JwtProvider) (before : List JwksAct) : JwksAct → Prop
  | .fetch now since unknownKid => ∀ f ∈ openFailures before, f + cfg.failureBackoff ≤ now ∨ unknownKid = true ∧ since < f
  | _ => True

/-- The key was in no set delivered since `t`, where one was delivered. -/
def Gone (key : Jwk) (t : ℕ) (log : List JwksAct) : Prop :=
  ∃ front set mid, log = front ++ .delivered t set :: mid ∧ key ∉ set ∧ ∀ now set', .delivered now set' ∈ mid → key ∉ set'

/-- A key is returned within the grace after it was gone. -/
def WithinGrace (cfg : JwtProvider) (before : List JwksAct) : JwksAct → Prop
  | .returned now (.ok key) => ∀ t, Gone key t before → now < t + cfg.grace
  | _ => True

namespace Verifier
variable {cfg : JwtProvider} {s t : Verifier}

/-- The key is in the cached set, or in the superseded one within its grace. -/
def Known (cfg : JwtProvider) (s : Verifier) (key : Jwk) : Prop :=
  key ∈ s.cache.keys ∨ ∃ set stamp, s.cache.retired = some (set,stamp) ∧ key ∈ set ∧ s.now < stamp + cfg.grace

/-- Everything an event can do, with what it needs for it. -/
inductive Move (cfg : JwtProvider) (s : Verifier) : Verifier → Prop where
  | tick (ms : ℕ) : Move cfg s { s with now := s.now + ms }
  | wait (i : ℕ) (kid : Option String) (alg : Algorithm) :
      Move cfg s { s with call := Function.update s.call i (.waiting kid alg (s.fresh cfg) s.now) }
  | answer (i : ℕ) {result : Except AuthError Jwk} (hknown : ∀ key, result = .ok key → s.Known cfg key) :
      Move cfg s (s.answer i result)
  | refresh {i : ℕ} {kid : Option String} {alg : Algorithm} {since : ℕ} (hcall : s.call i = .waiting kid alg false since)
      (hfree : s.holder = none) (hstale : s.fresh cfg = false) (hback : s.inFailureBackoff cfg = false) :
      Move cfg s (s.startFetch i kid alg since false)
  | rotate {i : ℕ} {kid : Option String} {alg : Algorithm} {since : ℕ} (hcall : s.call i = .waiting kid alg true since)
      (hfree : s.holder = none) (heligible : s.forcedEligible cfg = true) :
      Move cfg s (({ s with cache := { s.cache with lastForcedRefresh := some s.now } }).startFetch i kid alg since true)
  | deliver {i : ℕ} {kid : Option String} {alg : Algorithm} {unknownKid : Bool} (hcall : s.call i = .fetching kid alg unknownKid)
      (set : List Jwk) {result : Except AuthError Jwk} (hknown : ∀ key, result = .ok key → (s.deliver set).Known cfg key) :
      Move cfg s ((s.deliver set).answer i result)
  | fail {i : ℕ} {kid : Option String} {alg : Algorithm} {unknownKid : Bool} (hcall : s.call i = .fetching kid alg unknownKid)
      {result : Except AuthError Jwk} (hknown : ∀ key, result = .ok key → (s.fail unknownKid).Known cfg key) :
      Move cfg s ((s.fail unknownKid).answer i result)
  | leave {i : ℕ} {kid : Option String} {alg : Algorithm} {fresh : Bool} {since : ℕ} (hcall : s.call i = .waiting kid alg fresh since) :
      Move cfg s { s with call := Function.update s.call i .idle }
  | drop {i : ℕ} {kid : Option String} {alg : Algorithm} {unknownKid : Bool} (hcall : s.call i = .fetching kid alg unknownKid) :
      Move cfg s { s with call := Function.update s.call i .idle, holder := none }

theorem findJwk_mem {set : List Jwk} {kid : Option String} {alg : Algorithm} {key : Jwk} (h : findJwk set kid alg = some key) : key ∈ set :=
  (List.mem_filter.mp (List.mem_of_find?_eq_some h)).1

theorem findRetired_known {kid : Option String} {alg : Algorithm} {key : Jwk} (h : s.findRetired cfg kid alg = some key) : s.Known cfg key := by
  rw [findRetired] at h
  split at h
  · cases h
  · split at h
    · cases h
    · rename_i set stamp hretired
      split at h
      · cases h
      · exact .inr ⟨set,stamp,hretired,findJwk_mem h,by omega⟩

/-- What is chosen of cached keys is known. -/
theorem choose_known {set : List Jwk} (hset : ∀ key ∈ set, key ∈ s.cache.keys) {kid : Option String} {alg : Algorithm}
    {e : AuthError} {key : Jwk} (h : s.choose cfg set kid alg e = .ok key) : s.Known cfg key := by
  rw [choose] at h
  split at h
  · rename_i found hfound
    cases h
    exact .inl (hset key (findJwk_mem hfound))
  · split at h
    · rename_i found hfound
      cases h
      exact findRetired_known hfound
    · cases h

theorem degraded_known {kid : Option String} {alg : Algorithm} {unknownKid : Bool} {e : AuthError} {key : Jwk}
    (h : s.degraded cfg kid alg unknownKid e = .ok key) : s.Known cfg key := by
  rw [degraded] at h
  split at h
  · exact choose_known (fun _ hmem => absurd hmem List.not_mem_nil) h
  · split at h
    · cases h
    · exact choose_known (fun _ hmem => hmem) h

theorem move_of_step {e : JwksEvent} (h : s.step cfg e = some t) : Move cfg s t := by
  cases e with
  | tick ms =>
    cases h
    exact .tick ms
  | keyFor i kid alg =>
    simp only [step] at h
    split at h
    · cases h
      rw [enter]
      split
      · rename_i key hfresh hfound
        exact .answer i fun other hother => .inl (findJwk_mem (hfound.trans (congrArg some (Except.ok.inj hother))))
      · exact .wait i kid alg
    · cases h
  | locked i =>
    simp only [step] at h
    split at h
    · rename_i kid alg fresh since hcall hfree
      cases h
      cases fresh with
      | false =>
        show Move cfg s (s.refresh cfg i kid alg since)
        rw [refresh]
        split
        · exact .answer i fun key hkey => choose_known (fun _ hmem => hmem) hkey
        · rename_i hfetches
          obtain ⟨hstale,hback⟩ := not_or.mp (fun h => hfetches (Bool.or_eq_true_iff.mpr h))
          exact .refresh hcall hfree (Bool.eq_false_iff.mpr hstale) (Bool.eq_false_iff.mpr hback)
      | true =>
        show Move cfg s (s.rotate cfg i kid alg since)
        rw [rotate]
        split
        · rename_i key hkey
          exact .answer i fun other hother => Except.ok.inj hother ▸ choose_known (fun _ hmem => hmem) hkey
        · split
          · exact .rotate hcall hfree ‹_›
          · exact .answer i nofun
    · cases h
  | fetched i result =>
    simp only [step] at h
    split at h
    · rename_i kid alg unknownKid hcall
      cases result with
      | ok set =>
        cases h
        exact .deliver hcall set fun key hkey => choose_known (fun _ hmem => hmem) hkey
      | error e =>
        cases h
        exact .fail hcall fun key hkey => degraded_known hkey
    · cases h
  | dropped i =>
    simp only [step] at h
    split at h
    · cases h
    · rename_i hcall
      cases h
      exact .leave hcall
    · rename_i hcall
      cases h
      exact .drop hcall

theorem staleAfter_pos (cfg : JwtProvider) : 0 < cfg.staleAfter :=
  Nat.mul_pos (by decide) (Nat.lt_of_lt_of_le Nat.one_pos (Nat.le_max_right _ _))

theorem forcedMinInterval_pos (cfg : JwtProvider) : 0 < cfg.forcedMinInterval := lt_min (by decide) (staleAfter_pos cfg)

theorem fresh_eq_false (h : s.fresh cfg = false) : s.cache.lastRefresh + cfg.staleAfter ≤ s.now := by
  have hpos := staleAfter_pos cfg
  have hle : cfg.staleAfter ≤ s.now - s.cache.lastRefresh := by simpa [fresh] using h
  omega

theorem call_update {call : ℕ → Call} {i j : ℕ} {c c' : Call} (h : Function.update call i c j = c') :
    j = i ∧ c = c' ∨ j ≠ i ∧ call j = c' := by
  by_cases hj : j = i
  · subst hj
    rw [Function.update_self] at h
    exact .inl ⟨rfl,h⟩
  · rw [Function.update_of_ne hj] at h
    exact .inr ⟨hj,h⟩

/-- Who fetches holds the lock, and fetches for a stale cache while it is stale; who waits with a fresh cache
read it so. -/
structure Calls (cfg : JwtProvider) (s : Verifier) : Prop where
  locked : ∀ i kid alg unknownKid, s.call i = .fetching kid alg unknownKid → s.holder = some i
  stale : ∀ i kid alg, s.call i = .fetching kid alg false → s.cache.lastRefresh + cfg.staleAfter ≤ s.now
  waiting : ∀ i kid alg since, s.call i = .waiting kid alg true since → since ≤ s.now ∧ since < s.cache.lastRefresh + cfg.staleAfter

/-- One call fetches at a time. -/
theorem Calls.alone (hs : s.Calls cfg) {i j : ℕ} {kid kid' : Option String} {alg alg' : Algorithm} {u u' : Bool}
    (hi : s.call i = .fetching kid alg u) (hj : s.call j = .fetching kid' alg' u') : j = i :=
  Option.some.inj ((hs.locked j _ _ _ hj).symm.trans (hs.locked i _ _ _ hi))

/-- One call changes; where another fetches, the lock and the age of the cache stay. -/
theorem Calls.of_update (hs : s.Calls cfg) {i : ℕ} {c : Call} (hcall : t.call = Function.update s.call i c)
    (hfetching : ∀ kid alg u, c = .fetching kid alg u →
      t.holder = some i ∧ (u = false → t.cache.lastRefresh + cfg.staleAfter ≤ t.now))
    (hwaiting : ∀ kid alg since, c = .waiting kid alg true since → since ≤ t.now ∧ since < t.cache.lastRefresh + cfg.staleAfter)
    (hothers : ∀ j kid alg u, j ≠ i → s.call j = .fetching kid alg u →
      t.holder = s.holder ∧ t.cache.lastRefresh = s.cache.lastRefresh)
    (hnow : s.now ≤ t.now)
    (hrefresh : ∀ since ≤ s.now, since < s.cache.lastRefresh + cfg.staleAfter → since < t.cache.lastRefresh + cfg.staleAfter) :
    t.Calls cfg := by
  refine ⟨fun j kid alg u hj => ?_,fun j kid alg hj => ?_,fun j kid alg since hj => ?_⟩
  · rw [hcall] at hj
    rcases call_update hj with ⟨rfl,hc⟩ | ⟨hne,hj⟩
    · exact (hfetching kid alg u hc).1
    · exact (hothers j kid alg u hne hj).1.trans (hs.locked j kid alg u hj)
  · rw [hcall] at hj
    rcases call_update hj with ⟨rfl,hc⟩ | ⟨hne,hj⟩
    · exact (hfetching kid alg false hc).2 rfl
    · rw [(hothers j kid alg false hne hj).2]
      exact (hs.stale j kid alg hj).trans hnow
  · rw [hcall] at hj
    rcases call_update hj with ⟨rfl,hc⟩ | ⟨-,hj⟩
    · exact hwaiting kid alg since hc
    · obtain ⟨hle,hlt⟩ := hs.waiting j kid alg since hj
      exact ⟨hle.trans hnow,hrefresh since hle hlt⟩

/-- A call ends, and nothing else changes for the others. -/
theorem Calls.of_end (hs : s.Calls cfg) {i : ℕ} (hcall : t.call = Function.update s.call i .idle) (hholder : t.holder = s.holder)
    (hrefresh : t.cache.lastRefresh = s.cache.lastRefresh) (hnow : s.now ≤ t.now) : t.Calls cfg :=
  hs.of_update hcall (fun _ _ _ h => by cases h) (fun _ _ _ h => by cases h) (fun _ _ _ _ _ _ => ⟨hholder,hrefresh⟩) hnow
    (fun _ _ h => hrefresh ▸ h)

theorem calls_step (hs : s.Calls cfg) (h : Move cfg s t) : t.Calls cfg := by
  cases h with
  | tick ms =>
    refine ⟨hs.locked,fun i kid alg hi => ?_,fun i kid alg since hi => ?_⟩
    · exact (hs.stale i kid alg hi).trans (Nat.le_add_right _ _)
    · obtain ⟨hle,hlt⟩ := hs.waiting i kid alg since hi
      exact ⟨hle.trans (Nat.le_add_right _ _),hlt⟩
  | wait i kid alg =>
    refine hs.of_update rfl (fun _ _ _ h => by cases h) (fun kid' alg' since hread => ?_) (fun _ _ _ _ _ _ => ⟨rfl,rfl⟩) le_rfl
      (fun _ _ h => h)
    obtain ⟨-,-,hfresh,rfl⟩ := Call.waiting.inj hread
    have hlt : s.now - s.cache.lastRefresh < cfg.staleAfter := of_decide_eq_true hfresh
    exact ⟨le_rfl,show s.now < s.cache.lastRefresh + cfg.staleAfter by omega⟩
  | answer i hknown => exact hs.of_end rfl rfl rfl le_rfl
  | @refresh i kid alg since hcall hfree hstale hback =>
    refine hs.of_update rfl (fun _ _ _ _ => ⟨rfl,fun _ => fresh_eq_false hstale⟩) (fun _ _ _ h => by cases h) ?_ le_rfl
      (fun _ _ h => h)
    exact fun j _ _ _ _ hj => by cases hfree.symm.trans (hs.locked j _ _ _ hj)
  | @rotate i kid alg since hcall hfree heligible =>
    refine hs.of_update rfl (fun kid' alg' u hfetch => ⟨rfl,fun hu => ?_⟩) (fun _ _ _ h => by cases h) ?_ le_rfl (fun _ _ h => h)
    · cases hu
      cases hfetch
    · exact fun j _ _ _ _ hj => by cases hfree.symm.trans (hs.locked j _ _ _ hj)
  | @deliver i kid alg u hcall set result hknown =>
    refine hs.of_update rfl (fun _ _ _ h => by cases h) (fun _ _ _ h => by cases h) ?_ le_rfl (fun since hle _ => ?_)
    · exact fun j _ _ _ hne hj => absurd (hs.alone hcall hj) hne
    · exact Nat.lt_of_le_of_lt hle (Nat.lt_add_of_pos_right (staleAfter_pos cfg))
  | @fail i kid alg u hcall result hknown =>
    refine hs.of_update rfl (fun _ _ _ h => by cases h) (fun _ _ _ h => by cases h) ?_ le_rfl (fun _ _ h => h)
    exact fun j _ _ _ hne hj => absurd (hs.alone hcall hj) hne
  | leave hcall => exact hs.of_end rfl rfl rfl le_rfl
  | drop hcall =>
    refine hs.of_update rfl (fun _ _ _ h => by cases h) (fun _ _ _ h => by cases h) ?_ le_rfl (fun _ _ h => h)
    exact fun j _ _ _ hne hj => absurd (hs.alone hcall hj) hne

theorem unknownFetches_append (log acts : List JwksAct) : unknownFetches (log ++ acts) = unknownFetches log ++ unknownFetches acts :=
  List.filterMap_append

/-- Fetches for unknown keys are spaced, and the last of them is remembered. -/
structure Forced (cfg : JwtProvider) (s : Verifier) : Prop where
  spaced : Spaced cfg.forcedMinInterval (unknownFetches s.log)
  remembered : ∀ t ∈ unknownFetches s.log, ∃ u, s.cache.lastForcedRefresh = some u ∧ t ≤ u

theorem Forced.of_eq (hs : s.Forced cfg) (hlog : unknownFetches t.log = unknownFetches s.log)
    (hlast : t.cache.lastForcedRefresh = s.cache.lastForcedRefresh) : t.Forced cfg := by
  constructor
  · rw [hlog]
    exact hs.spaced
  · rw [hlog,hlast]
    exact hs.remembered

theorem forced_step (hs : s.Forced cfg) (h : Move cfg s t) : t.Forced cfg := by
  cases h with
  | tick ms => exact hs.of_eq rfl rfl
  | wait i kid alg => exact hs.of_eq rfl rfl
  | answer i hknown => exact hs.of_eq (by simp [Verifier.answer,unknownFetches]) rfl
  | refresh hcall hfree hstale hback => exact hs.of_eq (by simp [startFetch,unknownFetches]) rfl
  | @rotate i kid alg since hcall hfree heligible =>
    have hlog : unknownFetches (s.log ++ [.fetch s.now since true]) = unknownFetches s.log ++ [s.now] := unknownFetches_append _ _
    have hgap : ∀ t ∈ unknownFetches s.log, t + cfg.forcedMinInterval ≤ s.now := fun t ht => by
      obtain ⟨u,hu,htu⟩ := hs.remembered t ht
      have hfar : cfg.forcedMinInterval ≤ s.now - u := by simpa [forcedEligible,hu] using heligible
      have hpos := forcedMinInterval_pos cfg
      omega
    refine ⟨?_,fun t ht => ⟨s.now,rfl,?_⟩⟩
    · show Spaced _ (unknownFetches (s.log ++ [.fetch s.now since true]))
      rw [hlog]
      exact List.pairwise_append.mpr ⟨hs.spaced,List.pairwise_singleton _ _,fun t ht u hu => List.mem_singleton.mp hu ▸ hgap t ht⟩
    · rcases List.mem_append.mp (hlog ▸ ht) with ht | ht
      · exact (Nat.le_add_right _ _).trans (hgap t ht)
      · exact (List.mem_singleton.mp ht).le
  | deliver hcall set hknown => exact hs.of_eq (by simp [Verifier.answer,Verifier.deliver,unknownFetches]) rfl
  | fail hcall hknown => exact hs.of_eq (by simp [Verifier.answer,Verifier.fail,unknownFetches]) rfl
  | leave hcall => exact hs.of_eq rfl rfl
  | drop hcall => exact hs.of_eq rfl rfl

theorem openFailures_concat (log : List JwksAct) (act : JwksAct) : openFailures (log ++ [act]) =
    match act with
    | .failed now false true => openFailures log ++ [now]
    | .delivered _ _ => []
    | _ => openFailures log := by
  rw [openFailures,List.foldl_append]
  rfl

/-- What is cached is stale and failed since, as long as a failure is open. -/
structure Failures (cfg : JwtProvider) (s : Verifier) : Prop where
  cached : ∀ f ∈ openFailures s.log, s.cache.keys ≠ []
  stale : ∀ f ∈ openFailures s.log, s.cache.lastRefresh + cfg.staleAfter ≤ f
  le_now : ∀ f ∈ openFailures s.log, f ≤ s.now
  remembered : ∀ f ∈ openFailures s.log, ∃ g, s.cache.lastFailedRefresh = some g ∧ f ≤ g
  backs : EachEntry (BacksOff cfg) s.log

theorem Failures.of_eq (hs : s.Failures cfg) (hopen : openFailures t.log = openFailures s.log) (hkeys : t.cache.keys = s.cache.keys)
    (hrefresh : t.cache.lastRefresh = s.cache.lastRefresh) (hfailed : t.cache.lastFailedRefresh = s.cache.lastFailedRefresh)
    (hnow : s.now ≤ t.now) (hbacks : EachEntry (BacksOff cfg) t.log) : t.Failures cfg := by
  refine ⟨?_,?_,?_,?_,hbacks⟩
  all_goals rw [hopen]
  · rw [hkeys]
    exact hs.cached
  · rw [hrefresh]
    exact hs.stale
  · exact fun f hf => (hs.le_now f hf).trans hnow
  · rw [hfailed]
    exact hs.remembered

theorem failureBackoff_pos (cfg : JwtProvider) : 0 < cfg.failureBackoff :=
  Nat.mul_pos (by decide) (Nat.lt_of_lt_of_le Nat.one_pos (Nat.le_max_right _ _))

/-- A fetch for a stale cache begins after the backoff. -/
theorem backsOff_refresh (hs : s.Failures cfg) (since : ℕ) (h : s.inFailureBackoff cfg = false) :
    BacksOff cfg s.log (.fetch s.now since false) := by
  intro f hf
  obtain ⟨g,hg,hfg⟩ := hs.remembered f hf
  have hcached : s.cache.keys.isEmpty = false := by simpa using hs.cached f hf
  have hfar : cfg.failureBackoff ≤ s.now - g := by simpa [inFailureBackoff,hcached,hg] using h
  have hpos := failureBackoff_pos cfg
  exact .inl (by omega)

theorem failures_step (hcalls : s.Calls cfg) (hs : s.Failures cfg) (h : Move cfg s t) : t.Failures cfg := by
  cases h with
  | tick ms => exact hs.of_eq rfl rfl rfl rfl (Nat.le_add_right _ _) hs.backs
  | wait i kid alg => exact hs.of_eq rfl rfl rfl rfl le_rfl hs.backs
  | answer i hknown => exact hs.of_eq (openFailures_concat _ _) rfl rfl rfl le_rfl (hs.backs.concat trivial)
  | @refresh i kid alg since hcall hfree hstale hback =>
    exact hs.of_eq (openFailures_concat _ _) rfl rfl rfl le_rfl (hs.backs.concat (backsOff_refresh hs since hback))
  | @rotate i kid alg since hcall hfree heligible =>
    refine hs.of_eq (openFailures_concat _ _) rfl rfl rfl le_rfl (hs.backs.concat fun f hf => .inr ⟨rfl,?_⟩)
    exact Nat.lt_of_lt_of_le (hcalls.waiting i kid alg since hcall).2 (hs.stale f hf)
  | @deliver i kid alg u hcall set result hknown =>
    have hnone : openFailures ((s.deliver set).answer i result).log = [] := by
      show openFailures ((s.log ++ [.delivered s.now set]) ++ [.returned s.now result]) = []
      rw [openFailures_concat,openFailures_concat]
    have hbacks : EachEntry (BacksOff cfg) (s.log ++ [.delivered s.now set]) := hs.backs.concat trivial
    refine ⟨?_,?_,?_,?_,hbacks.concat trivial⟩
    all_goals
      rw [hnone]
      exact fun f hf => absurd hf List.not_mem_nil
  | @fail i kid alg u hcall result hknown =>
    have hmem : ∀ f ∈ openFailures ((s.fail u).answer i result).log,
        f ∈ openFailures s.log ∨ f = s.now ∧ u = false ∧ s.cache.keys.isEmpty = false := by
      intro f hf
      have hlog : openFailures ((s.fail u).answer i result).log = openFailures (s.log ++ [.failed s.now u !s.cache.keys.isEmpty]) :=
        openFailures_concat _ _
      rw [hlog,openFailures_concat] at hf
      split at hf
      · rename_i heq
        obtain ⟨rfl,rfl,hcached⟩ := JwksAct.failed.inj heq
        rcases List.mem_append.mp hf with hf | hf
        · exact .inl hf
        · exact .inr ⟨List.mem_singleton.mp hf,rfl,by simpa using hcached⟩
      · rename_i heq
        cases heq
      · exact .inl hf
    have hbacks : EachEntry (BacksOff cfg) (s.log ++ [.failed s.now u !s.cache.keys.isEmpty]) := hs.backs.concat trivial
    refine ⟨fun f hf => ?_,fun f hf => ?_,fun f hf => ?_,fun f hf => ⟨s.now,rfl,?_⟩,hbacks.concat trivial⟩
    · rcases hmem f hf with hf | ⟨-,-,hcached⟩
      · exact hs.cached f hf
      · exact fun hnil => by
          have hkeys : s.cache.keys = [] := hnil
          rw [hkeys] at hcached
          cases hcached
    · rcases hmem f hf with hf | ⟨rfl,rfl,-⟩
      · exact hs.stale f hf
      · exact hcalls.stale i kid alg hcall
    · rcases hmem f hf with hf | ⟨rfl,-⟩
      · exact hs.le_now f hf
      · exact le_rfl
    · rcases hmem f hf with hf | ⟨rfl,-⟩
      · exact hs.le_now f hf
      · exact le_rfl
  | leave hcall => exact hs.of_eq rfl rfl rfl rfl le_rfl hs.backs
  | drop hcall => exact hs.of_eq rfl rfl rfl rfl le_rfl hs.backs

theorem gone_of_concat {key : Jwk} {u : ℕ} {log : List JwksAct} {act : JwksAct} (h : Gone key u (log ++ [act])) :
    (Gone key u log ∨ ∃ set, act = .delivered u set) ∧ ∀ now set, act = .delivered now set → key ∉ set := by
  obtain ⟨front,set,mid,hlog,hset,hmid⟩ := h
  induction mid using List.reverseRecOn with
  | nil =>
    obtain ⟨-,hact⟩ := List.append_inj' hlog rfl
    obtain rfl := List.singleton_inj.mp hact
    refine ⟨.inr ⟨set,rfl⟩,fun now set' hdelivered => ?_⟩
    obtain ⟨-,rfl⟩ := JwksAct.delivered.inj hdelivered
    exact hset
  | append_singleton mid last _ =>
    rw [← List.cons_append,← List.append_assoc] at hlog
    obtain ⟨hfront,hact⟩ := List.append_inj' hlog rfl
    obtain rfl := List.singleton_inj.mp hact
    refine ⟨.inl ⟨front,set,mid,hfront,hset,fun now set' hmem => hmid now set' (List.mem_append_left _ hmem)⟩,fun now set' hdelivered => ?_⟩
    exact hmid now set' (hdelivered ▸ List.mem_append_right _ List.mem_cons_self)

/-- A key that is gone is not cached, and superseded no later than it was gone. -/
structure Retirement (cfg : JwtProvider) (s : Verifier) : Prop where
  stamp_le : ∀ set stamp, s.cache.retired = some (set,stamp) → stamp ≤ s.now
  cached : ∀ key u, Gone key u s.log → key ∉ s.cache.keys
  superseded : ∀ key u, Gone key u s.log → ∀ set stamp, s.cache.retired = some (set,stamp) → key ∈ set → stamp ≤ u
  within : EachEntry (WithinGrace cfg) s.log

theorem Retirement.of_eq (hs : s.Retirement cfg) (hgone : ∀ key u, Gone key u t.log → Gone key u s.log)
    (hkeys : t.cache.keys = s.cache.keys) (hretired : t.cache.retired = s.cache.retired) (hnow : s.now ≤ t.now)
    (hwithin : EachEntry (WithinGrace cfg) t.log) : t.Retirement cfg := by
  refine ⟨?_,?_,?_,hwithin⟩
  · rw [hretired]
    exact fun set stamp h => (hs.stamp_le set stamp h).trans hnow
  · rw [hkeys]
    exact fun key u h => hs.cached key u (hgone key u h)
  · rw [hretired]
    exact fun key u h => hs.superseded key u (hgone key u h)

/-- Where no set is delivered, nothing more is gone. -/
theorem gone_concat {log : List JwksAct} {act : JwksAct} (hact : ∀ now set, act ≠ .delivered now set) (key : Jwk) (u : ℕ)
    (h : Gone key u (log ++ [act])) : Gone key u log :=
  (gone_of_concat h).1.resolve_right fun ⟨set,hset⟩ => hact u set hset

theorem withinGrace_returned (hs : s.Retirement cfg) {result : Except AuthError Jwk} (hknown : ∀ key, result = .ok key → s.Known cfg key) :
    WithinGrace cfg s.log (.returned s.now result) := by
  cases result with
  | error e => trivial
  | ok key =>
    intro u hgone
    rcases hknown key rfl with hcached | ⟨set,stamp,hretired,hmem,hgrace⟩
    · exact absurd hcached (hs.cached key u hgone)
    · exact Nat.lt_of_lt_of_le hgrace (Nat.add_le_add_right (hs.superseded key u hgone set stamp hretired hmem) _)

theorem retirement_answer (hs : s.Retirement cfg) (i : ℕ) {result : Except AuthError Jwk}
    (hknown : ∀ key, result = .ok key → s.Known cfg key) : (s.answer i result).Retirement cfg :=
  hs.of_eq (gone_concat nofun) rfl rfl le_rfl (hs.within.concat (withinGrace_returned hs hknown))

theorem retirement_deliver (hs : s.Retirement cfg) (set : List Jwk) : (s.deliver set).Retirement cfg := by
  refine ⟨fun old stamp hretired => ?_,fun key u hgone => ?_,fun key u hgone old stamp hretired hmem => ?_,hs.within.concat trivial⟩
  · have hcases : (if jwkSetsSameKids s.cache.keys set then s.cache.retired else some (s.cache.keys,s.now)) = some (old,stamp) := hretired
    split at hcases
    · exact hs.stamp_le old stamp hcases
    · cases hcases
      exact le_rfl
  · exact (gone_of_concat hgone).2 s.now set rfl
  · have hcases : (if jwkSetsSameKids s.cache.keys set then s.cache.retired else some (s.cache.keys,s.now)) = some (old,stamp) := hretired
    rcases (gone_of_concat hgone).1 with hbefore | ⟨_,hnow⟩
    · split at hcases
      · exact hs.superseded key u hbefore old stamp hcases hmem
      · cases hcases
        exact absurd hmem (hs.cached key u hbefore)
    · obtain ⟨rfl,-⟩ := JwksAct.delivered.inj hnow
      split at hcases
      · exact hs.stamp_le old stamp hcases
      · cases hcases
        exact le_rfl

theorem retirement_step (hs : s.Retirement cfg) (h : Move cfg s t) : t.Retirement cfg := by
  cases h with
  | tick ms => exact hs.of_eq (fun _ _ h => h) rfl rfl (Nat.le_add_right _ _) hs.within
  | wait i kid alg => exact hs.of_eq (fun _ _ h => h) rfl rfl le_rfl hs.within
  | answer i hknown => exact retirement_answer hs i hknown
  | refresh hcall hfree hstale hback => exact hs.of_eq (gone_concat nofun) rfl rfl le_rfl (hs.within.concat trivial)
  | rotate hcall hfree heligible => exact hs.of_eq (gone_concat nofun) rfl rfl le_rfl (hs.within.concat trivial)
  | @deliver i kid alg u hcall set result hknown => exact retirement_answer (retirement_deliver hs set) i hknown
  | @fail i kid alg u hcall result hknown =>
    have hfail : (s.fail u).Retirement cfg := hs.of_eq (gone_concat nofun) rfl rfl le_rfl (hs.within.concat trivial)
    exact retirement_answer hfail i hknown
  | leave hcall => exact hs.of_eq (fun _ _ h => h) rfl rfl le_rfl hs.within
  | drop hcall => exact hs.of_eq (fun _ _ h => h) rfl rfl le_rfl hs.within

end Verifier

open Verifier

section Runs
variable {cfg : JwtProvider} {now : ℕ} {dayBefore : Option ℕ} {events : List JwksEvent} {s : Verifier}

theorem calls_start : (Verifier.start now dayBefore).Calls cfg where
  locked _ _ _ _ h := by cases h
  stale _ _ _ h := by cases h
  waiting _ _ _ _ h := by cases h

theorem forced_start : (Verifier.start now dayBefore).Forced cfg where
  spaced := List.Pairwise.nil
  remembered _ h := absurd h List.not_mem_nil

theorem failures_start : (Verifier.start now dayBefore).Failures cfg where
  cached _ h := absurd h List.not_mem_nil
  stale _ h := absurd h List.not_mem_nil
  le_now _ h := absurd h List.not_mem_nil
  remembered _ h := absurd h List.not_mem_nil
  backs := .nil

theorem not_gone_nil {key : Jwk} {u : ℕ} : ¬ Gone key u [] := by
  rintro ⟨front,set,mid,hlog,-⟩
  exact absurd hlog (by simp)

theorem retirement_start : (Verifier.start now dayBefore).Retirement cfg where
  stamp_le _ _ h := by cases h
  cached _ _ h := absurd h not_gone_nil
  superseded _ _ h := absurd h not_gone_nil
  within := .nil

theorem forced_run (hr : (verifier cfg now dayBefore).run events = some s) : s.Forced cfg :=
  System.run_inv (Forced cfg) forced_start (fun _ _ _ hs h => forced_step hs (move_of_step h)) hr

theorem failures_run (hr : (verifier cfg now dayBefore).run events = some s) : s.Failures cfg :=
  (System.run_inv (fun s => s.Calls cfg ∧ s.Failures cfg) ⟨calls_start,failures_start⟩
    (fun _ _ _ hs h => ⟨calls_step hs.1 (move_of_step h),failures_step hs.1 hs.2 (move_of_step h)⟩) hr).2

theorem retirement_run (hr : (verifier cfg now dayBefore).run events = some s) : s.Retirement cfg :=
  System.run_inv (Retirement cfg) retirement_start (fun _ _ _ hs h => retirement_step hs (move_of_step h)) hr

/-- Fetches for unknown keys are spaced; a fetch backs off from the failures of stale refreshes, unless it is for
an unknown key by a call that began before; and a key is returned within its grace once it is gone. -/
theorem jwks_bounded (hr : (verifier cfg now dayBefore).run events = some s) :
    ForcedBounded cfg s.log ∧ EachEntry (BacksOff cfg) s.log ∧ EachEntry (WithinGrace cfg) s.log := by
  refine ⟨fun a l => ?_,(failures_run hr).backs,(retirement_run hr).within⟩
  have hspaced : Spaced cfg.forcedMinInterval ((unknownFetches s.log).filter fun t => a ≤ t && t < a + l) := (forced_run hr).spaced.filter _
  exact hspaced.length_le (forcedMinInterval_pos cfg) fun t ht => by simpa using (List.mem_filter.mp ht).2

end Runs

/-- A provider that is asked again after five minutes, and its two keys. -/
def issuer : JwtProvider := ⟨300,some 10,some 60⟩

def oldKey : Jwk := ⟨some "old",.rsa [1]⟩

def newKey : Jwk := ⟨some "new",.rsa [2]⟩

def askFor (i : ℕ) (kid : String) : JwksEvent := .keyFor i (some kid) .rs256

/-- The keys are rotated: the old one is returned for ten seconds more. -/
theorem jwks_bounded_rotation : ∃ s, (verifier issuer 90000000 (some 3600000)).run
      [askFor 0 "old",.locked 0,.fetched 0 (.ok [oldKey]),.tick 1000,askFor 1 "new",.locked 1,.fetched 1 (.ok [newKey]),.tick 9999,
        askFor 2 "old",.locked 2] = some s ∧
    (JwksAct.returned 90010999 (.ok oldKey)) ∈ s.log ∧ EachEntry (WithinGrace issuer) s.log := by
  refine ⟨_,rfl,List.mem_of_mem_getLast? rfl,?_⟩
  exact (@jwks_bounded issuer 90000000 (some 3600000) [askFor 0 "old",.locked 0,.fetched 0 (.ok [oldKey]),.tick 1000,askFor 1 "new",.locked 1,
    .fetched 1 (.ok [newKey]),.tick 9999,askFor 2 "old",.locked 2] _ rfl).2.2

def outage : AuthError := .unavailable "jwks endpoint answered 503"

/-- A key is returned past its grace where nothing was fetched, and there is a fetch in the backoff: of a call that
began before the cache was stale, or after a refresh that succeeded. -/
theorem jwks_unbounded_cases :
    ((verifier issuer 90000000 (some 3600000)).run
      [askFor 0 "old",.locked 0,.fetched 0 (.ok [oldKey]),.tick 12000,askFor 1 "old"]).map (·.log) = some
      [.fetch 90000000 90000000 false,.delivered 90000000 [oldKey],.returned 90000000 (.ok oldKey),.returned 90012000 (.ok oldKey)] ∧
    ((verifier issuer 90000000 (some 3600000)).run
      [askFor 0 "old",.locked 0,.fetched 0 (.ok [oldKey]),.tick 299000,askFor 1 "new",.tick 2000,askFor 2 "old",.locked 2,
        .fetched 2 (.error outage),.locked 1]).map (·.log) = some
      [.fetch 90000000 90000000 false,.delivered 90000000 [oldKey],.returned 90000000 (.ok oldKey),.fetch 90301000 90301000 false,
        .failed 90301000 false true,.returned 90301000 (.ok oldKey),.fetch 90301000 90299000 true] ∧
    ((verifier issuer 90000000 (some 3600000)).run
      [askFor 0 "old",.locked 0,.fetched 0 (.error outage),.tick 1000,askFor 1 "old",.locked 1,.fetched 1 (.ok [oldKey]),.tick 1000,
        askFor 2 "new",.locked 2]).map (·.log) = some
      [.fetch 90000000 90000000 false,.failed 90000000 false false,.returned 90000000 (.error outage),.fetch 90001000 90001000 false,
        .delivered 90001000 [oldKey],.returned 90001000 (.ok oldKey),.fetch 90002000 90002000 true] :=
  ⟨rfl,rfl,rfl⟩

end Dwara.Security.Jwks
