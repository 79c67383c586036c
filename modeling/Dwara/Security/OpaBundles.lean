import Dwara.Lib.System
import Dwara.Security.OpaCallout

/-! Calls and bundle downloads of one client, interleaved: each lock and each exchange is
one step. Steps are counted, and a decision carries the step in which OPA gave it. -/

namespace Dwara.Security.Opa
open Dwara.Lib

inductive Call where
  | missed (input : JsonValue) (started : ℕ)
  | answered (input : JsonValue) (started : ℕ) (d : OpaDecision) (given : ℕ)
  | done (started : ℕ) (result : Except OpaError OpaDecision) (given : Option ℕ)

namespace Call

def started : Call → ℕ
  | missed _ started => started
  | answered _ started _ _ => started
  | done started _ _ => started

/-- When the decision was given that a call is about to cache. -/
def held : Call → Option ℕ
  | answered _ _ _ given => some given
  | _ => none

/-- When the decision was given that a call has returned; none for the outage policy's. -/
def returned : Call → Option ℕ
  | done _ _ given => given
  | _ => none

end Call

inductive Download where
  | fetched (since : ℕ) (revision : String)
  | marked (since : ℕ)
  | done (since finished : ℕ) (changed : Bool)
  | failed (e : OpaError)

/-- When the revision was fetched. -/
def Download.since : Download → Option ℕ
  | fetched since _ => some since
  | marked since => some since
  | done since _ _ => some since
  | failed _ => none

structure World where
  steps : ℕ
  cache : DecisionCache
  given : String → ℕ
  bundleRevision : Option String
  calls : List Call
  downloads : List Download

inductive Label where
  | isAuthorized (input : JsonValue) (now : ℕ)
  | exchange (i : ℕ) (net : Network)
  | insert (i : ℕ) (now : ℕ)
  | downloadBundle (net : Network) (url : String)
  | mark (j : ℕ)
  | clearCache (j : ℕ)

namespace World
variable (c : OpaClient) (json : SerdeJson) (w : World)

def setCall (i : ℕ) (call : Call) : World := { w with steps := w.steps + 1,calls := w.calls.set i call }
def setDownload (j : ℕ) (d : Download) : World := { w with steps := w.steps + 1,downloads := w.downloads.set j d }

/-- A call starts with its lookup. -/
def startCall (input : JsonValue) (now : ℕ) : Call :=
  match w.cache.lookup (c.cacheKey json input) now with
  | some d => .done w.steps (.ok d) (some (w.given (c.cacheKey json input)))
  | none => .missed input w.steps

def answerCall (net : Network) (input : JsonValue) (started : ℕ) : Call :=
  match c.callOpa json net input with
  | .ok d => .answered input started d w.steps
  | .error e => .done started (c.outcome (.error e)) none

def fetch (net : Network) (url : String) : Download :=
  match c.fetchBundle json net url with
  | .ok revision => .fetched w.steps revision
  | .error e => .failed e

def step (w : World) : Label → Option World
  | .isAuthorized input now =>
    some { w with steps := w.steps + 1,calls := w.calls ++ [w.startCall c json input now] }
  | .exchange i net =>
    match w.calls[i]? with
    | some (.missed input started) => some (w.setCall i (w.answerCall c json net input started))
    | _ => none
  | .insert i now =>
    match w.calls[i]? with
    | some (.answered input started d given) =>
      let key := c.cacheKey json input
      some { w.setCall i (.done started (.ok d) (some given)) with
        cache := c.insert w.cache key d now,given := Function.update w.given key given }
    | _ => none
  | .downloadBundle net url =>
    some { w with steps := w.steps + 1,downloads := w.downloads ++ [w.fetch c json net url] }
  | .mark j =>
    match w.downloads[j]? with
    | some (.fetched since revision) =>
      if w.bundleRevision = some revision then some (w.setDownload j (.done since w.steps false))
      else some { w.setDownload j (.marked since) with bundleRevision := some revision }
    | _ => none
  | .clearCache j =>
    match w.downloads[j]? with
    | some (.marked since) => some { w.setDownload j (.done since w.steps true) with cache := fun _ => none }
    | _ => none

def start : World := ⟨0,fun _ => none,fun _ => 0,none,[],[]⟩

end World

/-- One client, its callers and its downloads. -/
def client (c : OpaClient) (json : SerdeJson) : System World Label := ⟨World.start,World.step c json⟩

section Steps
variable (c : OpaClient) (json : SerdeJson) (w : World)

theorem step_exchange {i started : ℕ} (net : Network) {input : JsonValue} (hcall : w.calls[i]? = some (.missed input started)) :
    (client c json).step w (.exchange i net) = some (w.setCall i (w.answerCall c json net input started)) := by
  change World.step c json w (.exchange i net) = _
  rw [World.step,hcall]

theorem step_insert {i started given : ℕ} (now : ℕ) {input : JsonValue} {d : OpaDecision}
    (hcall : w.calls[i]? = some (.answered input started d given)) :
    (client c json).step w (.insert i now) = some { w.setCall i (.done started (.ok d) (some given)) with
      cache := c.insert w.cache (c.cacheKey json input) d now
      given := Function.update w.given (c.cacheKey json input) given } := by
  change World.step c json w (.insert i now) = _
  rw [World.step,hcall]

theorem startCall_miss {input : JsonValue} {now : ℕ} (h : w.cache.lookup (c.cacheKey json input) now = none) :
    w.startCall c json input now = .missed input w.steps := by
  rw [World.startCall,h]

theorem answerCall_ok {net : Network} {input : JsonValue} {d : OpaDecision} (h : c.callOpa json net input = .ok d) (started : ℕ) :
    w.answerCall c json net input started = .answered input started d w.steps := by
  rw [World.answerCall,h]

theorem answerCall_error {net : Network} {input : JsonValue} {e : OpaError} (h : c.callOpa json net input = .error e) (started : ℕ) :
    w.answerCall c json net input started = .done started (c.outcome (.error e)) none := by
  rw [World.answerCall,h]

theorem step_isAuthorized (input : JsonValue) (now : ℕ) :
    (client c json).step w (.isAuthorized input now) =
      some { w with steps := w.steps + 1,calls := w.calls ++ [w.startCall c json input now] } := rfl

end Steps

/-- No call that starts after a download returned that the revision changed returns a
decision that is older than the revision. -/
def World.Current (w : World) : Prop :=
  ∀ since finished, .done since finished true ∈ w.downloads → ∀ call ∈ w.calls, finished < call.started → ∀ given ∈ call.returned, since ≤ given

/-- When a download clears the cache, no call holds a decision that is older than the
revision and not cached yet. -/
def NothingHeld (w : World) : Label → Prop
  | .clearCache j =>
    match w.downloads[j]? with
    | some (.marked since) => ∀ call ∈ w.calls, ∀ given ∈ call.held, since ≤ given
    | _ => True
  | _ => True

instance (w : World) : (a : Label) → Decidable (NothingHeld w a)
  | .clearCache j =>
    have : Decidable (match w.downloads[j]? with
        | some (.marked since) => ∀ call ∈ w.calls, ∀ given ∈ call.held, since ≤ given
        | _ => True) :=
      match w.downloads[j]? with
      | some (.marked since) => inferInstanceAs (Decidable (∀ call ∈ w.calls, ∀ given ∈ call.held, since ≤ given))
      | some (.fetched _ _) => isTrue trivial
      | some (.done _ _ _) => isTrue trivial
      | some (.failed _) => isTrue trivial
      | none => isTrue trivial
    this
  | .isAuthorized _ _ => isTrue trivial
  | .exchange _ _ => isTrue trivial
  | .insert _ _ => isTrue trivial
  | .downloadBundle _ _ => isTrue trivial
  | .mark _ => isTrue trivial

namespace World
variable {c : OpaClient} {json : SerdeJson} {w w' : World}

/-- What a step can do. -/
inductive Move (w : World) : Label → World → Prop
  | call {input now call} (hstarted : call.started = w.steps) (hheld : call.held = none)
      (hreturned : ∀ given ∈ call.returned, ∃ key entry, w.cache key = some entry ∧ w.given key = given) :
      Move w (.isAuthorized input now) { w with steps := w.steps + 1,calls := w.calls ++ [call] }
  | exchange {i net call call'} (hcall : call ∈ w.calls) (hstarted : call'.started = call.started)
      (hheld : ∀ given ∈ call'.held, given = w.steps) (hreturned : call'.returned = none) :
      Move w (.exchange i net) (w.setCall i call')
  | insert {i now call call' key entry given} (hcall : call ∈ w.calls) (hstarted : call'.started = call.started)
      (hheld : call.held = some given) (hheld' : call'.held = none) (hreturned : call'.returned = some given) :
      Move w (.insert i now) { w.setCall i call' with
        cache := Function.update w.cache key (some entry),given := Function.update w.given key given }
  | fetch {net url d} (hsince : ∀ since ∈ d.since, since = w.steps) (hdone : ∀ since finished, d ≠ .done since finished true) :
      Move w (.downloadBundle net url) { w with steps := w.steps + 1,downloads := w.downloads ++ [d] }
  | mark {j d d' revision} (hd : d ∈ w.downloads) (hsince : d'.since = d.since) (hdone : ∀ since finished, d' ≠ .done since finished true) :
      Move w (.mark j) { w.setDownload j d' with bundleRevision := revision }
  | clear {j since} (hd : w.downloads[j]? = some (.marked since)) :
      Move w (.clearCache j) { w.setDownload j (.done since w.steps true) with cache := fun _ => none }

theorem startCall_spec (c : OpaClient) (json : SerdeJson) (w : World) (input : JsonValue) (now : ℕ) :
    (w.startCall c json input now).started = w.steps ∧ (w.startCall c json input now).held = none ∧
      ∀ given ∈ (w.startCall c json input now).returned, ∃ key entry, w.cache key = some entry ∧ w.given key = given := by
  rw [startCall]
  cases hlookup : w.cache.lookup (c.cacheKey json input) now with
  | none => exact ⟨rfl,rfl,fun given h => by cases h⟩
  | some d =>
    refine ⟨rfl,rfl,fun given h => ?_⟩
    obtain rfl := Option.some.inj h
    rw [DecisionCache.lookup] at hlookup
    cases hentry : w.cache (c.cacheKey json input) with
    | none =>
      rw [hentry] at hlookup
      cases hlookup
    | some entry => exact ⟨_,entry,hentry,rfl⟩

theorem answerCall_spec (c : OpaClient) (json : SerdeJson) (w : World) (net : Network) (input : JsonValue) (started : ℕ) :
    (w.answerCall c json net input started).started = started ∧
      (∀ given ∈ (w.answerCall c json net input started).held, given = w.steps) ∧
      (w.answerCall c json net input started).returned = none := by
  rw [answerCall]
  cases c.callOpa json net input with
  | error e => exact ⟨rfl,(fun given h => by cases h),rfl⟩
  | ok d => exact ⟨rfl,fun given h => (Option.some.inj h).symm,rfl⟩

theorem fetch_spec (c : OpaClient) (json : SerdeJson) (w : World) (net : Network) (url : String) :
    (∀ since ∈ (w.fetch c json net url).since, since = w.steps) ∧ ∀ since finished, w.fetch c json net url ≠ .done since finished true := by
  rw [fetch]
  cases c.fetchBundle json net url with
  | error e => exact ⟨(fun since h => by cases h),fun since finished h => by cases h⟩
  | ok revision => exact ⟨fun since h => (Option.some.inj h).symm,fun since finished h => by cases h⟩

theorem step_move {a : Label} (h : (client c json).step w a = some w') : Move w a w' := by
  change World.step c json w a = some w' at h
  cases a with
  | isAuthorized input now =>
    obtain rfl := Option.some.inj h
    obtain ⟨hstarted,hheld,hreturned⟩ := startCall_spec c json w input now
    exact .call hstarted hheld hreturned
  | exchange i net =>
    rw [step] at h
    split at h
    case h_1 input started hcall =>
      obtain rfl := Option.some.inj h
      obtain ⟨hstarted,hheld,hreturned⟩ := answerCall_spec c json w net input started
      exact .exchange (List.mem_of_getElem? hcall) hstarted hheld hreturned
    case h_2 => cases h
  | insert i now =>
    rw [step] at h
    split at h
    case h_1 input started d given hcall =>
      obtain rfl := Option.some.inj h
      exact .insert (List.mem_of_getElem? hcall) rfl rfl rfl rfl
    case h_2 => cases h
  | downloadBundle net url =>
    obtain rfl := Option.some.inj h
    obtain ⟨hsince,hdone⟩ := fetch_spec c json w net url
    exact .fetch hsince hdone
  | mark j =>
    rw [step] at h
    split at h
    case h_1 since revision hd =>
      split at h
      case isTrue hsame =>
        obtain rfl := Option.some.inj h
        exact .mark (List.mem_of_getElem? hd) rfl fun since finished h => by cases h
      case isFalse =>
        obtain rfl := Option.some.inj h
        exact .mark (List.mem_of_getElem? hd) rfl fun since finished h => by cases h
    case h_2 => cases h
  | clearCache j =>
    rw [step] at h
    split at h
    case h_1 since hd =>
      obtain rfl := Option.some.inj h
      exact .clear hd
    case h_2 => cases h

/-- Everything under way has started. -/
structure Stamped (w : World) : Prop where
  started_lt : ∀ call ∈ w.calls, call.started < w.steps
  since_lt : ∀ d ∈ w.downloads, ∀ since ∈ d.since, since < w.steps

/-- Nothing older is cached, held by a call, or returned by one that started later. -/
structure NothingOlder (since finished : ℕ) (w : World) : Prop where
  cached : ∀ key entry, w.cache key = some entry → since ≤ w.given key
  held : ∀ call ∈ w.calls, ∀ given ∈ call.held, since ≤ given
  returned : ∀ call ∈ w.calls, finished < call.started → ∀ given ∈ call.returned, since ≤ given

theorem Stamped.step {a : Label} (h : Stamped w) (hmove : Move w a w') : Stamped w' := by
  cases hmove with
  | @call input now call hstarted hheld hreturned =>
    refine ⟨fun k hk => ?_,fun d hd since hs => Nat.lt_succ_of_lt (h.since_lt d hd since hs)⟩
    rcases List.mem_append.mp hk with hk | hk
    · exact Nat.lt_succ_of_lt (h.started_lt k hk)
    · obtain rfl := List.mem_singleton.mp hk
      exact hstarted ▸ Nat.lt_succ_self _
  | @exchange i net call call' hcall hstarted hheld hreturned =>
    refine ⟨fun k hk => ?_,fun d hd since hs => Nat.lt_succ_of_lt (h.since_lt d hd since hs)⟩
    rcases List.mem_or_eq_of_mem_set hk with hk | rfl
    · exact Nat.lt_succ_of_lt (h.started_lt k hk)
    · exact hstarted ▸ Nat.lt_succ_of_lt (h.started_lt call hcall)
  | @insert i now call call' key entry given hcall hstarted hheld hheld' hreturned =>
    refine ⟨fun k hk => ?_,fun d hd since hs => Nat.lt_succ_of_lt (h.since_lt d hd since hs)⟩
    rcases List.mem_or_eq_of_mem_set hk with hk | rfl
    · exact Nat.lt_succ_of_lt (h.started_lt k hk)
    · exact hstarted ▸ Nat.lt_succ_of_lt (h.started_lt call hcall)
  | @fetch net url d hsince hdone =>
    refine ⟨fun k hk => Nat.lt_succ_of_lt (h.started_lt k hk),fun d' hd since hs => ?_⟩
    rcases List.mem_append.mp hd with hd | hd
    · exact Nat.lt_succ_of_lt (h.since_lt d' hd since hs)
    · obtain rfl := List.mem_singleton.mp hd
      exact hsince since hs ▸ Nat.lt_succ_self _
  | @mark j d d' revision hd hsince hdone =>
    refine ⟨fun k hk => Nat.lt_succ_of_lt (h.started_lt k hk),fun d'' hd'' since hs => ?_⟩
    rcases List.mem_or_eq_of_mem_set hd'' with hd'' | rfl
    · exact Nat.lt_succ_of_lt (h.since_lt d'' hd'' since hs)
    · exact Nat.lt_succ_of_lt (h.since_lt d hd since (hsince ▸ hs))
  | @clear j since hd =>
    refine ⟨fun k hk => Nat.lt_succ_of_lt (h.started_lt k hk),fun d' hd' since' hs => ?_⟩
    rcases List.mem_or_eq_of_mem_set hd' with hd' | rfl
    · exact Nat.lt_succ_of_lt (h.since_lt d' hd' since' hs)
    · exact Nat.lt_succ_of_lt (h.since_lt _ (List.mem_of_getElem? hd) since' hs)

/-- A decision given from now on is not older, so no step brings one in. -/
theorem NothingOlder.step {a : Label} {since finished : ℕ} (h : NothingOlder since finished w) (hsteps : since ≤ w.steps)
    (hmove : Move w a w') : NothingOlder since finished w' := by
  cases hmove with
  | @call input now call hstarted hheld hreturned =>
    refine ⟨h.cached,fun k hk given hgiven => ?_,fun k hk hlt given hgiven => ?_⟩
    · rcases List.mem_append.mp hk with hk | hk
      · exact h.held k hk given hgiven
      · obtain rfl := List.mem_singleton.mp hk
        rw [hheld] at hgiven
        cases hgiven
    · rcases List.mem_append.mp hk with hk | hk
      · exact h.returned k hk hlt given hgiven
      · obtain rfl := List.mem_singleton.mp hk
        obtain ⟨key,entry,hentry,rfl⟩ := hreturned given hgiven
        exact h.cached key entry hentry
  | @exchange i net call call' hcall hstarted hheld hreturned =>
    refine ⟨h.cached,fun k hk given hgiven => ?_,fun k hk hlt given hgiven => ?_⟩
    · rcases List.mem_or_eq_of_mem_set hk with hk | rfl
      · exact h.held k hk given hgiven
      · exact hheld given hgiven ▸ hsteps
    · rcases List.mem_or_eq_of_mem_set hk with hk | rfl
      · exact h.returned k hk hlt given hgiven
      · rw [hreturned] at hgiven
        cases hgiven
  | @insert i now call call' key entry given hcall hstarted hheld hheld' hreturned =>
    have hle : since ≤ given := h.held call hcall given hheld
    refine ⟨fun k entry' hentry => ?_,fun k hk given' hgiven => ?_,fun k hk hlt given' hgiven => ?_⟩
    · by_cases hk : k = key
      · rw [hk]
        simpa using hle
      · have hold : w.cache k = some entry' := by simpa [hk] using hentry
        simpa [hk] using h.cached k entry' hold
    · rcases List.mem_or_eq_of_mem_set hk with hk | rfl
      · exact h.held k hk given' hgiven
      · rw [hheld'] at hgiven
        cases hgiven
    · rcases List.mem_or_eq_of_mem_set hk with hk | rfl
      · exact h.returned k hk hlt given' hgiven
      · rw [hreturned] at hgiven
        exact Option.some.inj hgiven ▸ hle
  | fetch => exact ⟨h.cached,h.held,h.returned⟩
  | mark => exact ⟨h.cached,h.held,h.returned⟩
  | clear => exact ⟨(fun key entry hentry => by cases hentry),h.held,h.returned⟩

/-- A cache that is cleared while nothing older is held has nothing older left. -/
theorem nothingOlder_of_clear {j since : ℕ} (hw : Stamped w) (hguard : NothingHeld w (.clearCache j))
    (hd : w.downloads[j]? = some (.marked since)) :
    NothingOlder since w.steps { w.setDownload j (.done since w.steps true) with cache := fun _ => none } := by
  rw [NothingHeld,hd] at hguard
  refine ⟨(fun key entry hentry => by cases hentry),hguard,fun call hcall hlt => ?_⟩
  exact absurd hlt (Nat.not_lt.mpr (hw.started_lt call hcall).le)

structure Inv (w : World) : Prop where
  stamped : Stamped w
  older : ∀ since finished, .done since finished true ∈ w.downloads → NothingOlder since finished w

theorem Inv.current (h : Inv w) : w.Current :=
  fun since finished hd => (h.older since finished hd).returned

theorem Inv.step {a : Label} (h : Inv w) (hguard : NothingHeld w a) (hmove : Move w a w') : Inv w' := by
  have hkeep : ∀ since finished, .done since finished true ∈ w.downloads → NothingOlder since finished w' := by
    intro since finished hd
    exact (h.older since finished hd).step (h.stamped.since_lt _ hd since rfl).le hmove
  refine ⟨h.stamped.step hmove,fun since finished hd => ?_⟩
  cases hmove with
  | call => exact hkeep since finished hd
  | exchange => exact hkeep since finished hd
  | insert => exact hkeep since finished hd
  | @fetch net url d hsince hdone =>
    rcases List.mem_append.mp hd with hd | hd
    · exact hkeep since finished hd
    · exact absurd (List.mem_singleton.mp hd).symm (hdone since finished)
  | @mark j d d' revision hmem hsince hdone =>
    rcases List.mem_or_eq_of_mem_set hd with hd | heq
    · exact hkeep since finished hd
    · exact absurd heq.symm (hdone since finished)
  | @clear j since' hmarked =>
    rcases List.mem_or_eq_of_mem_set hd with hd | heq
    · exact hkeep since finished hd
    · obtain ⟨rfl,rfl,-⟩ := Download.done.inj heq
      exact nothingOlder_of_clear h.stamped hguard hmarked

end World

/-- Decisions are current in every run whose clears find nothing held. -/
theorem current_of_nothingHeld {c : OpaClient} {json : SerdeJson} {run : List Label} {w : World}
    (hr : (client c json).run run = some w) (hg : (client c json).Along NothingHeld run) : w.Current := by
  have hinit : World.Inv (client c json).init := by
    refine ⟨⟨?_,?_⟩,?_⟩
    · intro call h
      cases h
    · intro d h
      cases h
    · intro since finished h
      cases h
  have hinv : World.Inv w :=
    System.guarded_inv World.Inv hinit (fun w a w' h hguard hstep => h.step hguard (World.step_move hstep)) hg hr
  exact hinv.current

/-- A call that is slow to cache its decision. -/
def slowCall (net bundles : Network) (url : String) (input : JsonValue) : List Label :=
  [.isAuthorized input 0,.exchange 0 net,.downloadBundle bundles url,.mark 0,.clearCache 0,.insert 0 0,.isAuthorized input 0]

section SlowCall
variable {c : OpaClient} {json : SerdeJson} {net bundles : Network} {url revision : String} {input : JsonValue} {d : OpaDecision}

/-- A cleared cache with the decision of the slow call. -/
def World.slow (c : OpaClient) (json : SerdeJson) (input : JsonValue) (d : OpaDecision) (revision : String) : World where
  steps := 6
  cache := c.insert (fun _ => none) (c.cacheKey json input) d 0
  given := Function.update (fun _ => 0) (c.cacheKey json input) 1
  bundleRevision := some revision
  calls := [.done 0 (.ok d) (some 1)]
  downloads := [.done 2 4 true]

private theorem run_slow (hopa : c.callOpa json net input = .ok d) (hbundle : c.fetchBundle json bundles url = .ok revision) :
    (client c json).run [.isAuthorized input 0,.exchange 0 net,.downloadBundle bundles url,.mark 0,.clearCache 0,.insert 0 0] =
      some (.slow c json input d revision) := by
  let w : World := ⟨1,fun _ => none,fun _ => 0,none,[.missed input 0],[]⟩
  let w' : World := ⟨2,fun _ => none,fun _ => 0,none,[.answered input 0 d 1],[]⟩
  have hstart : (client c json).step World.start (.isAuthorized input 0) = some w := rfl
  have hanswer : (client c json).step w (.exchange 0 net) = some w' := by
    rw [step_exchange c json w _ rfl,answerCall_ok c json w hopa]
    rfl
  have hfetch : (client c json).step w' (.downloadBundle bundles url) = some { w' with steps := 3,downloads := [.fetched 2 revision] } := by
    change some { w' with steps := 3,downloads := [w'.fetch c json bundles url] } = _
    rw [World.fetch,hbundle]
  refine (System.foldlM_cons_of_step hstart).trans ?_
  refine (System.foldlM_cons_of_step hanswer).trans ?_
  refine (System.foldlM_cons_of_step hfetch).trans ?_
  rfl

/-- A slow call caches its decision past the revision. -/
theorem slowCall_not_current (hopa : c.callOpa json net input = .ok d) (hbundle : c.fetchBundle json bundles url = .ok revision)
    (httl : 0 < c.cacheTtl) : ∃ w, (client c json).run (slowCall net bundles url input) = some w ∧ ¬ w.Current := by
  have hlookup : (World.slow c json input d revision).startCall c json input 0 = .done 6 (.ok d) (some 1) := by
    cases d with
    | allow => simp [World.startCall,World.slow,DecisionCache.lookup,OpaClient.insert,httl]
    | deny => simp [World.startCall,World.slow,DecisionCache.lookup,OpaClient.insert,httl]
  have hstep := step_isAuthorized c json (.slow c json input d revision) input 0
  rw [hlookup] at hstep
  refine ⟨_,(System.run_concat_eq_some _).mpr ⟨_,run_slow hopa hbundle,hstep⟩,fun h => ?_⟩
  have hlate : 4 < 6 := by decide
  have hold : 2 ≤ 1 := h 2 4 List.mem_cons_self (.done 6 (.ok d) (some 1)) (List.mem_cons_of_mem _ List.mem_cons_self) hlate 1 rfl
  exact absurd hold (by decide)

end SlowCall
end Dwara.Security.Opa
