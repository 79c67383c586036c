import Dwara.CpDp.ControlPlane
import Dwara.Lib.System

/-! One controller and its edges. Every lock acquisition of the controller, every
broadcast and every delivery is a step of its own. -/

namespace Dwara.CpDp
open Dwara.Lib

/-- What a call under way on the controller does next. -/
inductive Task (E : Type*) where
  | idle
  | publishWrite (generation : ConfigGeneration)
  | publishBroadcast (generation : ConfigGeneration)
  | seedWrite (persisted : ℕ)
  | registerCheck (registration : EdgeRegistration E)
  | registerSeed (registration : EdgeRegistration E)
  | registerInsert (registration : EdgeRegistration E)
  | subscribe (registration : EdgeRegistration E)
  | fleetRead (waves : List (String × List E))
  | fleetWaves (generation : ConfigGeneration) (waves : List (String × List E))
  deriving DecidableEq, Repr

/-- An edge's stream: closed, waiting for the call that opens it, or open with the
updates still on their way. -/
inductive Link (E : Type*) where
  | down
  | waiting (t : ℕ)
  | up (queue : List (ConfigUpdate E))
  deriving DecidableEq, Repr

/-- The controller's memory and calls, the edges' caches and streams, and, for the
statements, everything published and everything accepted so far. -/
structure Fleet (E : Type*) where
  current : Option ConfigGeneration
  edges : List (EdgeRegistration E)
  acks : E → ℕ → Option Bool
  tasks : ℕ → Task E
  cached : E → Option ConfigGeneration
  link : E → Link E
  published : List ConfigGeneration
  accepted : List (E × ConfigGeneration)

inductive Label (E : Type*) where
  | publish (t : ℕ) (config configHash : String)
  | seed (t : ℕ) (persisted : ℕ)
  | connect (t : ℕ) (e : E) (labels : List (String × String))
  | fleetUpgrade (t : ℕ) (upgrade : FleetUpgradeConfig) (edges : List (EdgeRegistration E))
  | task (t : ℕ)
  | stopUpgrade (t : ℕ)
  | deliver (e : E)
  | lag (e : E) (k : ℕ)
  | ack (e : E) (applied : Bool)
  | disconnect (e : E)
  | restart
  deriving DecidableEq, Repr

namespace Fleet
variable {E : Type*}

/-- The generation written last by `publish_generation`. -/
def lastPublished (s : Fleet E) : Option ConfigGeneration := s.published.getLast?

def goto (s : Fleet E) (t : ℕ) (next : Task E) : Fleet E := { s with tasks := Function.update s.tasks t next }

section Fields
variable (s : Fleet E) (t : ℕ) (next : Task E)

@[simp] theorem goto_current : (s.goto t next).current = s.current := rfl
@[simp] theorem goto_tasks : (s.goto t next).tasks = Function.update s.tasks t next := rfl
@[simp] theorem goto_cached : (s.goto t next).cached = s.cached := rfl
@[simp] theorem goto_link : (s.goto t next).link = s.link := rfl
@[simp] theorem goto_published : (s.goto t next).published = s.published := rfl
@[simp] theorem goto_accepted : (s.goto t next).accepted = s.accepted := rfl

end Fields

variable [DecidableEq E]

def setLink (s : Fleet E) (e : E) (l : Link E) : Fleet E := { s with link := Function.update s.link e l }

/-- An update reaches the open streams it targets. -/
def forward (update : ConfigUpdate E) (e : E) : Link E → Link E
  | .up queue => if update.targets e then .up (queue ++ [update]) else .up queue
  | l => l

def broadcast (s : Fleet E) (update : ConfigUpdate E) : Fleet E :=
  { s with link := fun e => forward update e (s.link e) }

/-- The next lock acquisition or broadcast of a call on the controller. -/
def taskStep (s : Fleet E) (t : ℕ) : Option (Fleet E) :=
  match s.tasks t with
  | .idle => none
  | .publishWrite g =>
    some ({ s with current := some g, published := s.published ++ [g] }.goto t (.publishBroadcast g))
  | .publishBroadcast g => some ((s.broadcast ⟨g,[]⟩).goto t .idle)
  | .seedWrite persisted => some ({ s with current := seeded s.current persisted }.goto t .idle)
  | .registerCheck r =>
    if number s.current < r.currentGeneration then
      some (s.goto t (.registerSeed r))
    else
      some (s.goto t (.registerInsert r))
  | .registerSeed r => some ({ s with current := seeded s.current r.currentGeneration }.goto t (.registerInsert r))
  | .registerInsert r => some ({ s with edges := insertEdge s.edges r }.goto t (.subscribe r))
  | .subscribe r =>
    -- The edge may have gone in the meantime; its stream then has no reader.
    if s.link r.edgeId = .waiting t then
      some ((s.setLink r.edgeId (.up [])).goto t .idle)
    else
      some (s.goto t .idle)
  | .fleetRead waves =>
    match s.current with
    | some g => some (s.goto t (.fleetWaves g waves))
    | none => some (s.goto t .idle)
  | .fleetWaves _ [] => some (s.goto t .idle)
  | .fleetWaves g (wave :: rest) => some ((s.broadcast ⟨g,wave.2⟩).goto t (.fleetWaves g rest))

/-- The edge takes the next update off its stream. -/
def deliver (s : Fleet E) (e : E) : Option (Fleet E) :=
  match s.link e with
  | .up (update :: queue) =>
    some { s.setLink e (.up queue) with
      cached := Function.update s.cached e (cacheAfter e (s.cached e) update)
      accepted := s.accepted ++ (match receiveUpdate e (s.cached e) update with | .ok g => [(e,g)] | .error _ => []) }
  | _ => none

def step (s : Fleet E) : Label E → Option (Fleet E)
  | .publish t config configHash =>
    if s.tasks t = .idle then some (s.goto t (.publishWrite ⟨nextNumber s.current,config,configHash⟩)) else none
  | .seed t persisted =>
    if s.tasks t = .idle then
      some (if number s.current < persisted then s.goto t (.seedWrite persisted) else s)
    else none
  | .connect t e labels =>
    if s.tasks t = .idle ∧ s.link e = .down then
      some ((s.setLink e (.waiting t)).goto t (.registerCheck ⟨e,number (s.cached e),labels⟩))
    else none
  | .fleetUpgrade t upgrade edges =>
    -- The registered edges come in no particular order.
    if s.tasks t = .idle ∧ edges.Perm s.edges then
      some (if computeUpgradeWaves upgrade edges = [] then s
        else s.goto t (.fleetRead (computeUpgradeWaves upgrade edges)))
    else none
  | .task t => s.taskStep t
  | .stopUpgrade t =>
    match s.tasks t with
    | .fleetWaves _ _ => some (s.goto t .idle)
    | _ => none
  | .deliver e => s.deliver e
  | .lag e k =>
    match s.link e with
    | .up queue => some (s.setLink e (.up (queue.eraseIdx k)))
    | _ => none
  | .ack e applied =>
    some { s with acks := fun e' n => if e' = e ∧ n = number (s.cached e) then some applied else s.acks e' n }
  | .disconnect e => some (s.setLink e .down)
  | .restart =>
    some { s with
      current := none
      edges := []
      acks := fun _ _ => none
      tasks := fun _ => .idle
      link := fun _ => .down }

def init : Fleet E := ⟨none,[],fun _ _ => none,fun _ => .idle,fun _ => none,fun _ => .down,[],[]⟩

section Links
variable (s : Fleet E) (e : E) (l : Link E) (u : ConfigUpdate E)

@[simp] theorem setLink_current : (s.setLink e l).current = s.current := rfl
@[simp] theorem setLink_tasks : (s.setLink e l).tasks = s.tasks := rfl
@[simp] theorem setLink_cached : (s.setLink e l).cached = s.cached := rfl
@[simp] theorem setLink_link : (s.setLink e l).link = Function.update s.link e l := rfl
@[simp] theorem setLink_published : (s.setLink e l).published = s.published := rfl
@[simp] theorem setLink_accepted : (s.setLink e l).accepted = s.accepted := rfl
@[simp] theorem broadcast_current : (s.broadcast u).current = s.current := rfl
@[simp] theorem broadcast_tasks : (s.broadcast u).tasks = s.tasks := rfl
@[simp] theorem broadcast_cached : (s.broadcast u).cached = s.cached := rfl
@[simp] theorem broadcast_link : (s.broadcast u).link = fun e => forward u e (s.link e) := rfl
@[simp] theorem broadcast_published : (s.broadcast u).published = s.published := rfl
@[simp] theorem broadcast_accepted : (s.broadcast u).accepted = s.accepted := rfl

theorem forward_eq_up {q : List (ConfigUpdate E)} (h : forward u e l = .up q) :
    ∃ p, l = .up p ∧ q = if u.targets e then p ++ [u] else p := by
  cases l with
  | up p =>
    refine ⟨p,rfl,?_⟩
    by_cases ht : u.targets e
    all_goals
      simp only [forward,ht,if_true,if_false,Link.up.injEq] at h ⊢
      exact h.symm
  | _ => cases h

theorem forward_eq_waiting {t : ℕ} (h : forward u e l = .waiting t) : l = .waiting t := by
  cases l with
  | up p => by_cases ht : u.targets e <;> simp [forward,ht] at h
  | _ => exact h

end Links

/-- Everything a step can do. -/
inductive Move (s : Fleet E) : Label E → Fleet E → Prop
  | stay {a : Label E} : Move s a s
  | start {a : Label E} {t : ℕ} {next : Task E} (hidle : s.tasks t = .idle)
      (hnext : (∃ config configHash, next = .publishWrite ⟨nextNumber s.current,config,configHash⟩) ∨
        (∃ persisted, next = .seedWrite persisted) ∨ ∃ waves, next = .fleetRead waves) : Move s a (s.goto t next)
  | connect {t : ℕ} {e : E} {labels : List (String × String)} (hidle : s.tasks t = .idle) (hdown : s.link e = .down) :
      Move s (.connect t e labels)
        ((s.setLink e (.waiting t)).goto t (.registerCheck ⟨e,number (s.cached e),labels⟩))
  | publishWrite {t : ℕ} {g : ConfigGeneration} (ht : s.tasks t = .publishWrite g) :
      Move s (.task t) ({ s with current := some g, published := s.published ++ [g] }.goto t (.publishBroadcast g))
  | publishBroadcast {t : ℕ} {g : ConfigGeneration} (ht : s.tasks t = .publishBroadcast g) :
      Move s (.task t) ((s.broadcast ⟨g,[]⟩).goto t .idle)
  | seedWrite {t n : ℕ} (ht : s.tasks t = .seedWrite n) :
      Move s (.task t) ({ s with current := seeded s.current n }.goto t .idle)
  | registerCheck {t : ℕ} {r : EdgeRegistration E} (ht : s.tasks t = .registerCheck r) :
      Move s (.task t) (s.goto t (.registerSeed r))
  | registerKnown {t : ℕ} {r : EdgeRegistration E} (ht : s.tasks t = .registerCheck r)
      (hle : r.currentGeneration ≤ number s.current) : Move s (.task t) (s.goto t (.registerInsert r))
  | registerSeed {t : ℕ} {r : EdgeRegistration E} (ht : s.tasks t = .registerSeed r) :
      Move s (.task t) ({ s with current := seeded s.current r.currentGeneration }.goto t (.registerInsert r))
  | registerInsert {t : ℕ} {r : EdgeRegistration E} (ht : s.tasks t = .registerInsert r) :
      Move s (.task t) ({ s with edges := insertEdge s.edges r }.goto t (.subscribe r))
  | subscribe {t : ℕ} {r : EdgeRegistration E} (ht : s.tasks t = .subscribe r) (hl : s.link r.edgeId = .waiting t) :
      Move s (.task t) ((s.setLink r.edgeId (.up [])).goto t .idle)
  | subscribeGone {t : ℕ} {r : EdgeRegistration E} (ht : s.tasks t = .subscribe r)
      (hl : s.link r.edgeId ≠ .waiting t) : Move s (.task t) (s.goto t .idle)
  | fleetRead {t : ℕ} {waves : List (String × List E)} {g : ConfigGeneration} (ht : s.tasks t = .fleetRead waves)
      (hg : s.current = some g) : Move s (.task t) (s.goto t (.fleetWaves g waves))
  | fleetEmpty {t : ℕ} {waves : List (String × List E)} (ht : s.tasks t = .fleetRead waves) :
      Move s (.task t) (s.goto t .idle)
  | fleetWave {t : ℕ} {g : ConfigGeneration} {wave : String × List E} {rest : List (String × List E)}
      (ht : s.tasks t = .fleetWaves g (wave :: rest)) :
      Move s (.task t) ((s.broadcast ⟨g,wave.2⟩).goto t (.fleetWaves g rest))
  | fleetEnd {a : Label E} {t : ℕ} {g : ConfigGeneration} {waves : List (String × List E)}
      (ht : s.tasks t = .fleetWaves g waves) : Move s a (s.goto t .idle)
  | deliver {e : E} {u : ConfigUpdate E} {queue : List (ConfigUpdate E)} (hl : s.link e = .up (u :: queue)) :
      Move s (.deliver e) { s.setLink e (.up queue) with
        cached := Function.update s.cached e (cacheAfter e (s.cached e) u)
        accepted := s.accepted ++ (match receiveUpdate e (s.cached e) u with | .ok g => [(e,g)] | .error _ => []) }
  | lag {e : E} {k : ℕ} {queue : List (ConfigUpdate E)} (hl : s.link e = .up queue) :
      Move s (.lag e k) (s.setLink e (.up (queue.eraseIdx k)))
  | ack {e : E} {applied : Bool} {acks : E → ℕ → Option Bool} : Move s (.ack e applied) { s with acks := acks }
  | disconnect {e : E} : Move s (.disconnect e) (s.setLink e .down)
  | restart : Move s .restart { s with
      current := none
      edges := []
      acks := fun _ _ => none
      tasks := fun _ => .idle
      link := fun _ => .down }

private theorem taskStep_move {s s' : Fleet E} {t : ℕ} (h : s.taskStep t = some s') : Move s (.task t) s' := by
  rw [taskStep] at h
  split at h
  · cases h
  · rename_i g ht
    cases h
    exact .publishWrite ht
  · rename_i g ht
    cases h
    exact .publishBroadcast ht
  · rename_i n ht
    cases h
    exact .seedWrite ht
  · rename_i r ht
    split at h
    · cases h
      exact .registerCheck ht
    · rename_i hle
      cases h
      exact .registerKnown ht (Nat.le_of_not_lt hle)
  · rename_i r ht
    cases h
    exact .registerSeed ht
  · rename_i r ht
    cases h
    exact .registerInsert ht
  · rename_i r ht
    split at h
    · rename_i hl
      cases h
      exact .subscribe ht hl
    · rename_i hl
      cases h
      exact .subscribeGone ht hl
  · rename_i waves ht
    split at h
    · rename_i g hg
      cases h
      exact .fleetRead ht hg
    · cases h
      exact .fleetEmpty ht
  · rename_i g ht
    cases h
    exact .fleetEnd ht
  · rename_i g wave rest ht
    cases h
    exact .fleetWave ht

theorem step_move {s s' : Fleet E} {a : Label E} (h : s.step a = some s') : Move s a s' := by
  cases a with
  | publish t config configHash =>
    simp only [step,Option.ite_none_right_eq_some,Option.some.injEq] at h
    obtain ⟨hidle,rfl⟩ := h
    exact .start hidle (.inl ⟨config,configHash,rfl⟩)
  | seed t persisted =>
    simp only [step,Option.ite_none_right_eq_some,Option.some.injEq] at h
    obtain ⟨hidle,rfl⟩ := h
    split
    · exact .start hidle (.inr (.inl ⟨persisted,rfl⟩))
    · exact .stay
  | connect t e labels =>
    simp only [step,Option.ite_none_right_eq_some,Option.some.injEq] at h
    obtain ⟨⟨hidle,hdown⟩,rfl⟩ := h
    exact .connect hidle hdown
  | fleetUpgrade t upgrade edges =>
    simp only [step,Option.ite_none_right_eq_some,Option.some.injEq] at h
    obtain ⟨⟨hidle,-⟩,rfl⟩ := h
    split
    · exact .stay
    · exact .start hidle (.inr (.inr ⟨_,rfl⟩))
  | task t => exact taskStep_move h
  | stopUpgrade t =>
    simp only [step] at h
    split at h
    · rename_i g waves ht
      cases h
      exact .fleetEnd ht
    · cases h
  | deliver e =>
    simp only [step,Fleet.deliver] at h
    split at h
    · rename_i u queue hl
      cases h
      exact .deliver hl
    · cases h
  | lag e k =>
    simp only [step] at h
    split at h
    · rename_i queue hl
      cases h
      exact .lag hl
    · cases h
  | ack e applied =>
    cases h
    exact .ack
  | disconnect e =>
    cases h
    exact .disconnect
  | restart =>
    cases h
    exact .restart

end Fleet

/-- One controller and any edges, from a cold start. -/
def fleet (E : Type*) [DecidableEq E] : System (Fleet E) (Label E) := ⟨Fleet.init,Fleet.step⟩

/-! Which configurations can reach an edge: those that were published, and the seed of
the counter when a fleet upgrade reads it. -/

variable {E : Type*}

/-- A fleet upgrade reads a current generation that was published, not a seed. -/
def ReadsPublished (s : Fleet E) : Task E → Prop
  | .fleetRead _ => ∀ g ∈ s.current, g ∈ s.published
  | _ => True

def UpgradesPublished (s : Fleet E) : Label E → Prop
  | .task t => ReadsPublished s (s.tasks t)
  | _ => True

instance (s : Fleet E) (task : Task E) : Decidable (ReadsPublished s task) :=
  match task with
  | .fleetRead _ => inferInstanceAs (Decidable (∀ g ∈ s.current, g ∈ s.published))
  | .idle | .publishWrite _ | .publishBroadcast _ | .seedWrite _ | .registerCheck _ | .registerSeed _
  | .registerInsert _ | .subscribe _ | .fleetWaves _ _ => isTrue trivial

instance (s : Fleet E) (a : Label E) : Decidable (UpgradesPublished s a) :=
  match a with
  | .task t => inferInstanceAs (Decidable (ReadsPublished s (s.tasks t)))
  | .publish _ _ _ | .seed _ _ | .connect _ _ _ | .fleetUpgrade _ _ _ | .stopUpgrade _ | .deliver _ | .lag _ _
  | .ack _ _ | .disconnect _ | .restart => isTrue trivial

/-- The generation a call is about to send was published. -/
def SendsFrom (published : List ConfigGeneration) : Task E → Prop
  | .publishBroadcast g => g ∈ published
  | .fleetWaves g _ => g ∈ published
  | _ => True

/-- Everything on its way to an edge, or accepted by one, was published. -/
structure Sourced (s : Fleet E) : Prop where
  tasks : ∀ t, SendsFrom s.published (s.tasks t)
  queues : ∀ e q, s.link e = .up q → ∀ u ∈ q, u.generation ∈ s.published
  accepted : ∀ p ∈ s.accepted, p.2 ∈ s.published

theorem Sourced.goto {s : Fleet E} (h : Sourced s) (t : ℕ) {next : Task E} (hn : SendsFrom s.published next) :
    Sourced (s.goto t next) :=
  ⟨(Function.forall_update_iff s.tasks (fun _ => SendsFrom s.published)).mpr ⟨hn,fun t' _ => h.tasks t'⟩,
    h.queues,h.accepted⟩

theorem Sourced.publish {s : Fleet E} (h : Sourced s) (c : Option ConfigGeneration) (g : ConfigGeneration) :
    Sourced { s with current := c, published := s.published ++ [g] } := by
  refine ⟨fun t => ?_,fun e q hq u hu => List.mem_append_left _ (h.queues e q hq u hu),
    fun p hp => List.mem_append_left _ (h.accepted p hp)⟩
  have ht := h.tasks t
  unfold SendsFrom at ht ⊢
  split <;> simp_all

theorem Sourced.current {s : Fleet E} (h : Sourced s) (c : Option ConfigGeneration) :
    Sourced { s with current := c } := ⟨h.tasks,h.queues,h.accepted⟩

variable [DecidableEq E]

theorem Sourced.setLink {s : Fleet E} (h : Sourced s) (e : E) {l : Link E}
    (hl : ∀ q, l = .up q → ∀ u ∈ q, u.generation ∈ s.published) : Sourced (s.setLink e l) := by
  refine ⟨h.tasks,fun e' q hq => ?_,h.accepted⟩
  rcases eq_or_ne e' e with rfl | he
  · rw [Fleet.setLink_link,Function.update_self] at hq
    exact hl q hq
  · rw [Fleet.setLink_link,Function.update_of_ne he] at hq
    exact h.queues e' q hq

theorem Sourced.broadcast {s : Fleet E} (h : Sourced s) {u : ConfigUpdate E} (hu : u.generation ∈ s.published) :
    Sourced (s.broadcast u) := by
  refine ⟨h.tasks,fun e q hq v hv => ?_,h.accepted⟩
  obtain ⟨p,hp,rfl⟩ := Fleet.forward_eq_up _ _ _ hq
  split at hv
  · rcases List.mem_append.mp hv with hv | hv
    · exact h.queues e p hp v hv
    · exact List.mem_singleton.mp hv ▸ hu
  · exact h.queues e p hp v hv

theorem Sourced.step {s s' : Fleet E} {a : Label E} (h : Sourced s) (hg : UpgradesPublished s a)
    (hm : Fleet.Move s a s') : Sourced s' := by
  cases hm with
  | stay => exact h
  | start hidle hnext =>
    refine h.goto _ ?_
    obtain ⟨_,_,rfl⟩ | ⟨_,rfl⟩ | ⟨_,rfl⟩ := hnext
    all_goals trivial
  | connect hidle hdown => exact (h.setLink _ (by rintro q ⟨⟩)).goto _ trivial
  | publishWrite ht =>
    exact (h.publish _ _).goto _ (List.mem_append_right _ (List.mem_singleton_self _))
  | @publishBroadcast t g ht =>
    have hsent : g ∈ s.published := by simpa only [SendsFrom,ht] using h.tasks t
    exact (h.broadcast hsent).goto _ trivial
  | seedWrite ht => exact (h.current _).goto _ trivial
  | registerCheck ht => exact h.goto _ trivial
  | registerKnown ht hle => exact h.goto _ trivial
  | registerSeed ht => exact (h.current _).goto _ trivial
  | registerInsert ht =>
    refine Sourced.goto ?_ _ trivial
    exact ⟨h.tasks,h.queues,h.accepted⟩
  | subscribe ht hl =>
    refine (h.setLink _ ?_).goto _ trivial
    rintro q ⟨⟩ u hu
    cases hu
  | subscribeGone ht hl => exact h.goto _ trivial
  | @fleetRead t waves g ht hcur =>
    simp only [UpgradesPublished,ReadsPublished,ht] at hg
    exact h.goto _ (hg g hcur)
  | fleetEmpty ht => exact h.goto _ trivial
  | @fleetWave t g wave rest ht =>
    have hsent : g ∈ s.published := by simpa only [SendsFrom,ht] using h.tasks t
    exact (h.broadcast hsent).goto _ hsent
  | fleetEnd ht => exact h.goto _ trivial
  | @deliver e u queue hl =>
    have hqueue := h.queues e _ hl
    have hrest : Sourced (s.setLink e (.up queue)) :=
      h.setLink e (by rintro q ⟨⟩ v hv; exact hqueue v (List.mem_cons_of_mem _ hv))
    refine ⟨hrest.tasks,hrest.queues,fun p hp => ?_⟩
    rcases List.mem_append.mp hp with hp | hp
    · exact h.accepted p hp
    · split at hp
      · rename_i g hok
        rw [List.mem_singleton.mp hp,(receiveUpdate_ok hok).1]
        exact hqueue u List.mem_cons_self
      · cases hp
  | @lag e k queue hl =>
    exact h.setLink e (by rintro q ⟨⟩ v hv; exact h.queues e _ hl v (List.mem_of_mem_eraseIdx hv))
  | ack => exact ⟨h.tasks,h.queues,h.accepted⟩
  | disconnect => exact h.setLink _ (by rintro q ⟨⟩)
  | restart =>
    refine ⟨fun _ => trivial,fun _ _ hq => ?_,h.accepted⟩
    cases hq

/-- In every run whose fleet upgrades read a published generation, every generation
an edge has accepted was published with that number, body and hash. -/
theorem accepted_were_published (run : List (Label E)) (s : Fleet E) (hr : (fleet E).run run = some s)
    (hg : (fleet E).Along UpgradesPublished run) : ∀ e g, (e,g) ∈ s.accepted → g ∈ s.published := by
  have hinv : Sourced s := by
    refine System.guarded_inv Sourced ⟨?_,?_,?_⟩ (fun s a s' h hg hstep => h.step hg (Fleet.step_move hstep)) hg hr
    · exact fun _ => trivial
    · exact fun _ _ hq => nomatch hq
    · exact fun _ hp => nomatch hp
  exact fun e g hp => hinv.accepted (e,g) hp

/-- An edge connects and its registration runs to the open stream. -/
def connects (e : ℕ) : List (Label ℕ) := [.connect 0 e [],.task 0,.task 0,.task 0]

/-- A generation is published and broadcast. -/
def publishes (config configHash : String) : List (Label ℕ) := [.publish 0 config configHash,.task 0,.task 0]

/-- One edge holds a published generation, and a fleet upgrade sends it to another. -/
def upgradeRun : List (Label ℕ) :=
  connects 0 ++ publishes "config" "hash" ++ [.deliver 0] ++ connects 1 ++
    [.fleetUpgrade 0 ⟨[],0⟩ [⟨1,0,[]⟩,⟨0,0,[]⟩],.task 0,.task 0,.deliver 1]

theorem accepted_were_published_upgrade :
    ∃ s, (fleet ℕ).run upgradeRun = some s ∧ (1,⟨1,"config","hash"⟩) ∈ s.accepted ∧
      ∀ e g, (e,g) ∈ s.accepted → g ∈ s.published :=
  ⟨_,rfl,by decide,accepted_were_published upgradeRun _ rfl (System.along_of_alongFrom (by decide))⟩

/-- The same after a restart: the edge that reconnects seeds the counter, and the
upgrade sends the seed's empty body to the other edge, which accepts it. -/
theorem seed_reaches_edge :
    ¬ ∀ (run : List (Label ℕ)) s, (fleet ℕ).run run = some s → ∀ e g, (e,g) ∈ s.accepted → g ∈ s.published := by
  intro h
  have hin := h (connects 0 ++ publishes "config" "hash" ++ [.deliver 0,.restart] ++ connects 0 ++ [.task 0] ++
    connects 1 ++ [.fleetUpgrade 0 ⟨[],0⟩ [⟨1,0,[]⟩,⟨0,1,[]⟩],.task 0,.task 0,.deliver 1]) _ rfl 1 (placeholder 1)
    (by decide)
  exact absurd hin (by decide)

end Dwara.CpDp
