import Dwara.CpDp.Fleet

/-! When the connected edges end up with the generation published last. -/

namespace Dwara.CpDp
open Dwara.Lib

variable {E : Type*}

/-- No publish is under way. -/
def Fleet.PublishesDone (s : Fleet E) : Prop :=
  ∀ t g, s.tasks t ≠ .publishWrite g ∧ s.tasks t ≠ .publishBroadcast g

/-- Every update sent to an open stream has been delivered. -/
def Fleet.Delivered (s : Fleet E) : Prop := ∀ e q, s.link e = .up q → q = []

/-- Every connected edge holds the generation published last. -/
def Fleet.Converged (s : Fleet E) : Prop := ∀ e q, s.link e = .up q → s.cached e = s.lastPublished

/-- The write of the last generation is done and its broadcast still to come. -/
def Fleet.Announcing (s : Fleet E) : Prop := ∃ t g, s.tasks t = .publishBroadcast g ∧ some g = s.lastPublished

/-- A publish has computed its number and not yet written it. -/
def Fleet.Publishing (s : Fleet E) : Prop := ∃ t g, s.tasks t = .publishWrite g

/-- An edge that subscribes now will not miss the generation published last. -/
def Fleet.InTime (s : Fleet E) (e : E) : Prop :=
  s.cached e = s.lastPublished ∨ (number (s.cached e) < number s.lastPublished ∧ s.Announcing) ∨ s.Publishing

/-- What a call does next finds the counter as the call read it, opens no stream too
late, and upgrades the fleet to nothing but the generation published last. -/
def SteadyTask (s : Fleet E) (t : ℕ) : Task E → Prop
  | .publishWrite g => g.generation = nextNumber s.current
  | .subscribe r => s.link r.edgeId = .waiting t → s.InTime r.edgeId
  | .fleetRead _ => s.current = none ∨ s.current = s.lastPublished
  | _ => True

def Steady (s : Fleet E) : Label E → Prop
  | .task t => SteadyTask s t (s.tasks t)
  | _ => True

/-- The label drops an update from a stream that lags behind. -/
def Label.Drops : Label E → Prop
  | .lag _ _ => True
  | _ => False

/-- Below the generation published last, or that generation itself. -/
def Ranked (last : Option ConfigGeneration) (g : ConfigGeneration) : Prop :=
  g.generation < number last ∨ some g = last

/-- What a call carries stays below the counter. -/
def TaskBelow (current last : Option ConfigGeneration) : Task E → Prop
  | .publishBroadcast g => g.generation ≤ number current ∧ Ranked last g
  | .fleetWaves g _ => g.generation ≤ number current ∧ Ranked last g
  | .registerInsert r => r.currentGeneration ≤ number current
  | .subscribe r => r.currentGeneration ≤ number current
  | _ => True

/-- The registration a call is working on. -/
def Task.registration : Task E → Option (EdgeRegistration E)
  | .registerCheck r => some r
  | .registerSeed r => some r
  | .registerInsert r => some r
  | .subscribe r => some r
  | _ => none

/-- An edge holds the last generation, or is certain to be sent it. -/
def Fleet.WillHold (s : Fleet E) (e : E) (q : List (ConfigUpdate E)) : Prop :=
  s.cached e = s.lastPublished ∨
    (number (s.cached e) < number s.lastPublished ∧ (∃ u ∈ q, some u.generation = s.lastPublished)) ∨
    (number (s.cached e) < number s.lastPublished ∧ s.Announcing) ∨ s.Publishing

/-- The state of an open stream: nothing above the counter, everything ranked. -/
structure Fleet.StreamOk [DecidableEq E] (s : Fleet E) (e : E) (q : List (ConfigUpdate E)) : Prop where
  cached_le : number (s.cached e) ≤ number s.current
  queued : ∀ u ∈ q, u.generation.generation ≤ number s.current ∧ Ranked s.lastPublished u.generation ∧ u.targets e
  willHold : s.WillHold e q

structure Fleet.Settling [DecidableEq E] (s : Fleet E) : Prop where
  tasks : ∀ t, TaskBelow s.current s.lastPublished (s.tasks t)
  registering : ∀ t r, (s.tasks t).registration = some r → s.link r.edgeId = .waiting t →
    r.currentGeneration = number (s.cached r.edgeId)
  streams : ∀ e q, s.link e = .up q → s.StreamOk e q

theorem TaskBelow.mono {current current' last : Option ConfigGeneration} (h : number current ≤ number current')
    {task : Task E} (ht : TaskBelow current last task) : TaskBelow current' last task := by
  cases task with
  | publishBroadcast g => exact ⟨ht.1.trans h,ht.2⟩
  | fleetWaves g waves => exact ⟨ht.1.trans h,ht.2⟩
  | registerInsert r => exact Nat.le_trans ht h
  | subscribe r => exact Nat.le_trans ht h
  | _ => trivial

/-- A call that announces nothing before and nothing after its step leaves the others' announcements. -/
theorem Fleet.Announcing.goto {s : Fleet E} (h : s.Announcing) {t : ℕ} {next : Task E}
    (ht : ∀ g, s.tasks t ≠ .publishBroadcast g) : (s.goto t next).Announcing := by
  obtain ⟨t',g,htask,hg⟩ := h
  have hne : t' ≠ t := by rintro rfl; exact ht g htask
  exact ⟨t',g,by rw [Fleet.goto_tasks,Function.update_of_ne hne]; exact htask,hg⟩

theorem Fleet.Publishing.goto {s : Fleet E} (h : s.Publishing) {t : ℕ} {next : Task E}
    (ht : ∀ g, s.tasks t ≠ .publishWrite g) : (s.goto t next).Publishing := by
  obtain ⟨t',g,htask⟩ := h
  have hne : t' ≠ t := by rintro rfl; exact ht g htask
  exact ⟨t',g,by rw [Fleet.goto_tasks,Function.update_of_ne hne]; exact htask⟩

theorem Fleet.WillHold.goto {s : Fleet E} {e : E} {q : List (ConfigUpdate E)} (h : s.WillHold e q) {t : ℕ}
    {next : Task E} (hw : ∀ g, s.tasks t ≠ .publishWrite g) (hb : ∀ g, s.tasks t ≠ .publishBroadcast g) :
    (s.goto t next).WillHold e q := by
  rcases h with h | h | ⟨hlt,h⟩ | h
  · exact .inl h
  · exact .inr (.inl h)
  · exact .inr (.inr (.inl ⟨hlt,h.goto hb⟩))
  · exact .inr (.inr (.inr (h.goto hw)))

variable [DecidableEq E]

/-- What an edge that may still need the last generation does with a ranked update. -/
theorem cacheAfter_ranked (e : E) (cached : Option ConfigGeneration) {last : Option ConfigGeneration}
    {u : ConfigUpdate E} (hr : Ranked last u.generation) :
    (cached = last → cacheAfter e cached u = last) ∧
      (number cached < number last → cacheAfter e cached u = last ∨ number (cacheAfter e cached u) < number last) := by
  constructor
  · rintro rfl
    cases cached with
    | none => rcases hr with h | h <;> cases h
    | some held =>
      refine cacheAfter_of_not_newer ?_
      rcases hr with h | h
      · exact Nat.le_of_lt h
      · exact (congrArg ConfigGeneration.generation (Option.some.inj h)).le
  · intro hlt
    rcases cacheAfter_eq e cached u with h | h
    · rcases hr with hr | hr
      · exact .inr (by rwa [h])
      · exact .inl (h.trans hr)
    · exact .inr (by rwa [h])

/-- A call's step that publishes and announces nothing, under the same counter and links. -/
theorem Fleet.Settling.goto {s : Fleet E} (h : s.Settling) {t : ℕ} {next : Task E}
    (hw : ∀ g, s.tasks t ≠ .publishWrite g) (hb : ∀ g, s.tasks t ≠ .publishBroadcast g)
    (hnext : TaskBelow s.current s.lastPublished next)
    (hreg : ∀ r, next.registration = some r → s.link r.edgeId = .waiting t →
      r.currentGeneration = number (s.cached r.edgeId)) : (s.goto t next).Settling := by
  refine ⟨?_,fun t' r hr hl => ?_,fun e q hq => ?_⟩
  · exact (Function.forall_update_iff s.tasks (fun _ => TaskBelow s.current s.lastPublished)).mpr
      ⟨hnext,fun t' _ => h.tasks t'⟩
  · rcases eq_or_ne t' t with rfl | hne
    · rw [goto_tasks,Function.update_self] at hr
      exact hreg r hr hl
    · rw [goto_tasks,Function.update_of_ne hne] at hr
      exact h.registering t' r hr hl
  · obtain ⟨hle,hqueued,hhold⟩ := h.streams e q hq
    exact ⟨hle,hqueued,hhold.goto hw hb⟩

/-- Raising the counter keeps everything below it. -/
theorem Fleet.Settling.raise {s : Fleet E} (h : s.Settling) {c : Option ConfigGeneration}
    (hc : number s.current ≤ number c) : Fleet.Settling { s with current := c } := by
  refine ⟨fun t => (h.tasks t).mono hc,h.registering,fun e q hq => ?_⟩
  obtain ⟨hle,hqueued,hhold⟩ := h.streams e q hq
  exact ⟨hle.trans hc,fun u hu => ⟨(hqueued u hu).1.trans hc,(hqueued u hu).2⟩,hhold⟩

/-- Opening or closing one stream. -/
theorem Fleet.Settling.setLink {s : Fleet E} (h : s.Settling) (e : E) {l : Link E}
    (hup : ∀ q, l = .up q → s.StreamOk e q)
    (hwait : ∀ t, l = .waiting t → ∀ r, (s.tasks t).registration = some r → r.edgeId = e →
      r.currentGeneration = number (s.cached e)) : (s.setLink e l).Settling := by
  refine ⟨h.tasks,fun t r hr hl => ?_,fun e' q hq => ?_⟩
  · rcases eq_or_ne r.edgeId e with he | hne
    · rw [setLink_link,he,Function.update_self] at hl
      rw [setLink_cached,he]
      exact hwait t hl r hr he
    · rw [setLink_link,Function.update_of_ne hne] at hl
      exact h.registering t r hr hl
  · rcases eq_or_ne e' e with rfl | hne
    · rw [setLink_link,Function.update_self] at hq
      obtain ⟨hle,hqueued,hhold⟩ := hup q hq
      exact ⟨hle,hqueued,hhold⟩
    · rw [setLink_link,Function.update_of_ne hne] at hq
      obtain ⟨hle,hqueued,hhold⟩ := h.streams e' q hq
      exact ⟨hle,hqueued,hhold⟩

/-- Sending a ranked update leaves every stream in order, and the edges it reaches
hold it or will. -/
theorem Fleet.Settling.broadcast {s : Fleet E} (h : s.Settling) {u : ConfigUpdate E}
    (hle : u.generation.generation ≤ number s.current) (hr : Ranked s.lastPublished u.generation) :
    (s.broadcast u).Settling := by
  refine ⟨h.tasks,fun t r hreg hl => h.registering t r hreg (forward_eq_waiting _ _ _ hl),fun e q hq => ?_⟩
  obtain ⟨p,hp,rfl⟩ := forward_eq_up _ _ _ hq
  obtain ⟨hcached,hqueued,hhold⟩ := h.streams e p hp
  split
  · rename_i ht
    refine ⟨hcached,fun v hv => ?_,?_⟩
    · rcases List.mem_append.mp hv with hv | hv
      · exact hqueued v hv
      · rw [List.mem_singleton.mp hv]
        exact ⟨hle,hr,ht⟩
    · rcases hhold with h | ⟨hlt,v,hv,hlast⟩ | h | h
      · exact .inl h
      · exact .inr (.inl ⟨hlt,v,List.mem_append_left _ hv,hlast⟩)
      · exact .inr (.inr (.inl h))
      · exact .inr (.inr (.inr h))
  · exact ⟨hcached,hqueued,hhold⟩

/-- The broadcast of a publish may be the one that was to come. -/
theorem Fleet.Settling.announced {s : Fleet E} (h : s.Settling) {t : ℕ} {g : ConfigGeneration}
    (ht : s.tasks t = .publishBroadcast g) : ((s.broadcast ⟨g,[]⟩).goto t .idle).Settling := by
  have hbelow : g.generation ≤ number s.current ∧ Ranked s.lastPublished g := by
    simpa only [TaskBelow,ht] using h.tasks t
  have hsent := h.broadcast (u := ⟨g,[]⟩) hbelow.1 hbelow.2
  refine ⟨?_,fun t' r hr hl => ?_,fun e q hq => ?_⟩
  · exact (Function.forall_update_iff s.tasks (fun _ => TaskBelow s.current s.lastPublished)).mpr
      ⟨trivial,fun t' _ => h.tasks t'⟩
  · rcases eq_or_ne t' t with rfl | hne
    · simp [Task.registration] at hr
    · rw [goto_tasks,Function.update_of_ne hne] at hr
      exact hsent.registering t' r hr hl
  · obtain ⟨hcached,hqueued,hhold⟩ := hsent.streams e q hq
    refine ⟨hcached,hqueued,?_⟩
    rcases hhold with h | h | ⟨hlt,t',g',htask,hlast⟩ | h
    · exact .inl h
    · exact .inr (.inl h)
    · rcases eq_or_ne t' t with rfl | hne
      · obtain ⟨p,-,rfl⟩ := forward_eq_up _ _ _ hq
        obtain rfl : g = g' := by simpa [ht] using htask
        rw [if_pos (.inl rfl)]
        exact .inr (.inl ⟨hlt,_,List.mem_append_right _ (List.mem_singleton_self _),hlast⟩)
      · refine .inr (.inr (.inl ⟨hlt,t',g',?_,hlast⟩))
        rw [goto_tasks,Function.update_of_ne hne]
        exact htask
    · exact .inr (.inr (.inr (h.goto (by simp [ht]))))

/-- A write of the next number outranks everything there is, and is yet to be broadcast. -/
theorem Fleet.Settling.written {s : Fleet E} (h : s.Settling) {t : ℕ} {g : ConfigGeneration}
    (hg : g.generation = nextNumber s.current) :
    (Fleet.goto { s with current := some g, published := s.published ++ [g] } t (.publishBroadcast g)).Settling := by
  rw [nextNumber_eq] at hg
  have hlast : (Fleet.goto { s with current := some g, published := s.published ++ [g] } t
      (.publishBroadcast g)).lastPublished = some g := List.getLast?_concat
  have hnew : number (some g) = number s.current + 1 := hg
  have hranked : ∀ g' : ConfigGeneration, g'.generation ≤ number s.current →
      g'.generation ≤ number (some g) ∧ Ranked (some g) g' :=
    fun g' hle => ⟨by omega,.inl (by omega)⟩
  refine ⟨fun t' => ?_,fun t' r hr hl => ?_,fun e q hq => ?_⟩
  · rw [hlast,goto_tasks]
    rcases eq_or_ne t' t with rfl | hne
    · rw [Function.update_self]
      exact ⟨Nat.le_refl _,.inr rfl⟩
    · rw [Function.update_of_ne hne]
      have hold := h.tasks t'
      revert hold
      simp only [goto_current]
      cases s.tasks t' with
      | publishBroadcast g' => exact fun hold => hranked g' hold.1
      | fleetWaves g' waves => exact fun hold => hranked g' hold.1
      | registerInsert r => exact fun hold => (by simp only [TaskBelow] at hold ⊢; omega)
      | subscribe r => exact fun hold => (by simp only [TaskBelow] at hold ⊢; omega)
      | _ => exact fun _ => trivial
  · rcases eq_or_ne t' t with rfl | hne
    · simp [Task.registration] at hr
    · rw [goto_tasks,Function.update_of_ne hne] at hr
      exact h.registering t' r hr hl
  · obtain ⟨hcached,hqueued,-⟩ := h.streams e q hq
    refine ⟨?_,fun u hu => ?_,.inr (.inr (.inl ⟨?_,t,g,?_,?_⟩))⟩
    · simp only [goto_cached,goto_current]
      omega
    · rw [hlast]
      exact ⟨(hranked _ (hqueued u hu).1).1,(hranked _ (hqueued u hu).1).2,(hqueued u hu).2.2⟩
    · rw [hlast]
      simp only [goto_cached]
      omega
    · rw [goto_tasks,Function.update_self]
    · exact hlast.symm

/-- A delivery brings the edge to the last generation or leaves it certain to come. -/
theorem Fleet.Settling.delivered {s : Fleet E} (h : s.Settling) {e : E} {u : ConfigUpdate E}
    {queue : List (ConfigUpdate E)} (hl : s.link e = .up (u :: queue)) {accepted : List (E × ConfigGeneration)} :
    Fleet.Settling { s.setLink e (.up queue) with
      cached := Function.update s.cached e (cacheAfter e (s.cached e) u)
      accepted := accepted } := by
  obtain ⟨hcached,hqueued,hhold⟩ := h.streams e _ hl
  obtain ⟨hule,hur,hut⟩ := hqueued u List.mem_cons_self
  obtain ⟨hkeep,hmove⟩ := cacheAfter_ranked e (s.cached e) hur
  refine ⟨h.tasks,fun t r hr hlink => ?_,fun e' q hq => ?_⟩
  · rcases eq_or_ne r.edgeId e with he | hne
    · simp only [setLink_link] at hlink
      rw [he,Function.update_self] at hlink
      cases hlink
    · simp only [setLink_link] at hlink
      rw [Function.update_of_ne hne] at hlink
      simp only
      rw [Function.update_of_ne hne]
      exact h.registering t r hr hlink
  · simp only [setLink_link] at hq
    rcases eq_or_ne e' e with rfl | hne
    · rw [Function.update_self] at hq
      obtain rfl := Link.up.inj hq
      refine ⟨?_,fun v hv => hqueued v (List.mem_cons_of_mem _ hv),?_⟩
      · simp only [Function.update_self,setLink_current]
        rcases cacheAfter_eq e' (s.cached e') u with heq | heq
        · rw [heq]
          exact hule
        · rw [heq]
          exact hcached
      · rw [WillHold]
        simp only [Function.update_self]
        rcases hhold with hhold | ⟨hlt,v,hv,hlast⟩ | ⟨hlt,hann⟩ | hpub
        · exact .inl (hkeep hhold)
        · rcases List.mem_cons.mp hv with rfl | hv
          · left
            have hnew : number (s.cached e') < v.generation.generation := by
              rw [← hlast] at hlt
              exact hlt
            exact (cacheAfter_of_newer hut hnew).trans hlast
          · rcases hmove hlt with hdone | hless
            · exact .inl hdone
            · exact .inr (.inl ⟨hless,v,hv,hlast⟩)
        · rcases hmove hlt with hdone | hless
          · exact .inl hdone
          · exact .inr (.inr (.inl ⟨hless,hann⟩))
        · exact .inr (.inr (.inr hpub))
    · rw [Function.update_of_ne hne] at hq
      obtain ⟨hcached',hqueued',hhold'⟩ := h.streams e' q hq
      refine ⟨?_,hqueued',?_⟩
      · simp only [Function.update_of_ne hne]
        exact hcached'
      · rw [WillHold]
        simp only [Function.update_of_ne hne]
        exact hhold'

theorem Fleet.Settling.step {s s' : Fleet E} {a : Label E} (h : s.Settling) (hg : Steady s a) (hd : ¬ a.Drops)
    (hm : Fleet.Move s a s') : s'.Settling := by
  cases hm with
  | stay => exact h
  | start hidle hnext =>
    refine h.goto (by simp [hidle]) (by simp [hidle]) ?_ ?_
    all_goals obtain ⟨_,_,rfl⟩ | ⟨_,rfl⟩ | ⟨_,rfl⟩ := hnext
    all_goals first | trivial | exact fun _ hr => nomatch hr
  | @connect t e labels hidle hdown =>
    have hlink := h.setLink e (l := .waiting t) (by rintro q ⟨⟩)
      (by rintro t' ⟨⟩ r hr; simp [hidle,Task.registration] at hr)
    refine hlink.goto (by simp [hidle]) (by simp [hidle]) trivial ?_
    rintro r ⟨⟩ -
    rfl
  | @publishWrite t g ht =>
    simp only [Steady,SteadyTask,ht] at hg
    exact h.written hg
  | publishBroadcast ht => exact h.announced ht
  | @seedWrite t n ht =>
    have hraise := h.raise (c := seeded s.current n) (by rw [number_seeded]; exact le_max_left _ _)
    exact hraise.goto (by simp [ht]) (by simp [ht]) trivial (fun _ hr => nomatch hr)
  | @registerCheck t r ht =>
    exact h.goto (by simp [ht]) (by simp [ht]) trivial (fun r' hr => h.registering t r' (by rw [ht]; exact hr))
  | @registerKnown t r ht hle =>
    exact h.goto (by simp [ht]) (by simp [ht]) hle (fun r' hr => h.registering t r' (by rw [ht]; exact hr))
  | @registerSeed t r ht =>
    have hraise := h.raise (c := seeded s.current r.currentGeneration) (by rw [number_seeded]; exact le_max_left _ _)
    refine hraise.goto (by simp [ht]) (by simp [ht]) ?_ (fun r' hr => h.registering t r' (by rw [ht]; exact hr))
    simp only [TaskBelow,number_seeded]
    exact le_max_right _ _
  | @registerInsert t r ht =>
    have hsame : Fleet.Settling { s with edges := insertEdge s.edges r } :=
      ⟨h.tasks,h.registering,fun e q hq => ⟨(h.streams e q hq).1,(h.streams e q hq).2,(h.streams e q hq).3⟩⟩
    refine hsame.goto (by simp [ht]) (by simp [ht]) ?_ (fun r' hr => h.registering t r' (by rw [ht]; exact hr))
    simpa only [TaskBelow,ht] using h.tasks t
  | @subscribe t r ht hl =>
    simp only [Steady,SteadyTask,ht] at hg
    have hbelow : r.currentGeneration ≤ number s.current := by simpa only [TaskBelow,ht] using h.tasks t
    have hheld : r.currentGeneration = number (s.cached r.edgeId) :=
      h.registering t r (by rw [ht]; rfl) hl
    have hopen : s.StreamOk r.edgeId [] := by
      refine ⟨hheld ▸ hbelow,fun _ hu => (nomatch hu),?_⟩
      rcases hg hl with hin | hin | hin
      · exact .inl hin
      · exact .inr (.inr (.inl hin))
      · exact .inr (.inr (.inr hin))
    have hlink := h.setLink r.edgeId (l := .up []) (by rintro q ⟨⟩; exact hopen) (fun _ hw => nomatch hw)
    exact hlink.goto (by simp [ht]) (by simp [ht]) trivial (fun _ hr => nomatch hr)
  | subscribeGone ht hl => exact h.goto (by simp [ht]) (by simp [ht]) trivial (fun _ hr => nomatch hr)
  | @fleetRead t waves g ht hcur =>
    simp only [Steady,SteadyTask,ht] at hg
    have hlast : some g = s.lastPublished := by
      rcases hg with hg | hg
      · simp [hcur] at hg
      · rwa [hcur] at hg
    refine h.goto (by simp [ht]) (by simp [ht]) ⟨?_,.inr hlast⟩ (fun _ hr => nomatch hr)
    rw [hcur]
    exact Nat.le_refl _
  | fleetEmpty ht => exact h.goto (by simp [ht]) (by simp [ht]) trivial (fun _ hr => nomatch hr)
  | @fleetWave t g wave rest ht =>
    have hbelow : g.generation ≤ number s.current ∧ Ranked s.lastPublished g := by
      simpa only [TaskBelow,ht] using h.tasks t
    have hsent := h.broadcast (u := ⟨g,wave.2⟩) hbelow.1 hbelow.2
    exact hsent.goto (by simp [ht]) (by simp [ht]) hbelow (fun _ hr => nomatch hr)
  | fleetEnd ht => exact h.goto (by simp [ht]) (by simp [ht]) trivial (fun _ hr => nomatch hr)
  | deliver hl => exact h.delivered hl
  | lag hl => exact absurd trivial hd
  | ack =>
    exact ⟨h.tasks,h.registering,fun e q hq => ⟨(h.streams e q hq).1,(h.streams e q hq).2,(h.streams e q hq).3⟩⟩
  | disconnect => exact h.setLink _ (by rintro q ⟨⟩) (by rintro t ⟨⟩)
  | restart => exact ⟨fun _ => trivial,fun _ _ hr => (nomatch hr),fun _ _ hq => nomatch hq⟩

/-- No step lowers the number an edge holds. -/
theorem Fleet.number_cached_mono {s s' : Fleet E} {a : Label E} (hm : Fleet.Move s a s') (e : E) :
    number (s.cached e) ≤ number (s'.cached e) := by
  cases hm with
  | @deliver e' u queue hl =>
    simp only
    rcases eq_or_ne e e' with rfl | hne
    · rw [Function.update_self]
      exact number_le_cacheAfter _ _ _
    · rw [Function.update_of_ne hne]
  | _ => exact Nat.le_refl _

/-- In every run that drops no update, finds the counter at each publish's write as
its read left it, opens each stream in time and upgrades only to the generation
published last, every connected edge holds that generation whenever no publish is
under way and every update sent has been delivered. In every run at all, no edge's
number ever falls. -/
theorem fleet_converges :
    (∀ (run : List (Label E)) s, (fleet E).run run = some s → (∀ a ∈ run, ¬ a.Drops) →
      (fleet E).Along Steady run → s.PublishesDone → s.Delivered → s.Converged) ∧
    (∀ (run more : List (Label E)) s s', (fleet E).run run = some s → (fleet E).run (run ++ more) = some s' →
      ∀ e, number (s.cached e) ≤ number (s'.cached e)) := by
  constructor
  · intro run s hr hd hg hdone hdelivered e q hq
    have hsteps : (fleet E).Along (fun s a => Steady s a ∧ ¬ a.Drops) run :=
      fun pre a post t he ht => ⟨hg pre a post t he ht,hd a (by simp [he])⟩
    have hinv : s.Settling := by
      refine System.guarded_inv Fleet.Settling ⟨?_,?_,?_⟩
        (fun s a s' h hg hstep => h.step hg.1 hg.2 (Fleet.step_move hstep)) hsteps hr
      · exact fun _ => trivial
      · exact fun _ _ hr => nomatch hr
      · exact fun _ _ hq => nomatch hq
    rcases (hinv.streams e q hq).willHold with h | ⟨-,u,hu,-⟩ | ⟨-,t,g,ht,-⟩ | ⟨t,g,ht⟩
    · exact h
    · rw [hdelivered e q hq] at hu
      cases hu
    · exact absurd ht (hdone t g).2
    · exact absurd ht (hdone t g).1
  · intro run more s s' hs hs' e
    exact System.measure_mono (fun s => number (s.cached e))
      (fun _ _ _ h => Fleet.number_cached_mono (Fleet.step_move h) e) hs hs'

/-- Two generations published to an edge connected from the start. -/
def earlyRun : List (Label ℕ) :=
  connects 0 ++ publishes "config" "hash" ++ publishes "config2" "hash2" ++ [.deliver 0,.deliver 0]

theorem fleet_converges_early :
    ∃ s, (fleet ℕ).run earlyRun = some s ∧ s.cached 0 = some ⟨2,"config2","hash2"⟩ ∧ s.Converged := by
  refine ⟨_,rfl,rfl,fleet_converges.1 earlyRun _ rfl ?_ (System.along_of_alongFrom ?_) ?_ ?_⟩
  · simp [earlyRun,connects,publishes,Label.Drops]
  · exact ⟨trivial,trivial,trivial,fun _ => .inl rfl,trivial,rfl,trivial,trivial,rfl,trivial,trivial,trivial,trivial⟩
  · rintro (_ | t) g
    all_goals exact ⟨nofun,nofun⟩
  · rintro (_ | e) q hq
    · exact (Link.up.inj hq).symm
    · cases hq

/-- An edge that connects once the publish is over is never sent the generation. -/
theorem late_edge_left_behind :
    ¬ ∀ (run : List (Label ℕ)) s, (fleet ℕ).run run = some s → (∀ a ∈ run, ¬ a.Drops) →
      s.PublishesDone → s.Delivered → s.Converged := by
  intro h
  have hc := h (publishes "config" "hash" ++ connects 0) _ rfl (by simp [connects,publishes,Label.Drops]) ?_ ?_ 0 [] rfl
  · exact absurd hc (by decide)
  · rintro (_ | t) g
    all_goals exact ⟨nofun,nofun⟩
  · rintro (_ | e) q hq
    · exact (Link.up.inj hq).symm
    · cases hq

end Dwara.CpDp
