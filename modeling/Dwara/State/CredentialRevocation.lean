import Dwara.State.CredentialCache
import Mathlib.Data.Nat.Basic

/-! A revoked credential stays out of what later lookups return, and the cache agrees
with the disk between calls. -/

namespace Dwara.State
open Dwara.Lib

namespace StoreState

/-- An update made when `since` others had been made, or later, still has to invalidate
the selector; it revoked `revoked`. -/
def Pending (s : StoreState) (selector : String) (since : ℕ) (revoked : List ℤ) : Prop :=
  ∃ t selectors m, s.calls t = .invalidate selectors revoked m ∧ selector ∈ selectors ∧ since ≤ m

/-- `entry` was read after `since` updates; where it no longer is what the disk holds, the
update responsible has invalidated the selector or still will. -/
structure Reads (s : StoreState) (selector : String) (entry : List CredentialRecord) (since : ℕ) : Prop where
  since_le : since ≤ s.writes
  current : (∃ u ≤ s.now, entry = s.table.lookupCredentialsBySelector selector u) ∨ since < s.finished selector ∨
    ∃ revoked, s.Pending selector since revoked
  revoked : ∀ r ∈ entry, s.table.Revoked r.id → since < s.finished selector ∨ ∃ revoked, s.Pending selector since revoked ∧ r.id ∈ revoked
  placed : ∀ r ∈ entry, s.table.Holds r.id selector

theorem Reads.mono {s s' : StoreState} {selector : String} {entry : List CredentialRecord} {since : ℕ} (h : s.Reads selector entry since)
    (htable : s'.table = s.table) (hnow : s.now ≤ s'.now) (hwrites : s.writes ≤ s'.writes) (hfinished : s.finished selector ≤ s'.finished selector)
    (hpending : ∀ revoked, s.Pending selector since revoked → since < s'.finished selector ∨ s'.Pending selector since revoked) :
    s'.Reads selector entry since where
  since_le := h.since_le.trans hwrites
  current := by
    rw [htable]
    rcases h.current with ⟨u,hu,he⟩ | hlt | ⟨revoked,hp⟩
    · exact .inl ⟨u,Int.le_trans hu hnow,he⟩
    · exact .inr (.inl (Nat.lt_of_lt_of_le hlt hfinished))
    · exact .inr ((hpending revoked hp).imp_right fun hp => ⟨revoked,hp⟩)
  revoked r hr hrevoked := by
    rw [htable] at hrevoked
    rcases h.revoked r hr hrevoked with hlt | ⟨revoked,hp,hid⟩
    · exact .inl (Nat.lt_of_lt_of_le hlt hfinished)
    · exact (hpending revoked hp).imp_right fun hp => ⟨revoked,hp,hid⟩
  placed r hr := by
    rw [htable]
    exact h.placed r hr

/-- An update that will invalidate the selectors it wrote to keeps every list accounted for. -/
theorem Reads.write {s s' : StoreState} {selector : String} {entry : List CredentialRecord} {since : ℕ} (h : s.Reads selector entry since)
    {selectors : List String} {revoked : List ℤ} (hw : s.table.Writes s'.table selectors revoked) (hnow : s'.now = s.now)
    (hwrites : s.writes ≤ s'.writes) (hfinished : s'.finished = s.finished)
    (hpending : ∀ sel ids, s.Pending sel since ids → s'.Pending sel since ids)
    (hnew : ∀ sel ∈ selectors, since ≤ s.writes → s'.Pending sel since revoked) : s'.Reads selector entry since where
  since_le := h.since_le.trans hwrites
  current := by
    rw [hfinished,hnow]
    by_cases hmem : selector ∈ selectors
    · exact .inr (.inr ⟨revoked,hnew selector hmem h.since_le⟩)
    rcases h.current with ⟨u,hu,he⟩ | hlt | ⟨ids,hp⟩
    · exact .inl ⟨u,hu,by rw [hw.kept selector hmem]; exact he⟩
    · exact .inr (.inl hlt)
    · exact .inr (.inr ⟨ids,hpending selector ids hp⟩)
  revoked r hr hrevoked := by
    rw [hfinished]
    rcases (hw.revoked r.id).mp hrevoked with hrevoked | hid
    · exact (h.revoked r hr hrevoked).imp_right fun ⟨ids,hp,hid⟩ => ⟨ids,hpending selector ids hp,hid⟩
    · exact .inr ⟨revoked,hnew selector (hw.placed r.id selector hid (h.placed r hr)) h.since_le,hid⟩
  placed r hr := (hw.holds r.id selector).mpr (h.placed r hr)

/-- A list read now. -/
theorem reads_now (s : StoreState) (selector : String) :
    s.Reads selector (s.table.lookupCredentialsBySelector selector s.now) s.writes where
  since_le := le_refl _
  current := .inl ⟨s.now,Int.le_refl _,rfl⟩
  revoked _ hr hrevoked := absurd hrevoked (CredentialTable.not_revoked_of_mem_lookup hr).2
  placed _ hr := (CredentialTable.not_revoked_of_mem_lookup hr).1

end StoreState

/-- No lookup has ever returned a row whose revocation had returned when it started. -/
def RevokedStayOut (s : StoreState) : Prop := ∀ p ∈ s.returned, ∀ r ∈ p.2, r.id ∉ p.1

/-- No update made since the list was read has already invalidated its selector. -/
def StoreCall.FillsCurrent (s : StoreState) : StoreCall → Prop
  | .fill selector _ _ since => s.finished selector ≤ since
  | .idle | .read _ _ | .revoke _ _ _ | .revokeSource _ _ _ _ _ | .retire _ _ _ | .invalidate _ _ _ => True

def FillsCurrent (s : StoreState) : StoreLabel → Prop
  | .call t => (s.calls t).FillsCurrent s
  | .lookupCredential _ _ | .revokeCredential _ _ | .revokeCredentialsBySource _ _ _ _ | .retireCredential _ _ _
  | .rehashCredential _ _ _ _ | .fail _ | .tick _ => True

/-- What the calls and the cache satisfy while no fill is out of date. -/
structure Kept (s : StoreState) : Prop where
  held : ∀ t, (s.calls t).Held s t
  reads : ∀ t selector dead, s.calls t = .read selector dead → ∀ id ∈ dead, s.table.Revoked id
  fills : ∀ t selector entry dead since, s.calls t = .fill selector entry dead since →
    s.Reads selector entry since ∧ ∀ r ∈ entry, r.id ∉ dead
  pending : ∀ t selectors revoked m, s.calls t = .invalidate selectors revoked m → ∀ id ∈ revoked, s.table.Revoked id ∧ id ∉ s.dead
  apart : ∀ t t' selectors selectors' revoked revoked' m m', t ≠ t' → s.calls t = .invalidate selectors revoked m →
    s.calls t' = .invalidate selectors' revoked' m' → ∀ id ∈ revoked, id ∉ revoked'
  dead : ∀ id ∈ s.dead, s.table.Revoked id
  cached : ∀ selector entry, s.cache selector = some entry → ∃ since, s.Reads selector entry since ∧ s.finished selector ≤ since
  returned : RevokedStayOut s

namespace Kept

theorem init (table : CredentialTable) (now : ℤ) : Kept (StoreState.init table now) where
  held _ := trivial
  reads _ _ _ h := by cases h
  fills _ _ _ _ _ h := by cases h
  pending _ _ _ _ h := by cases h
  apart _ _ _ _ _ _ _ _ _ h := by cases h
  dead _ h := absurd h List.not_mem_nil
  cached _ _ h := by cases h
  returned _ h := absurd h List.not_mem_nil

/-- A cached list holds no row whose revocation has returned. -/
theorem not_dead_of_cached {s : StoreState} (h : Kept s) {selector : String} {entry : List CredentialRecord}
    (hc : s.cache selector = some entry) : ∀ r ∈ entry, r.id ∉ s.dead := by
  intro r hr hdead
  obtain ⟨since,hreads,hfinished⟩ := h.cached selector entry hc
  rcases hreads.revoked r hr (h.dead r.id hdead) with hlt | ⟨revoked,⟨t,selectors,m,ht,-,-⟩,hid⟩
  · omega
  · exact (h.pending t selectors revoked m ht r.id hid).2 hdead

theorem answer {s : StoreState} (h : Kept s) {dead : List ℤ} {entry : List CredentialRecord} (hentry : ∀ r ∈ entry, r.id ∉ dead) :
    Kept (s.answer dead entry) := by
  refine ⟨fun t => (h.held t).of_eq rfl rfl,h.reads,?_,h.pending,h.apart,h.dead,?_,?_⟩
  · intro t selector entry' dead' since ht
    obtain ⟨hreads,hdead⟩ := h.fills t selector entry' dead' since ht
    exact ⟨hreads.mono rfl (Int.le_refl _) (le_refl _) (le_refl _) fun _ => .inr,hdead⟩
  · intro selector entry' hc
    obtain ⟨since,hreads,hfinished⟩ := h.cached selector entry' hc
    exact ⟨since,hreads.mono rfl (Int.le_refl _) (le_refl _) (le_refl _) fun _ => .inr,hfinished⟩
  · intro p hp
    rcases List.mem_append.mp hp with hp | hp
    · exact h.returned p hp
    · rw [List.mem_singleton.mp hp]
      exact hentry

theorem insert {s : StoreState} (h : Kept s) {selector : String} {entry : List CredentialRecord} {since : ℕ}
    (hreads : s.Reads selector entry since) (hfinished : s.finished selector ≤ since) : Kept (s.insert selector entry) := by
  have hmono : ∀ sel list n, s.Reads sel list n → (s.insert selector entry).Reads sel list n :=
    fun _ _ _ hr => hr.mono rfl (Int.le_refl _) (le_refl _) (le_refl _) fun _ => .inr
  refine ⟨fun t => (h.held t).of_eq rfl rfl,h.reads,?_,h.pending,h.apart,h.dead,?_,h.returned⟩
  · intro t sel list dead n ht
    obtain ⟨hr,hdead⟩ := h.fills t sel list dead n ht
    exact ⟨hmono _ _ _ hr,hdead⟩
  · intro sel list hc
    rw [StoreState.insert] at hc
    simp only [Function.update_apply] at hc
    split at hc
    · rename_i he
      obtain rfl := he
      obtain rfl := Option.some.inj hc
      exact ⟨since,hmono _ _ _ hreads,hfinished⟩
    · obtain ⟨n,hr,hn⟩ := h.cached sel list hc
      exact ⟨n,hmono _ _ _ hr,hn⟩

theorem tick {s : StoreState} (h : Kept s) (seconds : ℕ) : Kept { s with now := s.now + seconds } := by
  have hmono : ∀ sel list n, s.Reads sel list n → StoreState.Reads { s with now := s.now + seconds } sel list n := by
    intro sel list n hr
    refine hr.mono rfl ?_ (le_refl _) (le_refl _) fun _ => .inr
    simp only
    omega
  refine ⟨fun t => (h.held t).of_eq rfl rfl,h.reads,?_,h.pending,h.apart,h.dead,?_,h.returned⟩
  · intro t sel list dead n ht
    obtain ⟨hr,hdead⟩ := h.fills t sel list dead n ht
    exact ⟨hmono _ _ _ hr,hdead⟩
  · intro sel list hc
    obtain ⟨n,hr,hn⟩ := h.cached sel list hc
    exact ⟨n,hmono _ _ _ hr,hn⟩

/-- Another call's step leaves the invalidations it has to make alone. -/
theorem pending_goto {s : StoreState} {t : ℕ} {next : StoreCall} (hfrom : ∀ selectors revoked m, s.calls t ≠ .invalidate selectors revoked m)
    {selector : String} {since : ℕ} {revoked : List ℤ} (hp : s.Pending selector since revoked) :
    (s.goto t next).Pending selector since revoked := by
  obtain ⟨t',selectors,m,ht',hmem,hle⟩ := hp
  have hne : t' ≠ t := by
    rintro rfl
    exact hfrom selectors revoked m ht'
  refine ⟨t',selectors,m,?_,hmem,hle⟩
  rw [StoreState.goto_calls_of_ne s hne]
  exact ht'

/-- A call that does not invalidate goes on to another step that does not. -/
theorem turn {s : StoreState} (h : Kept s) {t : ℕ} {next : StoreCall} (conn : Option ℕ)
    (hfrom : ∀ selectors revoked m, s.calls t ≠ .invalidate selectors revoked m)
    (hothers : ∀ t', t' ≠ t → (s.calls t').Held { s with conn := conn } t') (hnext : next.Held { s with conn := conn } t)
    (hread : ∀ selector dead, next = .read selector dead → ∀ id ∈ dead, s.table.Revoked id)
    (hfill : ∀ selector entry dead since, next = .fill selector entry dead since →
      s.Reads selector entry since ∧ ∀ r ∈ entry, r.id ∉ dead)
    (hto : ∀ selectors revoked m, next ≠ .invalidate selectors revoked m) : Kept ({ s with conn := conn }.goto t next) := by
  have hmono : ∀ sel list n, s.Reads sel list n → ({ s with conn := conn }.goto t next).Reads sel list n := by
    intro sel list n hr
    refine hr.mono rfl (Int.le_refl _) (le_refl _) (le_refl _) fun revoked hp => .inr ?_
    exact pending_goto (s := { s with conn := conn }) hfrom hp
  have hinv : ∀ t' selectors revoked m, ({ s with conn := conn }.goto t next).calls t' = .invalidate selectors revoked m →
      s.calls t' = .invalidate selectors revoked m := by
    intro t' selectors revoked m ht'
    by_cases htt : t' = t
    · rw [htt,StoreState.goto_calls_self] at ht'
      exact absurd ht' (hto selectors revoked m)
    · rwa [StoreState.goto_calls_of_ne _ htt] at ht'
  refine ⟨fun t' => ?_,fun t' sel dead ht' => ?_,fun t' sel list dead n ht' => ?_,?_,?_,h.dead,?_,h.returned⟩
  · by_cases htt : t' = t
    · rw [htt,StoreState.goto_calls_self]
      exact hnext.of_eq rfl rfl
    · rw [StoreState.goto_calls_of_ne _ htt]
      exact (hothers t' htt).of_eq rfl rfl
  · by_cases htt : t' = t
    · rw [htt,StoreState.goto_calls_self] at ht'
      exact hread sel dead ht'
    · rw [StoreState.goto_calls_of_ne _ htt] at ht'
      exact h.reads t' sel dead ht'
  · by_cases htt : t' = t
    · rw [htt,StoreState.goto_calls_self] at ht'
      exact ⟨hmono _ _ _ (hfill sel list dead n ht').1,(hfill sel list dead n ht').2⟩
    · rw [StoreState.goto_calls_of_ne _ htt] at ht'
      exact ⟨hmono _ _ _ (h.fills t' sel list dead n ht').1,(h.fills t' sel list dead n ht').2⟩
  · exact fun t' selectors revoked m ht' => h.pending t' selectors revoked m (hinv t' selectors revoked m ht')
  · intro t' u selectors selectors' revoked revoked' m m' hne ht' hu
    exact h.apart t' u selectors selectors' revoked revoked' m m' hne (hinv _ _ _ _ ht') (hinv _ _ _ _ hu)
  · intro sel list hc
    obtain ⟨n,hr,hn⟩ := h.cached sel list hc
    exact ⟨n,hmono _ _ _ hr,hn⟩

/-- An update, with the invalidations it leaves to be made. -/
theorem update {s : StoreState} (h : Kept s) {t : ℕ} (ht : s.calls t = .idle ∧ s.conn = none ∨ (s.calls t).Holding)
    {table : CredentialTable} {selectors : List String} {revoked : List ℤ} (hw : s.table.Writes table selectors revoked) :
    Kept (s.update t table selectors revoked) := by
  have hfrom : ∀ selectors revoked m, s.calls t ≠ .invalidate selectors revoked m := by
    intro _ _ _ hc
    rcases ht with ⟨hidle,-⟩ | hholding
    · rw [hidle] at hc
      cases hc
    · rw [hc] at hholding
      exact hholding
  have hothers : ∀ t', t' ≠ t → ¬ (s.calls t').Holding := by
    intro t' hne hholding
    have hconn := (h.held t').conn hholding
    rcases ht with ⟨-,hnone⟩ | hmine
    · rw [hnone] at hconn
      cases hconn
    · rw [(h.held t).conn hmine] at hconn
      exact hne (Option.some.inj hconn).symm
  have hgrow : ∀ id, s.table.Revoked id → table.Revoked id := fun id hid => (hw.revoked id).mpr (.inl hid)
  have hreads : ∀ sel list n, s.Reads sel list n → (s.update t table selectors revoked).Reads sel list n := by
    intro sel list n hr
    refine hr.write hw rfl (Nat.le_succ _) rfl (fun sel ids hp => pending_goto (s := { s with table := table }) hfrom hp) ?_
    exact fun sel hsel hle => ⟨t,selectors,s.writes,StoreState.goto_calls_self _ _ _,hsel,hle⟩
  refine ⟨fun t' => ?_,fun t' sel dead ht' => ?_,fun t' sel list dead n ht' => ?_,?_,?_,?_,?_,h.returned⟩
  · rw [StoreState.update]
    by_cases htt : t' = t
    · rw [htt,StoreState.goto_calls_self]
      trivial
    · rw [StoreState.goto_calls_of_ne _ htt]
      exact StoreCall.held_of_not_holding (hothers t' htt)
  · rcases StoreState.of_goto_calls ht' with ⟨-,hc⟩ | ⟨-,hc⟩
    · cases hc
    · exact fun id hid => hgrow id (h.reads t' sel dead hc id hid)
  · rcases StoreState.of_goto_calls ht' with ⟨-,hc⟩ | ⟨-,hc⟩
    · cases hc
    · exact ⟨hreads sel list n (h.fills t' sel list dead n hc).1,(h.fills t' sel list dead n hc).2⟩
  · intro t' sels ids m ht' id hid
    rcases StoreState.of_goto_calls ht' with ⟨-,hc⟩ | ⟨-,hc⟩
    · obtain ⟨-,rfl,-⟩ := StoreCall.invalidate.inj hc
      exact ⟨(hw.revoked id).mpr (.inr hid),fun hdead => hw.unrevoked id hid (h.dead id hdead)⟩
    · exact ⟨hgrow id (h.pending t' sels ids m hc id hid).1,(h.pending t' sels ids m hc id hid).2⟩
  · intro t' u sels sels' ids ids' m m' hne ht' hu id hid hid'
    rcases StoreState.of_goto_calls ht' with ⟨rfl,hc⟩ | ⟨-,hc⟩
    · rcases StoreState.of_goto_calls hu with ⟨rfl,-⟩ | ⟨-,hc'⟩
      · exact hne rfl
      · obtain ⟨-,rfl,-⟩ := StoreCall.invalidate.inj hc
        exact hw.unrevoked id hid (h.pending u sels' ids' m' hc' id hid').1
    · rcases StoreState.of_goto_calls hu with ⟨-,hc'⟩ | ⟨-,hc'⟩
      · obtain ⟨-,rfl,-⟩ := StoreCall.invalidate.inj hc'
        exact hw.unrevoked id hid' (h.pending t' sels ids m hc id hid).1
      · exact h.apart t' u sels sels' ids ids' m m' hne hc hc' id hid hid'
  · exact fun id hid => hgrow id (h.dead id hid)
  · intro sel list hc
    obtain ⟨n,hr,hn⟩ := h.cached sel list hc
    exact ⟨n,hreads sel list n hr,hn⟩

/-- One of the invalidations a call has to make. -/
theorem invalidate {s : StoreState} (h : Kept s) {t : ℕ} {selector : String} {selectors : List String} {revoked : List ℤ} {since : ℕ}
    (ht : s.calls t = .invalidate (selector :: selectors) revoked since) :
    Kept ((s.invalidate selector since).goto t (.invalidate selectors revoked since)) := by
  have hfinished : ∀ sel, s.finished sel ≤ (s.invalidate selector since).finished sel := by
    intro sel
    rw [StoreState.invalidate]
    simp only [Function.update_apply]
    split
    · rename_i he
      rw [he]
      exact le_max_left _ _
    · exact le_refl _
  have hreads : ∀ sel list n, s.Reads sel list n →
      ((s.invalidate selector since).goto t (.invalidate selectors revoked since)).Reads sel list n := by
    intro sel list n hr
    refine hr.mono rfl (Int.le_refl _) (le_refl _) (hfinished sel) fun ids hp => ?_
    obtain ⟨t',sels,m,ht',hmem,hle⟩ := hp
    by_cases htt : t' = t
    · rw [htt,ht] at ht'
      obtain ⟨rfl,rfl,rfl⟩ := StoreCall.invalidate.inj ht'
      rcases List.mem_cons.mp hmem with rfl | hmem
      · left
        rw [StoreState.goto,StoreState.invalidate]
        simp only [Function.update_self]
        omega
      · exact .inr ⟨t,selectors,since,StoreState.goto_calls_self _ _ _,hmem,hle⟩
    · refine .inr ⟨t',sels,m,?_,hmem,hle⟩
      rw [StoreState.goto_calls_of_ne _ htt]
      exact ht'
  have hinv : ∀ t' sels ids m, ((s.invalidate selector since).goto t (.invalidate selectors revoked since)).calls t' =
      .invalidate sels ids m → ∃ sels' m', s.calls t' = .invalidate sels' ids m' := by
    intro t' sels ids m ht'
    rcases StoreState.of_goto_calls ht' with ⟨rfl,hc⟩ | ⟨-,hc⟩
    · obtain ⟨-,rfl,-⟩ := StoreCall.invalidate.inj hc
      exact ⟨_,_,ht⟩
    · exact ⟨_,_,hc⟩
  refine ⟨fun t' => ?_,fun t' sel dead ht' => ?_,fun t' sel list dead n ht' => ?_,?_,?_,h.dead,?_,h.returned⟩
  · by_cases htt : t' = t
    · rw [htt,StoreState.goto_calls_self]
      trivial
    · rw [StoreState.goto_calls_of_ne _ htt]
      exact (h.held t').of_eq rfl rfl
  · rcases StoreState.of_goto_calls ht' with ⟨-,hc⟩ | ⟨-,hc⟩
    · cases hc
    · exact h.reads t' sel dead hc
  · rcases StoreState.of_goto_calls ht' with ⟨-,hc⟩ | ⟨-,hc⟩
    · cases hc
    · exact ⟨hreads sel list n (h.fills t' sel list dead n hc).1,(h.fills t' sel list dead n hc).2⟩
  · intro t' sels ids m ht'
    obtain ⟨sels',m',hc⟩ := hinv t' sels ids m ht'
    exact h.pending t' sels' ids m' hc
  · intro t' u sels sels' ids ids' m m' hne ht' hu
    obtain ⟨a,m₁,hc⟩ := hinv t' sels ids m ht'
    obtain ⟨b,m₂,hc'⟩ := hinv u sels' ids' m' hu
    exact h.apart t' u a b ids ids' m₁ m₂ hne hc hc'
  · intro sel list hc
    rw [StoreState.goto,StoreState.invalidate] at hc
    simp only [Function.update_apply] at hc
    split at hc
    · cases hc
    · rename_i hne
      obtain ⟨n,hr,hn⟩ := h.cached sel list hc
      refine ⟨n,hreads sel list n hr,?_⟩
      rw [StoreState.goto,StoreState.invalidate]
      simp only [Function.update_of_ne hne]
      exact hn

/-- A call returns once it has invalidated every selector it wrote to. -/
theorem done {s : StoreState} (h : Kept s) {t : ℕ} {revoked : List ℤ} {since : ℕ} (ht : s.calls t = .invalidate [] revoked since) :
    Kept ({ s with dead := s.dead ++ revoked }.goto t .idle) := by
  have hreads : ∀ sel list n, s.Reads sel list n → ({ s with dead := s.dead ++ revoked }.goto t .idle).Reads sel list n := by
    intro sel list n hr
    refine hr.mono rfl (Int.le_refl _) (le_refl _) (le_refl _) fun ids hp => .inr ?_
    obtain ⟨t',sels,m,ht',hmem,hle⟩ := hp
    have hne : t' ≠ t := by
      rintro rfl
      rw [ht] at ht'
      obtain ⟨rfl,-,-⟩ := StoreCall.invalidate.inj ht'
      exact absurd hmem List.not_mem_nil
    refine ⟨t',sels,m,?_,hmem,hle⟩
    rw [StoreState.goto_calls_of_ne _ hne]
    exact ht'
  refine ⟨fun t' => ?_,fun t' sel dead ht' => ?_,fun t' sel list dead n ht' => ?_,?_,?_,?_,?_,h.returned⟩
  · by_cases htt : t' = t
    · rw [htt,StoreState.goto_calls_self]
      trivial
    · rw [StoreState.goto_calls_of_ne _ htt]
      exact (h.held t').of_eq rfl rfl
  · rcases StoreState.of_goto_calls ht' with ⟨-,hc⟩ | ⟨-,hc⟩
    · cases hc
    · exact h.reads t' sel dead hc
  · rcases StoreState.of_goto_calls ht' with ⟨-,hc⟩ | ⟨-,hc⟩
    · cases hc
    · exact ⟨hreads sel list n (h.fills t' sel list dead n hc).1,(h.fills t' sel list dead n hc).2⟩
  · intro t' sels ids m ht' id hid
    rcases StoreState.of_goto_calls ht' with ⟨-,hc⟩ | ⟨hne,hc⟩
    · cases hc
    · refine ⟨(h.pending t' sels ids m hc id hid).1,fun hdead => ?_⟩
      rcases List.mem_append.mp hdead with hdead | hdead
      · exact (h.pending t' sels ids m hc id hid).2 hdead
      · exact h.apart t' t sels [] ids revoked m since hne hc ht id hid hdead
  · intro t' u sels sels' ids ids' m m' hne ht' hu
    rcases StoreState.of_goto_calls ht' with ⟨-,hc⟩ | ⟨-,hc⟩
    · cases hc
    · rcases StoreState.of_goto_calls hu with ⟨-,hc'⟩ | ⟨-,hc'⟩
      · cases hc'
      · exact h.apart t' u sels sels' ids ids' m m' hne hc hc'
  · intro id hid
    rcases List.mem_append.mp hid with hid | hid
    · exact h.dead id hid
    · exact (h.pending t [] revoked since ht id hid).1
  · intro sel list hc
    obtain ⟨n,hr,hn⟩ := h.cached sel list hc
    exact ⟨n,hreads sel list n hr,hn⟩

/-- The only call that holds the connection. -/
private theorem others_held {s : StoreState} (h : Kept s) {t : ℕ} (ht : s.conn = none ∨ s.conn = some t) (conn : Option ℕ) (t' : ℕ)
    (hne : t' ≠ t) : (s.calls t').Held { s with conn := conn } t' := by
  refine StoreCall.held_of_not_holding fun hholding => ?_
  have hconn := (h.held t').conn hholding
  rcases ht with ht | ht
  · rw [ht] at hconn
    cases hconn
  · rw [ht] at hconn
    exact hne (Option.some.inj hconn).symm

private theorem ne_invalidate_of_eq {c c' : StoreCall} (h : c = c') (hc : ∀ selectors revoked m, c' ≠ .invalidate selectors revoked m) :
    ∀ selectors revoked m, c ≠ .invalidate selectors revoked m := by
  rw [h]
  exact hc

theorem step {s s' : StoreState} {a : StoreLabel} (h : Kept s) (hg : FillsCurrent s a) (hm : StoreState.Move s a s') : Kept s' := by
  cases hm with
  | stay => exact h
  | hit hc => exact h.answer (h.not_dead_of_cached hc)
  | miss ht =>
    refine h.turn s.conn (ne_invalidate_of_eq ht (by simp)) (fun t' _ => h.held t') trivial ?_ (by simp) (by simp)
    intro selector dead hnext
    obtain ⟨-,rfl⟩ := StoreCall.read.inj hnext
    exact h.dead
  | @read t selector dead ht =>
    refine h.turn s.conn (ne_invalidate_of_eq ht (by simp)) (fun t' _ => h.held t') trivial (by simp) ?_ (by simp)
    intro sel list dead' n hnext
    obtain ⟨rfl,rfl,rfl,rfl⟩ := StoreCall.fill.inj hnext
    refine ⟨StoreState.reads_now s selector,fun r hr hdead => ?_⟩
    exact (CredentialTable.not_revoked_of_mem_lookup hr).2 (h.reads t selector dead ht r.id hdead)
  | @fill t selector entry dead since ht =>
    obtain ⟨hreads,hdead⟩ := h.fills t selector entry dead since ht
    rw [FillsCurrent,ht] at hg
    have hfilled := (h.insert hreads hg).answer hdead
    exact hfilled.turn s.conn (ne_invalidate_of_eq ht (by simp)) (fun t' _ => hfilled.held t') trivial (by simp) (by simp) (by simp)
  | @hold _ t next ht hconn hnext hheld =>
    refine h.turn (some t) (ne_invalidate_of_eq ht (by simp)) (others_held h (.inl hconn) (some t)) hheld ?_ ?_ ?_
    · rintro _ _ rfl
      exact hnext.elim
    · rintro _ _ _ _ rfl
      exact hnext.elim
    · rintro _ _ _ rfl
      exact hnext.elim
  | giveUp ht =>
    exact h.turn s.conn (ne_invalidate_of_eq ht (by simp)) (fun t' _ => h.held t') trivial (by simp) (by simp) (by simp)
  | @release t ht =>
    refine h.turn none (fun _ _ _ hc => ?_) (others_held h (.inr ((h.held t).conn ht)) none) trivial (by simp) (by simp) (by simp)
    rw [hc] at ht
    exact ht
  | @update a t table selectors revoked ht hw => exact h.update ht (hw (h.held t))
  | invalidate ht => exact h.invalidate ht
  | done ht => exact h.done ht
  | tick => exact h.tick _

theorem run {table : CredentialTable} {now : ℤ} {run : List StoreLabel} {s : StoreState} (hr : (store table now).run run = some s)
    (hg : (store table now).Along FillsCurrent run) : Kept s := by
  refine System.guarded_inv Kept (Kept.init table now) ?_ hg hr
  exact fun s a s' h hg hstep => h.step hg (StoreState.step_move hstep)

end Kept

/-- No call is in progress. -/
def StoreState.Idle (s : StoreState) : Prop := ∀ t, s.calls t = .idle

/-- What a hit returns is, after the authenticator's filter, what a disk lookup returns. -/
def StoreState.Coherent (s : StoreState) : Prop :=
  ∀ selector entry, s.cache selector = some entry →
    entry.filter (fun r => ¬ r.Retired s.now) = s.table.lookupCredentialsBySelector selector s.now

theorem Kept.coherent {s : StoreState} (h : Kept s) (hi : s.Idle) : s.Coherent := by
  intro selector entry hc
  obtain ⟨since,hreads,hfinished⟩ := h.cached selector entry hc
  rcases hreads.current with ⟨u,hu,rfl⟩ | hlt | ⟨revoked,t,selectors,m,ht,-,-⟩
  · exact CredentialTable.lookup_filter_retired hu
  · omega
  · rw [hi t] at ht
    cases ht

/-- Along a run without outdated fills, no lookup returns a row whose revocation had
returned when it started, and between calls the cache agrees with the disk up to rows
whose scheduled retirement has passed. -/
theorem revoked_stay_out {table : CredentialTable} {now : ℤ} {run : List StoreLabel} {s : StoreState}
    (hr : (store table now).run run = some s) (hg : (store table now).Along FillsCurrent run) :
    RevokedStayOut s ∧ (s.Idle → s.Coherent) :=
  have hkept := Kept.run hr hg
  ⟨hkept.returned,hkept.coherent⟩

/-- One consumer with one key. -/
def oneKey : CredentialTable where
  rows := [⟨1,1,.apiKey,"sha256:0",none,"k",0,none,none,none⟩]
  byId := List.pairwise_singleton _ _
  consumers id := if id = 1 then some "alice" else none

/-- A lookup reads the row, it is revoked, the lookup fills the cache, another one hits. -/
def overtaken : List StoreLabel :=
  [.lookupCredential 0 "k",.call 0,.revokeCredential 1 1,.call 1,.call 1,.call 1,.call 0,.lookupCredential 2 "k"]

/-- A row is cached before its scheduled retirement passes. -/
def retiring : List StoreLabel :=
  [.retireCredential 0 1 100,.call 0,.call 0,.call 0,.lookupCredential 1 "k",.call 1,.call 1,.tick 200]

instance (s : StoreState) : Decidable (RevokedStayOut s) := inferInstanceAs (Decidable (∀ p ∈ s.returned, ∀ r ∈ p.2, r.id ∉ p.1))

theorem overtaken_returned : ∃ s, (store oneKey 0).run overtaken = some s ∧ ¬ RevokedStayOut s := by
  refine ⟨((store oneKey 0).run overtaken).get (by decide),(Option.some_get _).symm,?_⟩
  decide

theorem retiring_cached : ∃ s, (store oneKey 0).run retiring = some s ∧ s.Idle ∧
    ∃ entry, s.cache "k" = some entry ∧ entry ≠ s.table.lookupCredentialsBySelector "k" s.now := by
  refine ⟨((store oneKey 0).run retiring).get (by decide),(Option.some_get _).symm,?_,?_⟩
  · intro t
    rcases t with _ | _ | t <;> rfl
  · refine ⟨_,rfl,?_⟩
    decide

theorem revoked_returned : (∃ s, (store oneKey 0).run overtaken = some s ∧ ¬ RevokedStayOut s) ∧
    (∃ s, (store oneKey 0).run retiring = some s ∧ s.Idle ∧
      ∃ entry, s.cache "k" = some entry ∧ entry ≠ s.table.lookupCredentialsBySelector "k" s.now) ∧
    ¬ ∀ run s, (store oneKey 0).run run = some s → RevokedStayOut s ∧ (s.Idle → ∀ selector entry,
      s.cache selector = some entry → entry = s.table.lookupCredentialsBySelector selector s.now) := by
  refine ⟨overtaken_returned,retiring_cached,fun h => ?_⟩
  obtain ⟨s,hr,hnot⟩ := overtaken_returned
  exact hnot (h _ s hr).1

/-- A row is looked up, revoked and looked up again. -/
def inOrder : List StoreLabel :=
  [.lookupCredential 0 "k",.call 0,.call 0,.revokeCredential 1 1,.call 1,.call 1,.call 1,.lookupCredential 2 "k",.call 2,.call 2]

instance (s : StoreState) : (c : StoreCall) → Decidable (c.FillsCurrent s)
  | .fill _ _ _ _ => inferInstanceAs (Decidable (_ ≤ _))
  | .idle | .read _ _ | .revoke _ _ _ | .revokeSource _ _ _ _ _ | .retire _ _ _ | .invalidate _ _ _ => isTrue trivial

instance (s : StoreState) : (a : StoreLabel) → Decidable (FillsCurrent s a)
  | .call t => inferInstanceAs (Decidable ((s.calls t).FillsCurrent s))
  | .lookupCredential _ _ | .revokeCredential _ _ | .revokeCredentialsBySource _ _ _ _ | .retireCredential _ _ _
  | .rehashCredential _ _ _ _ | .fail _ | .tick _ => isTrue trivial

theorem revoked_stay_out_inOrder : ∃ s, (store oneKey 0).run inOrder = some s ∧ RevokedStayOut s ∧ s.Coherent := by
  have hr : (store oneKey 0).run inOrder = some (((store oneKey 0).run inOrder).get (by decide +kernel)) := (Option.some_get _).symm
  have hout := revoked_stay_out hr (System.along_of_alongFrom (by decide +kernel))
  refine ⟨_,hr,hout.1,hout.2 ?_⟩
  rintro (_ | _ | _ | t) <;> rfl

end Dwara.State
