import Dwara.Lib.System
import Mathlib.Data.Nat.Basic
import Mathlib.Logic.Function.Basic

/-! The tunnel of an upgraded connection, with and without an idle limit. Reads and writes succeed. -/

namespace Dwara.Dataplane.Tunnel
open Dwara.Lib

inductive Side where
  | client
  | upstream
  deriving DecidableEq, Repr

def Side.peer : Side → Side
  | .client => .upstream
  | .upstream => .client

theorem Side.forall_side {p : Side → Prop} (hc : p .client) (hu : p .upstream) (side : Side) : p side := by
  cases side <;> assumption

/-- Two streams that are copied to each other. By side: what it sent, what of it waits to be read, what
the other side got, whether it has finished sending, and whether its direction is still copied. -/
structure Splice where
  sent : Side → List UInt8
  pending : Side → List UInt8
  delivered : Side → List UInt8
  finished : Side → Bool
  copying : Side → Bool
  now : ℕ
  deadline : ℕ

/-- A side sends or finishes, time goes by, a read returns bytes or the end, or the timer fires. -/
inductive SpliceEvent where
  | arrive (side : Side) (bytes : List UInt8)
  | finish (side : Side)
  | advance (ms : ℕ)
  | read (side : Side) (n : ℕ)
  | eof (side : Side)
  | elapse
  deriving DecidableEq, Repr

def bufferSize : ℕ := 8192

namespace Splice

def start (deadline : ℕ) : Splice := ⟨fun _ => [],fun _ => [],fun _ => [],fun _ => false,fun _ => true,0,deadline⟩

/-- What happens outside of the tunnel. -/
def outside (s : Splice) : SpliceEvent → Option Splice
  | .arrive side bytes =>
    if s.finished side then none
    else
      some { s with
        sent := Function.update s.sent side (s.sent side ++ bytes)
        pending := Function.update s.pending side (s.pending side ++ bytes) }
  | .finish side => some { s with finished := Function.update s.finished side true }
  | .advance ms => some { s with now := s.now + ms }
  | _ => none

/-- A read of `n` bytes, written to the other side. -/
def chunk (s : Splice) (side : Side) (n : ℕ) : Option Splice :=
  if s.copying side ∧ 0 < n ∧ n ≤ bufferSize ∧ n ≤ (s.pending side).length then
    some { s with
      delivered := Function.update s.delivered side (s.delivered side ++ (s.pending side).take n)
      pending := Function.update s.pending side ((s.pending side).drop n) }
  else none

/-- A read returns the end of the stream. -/
def AtEnd (s : Splice) (side : Side) : Prop := s.copying side = true ∧ s.finished side = true ∧ s.pending side = []

instance (s : Splice) (side : Side) : Decidable (s.AtEnd side) := inferInstanceAs (Decidable (_ ∧ _))

/-- `copy_bidirectional`: the end of one stream ends its direction. -/
def tunnelStep (s : Splice) : SpliceEvent → Option Splice
  | .read side n => s.chunk side n
  | .eof side => if s.AtEnd side then some { s with copying := Function.update s.copying side false } else none
  | .elapse => none
  | e => s.outside e

/-- The loop with the timer: the end of one stream ends both directions. -/
def idleTunnelStep (idle : ℕ) (s : Splice) : SpliceEvent → Option Splice
  | .read side n => (s.chunk side n).map fun s => { s with deadline := s.now + idle }
  | .eof side => if s.AtEnd side then some { s with copying := fun _ => false } else none
  | .elapse => if s.deadline ≤ s.now then some { s with copying := fun _ => false } else none
  | e => s.outside e

end Splice

def tunnel : System Splice SpliceEvent := ⟨.start 0,Splice.tunnelStep⟩

def idleTunnel (idle : ℕ) : System Splice SpliceEvent := ⟨.start idle,Splice.idleTunnelStep idle⟩

namespace Splice

/-- The tunnel is over, and both sides have finished. -/
def Over (s : Splice) : Prop := (∀ side, s.copying side = false) ∧ ∀ side, s.finished side = true

/-- At the end of one stream the other has nothing that waits, and nothing comes once the tunnel is over. -/
def Drained (s : Splice) : SpliceEvent → Prop
  | .eof side => s.pending side.peer = []
  | .elapse => ∀ side, s.pending side = []
  | .arrive side bytes => s.copying side = true ∨ bytes = []
  | _ => True

/-- Nothing is left behind where a direction is over. -/
def Emptied (s : Splice) : Prop := ∀ side, s.copying side = false → s.pending side = []

variable {s t : Splice} {e : SpliceEvent} {idle : ℕ}

/-- What was sent was delivered or waits to be read. -/
def Accounted (s : Splice) : Prop := ∀ side, s.sent side = s.delivered side ++ s.pending side

theorem accounted_outside (hs : s.Accounted) (h : s.outside e = some t) : t.Accounted := by
  cases e with
  | arrive side bytes =>
    rw [outside] at h
    split at h
    · cases h
    · cases h
      intro other
      by_cases ho : other = side
      · subst ho
        simp only [Function.update_self]
        rw [hs other,List.append_assoc]
      · simp only [Function.update_of_ne ho]
        exact hs other
  | finish side =>
    cases h
    exact hs
  | advance ms =>
    cases h
    exact hs
  | _ => cases h

theorem accounted_chunk (hs : s.Accounted) {side : Side} {n : ℕ} (h : s.chunk side n = some t) : t.Accounted := by
  rw [chunk] at h
  split at h
  · cases h
    intro other
    by_cases ho : other = side
    · subst ho
      simp only [Function.update_self]
      rw [hs other,List.append_assoc,List.take_append_drop]
    · simp only [Function.update_of_ne ho]
      exact hs other
  · cases h

theorem accounted_tunnel (hs : s.Accounted) (h : s.tunnelStep e = some t) : t.Accounted := by
  cases e with
  | read side n => exact accounted_chunk hs h
  | eof side =>
    rw [tunnelStep] at h
    split at h
    · cases h
      exact hs
    · cases h
  | elapse => cases h
  | arrive side bytes => exact accounted_outside (e := .arrive side bytes) hs h
  | finish side => exact accounted_outside (e := .finish side) hs h
  | advance ms => exact accounted_outside (e := .advance ms) hs h

theorem accounted_idleTunnel (hs : s.Accounted) (h : s.idleTunnelStep idle e = some t) : t.Accounted := by
  cases e with
  | read side n =>
    obtain ⟨r,hr,rfl⟩ := Option.map_eq_some_iff.mp h
    have hchunk : r.Accounted := accounted_chunk hs hr
    exact hchunk
  | eof side =>
    rw [idleTunnelStep] at h
    split at h
    · cases h
      exact hs
    · cases h
  | elapse =>
    rw [idleTunnelStep] at h
    split at h
    · cases h
      exact hs
    · cases h
  | arrive side bytes => exact accounted_outside (e := .arrive side bytes) hs h
  | finish side => exact accounted_outside (e := .finish side) hs h
  | advance ms => exact accounted_outside (e := .advance ms) hs h

/-- Everything was delivered just when nothing waits. -/
theorem delivered_eq_sent_iff (hs : s.Accounted) : s.delivered = s.sent ↔ ∀ side, s.pending side = [] := by
  constructor
  · intro h side
    have hside := hs side
    rw [← h] at hside
    simpa using hside
  · intro h
    funext side
    rw [hs side,h side,List.append_nil]

/-- In the plain tunnel a direction is over when its stream is, and all of it was read. -/
def Closed (s : Splice) : Prop := ∀ side, s.copying side = false → s.finished side = true ∧ s.pending side = []

theorem closed_tunnel (hs : s.Closed) (h : s.tunnelStep e = some t) : t.Closed := by
  cases e with
  | arrive side bytes =>
    have hstep : s.outside (.arrive side bytes) = some t := h
    rw [outside] at hstep
    split at hstep
    · cases hstep
    · rename_i hopen
      cases hstep
      intro other ho
      obtain ⟨hfinished,hempty⟩ := hs other ho
      have hne : other ≠ side := fun he => hopen (he ▸ hfinished)
      simp only [Function.update_of_ne hne]
      exact ⟨hfinished,hempty⟩
  | finish side =>
    cases h
    intro other ho
    by_cases he : other = side
    · subst he
      refine ⟨?_,(hs other ho).2⟩
      simp only [Function.update_self]
    · simp only [Function.update_of_ne he]
      exact hs other ho
  | advance ms =>
    cases h
    exact hs
  | read side n =>
    rw [tunnelStep,chunk] at h
    split at h
    · rename_i hread
      cases h
      intro other ho
      have hne : other ≠ side := by
        rintro rfl
        exact absurd (ho.symm.trans hread.1) Bool.false_ne_true
      simp only [Function.update_of_ne hne]
      exact hs other ho
    · cases h
  | eof side =>
    rw [tunnelStep] at h
    split at h
    · rename_i hend
      cases h
      intro other ho
      by_cases he : other = side
      · subst he
        exact ⟨hend.2.1,hend.2.2⟩
      · simp only [Function.update_of_ne he] at ho
        exact hs other ho
    · cases h
  | elapse => cases h

/-- The plain tunnel delivers all of both streams. -/
theorem tunnel_delivers {events : List SpliceEvent} (hr : tunnel.run events = some s) (hover : s.Over) : s.delivered = s.sent := by
  have haccounted : s.Accounted := System.run_inv Accounted (fun _ => rfl) (fun _ _ _ hs h => accounted_tunnel hs h) hr
  have hclosed : s.Closed := System.run_inv Closed (fun _ h => by cases h) (fun _ _ _ hs h => closed_tunnel hs h) hr
  exact (delivered_eq_sent_iff haccounted).mpr fun side => (hclosed side (hover.1 side)).2

/-- With the timer both directions are copied, or none. -/
def Coupled (s : Splice) : Prop := ∀ side, s.copying side = s.copying .client

/-- What a step outside of the reads leaves alone. -/
theorem copying_outside (h : s.outside e = some t) : t.copying = s.copying := by
  cases e with
  | arrive side bytes =>
    rw [outside] at h
    split at h
    · cases h
    · cases h
      rfl
  | finish side =>
    cases h
    rfl
  | advance ms =>
    cases h
    rfl
  | _ => cases h

theorem copying_chunk {side : Side} {n : ℕ} (h : s.chunk side n = some t) : t.copying = s.copying ∧ s.copying side = true := by
  rw [chunk] at h
  split at h
  · rename_i hread
    cases h
    exact ⟨rfl,hread.1⟩
  · cases h

theorem coupled_of_eq (hs : s.Coupled) (h : t.copying = s.copying) : t.Coupled := by
  intro side
  rw [h]
  exact hs side

theorem coupled_idleTunnel (hs : s.Coupled) (h : s.idleTunnelStep idle e = some t) : t.Coupled := by
  cases e with
  | read side n =>
    obtain ⟨r,hr,rfl⟩ := Option.map_eq_some_iff.mp h
    exact coupled_of_eq hs (copying_chunk hr).1
  | eof side =>
    rw [idleTunnelStep] at h
    split at h
    · cases h
      exact fun _ => rfl
    · cases h
  | elapse =>
    rw [idleTunnelStep] at h
    split at h
    · cases h
      exact fun _ => rfl
    · cases h
  | arrive side bytes => exact coupled_of_eq hs (copying_outside (e := .arrive side bytes) h)
  | finish side => exact coupled_of_eq hs (copying_outside (e := .finish side) h)
  | advance ms => exact coupled_of_eq hs (copying_outside (e := .advance ms) h)

theorem emptied_step_iff (hs : s.Emptied) (hcoupled : s.Coupled) (h : s.idleTunnelStep idle e = some t) :
    t.Emptied ↔ s.Drained e := by
  cases e with
  | arrive side bytes =>
    have hstep : s.outside (.arrive side bytes) = some t := h
    rw [outside] at hstep
    split at hstep
    · cases hstep
    · cases hstep
      constructor
      · intro ht
        cases hcopying : s.copying side with
        | true => exact .inl hcopying
        | false =>
          have hall := ht side hcopying
          simp only [Function.update_self] at hall
          exact .inr (List.append_eq_nil_iff.mp hall).2
      · intro hdrained other ho
        by_cases he : other = side
        · subst he
          have hnone : bytes = [] := hdrained.resolve_left fun hc => Bool.false_ne_true (ho.symm.trans hc)
          simp only [Function.update_self]
          rw [hs other ho,hnone,List.append_nil]
        · simp only [Function.update_of_ne he]
          exact hs other ho
  | finish side =>
    cases h
    exact iff_of_true hs trivial
  | advance ms =>
    cases h
    exact iff_of_true hs trivial
  | read side n =>
    obtain ⟨r,hr,rfl⟩ := Option.map_eq_some_iff.mp h
    obtain ⟨hsame,hside⟩ := copying_chunk hr
    refine iff_of_true (fun other ho => ?_) trivial
    have ho' : s.copying other = false := hsame ▸ ho
    rw [hcoupled other,← hcoupled side,hside] at ho'
    cases ho'
  | eof side =>
    rw [idleTunnelStep] at h
    split at h
    · rename_i hend
      cases h
      constructor
      · intro ht
        exact ht side.peer rfl
      · intro hpeer other _
        cases side <;> cases other
        · exact hend.2.2
        · exact hpeer
        · exact hpeer
        · exact hend.2.2
    · cases h
  | elapse =>
    rw [idleTunnelStep] at h
    split at h
    · cases h
      exact ⟨fun ht side => ht side rfl,fun hall side _ => hall side⟩
    · cases h

/-- What is left behind stays behind. -/
theorem emptied_of_step (hs : s.Coupled) (h : s.idleTunnelStep idle e = some t) (ht : t.Emptied) : s.Emptied := by
  intro side hclosed
  have hnone : ∀ other, s.copying other ≠ true := fun other ho => by
    rw [hs other,← hs side,hclosed] at ho
    cases ho
  cases e with
  | arrive other bytes =>
    have hstep : s.outside (.arrive other bytes) = some t := h
    rw [outside] at hstep
    split at hstep
    · cases hstep
    · cases hstep
      have hall := ht side hclosed
      by_cases he : side = other
      · subst he
        simp only [Function.update_self] at hall
        exact (List.append_eq_nil_iff.mp hall).1
      · simp only [Function.update_of_ne he] at hall
        exact hall
  | finish other =>
    cases h
    exact ht side hclosed
  | advance ms =>
    cases h
    exact ht side hclosed
  | read other n =>
    obtain ⟨r,hr,rfl⟩ := Option.map_eq_some_iff.mp h
    exact absurd (copying_chunk hr).2 (hnone other)
  | eof other =>
    rw [idleTunnelStep] at h
    split at h
    · rename_i hend
      exact absurd hend.1 (hnone other)
    · cases h
  | elapse =>
    rw [idleTunnelStep] at h
    split at h
    · cases h
      exact ht side rfl
    · cases h

/-- A later state leaves behind what an earlier one does. -/
def Before (s t : Splice) : Prop := s.Coupled → t.Coupled ∧ (t.Emptied → s.Emptied)

instance : Std.Refl Before := ⟨fun _ hs => ⟨hs,id⟩⟩

instance : IsTrans Splice Before := ⟨fun _ _ _ hst htu hs =>
  ⟨(htu (hst hs).1).1,fun hu => (hst hs).2 ((htu (hst hs).1).2 hu)⟩⟩

theorem before_step (h : s.idleTunnelStep idle e = some t) : Before s t := fun hs =>
  ⟨coupled_idleTunnel hs h,emptied_of_step hs h⟩

end Splice

open Splice

/-- Nothing is left behind in a run just when every step of it leaves nothing behind. -/
theorem emptied_iff_along {idle : ℕ} {events : List SpliceEvent} {s : Splice} (hr : (idleTunnel idle).run events = some s) :
    s.Emptied ↔ (idleTunnel idle).Along Drained events := by
  have hstart : (Splice.start idle).Coupled ∧ (Splice.start idle).Emptied := ⟨fun _ => rfl,fun _ h => by cases h⟩
  rw [← System.forall_prefix_iff_along (fun s => s.Coupled ∧ s.Emptied) hstart
    (fun s e t hs h => (and_iff_right (coupled_idleTunnel hs.1 h)).trans (emptied_step_iff hs.2 hs.1 h)) hr]
  constructor
  · rintro hs pre post r rfl hpre
    have hcoupled : r.Coupled := System.run_inv Coupled (fun _ => rfl) (fun _ _ _ hs h => coupled_idleTunnel hs h) hpre
    have hbefore : Before r s := System.extension_related Before (fun _ _ _ h => before_step h) hpre hr
    exact ⟨hcoupled,(hbefore hcoupled).2 hs⟩
  · intro hall
    exact (hall events [] s (List.append_nil events).symm hr).2

/-- Over the same streams the tunnel with the timer delivers what the plain tunnel does just when, at the
end of one stream, nothing waits on the other side, and nothing comes after it. -/
theorem idle_tunnel_delivers_iff {idle : ℕ} {events events' : List SpliceEvent} {s t : Splice}
    (hr : (idleTunnel idle).run events = some s) (hover : s.Over) (ht : tunnel.run events' = some t) (hover' : t.Over)
    (hsent : s.sent = t.sent) : s.delivered = t.delivered ↔ (idleTunnel idle).Along Drained events := by
  have haccounted : s.Accounted :=
    System.run_inv Accounted (fun _ => rfl) (fun _ _ _ hs h => accounted_idleTunnel hs h) hr
  rw [tunnel_delivers ht hover',← hsent,delivered_eq_sent_iff haccounted,← emptied_iff_along hr]
  exact ⟨fun hall side _ => hall side,fun hs side => hs side (hover.1 side)⟩

/-- The client asks and finishes last. -/
theorem idle_tunnel_delivers_upgrade : ∃ s t,
    (idleTunnel 60000).run [.arrive .client [1],.read .client 1,.arrive .upstream [2,3],.read .upstream 2,
      .finish .upstream,.finish .client,.eof .upstream] = some s ∧
    tunnel.run [.arrive .upstream [2,3],.read .upstream 1,.finish .upstream,.arrive .client [1],.read .client 1,
      .finish .client,.read .upstream 1,.eof .client,.eof .upstream] = some t ∧ s.delivered = t.delivered := by
  refine ⟨_,_,rfl,rfl,?_⟩
  refine (@idle_tunnel_delivers_iff 60000 [.arrive .client [1],.read .client 1,.arrive .upstream [2,3],.read .upstream 2,
    .finish .upstream,.finish .client,.eof .upstream] [.arrive .upstream [2,3],.read .upstream 1,.finish .upstream,
    .arrive .client [1],.read .client 1,.finish .client,.read .upstream 1,.eof .client,.eof .upstream] _ _ rfl ?_ rfl ?_ ?_).mpr ?_
  · exact ⟨Side.forall_side rfl rfl,Side.forall_side rfl rfl⟩
  · exact ⟨Side.forall_side rfl rfl,Side.forall_side rfl rfl⟩
  · exact funext (Side.forall_side rfl rfl)
  · exact System.along_of_alongFrom ⟨.inl rfl,trivial,.inl rfl,trivial,trivial,trivial,rfl,trivial⟩

/-- The client finishes, then the upstream answers: the answer never arrives. -/
theorem idle_tunnel_loses_answer : ∃ s t,
    (idleTunnel 60000).run [.finish .client,.eof .client,.arrive .upstream [1],.finish .upstream] = some s ∧
    tunnel.run [.finish .client,.eof .client,.arrive .upstream [1],.finish .upstream,.read .upstream 1,.eof .upstream] = some t ∧
    s.Over ∧ t.Over ∧ s.sent = t.sent ∧ s.now < s.deadline ∧ s.delivered .upstream = [] ∧ t.delivered .upstream = [1] := by
  refine ⟨_,_,rfl,rfl,?_,?_,?_,?_,rfl,rfl⟩
  · exact ⟨Side.forall_side rfl rfl,Side.forall_side rfl rfl⟩
  · exact ⟨Side.forall_side rfl rfl,Side.forall_side rfl rfl⟩
  · rfl
  · decide

end Dwara.Dataplane.Tunnel
