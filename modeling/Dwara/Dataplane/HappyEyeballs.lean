import Dwara.Config.Net
import Dwara.Lib.System
import Mathlib.Data.List.Basic
import Mathlib.Data.List.Perm.Basic

/-! The addresses of an upstream: the order they are dialled in, and the race between the dials. -/

namespace Dwara.Dataplane.HappyEyeballs
open Dwara.Config.Net Dwara.Lib

structure SocketAddr where
  ip : IpAddr
  port : ℕ
  deriving DecidableEq, Repr

def SocketAddr.isIpv6 (a : SocketAddr) : Bool :=
  match a.ip with
  | .v4 _ => false
  | .v6 _ => true

section Order

/-- One of the preferred addresses, then one of the others while there are any. -/
def merge : List SocketAddr → List SocketAddr → List SocketAddr
  | [], _ => []
  | a :: preferred, [] => a :: merge preferred []
  | a :: preferred, b :: other => a :: b :: merge preferred other

/-- The addresses of the family, or those of the other one. -/
def family (v6 : Bool) (addrs : List SocketAddr) : List SocketAddr := addrs.filter (·.isIpv6 = v6)

def interleaveOrder : List SocketAddr → List SocketAddr
  | [] => []
  | [a] => [a]
  | a :: b :: rest => merge (family a.isIpv6 (a :: b :: rest)) (family (!a.isIpv6) (a :: b :: rest))

end Order

section Race

inductive IoErrorKind where
  | invalidInput
  | other
  | os (code : ℤ)
  deriving DecidableEq, Repr

structure IoError where
  kind : IoErrorKind
  message : String
  deriving DecidableEq, Repr

def noAddresses : IoError := ⟨.invalidInput,"no addresses to dial"⟩

/-- How a dial ends. A task may also panic. -/
inductive Joined (T : Type) where
  | ok (t : T)
  | err (e : IoError)
  | panicked (joinErr : String)

inductive Phase (T : Type) where
  /-- The addresses left, those that are being dialled, and the last error. -/
  | racing (it set : List SocketAddr) (lastErr : Option IoError)
  | returned (result : Except IoError T)
  /-- A task is asked for where there is none. -/
  | expectFailed

/-- A race, and the addresses that failed so far. -/
structure Race (T : Type) where
  phase : Phase T
  failed : List SocketAddr

inductive RaceStep (T : Type) where
  /-- The `i`th task ends. -/
  | joined (i : ℕ) (result : Joined T)
  /-- The delay since the last start is over. -/
  | nextStart
  /-- The set is asked for a task and has none. -/
  | emptySet

variable {T : Type}

/-- With no dial left the next address is dialled at once; without one the last error is returned. -/
def fastForward (it set : List SocketAddr) (lastErr : Option IoError) : Phase T :=
  match set with
  | b :: set => .racing it (b :: set) lastErr
  | [] =>
    match it with
    | a :: it => .racing it [a] lastErr
    | [] => .returned (.error (lastErr.getD noAddresses))

/-- Without a delay addresses are dialled one after the other. -/
def isRacing (delay : Option ℕ) : Bool := (delay.filter (· ≠ 0)).isSome

def Race.step (delay : Option ℕ) (r : Race T) : RaceStep T → Option (Race T)
  | .joined i result =>
    match r.phase with
    | .racing it set _ =>
      (set[i]?).bind fun a =>
        match result with
        | .ok t => some ⟨.returned (.ok t),r.failed⟩
        | .err e => some ⟨fastForward it (set.eraseIdx i) (some e),r.failed ++ [a]⟩
        | .panicked joinErr => if isRacing delay then some ⟨.returned (.error ⟨.other,"dial task failed: " ++ joinErr⟩),r.failed⟩ else none
    | _ => none
  | .nextStart =>
    match r.phase with
    | .racing (a :: it) set lastErr => if isRacing delay then some ⟨.racing it (set ++ [a]) lastErr,r.failed⟩ else none
    | _ => none
  | .emptySet =>
    match r.phase with
    | .racing _ [] _ => some ⟨.expectFailed,r.failed⟩
    | _ => none

/-- The race over the addresses, under every order in which dials end and delays are over. -/
def happyRace (T : Type) (seq : List SocketAddr) (delay : Option ℕ) : System (Race T) (RaceStep T) :=
  ⟨⟨fastForward seq [] none,[]⟩,Race.step delay⟩

end Race

section Order
variable {preferred other addrs : List SocketAddr}

/-- Each preferred address is taken, and as many of the others at most. -/
theorem merge_perm (preferred other : List SocketAddr) : (merge preferred other).Perm (preferred ++ other.take preferred.length) := by
  fun_induction merge preferred other with
  | case1 other => simp
  | case2 a preferred ih =>
    rw [List.take_nil,List.append_nil] at ih ⊢
    exact ih.cons a
  | case3 a preferred b other ih =>
    rw [List.length_cons,List.take_succ_cons,List.cons_append]
    exact ((ih.cons b).trans List.perm_middle.symm).cons a

theorem family_merge {v6 : Bool} (hpreferred : ∀ a ∈ preferred, a.isIpv6 = v6) (hother : ∀ b ∈ other, b.isIpv6 = !v6) :
    family v6 (merge preferred other) = preferred ∧ family (!v6) (merge preferred other) = other.take preferred.length := by
  fun_induction merge preferred other with
  | case1 other => exact ⟨rfl,by simp [family]⟩
  | case2 a preferred ih =>
    have ha := hpreferred a List.mem_cons_self
    obtain ⟨hown,hrest⟩ := ih (fun x hx => hpreferred x (List.mem_cons_of_mem _ hx)) hother
    rw [family] at hown hrest
    refine ⟨?_,?_⟩
    · rw [family,List.filter_cons_of_pos (by simpa using ha),hown]
    · rw [family,List.filter_cons_of_neg (by simp [ha]),hrest,List.take_nil,List.take_nil]
  | case3 a preferred b other ih =>
    have ha := hpreferred a List.mem_cons_self
    have hb := hother b List.mem_cons_self
    obtain ⟨hown,hrest⟩ := ih (fun x hx => hpreferred x (List.mem_cons_of_mem _ hx)) (fun x hx => hother x (List.mem_cons_of_mem _ hx))
    rw [family] at hown hrest
    refine ⟨?_,?_⟩
    · rw [family,List.filter_cons_of_pos (by simpa using ha),List.filter_cons_of_neg (by simp [hb]),hown]
    · rw [family,List.filter_cons_of_neg (by simp [ha]),List.filter_cons_of_pos (by simpa using hb),hrest,List.length_cons,List.take_succ_cons]

theorem getElem?_merge (preferred other : List SocketAddr) (i : ℕ) (h : i < min preferred.length other.length) :
    (merge preferred other)[2 * i]? = preferred[i]? ∧ (merge preferred other)[2 * i + 1]? = other[i]? := by
  fun_induction merge preferred other generalizing i with
  | case1 other => simp at h
  | case2 a preferred ih => simp at h
  | case3 a preferred b other ih =>
    cases i with
    | zero => exact ⟨rfl,rfl⟩
    | succ i =>
      have hi : i < min preferred.length other.length := by
        simp only [List.length_cons] at h
        omega
      obtain ⟨hown,hother⟩ := ih i hi
      exact ⟨hown,hother⟩

theorem family_perm (v6 : Bool) (addrs : List SocketAddr) : (family v6 addrs ++ family (!v6) addrs).Perm addrs := by
  have hsplit := List.filter_append_perm (fun a : SocketAddr => decide (a.isIpv6 = v6)) addrs
  have hother : family (!v6) addrs = addrs.filter fun a => !decide (a.isIpv6 = v6) := by
    refine List.filter_congr fun a _ => ?_
    cases a.isIpv6 <;> cases v6 <;> rfl
  rw [hother]
  exact hsplit

theorem interleaveOrder_cons (a : SocketAddr) (rest : List SocketAddr) :
    interleaveOrder (a :: rest) = merge (family a.isIpv6 (a :: rest)) (family (!a.isIpv6) (a :: rest)) := by
  cases rest with
  | nil => simp [interleaveOrder,family,merge]
  | cons b rest => rfl

/-- The order a race dials the addresses in. -/
structure Interleaved (addrs out : List SocketAddr) : Prop where
  perm : out.Perm addrs
  first : out.head? = addrs.head?
  inOrder : ∀ v6, family v6 out <+: family v6 addrs
  alternates : ∀ a ∈ addrs.head?, ∀ i < min (family a.isIpv6 addrs).length (family (!a.isIpv6) addrs).length,
    (out[2 * i]?).map (·.isIpv6) = some a.isIpv6 ∧ (out[2 * i + 1]?).map (·.isIpv6) = some !a.isIpv6

/-- There are no more addresses of the other family than of the first address's own. -/
def OthersFit (addrs : List SocketAddr) : Prop :=
  ∀ a ∈ addrs.head?, (family (!a.isIpv6) addrs).length ≤ (family a.isIpv6 addrs).length

theorem isIpv6_of_mem_family {v6 : Bool} {a : SocketAddr} (h : a ∈ family v6 addrs) : a.isIpv6 = v6 := by
  rw [family,List.mem_filter] at h
  exact of_decide_eq_true h.2

/-- Only the addresses that the other family has too many of are lost; the rest is in order. -/
theorem interleaved_iff (addrs : List SocketAddr) : Interleaved addrs (interleaveOrder addrs) ↔ OthersFit addrs := by
  cases addrs with
  | nil => exact iff_of_true ⟨.nil,rfl,fun _ => List.prefix_rfl,fun a ha => by cases ha⟩ fun a ha => by cases ha
  | cons a rest =>
    have hown : ∀ x ∈ family a.isIpv6 (a :: rest), x.isIpv6 = a.isIpv6 := fun x hx => isIpv6_of_mem_family hx
    have hother : ∀ x ∈ family (!a.isIpv6) (a :: rest), x.isIpv6 = !a.isIpv6 := fun x hx => isIpv6_of_mem_family hx
    have hhead : family a.isIpv6 (a :: rest) = a :: family a.isIpv6 rest := by
      rw [family,List.filter_cons_of_pos (by simp)]
      rfl
    rw [interleaveOrder_cons]
    constructor
    · intro h x hx
      obtain rfl := Option.some.inj hx
      have hlength := ((merge_perm _ _).symm.trans (h.perm.trans (family_perm a.isIpv6 (a :: rest)).symm)).length_eq
      rw [List.length_append,List.length_append,List.length_take] at hlength
      omega
    · intro h
      have hfit := h a rfl
      refine ⟨?_,?_,fun v6 => ?_,fun x hx i hi => ?_⟩
      · have hmerge := merge_perm (family a.isIpv6 (a :: rest)) (family (!a.isIpv6) (a :: rest))
        rw [List.take_of_length_le hfit] at hmerge
        exact hmerge.trans (family_perm a.isIpv6 (a :: rest))
      · rw [hhead]
        cases family (!a.isIpv6) (a :: rest) with
        | nil => rfl
        | cons b other => rfl
      · obtain ⟨hfamily,hrest⟩ := family_merge hown hother
        by_cases hv6 : v6 = a.isIpv6
        · exact ⟨[],by rw [List.append_nil,hv6,hfamily]⟩
        · rw [Bool.eq_not.mpr hv6,hrest]
          exact List.take_prefix _ _
      · obtain rfl := Option.some.inj hx
        obtain ⟨heven,hodd⟩ := getElem?_merge _ _ i hi
        rw [heven,hodd,List.getElem?_eq_getElem (by omega),List.getElem?_eq_getElem (by omega)]
        exact ⟨congrArg some (hown _ (List.getElem_mem _)),congrArg some (hother _ (List.getElem_mem _))⟩

end Order

section Race
variable {T : Type} {seq : List SocketAddr} {delay : Option ℕ} {r r' : Race T}

/-- While a race goes on something is being dialled, and each address failed, is being dialled
or is left. -/
structure Dialling (seq : List SocketAddr) (r : Race T) : Prop where
  racing : ∀ it set lastErr, r.phase = .racing it set lastErr → set ≠ [] ∧ (r.failed ++ (set ++ it)).Perm seq
  expected : r.phase ≠ .expectFailed

theorem dialling_returned (result : Except IoError T) (failed : List SocketAddr) : Dialling seq ⟨.returned result,failed⟩ := by
  refine ⟨fun it set lastErr heq => ?_,?_⟩
  · cases heq
  · rintro ⟨⟩

theorem dialling_fastForward {it set failed : List SocketAddr} {lastErr : Option IoError} (h : (failed ++ (set ++ it)).Perm seq) :
    Dialling seq (⟨fastForward it set lastErr,failed⟩ : Race T) := by
  cases set with
  | cons b set =>
    refine ⟨fun it' set' lastErr' heq => ?_,by rintro ⟨⟩⟩
    cases heq
    exact ⟨List.cons_ne_nil _ _,h⟩
  | nil =>
    cases it with
    | cons a it =>
      refine ⟨fun it' set' lastErr' heq => ?_,by rintro ⟨⟩⟩
      cases heq
      exact ⟨List.cons_ne_nil _ _,h⟩
    | nil => exact dialling_returned _ failed

/-- What one step of a race does. -/
theorem step_cases {label : RaceStep T} (h : r.step delay label = some r') :
    ∃ it set lastErr, r.phase = .racing it set lastErr ∧
      ((∃ i a t, label = .joined i (.ok t) ∧ set[i]? = some a ∧ r' = ⟨.returned (.ok t),r.failed⟩) ∨
        (∃ i a e, label = .joined i (.err e) ∧ set[i]? = some a ∧ r' = ⟨fastForward it (set.eraseIdx i) (some e),r.failed ++ [a]⟩) ∨
        (∃ i joinErr, label = .joined i (.panicked joinErr) ∧ r' = ⟨.returned (.error ⟨.other,"dial task failed: " ++ joinErr⟩),r.failed⟩) ∨
        (∃ a rest, label = .nextStart ∧ it = a :: rest ∧ r' = ⟨.racing rest (set ++ [a]) lastErr,r.failed⟩) ∨
        label = .emptySet ∧ set = [] ∧ r' = ⟨.expectFailed,r.failed⟩) := by
  obtain ⟨phase,failed⟩ := r
  cases phase with
  | returned result => cases label <;> cases h
  | expectFailed => cases label <;> cases h
  | racing it set lastErr =>
    refine ⟨it,set,lastErr,rfl,?_⟩
    cases label with
    | joined i result =>
      obtain ⟨a,ha,h⟩ := Option.bind_eq_some_iff.mp h
      cases result with
      | ok t => exact .inl ⟨i,a,t,rfl,ha,(Option.some.inj h).symm⟩
      | err e => exact .inr (.inl ⟨i,a,e,rfl,ha,(Option.some.inj h).symm⟩)
      | panicked joinErr =>
        dsimp only at h
        split at h
        · exact .inr (.inr (.inl ⟨i,joinErr,rfl,(Option.some.inj h).symm⟩))
        · cases h
    | nextStart =>
      rw [Race.step] at h
      cases it with
      | nil => cases h
      | cons a rest =>
        dsimp only at h
        split at h
        · exact .inr (.inr (.inr (.inl ⟨a,rest,rfl,rfl,(Option.some.inj h).symm⟩)))
        · cases h
    | emptySet =>
      rw [Race.step] at h
      cases set with
      | nil => exact .inr (.inr (.inr (.inr ⟨rfl,rfl,(Option.some.inj h).symm⟩)))
      | cons b set => cases h

private theorem perm_eraseIdx {set : List SocketAddr} {i : ℕ} {a : SocketAddr} (h : set[i]? = some a) (failed it : List SocketAddr) :
    ((failed ++ [a]) ++ (set.eraseIdx i ++ it)).Perm (failed ++ (set ++ it)) := by
  obtain ⟨hi,rfl⟩ := List.getElem?_eq_some_iff.mp h
  have hset : (set[i] :: set.eraseIdx i).Perm set := List.getElem_cons_eraseIdx_perm hi
  rw [List.append_assoc,List.singleton_append,← List.cons_append]
  exact (hset.append_right it).append_left failed

theorem Dialling.step {label : RaceStep T} (h : Dialling seq r) (hs : r.step delay label = some r') : Dialling seq r' := by
  obtain ⟨it,set,lastErr,hphase,hcase⟩ := step_cases hs
  obtain ⟨hne,hperm⟩ := h.racing it set lastErr hphase
  rcases hcase with ⟨i,a,t,-,-,rfl⟩ | ⟨i,a,e,-,ha,rfl⟩ | ⟨i,joinErr,-,rfl⟩ | ⟨a,rest,-,rfl,rfl⟩ | ⟨-,hempty,-⟩
  · exact dialling_returned _ _
  · exact dialling_fastForward ((perm_eraseIdx ha r.failed it).trans hperm)
  · exact dialling_returned _ _
  · refine ⟨fun it' set' lastErr' heq => ?_,by rintro ⟨⟩⟩
    cases heq
    refine ⟨by simp,?_⟩
    rw [List.append_assoc,List.singleton_append]
    exact hperm
  · exact absurd hempty hne

variable {labels : List (RaceStep T)}

theorem dialling_run (hrun : (happyRace T seq delay).run labels = some r) : Dialling seq r := by
  have hinit : Dialling seq (happyRace T seq delay).init := dialling_fastForward (show ([] ++ ([] ++ seq)).Perm seq from List.Perm.refl seq)
  exact System.run_inv (Dialling seq) hinit (fun _ _ _ h hs => h.step hs) hrun

/-- A race returns a success as soon as there is one, and no other. -/
theorem returned_ok_iff (hrun : (happyRace T seq delay).run labels = some r) (t : T) :
    r.phase = .returned (.ok t) ↔ ∃ pre i, labels = pre ++ [.joined i (.ok t)] := by
  constructor
  · intro hphase
    rcases List.eq_nil_or_concat labels with rfl | ⟨pre,label,rfl⟩
    · obtain rfl := Option.some.inj hrun
      cases seq <;> cases hphase
    · rw [List.concat_eq_append] at hrun ⊢
      obtain ⟨q,-,hs⟩ := (System.run_concat_eq_some _).mp hrun
      obtain ⟨it,set,lastErr,-,hcase⟩ := step_cases hs
      rcases hcase with ⟨i,a,t',rfl,-,rfl⟩ | ⟨i,a,e,rfl,-,rfl⟩ | ⟨i,joinErr,rfl,rfl⟩ | ⟨a,rest,rfl,-,rfl⟩ | ⟨rfl,-,rfl⟩
      · cases hphase
        exact ⟨pre,i,rfl⟩
      · cases hset : set.eraseIdx i <;> cases it <;> simp [fastForward,hset] at hphase
      · cases hphase
      · cases hphase
      · cases hphase
  · rintro ⟨pre,i,rfl⟩
    obtain ⟨q,-,hs⟩ := (System.run_concat_eq_some _).mp hrun
    obtain ⟨it,set,lastErr,-,hcase⟩ := step_cases (show q.step delay (.joined i (.ok t)) = some r from hs)
    rcases hcase with ⟨i',a,t',hlabel,-,rfl⟩ | ⟨i',a,e,hlabel,-,-⟩ | ⟨i',joinErr,hlabel,-⟩ | ⟨a,rest,hlabel,-,-⟩ | ⟨hlabel,-,-⟩
    · cases hlabel
      rfl
    · cases hlabel
    · cases hlabel
    · cases hlabel
    · cases hlabel

/-- An error is returned when every address failed, or a task panicked. -/
theorem returned_error (hrun : (happyRace T seq delay).run labels = some r) {e : IoError} (hphase : r.phase = .returned (.error e)) :
    r.failed.Perm seq ∨ ∃ pre i joinErr, labels = pre ++ [.joined i (.panicked joinErr)] := by
  have hlast : ∀ (it set failed : List SocketAddr) (lastErr : Option IoError), (failed ++ (set ++ it)).Perm seq →
      (fastForward it set lastErr : Phase T) = .returned (.error e) → failed.Perm seq := by
    intro it set failed lastErr hperm heq
    cases set with
    | cons b set => cases heq
    | nil =>
      cases it with
      | cons a it => cases heq
      | nil => simpa using hperm
  rcases List.eq_nil_or_concat labels with rfl | ⟨pre,label,rfl⟩
  · obtain rfl := Option.some.inj hrun
    exact .inl (hlast seq [] [] none (List.Perm.refl seq) hphase)
  · rw [List.concat_eq_append] at hrun ⊢
    obtain ⟨q,hq,hs⟩ := (System.run_concat_eq_some _).mp hrun
    obtain ⟨it,set,lastErr,hracing,hcase⟩ := step_cases hs
    obtain ⟨-,hperm⟩ := (dialling_run hq).racing it set lastErr hracing
    rcases hcase with ⟨i,a,t',rfl,-,rfl⟩ | ⟨i,a,e',rfl,ha,rfl⟩ | ⟨i,joinErr,rfl,rfl⟩ | ⟨a,rest,rfl,-,rfl⟩ | ⟨rfl,-,rfl⟩
    · cases hphase
    · exact .inl (hlast _ _ _ _ ((perm_eraseIdx ha q.failed it).trans hperm) hphase)
    · exact .inr ⟨pre,i,joinErr,rfl⟩
    · cases hphase
    · cases hphase

/-- What a race over these addresses returns, in whatever order dials end. -/
structure Races (T : Type) (seq : List SocketAddr) (delay : Option ℕ) : Prop where
  success : ∀ (labels : List (RaceStep T)) (r : Race T) (t : T), (happyRace T seq delay).run labels = some r →
    (r.phase = .returned (.ok t) ↔ ∃ pre i, labels = pre ++ [.joined i (.ok t)])
  error : ∀ (labels : List (RaceStep T)) (r : Race T) (e : IoError), (happyRace T seq delay).run labels = some r →
    (∀ i joinErr, RaceStep.joined i (.panicked joinErr) ∉ labels) → r.phase = .returned (.error e) → r.failed.Perm seq
  expected : ∀ (labels : List (RaceStep T)) (r : Race T), (happyRace T seq delay).run labels = some r → r.phase ≠ .expectFailed

theorem races (T : Type) (seq : List SocketAddr) (delay : Option ℕ) : Races T seq delay where
  success _ _ t hrun := returned_ok_iff hrun t
  error labels r e hrun hquiet hphase := by
    rcases returned_error hrun hphase with hfailed | ⟨pre,i,joinErr,rfl⟩
    · exact hfailed
    · exact absurd (List.mem_append_right pre List.mem_cons_self) (hquiet i joinErr)
  expected _ _ hrun := (dialling_run hrun).expected

end Race

/-- Every address is tried, in the right order, exactly when the other family has no more addresses
than that of the first one. -/
theorem every_address_tried_iff (addrs : List SocketAddr) :
    (Interleaved addrs (interleaveOrder addrs) ∧ ∀ (T : Type) (delay : Option ℕ), Races T (interleaveOrder addrs) delay) ↔ OthersFit addrs := by
  rw [← interleaved_iff addrs]
  exact and_iff_left fun T delay => races T _ delay

/-- The second IPv4 address behind one IPv6 address is never dialled. -/
theorem address_lost : ¬ ∀ addrs : List SocketAddr,
    Interleaved addrs (interleaveOrder addrs) ∧ ∀ (T : Type) (delay : Option ℕ), Races T (interleaveOrder addrs) delay := by
  intro h
  have hperm := (h [⟨.v6 1,80⟩,⟨.v4 0x7f000001,80⟩,⟨.v4 0x7f000002,80⟩]).1.perm.length_eq
  exact absurd hperm (by decide)

end Dwara.Dataplane.HappyEyeballs
