import Dwara.Workspace.Stored

/-! The audit log under concurrent calls: a sequence number is taken under one lock and its
entry pushed under another. -/

namespace Dwara.Workspaces
open Dwara.Lib

/-- The lock a call holds while it appends: `workspaces` to create and delete, `principals`
to assign a role. -/
inductive HeldLock where
  | workspaces
  | principals
  deriving DecidableEq, Repr

/-- An append between its two locks. -/
structure Append where
  held : HeldLock
  entry : AuditEntry
  deriving DecidableEq, Repr

structure AuditCells where
  auditSeq : ℕ
  auditLog : List AuditEntry
  appends : List Append

inductive AuditStep where
  | assignSeq (held : HeldLock) (entry : AuditEntry)
  | push (i : ℕ)

namespace AuditCells

def step (s : AuditCells) : AuditStep → Option AuditCells
  | .assignSeq held entry =>
    if held ∈ s.appends.map (·.held) then none
    else some { s with auditSeq := s.auditSeq + 1,appends := s.appends ++ [⟨held,{ entry with seq := s.auditSeq + 1 }⟩] }
  | .push i =>
    match s.appends[i]? with
    | none => none
    | some a => some { s with auditLog := s.auditLog ++ [a.entry],appends := s.appends.eraseIdx i }

end AuditCells

def auditing : System AuditCells AuditStep := ⟨⟨0,[],[]⟩,AuditCells.step⟩

def Ordered (log : List AuditEntry) : Prop := (log.map (·.seq)).Pairwise (· < ·)

instance (log : List AuditEntry) : Decidable (Ordered log) := inferInstanceAs (Decidable (List.Pairwise _ _))

/-- No append of another call is between its locks. -/
def Alone (s : AuditCells) : AuditStep → Prop
  | .assignSeq _ _ => s.appends = []
  | .push _ => True

instance (s : AuditCells) : (a : AuditStep) → Decidable (Alone s a)
  | .assignSeq _ _ => inferInstanceAs (Decidable (_ = _))
  | .push _ => isTrue trivial

/-- At most one append is pending, with the last number; the log has smaller ones. -/
structure Sequenced (s : AuditCells) : Prop where
  ordered : Ordered s.auditLog
  below : ∀ e ∈ s.auditLog, e.seq + s.appends.length ≤ s.auditSeq
  pending : s.appends = [] ∨ ∃ a, s.appends = [a] ∧ a.entry.seq = s.auditSeq

theorem sequenced_step {s s' : AuditCells} {a : AuditStep} (h : Sequenced s) (halone : Alone s a) (hs : s.step a = some s') :
    Sequenced s' := by
  cases a with
  | assignSeq held entry =>
    rw [AuditCells.step] at hs
    split at hs
    case isTrue => cases hs
    case isFalse =>
      obtain rfl := Option.some.inj hs
      have hnone : s.appends = [] := halone
      refine ⟨h.ordered,?_,.inr ⟨⟨held,{ entry with seq := s.auditSeq + 1 }⟩,?_,rfl⟩⟩
      · intro e he
        have hle := h.below e he
        simp only [hnone,List.nil_append,List.length_nil,List.length_singleton] at hle ⊢
        omega
      · simp [hnone]
  | push i =>
    rw [AuditCells.step] at hs
    split at hs
    case h_1 => cases hs
    case h_2 a ha =>
      obtain rfl := Option.some.inj hs
      rcases h.pending with hnone | ⟨b,hb,hseq⟩
      · rw [hnone] at ha
        cases ha
      · rw [hb] at ha
        have hi : i = 0 := by
          rcases i with - | i
          · rfl
          · simp at ha
        subst hi
        obtain rfl := Option.some.inj ha
        have hbefore : ∀ e ∈ s.auditLog, e.seq < b.entry.seq := by
          intro e he
          have hle := h.below e he
          rw [hb,List.length_singleton] at hle
          omega
        refine ⟨?_,?_,.inl (by simp [hb])⟩
        · rw [Ordered,List.map_append,List.pairwise_append]
          refine ⟨h.ordered,List.pairwise_singleton _ _,?_⟩
          intro x hx y hy
          obtain ⟨e,he,rfl⟩ := List.mem_map.mp hx
          rw [List.map_singleton,List.mem_singleton] at hy
          subst hy
          exact hbefore e he
        · intro e he
          simp only [hb,List.eraseIdx_zero,List.tail_cons,List.length_nil]
          rcases List.mem_append.mp he with he | he
          · have hlt := hbefore e he
            omega
          · obtain rfl := List.mem_singleton.mp he
            omega

/-- Memory is what the store holds, refused calls change nothing, accepted ones are in the
store, and concurrent appends come in the order of their numbers: in every run whose writes
behind a changed memory are taken, whose deletes leave a workspace, and whose appends are
not interleaved. -/
theorem memory_matches_store (t : Tables) :
    (∀ calls m, (manager t).Along Guard calls → (manager t).run calls = some m →
      m.Stored ∧ ∀ c o, Guard m (c,o) →
        (m.call o c).2.Stored ∧ (∀ e, (m.call o c).1 = .error e → (m.call o c).2 = m) ∧
        ((m.call o c).1 = .ok () → c.InStore (m.call o c).2.store)) ∧
    ∀ steps s, auditing.Along Alone steps → auditing.run steps = some s → Ordered s.auditLog := by
  constructor
  · intro calls m hguard hrun
    have hsound : Sound m := by
      refine System.guarded_inv Sound (sound_withStore t) ?_ hguard hrun
      rintro m ⟨c,o⟩ m' h hg hs
      obtain rfl := Option.some.inj hs
      exact (kept_call h o hg).sound
    refine ⟨hsound.stored,fun c o hg => ?_⟩
    have hkept := kept_call hsound o hg
    exact ⟨hkept.sound.stored,hkept.refused,hkept.inStore⟩
  · intro steps s halone hrun
    have hstart : Sequenced auditing.init := ⟨List.Pairwise.nil,fun e he => absurd he List.not_mem_nil,.inl rfl⟩
    have hseq : Sequenced s := System.guarded_inv Sequenced hstart (fun _ _ _ h hg hs => sequenced_step h hg hs) halone hrun
    exact hseq.ordered

section Example

private def adminTables : Tables where
  workspaces := [⟨"default","Default workspace",true⟩,⟨"team","Team",true⟩]
  rbacRoles := [⟨"root",some (encodePermissions [⟨.admin,"*"⟩])⟩]
  rbacPrincipals := [⟨"ops",some (encodeRoleNames ["root"])⟩]
  workspaceAudit := []

private def taken : Outcome := ⟨none,true,0⟩
private def diskFull : Outcome := ⟨some "disk full",true,0⟩

private def entryOf (principal : String) : AuditEntry := ⟨0,0,principal,"","",none,none,""⟩

private def replaceTeam : List (Call × Outcome) :=
  [(.createWorkspace "ops" ⟨"b","B",true⟩ "r",taken),(.deleteWorkspace "ops" "team" "r",taken)]

private def oneByOne : List AuditStep := [.assignSeq .workspaces (entryOf "ops"),.push 0,.assignSeq .principals (entryOf "dev"),.push 0]

/-- A workspace is created and another deleted, with the store's writes taken. -/
theorem memory_matches_store_managed :
    ∃ m, (manager adminTables).run replaceTeam = some m ∧ m.memory.workspaces "b" = some ⟨"b","B",true⟩ ∧
      m.memory.workspaces "team" = none ∧ m.Stored ∧ ∃ s, auditing.run oneByOne = some s ∧ Ordered s.auditLog := by
  have hboth := memory_matches_store adminTables
  have hcalls : (manager adminTables).Along Guard replaceTeam := System.along_of_alongFrom (by decide +kernel)
  have hsteps : auditing.Along Alone oneByOne := System.along_of_alongFrom (by decide)
  refine ⟨_,rfl,by decide +kernel,by decide +kernel,?_,_,rfl,?_⟩
  · exact (hboth.1 replaceTeam _ hcalls rfl).1
  · exact hboth.2 oneByOne _ hsteps rfl

/-- A delete the store refuses is done in memory only. A role the store refuses is given in
memory, and the retry is accepted with nothing stored. Of two calls with different locks
the later number may be pushed first. -/
theorem memory_diverges :
    (∃ m, (manager adminTables).run [(.deleteWorkspace "ops" "team" "r",diskFull)] = some m ∧ ¬ m.Stored) ∧
    (∃ m, (manager adminTables).run [(.assignRole "dev" "root" "r",diskFull)] = some m ∧ ¬ m.Stored ∧
      (m.call taken (.assignRole "dev" "root" "r")).1 = .ok () ∧
      ¬ Call.InStore (m.call taken (.assignRole "dev" "root" "r")).2.store (.assignRole "dev" "root" "r") ∧
      m.memory.checkPermission "dev" .admin "global" ≠ (withStore adminTables true).memory.checkPermission "dev" .admin "global") ∧
    ∃ s, auditing.run [.assignSeq .workspaces (entryOf "ops"),.assignSeq .principals (entryOf "dev"),.push 1,.push 0] = some s ∧
      ¬ Ordered s.auditLog := by
  refine ⟨⟨_,rfl,?_⟩,⟨_,rfl,?_,?_,?_,?_⟩,⟨_,rfl,?_⟩⟩
  · intro h
    have hteam := congrFun (congrArg Memory.workspaces h) "team"
    revert hteam
    decide
  · intro h
    have hdev := congrFun (congrArg Memory.principals h) "dev"
    revert hdev
    decide
  · rfl
  · rintro ⟨p,hp,-⟩
    cases hp
  · decide
  · decide

end Example

end Dwara.Workspaces
