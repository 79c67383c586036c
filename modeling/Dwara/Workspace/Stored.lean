import Dwara.Lib.System
import Dwara.Workspace.Manager

/-! Memory and store over runs of calls, some of whose writes fail. -/

namespace Dwara.Workspaces
open Dwara.Lib

section Rows
variable {α : Type} (key : α → String) (row : α) (rows : List α) (name : String)

theorem lookup_filter (other : String) : lookup key (rows.filter (key · ≠ name)) other =
    if other = name then none else lookup key rows other := by
  rw [lookup,lookup,List.find?_filter]
  split
  case isTrue heq =>
    subst heq
    rw [List.find?_eq_none]
    intro r hr
    simp
  case isFalse hne =>
    congr 1
    funext r
    by_cases hr : key r = other
    · simp [hr,hne]
    · simp [hr]

/-- A written row is found under its key, the others as before. -/
theorem lookup_upsert : lookup key (upsert key row rows) name = if name = key row then some row else lookup key rows name := by
  have hrest := lookup_filter key rows (key row) name
  rw [lookup] at hrest
  rw [lookup,upsert,List.find?_append,hrest]
  split
  case isTrue heq => simp [heq]
  case isFalse hne =>
    have hnot : ¬ key row = name := fun h => hne h.symm
    simp [hnot]

theorem mem_upsert : row ∈ upsert key row rows := List.mem_append_right _ List.mem_cons_self

end Rows

@[simp] theorem decodePermissions_encode (perms : List Permission) : decodePermissions (some (encodePermissions perms)) = perms := by
  have hone : decodePermission ∘ (fun p : Permission => Json.object [("action",.string p.action.asStr),("workspace",.string p.workspace)]) =
      some := by
    funext p
    simp [decodePermission,Json.get,Json.asStr,List.lookup_cons]
  simp only [decodePermissions,encodePermissions,Option.bind_some,Json.asArray,Option.getD_some]
  rw [List.filterMap_map,hone,List.filterMap_some]

@[simp] theorem decodeRoleNames_encode (names : List String) : decodeRoleNames (some (encodeRoleNames names)) = names := by
  have hall : (names.map Json.string).mapM Json.asStr = some names := by
    induction names with
    | nil => rfl
    | cons name names ih => simp [Json.asStr,ih]
  simp [decodeRoleNames,encodeRoleNames,Json.asArray,hall]

namespace Tables
variable (t : Tables)

theorem contents_upsertWorkspace (w : Workspace) :
    (t.upsertWorkspace w).contents = { t.contents with workspaces := Function.update t.contents.workspaces w.name (some w) } := by
  rw [contents,upsertWorkspace,contents]
  congr 1
  funext name
  simp only
  rw [lookup_upsert]
  by_cases hname : name = w.name
  · subst hname
    simp [WorkspaceRow.toWorkspace]
  · simp [hname]

theorem contents_deleteWorkspaceRow (gone : String) :
    (t.deleteWorkspaceRow gone).contents = { t.contents with workspaces := Function.update t.contents.workspaces gone none } := by
  rw [contents,deleteWorkspaceRow,contents]
  congr 1
  funext name
  simp only
  rw [lookup_filter]
  by_cases hname : name = gone
  · subst hname
    simp
  · simp [hname]

theorem contents_upsertRole (role : Role) : (t.upsertRole role.name (encodePermissions role.permissions)).contents =
    { t.contents with roles := Function.update t.contents.roles role.name (some role) } := by
  rw [contents,upsertRole,contents]
  congr 1
  funext name
  simp only
  rw [lookup_upsert]
  by_cases hname : name = role.name
  · subst hname
    simp [RoleRow.toRole]
  · simp [hname]

theorem contents_upsertPrincipal (identity : String) (roles : List String) :
    (t.upsertPrincipal identity (encodeRoleNames roles)).contents =
      { t.contents with principals := Function.update t.contents.principals identity (some ⟨identity,roles⟩) } := by
  rw [contents,upsertPrincipal,contents]
  congr 1
  funext name
  simp only
  rw [lookup_upsert]
  by_cases hname : name = identity
  · subst hname
    simp [PrincipalRow.toPrincipal]
  · simp [hname]

end Tables

/-- Memory is what a load of the store gives. -/
def Manager.Stored (m : Manager) : Prop := (loadFromStore m.store true).2 = m.memory

/-- The effect of a call, as the store has it. -/
def Call.InStore (t : Tables) : Call → Prop
  | .createWorkspace _ w _ => t.contents.workspaces w.name = some w
  | .deleteWorkspace _ name _ => t.contents.workspaces name = none
  | .assignRole identity roleName _ => ∃ p, t.contents.principals identity = some p ∧ roleName ∈ p.roles
  | .addRole role => t.contents.roles role.name = some role

/-- A write that follows its change of memory is taken, and a delete leaves a workspace row. -/
def Guard (m : Manager) : Call × Outcome → Prop
  | (.deleteWorkspace principal name _,o) =>
    name = "default" ∨ m.memory.checkPermission principal .admin "global" = false ∨ m.memory.workspaces name = none ∨
      o.failure = none ∧ ∃ r ∈ m.store.workspaces, r.name ≠ name
  | (.assignRole identity roleName _,o) => m.memory.roles roleName = none ∨ roleName ∈ m.rolesOf identity ∨ o.failure = none
  | (.createWorkspace _ _ _,_) => True
  | (.addRole _,_) => True

instance decidableGuard (m : Manager) : (a : Call × Outcome) → Decidable (Guard m a)
  | (.deleteWorkspace _ _ _,_) => inferInstanceAs (Decidable (_ ∨ _ ∨ _ ∨ _ ∧ ∃ r ∈ m.store.workspaces, _))
  | (.assignRole _ _ _,_) => inferInstanceAs (Decidable (_ ∨ _ ∨ _))
  | (.createWorkspace _ _ _,_) => isTrue trivial
  | (.addRole _,_) => isTrue trivial

/-- Calls of one manager, one after another. -/
def manager (t : Tables) : System Manager (Call × Outcome) := ⟨withStore t true,fun m a => some (m.call a.2 a.1).2⟩

/-- The invariant: the store has a workspace, so a load does not seed. -/
structure Sound (m : Manager) : Prop where
  seeded : m.store.workspaces ≠ []
  contents : m.store.contents = m.memory

theorem Sound.stored {m : Manager} (h : Sound m) : m.Stored := by
  rw [Manager.Stored,loadFromStore,if_neg h.seeded]
  exact h.contents

theorem sound_withStore (t : Tables) : Sound (withStore t true) := by
  rw [withStore,loadFromStore]
  by_cases hempty : t.workspaces = []
  · rw [if_pos hempty,if_pos rfl]
    exact ⟨List.ne_nil_of_mem (mem_upsert WorkspaceRow.name _ t.workspaces),rfl⟩
  · rw [if_neg hempty]
    exact ⟨hempty,rfl⟩

@[simp] theorem contents_appendAudit (m : Manager) (o : Outcome) (e : AuditEntry) :
    (m.appendAudit o e).store.contents = m.store.contents := by
  rw [Manager.appendAudit]
  simp only
  split <;> rfl

@[simp] theorem workspaces_appendAudit (m : Manager) (o : Outcome) (e : AuditEntry) :
    (m.appendAudit o e).store.workspaces = m.store.workspaces := by
  rw [Manager.appendAudit]
  simp only
  split <;> rfl

/-- What a call answers and leaves. -/
structure Kept (m : Manager) (c : Call) (answer : Except String Unit × Manager) : Prop where
  sound : Sound answer.2
  refused : ∀ e, answer.1 = .error e → answer.2 = m
  inStore : answer.1 = .ok () → c.InStore answer.2.store

theorem Kept.unchanged {m : Manager} (h : Sound m) (c : Call) (e : String) : Kept m c (.error e,m) :=
  ⟨h,fun _ _ => rfl,fun hok => by cases hok⟩

section Calls
variable {m : Manager} (h : Sound m) (o : Outcome)
include h

theorem kept_createWorkspace (principal : String) (w : Workspace) (requestId : String) :
    Kept m (.createWorkspace principal w requestId) (m.createWorkspace o principal w requestId) := by
  rw [Manager.createWorkspace]
  split
  case isTrue => exact Kept.unchanged h _ _
  case isFalse =>
    split
    case isTrue => exact Kept.unchanged h _ _
    case isFalse =>
      split
      case h_1 => exact Kept.unchanged h _ _
      case h_2 =>
        refine ⟨⟨?_,?_⟩,(fun e he => by cases he),fun _ => ?_⟩
        · rw [workspaces_appendAudit]
          exact List.ne_nil_of_mem (mem_upsert WorkspaceRow.name _ m.store.workspaces)
        · rw [contents_appendAudit,Tables.contents_upsertWorkspace,h.contents]
          rfl
        · rw [Call.InStore,contents_appendAudit,Tables.contents_upsertWorkspace]
          exact Function.update_self _ _ _

theorem kept_deleteWorkspace (principal name requestId : String) (hguard : Guard m (.deleteWorkspace principal name requestId,o)) :
    Kept m (.deleteWorkspace principal name requestId) (m.deleteWorkspace o principal name requestId) := by
  rw [Manager.deleteWorkspace]
  split
  case isTrue => exact Kept.unchanged h _ _
  case isFalse hdefault =>
    split
    case isTrue => exact Kept.unchanged h _ _
    case isFalse hallowed =>
      split
      case h_1 => exact Kept.unchanged h _ _
      case h_2 w e hw hfailure =>
        rcases hguard with hname | hdenied | hnone | ⟨hwrite,-⟩
        · exact absurd hname hdefault
        · exact absurd hdenied (by simpa using hallowed)
        · rw [hw] at hnone
          cases hnone
        · rw [hfailure] at hwrite
          cases hwrite
      case h_3 w hw hfailure =>
        refine ⟨⟨?_,?_⟩,(fun e he => by cases he),fun _ => ?_⟩
        · rcases hguard with hname | hdenied | hnone | ⟨-,r,hr,hne⟩
          · exact absurd hname hdefault
          · exact absurd hdenied (by simpa using hallowed)
          · rw [hw] at hnone
            cases hnone
          · rw [workspaces_appendAudit]
            exact List.ne_nil_of_mem (List.mem_filter.mpr ⟨hr,decide_eq_true hne⟩)
        · rw [contents_appendAudit,Tables.contents_deleteWorkspaceRow,h.contents]
          rfl
        · rw [Call.InStore,contents_appendAudit,Tables.contents_deleteWorkspaceRow]
          exact Function.update_self _ _ _

theorem kept_assignRole (identity roleName requestId : String) (hguard : Guard m (.assignRole identity roleName requestId,o)) :
    Kept m (.assignRole identity roleName requestId) (m.assignRole o identity roleName requestId) := by
  rw [Manager.assignRole]
  split
  case isTrue => exact Kept.unchanged h _ _
  case isFalse hrole =>
    split
    case isTrue hgiven =>
      refine ⟨h,fun e he => rfl,fun _ => ?_⟩
      rw [Call.InStore,h.contents]
      rw [Manager.rolesOf] at hgiven
      cases hp : m.memory.principals identity with
      | none =>
        rw [hp] at hgiven
        cases hgiven
      | some p =>
        rw [hp] at hgiven
        exact ⟨p,rfl,hgiven⟩
    case isFalse hgiven =>
      split
      case h_1 e hfailure =>
        rcases hguard with hnone | hin | hwrite
        · rw [hnone] at hrole
          exact absurd rfl hrole
        · exact absurd hin hgiven
        · rw [hfailure] at hwrite
          cases hwrite
      case h_2 =>
        refine ⟨⟨?_,?_⟩,(fun e he => by cases he),fun _ => ?_⟩
        · rw [workspaces_appendAudit]
          exact h.seeded
        · rw [contents_appendAudit,Tables.contents_upsertPrincipal,h.contents]
          rfl
        · rw [Call.InStore,contents_appendAudit,Tables.contents_upsertPrincipal]
          exact ⟨_,Function.update_self _ _ _,List.mem_append_right _ List.mem_cons_self⟩

theorem kept_addRole (role : Role) : Kept m (.addRole role) (m.addRole o role) := by
  rw [Manager.addRole]
  split
  case isTrue => exact Kept.unchanged h _ _
  case isFalse =>
    split
    case h_1 => exact Kept.unchanged h _ _
    case h_2 =>
      refine ⟨⟨h.seeded,?_⟩,(fun e he => by cases he),fun _ => ?_⟩
      · rw [Tables.contents_upsertRole,h.contents]
      · rw [Call.InStore,Tables.contents_upsertRole]
        exact Function.update_self _ _ _

theorem kept_call {c : Call} (hguard : Guard m (c,o)) : Kept m c (m.call o c) := by
  cases c with
  | createWorkspace principal w requestId => exact kept_createWorkspace h o principal w requestId
  | deleteWorkspace principal name requestId => exact kept_deleteWorkspace h o principal name requestId hguard
  | assignRole identity roleName requestId => exact kept_assignRole h o identity roleName requestId hguard
  | addRole role => exact kept_addRole h o role

end Calls

end Dwara.Workspaces
