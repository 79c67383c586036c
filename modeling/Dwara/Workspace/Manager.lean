import Dwara.Lib.Json
import Mathlib.Data.List.Basic
import Mathlib.Logic.Function.Basic
import Mathlib.Data.Nat.Notation

/-! Workspaces, roles and principals in memory, and the store behind them. A JSON column is
kept as the value its text parses to, none for a text that does not parse. -/

namespace Dwara.Workspaces
open Dwara.Lib

structure Workspace where
  name : String
  description : String
  active : Bool
  deriving DecidableEq, Repr

inductive Action where
  | read
  | write
  | admin
  deriving DecidableEq, Repr

/-- An action on one workspace, or on all of them for `*`. -/
structure Permission where
  action : Action
  workspace : String
  deriving DecidableEq, Repr

structure Role where
  name : String
  permissions : List Permission
  deriving DecidableEq, Repr

structure Principal where
  identity : String
  roles : List String
  deriving DecidableEq, Repr

namespace Action

def implies : Action → Action → Bool
  | admin, _ => true
  | write, write => true
  | write, read => true
  | read, read => true
  | _, _ => false

def asStr : Action → String
  | read => "read"
  | write => "write"
  | admin => "admin"

def ofStr (s : String) : Option Action :=
  if s = "read" then some read else if s = "write" then some write else if s = "admin" then some admin else none

@[simp] theorem ofStr_asStr (a : Action) : ofStr a.asStr = some a := by
  cases a <;> rfl

end Action

def encodePermissions (perms : List Permission) : Json :=
  .array (perms.map fun p => .object [("action",.string p.action.asStr),("workspace",.string p.workspace)])

def decodePermission (v : Json) : Option Permission := do
  let action ← Action.ofStr (← (← v.get "action").asStr)
  let workspace ← (← v.get "workspace").asStr
  some ⟨action,workspace⟩

/-- Entries that are no permission are left out. -/
def decodePermissions (column : Option Json) : List Permission := ((column.bind Json.asArray).getD []).filterMap decodePermission

def encodeRoleNames (names : List String) : Json := .array (names.map .string)

/-- A column that is no list of strings reads as empty. -/
def decodeRoleNames (column : Option Json) : List String := ((column.bind Json.asArray).bind (·.mapM Json.asStr)).getD []

structure WorkspaceRow where
  name : String
  description : String
  active : Bool
  deriving DecidableEq, Repr

structure RoleRow where
  name : String
  permissions : Option Json

structure PrincipalRow where
  identity : String
  roles : Option Json

/-- What an audit entry records before or after a change, as JSON text. -/
inductive AuditState where
  | workspace (w : Workspace)
  | role (name : String)
  deriving DecidableEq, Repr

structure AuditEntry where
  seq : ℕ
  timestampMs : ℕ
  principal : String
  action : String
  workspace : String
  before : Option AuditState
  after : Option AuditState
  requestId : String
  deriving DecidableEq, Repr

/-- The tables of the store; a name or an identity is a primary key. -/
structure Tables where
  workspaces : List WorkspaceRow
  rbacRoles : List RoleRow
  rbacPrincipals : List PrincipalRow
  workspaceAudit : List AuditEntry

/-- `INSERT … ON CONFLICT DO UPDATE` by primary key; lists of rows are read in the order of
their keys, so the place of a row does not matter. -/
def upsert {α : Type} (key : α → String) (row : α) (rows : List α) : List α := rows.filter (key · ≠ key row) ++ [row]

def lookup {α : Type} (key : α → String) (rows : List α) (name : String) : Option α := rows.find? (key · = name)

structure Memory where
  workspaces : String → Option Workspace
  roles : String → Option Role
  principals : String → Option Principal

def WorkspaceRow.toWorkspace (r : WorkspaceRow) : Workspace := ⟨r.name,r.description,r.active⟩
def RoleRow.toRole (r : RoleRow) : Role := ⟨r.name,decodePermissions r.permissions⟩
def PrincipalRow.toPrincipal (r : PrincipalRow) : Principal := ⟨r.identity,decodeRoleNames r.roles⟩

def defaultWorkspace : Workspace := ⟨"default","Default workspace",true⟩

namespace Tables
variable (t : Tables)

def upsertWorkspace (w : Workspace) : Tables :=
  { t with workspaces := upsert WorkspaceRow.name ⟨w.name,w.description,w.active⟩ t.workspaces }

def deleteWorkspaceRow (name : String) : Tables := { t with workspaces := t.workspaces.filter (·.name ≠ name) }

def upsertRole (name : String) (permissions : Json) : Tables :=
  { t with rbacRoles := upsert RoleRow.name ⟨name,some permissions⟩ t.rbacRoles }

def upsertPrincipal (identity : String) (roles : Json) : Tables :=
  { t with rbacPrincipals := upsert PrincipalRow.identity ⟨identity,some roles⟩ t.rbacPrincipals }

/-- The rows as maps. -/
def contents : Memory where
  workspaces := fun name => (lookup WorkspaceRow.name t.workspaces name).map WorkspaceRow.toWorkspace
  roles := fun name => (lookup RoleRow.name t.rbacRoles name).map RoleRow.toRole
  principals := fun name => (lookup PrincipalRow.identity t.rbacPrincipals name).map PrincipalRow.toPrincipal

end Tables

def Memory.empty : Memory := ⟨fun _ => none,fun _ => none,fun _ => none⟩

/-- The store after a load, and what is in memory then; a seed that fails ends the load. -/
def loadFromStore (t : Tables) (seedWrite : Bool) : Tables × Memory :=
  if t.workspaces = [] then
    if seedWrite then (t.upsertWorkspace defaultWorkspace,(t.upsertWorkspace defaultWorkspace).contents) else (t,.empty)
  else (t,t.contents)

/-- The manager of a store. -/
structure Manager where
  memory : Memory
  auditSeq : ℕ
  auditLog : List AuditEntry
  store : Tables

def withStore (t : Tables) (seedWrite : Bool) : Manager := ⟨(loadFromStore t seedWrite).2,0,[],(loadFromStore t seedWrite).1⟩

def Memory.checkPermission (m : Memory) (identity : String) (action : Action) (workspace : String) : Bool :=
  match m.principals identity with
  | none => false
  | some principal => principal.roles.any fun name => (m.roles name).any fun role => role.permissions.any fun perm =>
      perm.action.implies action && (perm.workspace = "*" || perm.workspace = workspace)

/-- The store's error when it does not take a call's write, whether it takes the audit entry,
and the time. -/
structure Outcome where
  failure : Option String
  audit : Bool
  nowMs : ℕ
  deriving DecidableEq, Repr

namespace Manager
variable (m : Manager)

/-- An entry the store does not take is in the log in memory only. -/
def appendAudit (o : Outcome) (entry : AuditEntry) : Manager :=
  let entry := { entry with seq := m.auditSeq + 1 }
  { m with
    auditSeq := m.auditSeq + 1
    auditLog := m.auditLog ++ [entry]
    store := if o.audit then { m.store with workspaceAudit := m.store.workspaceAudit ++ [entry] } else m.store }

def createWorkspace (o : Outcome) (principal : String) (w : Workspace) (requestId : String) : Except String Unit × Manager :=
  if ¬ m.memory.checkPermission principal .admin "global" then
    (.error "permission denied: admin required to create workspaces",m)
  else if (m.memory.workspaces w.name).isSome then (.error ("workspace '" ++ w.name ++ "' already exists"),m)
  else
    match o.failure with
    | some e => (.error ("persist workspace: " ++ e),m)
    | none =>
      (.ok (),{ m with
        store := m.store.upsertWorkspace w
        memory := { m.memory with workspaces := Function.update m.memory.workspaces w.name (some w) } }.appendAudit o
          ⟨0,o.nowMs,principal,"workspace.create",w.name,none,some (.workspace w),requestId⟩)

def withoutWorkspace (name : String) : Manager :=
  { m with memory := { m.memory with workspaces := Function.update m.memory.workspaces name none } }

/-- The workspace leaves the memory before the store is asked. -/
def deleteWorkspace (o : Outcome) (principal name requestId : String) : Except String Unit × Manager :=
  if name = "default" then (.error "cannot delete the default workspace",m)
  else if ¬ m.memory.checkPermission principal .admin "global" then
    (.error "permission denied: admin required to delete workspaces",m)
  else
    match m.memory.workspaces name,o.failure with
    | none, _ => (.error ("workspace '" ++ name ++ "' not found"),m)
    | some _, some e => (.error ("persist workspace delete: " ++ e),m.withoutWorkspace name)
    | some w, none =>
      (.ok (),{ m.withoutWorkspace name with store := m.store.deleteWorkspaceRow name }.appendAudit o
        ⟨0,o.nowMs,principal,"workspace.delete",name,some (.workspace w),none,requestId⟩)

/-- The roles of a principal in memory; none has been assigned to one that is not there. -/
def rolesOf (identity : String) : List String := ((m.memory.principals identity).map (·.roles)).getD []

def withRole (identity roleName : String) : Manager :=
  { m with memory := { m.memory with
    principals := Function.update m.memory.principals identity (some ⟨identity,m.rolesOf identity ++ [roleName]⟩) } }

/-- The role is given in memory before the store is asked. -/
def assignRole (o : Outcome) (identity roleName requestId : String) : Except String Unit × Manager :=
  if (m.memory.roles roleName).isNone then (.error ("role '" ++ roleName ++ "' not found"),m)
  else if roleName ∈ m.rolesOf identity then (.ok (),m)
  else
    match o.failure with
    | some e => (.error ("persist principal: " ++ e),m.withRole identity roleName)
    | none =>
      (.ok (),{ m.withRole identity roleName with
        store := m.store.upsertPrincipal identity (encodeRoleNames (m.rolesOf identity ++ [roleName])) }.appendAudit o
          ⟨0,o.nowMs,identity,"role.assign","global",none,some (.role roleName),requestId⟩)

def addRole (o : Outcome) (role : Role) : Except String Unit × Manager :=
  if (m.memory.roles role.name).isSome then (.error ("role '" ++ role.name ++ "' already exists"),m)
  else
    match o.failure with
    | some e => (.error ("persist role: " ++ e),m)
    | none =>
      (.ok (),{ m with
        store := m.store.upsertRole role.name (encodePermissions role.permissions)
        memory := { m.memory with roles := Function.update m.memory.roles role.name (some role) } })

end Manager

inductive Call where
  | createWorkspace (principal : String) (w : Workspace) (requestId : String)
  | deleteWorkspace (principal name requestId : String)
  | assignRole (identity roleName requestId : String)
  | addRole (role : Role)

def Manager.call (m : Manager) (o : Outcome) : Call → Except String Unit × Manager
  | .createWorkspace principal w requestId => m.createWorkspace o principal w requestId
  | .deleteWorkspace principal name requestId => m.deleteWorkspace o principal name requestId
  | .assignRole identity roleName requestId => m.assignRole o identity roleName requestId
  | .addRole role => m.addRole o role

end Dwara.Workspaces
