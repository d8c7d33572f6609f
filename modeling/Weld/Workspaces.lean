/-
**Workspaces.**

A workspace is a durable collection of managed windows.  It has a name, it is assigned to an output, it
is visible or not, and it remembers in which order its windows were focused.  The observers of
`workspace.rs` keep this up: each runs when the component or the event it is about comes or goes, and
what it defers is done before the next one runs.

A window carries its membership as a component.  Removing an output clears the assignments to it, and
a despawned window loses its membership first, while it can still be looked up.

Main definitions: `World`, `create`, `rename`, `request`, `rememberFocus`, `memberInserted`,
`memberRemoved`, `memberMoved`, `step`.
-/

import Mathlib.Data.Finset.Basic
import Mathlib.Data.List.MinMax
import Weld.Dict

namespace Workspaces

/-! ### The world -/

abbrev Entity := ℕ

structure Workspace where
  id : ℕ
  name : String
  visible : Bool := false
  history : List Entity := []
  output : Option Entity
  deriving DecidableEq, Repr

inductive WindowVisibility
  | visible
  | hidden
  deriving DecidableEq, Repr

structure ManagedWindow where
  id : ℕ
  member : Option Entity := none
  output : Option Entity := none
  visibility : WindowVisibility := .visible
  deriving DecidableEq, Repr

structure World where
  outputs : Finset Entity := ∅
  workspaces : Dict Entity Workspace := ∅
  windows : Dict Entity ManagedWindow := ∅
  names : Finset String := ∅
  nextId : ℕ := 0
  selected : Option Entity := none
  focus : Option Entity := none
  /-- The next entity that is spawned. -/
  nextEntity : Entity := 0

inductive WorkspaceRequest
  | assign (workspace output : Entity)
  | setVisible (workspace : Entity) (visible : Bool)
  | focus (workspace : Entity)
  | select (workspace : Entity) (window : Option Entity)
  | removeEmpty (workspace : Entity)
  deriving DecidableEq, Repr

/-- What others are told. -/
inductive Event
  | created (workspace : Entity)
  | renamed (workspace : Entity) (previousName : String)
  | focused (previous : Option Entity) (workspace : Entity)
  | focusWindow (window : Entity)
  | clearFocus (window : Entity)
  deriving DecidableEq, Repr

def u64Max : ℕ := 2 ^ 64 - 1

namespace World

variable (s : World) (window : Entity)

/-- The workspace of a window. -/
def memberOf : Option Entity := (s.windows.lookup window).bind (·.member)

variable (workspace : Entity)

def setWorkspace (f : Workspace → Workspace) : World :=
  { s with workspaces := s.workspaces.modify workspace f }

/-- Change the windows of a workspace. -/
def setMembers (f : ManagedWindow → ManagedWindow) : World :=
  { s with
    windows := s.windows.mapValues fun _ window =>
      if window.member = some workspace then f window else window }

/-! ### Names -/

def create (name : String) (output : Entity) : Option (World × Entity × List Event) :=
  if name = "" ∨ output ∉ s.outputs ∨ name ∈ s.names then none
  else if u64Max < s.nextId + 1 then none
  else
    some
      ({ s with
        nextId := s.nextId + 1
        names := insert name s.names
        workspaces := s.workspaces.insert s.nextEntity { id := s.nextId, name, output := some output }
        nextEntity := s.nextEntity + 1 }, s.nextEntity, [.created s.nextEntity])

/-- Whether the request is accepted is the last component. -/
def rename (name : String) : World × List Event × Bool :=
  if name = "" ∨ name ∈ s.names then (s, [], false)
  else
    match s.workspaces.lookup workspace with
    | none => (s, [], false)
    | some state =>
        ({ s.setWorkspace workspace fun state => { state with name } with
          names := insert name (s.names.erase state.name) },
          [.renamed workspace state.name], true)

/-- `Workspace` is about to go. -/
def removed : World :=
  match s.workspaces.lookup workspace with
  | none => s
  | some state =>
      { s with
        names := s.names.erase state.name
        selected := if s.selected = some workspace then none else s.selected }

/-! ### Members -/

/-- `WorkspaceMember` has come, or is replaced. -/
def memberInserted : World :=
  match s.memberOf window with
  | none => s
  | some workspace =>
      s.setWorkspace workspace fun state =>
        let history := state.history.filter fun other => s.memberOf other = some workspace
        { state with history := if window ∈ history then history else history ++ [window] }

/-- `WorkspaceMember` is about to go. -/
def memberRemoved : World :=
  match s.memberOf window with
  | none => s
  | some workspace =>
      s.setWorkspace workspace fun state =>
        { state with history := state.history.filter (· ≠ window) }

/-- A layout has moved a window. -/
def memberMoved (window previous : Entity) : World :=
  match s.memberOf window with
  | none => s
  | some workspace =>
      if workspace = previous then s
      else
        (s.setWorkspace previous fun state =>
          { state with history := state.history.filter (· ≠ window) }).setWorkspace workspace
            fun state => { state with history := window :: state.history.filter (· ≠ window) }

def setMember (member : Option Entity) : World :=
  { s with windows := s.windows.modify window fun state => { state with member } }

/-- Insert a membership.  Nobody inserts one in a workspace that is not there. -/
def insertMember (window workspace : Entity) : World :=
  if window ∈ s.windows ∧ workspace ∈ s.workspaces then
    (s.setMember window (some workspace)).memberInserted window
  else s

def removeMember : World := (s.memberRemoved window).setMember window none

/-- Move a window to another workspace, where it is shown as that workspace is, and say so. -/
def transfer (workspace window : Entity) : World :=
  match s.memberOf window, s.workspaces.lookup workspace with
  | some previous, some { output := some output, visible, .. } =>
      if previous = workspace then s
      else
        ({ s with
          windows := s.windows.modify window fun state =>
            { state with
              member := some workspace
              output := some output
              visibility := if visible then .visible else .hidden } }.memberInserted
                window).memberMoved window previous
  | _, _ => s

/-! ### Requests -/

/-- The member that was focused last, or the oldest window. -/
def recentMember (state : Workspace) : Option Entity :=
  (state.history.find? fun window => s.memberOf window = some workspace).or
    ((s.windows.keys.filter fun window => s.memberOf window = some workspace).argmin fun window =>
      ((s.windows.lookup window).map (·.id)).getD 0)

/-- Select a workspace and one of its windows, or none. -/
def selectWindow (window : Option Entity) : World × List Event :=
  ({ s with selected := some workspace },
    (if s.selected ≠ some workspace then [.focused s.selected workspace] else []) ++
      match window, s.focus with
      | some window, _ => [.focusWindow window]
      | none, some window => [.clearFocus window]
      | none, none => [])

/-- A workspace can be shown if its output is there. -/
def presentable (state : Workspace) : Bool := state.output.any fun output => decide (output ∈ s.outputs)

/-- Whether the request is accepted is the last component. -/
def request : WorkspaceRequest → World × List Event × Bool
  | .assign workspace output =>
      if workspace ∉ s.workspaces ∨ output ∉ s.outputs then (s, [], false)
      else
        ((s.setWorkspace workspace fun state => { state with output := some output }).setMembers
          workspace fun window => { window with output := some output }, [], true)
  | .setVisible workspace visible =>
      match s.workspaces.lookup workspace with
      | none => (s, [], false)
      | some state =>
          if visible = true ∧ s.presentable state = false then (s, [], false)
          else if state.visible = visible then (s, [], false)
          else
            ((s.setWorkspace workspace fun state => { state with visible }).setMembers workspace
              fun window =>
                { window with visibility := if visible then .visible else .hidden }, [], true)
  | .focus workspace =>
      match s.workspaces.lookup workspace with
      | none => (s, [], false)
      | some state =>
          if state.visible = false ∨ s.presentable state = false then (s, [], false)
          else
            let (s, events) := s.selectWindow workspace (s.recentMember workspace state)
            (s, events, true)
  | .select workspace window =>
      match s.workspaces.lookup workspace with
      | none => (s, [], false)
      | some state =>
          if state.visible = false ∨ s.presentable state = false then (s, [], false)
          else if window.any (fun window => s.memberOf window ≠ some workspace) = true then
            (s, [], false)
          else
            let (s, events) := s.selectWindow workspace window
            (s, events, true)
  | .removeEmpty workspace =>
      match s.workspaces.lookup workspace with
      | none => (s, [], false)
      | some state =>
          if state.visible = true ∨ s.selected = some workspace ∨
              ∃ window ∈ s.windows.keys, s.memberOf window = some workspace then (s, [], false)
          else
            ({ s.removed workspace with workspaces := s.workspaces.erase workspace }, [], true)

/-- The focus has changed. -/
def rememberFocus (window : Option Entity) : World × List Event :=
  match window with
  | none => (s, [])
  | some window =>
      match s.memberOf window with
      | none => (s, [])
      | some workspace =>
          match s.workspaces.lookup workspace with
          | none => (s, [])
          | some state =>
              let after := s.setWorkspace workspace fun state =>
                { state with
                  history := window :: state.history.filter fun other =>
                    other ≠ window ∧ s.memberOf other = some workspace }
              if state.visible then
                ({ after with selected := some workspace },
                  if s.selected ≠ some workspace then [.focused s.selected workspace] else [])
              else (after, [])

/-! ### Entities -/

def spawnOutput : World :=
  { s with outputs := insert s.nextEntity s.outputs, nextEntity := s.nextEntity + 1 }

/-- Whatever is assigned to the output is no longer. -/
def despawnOutput (output : Entity) : World :=
  { s with
    outputs := s.outputs.erase output
    workspaces := s.workspaces.mapValues fun _ state =>
      if state.output = some output then { state with output := none } else state
    windows := s.windows.mapValues fun _ window =>
      if window.output = some output then { window with output := none } else window }

def spawnWindow : World :=
  { s with
    windows := s.windows.insert s.nextEntity { id := s.nextEntity }
    nextEntity := s.nextEntity + 1 }

def despawnWindow : World :=
  let s := s.memberRemoved window
  { s with windows := s.windows.erase window }

end World

/-! ### All steps -/

inductive Label
  | create (name : String) (output : Entity)
  | rename (workspace : Entity) (name : String)
  | request (request : WorkspaceRequest)
  | focusChanged (window : Option Entity)
  | insertMember (window workspace : Entity)
  | removeMember (window : Entity)
  | transfer (windows : List Entity) (workspace : Entity)
  | memberMoved (window previous : Entity)
  | spawnOutput
  | despawnOutput (output : Entity)
  | spawnWindow
  | despawnWindow (window : Entity)
  deriving DecidableEq, Repr

def step (s : World) : Label → World
  | .create name output => ((s.create name output).map (·.1)).getD s
  | .rename workspace name => (s.rename workspace name).1
  | .request request => (s.request request).1
  | .focusChanged window => { s with focus := window }.rememberFocus window |>.1
  | .insertMember window workspace => s.insertMember window workspace
  | .removeMember window => s.removeMember window
  | .transfer windows workspace => windows.foldl (fun s window => s.transfer workspace window) s
  | .memberMoved window previous => s.memberMoved window previous
  | .spawnOutput => s.spawnOutput
  | .despawnOutput output => s.despawnOutput output
  | .spawnWindow => s.spawnWindow
  | .despawnWindow window => s.despawnWindow window

end Workspaces
