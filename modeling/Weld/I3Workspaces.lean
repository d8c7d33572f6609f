/-
**The workspaces of i3.**

What a workspace is called, on which output it is created and which of them is shown is the policy of
`weld-i3-quirks`, over the workspaces of `weld-window`.  A request is resolved to a workspace, which is
created if it has to be, and the workspace is shown in place of the others of its output.  A pass
before admission adopts the workspaces of outputs that are gone and gives every output something to
show; a pass behind the layout removes workspaces that are empty.

The events that a handler triggers are handled before the next command of the handler, so a handler is
a function of the desktop.  Windows are arranged by the tiling layer, which answers to a move with
the leaves that it moves and the tree that it leaves behind; a tree may change at any time.

Main definitions: `Node`, `Tree`, `Layout`, `Desktop`, `Desktop.request`, `prepare`, `bootstrap`,
`reap`, `workspace.rs`, `step`.
-/

import Mathlib.Data.Finset.Sort
import Mathlib.Data.Prod.Lex
import Weld.Workspaces

namespace I3

open Workspaces (Entity World Workspace WorkspaceRequest Event WindowVisibility)

/-! ### Names -/

def i32Max : ℕ := 2 ^ 31 - 1

/-- A leading decimal number. -/
def number (name : String) : Option ℕ :=
  let digits := name.toList.takeWhile Char.isDigit
  if digits = [] then none
  else if Nat.ofDigitChars 10 digits 0 ≤ i32Max then some (Nat.ofDigitChars 10 digits 0)
  else none

/-- The name without the case of its letters. -/
def folded (name : String) : List Char := name.toList.map Char.toLower

def eqIgnoreAsciiCase (name other : String) : Bool := folded name = folded other

/-! ### Settings -/

/-- Ordered connector preferences for workspace creation. -/
structure WorkspaceAssignment where
  workspace : String
  outputs : List String
  deriving DecidableEq, Repr

/-- A configuration is refused if it has a workspace without a name. -/
structure WorkspaceSettings where
  assignments : List WorkspaceAssignment := []
  initialNames : List String := []
  autoBackAndForth : Bool := false
  assignments_named : ∀ assignment ∈ assignments, assignment.workspace ≠ "" := by simp
  initialNames_named : ∀ name ∈ initialNames, name ≠ "" := by simp

/-- What is known of an output. -/
structure Output where
  id : ℕ
  name : Option String := none
  primary : Bool := false
  deriving DecidableEq, Repr

/-! ### The tiling layer -/

/-- The deepest tree. -/
def MAX_DEPTH : ℕ := 64

/-- What can be in a tree. -/
inductive Node
  | workspace (workspace : Entity)
  | container (container : Entity)
  | window (window : Entity)
  deriving DecidableEq, Repr

/-- The tree of the tiling layer.  A child knows its parent, and a workspace has none. -/
structure Tree where
  /-- The workspaces that have a tree. -/
  roots : List Entity := []
  parent : Node → Option Node := fun _ => none
  children : Node → List Node := fun _ => []
  /-- The nodes in the order in which they had the focus, the last one first. -/
  recent : List Node := []
  parent_of_child : ∀ node, ∀ child ∈ children node, parent child = some node := by simp
  parent_of_workspace : ∀ workspace, parent (.workspace workspace) = none := by simp

namespace Tree

variable (tree : Tree)

/-- The workspace, if the node is one that has a tree. -/
def asRoot : Node → Option Entity
  | .workspace workspace => if workspace ∈ tree.roots then some workspace else none
  | _ => none

/-- The root of a node, if it is that near. -/
def rootFrom : ℕ → Node → Option Entity
  | 0, _ => none
  | fuel + 1, node =>
      match tree.asRoot node with
      | some root => some root
      | none =>
          (tree.parent node).bind fun parent =>
            if node ∈ tree.children parent then rootFrom fuel parent else none

def root (node : Node) : Option Entity := tree.rootFrom (MAX_DEPTH + 1) node

/-- The nodes above a node. -/
def ancestorsFrom : ℕ → Node → List Node
  | 0, _ => []
  | fuel + 1, node =>
      match tree.parent node with
      | none => []
      | some parent => parent :: ancestorsFrom fuel parent

def ancestors (node : Node) : List Node := tree.ancestorsFrom (MAX_DEPTH + 1) node

end Tree

/-- What the tiling layer does to move a node to another workspace, behind an anchor: the windows it
moves and the tree it leaves behind, or nothing.  A window has no children, and is moved alone. -/
structure Layout where
  relocate : Tree → Node → Entity → Option Entity → Option (List Entity × Tree)
  relocate_window : ∀ tree window workspace anchor leaves after,
    relocate tree (.window window) workspace anchor = some (leaves, after) → leaves = [window] := by simp

/-- Who manages a window: the tree of a workspace, or somebody else. -/
inductive Manager
  | tiles (workspace : Entity)
  | other
  deriving DecidableEq, Repr

/-! ### The desktop -/

structure Desktop where
  world : World := {}
  /-- What is known of the outputs that are there. -/
  describe : Entity → Output := fun _ => { id := 0 }
  settings : WorkspaceSettings := {}
  previous : Option String := none
  tree : Tree := {}
  owners : Dict Entity Manager := ∅
  floating : Finset Entity := ∅
  sticky : Finset Entity := ∅
  selection : Option Node := none

/-- Workspace selector in i3 command vocabulary. -/
inductive WorkspaceTarget
  | name (name : String)
  | number (name : String)
  | next
  | previous
  | nextOnOutput
  | previousOnOutput
  | backAndForth
  | current
  deriving DecidableEq, Repr

inductive WorkspaceNavigation
  | switch
  | moveWindow
  deriving DecidableEq, Repr

inductive I3WorkspaceRequest
  | navigate (target : WorkspaceTarget) (operation : WorkspaceNavigation)
      (allowAutoBackAndForth : Bool)
  | rename (source : Option String) (name : String)
  deriving DecidableEq, Repr

namespace Desktop

variable (order : IterationOrder Entity) (s : Desktop)

/-! ### What can be looked up -/

/-- The workspaces, in no order that is promised. -/
def workspaces : List (Entity × Workspace) :=
  (order.arrange 0 s.world.workspaces.keys).filterMap fun workspace =>
    (s.world.workspaces.lookup workspace).map (workspace, ·)

/-- The outputs, in no order that is promised. -/
def outputs : List Entity := order.arrange 1 (s.world.outputs.sort (· ≤ ·))

/-- The output with the least identifier of those of a kind. -/
def leastOutput (kind : Entity → Bool) : Option Entity :=
  ((s.outputs order).filter kind).argmin fun output => (s.describe output).id

/-- The workspace with the least identifier of those of a kind. -/
def leastWorkspace (kind : Entity → Workspace → Bool) : Option Entity :=
  (((s.workspaces order).filter fun entry => kind entry.1 entry.2).argmin
    fun entry => entry.2.id).map Prod.fst

def currentOutput : Option Entity :=
  ((((s.world.selected.bind s.world.workspaces.lookup).bind (·.output)).filter
      fun output => decide (output ∈ s.world.outputs)).or
    (s.leastOutput order fun output => (s.describe output).primary)).or
      (s.leastOutput order fun _ => true)

/-- The output of a connector preference. -/
def wantedOutput (wanted : String) : Option Entity :=
  s.leastOutput order fun output =>
    if wanted = "primary" then (s.describe output).primary
    else if wanted = "nonprimary" then !(s.describe output).primary
    else (s.describe output).name = some wanted

def resolveAssignment (assignment : WorkspaceAssignment) : Option Entity :=
  assignment.outputs.findSome? (s.wantedOutput order)

/-- The assignment is of a bare number, which the name begins with. -/
def numbered (name : String) (assignment : WorkspaceAssignment) : Bool :=
  assignment.workspace.toList.all Char.isDigit &&
    (number name).any fun n => number assignment.workspace = some n

def preferredOutput (name : String) : Option Entity :=
  ((s.settings.assignments.filter fun assignment => assignment.workspace = name).findSome?
      (s.resolveAssignment order)).or
    ((s.settings.assignments.filter (numbered name)).findSome? (s.resolveAssignment order))

/-- The place of a workspace among the others. -/
def sortKey (state : Workspace) : ℕ ×ₗ ℕ ×ₗ WithBot ℕ ×ₗ ℕ :=
  toLex ((if (number state.name).isNone then 1 else 0),
    toLex ((number state.name).getD 0,
      toLex (((state.output.filter fun output => decide (output ∈ s.world.outputs)).map
        fun output => (s.describe output).id : Option ℕ), state.id)))

/-- The workspaces that a relative selector goes through, in order. -/
def ordered (sameOutput : Bool) : List Entity :=
  (((s.workspaces order).filter fun entry =>
      !sameOutput || (entry.2.output.isSome && entry.2.output = s.currentOutput order)).mergeSort
    fun entry other => decide (s.sortKey entry.2 ≤ s.sortKey other.2)).map Prod.fst

/-- The workspace behind the selected one, or before it. -/
def neighbour (sameOutput forward : Bool) : Option Entity :=
  let ordered := s.ordered order sameOutput
  (ordered.findIdx? fun workspace => some workspace = s.world.selected).bind fun index =>
    ordered[if forward then (index + 1) % ordered.length
      else (index + ordered.length - 1) % ordered.length]?

def findName (name : String) : Option Entity :=
  s.leastWorkspace order fun _ state => eqIgnoreAsciiCase state.name name

def find : WorkspaceTarget → Option Entity
  | .name name => s.findName order name
  | .number name => s.leastWorkspace order fun _ state => number state.name = number name
  | .current => s.world.selected
  | .backAndForth => s.previous.bind (s.findName order)
  | .next => s.neighbour order false true
  | .previous => s.neighbour order false false
  | .nextOnOutput => s.neighbour order true true
  | .previousOnOutput => s.neighbour order true false

def creationName : WorkspaceTarget → Option String
  | .name name => some name
  | .number name => some name
  | .backAndForth => s.previous
  | _ => none

/-! ### The tree -/

def ownedBy (window workspace : Entity) : Bool :=
  s.owners.lookup window = some (.tiles workspace)

/-- The workspace that a window is a member of; nothing else is a member. -/
def memberOf : Node → Option Entity
  | .window window => s.world.memberOf window
  | _ => none

/-- The node is a window of its root, and below another one. -/
def belongsTo (node ancestor : Node) : Bool :=
  match node with
  | .window window =>
      (s.tree.root node).any fun root =>
        (node = ancestor || decide (ancestor ∈ s.tree.ancestors node)) && s.ownedBy window root
  | _ => false

/-- The window, if the node is one that belongs to its root. -/
def asLeaf : Node → Option Entity
  | .window window => if s.belongsTo (.window window) (.window window) then some window else none
  | _ => none

def descendFrom : ℕ → Node → Option Entity
  | 0, _ => none
  | fuel + 1, node =>
      ((s.asLeaf node).or
        ((s.tree.recent.filter fun child => s.tree.parent child = some node).findSome?
          (descendFrom fuel))).or ((s.tree.children node).findSome? (descendFrom fuel))

/-- The window that a node leads to. -/
def descend (node : Node) : Option Entity := s.descendFrom (MAX_DEPTH + 1) node

/-- A floating window of the workspace. -/
def floatHere (workspace window : Entity) : Bool :=
  decide (window ∈ s.floating) && s.world.memberOf window = some workspace

def focusTarget (workspace : Entity) : Option Entity :=
  let history := ((s.world.workspaces.lookup workspace).map (·.history)).getD []
  ((history.head?.filter (s.floatHere workspace)).or (s.descend (.workspace workspace))).or
    (history.find? (s.floatHere workspace))

/-! ### What others do about it -/

/-- The events of the windows, and who listens. -/
def tell : Desktop → Event → Desktop
  | s, .focused (some previous) _ =>
      { s with
        previous := ((s.world.workspaces.lookup previous).map (·.name)).or s.previous }
  | s, .renamed workspace previousName =>
      if s.previous = some previousName then
        { s with
          previous := ((s.world.workspaces.lookup workspace).map (·.name)).or s.previous }
      else s
  | s, _ => s

/-- Continue with other workspaces, and tell what happened. -/
def proceed (world : World) (events : List Event) : Desktop := events.foldl tell { s with world }

/-- Ask the workspaces for something. -/
def ask (request : WorkspaceRequest) : Desktop :=
  s.proceed (s.world.request request).1 (s.world.request request).2.1

/-- A window changes its workspace, and its manager with it. -/
def moveLeaf (workspace window : Entity) : Desktop :=
  { s with
    world := s.world.transfer workspace window
    owners := s.owners.insert window (.tiles workspace) }

/-- Whether a window is among the tiles of a workspace. -/
def tiled (workspace window : Entity) : Bool :=
  s.ownedBy window workspace && s.world.memberOf window = some workspace &&
    decide (window ∉ s.floating)

/-- The workspace that a node is moved from.  A window whose manager is not its workspace stays. -/
def moveSource (node : Node) : Option Entity :=
  match node with
  | .window window =>
      match s.world.memberOf window, s.owners.lookup window with
      | some member, some owner => if owner = .tiles member then some member else none
      | _, _ => s.tree.root node
  | _ => s.tree.root node

/-- A floating window with a workspace and a manager. -/
def floats : Node → Option Entity
  | .window window =>
      if window ∈ s.floating ∧ s.world.memberOf window ≠ none ∧ s.owners.lookup window ≠ none then
        some window
      else none
  | _ => none

variable (layout : Layout)

/-- `TileWorkspaceMove`. -/
def tileMove (node : Node) (workspace : Entity) (anchor : Option Entity) : Desktop :=
  match s.moveSource node, (s.world.workspaces.lookup workspace).bind (·.output) with
  | some source, some _ =>
      if source ∉ s.tree.roots ∨ source = workspace ∨ workspace ∉ s.tree.roots then s
      else
        match s.floats node with
        | some window => s.moveLeaf workspace window
        | none =>
            if s.tree.root node ≠ some source then s
            else
              match layout.relocate s.tree node workspace anchor with
              | none => s
              | some (leaves, tree) =>
                  if leaves.all (s.tiled source) then
                    leaves.foldl (fun s leaf => s.moveLeaf workspace leaf) { s with tree }
                  else s
  | _, _ => s

/-! ### Showing a workspace -/

def finishSwitch (workspace : Entity) (retainedFocus : Option Entity) : Desktop :=
  s.ask (.select workspace
    ((retainedFocus.filter fun window => s.world.memberOf window = some workspace).or
      (s.focusTarget workspace)))

/-- The sticky windows of a workspace. -/
def stickyMembers (workspace : Entity) : List Entity :=
  (order.arrange 2 s.world.windows.keys).filter fun window =>
    decide (window ∈ s.floating) && decide (window ∈ s.sticky) &&
      s.world.memberOf window = some workspace

/-- Whether a workspace gives way to another one. -/
def givesWay (workspace output : Entity) (entry : Entity × Workspace) : Bool :=
  entry.1 ≠ workspace && entry.2.visible && entry.2.output = some output

/-- Move the sticky windows of a workspace that gives way, and hide it. -/
def giveWay (snapshot : Desktop) (workspace other : Entity) : Desktop :=
  ((snapshot.stickyMembers order other).foldl
    (fun s window => s.tileMove layout (.window window) workspace none) s).ask (.setVisible other false)

/-- `Resolved::Switch`. -/
def resolvedSwitch (workspace : Entity) : Desktop :=
  match (s.world.workspaces.lookup workspace).bind (·.output) with
  | none => s
  | some output =>
      let others := ((s.workspaces order).filter (givesWay workspace output)).map Prod.fst
      let retained :=
        if s.world.focus.any fun window =>
            others.any fun other => decide (window ∈ s.stickyMembers order other) then
          s.world.focus
        else s.focusTarget workspace
      ((others.foldl (fun t other => t.giveWay order layout s workspace other) s).ask
        (.setVisible workspace true)).finishSwitch workspace retained

def afterMove (node : Node) (source destination : Entity) (ancestors : List Node) : Desktop :=
  if s.tree.root node ≠ some destination ∧ s.memberOf node ≠ some destination then s
  else
    s.ask (.select source ((ancestors.findSome? s.descend).or
      ((s.world.workspaces.lookup source).bind fun state =>
        state.history.find? fun window => s.world.memberOf window = some source)))

/-- `Resolved::Move`. -/
def resolvedMove (node : Node) (workspace : Entity) : Desktop :=
  if workspace ∉ s.world.workspaces then s
  else
    match (s.memberOf node).or (s.tree.root node) with
    | none => s
    | some source =>
        if source = workspace then s
        else
          let moved := s.tileMove layout node workspace (s.descend (.workspace workspace))
          if s.world.focus.any fun focused =>
              .window focused = node || s.belongsTo (.window focused) node then
            moved.afterMove (((s.descend node).map Node.window).getD node) source workspace
              (s.tree.ancestors node)
          else moved

/-! ### Requests -/

/-- Create a workspace. -/
def create (name : String) (output : Entity) : Option (Desktop × Entity) :=
  (s.world.create name output).map fun (world, workspace, events) =>
    (s.proceed world events, workspace)

/-- The workspace of a selector, which is created if it has to be. -/
def resolve (target : WorkspaceTarget) : Option (Desktop × Entity) :=
  match s.find order target with
  | some workspace => some (s, workspace)
  | none =>
      (s.creationName target).bind fun name =>
        ((s.preferredOutput order name).or (s.currentOutput order)).bind fun output =>
          s.create name output

def rename (source : Option String) (name : String) : Desktop :=
  match source.elim s.world.selected (s.findName order) with
  | none => s
  | some workspace =>
      if (s.workspaces order).any fun entry =>
          entry.1 ≠ workspace && eqIgnoreAsciiCase entry.2.name name then s
      else s.proceed (s.world.rename workspace name).1 (s.world.rename workspace name).2.1

/-- A named selector of the selected workspace means the previous one. -/
def automatic (target : WorkspaceTarget) (allow : Bool) : Bool :=
  allow && s.settings.autoBackAndForth &&
    (match target with
      | .name _ => true
      | .number _ => true
      | _ => false) &&
    s.world.selected.isSome && s.find order target = s.world.selected

def navigate (target : WorkspaceTarget) (operation : WorkspaceNavigation)
    (allow : Bool) : Desktop :=
  if operation = .moveWindow ∧ s.world.focus = none then s
  else
    match s.resolve order (if s.automatic order target allow then .backAndForth else target) with
    | none => s
    | some (t, workspace) =>
        match operation with
        | .switch => t.resolvedSwitch order layout workspace
        | .moveWindow =>
            match s.selection.or (s.world.focus.map Node.window) with
            | none => t
            | some node => t.resolvedMove layout node workspace

/-- Without an output a request is deferred: it comes again. -/
def request (asked : I3WorkspaceRequest) : Desktop :=
  if s.currentOutput order = none then s
  else
    match asked with
    | .navigate target operation allow => s.navigate order layout target operation allow
    | .rename source name => s.rename order source name

def moveExplicit (window : Entity) (target : WorkspaceTarget) : Desktop :=
  if window ∉ s.world.windows then s
  else if s.currentOutput order = none then s
  else
    match s.resolve order target with
    | none => s
    | some (t, workspace) =>
        if s.owners.lookup window = none then
          { t with world := t.world.insertMember window workspace }
        else t.resolvedMove layout (.window window) workspace

/-! ### Passes -/

/-- A workspace is shown on the output. -/
def showsOn (output : Entity) (state : Workspace) : Bool :=
  state.visible && state.output = some output

/-- A workspace whose output is gone. -/
def orphaned (state : Workspace) : Bool :=
  state.output.all fun output => decide (output ∉ s.world.outputs)

/-- Hide a workspace whose output is gone, assign it to another one, and show it if it is selected. -/
def adopt (snapshot : Desktop) (fallback : Entity) (entry : Entity × Workspace) : Desktop :=
  if snapshot.orphaned entry.2 then
    let adopted := (s.ask (.setVisible entry.1 false)).ask (.assign entry.1 fallback)
    if snapshot.world.selected = some entry.1 then
      adopted.resolvedSwitch order layout entry.1
    else adopted
  else s

/-- No workspace has the name, or begins with its number. -/
def unused (name : String) : Bool :=
  !(s.workspaces order).any fun entry =>
    eqIgnoreAsciiCase entry.2.name name || (number name).any fun n => number entry.2.name = some n

/-- The name may be given to a workspace of the output. -/
def suits (output : Entity) (name : String) : Bool :=
  s.unused order name && (s.preferredOutput order name).all fun preferred => preferred = output

/-- The numbers that are tried. -/
def candidates : List String :=
  (List.range' 1 ((s.workspaces order).length + s.settings.assignments.length + 1)).map
    fun n => toString n

/-- A name for a new workspace of the output. -/
def bootstrapName (output : Entity) : Option String :=
  ((((s.settings.assignments.filter fun assignment =>
      s.preferredOutput order assignment.workspace = some output).map (·.workspace)) ++
        s.settings.initialNames).find? (s.suits order output)).or
    ((s.candidates order).find? (s.suits order output))

/-- The workspace that an output without a visible one gets. -/
def bootstrapWorkspace (output : Entity) : Option (Desktop × Entity) :=
  match s.leastWorkspace order fun _ state => state.output = some output with
  | some workspace => some (s, workspace)
  | none => (s.bootstrapName order output).bind fun name => s.create name output

def bootstrap (output : Entity) : Desktop :=
  match (s.workspaces order).find? fun entry => showsOn output entry.2 with
  | some (workspace, _) =>
      if s.world.selected = none then s.resolvedSwitch order layout workspace else s
  | none =>
      match s.bootstrapWorkspace order output with
      | none => s
      | some (t, workspace) =>
          let shown := t.ask (.setVisible workspace true)
          if s.world.selected.all fun selected => decide (selected ∉ s.world.workspaces) then
            shown.ask (.focus workspace)
          else shown

/-- The outputs, the primary one first. -/
def outputsInOrder : List Entity :=
  (s.outputs order).mergeSort fun output other =>
    decide (toLex ((if (s.describe output).primary then 0 else 1), (s.describe output).id) ≤
      toLex ((if (s.describe other).primary then 0 else 1), (s.describe other).id))

def prepare : Desktop :=
  let adopted :=
    match s.currentOutput order with
    | none => s
    | some fallback =>
        (s.workspaces order).foldl (fun t entry => t.adopt order layout s fallback entry) s
  (s.outputsInOrder order).foldl (fun t output =>
      if s.world.selected = none ∨
          (s.workspaces order).any (fun entry => showsOn output entry.2) = false then
        t.bootstrap order layout output
      else t) adopted

/-- A workspace that is neither shown nor selected and has no windows. -/
def idle (entry : Entity × Workspace) : Bool :=
  !entry.2.visible && s.world.selected ≠ some entry.1 &&
    !s.world.windows.keys.any fun window => s.world.memberOf window = some entry.1

def reap : Desktop :=
  (s.workspaces order).foldl
    (fun t entry => if s.idle entry then t.ask (.removeEmpty entry.1) else t) s

/-- The passes of an update. -/
def pass : Desktop := (s.prepare order layout).reap order

/-! ### Windows -/

/-- The tiling layer takes charge of a window that nobody manages. -/
def manage (window workspace : Entity) (isFloating : Bool) : Desktop :=
  if window ∉ s.world.windows ∨ workspace ∉ s.world.workspaces ∨
      s.owners.lookup window ≠ none then s
  else
    { s with
      world := s.world.insertMember window workspace
      owners := s.owners.insert window (.tiles workspace)
      floating := if isFloating then insert window s.floating else s.floating.erase window }

/-- Somebody else takes charge of a window that nobody manages. -/
def manageElsewhere (window : Entity) : Desktop :=
  if window ∉ s.world.windows ∨ s.owners.lookup window ≠ none then s
  else { s with owners := s.owners.insert window .other }

def despawnWindow (window : Entity) : Desktop :=
  { s with
    world := s.world.despawnWindow window
    owners := s.owners.erase window
    floating := s.floating.erase window
    sticky := s.sticky.erase window }

def focusChanged (window : Option Entity) : Desktop :=
  let world := { s.world with focus := window }
  s.proceed (world.rememberFocus window).1 (world.rememberFocus window).2

def plug (info : Output) : Desktop :=
  { s with
    world := s.world.spawnOutput
    describe := fun output => if output = s.world.nextEntity then info else s.describe output }

end Desktop

/-! ### All steps -/

inductive Label
  | request (request : I3WorkspaceRequest)
  | moveExplicit (window : Entity) (target : WorkspaceTarget)
  | activate (workspace : Entity)
  | plug (info : Output)
  | unplug (output : Entity)
  | describe (output : Entity) (info : Output)
  | spawnWindow
  | despawnWindow (window : Entity)
  | manage (window workspace : Entity) (isFloating : Bool)
  | manageElsewhere (window : Entity)
  | release (window : Entity)
  | float (window : Entity) (isFloating : Bool)
  | stick (window : Entity) (isSticky : Bool)
  | focusChanged (window : Option Entity)
  | select (node : Option Node)
  | arrange (tree : Tree)
  | configure (settings : WorkspaceSettings)
  | pass

open Desktop in
def step (order : IterationOrder Entity) (layout : Layout) (s : Desktop) : Label → Desktop
  | .request asked => s.request order layout asked
  | .moveExplicit window target => s.moveExplicit order layout window target
  | .activate workspace => s.resolvedSwitch order layout workspace
  | .plug info => s.plug info
  | .unplug output => { s with world := s.world.despawnOutput output }
  | .describe output info =>
      { s with describe := fun other => if other = output then info else s.describe other }
  | .spawnWindow => { s with world := s.world.spawnWindow }
  | .despawnWindow window => s.despawnWindow window
  | .manage window workspace isFloating => s.manage window workspace isFloating
  | .manageElsewhere window => s.manageElsewhere window
  | .release window => { s with owners := s.owners.erase window }
  | .float window isFloating =>
      { s with floating := if isFloating then insert window s.floating else s.floating.erase window }
  | .stick window isSticky =>
      { s with sticky := if isSticky then insert window s.sticky else s.sticky.erase window }
  | .focusChanged window => s.focusChanged window
  | .select node => { s with selection := node }
  | .arrange tree => { s with tree }
  | .configure settings => { s with settings }
  | .pass => s.pass order layout

end I3
