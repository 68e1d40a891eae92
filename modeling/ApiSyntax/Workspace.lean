/-
  ApiSyntax/Workspace.lean --- what a parse builds.

  A workspace holds the arena, the operator table, the events of the run and the
  reports of its extensions.  Nothing here is undone when an alternative of the
  grammar is given up: nodes stay in the arena, operators stay declared.
-/
import ApiSyntax.Arena.Basic
import ApiSyntax.Event
import ApiSyntax.Operators.Table

set_option autoImplicit false

namespace ApiSyntax

/-! ## Reports -/

/-- What an extension found out or did. -/
inductive Finding
  /-- The size of the arena, and the parameters with their kinds where they have one. -/
  | scene (nodes : Nat) (params : List NodeId) (kinds : List (Option NodeKind)) (phase : Phase)
      (site : NodeId) (place : Span)
  | flag (value : Bool)
  | handle (id : NodeId)
  | contents (expr : Expr)
  | name (text : String)
  | failure (d : Diagnostic)
deriving DecidableEq, Repr, Inhabited

/-- A finding with the extension that reports it and the step that led to it. -/
structure Report where
  extension : String
  step : String
  finding : Finding
deriving DecidableEq, Repr, Inhabited

/-! ## Workspaces -/

/-- What a parse builds: nodes, operators, events and reports, the last two in the order in
which they came. -/
structure Workspace where
  arena : Arena
  operators : OperatorTable
  events : Array Event
  reports : Array Report
deriving Repr, Inhabited

namespace Workspace

/-- A workspace without nodes that starts from the given operators. -/
def start (operators : OperatorTable) : Workspace := ⟨.empty, operators, #[], #[]⟩

variable {ε α : Type}

/-- An event is recorded. -/
def note (e : Event) : Action Workspace ε Unit := .change fun w =>
  { w with events := w.events.push e }

/-- A report is recorded. -/
def report (r : Report) : Action Workspace ε Unit := .change fun w =>
  { w with reports := w.reports.push r }

/-- A step on the arena alone.  The arena is taken out of the workspace meanwhile. -/
def onArena (x : Action Arena ε α) : Action Workspace ε α := fun w =>
  let arena := w.arena
  let w := { w with arena := .empty }
  match x arena with
  | (r, arena) => (r, { w with arena := arena })

/-- A question about the workspace. -/
def ask (f : Workspace → Except ε α) : Action Workspace ε α := fun w => (f w, w)

/-- A node is made. -/
def alloc (token : Token) (expr : Expr) : Action Workspace ε NodeId :=
  onArena fun a => (.ok a.next, a.push token expr)

/-- A change of the arena that answers something and may be refused. -/
def edit (f : Arena → Except ε (α × Arena)) : Action Workspace ε α := onArena fun a =>
  match f a with
  | .ok (r, a') => (.ok r, a')
  | .error e => (.error e, a)

/-- A tag is added; the answer says whether it was new. -/
def tag (id : NodeId) (t : Tag) : Action Workspace Diagnostic Bool := edit (·.tag id t)

/-- The contents of a node are overwritten; the answer is what was there. -/
def replace (id : NodeId) (expr : Expr) : Action Workspace Diagnostic Expr :=
  edit (·.replace id expr)

/-- One child slot is pointed elsewhere. -/
def replaceChild (parent target replacement : NodeId) : Action Workspace Diagnostic Unit := do
  edit fun a => (a.replaceChild parent target replacement).map ((), ·)
  note (.childReplaced parent target replacement)

/-- A symbol becomes an operator. -/
def declare (symbol : String) (fixity : Fixity) : Action Workspace Diagnostic Unit := do
  .tryChange fun w => (w.operators.declare symbol fixity).map ({ w with operators := · })
  note (.declared symbol fixity)

/-- Something becomes known about a pair of operators. -/
def relate (left right : String) (p : Precedence) : Action Workspace Diagnostic Unit := do
  .tryChange fun w => (w.operators.relate left right p).map ({ w with operators := · })
  note (.related left right p)

end Workspace

end ApiSyntax
