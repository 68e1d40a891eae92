/-
  ApiSyntax/Extension/Script.lean --- extensions written as a list of steps.

  A step does one thing to the workspace and may report what came of it.  A step that
  fails ends the script with its failure, unless it is tolerant: then the failure is
  reported and the next step runs.
-/
import ApiSyntax.Extension.Basic

set_option autoImplicit false

namespace ApiSyntax

/-! ## References -/

/-- A way to name a node in a script. -/
inductive Reference
  | handle (id : NodeId)
  /-- The annotation node. -/
  | site
  /-- A parameter, counted from zero. -/
  | parameter (index : Nat)
  /-- The node that the script made last. -/
  | made
  /-- A child of another node, counted from zero. -/
  | child (parent : Reference) (index : Nat)
deriving DecidableEq, Repr, Inhabited

/-- What references are resolved in. -/
structure Scope where
  site : Site
  params : List NodeId
  made : Option NodeId

namespace Reference

/-- The handle past all nodes, which a reference to nothing stands for. -/
def nothing (a : Arena) : NodeId := a.next

/-- The handle that a reference stands for. -/
def resolve (scope : Scope) (a : Arena) : Reference → Except Diagnostic NodeId
  | handle id => .ok id
  | site => .ok scope.site.node
  | parameter index => .ok ((scope.params[index]?).getD (nothing a))
  | made => .ok (scope.made.getD (nothing a))
  | child parent index => do
      let id ← parent.resolve scope a
      let ids ← a.children id
      return (ids[index]?).getD (nothing a)

end Reference

/-- Contents whose child slots are references, in the order of the source text. -/
structure Template where
  shape : Expr
  slots : List Reference

/-- The contents that a template stands for. -/
def Template.resolve (t : Template) (scope : Scope) (a : Arena) : Except Diagnostic Expr :=
  (t.slots.mapM (Reference.resolve scope a)).map t.shape.withChildren

/-! ## Steps -/

/-- One thing that a script can do. -/
inductive Command
  | observe
  | declare (symbol : String) (fixity : Fixity)
  | relate (left right : String) (p : Precedence)
  | contains (symbol : String) (fixity : Fixity)
  | tag (node : Reference) (name : String) (origin : Option Reference)
  | make (token : Token) (contents : Template)
  | replaceChild (parent target replacement : Reference)
  | replaceContents (node : Reference) (contents : Template)
  | signatureName (node : Reference)
  | fail (d : Diagnostic)

/-- A command with the word it is reported under. -/
structure ScriptStep where
  label : String
  command : Command
  tolerant : Bool

namespace Command

/-- A question about the arena. -/
def resolving {α : Type} (f : Arena → Except Diagnostic α) : Action Workspace Diagnostic α :=
  Workspace.ask fun w => f w.arena

/-- What a command sees around it. -/
def scene (scope : Scope) (a : Arena) : Finding :=
  .scene a.size scope.params (scope.params.map fun id => (a.node? id).map Node.kind)
    scope.site.phase scope.site.node (scope.site.span a)

/-- A command is carried out; the answer is what it reports, if anything. -/
def run (scope : Scope) : Command → Action Workspace Diagnostic (Option Finding)
  | observe => Workspace.ask fun w => .ok (some (scene scope w.arena))
  | declare symbol fixity => do
      scope.site.declare symbol fixity
      return none
  | relate left right p => do
      scope.site.relate left right p
      return none
  | contains symbol fixity =>
      Workspace.ask fun w => .ok (some (.flag (w.operators.contains symbol fixity)))
  | tag node name origin => do
      let id ← resolving (node.resolve scope)
      let source ← resolving fun a => origin.mapM (·.resolve scope a)
      let fresh ← Workspace.tag id ⟨name, source⟩
      return some (.flag fresh)
  | make token contents => do
      let e ← resolving (contents.resolve scope)
      let id ← Workspace.alloc token e
      return some (.handle id)
  | replaceChild parent target replacement => do
      let p ← resolving (parent.resolve scope)
      let t ← resolving (target.resolve scope)
      let r ← resolving (replacement.resolve scope)
      Workspace.replaceChild p t r
      return none
  | replaceContents node contents => do
      let id ← resolving (node.resolve scope)
      let e ← resolving (contents.resolve scope)
      let old ← Workspace.replace id e
      return some (.contents old)
  | signatureName node => do
      let id ← resolving (node.resolve scope)
      let text ← resolving fun a => scope.site.signatureName a id
      return some (.name text)
  | fail d => .fail d

end Command

namespace ScriptStep

/-- The scope after a step: a node just made is the one made last. -/
def scopeAfter (scope : Scope) : Option Finding → Scope
  | some (.handle id) => { scope with made := some id }
  | _ => scope

/-- What is found is reported, if anything is. -/
def reportFinding (extension label : String) :
    Option Finding → Action Workspace Diagnostic Unit
  | some finding => Workspace.report ⟨extension, label, finding⟩
  | none => return ()

/-- The failures of a tolerant step are findings. -/
def attempt (step : ScriptStep) (x : Action Workspace Diagnostic (Option Finding)) :
    Action Workspace Diagnostic (Option Finding) := fun w =>
  match x w with
  | (.error d, w') => if step.tolerant then (.ok (some (.failure d)), w') else (.error d, w')
  | done => done

/-- The steps of a script, one after another. -/
def runAll (extension : String) : Scope → List ScriptStep → Action Workspace Diagnostic Unit
  | _, [] => return ()
  | scope, step :: rest => do
      let found ← step.attempt (step.command.run scope)
      reportFinding extension step.label found
      runAll extension (scopeAfter scope found) rest

end ScriptStep

/-- The extension that runs a script. -/
def Extension.scripted (name : String) (parameters : List NodeKind) (steps : List ScriptStep) :
    Extension where
  name := name
  parameters := parameters
  invoke site params := ScriptStep.runAll name ⟨site, params, none⟩ steps

end ApiSyntax
