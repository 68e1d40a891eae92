/-
  ApiSyntax/Extension/Basic.lean --- named extensions that run while a text is parsed.

  An annotation names an extension and gives it parameters; the extension then works
  on the workspace, before the rest of the text is read.  A registry holds at most
  one extension of a name.
-/
import ApiSyntax.Journaled
import ApiSyntax.Workspace

set_option autoImplicit false

namespace ApiSyntax

/-! ## Sites -/

/-- Where an extension runs: the phase and the annotation node. -/
structure Site where
  phase : Phase
  node : NodeId
deriving DecidableEq, Repr, Inhabited

namespace Site

/-- The position of the annotation; of a foreign handle, the start. -/
def span (s : Site) (a : Arena) : Span := ((a.node? s.node).map Node.span).getD Span.start

/-- The step with its failures placed at the annotation. -/
def placing {α : Type} (s : Site) (x : Action Workspace Diagnostic α) :
    Action Workspace Diagnostic α := fun w =>
  let place := s.span w.arena
  Action.mapError (·.placed place) x w

/-- A symbol becomes an operator, on behalf of the annotation. -/
def declare (s : Site) (symbol : String) (fixity : Fixity) : Action Workspace Diagnostic Unit :=
  s.placing (Workspace.declare symbol fixity)

/-- Something becomes known about a pair of operators, on behalf of the annotation. -/
def relate (s : Site) (left right : String) (p : Precedence) :
    Action Workspace Diagnostic Unit :=
  s.placing (Workspace.relate left right p)

/-- The name that a signature declares: the name in its identifier, else the text of the token
of its name. -/
def signatureName (s : Site) (a : Arena) (id : NodeId) : Except Diagnostic String := do
  match ← a.expr id with
  | .signature name .. =>
      let n ← a.node name
      match n.expr with
      | .identifier value => return value
      | _ => return n.token.value
  | other =>
      throw ((Diagnostic.of (.extensionParameterMismatch "signature" NodeKind.signature.name
        other.kind.name)).placed (s.span a))

end Site

/-! ## Extensions -/

/-- An extension: its name, the kinds of its parameters, and what it does. -/
structure Extension where
  name : String
  parameters : List NodeKind
  invoke : Site → List NodeId → Action Workspace Diagnostic Unit

namespace Extension

/-- The failure of a call with another number of parameters. -/
def arityMismatch (name : String) (parameters : List NodeKind) (s : Site) (given : List NodeId)
    (a : Arena) : Diagnostic :=
  let found := given.map fun id =>
    match a.node? id with
    | some n => n.kind.name
    | none => "?"
  (Diagnostic.of (.extensionParameterMismatch name (NodeKind.listText parameters)
    (", ".intercalate found))).placed (s.span a)

/-- The extension that declares the name of its one signature as an operator. -/
def declaring (name : String) (fixity : Fixity) : Extension where
  name := name
  parameters := [.signature]
  invoke s
    | [sig] => do
        let symbol ← Workspace.ask fun w => s.signatureName w.arena sig
        s.declare symbol fixity
    | given => Workspace.ask fun w => .error (arityMismatch name [.signature] s given w.arena)

/-- The extension that lets the operator of its first signature bind tighter than that of its
second. -/
def binding (name : String) : Extension where
  name := name
  parameters := [.signature, .signature]
  invoke s
    | [tighter, looser] => do
        let left ← Workspace.ask fun w => s.signatureName w.arena tighter
        let right ← Workspace.ask fun w => s.signatureName w.arena looser
        s.relate left right .greater
    | given =>
        Workspace.ask fun w =>
          .error (arityMismatch name [.signature, .signature] s given w.arena)

end Extension

/-! ## Registries -/

/-- Extensions by name. -/
structure Registry where
  extensions : List Extension

namespace Registry

/-- The registry without extensions. -/
def empty : Registry := ⟨[]⟩

/-- The extensions that every source text knows. -/
def builtin : Registry :=
  ⟨[Extension.declaring "Operator.Infix" .infixOp, Extension.declaring "Operator.Prefix" .prefixOp,
    Extension.binding "Operator.Binds"]⟩

/-- The extension of a name. -/
def get? (r : Registry) (name : String) : Option Extension :=
  r.extensions.find? fun e => e.name == name

/-- An extension of the language is one of three, and it is found under its name. -/
theorem get?_builtin {name : String} {e : Extension} (h : builtin.get? name = some e) :
    e.name = name ∧ (e = .declaring "Operator.Infix" .infixOp ∨
      e = .declaring "Operator.Prefix" .prefixOp ∨ e = .binding "Operator.Binds") := by
  have hmem : e ∈ builtin.extensions := List.mem_of_find?_eq_some h
  simp only [builtin, List.mem_cons, List.not_mem_nil, or_false] at hmem
  exact ⟨by simpa using List.find?_some h, hmem⟩

/-- There is an extension of this name. -/
def contains (r : Registry) (name : String) : Bool := (r.get? name).isSome

/-- The number of extensions. -/
def size (r : Registry) : Nat := r.extensions.length

/-- An extension is added.  Its name must be free. -/
def register (r : Registry) (e : Extension) : Except Diagnostic Registry :=
  if r.contains e.name then .error (.of (.duplicateExtension e.name))
  else .ok ⟨r.extensions ++ [e]⟩

/-- `register`, recorded. -/
def recordRegister (e : Extension) : Action (Journaled Registry) Diagnostic Unit :=
  Journaled.change (·.register e) fun _ => .registered e.name

/-- The names in the order of characters. -/
def names (r : Registry) : List String :=
  (r.extensions.map (·.name)).mergeSort fun a b => decide (a ≤ b)

/-- The registry as it is shown to people. -/
def display (r : Registry) : String :=
  "ExtensionRegistry \x7b extensions: [" ++ ", ".intercalate (r.names.map displayQuoted) ++
    "] \x7d"

end Registry

end ApiSyntax
