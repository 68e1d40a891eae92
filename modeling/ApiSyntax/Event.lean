/-
  ApiSyntax/Event.lean --- what is told about a run while it happens.

  An event is data; its level and wording are functions of it.  Operations record
  events when they succeed, rotations before they begin, and the grammar also when
  an alternative is given up.
-/
import ApiSyntax.Diagnostic

set_option autoImplicit false

namespace ApiSyntax

/-- The level of the grammar at which an annotation stands. -/
inductive Phase
  /-- Between API declarations. -/
  | program
  /-- In the body of an API. -/
  | declaration
  /-- In a block. -/
  | statement
deriving DecidableEq, Repr, Inhabited

/-- The name of a phase in messages and documents. -/
def Phase.name : Phase → String
  | .program => "Program"
  | .declaration => "Declaration"
  | .statement => "Statement"

/-- The phase of a name. -/
def Phase.ofName? (name : String) : Option Phase :=
  [program, declaration, statement].find? fun p => p.name == name

/-- The operand of a binary node that a rotation lifts. -/
inductive Side
  | left
  | right
deriving DecidableEq, Repr, Inhabited

/-- The word for a side in messages. -/
def Side.text : Side → String
  | .left => "left"
  | .right => "right"

/-- Something that happened. -/
inductive Event
  | tokenized (characters tokens : Nat)
  | categoryInserted (name : String) (index : Nat)
  | declared (symbol : String) (fixity : Fixity)
  | related (left right : String) (precedence : Precedence)
  | registered (name : String)
  | childReplaced (parent target replacement : NodeId)
  | rotating (operator lifted : String) (side : Side)
  | rewound (index : Nat) (why : Diagnostic)
  | mismatched (rule : String) (why : Diagnostic)
  | entered (rule : String) (place : Span)
  | discarded (text : String) (place : Span) (matched : Nat)
  | ambiguous (rules text : String)
  | invoking (extension : String) (phase : Phase) (place : Span)
deriving DecidableEq, Repr, Inhabited

namespace Event

/-- How loud an event is. -/
def level : Event → String
  | tokenized .. => "DEBUG"
  | categoryInserted .. => "DEBUG"
  | declared .. => "DEBUG"
  | related .. => "DEBUG"
  | registered .. => "DEBUG"
  | childReplaced .. => "TRACE"
  | rotating .. => "TRACE"
  | rewound .. => "TRACE"
  | mismatched .. => "TRACE"
  | entered .. => "DEBUG"
  | discarded .. => "DEBUG"
  | ambiguous .. => "ERROR"
  | invoking .. => "DEBUG"

/-- The wording of an event. -/
def message : Event → String
  | tokenized characters tokens =>
      "tokenized " ++ toString characters ++ " characters into " ++ toString tokens ++ " tokens"
  | categoryInserted name index =>
      "lexical category `" ++ name ++ "` inserted at " ++ toString index
  | declared symbol fixity => "declared " ++ fixity.text ++ " operator `" ++ symbol ++ "`"
  | related left right precedence =>
      "operator `" ++ left ++ "` is " ++ precedence.name ++ " than `" ++ right ++ "`"
  | registered name => "registered extension `" ++ name ++ "`"
  | childReplaced parent target replacement =>
      "node " ++ parent.text ++ ": child " ++ target.text ++ " replaced by " ++ replacement.text
  | rotating operator lifted side =>
      "rotating `" ++ operator ++ "` under `" ++ lifted ++ "` (" ++ side.text ++ " operand)"
  | rewound index why => "attempt rewound at token " ++ toString index ++ ": " ++ why.message
  | mismatched rule why => "`" ++ rule ++ "` did not match: " ++ why.message
  | entered rule place => "top level: `" ++ rule ++ "` at " ++ place.text
  | discarded text place matched =>
      "permissive mode: discarded `" ++ text ++ "` at " ++ place.text ++ " (" ++
        toString matched ++ " rules matched)"
  | ambiguous rules text =>
      "grammar defect: rules " ++ rules ++ " all accept `" ++ text ++ "`"
  | invoking extension phase place =>
      "running extension `" ++ extension ++ "` (" ++ phase.name ++ " phase) at " ++ place.text

/-- The event as one line of a log. -/
def line (e : Event) : String := e.level ++ " " ++ e.message

end Event

end ApiSyntax
