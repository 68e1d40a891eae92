/-
  ApiSyntax/Parser/Basic.lean --- steps of a parser.

  A parser reads from a cursor and builds in a workspace.  An alternative that is
  given up gives the cursor and the phase back; what it built stays.  Loops run on a
  bound taken from the number of tokens that remain: a round that consumes none is
  the last one.
-/
import ApiSyntax.Config
import ApiSyntax.Extension.Basic
import ApiSyntax.Parser.Cursor

set_option autoImplicit false

namespace ApiSyntax

/-- What a parse is given and does not change: the extensions, the flat form of qualified names
and the switches. -/
structure ParserEnv where
  extensions : Registry
  mangle : String → String
  config : Config

/-- What a parse changes: the place in the tokens, the phase, and what is built. -/
structure ParserState where
  cursor : Cursor
  phase : Phase
  work : Workspace

/-- A step of a parser. -/
def Parser (α : Type) : Type := ParserEnv → Action ParserState Stop α

namespace Parser

variable {α β γ : Type}

instance : Monad Parser where
  pure a := fun _ => Action.ret a
  bind x f := fun env => Action.andThen (x env) fun a => f a env

@[simp] theorem pure_run (a : α) (env : ParserEnv) : (pure a : Parser α) env = pure a := rfl

@[simp] theorem bind_run (x : Parser α) (f : α → Parser β) (env : ParserEnv) :
    (x >>= f) env = x env >>= fun a => f a env := rfl

instance : LawfulMonad Parser := LawfulMonad.mk' _
  (fun x => funext fun env => id_map (x env))
  (fun _ _ => rfl)
  (fun x f g => funext fun env => bind_assoc (x env) (f · env) fun b => g b env)

/-! ## Single steps -/

/-- The step fails. -/
def fail (d : Diagnostic) : Parser α := fun _ => .fail (.failed d)

/-- The bound on recursion is used up. -/
def exhausted : Parser α := fun _ => .fail .exhausted

/-- What the parse is given. -/
def env : Parser ParserEnv := fun env => .ret env

/-- The state of the parse. -/
def state : Parser ParserState := fun _ => .read

/-- A result or a failure. -/
def ofExcept (x : Except Diagnostic α) : Parser α := fun _ => .ofExcept (x.mapError .failed)

/-- A question about the place in the tokens. -/
def atCursor (f : Cursor → α) : Parser α := fun _ s => (.ok (f s.cursor), s)

/-- A question about the arena. -/
def atArena (f : Arena → Except Diagnostic α) : Parser α := fun _ s =>
  ((f s.work.arena).mapError .failed, s)

/-- The phase. -/
def phase : Parser Phase := fun _ s => (.ok s.phase, s)

/-- A step on the workspace alone.  The workspace is taken out of the state meanwhile. -/
def building (x : Action Workspace Stop α) : Parser α := fun _ s =>
  let work := s.work
  let s := { s with work := .start .empty }
  match x work with
  | (r, work) => (r, { s with work := work })

/-- A step on the workspace alone that fails with a diagnostic. -/
def working (x : Action Workspace Diagnostic α) : Parser α := building (x.mapError .failed)

/-- An event is recorded. -/
def note (e : Event) : Parser Unit := building (Workspace.note e)

/-- A node is made. -/
def alloc (token : Token) (expr : Expr) : Parser NodeId := building (Workspace.alloc token expr)

/-- A subtree is copied. -/
def duplicate (id : NodeId) : Parser NodeId := building (Workspace.onArena (Arena.duplicate id))

/-! ## Tokens -/

/-- The next token. -/
def peek : Parser Token := fun _ s => (s.cursor.peek.mapError .failed, s)

/-- The next token is consumed. -/
def consume : Parser Token := fun _ s =>
  match s.cursor.consume with
  | .ok (t, cursor) => (.ok t, { s with cursor := cursor })
  | .error d => (.error (.failed d), s)

/-- The next token is of this kind. -/
def check (kind : TokenKind) : Parser Bool := atCursor (·.check kind)

/-- The next token is this keyword. -/
def checkKeyword (word : String) : Parser Bool := atCursor (·.checkKeyword word)

/-- The tokens that remain. -/
def remaining : Parser (List Token) := atCursor (·.rest)

/-- Tokens remain. -/
def hasMore : Parser Bool := atCursor (·.hasMore)

/-- The token that a node made here starts at. -/
def startToken : Parser Token := atCursor (·.startToken)

/-- The next token is consumed if it is of this kind and satisfies `p`; else the failure `error`
makes of it. -/
def expectOr (kind : TokenKind) (p : Token → Bool) (error : Token → Diagnostic) :
    Parser Token := do
  let t ← peek
  if t.is kind && p t then consume else fail (error t)

/-- The next token is consumed if it is of this kind and satisfies `p`. -/
def expectWhere (kind : TokenKind) (p : Token → Bool) (expected : String) : Parser Token :=
  expectOr kind p fun t => .unexpected t expected

/-- The next token is consumed if it is of this kind. -/
def expect (kind : TokenKind) : Parser Token := expectWhere kind (fun _ => true) kind.describe

/-- The next token is consumed if it is this keyword. -/
def expectKeyword (word : String) : Parser Token :=
  expectWhere .keyword (fun t => t.value == word) ("'" ++ word ++ "'")

/-- The next token is of one of these kinds; it is consumed only if `consumes`. -/
def expectAny (kinds : List TokenKind) (consumes : Bool) : Parser Token := do
  let t ← peek
  if kinds.any t.is then
    if consumes then consume else return t
  else fail (.unexpected t (" or ".intercalate (kinds.map TokenKind.describe)))

/-- No token remains. -/
def expectEnd : Parser Unit := fun _ s =>
  match s.cursor.rest with
  | t :: _ => (.error (.failed (.unexpected t "end of input")), s)
  | [] => (.ok (), s)

/-! ## Giving up and phases -/

/-- The step, or nothing if it fails; a failed step gives its place and phase back. -/
def attempt (p : Parser α) : Parser (Option α) := fun env s =>
  let cursor := s.cursor
  let phase := s.phase
  match p env s with
  | (.ok a, s') => (.ok (some a), s')
  | (.error (.failed d), s') =>
      (.ok none,
        { cursor := cursor, phase := phase,
          work := { s'.work with events := s'.work.events.push (.rewound cursor.index d) } })
  | (.error .exhausted, s') => (.error .exhausted, s')

/-- The step in a phase of its own; the phase before comes back whether or not it fails. -/
def inPhase (inner : Phase) (p : Parser α) : Parser α := fun env s =>
  let outer := s.phase
  match p env { s with phase := inner } with
  | (r, s') => (r, { s' with phase := outer })

/-! ## Loops -/

/-- How a round of a loop ends. -/
inductive Round (β γ : Type)
  | more (next : β)
  | done (result : γ)

/-- Rounds until one is the last, at most `fuel` of them. -/
def loopN (round : β → Parser (Round β γ)) : Nat → β → Parser γ
  | 0, _ => exhausted
  | fuel + 1, b => do
      match ← round b with
      | .more next => loopN round fuel next
      | .done result => return result

/-- Rounds until one is the last.  Each round but the last consumes a token. -/
def loop (round : β → Parser (Round β γ)) (b : β) : Parser γ := fun env s =>
  loopN round (s.cursor.rest.length + 1) b env s

/-- One element, then elements behind delimiters for as long as a delimiter follows. -/
def delimited (element : Parser α) (delimiter : TokenKind) : Parser (List α) := do
  let first ← element
  loop (fun items => do
    if ← check delimiter then
      let _ ← consume
      let item ← element
      return .more (items ++ [item])
    else return .done items) [first]

/-- Something between two tokens. -/
def parenthesized (opening closing : TokenKind) (inner : Parser α) : Parser α := do
  let _ ← expect opening
  let value ← inner
  let _ ← expect closing
  return value

/-- Elements between two tokens, with delimiters between them; there may be none. -/
def parenthesizedList (opening closing : TokenKind) (element : Parser α)
    (delimiter : TokenKind) : Parser (List α) := do
  let _ ← expect opening
  if ← check closing then
    let _ ← consume
    return []
  else
    let items ← delimited element delimiter
    let _ ← expect closing
    return items

end Parser

end ApiSyntax
