/-
  ApiSyntax/Proofs/Grammar/TopLevel.lean --- what a program does besides reading.

  Once the annotations and APIs are read, a program puts them in order, makes its node and tags
  it.  The token of that node is the only thing in which two programs over the same arena can
  differ.
-/
import ApiSyntax.Proofs.Grammar.ProgramComplete
import ApiSyntax.Proofs.Grammar.Tandem
import ApiSyntax.Proofs.Parser.Fence
import ApiSyntax.Proofs.Parser.Rounds

set_option autoImplicit false

namespace ApiSyntax

/-! ## The token of a node -/

namespace Arena

theorem ext_node? {a b : Arena} (h : ∀ id, a.node? id = b.node? id) : a = b := by
  obtain ⟨nodes⟩ := a
  obtain ⟨nodes'⟩ := b
  exact congrArg Arena.mk (Array.ext_getElem? fun i => h ⟨i⟩)

variable (a : Arena) (root : NodeId) (token : Token)

theorem node?_setToken (id : NodeId) :
    (a.setToken root token).node? id =
      (a.node? id).map fun n => if root = id then { n with token := token } else n := by
  by_cases hid : root = id
  · subst hid
    simp only [setToken, node?_update_self, if_true]
  · simp only [setToken, node?_update_of_ne _ hid, if_neg hid, Option.map_id']

theorem expr_setToken (id : NodeId) : (a.setToken root token).expr id = a.expr id := by
  rw [expr, expr, node, node, node?_setToken]
  cases a.node? id with
  | none => rfl
  | some n =>
    simp only [Option.map_some, Except.map]
    split <;> rfl

/-- The token of a new node may be set afterwards. -/
theorem push_setToken (t : Token) (e : Expr) :
    (a.push t e).setToken a.next token = a.push token e := by
  refine ext_node? fun id => ?_
  rw [node?_setToken]
  by_cases hid : a.next = id
  · subst hid
    simp only [node?_push_next, Option.map_some, if_true]
  · simp only [if_neg hid, Option.map_id']
    have hne : id.index ≠ a.nodes.size := fun h => hid (congrArg NodeId.mk h.symm)
    simp only [node?, push, Array.getElem?_push, hne, if_false]

/-- A change of a node that leaves its token alone. -/
theorem update_setToken {f : Node → Node}
    (hf : ∀ n, f { n with token := token } = { f n with token := token }) :
    (a.setToken root token).update root f = (a.update root f).setToken root token := by
  refine ext_node? fun id => ?_
  rw [node?_setToken]
  by_cases hid : root = id
  · subst hid
    rw [node?_update_self, node?_update_self, node?_setToken]
    cases a.node? root with
    | none => rfl
    | some n => simp only [Option.map_some, if_true, hf]
  · rw [node?_update_of_ne f hid, node?_update_of_ne f hid, node?_setToken]

/-- Whether a tag is new does not depend on the token of the node. -/
theorem tag_setToken (t : Tag) :
    (a.setToken root token).tag root t =
      (a.tag root t).map fun r => (r.1, r.2.setToken root token) := by
  rw [tag, tag, node, node, node?_setToken]
  cases a.node? root with
  | none => rfl
  | some n =>
    have hupdate := a.update_setToken root token (f := fun n => { n with tags := n.tags ++ [t] })
      fun _ => rfl
    simp only [Option.map_some, if_true, Except.map, Node.tag?, hupdate]
    by_cases hold : (n.tags.find? fun u => u.name == t.name).isSome
    · simp only [hold, if_true]
    · simp only [hold, Bool.false_eq_true, if_false]

end Arena

/-! ## Finishing a program -/

namespace Grammar

open ApiSyntax.Parser

/-- What is done with the annotations and APIs of a program. -/
def finish (start : Token) (nodes : List NodeId) : Parser NodeId := do
  let (annotations, apis) ← atArena (separate · nodes)
  let id ← alloc start (.program apis annotations)
  tagAll id annotations
  return id

theorem program_eq (read : Production → Parser NodeId) :
    program read = (do
      let start ← startToken
      let nodes ← inPhase .program (execute (topLevel read))
      finish start nodes) := rfl

section

variable {env : ParserEnv} {read : Production → Parser NodeId} {s s' : ParserState}
  {r : Except Stop (List NodeId)} {nodes : List NodeId} {e : Stop}

theorem execute_run
    (hloop : loopN (executeRound (topLevel read)) (s.cursor.rest.length + 1) [] env
      { s with phase := .program } = (r, s')) :
    inPhase .program (execute (topLevel read)) env s = (r, { s' with phase := s.phase }) := by
  rw [inPhase, execute, loop, hloop]

/-- Once its annotations and APIs are read a program is finished. -/
theorem program_read
    (hloop : loopN (executeRound (topLevel read)) (s.cursor.rest.length + 1) [] env
      { s with phase := .program } = (.ok nodes, s')) :
    program read env s = finish s.cursor.startToken nodes env { s' with phase := s.phase } := by
  rw [program_eq, startToken_bind, bind_run, Action.bind_run, execute_run hloop]

/-- Where reading them fails the program does. -/
theorem program_stopped
    (hloop : loopN (executeRound (topLevel read)) (s.cursor.rest.length + 1) [] env
      { s with phase := .program } = (.error e, s')) :
    program read env s = (.error e, { s' with phase := s.phase }) := by
  rw [program_eq, startToken_bind, bind_run, Action.bind_run, execute_run hloop]

end

variable {env env' : ParserEnv} {s t : ParserState} {told : List Event}

/-- The arenas differ in the token of one node at most. -/
structure Retokened (root : NodeId) (token : Token) (told : List Event) (w v : Workspace) :
    Prop where
  arena : v.arena = w.arena.setToken root token
  operators : w.operators = v.operators
  discards : v.discards = told

namespace Retokened

variable {root : NodeId} {token : Token}

theorem tag (t : Tag) : Action.Mirrors (Retokened root token told) Eq Eq (Workspace.tag root t)
    (Workspace.tag root t) := by
  intro w v h
  unfold Workspace.tag Workspace.edit Workspace.onArena
  dsimp only
  rw [h.arena, Arena.tag_setToken]
  rcases w.arena.tag root t with d | ⟨new, a⟩
  · exact ⟨.error rfl, rfl, h.operators, h.discards⟩
  · exact ⟨.ok rfl, rfl, h.operators, h.discards⟩

variable (env env') in
theorem tagAll {s t : ParserState} (ids : List NodeId)
    (h : Retokened root token told s.work t.work) :
    (tagAll root ids env s).1 = (tagAll root ids env' t).1 ∧
      Retokened root token told (tagAll root ids env s).2.work (tagAll root ids env' t).2.work := by
  induction ids generalizing s t with
  | nil => exact ⟨rfl, h⟩
  | cons id ids ih =>
    have hexpr : t.work.arena.expr id = s.work.arena.expr id := by
      rw [h.arena, Arena.expr_setToken]
    rw [Grammar.tagAll, bind_run, bind_run, Action.bind_run, Action.bind_run, atArena, atArena,
      hexpr]
    cases s.work.arena.expr id with
    | error d => exact ⟨rfl, h⟩
    | ok e =>
      cases e with
      | annotationCall name params =>
        let tagging : Action Workspace Stop Bool :=
          (Workspace.tag root ⟨name, some id⟩).mapError Stop.failed
        have hends : Action.Ends (Retokened root token told) Eq Eq (tagging s.work)
            (tagging t.work) := (tag ⟨name, some id⟩).mapError (fun _ _ => congrArg _) _ _ h
        show ((building tagging >>= fun _ => Grammar.tagAll root ids) env s).1 =
            ((building tagging >>= fun _ => Grammar.tagAll root ids) env' t).1 ∧
          Retokened root token told
            ((building tagging >>= fun _ => Grammar.tagAll root ids) env s).2.work
            ((building tagging >>= fun _ => Grammar.tagAll root ids) env' t).2.work
        rw [bind_run, bind_run, Action.bind_run, Action.bind_run, building_run, building_run]
        generalize tagging s.work = r, tagging t.work = r' at hends
        obtain ⟨r, w⟩ := r
        obtain ⟨r', v⟩ := r'
        obtain ⟨hreply, hstate⟩ := hends
        cases hreply with
        | ok _ => exact ih hstate
        | error he =>
          cases he
          exact ⟨rfl, hstate⟩
      | _ => exact ih h

end Retokened

/-- Two runs come to the same result, and where it is a node, to work that differs in the token of
that node at most. -/
structure SameProgram (token : Token) (told : List Event)
    (r r' : Except Stop NodeId × ParserState) : Prop where
  result : r.1 = r'.1
  discards : r'.2.work.discards = told
  work : ∀ root, r.1 = .ok root → Retokened root token told r.2.work r'.2.work

theorem SameProgram.stopped {token : Token} {e : Stop} (h : t.work.discards = told) :
    SameProgram token told (.error e, s) (.error e, t) := by
  refine ⟨rfl, h, fun root hroot => ?_⟩
  cases hroot

/-- The node of a program is made and tagged. -/
def closeProgram (start : Token) (annotations apis : List NodeId) : Parser NodeId := do
  let id ← alloc start (.program apis annotations)
  tagAll id annotations
  return id

theorem finish_eq (start : Token) (nodes : List NodeId) :
    finish start nodes = (do
      let parts ← atArena (separate · nodes)
      closeProgram start parts.1 parts.2) := rfl

theorem closeProgram_same {start start' : Token} {annotations apis : List NodeId}
    (h : s.work.Agrees told t.work) :
    SameProgram start' told (closeProgram start annotations apis env s)
      (closeProgram start' annotations apis env' t) := by
  let made (s : ParserState) (token : Token) : ParserState :=
    { s with work := { s.work with arena := s.work.arena.push token (.program apis annotations) } }
  have hrun : ∀ (env : ParserEnv) (s : ParserState) (token : Token),
      closeProgram token annotations apis env s =
        (tagAll s.work.arena.next annotations >>= fun _ => pure s.work.arena.next) env
          (made s token) := fun _ _ _ => rfl
  have hmade : Retokened s.work.arena.next start' told (made s start).work
      (made t start').work := by
    refine ⟨?_, h.operators, h.discards⟩
    show t.work.arena.push start' _ = (s.work.arena.push start _).setToken s.work.arena.next start'
    rw [h.arena, Arena.push_setToken]
  obtain ⟨hsame, hends⟩ := hmade.tagAll env env' annotations
  rw [hrun, hrun, ← h.arena, bind_run, bind_run, Action.bind_run, Action.bind_run]
  generalize tagAll s.work.arena.next annotations env (made s start) = r,
    tagAll s.work.arena.next annotations env' (made t start') = r' at hsame hends
  obtain ⟨r, s'⟩ := r
  obtain ⟨r', t'⟩ := r'
  obtain rfl : r = r' := hsame
  cases r with
  | error e => exact .stopped hends.discards
  | ok _ =>
    refine ⟨rfl, hends.discards, fun root hroot => ?_⟩
    cases hroot
    exact hends

/-- What is done with the nodes of a program is the same but for the token of the program. -/
theorem finish_same {start start' : Token} {nodes : List NodeId}
    (h : s.work.Agrees told t.work) :
    SameProgram start' told (finish start nodes env s) (finish start' nodes env' t) := by
  rw [finish_eq, finish_eq, bind_run, bind_run, Action.bind_run, Action.bind_run, atArena, atArena,
    h.arena]
  cases separate t.work.arena nodes with
  | error d => exact .stopped h.discards
  | ok parts => exact closeProgram_same h

end Grammar

end ApiSyntax
