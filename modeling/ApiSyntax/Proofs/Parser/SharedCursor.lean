/-
  ApiSyntax/Proofs/Parser/SharedCursor.lean --- a cursor as a plain list of tokens.

  A place in the tokens can be kept as a sequence, shared by all who remember a place in it,
  and the number of tokens in front of the place.  Tokens are pushed back onto it by counting
  down if they are the ones just passed, and by a changed copy of the sequence if not; older
  places keep the sequence they were taken of.

  Main statement (`Session.run_refines`): whatever is asked, taken, pushed back, remembered and
  returned to, in any order, a cursor answers as the sequence with its number does, and the number
  never exceeds the length of the sequence.  It behaves as the list of the tokens that remain, as
  long as no count of places ahead is so large that its sum with the number of tokens passed
  overflows a machine word.  A sum that overflows is the place of a token already passed.
-/
import ApiSyntax.Proofs.Parser.Steps

set_option autoImplicit false

namespace ApiSyntax

/-! ## Operations -/

/-- A question about the tokens ahead. -/
inductive Question
  | hasMore
  | remaining
  | peekNth (n : UInt64)
  | check (kind : TokenKind)
  | checkValue (kind : TokenKind) (value : String)
  | checkKeyword (word : String)

/-- A demand on the next token. -/
inductive Demand
  | consume
  | expect (kind : TokenKind)
  | expectWhere (kind : TokenKind) (test : Token → Bool) (expected : String)
  | expectOr (kind : TokenKind) (test : Token → Bool) (error : Token → Diagnostic)
  | expectKeyword (word : String)
  | expectAny (kinds : List TokenKind) (consumes : Bool)

/-- What can be done at a place in the tokens.  Places that are remembered are counted from the
first one. -/
inductive CursorOp
  | ask (q : Question)
  | take (d : Demand)
  | rewind (tokens : List Token)
  | checkpoint
  | restore (n : Nat)

/-- What an operation answers. -/
inductive Answer
  | nothing
  | truth (b : Bool)
  | token (r : Except Stop Token)
  | tokens (ts : List Token)

namespace Demand

/-- The token meets the demand. -/
def accepts : Demand → Token → Bool
  | consume, _ => true
  | expect kind, t => t.is kind
  | expectWhere kind test _, t => t.is kind && test t
  | expectOr kind test _, t => t.is kind && test t
  | expectKeyword word, t => t.isValue .keyword word
  | expectAny kinds _, t => kinds.any t.is

/-- The failure when the token does not meet the demand. -/
def refusal : Demand → Token → Diagnostic
  | consume, _ => .outOfTokens
  | expect kind, t => .unexpected t kind.describe
  | expectWhere _ _ expected, t => .unexpected t expected
  | expectOr _ _ error, t => error t
  | expectKeyword word, t => .unexpected t ("'" ++ word ++ "'")
  | expectAny kinds _, t => .unexpected t (" or ".intercalate (kinds.map TokenKind.describe))

/-- A token that meets the demand is consumed. -/
def pops : Demand → Bool
  | expectAny _ consumes => consumes
  | _ => true

/-- The demand as a step of a parser. -/
def parser : Demand → Parser Token
  | consume => Parser.consume
  | expect kind => Parser.expect kind
  | expectWhere kind test expected => Parser.expectWhere kind test expected
  | expectOr kind test error => Parser.expectOr kind test error
  | expectKeyword word => Parser.expectKeyword word
  | expectAny kinds consumes => Parser.expectAny kinds consumes

end Demand

/-! ## At a cursor -/

/-- A parse that remembers places. -/
structure Session where
  state : ParserState
  marks : List (Cursor × Phase)

/-- The answer of a cursor. -/
def Question.atCursor (c : Cursor) : Question → Answer
  | hasMore => .truth c.hasMore
  | remaining => .tokens c.rest
  | peekNth n => .token ((c.peekNth n).mapError .failed)
  | check kind => .truth (c.check kind)
  | checkValue kind value => .truth (c.checkValue kind value)
  | checkKeyword word => .truth (c.checkKeyword word)

namespace Session

/-- One operation. -/
def step (env : ParserEnv) (s : Session) : CursorOp → Answer × Session
  | .ask q => (q.atCursor s.state.cursor, s)
  | .take d =>
      let (r, state) := d.parser env s.state
      (.token r, { s with state := state })
  | .rewind tokens =>
      (.nothing, { s with state := { s.state with cursor := s.state.cursor.rewind tokens } })
  | .checkpoint => (.nothing, { s with marks := s.marks ++ [(s.state.cursor, s.state.phase)] })
  | .restore n =>
      match s.marks[n]? with
      | some (cursor, phase) =>
          (.nothing, { s with state := { s.state with cursor := cursor, phase := phase } })
      | none => (.nothing, s)

/-- Operations one after another, with their answers. -/
def run (env : ParserEnv) (s : Session) : List CursorOp → List Answer × Session
  | [] => ([], s)
  | op :: ops =>
      let (answer, s) := s.step env op
      let (answers, s) := s.run env ops
      (answer :: answers, s)

end Session

/-! ## In a shared sequence -/

/-- A sequence of tokens and the number of those that are passed. -/
structure TokenStream where
  tokens : List Token
  index : Nat

namespace TokenStream

/-- The tokens that remain. -/
def remaining (s : TokenStream) : List Token := s.tokens.drop s.index

/-- The token `n` places ahead, with the place in a machine word. -/
def peekNth (s : TokenStream) (n : UInt64) : Except Stop Token :=
  match s.tokens[(.ofNat s.index + n : UInt64).toNat]? with
  | some t => .ok t
  | none => .error (.failed .outOfTokens)

/-- The next token. -/
def peek (s : TokenStream) : Except Stop Token :=
  match s.tokens[s.index]? with
  | some t => .ok t
  | none => .error (.failed .outOfTokens)

/-- The next token satisfies `test`. -/
def peekIs (s : TokenStream) (test : Token → Bool) : Bool :=
  match s.peek with
  | .ok t => test t
  | .error _ => false

/-- The answer to a question. -/
def answer (s : TokenStream) : Question → Answer
  | .hasMore => .truth (decide (s.index < s.tokens.length))
  | .remaining => .tokens s.remaining
  | .peekNth n => .token (s.peekNth n)
  | .check kind => .truth (s.peekIs (·.is kind))
  | .checkValue kind value => .truth (s.peekIs (·.isValue kind value))
  | .checkKeyword word => .truth (s.peekIs (·.isValue .keyword word))

/-- A demand on the next token. -/
def take (s : TokenStream) (d : Demand) : Except Stop Token × TokenStream :=
  match s.peek with
  | .error e => (.error e, s)
  | .ok t =>
      if d.accepts t then (.ok t, if d.pops then { s with index := s.index + 1 } else s)
      else (.error (.failed (d.refusal t)), s)

/-- Tokens that agree with those just passed are counted down; others are put in. -/
def rewind (s : TokenStream) (ts : List Token) : TokenStream :=
  if ts.length ≤ s.index ∧
      Token.agreeAll ((s.tokens.take s.index).drop (s.index - ts.length)) ts = true then
    { s with index := s.index - ts.length }
  else { s with tokens := s.tokens.take s.index ++ ts ++ s.tokens.drop s.index }

/-- The number does not exceed the length. -/
def InBounds (s : TokenStream) : Prop := s.index ≤ s.tokens.length

end TokenStream

/-- A stream with the streams that were remembered. -/
structure SharedSession where
  stream : TokenStream
  marks : List TokenStream

namespace SharedSession

/-- One operation. -/
def step (s : SharedSession) : CursorOp → Answer × SharedSession
  | .ask q => (s.stream.answer q, s)
  | .take d =>
      let (r, stream) := s.stream.take d
      (.token r, { s with stream := stream })
  | .rewind tokens => (.nothing, { s with stream := s.stream.rewind tokens })
  | .checkpoint => (.nothing, { s with marks := s.marks ++ [s.stream] })
  | .restore n =>
      match s.marks[n]? with
      | some stream => (.nothing, { s with stream := stream })
      | none => (.nothing, s)

/-- Operations one after another, with their answers. -/
def run (s : SharedSession) : List CursorOp → List Answer × SharedSession
  | [] => ([], s)
  | op :: ops =>
      let (answer, s) := s.step op
      let (answers, s) := s.run ops
      (answer :: answers, s)

/-- All streams are in bounds. -/
structure InBounds (s : SharedSession) : Prop where
  stream : s.stream.InBounds
  marks : ∀ m ∈ s.marks, m.InBounds

end SharedSession

/-! ## On a list -/

/-- The tokens that remain, and those that remained at the places that are remembered. -/
structure Pending where
  rest : List Token
  marks : List (List Token)

/-- The answer of a list of tokens. -/
def Question.onList (l : List Token) : Question → Answer
  | hasMore => .truth !l.isEmpty
  | remaining => .tokens l
  | peekNth n => .token (l[n.toNat]?.elim (.error (.failed .outOfTokens)) .ok)
  | check kind => .truth (l.head?.any (·.is kind))
  | checkValue kind value => .truth (l.head?.any (·.isValue kind value))
  | checkKeyword word => .truth (l.head?.any (·.isValue .keyword word))

/-- A demand on a list of tokens: what meets it is the head, and nothing else is taken away. -/
def Demand.onList (d : Demand) : List Token → Except Stop Token × List Token
  | [] => (.error (.failed .outOfTokens), [])
  | t :: rest =>
      if d.accepts t then (.ok t, if d.pops then rest else t :: rest)
      else (.error (.failed (d.refusal t)), t :: rest)

namespace Pending

/-- One operation on a list.  Tokens that are pushed back stand in front again, or others that agree
with them. -/
inductive Step : Pending → CursorOp → Answer → Pending → Prop
  | ask (l : Pending) (q : Question) : Step l (.ask q) (q.onList l.rest) l
  | take (l : Pending) (d : Demand) :
      Step l (.take d) (.token (d.onList l.rest).1) { l with rest := (d.onList l.rest).2 }
  | rewind (l : Pending) {tokens again : List Token} (h : Token.agreeAll again tokens) :
      Step l (.rewind tokens) .nothing { l with rest := again ++ l.rest }
  | checkpoint (l : Pending) : Step l .checkpoint .nothing { l with marks := l.marks ++ [l.rest] }
  | restore (l : Pending) {n : Nat} {mark : List Token} (h : l.marks[n]? = some mark) :
      Step l (.restore n) .nothing { l with rest := mark }
  | unmarked (l : Pending) {n : Nat} (h : l.marks[n]? = none) : Step l (.restore n) .nothing l

/-- Operations one after another, with their answers. -/
inductive Run : Pending → List CursorOp → List Answer → Pending → Prop
  | done (l : Pending) : Run l [] [] l
  | step {l l' l'' : Pending} {op : CursorOp} {ops : List CursorOp} {answer : Answer}
      {answers : List Answer} (first : Step l op answer l') (rest : Run l' ops answers l'') :
      Run l (op :: ops) (answer :: answers) l''

end Pending

/-- The first operation, and those behind it. -/
theorem Pending.Run.uncons {l l'' : Pending} {op : CursorOp} {ops : List CursorOp} {answer : Answer}
    {answers : List Answer} (h : l.Run (op :: ops) (answer :: answers) l'') :
    ∃ l', l.Step op answer l' ∧ l'.Run ops answers l'' := by
  cases h with
  | step first rest => exact ⟨_, first, rest⟩

/-! ## A cursor is a shared sequence -/

/-- The whole sequence that a cursor stands in. -/
def Cursor.stream (c : Cursor) : TokenStream := ⟨c.consumed.reverse ++ c.rest, c.index⟩

/-- The streams of a session. -/
def Session.shared (s : Session) : SharedSession :=
  ⟨s.state.cursor.stream, s.marks.map fun mark => mark.1.stream⟩

/-- The lists of a session. -/
def Session.pending (s : Session) : Pending :=
  ⟨s.state.cursor.rest, s.marks.map fun mark => mark.1.rest⟩

namespace Token

theorem agrees_refl (t : Token) : t.agrees t = true := by simp [agrees, TokenKind.same]

theorem agreeAll_refl (ts : List Token) : agreeAll ts ts = true := by
  induction ts with
  | nil => rfl
  | cons t ts ih => rw [agreeAll, agrees_refl, ih, Bool.and_self]

theorem length_of_agreeAll {as bs : List Token} (h : agreeAll as bs = true) :
    as.length = bs.length := by
  induction as generalizing bs with
  | nil =>
    cases bs with
    | nil => rfl
    | cons b bs => cases h
  | cons a as ih =>
    cases bs with
    | nil => cases h
    | cons b bs =>
      rw [agreeAll, Bool.and_eq_true] at h
      rw [List.length_cons, List.length_cons, ih h.2]

end Token

namespace Cursor

variable (c : Cursor)

theorem stream_remaining : c.stream.remaining = c.rest := by
  simp [stream, TokenStream.remaining, index]

theorem stream_inBounds : c.stream.InBounds := by
  simp [stream, TokenStream.InBounds, index]

theorem stream_peekNth (n : UInt64) : c.stream.peekNth n = (c.peekNth n).mapError .failed := by
  rw [TokenStream.peekNth, peekNth, stream]
  dsimp only
  cases (c.consumed.reverse ++ c.rest)[(.ofNat c.index + n : UInt64).toNat]? <;> rfl

theorem stream_peek : c.stream.peek = c.peek.mapError .failed := by
  have hnext : c.stream.tokens[c.stream.index]? = c.rest.head? := by
    rw [← c.stream_remaining, TokenStream.remaining, List.head?_drop]
  rw [TokenStream.peek, hnext, peek]
  cases c.rest <;> rfl

theorem stream_peekIs (test : Token → Bool) :
    c.stream.peekIs test = c.rest.head?.any test := by
  rw [TokenStream.peekIs, stream_peek, peek]
  cases c.rest <;> rfl

theorem stream_hasMore : decide (c.stream.index < c.stream.tokens.length) = c.hasMore := by
  rw [hasMore]
  cases hrest : c.rest with
  | nil => simp [stream, index, hrest]
  | cons t rest => simp [stream, index, hrest]

theorem stream_answer (q : Question) : c.stream.answer q = q.atCursor c := by
  cases q with
  | hasMore => exact congrArg Answer.truth c.stream_hasMore
  | remaining => exact congrArg Answer.tokens c.stream_remaining
  | peekNth n => exact congrArg Answer.token (c.stream_peekNth n)
  | check kind => exact congrArg Answer.truth (c.stream_peekIs _)
  | checkValue kind value => exact congrArg Answer.truth (c.stream_peekIs _)
  | checkKeyword word => exact congrArg Answer.truth (c.stream_peekIs _)

/-- What was passed last, latest token last. -/
theorem stream_last (n : Nat) :
    (c.stream.tokens.take c.stream.index).drop (c.stream.index - n) =
      (c.consumed.take n).reverse := by
  have hfront : c.stream.tokens.take c.stream.index = c.consumed.reverse := by
    simp [stream, index]
  rw [hfront, List.reverse_take]
  rfl

theorem stream_rewind (tokens : List Token) :
    (c.rewind tokens).stream = c.stream.rewind tokens := by
  unfold TokenStream.rewind rewind
  rw [stream_last]
  by_cases hagree : Token.agreeAll (c.consumed.take tokens.length).reverse tokens = true
  · have hlength : tokens.length ≤ c.stream.index := by
      have hlast := Token.length_of_agreeAll hagree
      rw [List.length_reverse, List.length_take] at hlast
      change tokens.length ≤ c.consumed.length
      omega
    rw [if_pos hagree, if_pos ⟨hlength, hagree⟩]
    have hsplit : (c.consumed.drop tokens.length).reverse ++
        ((c.consumed.take tokens.length).reverse ++ c.rest) = c.consumed.reverse ++ c.rest := by
      rw [← List.append_assoc, ← List.reverse_append, List.take_append_drop]
    simp only [stream, index, hsplit, List.length_drop]
  · rw [if_neg hagree, if_neg fun h => hagree h.2]
    simp [stream, index]

end Cursor

/-! ## A demand takes the head or nothing -/

/-- A place whose token ahead is consumed. -/
theorem Cursor.stream_pass {c : Cursor} {t : Token} {rest : List Token} (h : c.rest = t :: rest) :
    Cursor.stream ⟨t :: c.consumed, rest⟩ = { c.stream with index := c.stream.index + 1 } := by
  simp [stream, index, h]

variable {env : ParserEnv} {s : ParserState}

theorem Demand.parser_run_nil (d : Demand) (h : s.cursor.rest = []) :
    d.parser env s = (.error (.failed .outOfTokens), s) := by
  cases d with
  | consume =>
    rw [parser]
    exact Parser.consume_run_nil h
  | expectAny kinds consumes =>
    rw [parser, Parser.expectAny, Parser.bind_run, Action.bind_run, Parser.peek_run_nil h]
  | _ =>
    simp only [parser, Parser.expectKeyword, Parser.expect, Parser.expectWhere, Parser.expectOr]
    rw [Parser.bind_run, Action.bind_run, Parser.peek_run_nil h]

theorem Demand.parser_run_cons (d : Demand) {t : Token} {rest : List Token}
    (h : s.cursor.rest = t :: rest) :
    d.parser env s =
      if d.accepts t then
        (.ok t, if d.pops then { s with cursor := ⟨t :: s.cursor.consumed, rest⟩ } else s)
      else (.error (.failed (d.refusal t)), s) := by
  have hor : ∀ kind test error, Parser.expectOr kind test error env s =
      if t.is kind && test t then (.ok t, { s with cursor := ⟨t :: s.cursor.consumed, rest⟩ })
      else (.error (.failed (error t)), s) := by
    intro kind test error
    rw [Parser.expectOr, Parser.bind_run, Action.bind_run, Parser.peek_run h]
    dsimp only
    split
    · exact Parser.consume_run h
    · rfl
  cases d with
  | consume =>
    rw [parser]
    exact Parser.consume_run h
  | expect kind =>
    have hrun := hor kind (fun _ => true) fun t => .unexpected t kind.describe
    rwa [Bool.and_true] at hrun
  | expectWhere kind test expected => exact hor _ _ _
  | expectOr kind test error => exact hor _ _ _
  | expectKeyword word => exact hor _ _ _
  | expectAny kinds consumes =>
    by_cases haccepts : (expectAny kinds consumes).accepts t = true
    · rw [if_pos haccepts, parser, Parser.expectAny, Parser.bind_run, Action.bind_run,
        Parser.peek_run h]
      dsimp only
      rw [if_pos (show kinds.any t.is = true from haccepts)]
      cases consumes with
      | true =>
        rw [if_pos rfl]
        exact Parser.consume_run h
      | false => rfl
    · rw [if_neg haccepts, parser, Parser.expectAny, Parser.bind_run, Action.bind_run,
        Parser.peek_run h]
      dsimp only
      rw [if_neg (show ¬kinds.any t.is = true from haccepts)]
      rfl

/-- A demand changes nothing but the place, and that as it changes a list. -/
theorem Demand.parser_run (d : Demand) (env : ParserEnv) (s : ParserState) :
    ∃ c, d.parser env s = ((d.onList s.cursor.rest).1, { s with cursor := c }) ∧
      c.rest = (d.onList s.cursor.rest).2 ∧
      s.cursor.stream.take d = ((d.onList s.cursor.rest).1, c.stream) := by
  cases hrest : s.cursor.rest with
  | nil =>
    refine ⟨s.cursor, d.parser_run_nil hrest, hrest, ?_⟩
    rw [TokenStream.take, Cursor.stream_peek, Cursor.peek, hrest]
    rfl
  | cons t rest =>
    have hpeek : s.cursor.stream.peek = .ok t := by
      rw [Cursor.stream_peek, Cursor.peek, hrest]
      rfl
    rw [d.parser_run_cons hrest, onList, TokenStream.take, hpeek]
    dsimp only
    by_cases haccepts : d.accepts t = true
    · rw [if_pos haccepts, if_pos haccepts, if_pos haccepts]
      cases hpops : d.pops with
      | true =>
        exact ⟨⟨t :: s.cursor.consumed, rest⟩, rfl, rfl, by rw [Cursor.stream_pass hrest]; rfl⟩
      | false => exact ⟨s.cursor, rfl, hrest, rfl⟩
    · rw [if_neg haccepts, if_neg haccepts, if_neg haccepts]
      exact ⟨s.cursor, rfl, hrest, rfl⟩

/-! ## Counts that overflow -/

/-- The number of tokens passed and the count that is asked for, if one is, fit in a machine
word. -/
def CursorOp.Fits (c : Cursor) : CursorOp → Prop
  | .ask (.peekNth n) => c.index + n.toNat < UInt64.size
  | _ => True

/-- No count that is asked for on the way overflows. -/
def Session.Fits (env : ParserEnv) (s : Session) : List CursorOp → Prop
  | [] => True
  | op :: ops => op.Fits s.state.cursor ∧ (s.step env op).2.Fits env ops

instance (c : Cursor) : (op : CursorOp) → Decidable (op.Fits c)
  | .ask (.peekNth _) => inferInstanceAs (Decidable (_ < _))
  | .ask .hasMore | .ask .remaining | .ask (.check _) | .ask (.checkValue _ _)
  | .ask (.checkKeyword _) | .take _ | .rewind _ | .checkpoint | .restore _ => .isTrue trivial

instance Session.decidableFits (env : ParserEnv) (s : Session) :
    (ops : List CursorOp) → Decidable (s.Fits env ops)
  | [] => .isTrue trivial
  | op :: ops =>
      have := decidableFits env (s.step env op).2 ops
      inferInstanceAs (Decidable (op.Fits s.state.cursor ∧ (s.step env op).2.Fits env ops))

theorem Question.atCursor_eq {q : Question} {c : Cursor} (h : (CursorOp.ask q).Fits c) :
    q.atCursor c = q.onList c.rest := by
  cases q with
  | peekNth n =>
    rw [atCursor, onList, Cursor.peekNth_of_fits h]
    cases c.rest[n.toNat]? <;> rfl
  | _ => rfl

/-- A sum that overflows is the place of a token already passed. -/
theorem Cursor.peekNth_of_overflow {c : Cursor} {n : UInt64} (hindex : c.index < UInt64.size)
    (h : UInt64.size ≤ c.index + n.toNat) :
    ∃ t, c.consumed.reverse[c.index + n.toNat - UInt64.size]? = some t ∧ c.peekNth n = .ok t := by
  have hback : c.index + n.toNat - UInt64.size < c.consumed.reverse.length := by
    have hn := n.toNat_lt_size
    have hlength : c.consumed.reverse.length = c.index := List.length_reverse
    omega
  refine ⟨_, List.getElem?_eq_getElem hback, ?_⟩
  rw [peekNth, toNat_add_of_overflow hindex h, List.getElem?_append_left hback,
    List.getElem?_eq_getElem hback]

/-! ## Sessions -/

/-- Pushing tokens back puts them in front, or the ones that were passed and agree with them. -/
theorem Cursor.rewind_rest (c : Cursor) (tokens : List Token) :
    ∃ again, Token.agreeAll again tokens = true ∧ (c.rewind tokens).rest = again ++ c.rest := by
  unfold rewind
  by_cases hagree : Token.agreeAll (c.consumed.take tokens.length).reverse tokens = true
  · exact ⟨_, hagree, by rw [if_pos hagree]⟩
  · exact ⟨tokens, Token.agreeAll_refl tokens, by rw [if_neg hagree]⟩

namespace Session

/-- An operation does to the shared sequence what it does to the cursor, and to the list if no sum
overflows. -/
theorem step_refines (env : ParserEnv) (s : Session) (op : CursorOp) :
    s.shared.step op = ((s.step env op).1, (s.step env op).2.shared) ∧
      (op.Fits s.state.cursor → s.pending.Step op (s.step env op).1 (s.step env op).2.pending) := by
  cases op with
  | ask q =>
    refine ⟨congrArg (·, s.shared) (s.state.cursor.stream_answer q), fun hfits => ?_⟩
    rw [step, Question.atCursor_eq hfits]
    exact .ask s.pending q
  | take d =>
    obtain ⟨c, hrun, hlist, hstream⟩ := d.parser_run env s.state
    have hstep : s.step env (.take d) = (.token (d.onList s.state.cursor.rest).1,
        { s with state := { s.state with cursor := c } }) := by
      rw [step, hrun]
    rw [hstep]
    refine ⟨?_, fun _ => ?_⟩
    · simp only [SharedSession.step, shared, hstream]
    · have htaken := Pending.Step.take s.pending d
      change Pending.Step _ _ _ ⟨c.rest, _⟩
      rw [hlist]
      exact htaken
  | rewind tokens =>
    refine ⟨?_, fun _ => ?_⟩
    · simp only [SharedSession.step, shared, step, Cursor.stream_rewind]
    · obtain ⟨again, hagree, hrest⟩ := s.state.cursor.rewind_rest tokens
      change Pending.Step _ _ _ ⟨(s.state.cursor.rewind tokens).rest, _⟩
      rw [hrest]
      exact .rewind s.pending hagree
  | checkpoint =>
    refine ⟨?_, fun _ => ?_⟩
    · simp only [SharedSession.step, shared, step, List.map_append, List.map_cons, List.map_nil]
    · have hmarked := Pending.Step.checkpoint s.pending
      simpa only [pending, step, List.map_append, List.map_cons, List.map_nil] using hmarked
  | restore n =>
    have hshared : s.shared.marks[n]? = s.marks[n]?.map fun mark => mark.1.stream :=
      List.getElem?_map
    have hpending : s.pending.marks[n]? = s.marks[n]?.map fun mark => mark.1.rest :=
      List.getElem?_map
    cases hmark : s.marks[n]? with
    | none =>
      rw [hmark] at hshared hpending
      simp only [SharedSession.step, step, hshared, hmark, Option.map_none]
      exact ⟨trivial, fun _ => .unmarked s.pending hpending⟩
    | some mark =>
      rw [hmark] at hshared hpending
      simp only [SharedSession.step, step, hshared, hmark, Option.map_some]
      exact ⟨rfl, fun _ => .restore s.pending hpending⟩

/-- Whatever is asked, taken, pushed back, remembered and returned to, however often and in any
order: the answers are those of a shared sequence with the number of the tokens passed, which
stays in bounds, also at the places remembered.  If no count that is asked for overflows, they are
those of the plain list of the tokens that remain, on which a demand takes the head or nothing,
pushing back puts the tokens in front, and returning to a place makes the list the one that
remained there.  A count that does overflow changes nothing and is answered with a token already
passed, as far back as a word is large. -/
theorem run_refines (env : ParserEnv) (s : Session) (ops : List CursorOp) :
    let (answers, s') := s.run env ops
    (s.shared.run ops = (answers, s'.shared) ∧ s'.shared.InBounds) ∧
      (s.Fits env ops → s.pending.Run ops answers s'.pending) ∧
      ∀ n, let passed := s'.state.cursor.consumed.reverse
        passed.length < UInt64.size → UInt64.size ≤ passed.length + n.toNat →
          ∃ t, passed[passed.length + n.toNat - UInt64.size]? = some t ∧
            s'.step env (.ask (.peekNth n)) = (.token (.ok t), s') := by
  induction ops generalizing s with
  | nil =>
    refine ⟨⟨rfl, s.state.cursor.stream_inBounds, fun m hm => ?_⟩, fun _ => .done _, ?_⟩
    · obtain ⟨mark, -, rfl⟩ := List.mem_map.mp hm
      exact mark.1.stream_inBounds
    · intro n passed hindex hoverflow
      have hlength : passed.length = s.state.cursor.index := List.length_reverse
      rw [hlength] at hindex hoverflow ⊢
      obtain ⟨t, ht, hpeek⟩ := Cursor.peekNth_of_overflow hindex hoverflow
      refine ⟨t, ht, ?_⟩
      rw [step, Question.atCursor, hpeek]
      rfl
  | cons op ops ih =>
    obtain ⟨hshared, hpending⟩ := s.step_refines env op
    obtain ⟨⟨hsharedRun, hbounds⟩, hpendingRun, hoverflow⟩ := ih (s.step env op).2
    refine ⟨⟨?_, hbounds⟩, fun hfits => .step (hpending hfits.1) (hpendingRun hfits.2), hoverflow⟩
    rw [SharedSession.run, hshared]
    dsimp only
    rw [hsharedRun]
    rfl

/-- A parse in front of two names, with no place remembered. -/
def twoNames : Session :=
  let tokens : List Token := [⟨.identifier, "a", .start⟩, ⟨.identifier, "b", ⟨0, 2, 2⟩⟩]
  ⟨⟨.start tokens, .program, .start .builtin⟩, []⟩

/-- A place is remembered, a name put in behind the first one, and the place returned to. -/
def detour : List CursorOp :=
  [.checkpoint, .take .consume, .rewind [⟨.identifier, "c", ⟨0, 4, 4⟩⟩], .ask (.peekNth 1),
    .restore 0, .take .consume]

theorem run_refines_detour :
    let env : ParserEnv := ⟨.empty, id, .default⟩
    let (answers, s') := twoNames.run env detour
    (twoNames.shared.run detour = (answers, s'.shared) ∧ s'.shared.InBounds) ∧
      (twoNames.Fits env detour ∧ twoNames.pending.Run detour answers s'.pending) ∧
      s'.step env (.ask (.peekNth 18446744073709551615)) =
        (.token (.ok ⟨.identifier, "a", .start⟩), s') := by
  intro env
  have hfits : twoNames.Fits env detour := by decide
  obtain ⟨hshared, hlist, hoverflow⟩ := run_refines env twoNames detour
  obtain ⟨t, ht, hpeek⟩ := hoverflow 18446744073709551615 (by decide) (by decide)
  cases ht
  exact ⟨hshared, ⟨hfits, hlist hfits⟩, hpeek⟩

/-- The greatest count, asked for behind one token, leads back to that token.  The list of the
tokens that remain has none so far ahead. -/
theorem run_leaves_list :
    let env : ParserEnv := ⟨.empty, id, .default⟩
    let ops : List CursorOp := [.take .consume, .ask (.peekNth 18446744073709551615)]
    let (answers, s') := twoNames.run env ops
    ¬twoNames.pending.Run ops answers s'.pending := by
  intro env ops hrun
  obtain ⟨l, htaken, hrest⟩ := hrun.uncons
  obtain ⟨l', hasked, -⟩ := hrest.uncons
  cases htaken
  -- The list answers that no tokens are left, so no step answers with a token.
  cases hasked
end Session

end ApiSyntax
