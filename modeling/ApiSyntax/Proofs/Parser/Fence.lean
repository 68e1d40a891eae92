/-
  ApiSyntax/Proofs/Parser/Fence.lean --- two runs up to the closing bracket.

  Two runs read the same tokens up to the bracket that closes the first one opened, and other
  tokens behind it.  Up to that bracket neither of them sees what is behind: the bracket still
  stands ahead, and no rule looks past it.  The first run has no more tokens behind the bracket
  than the second, and may give up on its bound.

  The same couples two runs over the same tokens behind different pasts, where all that counts of
  a past is the last token, and that only at the end.
-/
import ApiSyntax.Proofs.Parser.Tandem

set_option autoImplicit false

namespace ApiSyntax

open ApiSyntax.Action

/-! ## What is told of tokens passed over -/

/-- What a run told of tokens that it passed over. -/
def Workspace.discards (w : Workspace) : List Event := w.events.toList.filter Event.isDiscarded

theorem Workspace.discards_push (w : Workspace) (e : Event) :
    discards { w with events := w.events.push e } =
      w.discards ++ [e].filter Event.isDiscarded := by
  rw [discards, discards, Array.toList_push, List.filter_append]

/-- The same was built, and of tokens passed over the second run told `told`. -/
structure Workspace.Agrees (told : List Event) (w v : Workspace) : Prop where
  arena : w.arena = v.arena
  operators : w.operators = v.operators
  discards : v.discards = told

namespace Workspace.Agrees

variable {told : List Event} {w v : Workspace} {α : Type}

theorem note {e e' : Event} (h : w.Agrees told v) (he : e'.isDiscarded = false) :
    Agrees told { w with events := w.events.push e } { v with events := v.events.push e' } := by
  refine ⟨h.arena, h.operators, ?_⟩
  rw [discards_push, List.filter_singleton, he]
  exact (List.append_nil _).trans h.discards

/-! ### Extensions -/

theorem ask (f : Arena → Except Diagnostic α) :
    Mirrors (Agrees told) Eq Eq (Workspace.ask fun w => f w.arena)
      (Workspace.ask fun w => f w.arena) := by
  intro w v h
  unfold Workspace.ask
  dsimp only
  rw [h.arena]
  cases f v.arena with
  | ok a => exact ⟨.ok rfl, h⟩
  | error d => exact ⟨.error rfl, h⟩

theorem mismatched (name : String) (parameters : List NodeKind) (s : Site) (given : List NodeId) :
    Mirrors (Agrees told) Eq (Eq : Unit → Unit → Prop)
      (Workspace.ask fun w => .error (Extension.arityMismatch name parameters s given w.arena))
      (Workspace.ask fun w => .error (Extension.arityMismatch name parameters s given w.arena)) :=
  ask fun a => .error (Extension.arityMismatch name parameters s given a)

theorem placing (s : Site) {x y : Action Workspace Diagnostic α}
    (hxy : Mirrors (Agrees told) Eq Eq x y) :
    Mirrors (Agrees told) Eq Eq (s.placing x) (s.placing y) := by
  intro w v h
  unfold Site.placing
  rw [h.arena]
  exact hxy.mapError (fun _ _ hd => congrArg _ hd) w v h

/-- A change of the operators, and the event that tells of it. -/
theorem change (f : OperatorTable → Except Diagnostic OperatorTable) {e : Event}
    (he : e.isDiscarded = false) :
    Mirrors (Agrees told) Eq Eq
      (Action.tryChange (fun w => (f w.operators).map ({ w with operators := · })) >>= fun _ =>
        Workspace.note e)
      (Action.tryChange (fun w => (f w.operators).map ({ w with operators := · })) >>= fun _ =>
        Workspace.note e) := by
  refine Mirrors.next (fun w v h => ?_) fun _ => fun w v h => ⟨.ok rfl, h.note he⟩
  unfold Action.tryChange
  dsimp only
  rw [h.operators]
  cases f v.operators with
  | error d => exact ⟨.error rfl, h⟩
  | ok table => exact ⟨.ok rfl, h.arena, rfl, h.discards⟩

/-- An extension of the language does the same in both runs. -/
theorem invoke {name : String} {e : Extension} (hget : Registry.builtin.get? name = some e)
    (s : Site) (params : List NodeId) :
    Mirrors (Agrees told) Eq Eq (e.invoke s params) (e.invoke s params) := by
  have hdeclaring : ∀ name fixity, Mirrors (Agrees told) Eq Eq
      ((Extension.declaring name fixity).invoke s params)
      ((Extension.declaring name fixity).invoke s params) := by
    intro name fixity
    rcases params with _ | ⟨sig, _ | ⟨other, rest⟩⟩
    · exact mismatched _ _ s _
    · exact (ask (s.signatureName · sig)).next fun symbol =>
        placing s (change (·.declare symbol fixity) rfl)
    · exact mismatched _ _ s _
  have hbinding : ∀ name, Mirrors (Agrees told) Eq Eq
      ((Extension.binding name).invoke s params) ((Extension.binding name).invoke s params) := by
    intro name
    rcases params with _ | ⟨tighter, _ | ⟨looser, _ | ⟨other, rest⟩⟩⟩
    · exact mismatched _ _ s _
    · exact mismatched _ _ s _
    · refine (ask (s.signatureName · tighter)).next fun left => ?_
      exact (ask (s.signatureName · looser)).next fun right =>
        placing s (change (·.relate left right .greater) rfl)
    · exact mismatched _ _ s _
  obtain ⟨-, rfl | rfl | rfl⟩ := Registry.get?_builtin hget
  · exact hdeclaring _ _
  · exact hdeclaring _ _
  · exact hbinding _

end Workspace.Agrees

/-! ## Places -/

/-- Behind the first bracket, which `seg` leads up to and over, `c` has `tail` ahead and `d` has
`tail'`; or nothing is behind `seg`, and at its end the last token is the same. -/
inductive Fenced (l : Level) (seg tail tail' : List Token) (c d : Cursor) : Prop
  | closing (hclosing : l.after seg = .behind)
  | whole (htail : tail = []) (htail' : tail' = [])
      (hlast : seg = [] → c.consumed.head? = d.consumed.head?)
  | unknown (hlost : l = .lost)

namespace Coupling

/-- A run over tokens with `tail` behind a bracket, beside one over the same tokens with `tail'`
behind it. -/
def fence (first second : ParserEnv) (tail tail' : List Token) (told : List Event) : Coupling where
  first := first
  second := second
  Places m c d := ∃ seg, c.rest = seg ++ tail ∧ d.rest = seg ++ tail' ∧
    Fenced m.level seg tail tail' c d
  Work := Workspace.Agrees told
  lenient := True

variable {first second : ParserEnv} {tail tail' : List Token} {told : List Event} {m : Mark}
  {c d : Cursor}

/-- Up to the closing bracket the same tokens stand ahead. -/
theorem fence_ahead (h : (fence first second tail tail' told).Places m c d) (hm : m.Peeks) :
    SameAhead c.rest d.rest := by
  obtain ⟨seg, hc, hd, hfenced⟩ := h
  rw [hc, hd]
  cases hfenced with
  | whole htail htail' _ =>
    subst htail htail'
    exact .refl _
  | unknown hlost =>
    rw [Mark.Peeks, hlost] at hm
    exact hm.elim
  | closing hclosing =>
    obtain ⟨t, rest, rfl⟩ := hm.exists_cons hclosing
    refine ⟨rfl, fun u ts us hts hus hu => ?_⟩
    cases hts
    cases hus
    obtain ⟨v, rest, rfl⟩ := (hm.turn hu).exists_cons hclosing
    rfl

theorem fence_startToken (h : (fence first second tail tail' told).Places m c d) (hm : m.Peeks) :
    c.startToken = d.startToken := by
  obtain ⟨seg, hc, hd, hfenced⟩ := h
  rw [Cursor.startToken, Cursor.startToken, hc, hd]
  cases hfenced with
  | whole htail htail' hlast =>
    subst htail htail'
    cases seg with
    | nil => rw [hlast rfl]
    | cons t rest => rfl
  | unknown hlost =>
    rw [Mark.Peeks, hlost] at hm
    exact hm.elim
  | closing hclosing =>
    obtain ⟨t, rest, rfl⟩ := hm.exists_cons hclosing
    rfl

/-- Both runs pass the token that stands ahead, and it is one of those they share. -/
theorem fence_pass {t : Token} {p q ts us : List Token}
    (h : (fence first second tail tail' told).Places m ⟨p, t :: ts⟩ ⟨q, t :: us⟩) (hm : m.Peeks) :
    (fence first second tail tail' told).Places (m.turn t.bracket) ⟨t :: p, ts⟩ ⟨t :: q, us⟩ := by
  obtain ⟨seg, hc, hd, hfenced⟩ := h
  cases hfenced with
  | whole htail htail' _ =>
    subst htail htail'
    cases seg with
    | nil => cases hc
    | cons u rest =>
      cases hc
      cases hd
      exact ⟨_, (List.append_nil _).symm, (List.append_nil _).symm, .whole rfl rfl fun _ => rfl⟩
  | unknown hlost =>
    rw [Mark.Peeks, hlost] at hm
    exact hm.elim
  | closing hclosing =>
    obtain ⟨u, rest, rfl⟩ := hm.exists_cons hclosing
    cases hc
    cases hd
    exact ⟨rest, rfl, rfl, .closing hclosing⟩

/-- A run with no more tokens behind the bracket. -/
theorem fence_lawful (hfirst : first.extensions = .builtin) (hsecond : second.extensions = .builtin)
    (htype : Grammar.typeName second = Grammar.typeName first)
    (htail : tail.length ≤ tail'.length) : (fence first second tail tail' told).Lawful where
  extensions := hsecond.trans hfirst.symm
  typeName := htype
  forget := by
    rintro m m' c d ⟨seg, hc, hd, hfenced⟩ hle
    refine ⟨seg, hc, hd, ?_⟩
    obtain hlost | hsame := hle.level
    · exact .unknown hlost
    · exact hsame ▸ hfenced
  ahead := fence_ahead
  startToken := fence_startToken
  pass := fence_pass
  length := by
    rintro m c d ⟨seg, hc, hd, -⟩
    refine .inr ⟨trivial, ?_⟩
    rw [hc, hd, List.length_append, List.length_append]
    omega
  arena h := h.arena
  operators h := h.operators
  onArena h a := ⟨rfl, h.operators, h.discards⟩
  note h htold _ := h.note htold
  rewound h _ why := h.note rfl
  invoke hget site params := Workspace.Agrees.invoke (hfirst ▸ hget) site params

end Coupling

end ApiSyntax
