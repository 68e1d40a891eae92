/-
  ApiSyntax/Operators/Table.lean --- the declared operators and what is known of each pair.

  No operator has a precedence number.  A table is a set of declared symbols and a
  set of facts, one for each ordered pair about which something was said; a pair
  about which nothing was said binds equally.  Both sets only grow: a symbol is
  declared once for each fixity, and a pair is related once.
-/
import ApiSyntax.Diagnostic
import ApiSyntax.Json

set_option autoImplicit false

namespace ApiSyntax

/-- One fact: how `owner` binds relative to `other`. -/
structure Fact where
  owner : String
  other : String
  precedence : Precedence
deriving DecidableEq, Repr, Inhabited

/-- One operator with the facts that it owns. -/
structure Operator where
  symbol : String
  fixity : Fixity
  relationships : List (String × Precedence)
deriving DecidableEq, Repr, Inhabited

/-- The declared operators and the facts about pairs of infix operators, latest first. -/
structure OperatorTable where
  declared : List (String × Fixity)
  facts : List Fact
deriving DecidableEq, Repr, Inhabited

namespace OperatorTable

/-- The table that knows nothing. -/
def empty : OperatorTable := ⟨[], []⟩

/-! ## Looking up -/

/-- The symbol is declared with this fixity. -/
def contains (t : OperatorTable) (symbol : String) (fixity : Fixity) : Bool :=
  t.declared.contains (symbol, fixity)

/-- The number of declarations. -/
def size (t : OperatorTable) : Nat := t.declared.length

/-- What the table says about the ordered pair, if anything. -/
def fact? (t : OperatorTable) (owner other : String) : Option Precedence :=
  (t.facts.find? fun f => f.owner == owner && f.other == other).map (·.precedence)

/-- Something is known about the ordered pair. -/
def isRelated (t : OperatorTable) (owner other : String) : Bool := (t.fact? owner other).isSome

/-- How `left` binds relative to `right`. -/
def precedence (t : OperatorTable) (left right : String) : Precedence :=
  (t.fact? left right).getD .equal

/-- The facts that an operator owns.  Only infix operators own facts. -/
def relationshipsOf (t : OperatorTable) (symbol : String) : Fixity → List (String × Precedence)
  | .prefixOp => []
  | .infixOp =>
      (t.facts.filter fun f => f.owner == symbol).map fun f => (f.other, f.precedence)

/-- The operator that a symbol stands for with this fixity. -/
def get (t : OperatorTable) (symbol : String) (fixity : Fixity) : Except Diagnostic Operator :=
  if t.contains symbol fixity then .ok ⟨symbol, fixity, t.relationshipsOf symbol fixity⟩
  else .error (.of (.unknownOperator symbol fixity))

/-! ## Growing -/

/-- The symbol becomes an operator.  It must not be one of this fixity already. -/
def declare (t : OperatorTable) (symbol : String) (fixity : Fixity) :
    Except Diagnostic OperatorTable :=
  if t.contains symbol fixity then .error (.of (.alreadyDeclaredOperator symbol))
  else .ok { t with declared := (symbol, fixity) :: t.declared }

/-- The fact about the pair and the inverse fact about the swapped pair.  For a pair of one
symbol both facts have the one key, and the inverse fact stays. -/
def record (t : OperatorTable) (left right : String) (p : Precedence) : OperatorTable :=
  if left = right then { t with facts := ⟨right, left, p.inverse⟩ :: t.facts }
  else { t with facts := ⟨right, left, p.inverse⟩ :: ⟨left, right, p⟩ :: t.facts }

/-- `left` binds relative to `right` as `p` says.  Both must be infix operators, and nothing
must be known about the pair. -/
def relate (t : OperatorTable) (left right : String) (p : Precedence) :
    Except Diagnostic OperatorTable :=
  if !t.contains left .infixOp then .error (.of (.unknownOperator left .infixOp))
  else if !t.contains right .infixOp then .error (.of (.unknownOperator right .infixOp))
  else if t.isRelated left right then .error (.of (.alreadyRelated left right))
  else .ok (t.record left right p)

/-! ## The operators that every source text knows -/

/-- The infix operators in tiers, the tightest tier first.  Operators of one tier are not
related. -/
def builtinTiers : List (List String) :=
  [["*", "/", "%"], ["+", "-"], ["<", ">", "<=", ">=", "==", "!="], ["&&"], ["||"]]

/-- The prefix operators. -/
def builtinPrefixes : List String := ["-", "!"]

/-- The pairs of operators of which the first stands in an earlier tier. -/
def tighterPairs : List (List String) → List (String × String)
  | [] => []
  | tier :: looser =>
      (tier.flatMap fun a => looser.flatten.map fun b => (a, b)) ++ tighterPairs looser

/-- The table of the arithmetic, comparison and logical operators. -/
def builtin : OperatorTable :=
  (tighterPairs builtinTiers).foldl (fun t pair => t.record pair.1 pair.2 .greater)
    ⟨builtinPrefixes.map (·, .prefixOp) ++ builtinTiers.flatten.map (·, .infixOp), []⟩

/-! ## Documents -/

/-- The symbols declared with this fixity, in the order of characters. -/
def symbols (t : OperatorTable) (fixity : Fixity) : List String :=
  ((t.declared.filter fun d => d.2 == fixity).map (·.1)).mergeSort fun a b => decide (a ≤ b)

/-- Facts in the order of their owners, then of the others. -/
def sortFacts (facts : List Fact) : List Fact :=
  facts.mergeSort fun a b => decide (a.owner < b.owner) ||
    (a.owner == b.owner && decide (a.other ≤ b.other))

/-- What a table has beyond another one. -/
structure Growth where
  prefixes : List String
  infixes : List String
  facts : List Fact
deriving DecidableEq, Repr

/-- The operators that `base` does not have, and the facts that it lacks or has differently. -/
def growth (t base : OperatorTable) : Growth :=
  { prefixes := (t.symbols .prefixOp).filter fun s => !base.contains s .prefixOp
    infixes := (t.symbols .infixOp).filter fun s => !base.contains s .infixOp
    facts := (sortFacts t.facts).filter fun f =>
      base.fact? f.owner f.other != some f.precedence }

/-- The document form of one operator. -/
def operatorJson (op : Operator) : Json :=
  .object [("symbol", .text op.symbol), ("fixity", .text op.fixity.name),
    ("relationships", .object (op.relationships.map fun r => (r.1, .text r.2.name)))]

/-- The document form of the operators of one fixity. -/
def fixityJson (t : OperatorTable) (fixity : Fixity) : Json :=
  .object ((t.symbols fixity).map fun s =>
    (s, operatorJson ⟨s, fixity, t.relationshipsOf s fixity⟩))

/-- The document form of the whole table. -/
def toJson (t : OperatorTable) : Json :=
  .object [("prefix", t.fixityJson .prefixOp), ("infix", t.fixityJson .infixOp)]

/-! ## First facts -/

theorem contains_declare {t u : OperatorTable} {s : String} {f : Fixity}
    (h : t.declare s f = .ok u) (s' : String) (f' : Fixity) :
    u.contains s' f' = (decide ((s', f') = (s, f)) || t.contains s' f') := by
  unfold declare at h
  split at h
  · cases h
  · injection h with h
    subst h
    simp [contains]

theorem fact?_record_self (t : OperatorTable) (a : String) (p : Precedence) :
    (t.record a a p).fact? a a = some p.inverse := by
  simp [record, fact?]

theorem fact?_record_left (t : OperatorTable) {a b : String} (h : a ≠ b) (p : Precedence) :
    (t.record a b p).fact? a b = some p := by
  simp [record, fact?, h, h.symm]

theorem fact?_record_right (t : OperatorTable) {a b : String} (h : a ≠ b) (p : Precedence) :
    (t.record a b p).fact? b a = some p.inverse := by
  simp [record, fact?, h]

end OperatorTable

/-- How an operator binds relative to another, read from the facts it owns. -/
def Operator.relationship (op : Operator) (other : String) : Precedence :=
  ((op.relationships.find? fun r => r.1 == other).map (·.2)).getD .equal

/-- The operator owns a fact about `other`. -/
def Operator.isRelatedTo (op : Operator) (other : String) : Bool :=
  (op.relationships.find? fun r => r.1 == other).isSome

end ApiSyntax
