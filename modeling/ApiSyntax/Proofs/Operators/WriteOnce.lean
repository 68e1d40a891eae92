/-
  ApiSyntax/Proofs/Operators/WriteOnce.lean --- operator facts are written once.

  Seen from its operators, a table says who is related to whom.  Every fact is about two
  declared infix operators, since a relation asks for both, and the facts of the two orders of
  a pair come together.  So a relation tests one order of its pair and still writes over
  nothing in either.
-/
import ApiSyntax.Workspace
import ApiSyntax.Proofs.Operators.Calls

set_option autoImplicit false

namespace ApiSyntax.OperatorTable

variable {t u : OperatorTable}

/-! ## Operators and facts -/

theorem contains_of_get {a : String} {f : Fixity} {op : Operator} (h : t.get a f = .ok op) :
    t.contains a f := by
  unfold get at h
  split at h
  · assumption
  · cases h

theorem get_of_contains {a : String} {f : Fixity} (h : t.contains a f) :
    t.get a f = .ok ⟨a, f, t.relationshipsOf a f⟩ := by
  rw [get, if_pos h]

theorem eq_of_get {a : String} {f : Fixity} {op : Operator} (h : t.get a f = .ok op) :
    op = ⟨a, f, t.relationshipsOf a f⟩ := by
  rw [get_of_contains (contains_of_get h)] at h
  exact (Except.ok.inj h).symm

/-- The first fact that an operator owns about another is the first of the table about the
pair. -/
theorem find?_relationshipsOf (t : OperatorTable) (a b : String) :
    (((t.relationshipsOf a .infixOp).find? fun r => r.1 == b).map (·.2)) = t.fact? a b := by
  have hkey : (fun f : Fact => decide ((f.owner == a) = true ∧ (f.other == b) = true)) =
      fun f => f.owner == a && f.other == b := by
    funext f
    rw [Bool.decide_and, Bool.decide_coe, Bool.decide_coe]
  rw [relationshipsOf, fact?, List.find?_map, List.find?_filter, Option.map_map, ← hkey]
  rfl

/-- An operator is related to another when it is an infix operator and the table has a fact
about the pair. -/
theorem isRelatedTo_iff {a b : String} {f : Fixity} {op : Operator} (h : t.get a f = .ok op) :
    op.isRelatedTo b ↔ f = .infixOp ∧ ∃ p, t.fact? a b = some p := by
  rw [eq_of_get h, Operator.isRelatedTo]
  cases f with
  | prefixOp => simp [relationshipsOf]
  | infixOp =>
    rw [← find?_relationshipsOf, ← Option.isSome_map (f := fun r : String × Precedence => r.2),
      Option.isSome_iff_exists]
    exact ⟨fun hp => ⟨rfl, hp⟩, fun hp => hp.2⟩

/-- An infix operator binds relative to another as the table's fact says. -/
theorem relationship_of_fact? {a b : String} {op : Operator} {p : Precedence}
    (h : t.get a .infixOp = .ok op) (hp : t.fact? a b = some p) : op.relationship b = p := by
  rw [eq_of_get h, Operator.relationship, find?_relationshipsOf, hp, Option.getD_some]

/-! ## Facts are about infix operators -/

/-- Every fact is about two declared infix operators. -/
def Grounded (t : OperatorTable) : Prop :=
  ∀ f ∈ t.facts, t.contains f.owner .infixOp ∧ t.contains f.other .infixOp

theorem grounded_empty : Grounded empty := fun _ hf => nomatch hf

theorem grounded_builtin : Grounded builtin := by
  unfold Grounded
  decide +kernel

/-- The pair of a new fact is looked up before the fact is written. -/
theorem Grounded.after (h : t.Grounded) (c : Call) : (t.after c).Grounded := by
  have hgrow : t.GrowsTo (t.after c) := ⟨[c], rfl⟩
  have hold : ∀ f ∈ t.facts,
      (t.after c).contains f.owner .infixOp ∧ (t.after c).contains f.other .infixOp :=
    fun f hf => ⟨hgrow.contains (h f hf).1, hgrow.contains (h f hf).2⟩
  cases hrun : c.run t with
  | error d =>
    rw [after_of_refused hrun]
    exact h
  | ok u =>
    rw [after_of_run hrun] at hgrow hold ⊢
    cases c with
    | declare symbol fixity =>
      rw [eq_of_declare hrun] at hold ⊢
      exact hold
    | relate left right p =>
      obtain ⟨hleft, hright, -, hu⟩ := eq_of_relate hrun
      have hboth : u.contains left .infixOp ∧ u.contains right .infixOp :=
        ⟨hgrow.contains hleft, hgrow.contains hright⟩
      intro f hf
      rw [hu, record] at hf
      split at hf
      · rcases List.mem_cons.mp hf with rfl | hf
        · exact hboth.symm
        · exact hold f hf
      · rcases List.mem_cons.mp hf with rfl | hf
        · exact hboth.symm
        rcases List.mem_cons.mp hf with rfl | hf
        · exact hboth
        · exact hold f hf

theorem grounded_of_growsTo {base : OperatorTable} (hbase : base = empty ∨ base = builtin)
    (h : base.GrowsTo t) : t.Grounded := by
  apply h.induct fun t c ht => Grounded.after ht c
  rcases hbase with rfl | rfl
  · exact grounded_empty
  · exact grounded_builtin

/-- What a fact is about has been declared. -/
theorem Grounded.contains (h : t.Grounded) {a b : String} {p : Precedence}
    (hab : t.fact? a b = some p) : t.contains a .infixOp ∧ t.contains b .infixOp := by
  obtain ⟨f, hf, -⟩ := Option.map_eq_some_iff.mp hab
  have hkey : f.owner = a ∧ f.other = b := by simpa using List.find?_some hf
  rw [← hkey.1, ← hkey.2]
  exact h f (List.mem_of_find?_eq_some hf)

/-- A fact about a pair comes with a fact about the swapped pair. -/
theorem Mutual.swap (h : t.Mutual) {a b : String} {p : Precedence}
    (hab : t.fact? a b = some p) : ∃ q, t.fact? b a = some q := by
  by_cases hsame : a = b
  · subst hsame
    exact ⟨p, hab⟩
  · exact ⟨p.inverse, by rw [h a b hsame, hab, Option.map_some]⟩

/-! ## Refusals -/

/-- The infix operator of one symbol is related to another symbol. -/
def Related (t : OperatorTable) (a b : String) : Prop :=
  ∃ op, t.get a .infixOp = .ok op ∧ op.isRelatedTo b

theorem Grounded.related_iff (h : t.Grounded) {a b : String} :
    t.Related a b ↔ ∃ p, t.fact? a b = some p := by
  constructor
  · rintro ⟨op, hop, hab⟩
    exact ((isRelatedTo_iff hop).mp hab).2
  · rintro ⟨p, hp⟩
    have hop := get_of_contains (h.contains hp).1
    exact ⟨_, hop, (isRelatedTo_iff hop).mpr ⟨rfl, p, hp⟩⟩

theorem refused_declare_iff {symbol : String} {fixity : Fixity} :
    (∃ d, t.declare symbol fixity = .error d) ↔ t.contains symbol fixity := by
  unfold declare
  split
  · next hs => exact ⟨fun _ => hs, fun _ => ⟨_, rfl⟩⟩
  · next hs =>
    constructor
    · rintro ⟨d, hd⟩
      cases hd
    · exact fun hs' => absurd hs' hs

/-- A relation tests the one order of its pair, and that is enough. -/
theorem refused_relate_iff (hmutual : t.Mutual) (hground : t.Grounded) {left right : String}
    {p : Precedence} :
    (∃ d, t.relate left right p = .error d) ↔
      ¬t.contains left .infixOp ∨ ¬t.contains right .infixOp ∨
        t.Related left right ∨ t.Related right left := by
  rw [hground.related_iff, hground.related_iff]
  constructor
  · rintro ⟨d, hd⟩
    by_cases hleft : t.contains left .infixOp
    · by_cases hright : t.contains right .infixOp
      · cases hfact : t.fact? left right with
        | some q => exact .inr (.inr (.inl ⟨q, rfl⟩))
        | none =>
          rw [relate, isRelated, hleft, hright, hfact] at hd
          cases hd
      · exact .inr (.inl hright)
    · exact .inl hleft
  · intro hcause
    cases hrun : t.relate left right p with
    | error d => exact ⟨d, rfl⟩
    | ok u =>
      obtain ⟨hleft, hright, hnone, -⟩ := eq_of_relate hrun
      have hfree : ¬∃ q, t.fact? left right = some q := by
        rintro ⟨q, hq⟩
        rw [hnone] at hq
        cases hq
      rcases hcause with h | h | h | ⟨q, hq⟩
      · exact absurd hleft h
      · exact absurd hright h
      · exact absurd h hfree
      · exact absurd (hmutual.swap hq) hfree

/-- Why a call is refused: the operator is there already, a symbol is no infix operator, or the
pair is related in one of its orders. -/
def Call.Barred (t : OperatorTable) : Call → Prop
  | .declare symbol fixity => t.contains symbol fixity
  | .relate left right _ =>
      ¬t.contains left .infixOp ∨ ¬t.contains right .infixOp ∨
        t.Related left right ∨ t.Related right left

theorem refused_iff_barred (hmutual : t.Mutual) (hground : t.Grounded) (c : Call) :
    (∃ d, c.run t = .error d) ↔ c.Barred t := by
  cases c with
  | declare symbol fixity => exact refused_declare_iff
  | relate left right p => exact refused_relate_iff hmutual hground

/-! ## The calls as they are made -/

/-- A call, made on the table of a workspace. -/
def Call.perform : Call → Action Workspace Diagnostic Unit
  | .declare symbol fixity => Workspace.declare symbol fixity
  | .relate left right p => Workspace.relate left right p

/-- The event of a call that is not refused. -/
def Call.event : Call → Event
  | .declare symbol fixity => .declared symbol fixity
  | .relate left right p => .related left right p

/-- A call changes the table and leaves its event, or it is refused and changes nothing. -/
theorem Call.perform_run (c : Call) (w : Workspace) :
    c.perform w = match c.run w.operators with
      | .ok u => (.ok (), { w with operators := u, events := w.events.push c.event })
      | .error d => (.error d, w) := by
  cases c with
  | declare symbol fixity =>
    simp only [perform, Workspace.declare, Action.bind_run, Action.tryChange, run, event]
    cases w.operators.declare symbol fixity <;> rfl
  | relate left right p =>
    simp only [perform, Workspace.relate, Action.bind_run, Action.tryChange, run, event]
    cases w.operators.relate left right p <;> rfl

theorem Call.perform_operators (c : Call) (w : Workspace) :
    (c.perform w).2.operators = w.operators.after c := by
  rw [perform_run, after]
  cases c.run w.operators <;> rfl

theorem Call.perform_refused {c : Call} {w : Workspace} {d : Diagnostic}
    (h : (c.perform w).1 = .error d) : c.run w.operators = .error d ∧ (c.perform w).2 = w := by
  rw [perform_run] at h ⊢
  cases hrun : c.run w.operators with
  | ok u =>
    rw [hrun] at h
    cases h
  | error d' =>
    rw [hrun] at h
    exact ⟨congrArg Except.error (Except.error.inj h), rfl⟩

theorem Call.perform_refused_iff (c : Call) (w : Workspace) :
    (∃ d, (c.perform w).1 = .error d) ↔ ∃ d, c.run w.operators = .error d := by
  constructor
  · rintro ⟨d, hd⟩
    exact ⟨d, (perform_refused hd).1⟩
  · rintro ⟨d, hd⟩
    rw [perform_run, hd]
    exact ⟨d, rfl⟩

/-! ## Whole runs -/

/-- Later calls keep an operator, and they keep what it is related to and how. -/
theorem get_of_growsTo (hmutual : t.Mutual) (h : t.GrowsTo u) {a : String} {f : Fixity}
    {op : Operator} (hop : t.get a f = .ok op) :
    ∃ op', u.get a f = .ok op' ∧ ∀ b, op.isRelatedTo b →
      op'.isRelatedTo b ∧ op'.relationship b = op.relationship b := by
  have hop' := get_of_contains (h.contains (contains_of_get hop))
  refine ⟨_, hop', fun b hb => ?_⟩
  obtain ⟨rfl, p, hp⟩ := (isRelatedTo_iff hop).mp hb
  have hlater : u.fact? a b = some p := h.fact? hmutual hp
  constructor
  · exact (isRelatedTo_iff hop').mpr ⟨rfl, p, hlater⟩
  · rw [relationship_of_fact? hop' hlater, relationship_of_fact? hop hp]

/-- However a table was made: operators are related both ways, and only infix operators are;
later calls take no operator and no relation away and change none; a call on the table is
refused exactly when it would write again or when a symbol is no infix operator, and a refused
call leaves everything as it was. -/
theorem written_once {base : OperatorTable} (hbase : base = empty ∨ base = builtin)
    (h : base.GrowsTo t) :
    (∀ a f op b, t.get a f = .ok op → op.isRelatedTo b → f = .infixOp ∧ t.Related b a) ∧
    (∀ u, t.GrowsTo u → ∀ a f op, t.get a f = .ok op →
      ∃ op', u.get a f = .ok op' ∧ ∀ b, op.isRelatedTo b →
        op'.isRelatedTo b ∧ op'.relationship b = op.relationship b) ∧
    ∀ (c : Call) (w : Workspace), w.operators = t →
      (c.perform w).2.operators = t.after c ∧
      ((∃ d, (c.perform w).1 = .error d) ↔ c.Barred t) ∧
      ∀ d, (c.perform w).1 = .error d → (c.perform w).2 = w := by
  have hmutual : t.Mutual := mutual_of_growsTo hbase h
  have hground : t.Grounded := grounded_of_growsTo hbase h
  refine ⟨fun a f op b hop hab => ?_, fun u hu a f op hop => get_of_growsTo hmutual hu hop,
    fun c w hw => ?_⟩
  · obtain ⟨hdeclared, p, hp⟩ := (isRelatedTo_iff hop).mp hab
    exact ⟨hdeclared, hground.related_iff.mpr (hmutual.swap hp)⟩
  · subst hw
    refine ⟨c.perform_operators w, ?_, fun d hd => (Call.perform_refused hd).2⟩
    rw [c.perform_refused_iff w]
    exact refused_iff_barred hmutual hground c

/-- A new operator is related to multiplication once: the relation is seen from both sides, a
later one keeps it, and relating the two again the other way around is refused. -/
theorem written_once_power :
    let t := builtin.afterAll [.declare "^" .infixOp, .relate "^" "*" .greater]
    t.Related "*" "^" ∧
      (∃ op, (t.after (.relate "*" "^" .greater)).get "^" .infixOp = .ok op ∧
        op.relationship "*" = .greater) ∧
      ∃ d, ((Call.relate "*" "^" .greater).perform (.start t)).1 = .error d := by
  intro t
  have hall := written_once (t := t) (.inr rfl) ⟨_, rfl⟩
  let op : Operator := ⟨"^", .infixOp, [("*", .greater)]⟩
  have hop : t.get "^" .infixOp = .ok op := by rfl
  have hback : t.Related "*" "^" := (hall.1 "^" .infixOp op "*" hop (by decide +kernel)).2
  refine ⟨hback, ?_, ?_⟩
  · have hgrow : t.GrowsTo (t.after (.relate "*" "^" .greater)) :=
      ⟨[.relate "*" "^" .greater], rfl⟩
    obtain ⟨op', hop', hkept⟩ := hall.2.1 _ hgrow "^" .infixOp op hop
    exact ⟨op', hop', (hkept "*" (by decide +kernel)).2⟩
  · exact ((hall.2.2 (.relate "*" "^" .greater) (.start t) rfl).2.1).mpr
      (.inr (.inr (.inl hback)))

end ApiSyntax.OperatorTable
