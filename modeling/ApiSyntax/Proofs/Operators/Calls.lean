/-
  ApiSyntax/Proofs/Operators/Calls.lean --- what a table says of a pair, over whole runs.

  A table changes by declarations and relations only, and a refused one changes nothing.
  A relation puts down two facts, one for each order of the pair.  They are inverse to each
  other, and they stay so: a pair is related once, so no later call writes over one of the
  two without the other.

  A pair of one symbol is the exception.  Its two facts have the one key, and the inverse
  fact is the one that stays.
-/
import ApiSyntax.Operators.Table

set_option autoImplicit false

namespace ApiSyntax.OperatorTable

/-! ## Calls -/

/-- A change that a table may be asked for. -/
inductive Call
  | declare (symbol : String) (fixity : Fixity)
  | relate (left right : String) (p : Precedence)
deriving DecidableEq, Repr, Inhabited

/-- The table with the change made, or why it is refused. -/
def Call.run (c : Call) (t : OperatorTable) : Except Diagnostic OperatorTable :=
  match c with
  | .declare symbol fixity => t.declare symbol fixity
  | .relate left right p => t.relate left right p

/-- The table behind a call.  A refused call leaves it as it was. -/
def after (t : OperatorTable) (c : Call) : OperatorTable :=
  match c.run t with
  | .ok u => u
  | .error _ => t

/-- The table behind calls, made one after another. -/
def afterAll (t : OperatorTable) (calls : List Call) : OperatorTable := calls.foldl after t

/-- Some calls lead from one table to the other. -/
def GrowsTo (t u : OperatorTable) : Prop := ∃ calls, t.afterAll calls = u

variable {t u v : OperatorTable}

theorem after_of_run {c : Call} (h : c.run t = .ok u) : t.after c = u := by
  rw [after, h]

theorem after_of_refused {c : Call} {d : Diagnostic} (h : c.run t = .error d) : t.after c = t := by
  rw [after, h]

/-- A declaration that is not refused puts the symbol in front of the others. -/
theorem eq_of_declare {symbol : String} {fixity : Fixity} (h : t.declare symbol fixity = .ok u) :
    u = { t with declared := (symbol, fixity) :: t.declared } := by
  unfold declare at h
  split at h
  · cases h
  · exact (Except.ok.inj h).symm

/-- A relation that is not refused is about a pair of infix operators of which nothing is known,
and it is recorded. -/
theorem eq_of_relate {left right : String} {p : Precedence} (h : t.relate left right p = .ok u) :
    t.contains left .infixOp ∧ t.contains right .infixOp ∧ t.fact? left right = none ∧
      u = t.record left right p := by
  unfold relate at h
  split at h
  · cases h
  split at h
  · cases h
  split at h
  · cases h
  · next hleft hright hrelated =>
    cases h
    have hnone : t.fact? left right = none := by simpa [isRelated] using hrelated
    exact ⟨by simpa using hleft, by simpa using hright, hnone, rfl⟩

/-- A call is refused, declares a symbol, or relates a pair of which nothing is known. -/
theorem after_cases (t : OperatorTable) (c : Call) :
    t.after c = t ∨
      (∃ symbol fixity, t.after c = { t with declared := (symbol, fixity) :: t.declared }) ∨
      ∃ left right p, t.fact? left right = none ∧ t.after c = t.record left right p := by
  cases hrun : c.run t with
  | error d => exact .inl (after_of_refused hrun)
  | ok u =>
    rw [after_of_run hrun]
    cases c with
    | declare symbol fixity => exact .inr (.inl ⟨symbol, fixity, eq_of_declare hrun⟩)
    | relate left right p =>
      obtain ⟨-, -, hnone, hu⟩ := eq_of_relate hrun
      exact .inr (.inr ⟨left, right, p, hnone, hu⟩)

namespace GrowsTo

theorem refl (t : OperatorTable) : t.GrowsTo t := ⟨[], rfl⟩

theorem trans (h : t.GrowsTo u) (h' : u.GrowsTo v) : t.GrowsTo v := by
  obtain ⟨calls, rfl⟩ := h
  obtain ⟨calls', rfl⟩ := h'
  exact ⟨calls ++ calls', List.foldl_append⟩

theorem of_run {c : Call} (h : c.run t = .ok u) : t.GrowsTo u := ⟨[c], after_of_run h⟩

/-- Calls of which none is refused. -/
theorem of_foldlM {calls : List Call} (h : calls.foldlM (fun t c => c.run t) t = .ok u) :
    t.GrowsTo u := by
  induction calls generalizing t with
  | nil =>
    cases h
    exact refl _
  | cons c calls ih =>
    rw [List.foldlM_cons] at h
    cases hrun : c.run t with
    | error d =>
      rw [hrun] at h
      cases h
    | ok t' =>
      rw [hrun] at h
      exact (of_run hrun).trans (ih h)

/-- What every call keeps is kept over a run. -/
theorem induct {P : OperatorTable → Prop} (hstep : ∀ t c, P t → P (t.after c))
    (h : t.GrowsTo u) (ht : P t) : P u := by
  obtain ⟨calls, rfl⟩ := h
  induction calls generalizing t with
  | nil => exact ht
  | cons c calls ih => exact ih (hstep t c ht)

/-- A symbol that is declared stays declared. -/
theorem contains (h : t.GrowsTo u) {symbol : String} {fixity : Fixity}
    (hs : t.contains symbol fixity) : u.contains symbol fixity := by
  apply h.induct fun t c ht => _
  · exact hs
  · intro t c ht
    obtain hc | ⟨symbol', fixity', hc⟩ | ⟨left, right, p, -, hc⟩ := after_cases t c
    · rwa [hc]
    · rw [hc]
      simp only [OperatorTable.contains, List.contains_iff_mem] at ht ⊢
      exact List.mem_cons_of_mem _ ht
    · rw [hc, OperatorTable.contains, record]
      split <;> exact ht

end GrowsTo

/-! ## The facts of a pair -/

/-- A new fact is the one found for its pair; for other pairs the older ones count. -/
theorem fact?_cons (t : OperatorTable) (f : Fact) (a b : String) :
    fact? { t with facts := f :: t.facts } a b =
      if f.owner = a ∧ f.other = b then some f.precedence else t.fact? a b := by
  unfold fact?
  rw [List.find?_cons]
  by_cases h : f.owner = a ∧ f.other = b
  · simp [h]
  · rw [if_neg h]
    have hne : (f.owner == a && f.other == b) = false := by simpa using h
    rw [hne]

/-- Other pairs keep what is known of them. -/
theorem fact?_record_of_ne (t : OperatorTable) (p : Precedence) {left right a b : String}
    (h : ¬(left = a ∧ right = b)) (h' : ¬(right = a ∧ left = b)) :
    (t.record left right p).fact? a b = t.fact? a b := by
  unfold record
  split
  · rw [fact?_cons, if_neg h']
  · rw [fact?_cons { t with facts := ⟨left, right, p⟩ :: t.facts }, if_neg h', fact?_cons,
      if_neg h]

/-- What is known of a pair of two symbols is known both ways. -/
def Mutual (t : OperatorTable) : Prop :=
  ∀ a b, a ≠ b → t.fact? b a = (t.fact? a b).map Precedence.inverse

theorem mutual_empty : Mutual empty := fun _ _ _ => rfl

/-- A relation writes the facts of both orders of its pair, and of no other pair. -/
theorem Mutual.record (h : t.Mutual) (left right : String) (p : Precedence) :
    (t.record left right p).Mutual := by
  intro a b hab
  by_cases hpair : left = a ∧ right = b
  · obtain ⟨rfl, rfl⟩ := hpair
    rw [fact?_record_left t hab, fact?_record_right t hab, Option.map_some]
  · by_cases hswapped : right = a ∧ left = b
    · obtain ⟨rfl, rfl⟩ := hswapped
      rw [fact?_record_left t hab.symm, fact?_record_right t hab.symm, Option.map_some,
        Precedence.inverse_inverse]
    · rw [fact?_record_of_ne t p hpair hswapped,
        fact?_record_of_ne t p (fun h => hswapped h.symm) (fun h => hpair h.symm)]
      exact h a b hab

theorem mutual_builtin : Mutual builtin := by
  have hfold : ∀ (pairs : List (String × String)) (t : OperatorTable), t.Mutual →
      (pairs.foldl (fun t pair => t.record pair.1 pair.2 .greater) t).Mutual := by
    intro pairs
    induction pairs with
    | nil => exact fun _ h => h
    | cons pair pairs ih => exact fun t h => ih _ (h.record pair.1 pair.2 .greater)
  apply hfold
  exact mutual_empty

theorem Mutual.after (h : t.Mutual) (c : Call) : (t.after c).Mutual := by
  obtain hc | ⟨symbol, fixity, hc⟩ | ⟨left, right, p, -, hc⟩ := after_cases t c
  · rwa [hc]
  · rw [hc]
    exact h
  · rw [hc]
    exact h.record left right p

/-- What is known of a pair stays known: a call about the pair is refused, in either order. -/
theorem Mutual.fact?_after (h : t.Mutual) (c : Call) {a b : String} {p : Precedence}
    (hab : t.fact? a b = some p) : (t.after c).fact? a b = some p := by
  obtain hc | ⟨symbol, fixity, hc⟩ | ⟨left, right, p', hnone, hc⟩ := after_cases t c
  · rwa [hc]
  · rw [hc]
    exact hab
  · rw [hc]
    have hpair : ¬(left = a ∧ right = b) := by
      rintro ⟨rfl, rfl⟩
      rw [hnone] at hab
      cases hab
    have hswapped : ¬(right = a ∧ left = b) := by
      rintro ⟨rfl, rfl⟩
      by_cases hsame : left = right
      · exact hpair ⟨hsame, hsame.symm⟩
      · rw [h left right hsame, hnone] at hab
        cases hab
    rwa [fact?_record_of_ne t p' hpair hswapped]

theorem Mutual.precedence (h : t.Mutual) {a b : String} (hab : a ≠ b) :
    t.precedence b a = (t.precedence a b).inverse := by
  rw [OperatorTable.precedence, OperatorTable.precedence, h a b hab]
  cases t.fact? a b <;> rfl

/-! ## Whole runs -/

/-- A relation that is not refused holds for its pair, and for a pair of one symbol its inverse
does. -/
theorem precedence_relate {a b : String} {p : Precedence} (h : t.relate a b p = .ok u) :
    u.precedence a b = if a = b then p.inverse else p := by
  obtain ⟨-, -, -, hu⟩ := eq_of_relate h
  subst hu
  by_cases hab : a = b
  · subst hab
    rw [if_pos rfl, precedence, fact?_record_self, Option.getD_some]
  · rw [if_neg hab, precedence, fact?_record_left t hab, Option.getD_some]

/-- However a table was made, what is known of a pair is known both ways. -/
theorem mutual_of_growsTo {base : OperatorTable} (hbase : base = empty ∨ base = builtin)
    (h : base.GrowsTo t) : t.Mutual := by
  apply h.induct fun t c ht => Mutual.after ht c
  rcases hbase with rfl | rfl
  · exact mutual_empty
  · exact mutual_builtin

/-- Calls take no fact away and change none. -/
theorem GrowsTo.fact? (h : t.GrowsTo u) (ht : t.Mutual) {a b : String} {p : Precedence}
    (hab : t.fact? a b = some p) : u.fact? a b = some p := by
  have hboth : u.Mutual ∧ u.fact? a b = some p := by
    apply h.induct fun t c ht => ?_
    · exact ⟨ht, hab⟩
    · exact ⟨ht.1.after c, ht.1.fact?_after c ht.2⟩
  exact hboth.2

/-- However a table was made, the precedences of two symbols are inverse to each other, and a
relation that is not refused says what it was asked to say. -/
theorem precedence_consistent {base : OperatorTable} (hbase : base = empty ∨ base = builtin)
    (h : base.GrowsTo t) :
    (∀ a b, a ≠ b → t.precedence b a = (t.precedence a b).inverse) ∧
      ∀ a b p u, a ≠ b → t.relate a b p = .ok u → u.precedence a b = p := by
  have hmutual : t.Mutual := mutual_of_growsTo hbase h
  constructor
  · intro a b hab
    exact hmutual.precedence hab
  · intro a b p u hab hrelate
    rw [precedence_relate hrelate, if_neg hab]

/-- The two parts, where a new operator binds tighter than multiplication. -/
theorem precedence_consistent_power :
    let t := builtin.afterAll [.declare "^" .infixOp, .relate "^" "*" .greater]
    t.precedence "*" "^" = .lesser ∧
      ∀ u, t.relate "^" "+" .greater = .ok u → u.precedence "^" "+" = .greater := by
  intro t
  have h := precedence_consistent (t := t) (.inr rfl) ⟨_, rfl⟩
  constructor
  · rw [h.1 "^" "*" (by decide)]
    decide +kernel
  · intro u hu
    exact h.2 "^" "+" .greater u (by decide) hu

/-- A symbol that is related to itself binds as the inverse says, and the fact is not its own
inverse. -/
theorem precedence_relate_itself :
    ∃ u, builtin.relate "+" "+" .greater = .ok u ∧ u.precedence "+" "+" = .lesser ∧
      u.precedence "+" "+" ≠ (u.precedence "+" "+").inverse := by
  apply Exists.intro (builtin.record "+" "+" .greater)
  constructor
  · rfl
  constructor
  · decide +kernel
  · decide +kernel

end ApiSyntax.OperatorTable
