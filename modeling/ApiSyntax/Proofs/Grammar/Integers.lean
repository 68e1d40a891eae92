/-
  ApiSyntax/Proofs/Grammar/Integers.lean --- which integers can be written.

  The minus of an integer below zero is an operator of its own, and the digits behind it
  are read as a 64-bit integer by themselves.  So what can be written is a number up to the
  greatest 64-bit integer, or a minus and such a number.  The least 64-bit integer is
  neither: its digits stand for one more than the greatest, and the reading fails there.

  Main statement: `int64_expression`.
-/
import ApiSyntax.Proofs.Grammar.DeclaredOperators
import ApiSyntax.Proofs.Grammar.QualifiedNames
import ApiSyntax.Proofs.Tokenizer.Digits

set_option autoImplicit false

namespace ApiSyntax

open ApiSyntax.Arena ApiSyntax.Grammar ApiSyntax.Language ApiSyntax.Parser ApiSyntax.Production
  ApiSyntax.Tokenizer

variable {S : Setting} {env : ParserEnv} {table : OperatorTable} {s : ParserState}
  {read : Production → Parser NodeId} {rest tokens : List Token} {t op : Token} {d : Diagnostic}
  {value : Int} {u : List Char}

/-! ## Literals without a value -/

section

-- Which production is chosen is computed from the kinds of the first tokens.
attribute [local simp] operands applies trigger startsWith startsWithPair TokenKind.same
  TokenKind.name

theorem filter_integer (ht : t.is .integer) :
    operands.filter (applies (t :: rest)) = [.intLiteral] := by
  simp [Token.is_of_is ht]

theorem filter_unary (hop : op.is .operator) :
    operands.filter (applies (op :: rest)) = [.unary] := by
  simp [Token.is_of_is hop]

end

theorem intLiteral_refuses (hs : S.Fits s) (hrest : s.cursor.rest = t :: rest)
    (ht : t.is .integer) (hvalue : readInt64 t.value.toList = none) :
    Refuses intLiteral env s (invalidLiteral t) := by
  refine (expect_accepts hs hrest ht).bind_refuses fun token s₁ _ _ htoken => ?_
  subst htoken
  rw [hvalue]
  exact .fail

theorem operand_refuses_integer (hs : S.Fits s) (hrest : s.cursor.rest = t :: rest)
    (ht : t.is .integer) (hvalue : readInt64 t.value.toList = none) :
    Refuses (operand (step read)) env s (invalidLiteral t) := by
  have hone : operands.filter (applies s.cursor.rest) = [.intLiteral] := by
    rw [hrest]
    exact filter_integer ht
  exact choice_refuses hone (intLiteral_refuses hs hrest ht hvalue)

/-- The failure of an operand behind a prefix operator is handed on. -/
theorem operand_refuses_prefixed (hS : ∀ t, S.Tables t → t = table) (hs : S.Fits s)
    (hrest : s.cursor.rest = op :: rest) (hop : op.is .operator)
    (hdeclared : table.contains op.value .prefixOp)
    (hoperand : ∀ s', S.Fits s' → s'.cursor.rest = rest → Refuses (operand read) env s' d) :
    Refuses (operand (step read)) env s d := by
  have hone : operands.filter (applies s.cursor.rest) = [.unary] := by
    rw [hrest]
    exact filter_unary hop
  refine choice_refuses hone ?_
  exact (operator_accepts hS hs hrest hop hdeclared).bind_refuses
    fun _ s₁ hs₁ hrest₁ _ => (hoperand s₁ hs₁ hrest₁).bind

/-- An expression fails as its first operand does. -/
theorem goal_expression_refuses
    (h : ∀ depth, Refuses (operand (readN (depth + 2))) env (.start tokens table) d) :
    Refuses Goal.expression.parse env (.start tokens table) d := by
  have hoperand : Refuses (operand (readN (4 * tokens.length + 7))) env (.start tokens table) d :=
    h (4 * tokens.length + 5)
  have hexpression : Refuses Production.expression.parse env (.start tokens table) d :=
    hoperand.bind.of_eq (production_run _ _)
  exact hexpression.bind

/-! ## Texts -/

/-- What is refused is what reading a text of these tokens ends with. -/
theorem Reading.ofSource_refused {source : List Char} (hcut : builtin.tokenize source = .ok tokens)
    (h : Refuses Goal.expression.parse .standard (.start tokens .builtin) d) :
    (Reading.ofSource .expression source).root = .error (.failed d) := by
  obtain ⟨s, hrun⟩ := h
  exact (Reading.ofSource_of_run hcut hrun).1

theorem readInt64_ofList (h : IsDigits u) :
    readInt64 (String.ofList u).toList =
      if decimalValue u ≤ 0x7fffffffffffffff then some (decimalValue u : Int) else none := by
  rw [String.toList_ofList, readInt64_digits h]

/-- A run of digits is read as the number that it stands for, up to the greatest 64-bit integer; a
greater one is refused. -/
theorem ofSource_digits (h : IsDigits u) :
    let reading := Reading.ofSource .expression u
    (decimalValue u ≤ 0x7fffffffffffffff → ∃ root, reading.root = .ok root ∧
      reading.work.arena.expr root = .ok (.intLiteral (decimalValue u))) ∧
    (0x7fffffffffffffff < decimalValue u →
      reading.root = .error (.failed (invalidLiteral ⟨.integer, String.ofList u, .start⟩))) := by
  have hcut := tokenize_digits h
  have hvalue := readInt64_ofList h
  refine ⟨fun hin => ?_, fun hout => ?_⟩
  · rw [if_pos hin] at hvalue
    have hliteral : Operand .standard .builtin [⟨.integer, String.ofList u, .start⟩]
        (.leaf default _ (.intLiteral (decimalValue u))) := .int rfl hvalue
    obtain ⟨root, s, hrun, hexpr⟩ := goal_expression_leaf hliteral rfl
    obtain ⟨hroot, harena⟩ := Reading.ofSource_of_run hcut hrun
    exact ⟨root, hroot, harena ▸ hexpr⟩
  · rw [if_neg (Nat.not_le.mpr hout)] at hvalue
    exact Reading.ofSource_refused hcut (goal_expression_refuses fun depth =>
      operand_refuses_integer (fixed_fits _) rfl rfl hvalue)

/-- A minus in front of it is an operator over that number, and hands on the failure. -/
theorem ofSource_minus (h : IsDigits u) :
    let reading := Reading.ofSource .expression ('-' :: u)
    (decimalValue u ≤ 0x7fffffffffffffff → ∃ root r, reading.root = .ok root ∧
      reading.work.arena.expr root = .ok (.unary "-" r) ∧
      reading.work.arena.expr r = .ok (.intLiteral (decimalValue u))) ∧
    (0x7fffffffffffffff < decimalValue u →
      reading.root = .error (.failed (invalidLiteral ⟨.integer, String.ofList u, ⟨0, 1, 1⟩⟩))) := by
  have hdeclared : OperatorTable.builtin.contains "-" .prefixOp := by decide
  have hcut := tokenize_minus h
  have hvalue := readInt64_ofList h
  refine ⟨fun hin => ?_, fun hout => ?_⟩
  · rw [if_pos hin] at hvalue
    have hoperand : Operand .standard .builtin [⟨.integer, String.ofList u, ⟨0, 1, 1⟩⟩]
        (.leaf default _ (.intLiteral (decimalValue u))) := .int rfl hvalue
    have hop : Token.is ⟨.operator, "-", .start⟩ .operator := rfl
    obtain ⟨root, r, s, hrun, hexpr, hliteral⟩ :=
      goal_expression_prefixed hop hdeclared hoperand rfl
    obtain ⟨hroot, harena⟩ := Reading.ofSource_of_run hcut hrun
    exact ⟨root, r, hroot, harena ▸ hexpr, harena ▸ hliteral⟩
  · rw [if_neg (Nat.not_le.mpr hout)] at hvalue
    refine Reading.ofSource_refused hcut (goal_expression_refuses fun depth => ?_)
    exact operand_refuses_prefixed (fun _ htable => htable) (fixed_fits _) rfl rfl hdeclared
      fun s hs hrest => operand_refuses_integer hs hrest rfl hvalue

/-! ## 64-bit integers -/

/-- The least 64-bit integer. -/
def leastInt64 : Int := -0x8000000000000000

/-- The node stands for an integer: a literal, or a minus in front of one. -/
def Arena.Writes (arena : Arena) (v : Int) (id : NodeId) : Prop :=
  if 0 ≤ v then arena.expr id = .ok (.intLiteral v)
  else ∃ r, arena.expr id = .ok (.unary "-" r) ∧ arena.expr r = .ok (.intLiteral (-v))

variable {v : Int}

theorem inInt64_iff : inInt64 v = true ↔ leastInt64 ≤ v ∧ v ≤ 0x7fffffffffffffff := by
  rw [inInt64, Bool.and_eq_true, decide_eq_true_eq, decide_eq_true_eq, leastInt64]
  omega

/-- The decimal text of a number up to the greatest 64-bit integer is read as its literal. -/
theorem ofSource_nonneg (h : 0 ≤ v) (hin : v ≤ 0x7fffffffffffffff) :
    let reading := Reading.ofSource .expression (toString v).toList
    ∃ root, reading.root = .ok root ∧ reading.work.arena.Writes v root := by
  have hvalue : (decimalValue (decimalDigits v.toNat) : Int) = v := by
    rw [decimalValue_decimalDigits, Int.toNat_of_nonneg h]
  obtain ⟨root, hroot, hexpr⟩ := (ofSource_digits (isDigits_decimalDigits v.toNat)).1 (by omega)
  rw [hvalue] at hexpr
  rw [toList_toString_of_nonneg h]
  refine ⟨root, hroot, ?_⟩
  rwa [Arena.Writes, if_pos h]

/-- The decimal text of the opposite of one that is not zero is read as a minus over a literal. -/
theorem ofSource_neg (h : v < 0) (hin : -v ≤ 0x7fffffffffffffff) :
    let reading := Reading.ofSource .expression (toString v).toList
    ∃ root, reading.root = .ok root ∧ reading.work.arena.Writes v root := by
  have hvalue : (decimalValue (decimalDigits (-v).toNat) : Int) = -v := by
    rw [decimalValue_decimalDigits, Int.toNat_of_nonneg (by omega)]
  obtain ⟨root, r, hroot, hexpr, hliteral⟩ :=
    (ofSource_minus (isDigits_decimalDigits (-v).toNat)).1 (by omega)
  rw [hvalue] at hliteral
  rw [toList_toString_of_neg h]
  refine ⟨root, hroot, ?_⟩
  rw [Arena.Writes, if_neg (Int.not_le.mpr h)]
  exact ⟨r, hexpr, hliteral⟩

/-- The digits of the least 64-bit integer are refused. -/
theorem ofSource_least :
    (Reading.ofSource .expression (toString leastInt64).toList).root =
      .error (.failed (invalidLiteral ⟨.integer, "9223372036854775808", ⟨0, 1, 1⟩⟩)) := by
  have hout : 0x7fffffffffffffff < decimalValue (decimalDigits 0x8000000000000000) := by
    rw [decimalValue_decimalDigits]
    decide
  have hdigits : String.ofList (decimalDigits 0x8000000000000000) = "9223372036854775808" := by
    decide
  have hrefused := (ofSource_minus (isDigits_decimalDigits 0x8000000000000000)).2 hout
  rw [hdigits] at hrefused
  rw [toList_toString_of_neg (by decide)]
  exact hrefused

/-- The decimal text of a 64-bit integer is read as that integer, as a literal if it is not below
zero and else as a minus over a literal, unless it is the least one.  Digits that stand for more
than the greatest 64-bit integer are refused as a literal without a value, alone and behind a
minus, and those of the least one are such. -/
theorem int64_expression :
    (∀ v, inInt64 v = true →
      let reading := Reading.ofSource .expression (toString v).toList
      ((∃ root, reading.root = .ok root ∧ reading.work.arena.Writes v root) ↔ v ≠ leastInt64)) ∧
    (∀ u, IsDigits u → 0x7fffffffffffffff < decimalValue u →
      (Reading.ofSource .expression u).root =
          .error (.failed (invalidLiteral ⟨.integer, String.ofList u, .start⟩)) ∧
        (Reading.ofSource .expression ('-' :: u)).root =
          .error (.failed (invalidLiteral ⟨.integer, String.ofList u, ⟨0, 1, 1⟩⟩))) ∧
    (Reading.ofSource .expression (toString leastInt64).toList).root =
      .error (.failed (invalidLiteral ⟨.integer, "9223372036854775808", ⟨0, 1, 1⟩⟩)) := by
  refine ⟨fun v hv => ⟨?_, fun hleast => ?_⟩, fun u hu hout => ?_, ofSource_least⟩
  · rintro ⟨root, hroot, -⟩ rfl
    cases hroot.symm.trans ofSource_least
  · obtain ⟨hlow, hhigh⟩ := inInt64_iff.mp hv
    by_cases hsign : 0 ≤ v
    · exact ofSource_nonneg hsign hhigh
    · have habove : leastInt64 < v := lt_of_le_of_ne hlow hleast.symm
      rw [leastInt64] at habove
      exact ofSource_neg (Int.not_le.mp hsign) (by omega)
  · exact ⟨(ofSource_digits hu).2 hout, (ofSource_minus hu).2 hout⟩

/-- Both ends of the range that can be written, and a number above it behind zeros. -/
theorem int64_expression_ends :
    (∃ root, (Reading.ofSource .expression "9223372036854775807".toList).root = .ok root ∧
      (Reading.ofSource .expression "9223372036854775807".toList).work.arena.Writes
        0x7fffffffffffffff root) ∧
    (∃ root, (Reading.ofSource .expression "-9223372036854775807".toList).root = .ok root ∧
      (Reading.ofSource .expression "-9223372036854775807".toList).work.arena.Writes
        (-0x7fffffffffffffff) root) ∧
    (Reading.ofSource .expression "0009223372036854775808".toList).root =
      .error (.failed (invalidLiteral ⟨.integer, "0009223372036854775808", .start⟩)) := by
  obtain ⟨hwritten, hrefused, -⟩ := int64_expression
  have hmost : (toString (0x7fffffffffffffff : Int)).toList = "9223372036854775807".toList := by
    decide
  have hbelow : (toString (-0x7fffffffffffffff : Int)).toList = "-9223372036854775807".toList := by
    decide
  have hdigits : IsDigits "0009223372036854775808".toList :=
    ⟨by decide, List.all_eq_true.mp (by decide)⟩
  refine ⟨?_, ?_, ?_⟩
  · rw [← hmost]
    exact (hwritten _ (by decide)).mpr (by decide)
  · rw [← hbelow]
    exact (hwritten _ (by decide)).mpr (by decide)
  · exact (hrefused _ hdigits (by decide)).1

/-- The least 64-bit integer cannot be written. -/
theorem int64_expression_least : ¬ ∀ v, inInt64 v = true →
    ∃ root, (Reading.ofSource .expression (toString v).toList).root = .ok root ∧
      (Reading.ofSource .expression (toString v).toList).work.arena.Writes v root := by
  intro hclaim
  obtain ⟨root, hroot, -⟩ := hclaim leastInt64 (by decide)
  cases hroot.symm.trans ofSource_least

end ApiSyntax
