/-
  ApiSyntax/Proofs/Grammar/SourceOrder.lean --- the children of a program's nodes stand in order.

  Tokens are cut from front to back, and every production of the grammar hands on that what it
  reads is in its place.  So in the tree of a text that is accepted the children of each node
  are in the order that its contents list them in.  For most nodes that is the order of the
  text; for instance signatures, types with properties, their constructors and programs with
  an annotation behind an API it is not.
-/
import ApiSyntax.Proofs.Grammar.Goals
import ApiSyntax.Proofs.Grammar.Placed
import ApiSyntax.Proofs.Grammar.WellKinded

set_option autoImplicit false

namespace ApiSyntax

open ApiSyntax.Arena ApiSyntax.Language ApiSyntax.Parser Relation

namespace Grammar

variable {env : ParserEnv}

/-! ## Productions -/

theorem AnnotationCall.placed {seg : List Token} {t : Tree} (h : AnnotationCall Placed seg t) :
    Placed seg t := by
  cases h with
  | mk _ parameters =>
    refine .plain (Row.widen ?_ ((List.sublist_append_right ..).cons _)) List.mem_cons_self rfl
    cases parameters with
    | none => exact .nil
    | some items => exact items.row fun _ _ => id

/-- Every production reads what is in its place, whatever annotations do to the operators. -/
theorem sound_placed (hext : env.extensions = .builtin) (depth : Nat) :
    Sound .any env Placed Placed (readN depth) := by
  have hplaced : ∀ (seg : List Token) (t : Tree), Placed seg t → Placed seg t := fun _ _ => id
  refine sound_readN (expression_reads_of fun _ _ _ => Expression.placed) (fun read h => ?_) depth
  have hparams := parameter_reads h (fun _ _ => Declaration.placed hplaced hplaced)
    (fun _ _ => Signature.placed) hplaced
  exact (annotationCall_reads (fun _ => trivial) (keepsArena_of_builtin hext) hparams).imp
    fun _ _ => AnnotationCall.placed

/-- A program that is read strictly from tokens in order is a tree whose nodes list their children in
order. -/
theorem program_arranged (hext : env.extensions = .builtin) (hstrict : env.config.permissive = false)
    {s s' : ParserState} {root : NodeId} (hsorted : Sorted s.cursor.rest)
    (hrun : Production.program.parse env s = (.ok root, s')) :
    ∃ t, t.root = root ∧ s'.work.arena.Holds t ∧ t.IsArranged := by
  have hread := program_outcome (sound_placed hext (4 * s.cursor.rest.length + 7))
    (⟨trivial, fun _ _ => trivial⟩ : Setting.any.Fits s)
  rw [← program_parse_run, hrun] at hread
  obtain ⟨seg, ts, step, us, t, rfl, rfl, -, hparts, ht⟩ := hread.of_ok
  have hplaced : ∀ (seg : List Token) (t : Tree), Placed seg t → Placed seg t := fun _ _ => id
  have hrow := (hparts hstrict).row fun _ _ => TopLevel.placed hplaced hplaced
  refine ⟨t, rfl, step.arena.holds List.mem_cons_self, ?_⟩
  rw [ht]
  exact arranged_program hrow hsorted

end Grammar

/-! ## Source texts -/

namespace Reading

/-- In a text that is accepted as a program, the children of each node that can be reached from the
root are in the order that its contents have them in: no token below an earlier one stands behind all
tokens below a later one. -/
theorem ofSource_arranged {source : List Char} {root : NodeId}
    (h : (ofSource .program source).root = .ok root) {id : NodeId} {n : Node}
    (hreach : ReflTransGen (ofSource .program source).work.arena.Child root id)
    (hn : (ofSource .program source).work.arena.node? id = some n) :
    n.expr.Arranged ((ofSource .program source).work.arena.Makes root id)
      (ofSource .program source).work.arena.NotBehind n.expr.children := by
  obtain ⟨tokens, behind, s, hcut, hrun, harena, -⟩ := ofSource_cut h
  have hsorted : Sorted tokens := by
    unfold Tokenizer.tokenizeWithEnd at hcut
    dsimp only at hcut
    split at hcut
    · cases hcut
      exact (Tokenizer.tokensFrom_sorted _ _).2
    · cases hcut
  obtain ⟨t, rfl, hholds, harranged⟩ :=
    Grammar.program_arranged (by rfl) (by rfl) (by exact hsorted) hrun
  rw [harena] at hreach hn ⊢
  exact hholds.arranged harranged hreach hn

/-- An instance signature, and an annotation behind the API. -/
def scattered : List Char :=
  ("api A \x7b (s T) add (y Int) (Int) \x7b return y \x7d \x7d " ++
    "@Operator.Infix((A) ++ (b A))").toList

theorem ofSource_arranged_scattered :
    let a := (ofSource .program scattered).work.arena
    ∃ root n, (ofSource .program scattered).root = .ok root ∧ ReflTransGen a.Child root root ∧
      a.node? root = some n ∧ n.expr.Arranged (a.Makes root root) a.NotBehind n.expr.children := by
  intro a
  have hread : ((ofSource .program scattered).root.toOption.any fun root =>
      (a.node? root).isSome) = true := by
    decide +kernel
  obtain ⟨root, hroot, hsome⟩ := exists_root_any hread
  obtain ⟨n, hn⟩ := Option.isSome_iff_exists.mp hsome
  exact ⟨root, n, hroot, .refl, hn, ofSource_arranged hroot .refl hn⟩

/-- An annotation behind the only API. -/
def annotatedLast : List Char := "api A \x7b\x7d @Operator.Infix((A) ++ (b A))".toList

/-- The program lists its annotation first, all of whose tokens stand behind the API. -/
theorem ofSource_annotation_first :
    let a := (ofSource .program annotatedLast).work.arena
    ∃ root n, (ofSource .program annotatedLast).root = .ok root ∧ a.node? root = some n ∧
      ¬ n.expr.children.Pairwise a.NotBehind := by
  intro a
  have hread : ((ofSource .program annotatedLast).root.toOption.any fun root =>
      (a.node? root).any fun n => n.expr.children == [⟨14⟩, ⟨1⟩]) = true := by
    decide +kernel
  obtain ⟨root, hroot, hnode⟩ := exists_root_any hread
  obtain ⟨n, hn, hchildren⟩ := (Option.any_eq_true _ _).mp hnode
  refine ⟨root, n, hroot, hn, fun hpairs => ?_⟩
  rw [eq_of_beq hchildren, List.pairwise_pair] at hpairs
  have hapi : 0 ∈ a.offsets ⟨1⟩ := by
    have hoffset : (a.node? ⟨1⟩).any (fun n => n.token.span.offset == 0) = true := by
      decide +kernel
    obtain ⟨m, hm, hzero⟩ := (Option.any_eq_true _ _).mp hoffset
    exact ⟨_, m, .refl, hm, eq_of_beq hzero⟩
  have hclosed : ∀ n ∈ a.nodes, 0 < n.token.span.offset → ∀ c ∈ n.expr.children,
      ∀ m ∈ a.node? c, 0 < m.token.span.offset := by
    decide +kernel
  have hcall : ∃ m ∈ a.node? ⟨14⟩, 0 < m.token.span.offset := by decide +kernel
  obtain ⟨m, hm, hpos⟩ := hcall
  exact Arena.not_notBehind hapi (Arena.lt_of_mem_offsets hclosed hm hpos) hpairs

end Reading

end ApiSyntax
