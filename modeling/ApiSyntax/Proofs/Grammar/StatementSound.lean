/-
  ApiSyntax/Proofs/Grammar/StatementSound.lean --- what is read as a statement is one.

  A block reads statements until its closing brace.  Its loop keeps apart what it has
  read as statements and what it has read as the return statement; behind the latter no
  round reads anything.
-/
import ApiSyntax.Proofs.Grammar.ExpressionSound

set_option autoImplicit false

namespace ApiSyntax.Grammar

open ApiSyntax.Language ApiSyntax.Parser

variable {S : Setting} {env : ParserEnv} {read : Production → Parser NodeId} {E A : Phrase}

/-- The type of an assignment, unless the equals sign follows the name. -/
theorem typing_reads (htype : Reads S env (read .type) (One (Typing env))) :
    Reads S env (do if ← check .assign then return none else return some (← read .type))
      (Maybe (Typing env)) := by
  intro s hs
  rw [check_bind]
  cases s.cursor.check .assign with
  | true => exact .pure (Step.refl hs) ⟨none, rfl, rfl, .none⟩
  | false =>
    refine (Step.refl hs).next htype fun id s₁ seg ts hid h₁ => ?_
    obtain ⟨t, rfl, rfl, ht⟩ := hid
    exact .pure h₁ ⟨some t, rfl, rfl, .some ht⟩

theorem assignment_reads (htype : Reads S env (read .type) (One (Typing env)))
    (hread : Reads S env (read .expression) (One E)) :
    Reads S env (assignment read) (One (Statement env E A)) := by
  intro s hs
  unfold assignment
  rw [startToken_bind]
  refine (Step.refl hs).next identifier_reads ?_
  intro _ s₁ _ _ hpost h₁
  obtain ⟨_, rfl, rfl, @⟨name, nid, hname⟩⟩ := hpost
  refine h₁.next (typing_reads htype) fun o s₂ seg ts ho h₂ => ?_
  obtain ⟨ty, rfl, rfl, hty⟩ := ho
  refine h₂.token (expect_reads .assign) fun eq s₃ heq h₃ => ?_
  refine h₃.next hread fun id s₄ rest ts hid h₄ => ?_
  obtain ⟨v, rfl, rfl, hv⟩ := hid
  rw [h₁.startToken]
  have hslots : (nameLeaf nid name :: (ty.toList ++ [v])).map Tree.root =
      nid :: ((ty.map Tree.root).toList ++ [v.root]) := by
    cases ty <;> rfl
  refine h₄.made hslots.symm fun id => ?_
  have hphrase : Statement env E A (name :: (seg ++ eq :: rest))
      (.node id name (.assignment nid (ty.map Tree.root) v.root)
        (nameLeaf nid name :: (ty.toList ++ [v]))) := .assignment hname hty heq hv
  simpa using hphrase

theorem returned_reads (hread : Reads S env (read .expression) (One E)) :
    Reads S env (returned read) (One (Return E)) := by
  intro s hs
  unfold returned
  refine (Step.refl hs).token (expectKeyword_reads "return") fun k s₁ hk h₁ => ?_
  refine h₁.next hread fun id s₂ seg ts hid h₂ => ?_
  obtain ⟨v, rfl, rfl, hv⟩ := hid
  exact h₂.made rfl fun id => .mk hk hv

/-! ## Blocks -/

/-- What a block has read: statements, then possibly a return statement. -/
def BlockRead (G E : Phrase) (b : BlockSoFar) (seg : List Token) (ts : List Tree) : Prop :=
  ∃ (body : List Tree) (ret : Option Tree) (before rest : List Token),
    b = ⟨body.map Tree.root, ret.map Tree.root⟩ ∧ seg = before ++ rest ∧
      ts = body ++ ret.toList ∧ Repeated G before body ∧ Optional (Return E) rest ret

/-- What a block has read, and its closing brace. -/
def BlockClosed (G E : Phrase) (b : BlockSoFar) (seg : List Token) (ts : List Tree) : Prop :=
  ∃ (inner : List Token) (r : Token), seg = inner ++ [r] ∧ r.is .rbrace ∧ BlockRead G E b inner ts

variable {G : Phrase}

theorem blockRound_step {opened : Span} {b s : ParserState} {sofar : BlockSoFar}
    {seg : List Token} {ts : List Tree} (hreturned : Reads S env (read .returned) (One (Return E)))
    (hstatement : Reads S env (statement read) (One G)) (hsofar : BlockRead G E sofar seg ts)
    (h : Step S b s seg ts) :
    Outcome S b (Rounds (BlockRead G E) (BlockClosed G E))
      (blockRound read opened sofar env s) := by
  unfold blockRound
  rw [remaining_bind]
  cases hhead : s.cursor.rest.head? with
  | none => exact .fail h
  | some t =>
    obtain ⟨body, ret, before, rest, rfl, rfl, rfl, hbody, hret⟩ := hsofar
    refine .cond (fun hbrace => ?_) fun _ => .cond (fun _ => .fail h) fun hopen => ?_
    · have hcheck : s.cursor.check .rbrace = true := by
        rw [Cursor.check, hhead]
        exact hbrace
      refine h.consume_checked hcheck fun r s₁ hr h₁ => ?_
      exact .pure h₁ ⟨_, r, rfl, hr, body, ret, before, rest, rfl, rfl, rfl, hbody, hret⟩
    · -- No return statement was read so far.
      cases hret with
      | some _ => exact absurd rfl hopen
      | none =>
        refine .cond (fun _ => ?_) fun _ => ?_
        · refine h.next hreturned fun id s₁ seg₁ ts₁ hid h₁ => ?_
          obtain ⟨u, rfl, rfl, hu⟩ := hid
          exact .pure h₁ ⟨body, some u, before, seg₁, rfl, by simp, by simp, hbody, .some hu⟩
        · refine h.next hstatement fun id s₁ seg₁ ts₁ hid h₁ => ?_
          obtain ⟨u, rfl, rfl, hu⟩ := hid
          refine .pure h₁ ⟨body ++ [u], none, before ++ seg₁, [], ?_, ?_, ?_, ?_, .none⟩
          · simp
          · simp
          · simp
          · exact hbody.snoc hu

theorem blockLoop_reads {opened : Span}
    (hreturned : Reads S env (read .returned) (One (Return E)))
    (hstatement : Reads S env (statement read) (One G)) :
    Reads S env (inPhase .statement (loop (blockRound read opened) ⟨[], none⟩))
      (BlockClosed G E) := by
  refine inPhase_reads (loop_reads (I := BlockRead G E) ?_ ?_) _
  · intro b sofar s seg ts hsofar h
    exact blockRound_step hreturned hstatement hsofar h
  · exact ⟨[], none, [], [], rfl, rfl, rfl, .none, .none⟩

theorem block_reads (hreturned : Reads S env (read .returned) (One (Return E)))
    (hstatement : Reads S env (statement read) (One G)) :
    Reads S env (block read) (One (Block G E)) := by
  intro s hs
  unfold block
  refine (Step.refl hs).token (expect_reads .lbrace) fun l s₁ hl h₁ => ?_
  refine h₁.next (blockLoop_reads hreturned hstatement) fun sofar s₂ seg ts hclosed h₂ => ?_
  obtain ⟨inner, r, rfl, hr, body, ret, before, rest, rfl, rfl, rfl, hbody, hret⟩ := hclosed
  have hslots : (body ++ ret.toList).map Tree.root =
      body.map Tree.root ++ (ret.map Tree.root).toList := by
    cases ret <;> simp
  refine h₂.made hslots.symm fun id => ?_
  cases hret with
  | none =>
    simp only [List.append_nil, Option.toList]
    exact .plain (.mk hl hbody hr)
  | some hlast => exact .returning hl hbody hlast hr

theorem deferred_reads (hblock : Reads S env (read .block) (One (Block (Statement env E A) E))) :
    Reads S env (deferred read) (One (Statement env E A)) := by
  intro s hs
  unfold deferred
  refine (Step.refl hs).token (expectKeyword_reads "defer") fun k s₁ hk h₁ => ?_
  refine h₁.next hblock fun id s₂ seg ts hid h₂ => ?_
  obtain ⟨t, rfl, rfl, ht⟩ := hid
  rw [atArena_bind (h₂.arena.holds List.mem_cons_self).shows.expr]
  cases ht with
  | plain body =>
    cases hbody : body with
    | mk hl hstatements hr => exact h₂.made rfl fun id => .deferred hk (.mk hl hstatements hr)
  | returning =>
    refine h₂.next_result (y := atArena _) rfl fun n _ => ?_
    exact .fail h₂

end ApiSyntax.Grammar
