/-
  ApiSyntax/Proofs/Arena/Duplicate.lean --- copies of subtrees that the arena has in full.

  When every slot holds a node of the arena, copying what is free of loops succeeds.  The
  copy shares nothing with what was copied, and nothing within itself: a node that was
  reached on several ways is copied once for each of them.
-/
import ApiSyntax.Proofs.Arena.CopyDepth

set_option autoImplicit false

namespace ApiSyntax.Arena

open Relation

/-- In an arena without foreign handles, a handle that is free of loops is copied.  All old nodes are
as they were, and the new ones carry their handles.  Below the copy stands what stood below the
handle, without tags and without an old node; and every new node but the copy is in one slot of the
arena. -/
theorem duplicate_isolated {a : Arena} {id : NodeId} (hinside : ∀ c ∈ a.slots, c.index < a.size)
    (hid : id.index < a.size) (hloopless : a.Loopless id) :
    ∃ copy b, duplicate id a = (.ok copy, b) ∧
      (a.size ≤ b.size ∧ ∀ x, x.index < a.size → b.node? x = a.node? x) ∧
      (∀ x n, a.size ≤ x.index → b.node? x = some n → n.id = x) ∧
      a.Replicates b id copy ∧
      (∀ x, ReflTransGen b.Child copy x → a.size ≤ x.index) ∧
      ∀ x, a.size ≤ x.index → x.index < b.size → x ≠ copy → b.slots.count x = 1 := by
  obtain ⟨b, hcopies, ⟨copy, hrun, hcopied⟩ | ⟨f, -, hreach, hf⟩⟩ := duplicate_ends hloopless
  · have hcopy := hcopied.mem_newHandles List.mem_cons_self
    have hreplicates : b.Replicates b id copy := (List.forall₂_cons.mp hcopied.copies).1
    refine ⟨copy, b, hrun, ⟨hcopied.le, hcopied.kept⟩, hcopied.ids, ?_, ?_, ?_⟩
    · exact hreplicates.restrict hcopied.toPrecedes fun x hx => reaches_found hinside hid hx
    · exact fun x hx => (hcopied.between_of_reaches hcopy.1 hx).1
    · exact fun x hx hx' hne => hcopied.count_slots hinside hx hx' hne
  · have hfound := reaches_found hinside hid hreach
    have hle := hcopies.le
    omega

/-- A sum of a list with itself, in which one element is listed twice, and a node that is its own
child. -/
def sharedSum : Arena :=
  ⟨#[⟨⟨0⟩, ⟨.identifier, "x", ⟨0, 1, 1⟩⟩, [⟨"seen", none⟩], .identifier "x"⟩,
    ⟨⟨1⟩, ⟨.identifier, "y", ⟨0, 4, 4⟩⟩, [], .identifier "y"⟩,
    ⟨⟨2⟩, ⟨.lbracket, "[", ⟨0, 0, 0⟩⟩, [], .listLiteral [⟨0⟩, ⟨1⟩, ⟨0⟩]⟩,
    ⟨⟨3⟩, ⟨.operator, "+", ⟨0, 9, 9⟩⟩, [⟨"seen", none⟩], .binary "+" ⟨2⟩ ⟨2⟩ true⟩,
    ⟨⟨4⟩, ⟨.operator, "-", ⟨1, 0, 12⟩⟩, [], .unary "-" ⟨4⟩⟩]⟩

theorem duplicate_isolated_sharedSum :
    ∃ copy b, duplicate ⟨3⟩ sharedSum = (.ok copy, b) ∧ copy = ⟨13⟩ ∧
      sharedSum.Replicates b ⟨3⟩ copy ∧
      ∀ x : NodeId, 5 ≤ x.index → x.index < b.size → x ≠ copy → b.slots.count x = 1 := by
  have hloopless : sharedSum.Loopless ⟨3⟩ := .of_descending (k := 3) (by decide) (by decide)
  obtain ⟨copy, b, hrun, -, -, hcopy, -, hplaced⟩ :=
    duplicate_isolated (by decide) (by decide) hloopless
  refine ⟨copy, b, hrun, ?_, hcopy, hplaced⟩
  have hfirst : (duplicate ⟨3⟩ sharedSum).1 = .ok copy := congrArg Prod.fst hrun
  exact (Except.ok.inj (hfirst.symm.trans rfl))

end ApiSyntax.Arena
