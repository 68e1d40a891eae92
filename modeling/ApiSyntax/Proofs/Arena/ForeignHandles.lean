/-
  ApiSyntax/Proofs/Arena/ForeignHandles.lean --- copying what the arena does not have in full.

  A slot may hold a handle that the arena does not have.  Copying looks such a handle up when
  its turn comes, in an arena that is longer by the copies made so far; so it is reported if
  it lies behind those copies, and else it names one of them and that is copied in its place.
  `Encounters a xs m r` tells which foreign handle comes first and how many copies are made
  before its turn.
-/
import ApiSyntax.Proofs.Arena.CopyDepth

set_option autoImplicit false

namespace ApiSyntax.Arena

open Relation

variable {a b c : Arena} {x y f : NodeId} {xs : List NodeId} {n : Node} {k m : Nat}
  {r : Option NodeId}

/-! ## The first foreign handle -/

/-- On a way through all that is below `xs`, children before their node, `m` nodes are complete when
the first handle is met that the arena does not have, which is `r`; or there is none among them. -/
inductive Encounters (a : Arena) : List NodeId → Nat → Option NodeId → Prop
  | done : Encounters a [] 0 none
  | foreign {x : NodeId} {xs : List NodeId} (missing : a.size ≤ x.index) :
      Encounters a (x :: xs) 0 (some x)
  | within {x f : NodeId} {xs : List NodeId} {n : Node} {m : Nat} (found : a.node? x = some n)
      (children : Encounters a n.expr.children m (some f)) : Encounters a (x :: xs) m (some f)
  | behind {x : NodeId} {xs : List NodeId} {n : Node} {m k : Nat} {r : Option NodeId}
      (found : a.node? x = some n) (children : Encounters a n.expr.children m none)
      (rest : Encounters a xs k r) : Encounters a (x :: xs) (m + 1 + k) r

namespace Encounters

/-- What is not too deep to be gone through is gone through. -/
theorem exists_of_shallow (h : ∀ x ∈ xs, a.Shallow k x) : ∃ m r, Encounters a xs m r := by
  induction k generalizing xs with
  | zero =>
    cases xs with
    | nil => exact ⟨0, none, .done⟩
    | cons x xs => exact ⟨0, some x, .foreign (node?_eq_none.mp (h x List.mem_cons_self))⟩
  | succ k ih =>
    induction xs with
    | nil => exact ⟨0, none, .done⟩
    | cons x xs ihxs =>
      cases hnode : a.node? x with
      | none => exact ⟨0, some x, .foreign (node?_eq_none.mp hnode)⟩
      | some n =>
        obtain ⟨m, r, hchildren⟩ := ih fun y hy =>
          (h x List.mem_cons_self).child ⟨n, hnode, hy⟩
        cases r with
        | some f => exact ⟨m, some f, .within hnode hchildren⟩
        | none =>
          obtain ⟨j, s, hrest⟩ := ihxs fun y hy => h y (List.mem_cons_of_mem _ hy)
          exact ⟨m + 1 + j, s, .behind hnode hchildren hrest⟩

/-- If no foreign handle is met, there is none. -/
theorem found_of_none (h : Encounters a xs m r) (hr : r = none) (hx : x ∈ xs)
    (hreach : ReflTransGen a.Child x y) : y.index < a.size := by
  induction h generalizing x with
  | done => cases hx
  | foreign missing => cases hr
  | within found children ih => cases hr
  | @behind z zs n m k r found children rest ihchildren ihrest =>
    rcases List.mem_cons.mp hx with rfl | hx
    · obtain rfl | ⟨w, ⟨n', hn', hw⟩, hreach⟩ := ReflTransGen.cases_head hreach
      · exact lt_size_of_node? found
      · rw [found] at hn'
        cases hn'
        exact ihchildren rfl hw hreach
    · exact ihrest hr hx hreach

end Encounters

/-! ## Runs without a bound -/

/-- Copying the handles of a list one after another, without a bound on the depth: it ends with the
copies, or with the handle that it fails at. -/
inductive Walks : Arena → List NodeId → Except NodeId (List NodeId) → Arena → Prop
  | done (c : Arena) : Walks c [] (.ok []) c
  | foreign {c : Arena} {x : NodeId} {xs : List NodeId} (missing : c.size ≤ x.index) :
      Walks c (x :: xs) (.error x) c
  | within {c b : Arena} {x f : NodeId} {xs : List NodeId} {n : Node} (found : c.node? x = some n)
      (children : Walks c n.expr.children (.error f) b) : Walks c (x :: xs) (.error f) b
  | behind {c d b : Arena} {x : NodeId} {xs ys : List NodeId} {n : Node}
      {result : Except NodeId (List NodeId)} (found : c.node? x = some n)
      (children : Walks c n.expr.children (.ok ys) d)
      (rest : Walks (d.push n.token (n.expr.withChildren ys)) xs result b) :
      Walks c (x :: xs) (result.map (d.next :: ·)) b

namespace Walks

variable {result : Except NodeId (List NodeId)}

theorem precedes (h : Walks c xs result b) : c.Precedes b := by
  induction h with
  | done c => exact .refl c
  | foreign missing => exact .refl _
  | within found children ih => exact ih
  | behind found children rest ihchildren ihrest =>
    exact (ihchildren.trans (.push ..)).trans ihrest

/-- What a run ends with that fails at a handle. -/
def stop (f : NodeId) : Stop := .failed (.of (.unknownNode f))

/-- A run whose bound is not used up goes on as it would without one. -/
theorem of_mapM {fuel : Nat} {results : Except Stop (List NodeId)}
    (hruns : xs.mapM (copyN fuel) c = (results, b)) (hends : results ≠ .error .exhausted) :
    ∃ result, results = result.mapError stop ∧ Walks c xs result b := by
  induction fuel generalizing xs c results b with
  | zero =>
    cases xs with
    | nil =>
      cases hruns
      exact ⟨.ok [], rfl, .done _⟩
    | cons x xs =>
      obtain ⟨e, hhead, rfl⟩ | ⟨y, d, rest, hhead, -, -⟩ := Action.mapM_cons_cases hruns
      · cases hhead
        exact absurd rfl hends
      · cases hhead
  | succ fuel ih =>
    induction xs generalizing c results with
    | nil =>
      cases hruns
      exact ⟨.ok [], rfl, .done _⟩
    | cons x xs ihxs =>
      obtain ⟨e, hhead, rfl⟩ | ⟨y, d, rest, hhead, hrest, rfl⟩ := Action.mapM_cons_cases hruns
      · obtain ⟨hnone, rfl, rfl⟩ | ⟨n, hn, hchildren⟩ := copyN_error hhead
        · exact ⟨.error x, rfl, .foreign (node?_eq_none.mp hnone)⟩
        · obtain ⟨result, he, hwalks⟩ := ih hchildren fun he => hends (by cases he; rfl)
          cases result with
          | ok ys => cases he
          | error f =>
            cases he
            exact ⟨.error f, rfl, .within hn hwalks⟩
      · obtain ⟨n, copies, d, hn, hchildren, rfl, rfl⟩ := copyN_ok hhead
        obtain ⟨children, hcopies, hwalks⟩ := ih hchildren nofun
        obtain ⟨result, rfl, hothers⟩ := ihxs hrest fun he => hends (by rw [he]; rfl)
        cases children with
        | error f => cases hcopies
        | ok ys =>
          cases hcopies
          refine ⟨result.map (d.next :: ·), ?_, .behind hn hwalks hothers⟩
          cases result <;> rfl

theorem of_duplicate {result : Except Stop NodeId} (hrun : duplicate x a = (result, b))
    (hends : result ≠ .error .exhausted) :
    ∃ walk, result.map ([·]) = Except.mapError stop walk ∧ Walks a [x] walk b := by
  have hruns : [x].mapM (copyN a.copyDepth) a = (result.map ([·]), b) := by
    rw [List.mapM_cons, Action.bind_run, show copyN a.copyDepth x a = (result, b) from hrun]
    cases result <;> rfl
  refine of_mapM hruns fun he => hends ?_
  cases result with
  | ok y => cases he
  | error e =>
    cases he
    rfl

end Walks

namespace Encounters

variable {result : Except NodeId (List NodeId)}

/-- Copying meets the first foreign handle when it has made as many nodes as lie before it, and
reports the handle if it lies behind these too. -/
theorem outcome (h : Encounters a xs m r) (hac : a.Precedes c) (hwalks : Walks c xs result b) :
    c.size + m ≤ b.size ∧ (r = none → b.size = c.size + m ∧ ∃ ys, result = .ok ys) ∧
      ∀ f, r = some f → c.size + m ≤ f.index → result = .error f := by
  induction h generalizing c result b with
  | done =>
    cases hwalks
    exact ⟨Nat.le_refl _, fun _ => ⟨rfl, [], rfl⟩, nofun⟩
  | foreign missing =>
    refine ⟨hwalks.precedes.le, nofun, fun f hf hle => ?_⟩
    cases hf
    cases hwalks with
    | foreign => rfl
    | within found | behind found => exact absurd (lt_size_of_node? found) (Nat.not_lt.mpr hle)
  | within found children ih =>
    have hfound := hac.node? found
    cases hwalks with
    | foreign missing => exact absurd (lt_size_of_node? hfound) (Nat.not_lt.mpr missing)
    | within found' children' =>
      cases hfound.symm.trans found'
      obtain ⟨hle, -, hreported⟩ := ih hac children'
      exact ⟨hle, nofun, fun f hf hf' => hreported f hf hf'⟩
    | behind found' children' rest' =>
      cases hfound.symm.trans found'
      obtain ⟨hle, -, hreported⟩ := ih hac children'
      have hrest := rest'.precedes.le
      rw [size_push] at hrest
      exact ⟨by omega, nofun, fun f hf hf' => nomatch hreported f hf hf'⟩
  | behind found children rest ihchildren ihrest =>
    have hfound := hac.node? found
    cases hwalks with
    | foreign missing => exact absurd (lt_size_of_node? hfound) (Nat.not_lt.mpr missing)
    | within found' children' =>
      cases hfound.symm.trans found'
      obtain ⟨-, ys, hys⟩ := (ihchildren hac children').2.1 rfl
      cases hys
    | @behind _ d _ _ _ _ _ result found' children' rest' =>
      cases hfound.symm.trans found'
      obtain ⟨hsize, -⟩ := (ihchildren hac children').2.1 rfl
      obtain ⟨hle, hnone, hreported⟩ :=
        ihrest ((hac.trans children'.precedes).trans (.push ..)) rest'
      rw [size_push, hsize] at hle hnone hreported
      refine ⟨by omega, fun hr => ?_, fun f hf hf' => ?_⟩
      · obtain ⟨hsize', ys, rfl⟩ := hnone hr
        exact ⟨by omega, _, rfl⟩
      · rw [hreported f hf (by omega)]
        rfl

/-- A run that ends has made the nodes before the first foreign handle, and has reported the handle if
it lies behind them. -/
theorem of_duplicate {result : Except Stop NodeId} (h : Encounters a [x] m (some f))
    (hrun : duplicate x a = (result, b)) (hends : result ≠ .error .exhausted) :
    a.size + m ≤ b.size ∧
      (a.size + m ≤ f.index → result = .error (.failed (.of (.unknownNode f)))) := by
  obtain ⟨walk, hwalk, hwalks⟩ := Walks.of_duplicate hrun hends
  obtain ⟨hmade, -, hreported⟩ := h.outcome (.refl a) hwalks
  refine ⟨hmade, fun hle => ?_⟩
  rw [hreported f rfl hle] at hwalk
  cases result with
  | ok y => cases hwalk
  | error e =>
    cases hwalk
    rfl

end Encounters

/-! ## Copying with foreign handles -/

/-- A handle is copied that has below it handles that the arena does not have.  All old nodes stay as
they were.  One of these handles is met first, behind `m` nodes that are complete by then, and it is
reported if and only if it does not name one of their copies.  However the run ends, a handle that is
reported is below the one to be copied, and foreign before the run and after it; and if none is
reported, each foreign handle names by then a node that the run has made and is copied as that one. -/
theorem duplicate_foreign {a : Arena} {id : NodeId} (hloopless : a.Loopless id)
    (hforeign : ∃ g, ReflTransGen a.Child id g ∧ a.size ≤ g.index) :
    ∃ b, (a.size ≤ b.size ∧ ∀ x, x.index < a.size → b.node? x = a.node? x) ∧
      (∃ m f, Encounters a [id] m (some f)) ∧
      (∀ m f, Encounters a [id] m (some f) →
        (duplicate id a = (.error (.failed (.of (.unknownNode f))), b) ↔ a.size + m ≤ f.index)) ∧
      ((∃ f, duplicate id a = (.error (.failed (.of (.unknownNode f))), b) ∧
          ReflTransGen a.Child id f ∧ b.size ≤ f.index) ∨
        ∃ copy, duplicate id a = (.ok copy, b) ∧ b.Replicates b id copy ∧
          ∀ g, ReflTransGen a.Child id g → g.index < b.size) := by
  obtain ⟨b, hcopies, hends⟩ := duplicate_ends hloopless
  refine ⟨b, ⟨hcopies.le, hcopies.kept⟩, ?_, fun m f hfirst => ?_, ?_⟩
  · obtain ⟨g, hreach, hg⟩ := hforeign
    obtain ⟨m, r, hall⟩ := Encounters.exists_of_shallow fun x (hx : x ∈ [id]) =>
      List.mem_singleton.mp hx ▸ hloopless.shallow
    obtain ⟨f, rfl⟩ : ∃ f, r = some f := by
      refine Option.ne_none_iff_exists'.mp fun hr => ?_
      exact Nat.not_lt.mpr hg (hall.found_of_none hr List.mem_cons_self hreach)
    exact ⟨m, f, hall⟩
  · obtain ⟨copy, hrun, -⟩ | ⟨g, hrun, -, hg⟩ := hends
    · obtain ⟨-, hreported⟩ := hfirst.of_duplicate hrun nofun
      rw [hrun]
      exact ⟨nofun, fun hle => nomatch hreported hle⟩
    · obtain ⟨hmade, hreported⟩ := hfirst.of_duplicate hrun nofun
      rw [hrun]
      refine ⟨fun he => ?_, fun hle => by rw [hreported hle]⟩
      cases he
      exact Nat.le_trans hmade hg
  · obtain ⟨copy, hrun, hcopied⟩ | ⟨g, hrun, hreach, hg⟩ := hends
    · have hcopy : b.Replicates b id copy := (List.forall₂_cons.mp hcopied.copies).1
      refine .inr ⟨copy, hrun, hcopy, fun g hreach => hcopy.found ?_⟩
      exact ReflTransGen.mono (fun _ _ => hcopies.child) _ _ hreach
    · exact .inl ⟨g, hrun, hreach, hg⟩

/-- Two lists of a name and of a handle that the arena does not have.  The copy of the name gets the
handle that is in the first list; the handle in the second one lies behind it. -/
def foreignElements : Arena :=
  ⟨#[⟨⟨0⟩, ⟨.identifier, "x", ⟨0, 1, 1⟩⟩, [], .identifier "x"⟩,
    ⟨⟨1⟩, ⟨.lbracket, "[", ⟨0, 0, 0⟩⟩, [], .listLiteral [⟨0⟩, ⟨3⟩]⟩,
    ⟨⟨2⟩, ⟨.lbracket, "[", ⟨1, 0, 6⟩⟩, [], .listLiteral [⟨0⟩, ⟨9⟩]⟩]⟩

theorem duplicate_foreign_foreignElements :
    ∃ b, duplicate ⟨2⟩ foreignElements = (.error (.failed (.of (.unknownNode ⟨9⟩))), b) ∧
      ∀ x, x.index < 3 → b.node? x = foreignElements.node? x := by
  have hloopless : foreignElements.Loopless ⟨2⟩ := .of_descending (k := 2) (by decide) (by decide)
  have hchild : foreignElements.Child ⟨2⟩ ⟨9⟩ := child_iff_mem_slotsAt.mpr (by decide)
  have hfirst : Encounters foreignElements [⟨2⟩] 1 (some ⟨9⟩) :=
    .within rfl (.behind (m := 0) (k := 0) rfl .done (.foreign (by decide)))
  obtain ⟨b, ⟨-, hkept⟩, -, hreported, -⟩ :=
    duplicate_foreign hloopless ⟨⟨9⟩, .single hchild, by decide⟩
  exact ⟨b, (hreported 1 ⟨9⟩ hfirst).mpr (by decide), hkept⟩

/-- A foreign handle below the one to be copied is not always reported: that in the first list names
the copy of the name by the time it is looked up. -/
theorem duplicate_takes_foreign :
    foreignElements.Loopless ⟨1⟩ ∧ foreignElements.Child ⟨1⟩ ⟨3⟩ ∧
      foreignElements.node? ⟨3⟩ = none ∧ (duplicate ⟨1⟩ foreignElements).1 = .ok ⟨5⟩ :=
  ⟨.of_descending (k := 1) (by decide) (by decide), child_iff_mem_slotsAt.mpr (by decide), rfl, rfl⟩

end ApiSyntax.Arena
