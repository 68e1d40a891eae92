/-
  ApiSyntax/Proofs/Arena/WellKinded.lean --- arenas in which every slot holds what it should.

  The contents of a node fit when its slots hold what their roles admit, its operator is
  declared, and the parameters of an annotation are of the kinds that its extension asks
  for.  What fits goes on to fit when the arena is followed by another one and operators are
  added.  So a step keeps all nodes fitting when the node it makes or overwrites fits.

  Settling takes operands from two binaries and gives them to the two again; copying makes
  nodes of the kinds it finds.  Both need that the nodes they come across fit themselves.
-/
import Mathlib.Data.List.Forall2
import ApiSyntax.Proofs.Arena.Follows
import ApiSyntax.Proofs.Arena.Roles

set_option autoImplicit false

namespace ApiSyntax

variable {r : Registry} {a b : Arena} {t u : OperatorTable} {e e' : Expr} {id : NodeId}

/-- Every operator of the first table is one of the second. -/
def OperatorTable.Le (t u : OperatorTable) : Prop :=
  ∀ symbol fixity, t.contains symbol fixity → u.contains symbol fixity

theorem OperatorTable.Le.refl (t : OperatorTable) : t.Le t := fun _ _ h => h

/-! ## What fits -/

/-- The slots hold what their roles admit, the operator is declared, and the parameters of an
annotation are of the kinds that its extension asks for. -/
structure Expr.Fits (r : Registry) (a : Arena) (t : OperatorTable) (e : Expr) : Prop where
  slots : ∀ k ∈ e.requires, k.Holds a t
  parameters : ∀ name params, e = .annotationCall name params →
    ∃ x, r.get? name = some x ∧ params.mapM a.kind = .ok x.parameters

/-- The contents of every node fit. -/
def Arena.WellKinded (r : Registry) (t : OperatorTable) (a : Arena) : Prop :=
  ∀ id e, a.expr id = .ok e → e.Fits r a t

theorem Role.admits_of_alike {role : Role} (halike : e.Alike e') (h : role.admits e) :
    role.admits e' := by
  cases halike with
  | refl => exact h
  | binary => exact h

/-- What is known stays known. -/
theorem Known.Holds.later {k : Known} (h : k.Holds a t) (hab : a.Follows b) (htu : t.Le u) :
    k.Holds b u := by
  cases k with
  | has id role =>
    obtain ⟨e, he, hadmits⟩ := h
    obtain ⟨e', he', halike⟩ := hab.expr he
    exact ⟨e', he', Role.admits_of_alike halike hadmits⟩
  | declared symbol fixity => exact htu symbol fixity h

theorem Arena.kind_eq_ok {kind : NodeKind} :
    a.kind id = .ok kind ↔ ∃ e, a.expr id = .ok e ∧ e.kind = kind := by
  unfold Arena.kind Arena.expr
  cases a.node id with
  | error d => exact ⟨nofun, nofun⟩
  | ok n => simp [Except.map, Node.kind]

theorem Arena.Follows.kind {kind : NodeKind} (h : a.Follows b) (hkind : a.kind id = .ok kind) :
    b.kind id = .ok kind := by
  obtain ⟨e, he, rfl⟩ := Arena.kind_eq_ok.mp hkind
  obtain ⟨e', he', halike⟩ := h.expr he
  exact Arena.kind_eq_ok.mpr ⟨e', he', halike.kind_eq⟩

/-- The kinds of a list of nodes are their kinds, one by one. -/
theorem Arena.mapM_kind_eq_ok {ids : List NodeId} {kinds : List NodeKind} :
    ids.mapM a.kind = .ok kinds ↔ List.Forall₂ (fun id kind => a.kind id = .ok kind) ids kinds := by
  induction ids generalizing kinds with
  | nil => cases kinds <;> simp [pure, Except.pure]
  | cons id ids ih =>
    rw [List.mapM_cons]
    cases hkind : a.kind id with
    | error d => cases kinds <;> simp [bind, Except.bind, hkind]
    | ok kind =>
      cases hrest : ids.mapM a.kind with
      | error d => cases kinds <;> simp [bind, Except.bind, ← ih, hkind, hrest]
      | ok rest => cases kinds <;> simp [bind, Except.bind, pure, Except.pure, ← ih, hkind, hrest]

/-- The kinds of nodes stay the same. -/
theorem Arena.Follows.kinds {ids : List NodeId} {kinds : List NodeKind} (h : a.Follows b)
    (hkinds : ids.mapM a.kind = .ok kinds) : ids.mapM b.kind = .ok kinds :=
  mapM_kind_eq_ok.mpr ((mapM_kind_eq_ok.mp hkinds).imp fun _ _ => h.kind)

theorem Expr.Fits.later (h : e.Fits r a t) (hab : a.Follows b) (htu : t.Le u) :
    e.Fits r b u where
  slots k hk := (h.slots k hk).later hab htu
  parameters name params he := by
    obtain ⟨x, hx, hkinds⟩ := h.parameters name params he
    exact ⟨x, hx, hab.kinds hkinds⟩

/-- Contents other than annotations fit when all is known that they require. -/
theorem Expr.Fits.of_requires (h : ∀ k ∈ e.requires, k.Holds a t)
    (he : (e.kind == .annotationCall) = false) : e.Fits r a t where
  slots := h
  parameters name params heq := by
    subst heq
    cases he

namespace Arena.WellKinded

theorem more (h : a.WellKinded r t) (htu : t.Le u) : a.WellKinded r u :=
  fun id e he => (h id e he).later (.refl a) htu

/-- A node is made whose contents fit. -/
theorem push (h : a.WellKinded r t) (token : Token) (he : e.Fits r a t) :
    (a.push token e).WellKinded r t := by
  intro id e' he'
  have hfollows := Follows.push a token e
  obtain ⟨-, rfl⟩ | hold := expr_push he'
  · exact he.later hfollows (.refl t)
  · exact (h id e' hold).later hfollows (.refl t)

/-- A node is overwritten with contents that are alike and fit. -/
theorem setExpr (h : a.WellKinded r t) (hid : a.expr id = .ok e) (halike : e.Alike e')
    (he' : e'.Fits r a t) : (a.setExpr id e').WellKinded r t := by
  have hfollows := Follows.setExpr hid halike
  intro other f hf
  by_cases hother : id = other
  · subst hother
    rw [expr_setExpr_self hid] at hf
    cases hf
    exact he'.later hfollows (.refl t)
  · rw [expr_setExpr_of_ne hother] at hf
    exact (h other f hf).later hfollows (.refl t)

end Arena.WellKinded

/-! ## Quiet steps -/

theorem Arena.expr_of_tag {tag : Tag} {new : Bool} (h : a.tag id tag = .ok (new, b))
    (other : NodeId) : b.expr other = a.expr other := by
  unfold Arena.tag at h
  cases hnode : a.node id with
  | error d =>
    rw [hnode] at h
    cases h
  | ok n =>
    rw [hnode, Except.map] at h
    split at h
    · cases h
      rfl
    · cases h
      by_cases hid : id = other
      · subst hid
        unfold expr node
        rw [node?_update_self]
        cases a.node? id <;> rfl
      · unfold expr node
        rw [node?_update_of_ne _ hid]

/-- Old nodes are followed, and if all contents fit they go on to do so, without new annotations. -/
structure Arena.QuietStep (r : Registry) (t : OperatorTable) (a b : Arena) : Prop where
  follows : a.Follows b
  wellKinded : a.WellKinded r t → b.WellKinded r t
  annotations : a.WellKinded r t → ∀ id e, b.expr id = .ok e → e.kind = .annotationCall →
    a.expr id = .ok e

namespace Arena.QuietStep

variable {c : Arena}

theorem refl (a : Arena) : QuietStep r t a a := ⟨.refl a, fun h => h, fun _ _ _ h _ => h⟩

theorem trans (h : QuietStep r t a b) (h' : QuietStep r t b c) : QuietStep r t a c where
  follows := h.follows.trans h'.follows
  wellKinded ha := h'.wellKinded (h.wellKinded ha)
  annotations ha id e he hkind :=
    h.annotations ha id e (h'.annotations (h.wellKinded ha) id e he hkind) hkind

/-- A node is made whose contents fit, and that is no annotation. -/
theorem push (h : QuietStep r t a b) (token : Token) (hfits : a.WellKinded r t → e.Fits r b t)
    (he : (e.kind == .annotationCall) = false) : QuietStep r t a (b.push token e) where
  follows := h.follows.trans (.push b token e)
  wellKinded ha := (h.wellKinded ha).push token (hfits ha)
  annotations ha id e' he' hkind := by
    obtain ⟨-, rfl⟩ | hold := expr_push he'
    · rw [hkind] at he
      cases he
    · exact h.annotations ha id e' hold hkind

/-- A node is overwritten with contents that are alike and fit. -/
theorem setExpr (h : QuietStep r t a b) (hid : b.expr id = .ok e) (halike : e.Alike e')
    (hfits : a.WellKinded r t → e'.Fits r b t) : QuietStep r t a (b.setExpr id e') where
  follows := h.follows.trans (.setExpr hid halike)
  wellKinded ha := (h.wellKinded ha).setExpr hid halike (hfits ha)
  annotations ha other f hf hkind := by
    apply h.annotations ha other f _ hkind
    by_cases hother : id = other
    · subst hother
      rw [expr_setExpr_self hid] at hf
      cases hf
      rw [halike.symm.eq_of_kind (by rw [hkind]; decide)] at hid
      exact hid
    · rwa [expr_setExpr_of_ne hother] at hf

theorem tag {tag : Tag} {new : Bool} (h : a.tag id tag = .ok (new, b)) : QuietStep r t a b where
  follows := .tag h
  wellKinded ha other e he := by
    rw [expr_of_tag h] at he
    exact (ha other e he).later (.tag h) (.refl t)
  annotations _ other e he _ := by
    rwa [expr_of_tag h] at he

theorem enclose (h : a.expr id = .ok e) :
    QuietStep r t a (a.setExpr id (Grammar.Expr.enclose e)) := by
  apply (refl a).setExpr h (.enclose e)
  intro ha
  have hfits := ha id e h
  cases e with
  | binary operator left right parenthesized =>
    exact .of_requires (fun k hk => hfits.slots k hk) rfl
  | _ => exact hfits

end Arena.QuietStep

/-! ## Settling -/

namespace Workspace

/-- The operator of a binary that fits is declared, and its operands are expressions. -/
theorem binary_fits {b : OpenBinary} : b.toExpr.Fits r a t ↔
    t.contains b.operator .infixOp ∧ (Known.has b.left .expression).Holds a t ∧
      (Known.has b.right .expression).Holds a t := by
  constructor
  · intro h
    have hslots := h.slots
    simp only [OpenBinary.toExpr, Expr.requires, List.forall_mem_cons] at hslots
    exact ⟨hslots.1, hslots.2.1, hslots.2.2.1⟩
  · rintro ⟨hoperator, hleft, hright⟩
    apply Expr.Fits.of_requires _ rfl
    simp only [OpenBinary.toExpr, Expr.requires, List.forall_mem_cons]
    exact ⟨hoperator, hleft, hright, fun _ h => absurd h List.not_mem_nil⟩

/-- The operands that a turn hands on are expressions. -/
theorem Lifts.operands {w : Workspace} {top l r' : NodeId} {n m : OpenBinary}
    {rejoin : NodeId → OpenBinary} (h : w.Lifts id top n m l r' rejoin)
    (hw : w.arena.WellKinded r t) :
    (Known.has l .expression).Holds w.arena t ∧ (Known.has r' .expression).Holds w.arena t := by
  obtain ⟨-, hnleft, hnright⟩ := binary_fits.mp (hw _ _ h.node)
  obtain ⟨-, hmleft, hmright⟩ := binary_fits.mp (hw _ _ h.lifted)
  have hall : ∀ x ∈ [n.left, n.right, m.left, m.right],
      (Known.has x .expression).Holds w.arena t := by
    simp only [List.forall_mem_cons]
    exact ⟨hnleft, hnright, hmleft, hmright, fun _ h => absurd h List.not_mem_nil⟩
  exact ⟨hall l h.left, hall r' h.right⟩

/-- What settling answers is an expression when it was asked to settle one. -/
theorem settled_expression {fuel : Nat} {w : Workspace} {settled : NodeId}
    (h : (settleN fuel id w).1 = .ok settled)
    (hid : (Known.has id .expression).Holds w.arena t) :
    (Known.has settled .expression).Holds (settleN fuel id w).2.arena t := by
  obtain ⟨-, hfollows, hanswer⟩ := settleN_follows fuel id w
  obtain rfl | ⟨b, hb⟩ := hanswer settled h
  · exact hid.later hfollows (.refl t)
  · exact ⟨b.toExpr, hb, rfl⟩

theorem settleN_quiet (fuel : Nat) (id : NodeId) (w : Workspace) :
    Arena.QuietStep r w.operators w.arena (settleN fuel id w).2.arena := by
  induction fuel generalizing id w with
  | zero => exact .refl _
  | succ fuel ih =>
    obtain (⟨d, hrun⟩ | hrun) | ⟨top, n, m, l, r', rejoin, e, h, hrun⟩ := settleN_cases id w
    · rw [hrun]
      exact .refl _
    · rw [hrun]
      exact .refl _
    · let turned := w.rotated e id ⟨n.operator, l, r'⟩
      have hturned : Arena.QuietStep r w.operators w.arena turned.arena := by
        apply (Arena.QuietStep.refl _).setExpr h.node (.binary ..)
        intro hw
        obtain ⟨hleft, hright⟩ := h.operands hw
        have hoperator := (binary_fits.mp (hw _ _ h.node)).1
        exact binary_fits (b := ⟨n.operator, l, r'⟩) |>.mpr ⟨hoperator, hleft, hright⟩
      have hrest := hturned.trans (ih id turned)
      have hanswer : ∀ settled, (settleN fuel id turned).1 = .ok settled →
          (Known.has settled .expression).Holds (settleN fuel id turned).2.arena w.operators :=
        fun settled hok => settled_expression hok ⟨_, Arena.expr_setExpr_self h.node _, rfl⟩
      rw [hrun]
      revert hrest hanswer
      cases settleN fuel id turned with
      | mk result w' =>
        intro hrest hanswer
        cases result with
        | error d => exact hrest
        | ok settled =>
          obtain ⟨e', he', halike⟩ := hrest.follows.expr h.lifted
          apply hrest.setExpr he' (halike.symm.trans (.of_operator (h.operator settled)))
          intro hw
          obtain ⟨hoperator, hleft, hright⟩ := binary_fits.mp (hw _ _ h.lifted)
          have hsettled := hanswer settled rfl
          have hside : ∀ {x y}, x ∈ [settled, y] → (Known.has y .expression).Holds w.arena w.operators →
              (Known.has x .expression).Holds w'.arena w.operators := by
            intro x y hx hy
            simp only [List.mem_cons, List.not_mem_nil, or_false] at hx
            obtain rfl | rfl := hx
            · exact hsettled
            · exact hy.later hrest.follows (.refl _)
          apply binary_fits.mpr
          rw [h.operator settled]
          exact ⟨hoperator, hside (h.rejoinLeft settled) hleft, hside (h.rejoinRight settled) hright⟩

end Workspace

/-! ## Copying -/

/-- Typings are names, types, and names with their types. -/
theorem Role.typing_kinds {role : Role} (hrole : role.isTyping) :
    role.kinds ⊆ [.identifier, .typeIdentifier, .listType, .pair] := by
  cases role <;> cases hrole <;> decide

/-- A role of typings is about kinds alone. -/
theorem Role.admits_typing {role : Role} (hrole : role.isTyping) (h : e.kind ∈ role.kinds) :
    role.admits e := by
  apply admits_of_kind _ h
  rintro rfl
  cases hrole

/-- What may be copied has names and types in its slots, and so have its copies. -/
theorem Expr.typing_slots {role : Role} (hrole : role.isTyping) (h : role.admits e) :
    ∃ roles : List Role,
      List.Forall₂ (fun c role => role.isTyping ∧ Known.has c role ∈ e.requires) e.children roles ∧
        ∀ (P : Known → Prop) (copies : List NodeId),
          List.Forall₂ (fun c role => P (.has c role)) copies roles →
            ∀ k ∈ (e.withChildren copies).requires, P k := by
  have hkind := Role.typing_kinds hrole (Role.kind_of_admits h)
  cases e with
  | identifier name => exact ⟨[], .nil, fun P copies _ k hk => nomatch hk⟩
  | typeIdentifier name => exact ⟨[], .nil, fun P copies _ k hk => nomatch hk⟩
  | listType element =>
    refine ⟨[.type], .cons ⟨rfl, List.mem_cons_self⟩ .nil, fun P copies hcopies => ?_⟩
    obtain _ | ⟨hcopy, hrest⟩ := hcopies
    cases hrest
    simpa [withChildren, requires] using hcopy
  | pair name ty =>
    refine ⟨[.name, .type], ?_, fun P copies hcopies => ?_⟩
    · exact .cons ⟨rfl, by simp [requires]⟩ (.cons ⟨rfl, by simp [requires]⟩ .nil)
    · obtain _ | ⟨hname, hrest⟩ := hcopies
      obtain _ | ⟨hty, hrest⟩ := hrest
      cases hrest
      simpa [withChildren, requires] using And.intro hname hty
  | _ => simp [Expr.kind] at hkind

namespace Arena

/-- Copying keeps all nodes fitting, and its result has the role of what was copied. -/
def CopiesQuietly (r : Registry) (t : OperatorTable) (copy : NodeId → Action Arena Stop NodeId) :
    Prop :=
  ∀ (role : Role) (id : NodeId) (a : Arena), role.isTyping → a.WellKinded r t →
    (Known.has id role).Holds a t → QuietStep r t a (copy id a).2 ∧
      ∀ c, (copy id a).1 = .ok c → (Known.has c role).Holds (copy id a).2 t

/-- Several nodes are copied, one after another. -/
theorem CopiesQuietly.mapM {a : Arena} {copy : NodeId → Action Arena Stop NodeId} {ids : List NodeId}
    {roles : List Role} (hcopy : CopiesQuietly r t copy) (ha : a.WellKinded r t)
    (hids : List.Forall₂ (fun id role => role.isTyping ∧ (Known.has id role).Holds a t) ids roles) :
    QuietStep r t a (ids.mapM copy a).2 ∧ ∀ copies, (ids.mapM copy a).1 = .ok copies →
      List.Forall₂ (fun c role => (Known.has c role).Holds (ids.mapM copy a).2 t) copies roles := by
  induction ids generalizing a roles with
  | nil =>
    cases hids
    refine ⟨.refl a, fun copies h => ?_⟩
    cases h
    exact .nil
  | cons id ids ih =>
    obtain _ | @⟨_, role, _, roles, hid, hids⟩ := hids
    obtain ⟨hquiet, hcopied⟩ := hcopy role id a hid.1 ha hid.2
    rw [List.mapM_cons, Action.bind_run]
    cases hrun : copy id a with
    | mk result b =>
      rw [hrun] at hquiet hcopied
      cases result with
      | error d => exact ⟨hquiet, fun _ h => nomatch h⟩
      | ok c =>
        have hlater : List.Forall₂ (fun id role => role.isTyping ∧ (Known.has id role).Holds b t)
            ids roles := hids.imp fun _ _ h => ⟨h.1, h.2.later hquiet.follows (.refl t)⟩
        obtain ⟨hquiet', hcopies⟩ := ih (hquiet.wellKinded ha) hlater
        dsimp only
        rw [Action.bind_run]
        cases hruns : ids.mapM copy b with
        | mk results b' =>
          rw [hruns] at hquiet' hcopies
          refine ⟨?_, fun copies h => ?_⟩
          · cases results <;> exact hquiet.trans hquiet'
          · cases results with
            | error d => cases h
            | ok rest =>
              cases h
              exact .cons ((hcopied c rfl).later hquiet'.follows (.refl t)) (hcopies rest rfl)

theorem copyN_quiet (fuel : Nat) : CopiesQuietly r t (copyN fuel) := by
  induction fuel with
  | zero => exact fun _ _ a _ _ _ => ⟨.refl a, fun _ h => nomatch h⟩
  | succ fuel ih =>
    intro role id a hrole ha ⟨e, he, hadmits⟩
    obtain ⟨n, hn, rfl⟩ := expr_eq_ok.mp he
    obtain ⟨roles, hroles, hcopies⟩ := Expr.typing_slots hrole hadmits
    have hslots := (ha id n.expr he).slots
    obtain ⟨hquiet, hcopied⟩ := ih.mapM ha (hroles.imp fun _ _ h => ⟨h.1, hslots _ h.2⟩)
    rw [copyN_some hn]
    cases hruns : n.expr.children.mapM (copyN fuel) a with
    | mk results b =>
      rw [hruns] at hquiet hcopied
      cases results with
      | error d => exact ⟨hquiet, fun _ h => nomatch h⟩
      | ok copies =>
        have hkind := Expr.kind_withChildren n.expr copies
        have hrole' := Role.kind_of_admits hadmits
        have hcall : ((n.expr.withChildren copies).kind == .annotationCall) = false := by
          have hmem := Role.typing_kinds hrole hrole'
          rw [hkind]
          revert hmem
          cases n.expr.kind <;> decide
        refine ⟨hquiet.push n.token (fun _ => .of_requires ?_ hcall) hcall, fun c hc => ?_⟩
        · exact hcopies (·.Holds b t) copies (hcopied copies rfl)
        · cases hc
          refine ⟨_, expr_push_next b n.token _, Role.admits_typing hrole ?_⟩
          rwa [hkind]

/-- A typing is copied. -/
theorem duplicate_quiet {role : Role} (hrole : role.isTyping) (hid : (Known.has id role).Holds a t) :
    QuietStep r t a (a.duplicate id).2 where
  follows := (copyN_follows a.copyDepth id a).1
  wellKinded ha := (copyN_quiet a.copyDepth role id a hrole ha hid).1.wellKinded ha
  annotations ha := (copyN_quiet (t := t) a.copyDepth role id a hrole ha hid).1.annotations ha

end Arena

end ApiSyntax
