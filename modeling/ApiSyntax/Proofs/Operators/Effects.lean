/-
  ApiSyntax/Proofs/Operators/Effects.lean --- an extension that succeeds has had its effect.

  When an extension of the language succeeds at an annotation, the call that the annotation
  stands for has been made, and nothing else: the arena is as it was, and the operators are
  those that the call makes of the ones before.
-/
import ApiSyntax.Proofs.Arena.Annotations
import ApiSyntax.Proofs.Arena.WellKinded
import ApiSyntax.Proofs.Parser.Agreement

set_option autoImplicit false

namespace ApiSyntax

open OperatorTable Arena

variable {r : Registry} {t : OperatorTable} {w w' : Workspace} {site : Site}

/-- A call was made, and nothing else. -/
def Workspace.Called (w w' : Workspace) (c : Call) : Prop :=
  c.run w.operators = .ok w'.operators ∧ w'.arena = w.arena

theorem Workspace.called_of_ok {c : Call} {e : Event}
    (h : (Action.tryChange (fun w : Workspace =>
        (c.run w.operators).map ({ w with operators := · })) >>= fun _ => note e) w =
      (.ok (), w')) : w.Called w' c := by
  obtain ⟨u, w₁, hchange, hnote⟩ := Action.bind_eq_ok.mp h
  unfold Action.tryChange at hchange
  dsimp only at hchange
  cases hrun : c.run w.operators with
  | error d =>
    rw [hrun] at hchange
    cases hchange
  | ok operators =>
    rw [hrun] at hchange
    cases hchange
    cases hnote
    exact ⟨hrun, rfl⟩

theorem Site.declare_called {symbol : String} {fixity : Fixity}
    (h : site.declare symbol fixity w = (.ok (), w')) : w.Called w' (.declare symbol fixity) :=
  Workspace.called_of_ok (Action.of_mapError_eq_ok h)

theorem Site.relate_called {left right : String} {p : Precedence}
    (h : site.relate left right p w = (.ok (), w')) : w.Called w' (.relate left right p) :=
  Workspace.called_of_ok (Action.of_mapError_eq_ok h)

/-- A signature declares the name of its identifier. -/
theorem Site.signatureName_of_signs {a : Arena} {id : NodeId} {name : String} (site : Site)
    (h : a.Signs id name) : site.signatureName a id = .ok name := by
  obtain ⟨n, receiver, params, returnType, isStatic, he, he'⟩ := h
  obtain ⟨m, hm, hcontents⟩ := expr_eq_ok.mp he'
  have hnode : a.node n = .ok m := by rw [Arena.node, hm]
  simp only [Site.signatureName, he, hnode, hcontents, bind, Except.bind, pure, Except.pure]

/-- The name that a signature declares is that of its identifier. -/
theorem Site.signatureName_signs {a : Arena} {id : NodeId} (site : Site) (h : a.WellKinded r t)
    (hkind : a.kind id = .ok .signature) :
    ∃ name, site.signatureName a id = .ok name ∧ a.Signs id name := by
  obtain ⟨e, he, hsignature⟩ := kind_eq_ok.mp hkind
  cases e with
  | signature n receiver params returnType isStatic =>
    obtain ⟨e', he', hadmits⟩ := (h id _ he).slots (.has n .name) (by simp [Expr.requires])
    have hname := Role.kind_of_admits hadmits
    cases e' with
    | identifier value =>
      have hsigns : a.Signs id value := ⟨n, receiver, params, returnType, isStatic, he, he'⟩
      exact ⟨value, site.signatureName_of_signs hsigns, hsigns⟩
    | _ => simp [Role.kinds, Expr.kind] at hname
  | _ => cases hsignature

/-- Only of a signature is there a name that it declares. -/
theorem Site.kind_of_signatureName {a : Arena} {id : NodeId} {name : String} {site : Site}
    (h : site.signatureName a id = .ok name) : a.kind id = .ok .signature := by
  cases he : a.expr id with
  | error d =>
    rw [Site.signatureName, he] at h
    cases h
  | ok e =>
    refine kind_eq_ok.mpr ⟨e, he, ?_⟩
    rw [Site.signatureName, he] at h
    cases e with
    | signature => rfl
    | _ => cases h

/-- The kinds of the parameters are known one by one. -/
theorem Arena.exists_of_kinds {a : Arena} {params : List NodeId} {kind : NodeKind}
    {kinds : List NodeKind} (h : params.mapM a.kind = .ok (kind :: kinds)) :
    ∃ id rest, params = id :: rest ∧ a.kind id = .ok kind ∧ rest.mapM a.kind = .ok kinds := by
  obtain _ | @⟨id, _, rest, _, hid, hrest⟩ := mapM_kind_eq_ok.mp h
  exact ⟨id, rest, rfl, hid, mapM_kind_eq_ok.mpr hrest⟩

theorem Arena.eq_nil_of_kinds {a : Arena} {params : List NodeId} (h : params.mapM a.kind = .ok []) :
    params = [] := by
  cases mapM_kind_eq_ok.mp h
  rfl

namespace Extension

variable {params : List NodeId} {name : String}

/-- Where the name of a signature was declared, that signature was the one parameter. -/
theorem declaring_declares {fixity : Fixity}
    (hrun : (declaring name fixity).invoke site params w = (.ok (), w')) :
    ∃ sig symbol, params = [sig] ∧ site.signatureName w.arena sig = .ok symbol ∧
      w.Called w' (.declare symbol fixity) := by
  rcases params with _ | ⟨sig, _ | ⟨other, rest⟩⟩
  · cases hrun
  · obtain ⟨symbol, w₁, hname, hdeclare⟩ := Action.bind_eq_ok.mp hrun
    cases hsymbol : site.signatureName w.arena sig with
    | error d =>
      rw [Workspace.ask, hsymbol] at hname
      cases hname
    | ok found =>
      rw [Workspace.ask, hsymbol] at hname
      cases hname
      exact ⟨sig, symbol, rfl, hsymbol, Site.declare_called hdeclare⟩
  · cases hrun

theorem declaring_called {fixity : Fixity} (hw : w.arena.WellKinded r t)
    (hrun : (declaring name fixity).invoke site params w = (.ok (), w')) :
    ∃ sig symbol, params = [sig] ∧ w.arena.Signs sig symbol ∧ w.Called w' (.declare symbol fixity) := by
  obtain ⟨sig, symbol, rfl, hsymbol, hcalled⟩ := declaring_declares hrun
  obtain ⟨name', hname, hsigns⟩ :=
    site.signatureName_signs hw (Site.kind_of_signatureName hsymbol)
  cases hsymbol.symm.trans hname
  exact ⟨sig, symbol, rfl, hsigns, hcalled⟩

theorem binding_called (hw : w.arena.WellKinded r t)
    (hkinds : params.mapM w.arena.kind = .ok [.signature, .signature])
    (hrun : (binding name).invoke site params w = (.ok (), w')) :
    ∃ tighter looser left right, params = [tighter, looser] ∧ w.arena.Signs tighter left ∧
      w.arena.Signs looser right ∧ w.Called w' (.relate left right .greater) := by
  obtain ⟨tighter, rest, rfl, htighter, hrest⟩ := exists_of_kinds hkinds
  obtain ⟨looser, rest', rfl, hlooser, hrest'⟩ := exists_of_kinds hrest
  obtain rfl := eq_nil_of_kinds hrest'
  obtain ⟨left, hleft, hsigns⟩ := site.signatureName_signs hw htighter
  obtain ⟨right, hright, hsigns'⟩ := site.signatureName_signs hw hlooser
  have hrelate : site.relate left right .greater w = (.ok (), w') := by
    simpa only [binding, Action.bind_run, Workspace.ask, hleft, hright] using hrun
  exact ⟨tighter, looser, left, right, rfl, hsigns, hsigns', Site.relate_called hrelate⟩

end Extension

/-- An extension of the language that succeeds has made the call that its annotation stands for. -/
theorem Registry.effect_builtin {name : String} {x : Extension} {node : NodeId}
    {params : List NodeId} (hget : Registry.builtin.get? name = some x)
    (hw : w.arena.WellKinded r t) (hnode : w.arena.expr node = .ok (.annotationCall name params))
    (hkinds : params.mapM w.arena.kind = .ok x.parameters)
    (hrun : x.invoke site params w = (.ok (), w')) :
    ∃ call, w.arena.Effect node call ∧ w.Called w' call := by
  obtain ⟨rfl, rfl | rfl | rfl⟩ := Registry.get?_builtin hget
  · obtain ⟨sig, symbol, rfl, hsigns, hcalled⟩ := Extension.declaring_called hw hrun
    exact ⟨_, .infixOp hnode hsigns, hcalled⟩
  · obtain ⟨sig, symbol, rfl, hsigns, hcalled⟩ := Extension.declaring_called hw hrun
    exact ⟨_, .prefixOp hnode hsigns, hcalled⟩
  · obtain ⟨tighter, looser, left, right, rfl, hsigns, hsigns', hcalled⟩ :=
      Extension.binding_called hw hkinds hrun
    exact ⟨_, .tighter hnode hsigns hsigns', hcalled⟩

end ApiSyntax
