/-
  ApiSyntax/Proofs/Grammar/Constructors.lean --- the signature that makes values of a type.

  A type with properties gets a signature over copies of its name and its properties; a
  type without any gets none.  The copies say what the originals say and are trees of
  nodes of their own.  The places of the properties are kept by name, in the order of the
  names, and the first property of a name counts.

  Main statement: `typeDef_constructor`.
-/
import Mathlib.Data.String.Basic
import ApiSyntax.Proofs.Grammar.TypeForms

set_option autoImplicit false

namespace ApiSyntax

open ApiSyntax.Arena ApiSyntax.Grammar ApiSyntax.Language ApiSyntax.Tokenizer

/-! ## Places by name -/

namespace Grammar

variable {name x : String} {place : Nat} {order : List (String × Nat)}

/-- The names ascend, so no name stands twice. -/
def Ascending (order : List (String × Nat)) : Prop := order.Pairwise fun a b => a.1 < b.1

theorem Ascending.nodup_names (h : Ascending order) : (order.map Prod.fst).Nodup :=
  List.pairwise_map.mpr (h.imp fun hlt => ne_of_lt hlt)

theorem mem_insertFirst {entry : String × Nat} (h : entry ∈ insertFirst name place order) :
    entry = (name, place) ∨ entry ∈ order := by
  induction order with
  | nil => exact .inl (List.mem_singleton.mp h)
  | cons first rest ih =>
    rw [insertFirst] at h
    split_ifs at h
    · exact .inr h
    · exact List.mem_cons.mp h
    · rcases List.mem_cons.mp h with rfl | h
      · exact .inr List.mem_cons_self
      · exact (ih h).imp_right (List.mem_cons_of_mem _)

theorem Ascending.insertFirst (h : Ascending order) (name : String) (place : Nat) :
    Ascending (insertFirst name place order) := by
  induction order with
  | nil => exact List.pairwise_singleton _ _
  | cons first rest ih =>
    obtain ⟨hfirst, hrest⟩ := List.pairwise_cons.mp h
    rw [Grammar.insertFirst]
    split_ifs with heq hlt
    · exact h
    · refine List.pairwise_cons.mpr ⟨fun entry hentry => ?_, h⟩
      rcases List.mem_cons.mp hentry with rfl | hentry
      · exact hlt
      · exact hlt.trans (hfirst entry hentry)
    · refine List.pairwise_cons.mpr ⟨fun entry hentry => ?_, ih hrest⟩
      rcases mem_insertFirst hentry with rfl | hentry
      · exact lt_of_le_of_ne (not_lt.mp hlt) (Ne.symm heq)
      · exact hfirst entry hentry

theorem lookup_entry (x name : String) (place : Nat) (rest : List (String × Nat)) :
    List.lookup x ((name, place) :: rest) = if x = name then some place else rest.lookup x := by
  rw [List.lookup_cons]
  by_cases hx : x = name
  · rw [if_pos hx, beq_iff_eq.mpr hx]
  · rw [if_neg hx, beq_eq_false_iff_ne.mpr hx]

/-- A name below all others stands nowhere. -/
theorem lookup_eq_none_of_lt (h : ∀ entry ∈ order, name < entry.1) : order.lookup name = none :=
  List.lookup_eq_none_iff.mpr fun entry hentry => bne_iff_ne.mpr (ne_of_lt (h entry hentry))

/-- A place is kept only for a name that has none. -/
theorem Ascending.lookup_insertFirst (h : Ascending order) (name x : String) (place : Nat) :
    (Grammar.insertFirst name place order).lookup x =
      (order.lookup x).or (if x = name then some place else none) := by
  induction order with
  | nil => rw [Grammar.insertFirst, lookup_entry, List.lookup_nil, Option.none_or]
  | cons entry rest ih =>
    obtain ⟨other, first⟩ := entry
    obtain ⟨hfirst, hrest⟩ := List.pairwise_cons.mp h
    rw [Grammar.insertFirst]
    by_cases heq : name = other
    · subst heq
      rw [if_pos rfl, lookup_entry]
      split_ifs with hx
      · rfl
      · rw [Option.or_none]
    rw [if_neg heq]
    by_cases hlt : name < other
    · have hnone : List.lookup name ((other, first) :: rest) = none := by
        refine lookup_eq_none_of_lt fun entry hentry => ?_
        rcases List.mem_cons.mp hentry with rfl | hentry
        · exact hlt
        · exact hlt.trans (hfirst entry hentry)
      rw [if_pos hlt, lookup_entry x name]
      split_ifs with hx
      · rw [hx, hnone, Option.none_or]
      · rw [Option.or_none]
    · rw [if_neg hlt, lookup_entry, lookup_entry, ih hrest]
      split_ifs with hx hx'
      · rw [Option.some_or]
      · rw [Option.some_or]
      · rfl
      · rfl

/-- The names are worked through from a place on: each gets the place where it is met first. -/
theorem places_of_names (names : List String) (k : Nat) (h : Ascending order) :
    let placed := (names.zipIdx k).foldl (fun order entry => insertFirst entry.1 entry.2 order) order
    Ascending placed ∧
      ∀ x, placed.lookup x = (order.lookup x).or ((names.idxOf? x).map (k + ·)) := by
  induction names generalizing order k with
  | nil => exact ⟨h, fun x => by simp⟩
  | cons name names ih =>
    obtain ⟨hascending, hlookup⟩ := ih (k + 1) (h.insertFirst name k)
    refine ⟨hascending, fun x => ?_⟩
    rw [List.zipIdx_cons, List.foldl_cons, hlookup, h.lookup_insertFirst, Option.or_assoc,
      List.idxOf?_cons]
    congr 1
    by_cases hx : x = name
    · simp [hx]
    · have hother : (name == x) = false := beq_eq_false_iff_ne.mpr (Ne.symm hx)
      rw [if_neg hx, hother, Option.none_or]
      simp [Option.map_map, Function.comp_def, Nat.add_assoc, Nat.add_comm 1]

end Grammar

/-! ## Properties -/

/-- A property: a name and a type, which may be nested. -/
inductive IsProperty (env : ParserEnv) : String → Tree → Prop
  | mk {t : Token} {seg : List Token} {ty : Tree} {id nid : NodeId} (typing : Typing env seg ty) :
      IsProperty env t.value
        (.node id t (.pair nid ty.root) [.leaf nid t (.identifier t.value), ty])

variable {env : ParserEnv} {ps : List Tree} {seg : List Token}

theorem isProperty_of_pair {p : Tree} (h : Pair env seg p) : IsProperty env p.token.value p := by
  cases h with
  | mk _ ty => exact .mk ty

/-- Each property has the text of the token that it starts at as its name. -/
theorem Language.Properties.named (h : Language.Properties env seg ps) :
    List.Forall₂ (IsProperty env) (ps.map fun p => p.token.value) ps := by
  have hpairs : ∀ p ∈ ps, ∃ seg, Pair env seg p := by
    intro p hp
    cases h with
    | none => exact absurd hp List.not_mem_nil
    | some pairs => exact pairs.of_mem hp
  refine List.forall₂_map_left_iff.mpr (List.forall₂_same.mpr fun p hp => ?_)
  obtain ⟨inner, hpair⟩ := hpairs p hp
  exact isProperty_of_pair hpair

/-- The first place of a name among the properties is the one that is kept. -/
theorem lookup_propertyOrder (ps : List Tree) :
    ((propertyOrder ps).map Prod.fst).Nodup ∧
      ∀ x, (propertyOrder ps).lookup x = (ps.map fun p => p.token.value).idxOf? x := by
  have hnone : Ascending ([] : List (String × Nat)) := List.Pairwise.nil
  obtain ⟨hascending, hlookup⟩ := places_of_names (ps.map fun p => p.token.value) 0 hnone
  refine ⟨hascending.nodup_names, fun x => (hlookup x).trans ?_⟩
  simp

/-! ## Types -/

theorem readN_pair_reads {S : Setting} (depth : Nat) :
    Reads S env (readN depth .pair) (One (Pair env)) := by
  cases depth with
  | zero => exact fun s hs => .exhausted (Step.refl hs)
  | succ depth => exact pair_reads (readN_type_reads depth)

/-- A type that is read is one of the language, of nodes that all differ. -/
theorem typeDef_parse_run {s s' : ParserState} {id : NodeId}
    (hrun : Production.typeDef.parse env s = (.ok id, s')) :
    ∃ seg t, TypeDef env seg t ∧ t.root = id ∧ s'.work.arena.Holds t ∧ t.handles.Nodup := by
  have hdepth : Production.depth s.cursor.rest.length = 4 * s.cursor.rest.length + 7 + 1 := rfl
  rw [production_run, hdepth] at hrun
  have hread : Outcome .any s (One (TypeDef env))
      (readN (4 * s.cursor.rest.length + 7 + 1) .typeDef env s) :=
    typeDef_reads (readN_pair_reads _) s (any_fits s)
  obtain ⟨seg, ts, step, t, rfl, rfl, ht⟩ := hread.of_run hrun
  exact ⟨seg, t, ht, rfl, step.arena.holds List.mem_cons_self,
    step.arena.nodup_handles List.mem_cons_self⟩

/-- The parts of a signature have other nodes than what stands beside it. -/
theorem nodup_beside {name c : Tree} {ps parts traits : List Tree} {id : NodeId} {token : Token}
    {expr : Expr} (hparts : (Tree.handlesOf parts).Sublist c.handles)
    (h : (Tree.node id token expr (name :: (ps ++ c :: traits))).handles.Nodup) :
    (Tree.handlesOf (name :: (ps ++ parts))).Nodup := by
  refine h.sublist ?_
  have hall : Tree.handlesOf (name :: (ps ++ c :: traits)) =
      name.handles ++ (Tree.handlesOf ps ++ (c.handles ++ Tree.handlesOf traits)) := by
    rw [Tree.handlesOf_cons, Tree.handlesOf_append, Tree.handlesOf_cons]
  rw [Tree.handles_node, hall, Tree.handlesOf_cons, Tree.handlesOf_append]
  exact .cons _ (.append_left (.append_left (hparts.trans (List.sublist_append_left _ _)) _) _)

theorem handlesOf_parts_sublist {receiver result : Tree} {params : List Tree} {sid nid : NodeId}
    {token : Token} {expr name : Expr} :
    (Tree.handlesOf (receiver :: (params ++ [result]))).Sublist (Tree.node sid token expr
      (receiver :: .leaf nid token name :: (params ++ [result]))).handles := by
  rw [Tree.handles_node, Tree.handlesOf_cons, Tree.handlesOf_cons, Tree.handlesOf_cons]
  exact .cons _ (.append_left (List.sublist_append_right _ _) _)

/-- Where a type is read, its node has a constructor exactly when there are properties.  It is a
static signature of its own name, which receives and returns a copy of the name of the type and
whose parameters are copies of the properties, one by one; none of these trees has a node in common
with another one, nor with the name or a property.  The order of the properties has each of their
names once, with the place of the first property of that name. -/
theorem typeDef_constructor {env : ParserEnv} {s s' : ParserState} {id : NodeId}
    (hrun : Production.typeDef.parse env s = (.ok id, s')) :
    ∃ (keyword nameToken : Token) (nameId : NodeId) (properties traits : List Tree)
      (names : List String) (order : List (String × Nat)) (made : Option Tree),
      let name := typeLeaf env nameId nameToken
      s'.work.arena.Holds (.node id keyword
        (.typeDef nameId (properties.map Tree.root) order (made.map Tree.root)
          (traits.map Tree.root)) (name :: (properties ++ (made.toList ++ traits)))) ∧
      List.Forall₂ (IsProperty env) names properties ∧
      (made = none ↔ properties = []) ∧
      (∀ c, made = some c → ∃ (sid nid : NodeId) (receiver result : Tree) (params : List Tree),
        c = .node sid nameToken
          (.signature nid receiver.root (params.map Tree.root) (some result.root) true)
          (receiver :: .leaf nid nameToken (.identifier "__init__") :: (params ++ [result])) ∧
        name.IsCopy receiver ∧ name.IsCopy result ∧ List.Forall₂ Tree.IsCopy properties params ∧
        (Tree.handlesOf (name :: (properties ++ receiver :: (params ++ [result])))).Nodup) ∧
      (order.map Prod.fst).Nodup ∧ ∀ x, order.lookup x = names.idxOf? x := by
  obtain ⟨seg, t, ht, rfl, hholds, hnodup⟩ := typeDef_parse_run hrun
  cases ht with
  | @mk k t seg rest ps ts made id tid hk ht properties constructor traits =>
    refine ⟨k, t, tid, ps, ts, _, propertyOrder ps, made, hholds, properties.named, ?_, ?_,
      lookup_propertyOrder ps⟩
    · cases constructor with
      | none => exact ⟨fun _ => rfl, fun _ => rfl⟩
      | some hsome => exact ⟨nofun, fun hnil => absurd hnil hsome⟩
    · rintro c rfl
      cases constructor with
      | some _ hreceiver hresult hparams =>
        exact ⟨_, _, _, _, _, rfl, hreceiver, hresult, hparams,
          nodup_beside handlesOf_parts_sublist hnodup⟩

/-- A type with a nested property and a name that stands twice. -/
def repeatedName : List Char := "type T (a [[N]], b M, a N)".toList

/-- The node is that of a type with a constructor, and these are the places of two names. -/
def placesAre (a : Arena) (id : NodeId) (first second : String × Nat) : Bool :=
  match a.expr id with
  | .ok (.typeDef _ _ order made _) =>
      made.isSome && order.lookup first.1 == some first.2 && order.lookup second.1 == some second.2
  | _ => false

theorem typeDef_constructor_repeatedName :
    ∃ tokens id s' names properties, builtin.tokenize repeatedName = .ok tokens ∧
      Production.typeDef.parse .standard (.start tokens .builtin) = (.ok id, s') ∧
      List.Forall₂ (IsProperty .standard) names properties ∧ properties ≠ [] ∧
      names.idxOf? "a" = some 0 ∧ names.idxOf? "b" = some 1 := by
  have hread : ((builtin.tokenize repeatedName).toOption.any fun tokens =>
      Outcome.passes (Production.typeDef.parse .standard (.start tokens .builtin)) fun id s =>
        placesAre s.work.arena id ("a", 0) ("b", 1)) = true := by
    decide +kernel
  cases hcut : builtin.tokenize repeatedName with
  | error d =>
    rw [hcut] at hread
    cases hread
  | ok tokens =>
    rw [hcut] at hread
    have htest : Outcome.passes (Production.typeDef.parse .standard (.start tokens .builtin))
        (fun id s => placesAre s.work.arena id ("a", 0) ("b", 1)) = true := hread
    obtain ⟨id, s', hrun, hplaces⟩ := Outcome.exists_of_passes htest
    obtain ⟨keyword, nameToken, nameId, properties, traits, names, order, made, hholds, hnames,
      hmade, _, _, hlookup⟩ := typeDef_constructor hrun
    have hexpr : s'.work.arena.expr id = .ok (.typeDef nameId (properties.map Tree.root) order
      (made.map Tree.root) (traits.map Tree.root)) := hholds.shows.expr
    unfold placesAre at hplaces
    rw [hexpr] at hplaces
    simp only [Bool.and_eq_true, beq_iff_eq] at hplaces
    obtain ⟨⟨hsome, hfirst⟩, hsecond⟩ := hplaces
    refine ⟨tokens, id, s', names, properties, rfl, hrun, hnames, ?_, ?_, ?_⟩
    · intro hnil
      rw [hmade.mpr hnil] at hsome
      cases hsome
    · rw [← hlookup, hfirst]
    · rw [← hlookup, hsecond]

end ApiSyntax
