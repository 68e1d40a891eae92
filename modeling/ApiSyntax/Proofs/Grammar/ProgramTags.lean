/-
  ApiSyntax/Proofs/Grammar/ProgramTags.lean --- the tags of a program.

  When the annotations of a program are told apart from its APIs, the program node is
  tagged with their names, one after another.  The tags that it has at the end are the
  names in the order in which each is first met, and each tag leads to the annotation that
  was met first.

  Main statement: `tags_unique_first`.
-/
import ApiSyntax.Proofs.Arena.Tags
import ApiSyntax.Proofs.Grammar.Ledger
import ApiSyntax.Reading

set_option autoImplicit false

namespace ApiSyntax

open ApiSyntax.Parser ApiSyntax.Arena

/-- A tag that was added to the arena of a workspace was added to that arena. -/
theorem Workspace.tag_eq_ok {id : NodeId} {t : Tag} {added : Bool} {w w' : Workspace}
    (h : Workspace.tag id t w = (.ok added, w')) : w.arena.tag id t = .ok (added, w'.arena) := by
  cases htag : w.arena.tag id t with
  | error d =>
    simp only [Workspace.tag, Workspace.edit, Workspace.onArena, htag] at h
    cases h
  | ok answer =>
    simp only [Workspace.tag, Workspace.edit, Workspace.onArena, htag] at h
    cases h
    rfl

/-- The node has these contents, and a tag for the first annotation of each name among these. -/
structure Arena.Tagged (a : Arena) (id : NodeId) (e : Expr) (names : List String)
    (annotations : List NodeId) : Prop where
  node : ∃ n, a.node? id = some n ∧ n.expr = e ∧ n.tags = firstTags names annotations
  named : List.Forall₂ (fun name annotation => ∃ params,
    a.expr annotation = .ok (.annotationCall name params)) names annotations

variable {a b : Arena} {root : NodeId} {e : Expr} {names : List String} {done ids : List NodeId}

/-- With one more annotation. -/
theorem Arena.Tagged.step {name : String} {params : List NodeId} {id : NodeId} {added : Bool}
    (h : a.Tagged root e names done) (hid : a.expr id = .ok (.annotationCall name params))
    (htag : a.tag root ⟨name, some id⟩ = .ok (added, b)) :
    b.Tagged root e (names ++ [name]) (done ++ [id]) := by
  have hlength := h.named.length_eq
  obtain ⟨n, hn, hexpr, htags⟩ := h.node
  obtain ⟨added', b', hanswer, hnew, hnode, -⟩ := (tag_answer a root ⟨name, some id⟩).2 n hn
  rw [htag] at hanswer
  cases hanswer
  have hnames : name ∈ n.tagNames ↔ name ∈ names := by
    rw [Node.tagNames, htags, firstTags_names, List.mem_eraseDups]
  constructor
  · refine ⟨_, hnode, hexpr, ?_⟩
    dsimp only
    rw [firstTags_concat hlength, htags]
    by_cases hmem : name ∈ names
    · rw [if_pos hmem, if_neg fun hadded => hnew.mp hadded (hnames.mpr hmem)]
    · rw [if_neg hmem, if_pos (hnew.mpr fun hold => hmem (hnames.mp hold))]
  · have hkept : ∀ other, b.expr other = a.expr other := expr_of_tag htag
    have hold : List.Forall₂ (fun name annotation => ∃ params,
        b.expr annotation = .ok (.annotationCall name params)) names done :=
      h.named.imp fun _ other hother => hother.imp fun _ hcall => (hkept other).trans hcall
    exact List.rel_append hold (.cons ⟨params, (hkept id).trans hid⟩ .nil)

namespace Grammar

variable {env : ParserEnv} {s s' : ParserState}

/-- All annotations, one after another. -/
theorem tagAll_tagged (hrun : tagAll root ids env s = (.ok (), s'))
    (h : s.work.arena.Tagged root e names done)
    (hids : ∀ id ∈ ids, s.work.arena.kind id = .ok .annotationCall) :
    ∃ more, s'.work.arena.Tagged root e (names ++ more) (done ++ ids) := by
  induction ids generalizing s names done with
  | nil =>
    cases hrun
    refine ⟨[], ?_⟩
    rwa [List.append_nil, List.append_nil]
  | cons id ids ih =>
    unfold tagAll at hrun
    obtain ⟨f, s₁, hf, hrun⟩ := bind_eq_ok.mp hrun
    obtain ⟨hexpr, hsame⟩ := atArena_eq_ok hf
    rw [hsame] at hrun
    obtain ⟨name, params, rfl⟩ : ∃ name params, f = .annotationCall name params := by
      obtain ⟨g, hg, hkind⟩ := kind_eq_ok.mp (hids id List.mem_cons_self)
      rw [hexpr] at hg
      cases hg
      cases f with
      | annotationCall name params => exact ⟨name, params, rfl⟩
      | _ => cases hkind
    obtain ⟨added, s₂, htag, hrest⟩ := bind_eq_ok.mp hrun
    have hstep := Workspace.tag_eq_ok (Action.of_mapError_eq_ok (building_eq_ok htag))
    have hkinds : ∀ other ∈ ids, s₂.work.arena.kind other = .ok .annotationCall := by
      intro other hother
      obtain ⟨g, hg, hkind⟩ := kind_eq_ok.mp (hids other (List.mem_cons_of_mem _ hother))
      exact kind_eq_ok.mpr ⟨g, (expr_of_tag hstep other).trans hg, hkind⟩
    obtain ⟨more, hmore⟩ := ih hrest (h.step hexpr hstep) hkinds
    refine ⟨name :: more, ?_⟩
    rwa [List.append_assoc, List.append_assoc] at hmore

/-- Handles of annotations are told apart as such. -/
theorem separate_kinds {nodes : List NodeId} {parts : List NodeId × List NodeId}
    (h : separate a nodes = .ok parts) : ∀ id ∈ parts.1, a.kind id = .ok .annotationCall := by
  induction nodes generalizing parts with
  | nil =>
    cases h
    exact fun id hid => absurd hid List.not_mem_nil
  | cons id nodes ih =>
    obtain ⟨f, rest, hf, hrest, hparts⟩ := separate_cons h
    obtain ⟨hkind, rfl⟩ | ⟨-, rfl⟩ := hparts
    · exact List.forall_mem_cons.mpr ⟨kind_eq_ok.mpr ⟨f, hf, hkind⟩, ih hrest⟩
    · exact fun other hother => ih hrest other hother

/-- A program that was read is tagged with the first of its annotations of each name. -/
theorem program_tagged {read : Production → Parser NodeId}
    (hrun : program read env s = (.ok root, s')) : ∃ apis annotations names,
      s'.work.arena.Tagged root (.program apis annotations) names annotations := by
  obtain ⟨start, s₁, hstart, hrun⟩ := bind_eq_ok.mp hrun
  obtain ⟨nodes, s₂, hphase, hrun⟩ := bind_eq_ok.mp hrun
  obtain ⟨parts, s₃, hparts, hrun⟩ := bind_eq_ok.mp hrun
  obtain ⟨hparts, hsame⟩ := atArena_eq_ok hparts
  rw [hsame] at hrun
  obtain ⟨id, s₄, halloc, hrun⟩ := bind_eq_ok.mp hrun
  obtain ⟨_, s₅, htags, hrest⟩ := bind_eq_ok.mp hrun
  cases hrest
  cases halloc
  have hkinds := separate_kinds hparts
  have hkept : ∀ other ∈ parts.1, (s₂.work.arena.push start (.program parts.2 parts.1)).kind other =
      .ok .annotationCall := by
    intro other hother
    obtain ⟨f, hf, hkind⟩ := kind_eq_ok.mp (hkinds other hother)
    obtain ⟨n, hn, hexpr⟩ := expr_eq_ok.mp hf
    refine kind_eq_ok.mpr ⟨f, expr_eq_ok.mpr ⟨n, ?_, hexpr⟩, hkind⟩
    rwa [node?_push_of_lt (lt_size_of_node? hn)]
  obtain ⟨names, htagged⟩ :=
    tagAll_tagged htags ⟨⟨_, node?_push_next _ _ _, rfl, rfl⟩, .nil⟩ hkept
  exact ⟨parts.2, parts.1, names, htagged⟩

end Grammar

/-! ## Tags -/

/-- Over any sequence of changes the names of the tags on a node stay different, and the answer to
tagging a node is whether a tag was added to it.  A program that was read from a text has a tag for
each name of its annotations, in the order in which the names first occur, and each leads to the
first annotation of that name. -/
theorem tags_unique_first (edits : List Edit) {source : List Char} {root : NodeId}
    (h : (Reading.ofSource .program source).root = .ok root) :
    let a := Arena.empty.afterAll edits
    (∀ id n, a.node? id = some n → n.tagNames.Nodup) ∧
      (∀ id n t, a.node? id = some n → ∃ added b, a.tag id t = .ok (added, b) ∧
        (added = true ↔ t.name ∉ n.tagNames) ∧
        b.node? id = some { n with tags := if added then n.tags ++ [t] else n.tags } ∧
        ∀ other, other ≠ id → b.node? other = a.node? other) ∧
      ∃ n apis annotations names,
        (Reading.ofSource .program source).work.arena.node? root = some n ∧
        n.expr = .program apis annotations ∧
        List.Forall₂ (fun name annotation => ∃ params,
          (Reading.ofSource .program source).work.arena.expr annotation =
            .ok (.annotationCall name params)) names annotations ∧
        n.tags = names.eraseDups.map fun name => ⟨name, annotations[names.idxOf name]?⟩ := by
  obtain ⟨tokens, s, hrun, harena, -⟩ := Reading.ofSource_ok h
  obtain ⟨apis, annotations, names, ⟨n, hn, hexpr, htags⟩, hnamed⟩ := Grammar.program_tagged hrun
  rw [harena]
  exact ⟨UniqueTags.empty.afterAll edits, fun id n t hid => (tag_answer _ id t).2 n hid,
    n, apis, annotations, names, hn, hexpr, hnamed, htags⟩

/-- A program with an operator of its own, then a prefix operator, then an operator again. -/
def operatorProgram : List Char :=
  ("@Operator.Infix((Int) ^ (o Int) (Int)) @Operator.Prefix((Int) ~ () (Int)) api A \x7b \x7d " ++
    "@Operator.Infix((Int) <> (o Int))").toList

/-- A node that is tagged twice with one name, and a copy of it. -/
def taggedTwice : List Edit :=
  [.alloc ⟨.identifier, "x", .start⟩ (.identifier "x"), .tag ⟨0⟩ ⟨"seen", none⟩,
    .tag ⟨0⟩ ⟨"seen", some ⟨0⟩⟩, .duplicate ⟨0⟩]

theorem tags_unique_first_operatorProgram :
    ∃ (root : NodeId) (n : Node) (apis annotations : List NodeId) (names : List String),
    (∀ id n, (Arena.empty.afterAll taggedTwice).node? id = some n → n.tagNames.Nodup) ∧
      (Reading.ofSource .program operatorProgram).root = .ok root ∧
      (Reading.ofSource .program operatorProgram).work.arena.node? root = some n ∧
      n.expr = .program apis annotations ∧ n.tagNames = ["Operator.Infix", "Operator.Prefix"] ∧
      n.tags = names.eraseDups.map fun name => ⟨name, annotations[names.idxOf name]?⟩ := by
  have hread : ((Reading.ofSource .program operatorProgram).root.toOption.any fun root =>
      decide (((Reading.ofSource .program operatorProgram).work.arena.node? root).map
        Node.tagNames = some ["Operator.Infix", "Operator.Prefix"])) = true := by
    decide +kernel
  obtain ⟨root, hroot, hnames⟩ := Reading.exists_root_any hread
  obtain ⟨hunique, -, n, apis, annotations, names, hn, hexpr, -, htags⟩ :=
    tags_unique_first taggedTwice hroot
  rw [hn, decide_eq_true_eq] at hnames
  exact ⟨root, n, apis, annotations, names, hunique, hroot, hn, hexpr, Option.some.inj hnames, htags⟩

end ApiSyntax
