/-
  ApiSyntax/Proofs/Pattern/Finding.lean --- what matches is found.

  At one place the matcher follows each stack once, in a bounded number of steps.  The
  bound is no limit: a path that comes back to a stack ends there, and one that does not
  goes past each pattern of the stack a single time (`Fits`).  So what has been seen at the
  end is closed under moves, and whatever belongs to the pattern is on its way through it.
  Together with the other direction, something is found where something matches and
  nowhere else.
-/
import ApiSyntax.Proofs.Pattern.Extent

set_option autoImplicit false

namespace ApiSyntax

namespace Pattern

/-! ## The number of steps -/

/-- The number of steps that it takes to get past the pattern, if nothing is read. -/
def cost : Pattern → Nat
  | empty => 1
  | char _ => 1
  | place _ => 1
  | seq a b => a.cost + b.cost + 1
  | alt a b => a.cost + b.cost + 1
  | plus p _ => 2 * p.cost + 2
  | again p _ => p.cost + 1
  | times n p => n * (p.cost + 1) + 1
  | upTo n p _ => n * (p.cost + 1) + 1

/-- The number of steps that it takes to get past all patterns of the stack. -/
def Stack.cost : Stack → Nat
  | [] => 0
  | p :: stack => p.cost + Stack.cost stack

@[simp] theorem Stack.cost_cons (p : Pattern) (stack : Stack) :
    Stack.cost (p :: stack) = p.cost + Stack.cost stack := rfl

theorem cost_pos (p : Pattern) : 0 < p.cost := by
  cases p <;> simp [cost]

theorem cost_le_depth (p : Pattern) : p.cost ≤ p.depth := by
  induction p with
  | times n p ih =>
    have hrounds : n * (p.cost + 1) ≤ n * (p.depth + 1) := Nat.mul_le_mul_left n (by omega)
    simp only [cost, depth]
    omega
  | upTo n p greedy ih =>
    have hrounds : n * (p.cost + 1) ≤ n * (p.depth + 1) := Nat.mul_le_mul_left n (by omega)
    simp only [cost, depth]
    omega
  | _ =>
    simp only [cost, depth]
    omega

/-- With `n` steps the stack is followed to its end, or to one of those in `seen`. -/
inductive Stack.Fits (seen : List Stack) : Nat → Stack → Prop
  | seen {n : Nat} {stack : Stack} (h : stack ∈ seen) : Stack.Fits seen n stack
  | nil {n : Nat} : Stack.Fits seen (n + 1) []
  | cons {n m : Nat} {p : Pattern} {stack : Stack} (below : Stack.Fits seen n stack)
      (enough : p.cost + n ≤ m) : Stack.Fits seen m (p :: stack)

variable {p : Pattern} {stack : Stack} {seen seen' : List Stack} {n m : Nat}
  {before after : Option Char}

theorem Stack.Fits.mono (h : Stack.Fits seen n stack) (hseen : seen ⊆ seen') (hle : n ≤ m) :
    Stack.Fits seen' m stack := by
  induction h generalizing m with
  | seen h => exact .seen (hseen h)
  | nil =>
    obtain ⟨k, rfl⟩ : ∃ k, m = k + 1 := ⟨m - 1, by omega⟩
    exact .nil
  | cons below enough ih => exact .cons (ih (Nat.le_refl _)) (Nat.le_trans enough hle)

theorem Stack.fits_cost (seen : List Stack) (stack : Stack) :
    Stack.Fits seen (Stack.cost stack + 1) stack := by
  induction stack with
  | nil => exact .nil
  | cons p stack ih =>
    refine .cons ih ?_
    rw [Stack.cost_cons]
    omega

/-- One step less is left behind each move of a stack that is new. -/
theorem Stack.Fits.moves (h : Stack.Fits seen (n + 1) stack) (hnew : stack ∉ seen) :
    ∀ next ∈ stack.moves before after, Stack.Fits (stack :: seen) n next := by
  have hgrown : seen ⊆ stack :: seen := List.subset_cons_self stack seen
  cases h with
  | seen h => exact absurd h hnew
  | nil => exact fun next hnext => (List.not_mem_nil hnext).elim
  | @cons k _ p rest below enough =>
    have hpast : ∀ {m : Nat}, k ≤ m → Stack.Fits ((p :: rest) :: seen) m rest :=
      below.mono hgrown
    cases p with
    | empty =>
      simp only [Pattern.cost] at enough
      exact List.forall_mem_singleton.mpr (hpast (by omega))
    | char set => exact fun next hnext => (List.not_mem_nil hnext).elim
    | place q =>
      simp only [Pattern.cost] at enough
      dsimp only [Stack.moves]
      split
      · exact List.forall_mem_singleton.mpr (hpast (by omega))
      · exact fun next hnext => (List.not_mem_nil hnext).elim
    | seq a b =>
      simp only [Pattern.cost] at enough
      exact List.forall_mem_singleton.mpr
        (.cons (.cons (hpast (Nat.le_refl k)) (Nat.le_refl _)) (by omega))
    | alt a b =>
      simp only [Pattern.cost] at enough
      exact List.forall_mem_cons.mpr ⟨.cons (hpast (Nat.le_refl k)) (by omega),
        List.forall_mem_singleton.mpr (.cons (hpast (Nat.le_refl k)) (by omega))⟩
    | plus q greedy =>
      simp only [Pattern.cost] at enough
      have hagain : (again q greedy).cost = q.cost + 1 := rfl
      exact List.forall_mem_singleton.mpr
        (.cons (.cons (hpast (Nat.le_refl k)) (Nat.le_refl _)) (by omega))
    | again q greedy =>
      simp only [Pattern.cost] at enough
      -- A round comes back to this very stack, so only the way through `q` counts.
      have hround : Stack.Fits ((again q greedy :: rest) :: seen) n
          (q :: again q greedy :: rest) :=
        .cons (n := 0) (.seen List.mem_cons_self) (by omega)
      have hend : Stack.Fits ((again q greedy :: rest) :: seen) n rest := hpast (by omega)
      cases greedy
      · exact List.forall_mem_cons.mpr ⟨hend, List.forall_mem_singleton.mpr hround⟩
      · exact List.forall_mem_cons.mpr ⟨hround, List.forall_mem_singleton.mpr hend⟩
    | times i q =>
      simp only [Pattern.cost] at enough
      cases i with
      | zero => exact List.forall_mem_singleton.mpr (hpast (by omega))
      | succ i =>
        have hrounds : (times i q).cost = i * (q.cost + 1) + 1 := rfl
        rw [Nat.succ_mul] at enough
        exact List.forall_mem_singleton.mpr
          (.cons (.cons (hpast (Nat.le_refl k)) (Nat.le_refl _)) (by omega))
    | upTo i q greedy =>
      simp only [Pattern.cost] at enough
      have hend : Stack.Fits ((upTo i q greedy :: rest) :: seen) n rest := hpast (by omega)
      cases i with
      | zero => exact List.forall_mem_singleton.mpr hend
      | succ i =>
        have hrounds : (upTo i q greedy).cost = i * (q.cost + 1) + 1 := rfl
        rw [Nat.succ_mul] at enough
        have hround : Stack.Fits ((upTo (i + 1) q greedy :: rest) :: seen) n
            (q :: upTo i q greedy :: rest) :=
          .cons (.cons (hpast (Nat.le_refl k)) (Nat.le_refl _)) (by omega)
        cases greedy
        · exact List.forall_mem_cons.mpr ⟨hend, List.forall_mem_singleton.mpr hround⟩
        · exact List.forall_mem_cons.mpr ⟨hround, List.forall_mem_singleton.mpr hend⟩

/-! ## The bound is kept -/

/-- The stack, and what waits on the way through it, has no more than `bound` steps in it. -/
inductive Stack.Within (bound : Nat) : Stack → Prop
  | nil : Stack.Within bound []
  | cons {p : Pattern} {stack : Stack} (top : p.depth + Stack.cost stack ≤ bound)
      (below : Stack.Within bound stack) : Stack.Within bound (p :: stack)

variable {bound : Nat}

theorem Stack.Within.fits (h : Stack.Within bound stack) (seen : List Stack) :
    Stack.Fits seen (bound + 1) stack := by
  refine (Stack.fits_cost seen stack).mono (List.Subset.refl seen) (Nat.succ_le_succ ?_)
  cases h with
  | nil => exact Nat.zero_le bound
  | @cons p stack top below =>
    have hcost := cost_le_depth p
    rw [Stack.cost_cons]
    omega

theorem Stack.Within.moves (h : Stack.Within bound stack) :
    ∀ next ∈ stack.moves before after, Stack.Within bound next := by
  cases h with
  | nil => exact fun next hnext => (List.not_mem_nil hnext).elim
  | @cons p rest top below =>
    cases p with
    | empty => exact List.forall_mem_singleton.mpr below
    | char set => exact fun next hnext => (List.not_mem_nil hnext).elim
    | place q =>
      dsimp only [Stack.moves]
      split
      · exact List.forall_mem_singleton.mpr below
      · exact fun next hnext => (List.not_mem_nil hnext).elim
    | seq a b =>
      simp only [depth] at top
      have hb := cost_le_depth b
      have hsecond : Stack.Within bound (b :: rest) := .cons (by omega) below
      exact List.forall_mem_singleton.mpr (.cons (by rw [Stack.cost_cons]; omega) hsecond)
    | alt a b =>
      simp only [depth] at top
      exact List.forall_mem_cons.mpr ⟨.cons (by omega) below,
        List.forall_mem_singleton.mpr (.cons (by omega) below)⟩
    | plus q greedy =>
      have hq := cost_le_depth q
      have hagain : (again q greedy).cost = q.cost + 1 := rfl
      have hothers : Stack.Within bound (again q greedy :: rest) := .cons top below
      simp only [depth] at top
      exact List.forall_mem_singleton.mpr (.cons (by rw [Stack.cost_cons]; omega) hothers)
    | again q greedy =>
      have hq := cost_le_depth q
      have hagain : (again q greedy).cost = q.cost + 1 := rfl
      have hothers : Stack.Within bound (again q greedy :: rest) := .cons top below
      simp only [depth] at top
      have hround : Stack.Within bound (q :: again q greedy :: rest) :=
        .cons (by rw [Stack.cost_cons]; omega) hothers
      cases greedy
      · exact List.forall_mem_cons.mpr ⟨below, List.forall_mem_singleton.mpr hround⟩
      · exact List.forall_mem_cons.mpr ⟨hround, List.forall_mem_singleton.mpr below⟩
    | times i q =>
      cases i with
      | zero => exact List.forall_mem_singleton.mpr below
      | succ i =>
        have hrounds : (times i q).depth = i * (q.depth + 1) + 1 := rfl
        have hcost := cost_le_depth (times i q)
        simp only [depth, Nat.succ_mul] at top
        have hothers : Stack.Within bound (times i q :: rest) := .cons (by omega) below
        exact List.forall_mem_singleton.mpr (.cons (by rw [Stack.cost_cons]; omega) hothers)
    | upTo i q greedy =>
      cases i with
      | zero => exact List.forall_mem_singleton.mpr below
      | succ i =>
        have hrounds : (upTo i q greedy).depth = i * (q.depth + 1) + 1 := rfl
        have hcost := cost_le_depth (upTo i q greedy)
        simp only [depth, Nat.succ_mul] at top
        have hothers : Stack.Within bound (upTo i q greedy :: rest) := .cons (by omega) below
        have hround : Stack.Within bound (q :: upTo i q greedy :: rest) :=
          .cons (by rw [Stack.cost_cons]; omega) hothers
        cases greedy
        · exact List.forall_mem_cons.mpr ⟨below, List.forall_mem_singleton.mpr hround⟩
        · exact List.forall_mem_cons.mpr ⟨hround, List.forall_mem_singleton.mpr below⟩

/-- What waits is within the bound. -/
def Front.Within (bound : Nat) (f : Front) : Prop := ∀ w ∈ f.waiting, Stack.Within bound w.2

variable {f f' : Front} {fuel : Nat} {pending : List Stack}

theorem Front.Within.look (hf : f.Within bound) (h : Stack.Within bound stack) :
    (f.look stack).Within bound := by
  cases h with
  | nil => exact hf
  | @cons p rest top below =>
    cases p with
    | char set => exact List.forall_mem_cons.mpr ⟨below, hf⟩
    | _ => exact hf

theorem follow_within (h : Stack.Within bound stack) (hf : f.Within bound) :
    (follow before after fuel stack f).Within bound := by
  induction fuel generalizing stack f with
  | zero => exact hf
  | succ fuel ih =>
    rw [follow_succ]
    split
    · exact hf
    · exact foldl_keeps (J := Stack.Within bound) (fun _ _ hf h => ih h hf) h.moves (hf.look h)

theorem front_within (h : ∀ stack ∈ pending, Stack.Within bound stack) :
    (front before after fuel pending).Within bound := by
  have hempty : Front.Within bound ⟨[], [], false⟩ := fun w hw => (List.not_mem_nil hw).elim
  exact foldl_keeps (J := Stack.Within bound) (fun _ _ hf h => follow_within h hf) h hempty

theorem Front.Within.read (hf : f.Within bound) (c : Char) :
    ∀ stack ∈ f.read c, Stack.Within bound stack := by
  intro stack hstack
  obtain ⟨w, hw, hread⟩ := List.mem_filterMap.mp hstack
  split at hread
  · cases hread
    exact hf w (List.mem_reverse.mp hw)
  · cases hread

/-! ## What has been seen -/

/-- Each stack that has been seen has been looked at. -/
structure Front.Looked (f : Front) : Prop where
  ended : [] ∈ f.seen → f.matched = true
  waits : ∀ set rest, char set :: rest ∈ f.seen → (set, rest) ∈ f.waiting

theorem Front.look_seen (f : Front) (stack : Stack) : (f.look stack).seen = stack :: f.seen := by
  cases stack with
  | nil => rfl
  | cons top rest => cases top <;> rfl

theorem Front.Looked.look (hf : f.Looked) (stack : Stack) : (f.look stack).Looked := by
  have hmatched : f.matched = true → (f.look stack).matched = true := by
    cases stack with
    | nil => exact fun _ => rfl
    | cons top rest => cases top <;> exact id
  have hwaiting : f.waiting ⊆ (f.look stack).waiting := by
    cases stack with
    | nil => exact List.Subset.refl _
    | cons top rest =>
      cases top with
      | char set => exact List.subset_cons_self _ _
      | _ => exact List.Subset.refl _
  constructor
  · intro hnil
    rw [Front.look_seen] at hnil
    rcases List.mem_cons.mp hnil with rfl | hnil
    · rfl
    · exact hmatched (hf.ended hnil)
  · intro set rest hchar
    rw [Front.look_seen] at hchar
    rcases List.mem_cons.mp hchar with rfl | hchar
    · exact List.mem_cons_self
    · exact hwaiting (hf.waits set rest hchar)

theorem follow_looked (hf : f.Looked) : (follow before after fuel stack f).Looked := by
  induction fuel generalizing stack f with
  | zero => exact hf
  | succ fuel ih =>
    rw [follow_succ]
    split
    · exact hf
    · exact foldl_keeps (J := fun _ => True) (fun _ _ hf _ => ih hf) (fun _ _ => trivial)
        (hf.look stack)

/-- From `f` to `f'` more has been seen, and what is new has its moves seen too unless something
has matched. -/
structure Front.Grows (before after : Option Char) (f f' : Front) : Prop where
  kept : f.seen ⊆ f'.seen
  matched : f.matched = true → f'.matched = true
  closed : f'.matched = true ∨ ∀ stack ∈ f'.seen,
    stack ∈ f.seen ∨ ∀ next ∈ stack.moves before after, next ∈ f'.seen

theorem Front.Grows.refl (f : Front) : f.Grows before after f :=
  ⟨List.Subset.refl _, id, .inr fun _ => .inl⟩

theorem Front.Grows.trans {f'' : Front} (h : f.Grows before after f')
    (h' : f'.Grows before after f'') : f.Grows before after f'' := by
  refine ⟨List.Subset.trans h.kept h'.kept, fun hf => h'.matched (h.matched hf), ?_⟩
  rcases h'.closed with hmatched | hlater
  · exact .inl hmatched
  · rcases h.closed with hmatched | hearlier
    · exact .inl (h'.matched hmatched)
    · refine .inr fun stack hstack => ?_
      rcases hlater stack hstack with hold | hmoves
      · exact (hearlier stack hold).imp id fun hmoves next hnext => h'.kept (hmoves next hnext)
      · exact .inr hmoves

/-- Stacks that are followed one behind the other are all seen in the end. -/
theorem foldl_grows
    (hfollow : ∀ f stack, Stack.Fits f.seen fuel stack →
      f.Grows before after (follow before after fuel stack f) ∧
        ((follow before after fuel stack f).matched = true ∨
          stack ∈ (follow before after fuel stack f).seen))
    (hpending : ∀ stack ∈ pending, Stack.Fits f.seen fuel stack) :
    f.Grows before after (pending.foldl (fun f stack => follow before after fuel stack f) f) ∧
      ((pending.foldl (fun f stack => follow before after fuel stack f) f).matched = true ∨
        ∀ stack ∈ pending,
          stack ∈ (pending.foldl (fun f stack => follow before after fuel stack f) f).seen) := by
  induction pending generalizing f with
  | nil => exact ⟨.refl f, .inr fun _ hstack => (List.not_mem_nil hstack).elim⟩
  | cons stack pending ih =>
    obtain ⟨hstack, hothers⟩ := List.forall_mem_cons.mp hpending
    obtain ⟨hgrows, hseen⟩ := hfollow f stack hstack
    obtain ⟨hgrows', hseen'⟩ := ih fun other hother =>
      (hothers other hother).mono hgrows.kept (Nat.le_refl fuel)
    refine ⟨hgrows.trans hgrows', ?_⟩
    rcases hseen with hmatched | hseen
    · exact .inl (hgrows'.matched hmatched)
    · exact hseen'.imp id fun hall => List.forall_mem_cons.mpr ⟨hgrows'.kept hseen, hall⟩

/-- With enough steps a stack is followed to whatever it moves to. -/
theorem follow_grows (h : Stack.Fits f.seen fuel stack) :
    f.Grows before after (follow before after fuel stack f) ∧
      ((follow before after fuel stack f).matched = true ∨
        stack ∈ (follow before after fuel stack f).seen) := by
  induction fuel generalizing stack f with
  | zero =>
    cases h with
    | seen h => exact ⟨.refl f, .inr h⟩
    | @cons _ _ p _ _ enough =>
      have hpos := cost_pos p
      omega
  | succ fuel ih =>
    rw [follow_succ]
    split
    · next hstop =>
      refine ⟨.refl f, ?_⟩
      rcases (Bool.or_eq_true _ _).mp hstop with hmatched | hseen
      · exact .inl hmatched
      · exact .inr (List.contains_iff_mem.mp hseen)
    · next hgo =>
      rw [Bool.or_eq_true, not_or, List.contains_iff_mem] at hgo
      have hmoves : ∀ next ∈ stack.moves before after,
          Stack.Fits (f.look stack).seen fuel next := by
        rw [Front.look_seen]
        exact h.moves hgo.2
      obtain ⟨hgrows, hseen⟩ := foldl_grows (fun f stack => ih) hmoves
      generalize (stack.moves before after).foldl _ _ = f' at hgrows hseen
      have hkept := hgrows.kept
      rw [Front.look_seen] at hkept
      obtain ⟨hhere, hold⟩ := List.cons_subset.mp hkept
      refine ⟨⟨hold, fun hmatched => absurd hmatched hgo.1, ?_⟩, .inr hhere⟩
      rcases hseen with hmatched | hnext
      · exact .inl hmatched
      · refine hgrows.closed.imp id fun hclosed other hother => ?_
        rcases hclosed other hother with hother | hother
        · rw [Front.look_seen] at hother
          rcases List.mem_cons.mp hother with rfl | hother
          · exact .inr hnext
          · exact .inl hother
        · exact .inr hother

/-- Nothing is left to follow: each stack that has been seen has been looked at, and its moves have
been seen. -/
structure Front.Complete (before after : Option Char) (f : Front) : Prop where
  looked : f.Looked
  closed : ∀ stack ∈ f.seen, ∀ next ∈ stack.moves before after, next ∈ f.seen

/-- At a place all that the stacks lead to is seen, or something matches there. -/
theorem front_complete (h : ∀ stack ∈ pending, Stack.Within bound stack) :
    (front before after (bound + 1) pending).matched = true ∨
      (front before after (bound + 1) pending).Complete before after ∧
        ∀ stack ∈ pending, stack ∈ (front before after (bound + 1) pending).seen := by
  have hempty : Front.Looked ⟨[], [], false⟩ :=
    ⟨fun h => (List.not_mem_nil h).elim, fun _ _ h => (List.not_mem_nil h).elim⟩
  have hlooked : (front before after (bound + 1) pending).Looked :=
    foldl_keeps (J := fun _ => True) (fun _ _ hf _ => follow_looked hf) (fun _ _ => trivial) hempty
  have hfollowed : Front.Grows before after ⟨[], [], false⟩
      (front before after (bound + 1) pending) ∧
        ((front before after (bound + 1) pending).matched = true ∨
          ∀ stack ∈ pending, stack ∈ (front before after (bound + 1) pending).seen) :=
    foldl_grows (fun f stack => follow_grows) fun stack hstack => (h stack hstack).fits []
  obtain ⟨hgrows, hseen⟩ := hfollowed
  rcases hseen with hmatched | hseen
  · exact .inl hmatched
  · refine hgrows.closed.imp id fun hclosed => ⟨⟨hlooked, fun stack hstack => ?_⟩, hseen⟩
    exact (hclosed stack hstack).resolve_left List.not_mem_nil

/-! ## On the way through a match -/

variable {q r : Pattern} {rest : Stack} {front u v behind : List Char}

/-- The patterns of a stack, and then those of another. -/
theorem Stack.MatchesIn.append (h : Stack.MatchesIn stack front u (v ++ behind))
    (hrest : Stack.MatchesIn rest (front ++ u) v behind) :
    Stack.MatchesIn (stack ++ rest) front (u ++ v) behind := by
  generalize hbehind : v ++ behind = behind' at h
  induction h with
  | nil => rwa [List.append_nil] at hrest
  | cons first others ih =>
    subst hbehind
    rw [← List.append_assoc] at first hrest
    rw [List.append_assoc]
    exact .cons first (ih hrest rfl)

/-- A stack with the pattern on top has led past it, if the text is empty, or to what waits for the
first character of the text. -/
def Front.Passes (f : Front) (p : Pattern) (front u behind : List Char) : Prop :=
  ∀ rest, p :: rest ∈ f.seen →
    (u = [] ∧ rest ∈ f.seen) ∨ ∃ c u', u = c :: u' ∧ ∃ set next, (set, next ++ rest) ∈ f.waiting ∧
      set.has c = true ∧ Stack.MatchesIn next (front ++ [c]) u' behind

/-- Two patterns on top of a stack. -/
theorem Front.Passes.two (hfirst : f.Passes q front u (v ++ behind))
    (hsecond : u = [] → f.Passes r front v behind) (hr : r.MatchesIn (front ++ u) v behind)
    (hseen : q :: r :: rest ∈ f.seen) :
    (u ++ v = [] ∧ rest ∈ f.seen) ∨ ∃ c u', u ++ v = c :: u' ∧ ∃ set next,
      (set, next ++ rest) ∈ f.waiting ∧ set.has c = true ∧
        Stack.MatchesIn next (front ++ [c]) u' behind := by
  rcases hfirst _ hseen with ⟨rfl, hbelow⟩ | ⟨c, u', rfl, set, next, hwaits, hc, hnext⟩
  · exact hsecond rfl _ hbelow
  · refine .inr ⟨c, u' ++ v, rfl, set, next ++ [r], ?_, hc, hnext.append ?_⟩
    · rwa [List.append_assoc]
    · rw [← List.append_nil v, List.append_assoc, List.singleton_append]
      exact .cons hr .nil

/-- The moves of a stack, where nothing is left to follow. -/
theorem Front.Complete.move {next : Stack} (hf : f.Complete before after) (hseen : stack ∈ f.seen)
    (hnext : next ∈ stack.moves before after) : next ∈ f.seen :=
  hf.closed stack hseen next hnext

/-- Where nothing is left to follow, a match of the pattern on top of a stack is on its way. -/
theorem MatchesIn.passes (h : p.MatchesIn front u behind)
    (hf : f.Complete front.getLast? (u ++ behind).head?) : f.Passes p front u behind := by
  induction h with
  | empty => exact fun rest hseen => .inl ⟨rfl, hf.move hseen List.mem_cons_self⟩
  | @char set c front behind hc =>
    exact fun rest hseen =>
      .inr ⟨c, [], rfl, set, [], hf.looked.waits set rest hseen, hc, .nil⟩
  | place hplace =>
    refine fun rest hseen => .inl ⟨rfl, hf.move hseen ?_⟩
    rw [Stack.moves, List.nil_append, if_pos hplace]
    exact List.mem_cons_self
  | seq _ hsecond ih ih' =>
    rw [List.append_assoc] at hf
    refine fun rest hseen => (ih hf).two ?_ hsecond (hf.move hseen List.mem_cons_self)
    rintro rfl
    rw [List.append_nil] at ih'
    exact ih' hf
  | left _ ih => exact fun rest hseen => ih hf rest (hf.move hseen List.mem_cons_self)
  | right _ ih =>
    exact fun rest hseen =>
      ih hf rest (hf.move hseen (List.mem_cons_of_mem _ List.mem_cons_self))
  | plus _ hothers ih ih' =>
    rw [List.append_assoc] at hf
    refine fun rest hseen => (ih hf).two ?_ hothers (hf.move hseen List.mem_cons_self)
    rintro rfl
    rw [List.append_nil] at ih'
    exact ih' hf
  | @last q greedy front behind =>
    refine fun rest hseen => .inl ⟨rfl, hf.move hseen ?_⟩
    cases greedy <;> simp [Stack.moves]
  | @again q greedy front u v behind _ hothers ih ih' =>
    rw [List.append_assoc] at hf
    refine fun rest hseen => (ih hf).two ?_ hothers (hf.move hseen ?_)
    · rintro rfl
      rw [List.append_nil] at ih'
      exact ih' hf
    · cases greedy <;> simp [Stack.moves]
  | noTimes => exact fun rest hseen => .inl ⟨rfl, hf.move hseen List.mem_cons_self⟩
  | times _ hothers ih ih' =>
    rw [List.append_assoc] at hf
    refine fun rest hseen => (ih hf).two ?_ hothers (hf.move hseen List.mem_cons_self)
    rintro rfl
    rw [List.append_nil] at ih'
    exact ih' hf
  | @upToNone n q greedy front behind =>
    refine fun rest hseen => .inl ⟨rfl, hf.move hseen ?_⟩
    cases n <;> cases greedy <;> simp [Stack.moves]
  | @upTo n q greedy front u v behind _ hothers ih ih' =>
    rw [List.append_assoc] at hf
    refine fun rest hseen => (ih hf).two ?_ hothers (hf.move hseen ?_)
    · rintro rfl
      rw [List.append_nil] at ih'
      exact ih' hf
    · cases greedy <;> simp [Stack.moves]

/-- A match of a stack has come to its end, or goes on behind the next character. -/
theorem Stack.MatchesIn.step (h : Stack.MatchesIn stack front v behind)
    (hf : f.Complete front.getLast? (v ++ behind).head?) (hseen : stack ∈ f.seen) :
    f.matched = true ∨ ∃ c v', v = c :: v' ∧
      ∃ next ∈ f.read c, Stack.MatchesIn next (front ++ [c]) v' behind := by
  induction h with
  | nil => exact .inl (hf.looked.ended hseen)
  | @cons q stack front u v behind first others ih =>
    rw [List.append_assoc] at hf
    rcases first.passes hf _ hseen with ⟨rfl, hbelow⟩ | ⟨c, u', rfl, set, next, hwaits, hc, hnext⟩
    · rw [List.append_nil] at ih
      exact ih hf hbelow
    · refine .inr ⟨c, u' ++ v, rfl, next ++ stack, ?_, hnext.append ?_⟩
      · exact List.mem_filterMap.mpr ⟨_, List.mem_reverse.mpr hwaits, if_pos hc⟩
      · rwa [List.append_assoc, List.singleton_append]

/-! ## What is found -/

variable {passed text : List Char} {found : Option Nat} {position : Nat}

/-- What has been found is not lost. -/
theorem endFrom_isSome (hfound : found.isSome) :
    (endFrom p fuel before text position pending found).isSome := by
  rcases endFrom_later p fuel before text position pending found with hsame | ⟨n, -, -, hn⟩
  · rwa [hsame]
  · rw [hn]
    rfl

/-- A match is on its way, or starts at a place that is still to come. -/
inductive Awaited (p : Pattern) (pending : List Stack) (passed : List Char) :
    List Char → Prop
  | underway {stack : Stack} {v behind : List Char} (mem : stack ∈ pending)
      (h : Stack.MatchesIn stack passed v behind) : Awaited p pending passed (v ++ behind)
  | ahead {skipped u behind : List Char} (h : p.MatchesIn (passed ++ skipped) u behind) :
      Awaited p pending passed (skipped ++ (u ++ behind))

/-- The stacks that are followed at a place. -/
def starting (p : Pattern) (position : Nat) (pending : List Stack) (found : Option Nat) :
    List Stack :=
  if found.isNone && (position == 0 || !p.isAnchored) then pending ++ [[p]] else pending

theorem starting_within (position : Nat) (found : Option Nat)
    (h : ∀ stack ∈ pending, Stack.Within p.depth stack) :
    ∀ stack ∈ starting p position pending found, Stack.Within p.depth stack := by
  have hnew : Stack.Within p.depth [p] := .cons (Nat.le_refl _) .nil
  unfold starting
  split
  · exact List.forall_mem_append.mpr ⟨h, List.forall_mem_singleton.mpr hnew⟩
  · exact h

/-- A match that is to come is on its way once the pattern may start here, or it starts behind the
next character. -/
theorem Awaited.start (h : Awaited p pending passed text) :
    (∃ stack ∈ starting p passed.length pending none, ∃ v behind, text = v ++ behind ∧
        Stack.MatchesIn stack passed v behind) ∨
      p.isAnchored = false ∧ ∃ c text', text = c :: text' ∧
        ∀ pending', Awaited p pending' (passed ++ [c]) text' := by
  cases h with
  | @underway stack v behind mem h =>
    refine .inl ⟨stack, ?_, v, behind, rfl, h⟩
    unfold starting
    split
    · exact List.mem_append_left _ mem
    · exact mem
  | @ahead skipped u behind h =>
    cases skipped with
    | nil =>
      rw [List.append_nil] at h
      refine .inl ⟨[p], ?_, u, behind, rfl, ?_⟩
      · have hstarts : (Option.isNone (none : Option Nat) &&
            (passed.length == 0 || !p.isAnchored)) = true := by
          cases hanchored : p.isAnchored with
          | true => simp [h.front_eq_nil hanchored]
          | false => simp
        rw [starting, if_pos hstarts]
        exact List.mem_append_right _ List.mem_cons_self
      · rw [← List.append_nil u]
        exact .cons h .nil
    | cons c skipped =>
      have hanchored : p.isAnchored = false := by
        by_contra hanchored
        have hnil := h.front_eq_nil (Bool.not_eq_false _ ▸ hanchored)
        exact absurd hnil (by simp)
      refine .inr ⟨hanchored, c, _, rfl, fun pending' => .ahead ?_⟩
      rwa [List.append_assoc, List.singleton_append]

/-- At each place a match that is to come is found, or it is still to come behind the next
character and the matcher goes on. -/
theorem Awaited.next (h : Awaited p pending passed text)
    (hpending : ∀ stack ∈ pending, Stack.Within p.depth stack)
    (hf : frontAt p (p.depth + 1) passed.getLast? text.head? passed.length pending none = f) :
    f.matched = true ∨ ∃ c text', text = c :: text' ∧ Awaited p (f.read c) (passed ++ [c]) text' ∧
      (f.waiting.isEmpty && p.isAnchored) = false := by
  rcases h.start with ⟨stack, hstack, v, behind, rfl, hmatch⟩ | ⟨hanchored, c, text', rfl, hlater⟩
  · have hf : front passed.getLast? (v ++ behind).head? (p.depth + 1)
        (starting p passed.length pending none) = f := hf
    have hfollowed : f.matched = true ∨ f.Complete passed.getLast? (v ++ behind).head? ∧
        ∀ stack ∈ starting p passed.length pending none, stack ∈ f.seen := by
      rw [← hf]
      exact front_complete (starting_within passed.length none hpending)
    rcases hfollowed with hmatched | ⟨hcomplete, hseen⟩
    · exact .inl hmatched
    refine (hmatch.step hcomplete (hseen stack hstack)).imp id ?_
    rintro ⟨c, v', rfl, next, hnext, hgoes⟩
    refine ⟨c, v' ++ behind, rfl, .underway hnext hgoes, ?_⟩
    have hwaiting : f.waiting ≠ [] := by
      intro hnil
      rw [Front.read, hnil] at hnext
      exact List.not_mem_nil hnext
    rw [Bool.eq_false_iff.mpr (mt List.isEmpty_iff.mp hwaiting), Bool.false_and]
  · exact .inr ⟨c, text', rfl, hlater _, by rw [hanchored, Bool.and_false]⟩

/-- A match that is to come is found. -/
theorem Awaited.isSome (h : Awaited p pending passed text)
    (hpending : ∀ stack ∈ pending, Stack.Within p.depth stack) :
    (endFrom p (p.depth + 1) passed.getLast? text passed.length pending none).isSome := by
  induction text generalizing passed pending with
  | nil =>
    rw [endFrom_nil, Front.found]
    rcases h.next hpending rfl with hmatched | ⟨c, text', htext, -⟩
    · rw [List.head?_nil] at hmatched
      rw [if_pos hmatched]
      rfl
    · cases htext
  | cons c text ih =>
    rw [endFrom_cons]
    have hwithin : (frontAt p (p.depth + 1) passed.getLast? (some c) passed.length pending
        none).Within p.depth := front_within (starting_within passed.length none hpending)
    generalize hf : frontAt p (p.depth + 1) passed.getLast? (some c) passed.length pending none = f
      at hwithin
    dsimp only
    rcases h.next hpending hf with hmatched | ⟨d, text', htext, hlater, hgoes⟩
    · have hfound : (f.found passed.length none).isSome := by
        rw [Front.found, if_pos hmatched]
        rfl
      split
      · exact hfound
      · exact endFrom_isSome hfound
    · cases htext
      rcases f.found_cases passed.length none with hnone | hsome
      · have hread := ih hlater (hwithin.read c)
        rw [List.getLast?_concat, List.length_append, List.length_singleton] at hread
        rw [hnone, Option.isSome_none, Bool.false_or, hgoes, if_neg Bool.false_ne_true]
        exact hread
      · rw [hsome]
        split
        · rfl
        · exact endFrom_isSome rfl

/-- The matcher finds something in a text where a match ends in it, and only there. -/
theorem matchEnd_isSome_iff : (p.matchEnd text).isSome ↔ ∃ n, p.EndsBehind text n := by
  constructor
  · intro hsome
    obtain ⟨n, hn⟩ := Option.isSome_iff_exists.mp hsome
    exact ⟨n, endsBehind_of_matchEnd hn⟩
  · rintro ⟨n, skipped, u, hfront, hmatch⟩
    have hnone : ∀ stack ∈ ([] : List Stack), Stack.Within p.depth stack :=
      fun _ hstack => (List.not_mem_nil hstack).elim
    have hsplit : text = skipped ++ (u ++ text.drop n) := by
      rw [← List.append_assoc, ← hfront, List.take_append_drop]
    have hawaited : Awaited p [] [] (skipped ++ (u ++ text.drop n)) := .ahead hmatch
    rw [hsplit]
    exact hawaited.isSome hnone

/-- Where the matcher finds nothing, no front of the text belongs to the pattern. -/
theorem not_matchesIn_of_matchEnd (h : p.matchEnd (u ++ behind) = none) :
    ¬ p.MatchesIn [] u behind := by
  intro hmatch
  have hends : p.EndsBehind (u ++ behind) u.length := by
    refine ⟨[], u, List.take_left, ?_⟩
    rwa [List.drop_left]
  have hfound := matchEnd_isSome_iff.mpr ⟨_, hends⟩
  rw [h] at hfound
  cases hfound

end Pattern

end ApiSyntax
