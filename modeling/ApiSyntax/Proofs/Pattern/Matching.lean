/-
  ApiSyntax/Proofs/Pattern/Matching.lean --- what matches belongs to the pattern.

  `Matches` is the language of a pattern, apart from the alternatives that the matcher
  follows and from the places that it asks for.  `MatchesIn` is the same between what
  stands before a text and behind it, so its places count.  At every place a match of a
  stack that waits ends where one of the pattern does; reading a character keeps this.
-/
import ApiSyntax.Pattern.Basic

set_option autoImplicit false

namespace ApiSyntax

namespace Pattern

/-! ## The language of a pattern -/

/-- The text belongs to the pattern, if its places are left out of account. -/
inductive Matches : Pattern → List Char → Prop
  | empty : Matches .empty []
  | char {set : CharSet} {c : Char} (h : set.has c) : Matches (.char set) [c]
  | place {p : Place} : Matches (.place p) []
  | seq {a b : Pattern} {u v : List Char} (first : Matches a u) (second : Matches b v) :
      Matches (.seq a b) (u ++ v)
  | left {a b : Pattern} {u : List Char} (h : Matches a u) : Matches (.alt a b) u
  | right {a b : Pattern} {u : List Char} (h : Matches b u) : Matches (.alt a b) u
  | plus {p : Pattern} {greedy : Bool} {u v : List Char} (first : Matches p u)
      (others : Matches (.again p greedy) v) : Matches (.plus p greedy) (u ++ v)
  | last {p : Pattern} {greedy : Bool} : Matches (.again p greedy) []
  | again {p : Pattern} {greedy : Bool} {u v : List Char} (first : Matches p u)
      (others : Matches (.again p greedy) v) : Matches (.again p greedy) (u ++ v)
  | noTimes {p : Pattern} : Matches (.times 0 p) []
  | times {n : Nat} {p : Pattern} {u v : List Char} (first : Matches p u)
      (others : Matches (.times n p) v) : Matches (.times (n + 1) p) (u ++ v)
  | upToNone {n : Nat} {p : Pattern} {greedy : Bool} : Matches (.upTo n p greedy) []
  | upTo {n : Nat} {p : Pattern} {greedy : Bool} {u v : List Char} (first : Matches p u)
      (others : Matches (.upTo n p greedy) v) : Matches (.upTo (n + 1) p greedy) (u ++ v)

/-- The text of a literal. -/
theorem matches_literal {text u : List Char} (h : (literal text).Matches u) : u = text := by
  induction text generalizing u with
  | nil =>
    cases h
    rfl
  | cons c text ih =>
    have hone : ∀ {v : List Char}, (Pattern.char (.single c)).Matches v → v = [c] := by
      intro v hv
      cases hv with
      | char hd =>
        rw [CharSet.has_single, decide_eq_true_eq] at hd
        rw [hd]
    cases text with
    | nil => exact hone h
    | cons d text =>
      cases h with
      | seq first second => rw [hone first, ih second, List.singleton_append]

/-- A text of one of several patterns. -/
theorem matches_firstOf {patterns : List Pattern} {u : List Char} (hsome : patterns ≠ [])
    (h : (firstOf patterns).Matches u) : ∃ p ∈ patterns, p.Matches u := by
  induction patterns with
  | nil => exact absurd rfl hsome
  | cons p patterns ih =>
    cases patterns with
    | nil => exact ⟨p, List.mem_cons_self, h⟩
    | cons q patterns =>
      cases h with
      | left h => exact ⟨p, List.mem_cons_self, h⟩
      | right h =>
        obtain ⟨r, hr, hmatch⟩ := ih (List.cons_ne_nil _ _) h
        exact ⟨r, List.mem_cons_of_mem _ hr, hmatch⟩

/-! ## Matches between other text -/

/-- The text `u` belongs to the pattern where it stands, behind `front` and before `behind`. -/
inductive MatchesIn : Pattern → List Char → List Char → List Char → Prop
  | empty {front behind : List Char} : MatchesIn .empty front [] behind
  | char {set : CharSet} {c : Char} {front behind : List Char} (h : set.has c) :
      MatchesIn (.char set) front [c] behind
  | place {p : Place} {front behind : List Char} (h : p.holds front.getLast? behind.head?) :
      MatchesIn (.place p) front [] behind
  | seq {a b : Pattern} {front u v behind : List Char} (first : MatchesIn a front u (v ++ behind))
      (second : MatchesIn b (front ++ u) v behind) : MatchesIn (.seq a b) front (u ++ v) behind
  | left {a b : Pattern} {front u behind : List Char} (h : MatchesIn a front u behind) :
      MatchesIn (.alt a b) front u behind
  | right {a b : Pattern} {front u behind : List Char} (h : MatchesIn b front u behind) :
      MatchesIn (.alt a b) front u behind
  | plus {p : Pattern} {greedy : Bool} {front u v behind : List Char}
      (first : MatchesIn p front u (v ++ behind))
      (others : MatchesIn (.again p greedy) (front ++ u) v behind) :
      MatchesIn (.plus p greedy) front (u ++ v) behind
  | last {p : Pattern} {greedy : Bool} {front behind : List Char} :
      MatchesIn (.again p greedy) front [] behind
  | again {p : Pattern} {greedy : Bool} {front u v behind : List Char}
      (first : MatchesIn p front u (v ++ behind))
      (others : MatchesIn (.again p greedy) (front ++ u) v behind) :
      MatchesIn (.again p greedy) front (u ++ v) behind
  | noTimes {p : Pattern} {front behind : List Char} : MatchesIn (.times 0 p) front [] behind
  | times {n : Nat} {p : Pattern} {front u v behind : List Char}
      (first : MatchesIn p front u (v ++ behind))
      (others : MatchesIn (.times n p) (front ++ u) v behind) :
      MatchesIn (.times (n + 1) p) front (u ++ v) behind
  | upToNone {n : Nat} {p : Pattern} {greedy : Bool} {front behind : List Char} :
      MatchesIn (.upTo n p greedy) front [] behind
  | upTo {n : Nat} {p : Pattern} {greedy : Bool} {front u v behind : List Char}
      (first : MatchesIn p front u (v ++ behind))
      (others : MatchesIn (.upTo n p greedy) (front ++ u) v behind) :
      MatchesIn (.upTo (n + 1) p greedy) front (u ++ v) behind

variable {p q r : Pattern} {front u behind : List Char}

/-- Between any other text the text belongs to the pattern. -/
theorem MatchesIn.matches (h : p.MatchesIn front u behind) : p.Matches u := by
  induction h with
  | empty => exact .empty
  | char h => exact .char h
  | place => exact .place
  | seq _ _ first second => exact .seq first second
  | left _ ih => exact .left ih
  | right _ ih => exact .right ih
  | plus _ _ first others => exact .plus first others
  | last => exact .last
  | again _ _ first others => exact .again first others
  | noTimes => exact .noTimes
  | times _ _ first others => exact .times first others
  | upToNone => exact .upToNone
  | upTo _ _ first others => exact .upTo first others

/-- Before a match of an anchored pattern nothing stands. -/
theorem MatchesIn.front_eq_nil (h : p.MatchesIn front u behind) (hanchored : p.isAnchored = true) :
    front = [] := by
  induction h with
  | place hplace =>
    rename_i place _ _
    cases place with
    | textStart => simpa [Place.holds] using hplace
    | _ => cases hanchored
  | seq _ _ ih _ => exact ih hanchored
  | left _ ih => exact ih (Bool.and_eq_true_iff.mp hanchored).1
  | right _ ih => exact ih (Bool.and_eq_true_iff.mp hanchored).2
  | plus _ _ ih _ => exact ih hanchored
  | _ => cases hanchored

/-- The text belongs to the patterns of a stack, one behind the other. -/
inductive Stack.MatchesIn : Stack → List Char → List Char → List Char → Prop
  | nil {front behind : List Char} : Stack.MatchesIn [] front [] behind
  | cons {p : Pattern} {stack : Stack} {front u v behind : List Char}
      (first : p.MatchesIn front u (v ++ behind))
      (others : Stack.MatchesIn stack (front ++ u) v behind) :
      Stack.MatchesIn (p :: stack) front (u ++ v) behind

/-- A match ends behind the characters `passed`, with `rest` behind it. -/
def EndsAt (p : Pattern) (passed rest : List Char) : Prop :=
  ∃ front u, passed = front ++ u ∧ p.MatchesIn front u rest

/-- Where a match of the stack ends that starts between `passed` and `rest`, one of the pattern
ends. -/
def Stack.Leads (stack : Stack) (p : Pattern) (passed rest : List Char) : Prop :=
  ∀ v behind, rest = v ++ behind → Stack.MatchesIn stack passed v behind →
    p.EndsAt (passed ++ v) behind

variable {stack : Stack} {passed rest : List Char}

namespace Stack.Leads

/-- A pattern that matches nothing at all may be passed over. -/
theorem drop (h : Stack.Leads (q :: stack) p passed rest) (hq : q.MatchesIn passed [] rest) :
    Stack.Leads stack p passed rest := by
  rintro v behind rfl hv
  refine h v behind rfl (.cons (u := []) hq ?_)
  rwa [List.append_nil]

/-- A pattern is replaced with one that matches no more. -/
theorem one (h : Stack.Leads (q :: stack) p passed rest)
    (hr : ∀ u behind, r.MatchesIn passed u behind → q.MatchesIn passed u behind) :
    Stack.Leads (r :: stack) p passed rest := by
  intro v behind hrest hv
  cases hv with
  | cons first others => exact h _ behind hrest (.cons (hr _ _ first) others)

/-- A pattern is replaced with two that match no more. -/
theorem two {a b : Pattern} (h : Stack.Leads (q :: stack) p passed rest)
    (hab : ∀ u v behind, a.MatchesIn passed u (v ++ behind) → b.MatchesIn (passed ++ u) v behind →
      q.MatchesIn passed (u ++ v) behind) :
    Stack.Leads (a :: b :: stack) p passed rest := by
  intro v behind hrest hv
  cases hv with
  | cons first others =>
    cases others with
    | cons second others =>
      rw [List.append_assoc] at first others
      rw [← List.append_assoc] at hrest
      have hends := h _ behind hrest (.cons (hab _ _ _ first second) others)
      rwa [List.append_assoc] at hends

end Stack.Leads

/-! ## Following alternatives -/

/-- Where something has matched a match of the pattern ends, and what waits for the next character
leads to one. -/
structure Front.Sound (f : Front) (p : Pattern) (passed rest : List Char) : Prop where
  matched : f.matched = true → p.EndsAt passed rest
  waiting : ∀ w ∈ f.waiting, ∀ c behind, rest = c :: behind → w.1.has c = true →
    Stack.Leads w.2 p (passed ++ [c]) behind

theorem follow_sound {fuel : Nat} {f : Front} (hstack : Stack.Leads stack p passed rest)
    (hf : f.Sound p passed rest) :
    (follow passed.getLast? rest.head? fuel stack f).Sound p passed rest := by
  induction fuel generalizing stack f with
  | zero => exact hf
  | succ fuel ih =>
    rw [follow]
    by_cases hstop : (f.matched || f.seen.contains stack) = true
    · rw [if_pos hstop]
      exact hf
    rw [if_neg hstop]
    -- The pattern on top of the stack is taken apart.
    have hseen : Front.Sound { f with seen := stack :: f.seen } p passed rest :=
      ⟨hf.matched, hf.waiting⟩
    cases stack with
    | nil =>
      refine ⟨fun _ => ?_, hf.waiting⟩
      rw [← List.append_nil passed]
      exact hstack [] rest rfl .nil
    | cons top others =>
      cases top with
      | empty => exact ih (hstack.drop .empty) hseen
      | char set =>
        refine ⟨hf.matched, fun w hw c behind hrest hc => ?_⟩
        rcases List.mem_cons.mp hw with rfl | hw
        · rintro v behind' rfl hv
          rw [List.append_assoc]
          exact hstack _ behind' hrest (.cons (.char hc) hv)
        · exact hf.waiting w hw c behind hrest hc
      | place q =>
        dsimp only
        split
        · next hplace => exact ih (hstack.drop (.place hplace)) hseen
        · exact hseen
      | seq a b => exact ih (hstack.two fun _ _ _ => .seq) hseen
      | alt a b =>
        have hleft := ih (hstack.one fun _ _ => .left) hseen
        exact ih (hstack.one fun _ _ => .right) hleft
      | plus q greedy => exact ih (hstack.two fun _ _ _ => .plus) hseen
      | again q greedy =>
        have hround := hstack.two (a := q) fun _ _ _ => .again
        have hend := hstack.drop .last
        dsimp only
        split
        · exact ih hend (ih hround hseen)
        · exact ih hround (ih hend hseen)
      | times n q =>
        cases n with
        | zero => exact ih (hstack.drop .noTimes) hseen
        | succ n => exact ih (hstack.two fun _ _ _ => .times) hseen
      | upTo n q greedy =>
        have hend := hstack.drop .upToNone
        cases n with
        | zero => exact ih hend hseen
        | succ n =>
          have hround := hstack.two (a := q) fun _ _ _ => .upTo
          dsimp only
          split
          · exact ih hend (ih hround hseen)
          · exact ih hround (ih hend hseen)

theorem front_sound (fuel : Nat) {pending : List Stack}
    (h : ∀ stack ∈ pending, Stack.Leads stack p passed rest) :
    (Pattern.front passed.getLast? rest.head? fuel pending).Sound p passed rest := by
  have hempty : Front.Sound ⟨[], [], false⟩ p passed rest :=
    ⟨fun hmatched => (Bool.false_ne_true hmatched).elim, fun w hw => (List.not_mem_nil hw).elim⟩
  unfold Pattern.front
  revert hempty
  generalize (⟨[], [], false⟩ : Front) = f
  intro hf
  induction pending generalizing f with
  | nil => exact hf
  | cons stack pending ih =>
    refine ih (fun other hother => h other (List.mem_cons_of_mem _ hother)) _ ?_
    exact follow_sound (h stack List.mem_cons_self) hf

/-- Behind a character the stacks lead to the same matches. -/
theorem Front.Sound.read {f : Front} {c : Char} (h : f.Sound p passed (c :: rest)) :
    ∀ stack ∈ f.read c, Stack.Leads stack p (passed ++ [c]) rest := by
  intro stack hstack
  obtain ⟨w, hw, hread⟩ := List.mem_filterMap.mp hstack
  by_cases hc : w.1.has c = true
  · rw [if_pos hc] at hread
    cases hread
    exact h.waiting w (List.mem_reverse.mp hw) c rest rfl hc
  · rw [if_neg hc] at hread
    cases hread

/-! ## Matches -/

/-- At a place where it starts the pattern leads to its own matches. -/
theorem starting_leads {pending : List Stack} (start : Bool)
    (hpending : ∀ stack ∈ pending, Stack.Leads stack p passed rest) :
    ∀ stack ∈ (if start then pending ++ [[p]] else pending), Stack.Leads stack p passed rest := by
  intro stack hstack
  split at hstack
  · rcases List.mem_append.mp hstack with hstack | hstack
    · exact hpending stack hstack
    · rw [List.mem_singleton.mp hstack]
      rintro v behind rfl hv
      cases hv with
      | cons first others =>
        cases others
        exact ⟨passed, _, by rw [List.append_nil], first⟩
  · exact hpending stack hstack

/-- A match ends behind the first `n` characters of the text. -/
def EndsBehind (p : Pattern) (text : List Char) (n : Nat) : Prop :=
  p.EndsAt (text.take n) (text.drop n)

/-- What has matched at a place ends behind the characters before it. -/
theorem found_endsBehind {f : Front} {found : Option Nat} (hf : f.Sound p passed rest)
    (hfound : ∀ k, found = some k → p.EndsBehind (passed ++ rest) k) :
    ∀ k, (if f.matched then some passed.length else found) = some k →
      p.EndsBehind (passed ++ rest) k := by
  intro k hk
  split at hk
  · next hmatched =>
    cases hk
    rw [EndsBehind, List.take_left, List.drop_left]
    exact hf.matched hmatched
  · exact hfound k hk

/-- What is found from a place on is the end of a match, if the stacks there lead to matches. -/
theorem endsBehind_of_endFrom {fuel n : Nat} {pending : List Stack} {found : Option Nat}
    (hpending : ∀ stack ∈ pending, Stack.Leads stack p passed rest)
    (hfound : ∀ k, found = some k → p.EndsBehind (passed ++ rest) k)
    (h : endFrom p fuel passed.getLast? rest passed.length pending found = some n) :
    p.EndsBehind (passed ++ rest) n := by
  induction rest generalizing passed pending found with
  | nil => exact found_endsBehind (front_sound fuel (starting_leads _ hpending)) hfound n h
  | cons c rest ih =>
    rw [endFrom] at h
    have hfront := front_sound fuel
      (starting_leads (found.isNone && (passed.length == 0 || !p.isAnchored)) hpending)
    have hfound' := found_endsBehind hfront hfound
    generalize Pattern.front passed.getLast? (c :: rest).head? fuel _ = f at hfront hfound' h
    generalize (if f.matched then some passed.length else found) = found' at hfound' h
    split at h
    · exact hfound' n h
    · have hlength : passed.length + 1 = (passed ++ [c]).length := by simp
      have hlast : some c = (passed ++ [c]).getLast? := by simp
      have hsplit : passed ++ c :: rest = (passed ++ [c]) ++ rest := by simp
      rw [hlength, hlast] at h
      rw [hsplit] at hfound' ⊢
      exact ih hfront.read hfound' h

/-- What is found in a text is the end of a match.  Something may stand before it. -/
theorem endsBehind_of_matchEnd {text : List Char} {n : Nat} (h : p.matchEnd text = some n) :
    p.EndsBehind text n := by
  have hpending : ∀ stack ∈ ([] : List Stack), Stack.Leads stack p [] text :=
    fun stack hstack => (List.not_mem_nil hstack).elim
  exact endsBehind_of_endFrom hpending (fun k hk => by cases hk) h

/-- A match of an anchored pattern stands at the front of the text. -/
theorem matchesIn_of_matchEnd {text : List Char} {n : Nat} (hanchored : p.isAnchored = true)
    (h : p.matchEnd text = some n) : p.MatchesIn [] (text.take n) (text.drop n) := by
  obtain ⟨front, u, htake, hmatch⟩ := endsBehind_of_matchEnd h
  obtain rfl := hmatch.front_eq_nil hanchored
  rwa [htake]

/-- A match of an anchored pattern at the front of a text belongs to the pattern. -/
theorem matches_of_matchEnd {text : List Char} {n : Nat} (hanchored : p.isAnchored = true)
    (h : p.matchEnd text = some n) : p.Matches (text.take n) :=
  (matchesIn_of_matchEnd hanchored h).matches

end Pattern

end ApiSyntax
