/-
  ApiSyntax/Proofs/Pattern/Extent.lean --- how far a match reaches and what it looks at.

  A match ends inside the text.  What it is depends on the text behind it in two ways only:
  a pattern goes on while its sets take characters, and its places may look at the next
  one.  So a text that is cut off, or goes on differently, has the same match or a longer
  one, as long as the places of the pattern do not notice; and where the text goes on with
  a character that no set of the pattern takes, the match is that of the text before it.
-/
import ApiSyntax.Pattern.Reader
import ApiSyntax.Proofs.Pattern.Matching
import Mathlib.Data.List.Basic

set_option autoImplicit false

namespace ApiSyntax

namespace Pattern

/-! ## What a pattern is made of -/

/-- The sets of characters in a pattern. -/
def sets : Pattern → List CharSet
  | empty => []
  | char set => [set]
  | place _ => []
  | seq a b => a.sets ++ b.sets
  | alt a b => a.sets ++ b.sets
  | plus p _ => p.sets
  | again p _ => p.sets
  | times _ p => p.sets
  | upTo _ p _ => p.sets

/-- The places that a pattern asks for. -/
def places : Pattern → List Place
  | empty => []
  | char _ => []
  | place q => [q]
  | seq a b => a.places ++ b.places
  | alt a b => a.places ++ b.places
  | plus p _ => p.places
  | again p _ => p.places
  | times _ p => p.places
  | upTo _ p _ => p.places

/-- The sets of the pattern are ones of `S`, and its places are ones of `P`. -/
def Over (S : CharSet → Prop) (P : Place → Prop) (p : Pattern) : Prop :=
  (∀ s ∈ p.sets, S s) ∧ ∀ q ∈ p.places, P q

/-- Every pattern of the stack is made of such sets and places. -/
def Stack.Over (S : CharSet → Prop) (P : Place → Prop) (stack : Stack) : Prop :=
  ∀ p ∈ stack, Pattern.Over S P p

/-- Whatever waits takes a character of such a set, and goes on with such patterns. -/
def Front.Over (S : CharSet → Prop) (P : Place → Prop) (f : Front) : Prop :=
  ∀ w ∈ f.waiting, S w.1 ∧ Stack.Over S P w.2

theorem over_self (p : Pattern) : Over (· ∈ p.sets) (· ∈ p.places) p :=
  ⟨fun _ hs => hs, fun _ hq => hq⟩

variable {S : CharSet → Prop} {P : Place → Prop} {p q : Pattern} {stack rest : Stack}

theorem Stack.Over.top (h : Stack.Over S P (p :: rest)) : Pattern.Over S P p :=
  h p List.mem_cons_self

theorem Stack.Over.below (h : Stack.Over S P (p :: rest)) : Stack.Over S P rest :=
  fun q hq => h q (List.mem_cons_of_mem _ hq)

theorem Stack.Over.cons (h : Stack.Over S P rest) (hp : Pattern.Over S P p) :
    Stack.Over S P (p :: rest) :=
  List.forall_mem_cons.mpr ⟨hp, h⟩

/-- A pattern that has the parts of two others is made of what they are made of. -/
theorem over_parts {a b : Pattern} (hsets : p.sets = a.sets ++ b.sets)
    (hplaces : p.places = a.places ++ b.places) : Over S P p ↔ Over S P a ∧ Over S P b := by
  simp only [Over, hsets, hplaces, List.forall_mem_append]
  exact and_and_and_comm

/-- A text of the pattern has characters of its sets only. -/
theorem Matches.mem_sets {u : List Char} (h : p.Matches u) :
    ∀ c ∈ u, ∃ s ∈ p.sets, s.has c = true := by
  induction h with
  | char hc => exact List.forall_mem_singleton.mpr ⟨_, List.mem_singleton_self _, hc⟩
  | seq first second ihfirst ihsecond =>
    refine List.forall_mem_append.mpr ⟨fun c hc => ?_, fun c hc => ?_⟩
    · obtain ⟨s, hs, hhas⟩ := ihfirst c hc
      exact ⟨s, List.mem_append_left _ hs, hhas⟩
    · obtain ⟨s, hs, hhas⟩ := ihsecond c hc
      exact ⟨s, List.mem_append_right _ hs, hhas⟩
  | left h ih =>
    intro c hc
    obtain ⟨s, hs, hhas⟩ := ih c hc
    exact ⟨s, List.mem_append_left _ hs, hhas⟩
  | right h ih =>
    intro c hc
    obtain ⟨s, hs, hhas⟩ := ih c hc
    exact ⟨s, List.mem_append_right _ hs, hhas⟩
  | plus first others ihfirst ihothers => exact List.forall_mem_append.mpr ⟨ihfirst, ihothers⟩
  | again first others ihfirst ihothers => exact List.forall_mem_append.mpr ⟨ihfirst, ihothers⟩
  | times first others ihfirst ihothers => exact List.forall_mem_append.mpr ⟨ihfirst, ihothers⟩
  | upTo first others ihfirst ihothers => exact List.forall_mem_append.mpr ⟨ihfirst, ihothers⟩
  | _ => exact fun c hc => (List.not_mem_nil hc).elim

/-! ## One step of following -/

/-- The stacks that a stack is followed to, the most preferred first. -/
def Stack.moves (before after : Option Char) : Stack → List Stack
  | [] => []
  | empty :: rest => [rest]
  | char _ :: _ => []
  | place q :: rest => if q.holds before after then [rest] else []
  | seq a b :: rest => [a :: b :: rest]
  | alt a b :: rest => [a :: rest, b :: rest]
  | plus p greedy :: rest => [p :: again p greedy :: rest]
  | again p greedy :: rest =>
      if greedy then [p :: again p greedy :: rest, rest] else [rest, p :: again p greedy :: rest]
  | times 0 _ :: rest => [rest]
  | times (n + 1) p :: rest => [p :: times n p :: rest]
  | upTo 0 _ _ :: rest => [rest]
  | upTo (n + 1) p greedy :: rest =>
      if greedy then [p :: upTo n p greedy :: rest, rest] else [rest, p :: upTo n p greedy :: rest]

/-- The alternatives with a stack looked at: it waits if a set is on top, and matches if it is
empty. -/
def Front.look (f : Front) (stack : Stack) : Front :=
  match stack with
  | [] => { f with seen := stack :: f.seen, matched := true }
  | char set :: rest => { f with seen := stack :: f.seen, waiting := (set, rest) :: f.waiting }
  | _ :: _ => { f with seen := stack :: f.seen }

/-- A stack is followed by following what it moves to. -/
theorem follow_succ (before after : Option Char) (fuel : Nat) (stack : Stack) (f : Front) :
    follow before after (fuel + 1) stack f =
      if f.matched || f.seen.contains stack then f
      else (stack.moves before after).foldl (fun f stack => follow before after fuel stack f)
        (f.look stack) := by
  rw [follow]
  congr 1
  cases stack with
  | nil => rfl
  | cons top rest =>
    cases top with
    | place q =>
      dsimp only [Stack.moves]
      split <;> rfl
    | again p greedy => cases greedy <;> rfl
    | times n p => cases n <;> rfl
    | upTo n p greedy => cases n <;> cases greedy <;> rfl
    | _ => rfl

/-- What a stack moves to is made of what it is made of. -/
theorem Stack.Over.moves {before after : Option Char} (h : Stack.Over S P stack) :
    ∀ next ∈ stack.moves before after, Stack.Over S P next := by
  cases stack with
  | nil => exact fun next hnext => (List.not_mem_nil hnext).elim
  | cons top rest =>
    have hrest := h.below
    cases top with
    | empty => exact List.forall_mem_singleton.mpr hrest
    | char set => exact fun next hnext => (List.not_mem_nil hnext).elim
    | place q =>
      dsimp only [Stack.moves]
      split
      · exact List.forall_mem_singleton.mpr hrest
      · exact fun next hnext => (List.not_mem_nil hnext).elim
    | seq a b =>
      obtain ⟨ha, hb⟩ := (over_parts rfl rfl).mp h.top
      exact List.forall_mem_singleton.mpr ((hrest.cons hb).cons ha)
    | alt a b =>
      obtain ⟨ha, hb⟩ := (over_parts rfl rfl).mp h.top
      exact List.forall_mem_cons.mpr
        ⟨hrest.cons ha, List.forall_mem_singleton.mpr (hrest.cons hb)⟩
    | plus p greedy =>
      have hp : Pattern.Over S P p := h.top
      exact List.forall_mem_singleton.mpr ((hrest.cons (p := again p greedy) hp).cons hp)
    | again p greedy =>
      have hround := h.cons (p := p) h.top
      cases greedy
      · exact List.forall_mem_cons.mpr ⟨hrest, List.forall_mem_singleton.mpr hround⟩
      · exact List.forall_mem_cons.mpr ⟨hround, List.forall_mem_singleton.mpr hrest⟩
    | times n p =>
      cases n with
      | zero => exact List.forall_mem_singleton.mpr hrest
      | succ n =>
        have hp : Pattern.Over S P p := h.top
        exact List.forall_mem_singleton.mpr ((hrest.cons (p := times n p) hp).cons hp)
    | upTo n p greedy =>
      have hp : Pattern.Over S P p := h.top
      cases n with
      | zero => exact List.forall_mem_singleton.mpr hrest
      | succ n =>
        have hround := (hrest.cons (p := upTo n p greedy) hp).cons hp
        cases greedy
        · exact List.forall_mem_cons.mpr ⟨hrest, List.forall_mem_singleton.mpr hround⟩
        · exact List.forall_mem_cons.mpr ⟨hround, List.forall_mem_singleton.mpr hrest⟩

/-- The next character moves a stack only through the places that look at it. -/
theorem Stack.moves_congr {before after after' : Option Char}
    (hP : ∀ q, P q → q.holds before after = q.holds before after') (h : Stack.Over S P stack) :
    stack.moves before after = stack.moves before after' := by
  cases stack with
  | nil => rfl
  | cons top rest =>
    cases top with
    | place q =>
      have hq : P q := h.top.2 q List.mem_cons_self
      simp only [Stack.moves, hP q hq]
    | times n p => cases n <;> rfl
    | upTo n p greedy => cases n <;> rfl
    | _ => rfl

/-! ## Following -/

theorem Front.Over.look {f : Front} (hf : f.Over S P) (h : Stack.Over S P stack) :
    (f.look stack).Over S P := by
  cases stack with
  | nil => exact hf
  | cons top rest =>
    cases top with
    | char set =>
      intro w hw
      rcases List.mem_cons.mp hw with rfl | hw
      · exact ⟨h.top.1 set List.mem_cons_self, h.below⟩
      · exact hf w hw
    | _ => exact hf

/-- What is kept by following each of some stacks is kept by following them all. -/
theorem foldl_keeps {α : Type} {I : α → Prop} {J : Stack → Prop} {f : α → Stack → α}
    (hf : ∀ a stack, I a → J stack → I (f a stack)) {pending : List Stack}
    (hpending : ∀ stack ∈ pending, J stack) {a : α} (ha : I a) : I (pending.foldl f a) := by
  induction pending generalizing a with
  | nil => exact ha
  | cons stack pending ih =>
    obtain ⟨hstack, hrest⟩ := List.forall_mem_cons.mp hpending
    exact ih hrest (hf a stack ha hstack)

theorem follow_over {before after : Option Char} {fuel : Nat} {f : Front}
    (h : Stack.Over S P stack) (hf : f.Over S P) :
    (follow before after fuel stack f).Over S P := by
  induction fuel generalizing stack f with
  | zero => exact hf
  | succ fuel ih =>
    rw [follow_succ]
    split
    · exact hf
    · exact foldl_keeps (J := Stack.Over S P) (fun _ _ hf h => ih h hf) h.moves (hf.look h)

theorem follow_congr {before after after' : Option Char} {fuel : Nat} {f : Front}
    (hP : ∀ q, P q → q.holds before after = q.holds before after') (h : Stack.Over S P stack) :
    follow before after fuel stack f = follow before after' fuel stack f := by
  induction fuel generalizing stack f with
  | zero => rfl
  | succ fuel ih =>
    rw [follow_succ, follow_succ, Stack.moves_congr hP h]
    congr 1
    exact List.foldl_ext _ _ _ fun _ next hnext => ih (h.moves next hnext)

theorem front_over (before after : Option Char) (fuel : Nat) {pending : List Stack}
    (h : ∀ stack ∈ pending, Stack.Over S P stack) :
    (front before after fuel pending).Over S P := by
  have hempty : Front.Over S P ⟨[], [], false⟩ := fun w hw => (List.not_mem_nil hw).elim
  exact foldl_keeps (J := Stack.Over S P) (fun _ _ hf h => follow_over h hf) h hempty

theorem front_congr {before after after' : Option Char} {fuel : Nat} {pending : List Stack}
    (hP : ∀ q, P q → q.holds before after = q.holds before after')
    (h : ∀ stack ∈ pending, Stack.Over S P stack) :
    front before after fuel pending = front before after' fuel pending :=
  List.foldl_ext _ _ _ fun _ stack hstack => follow_congr hP (h stack hstack)

theorem Front.Over.read {f : Front} (hf : f.Over S P) (c : Char) :
    ∀ stack ∈ f.read c, Stack.Over S P stack := by
  intro stack hstack
  obtain ⟨w, hw, hread⟩ := List.mem_filterMap.mp hstack
  split at hread
  · cases hread
    exact (hf w (List.mem_reverse.mp hw)).2
  · cases hread

/-- No stack goes on behind a character that no set takes. -/
theorem Front.Over.read_eq_nil {f : Front} {c : Char} (hf : f.Over S P)
    (hc : ∀ s, S s → s.has c = false) : f.read c = [] := by
  apply List.filterMap_eq_nil_iff.mpr
  intro w hw
  rw [hc w.1 (hf w (List.mem_reverse.mp hw)).1]
  rfl

/-! ## From one place to the next -/

/-- The alternatives at a place, where the pattern starts anew if it may. -/
def frontAt (p : Pattern) (fuel : Nat) (before after : Option Char) (position : Nat)
    (pending : List Stack) (found : Option Nat) : Front :=
  front before after fuel
    (if found.isNone && (position == 0 || !p.isAnchored) then pending ++ [[p]] else pending)

/-- The end found, once the alternatives at a place are known. -/
def Front.found (f : Front) (position : Nat) (found : Option Nat) : Option Nat :=
  if f.matched then some position else found

section

variable (p : Pattern) (fuel : Nat) (before : Option Char) (position : Nat)
  (pending : List Stack) (found : Option Nat)

theorem endFrom_nil :
    endFrom p fuel before [] position pending found =
      (frontAt p fuel before none position pending found).found position found := by
  rw [endFrom]
  rfl

theorem endFrom_cons (c : Char) (rest : List Char) :
    endFrom p fuel before (c :: rest) position pending found =
      let f := frontAt p fuel before (some c) position pending found
      if f.waiting.isEmpty && ((f.found position found).isSome || p.isAnchored) then
        f.found position found
      else endFrom p fuel (some c) rest (position + 1) (f.read c) (f.found position found) := by
  rw [endFrom]
  rfl

end

variable {fuel position : Nat} {before : Option Char} {pending : List Stack} {found : Option Nat}

theorem frontAt_over (fuel : Nat) (before after : Option Char) (position : Nat)
    (found : Option Nat) (hp : Over S P p) (h : ∀ stack ∈ pending, Stack.Over S P stack) :
    (frontAt p fuel before after position pending found).Over S P := by
  have hnew : Stack.Over S P [p] := List.forall_mem_singleton.mpr hp
  apply front_over
  split
  · exact List.forall_mem_append.mpr ⟨h, List.forall_mem_singleton.mpr hnew⟩
  · exact h

theorem frontAt_congr {after after' : Option Char} (fuel position : Nat) (found : Option Nat)
    (hp : Over S P p) (hP : ∀ q, P q → q.holds before after = q.holds before after')
    (h : ∀ stack ∈ pending, Stack.Over S P stack) :
    frontAt p fuel before after position pending found =
      frontAt p fuel before after' position pending found := by
  have hnew : Stack.Over S P [p] := List.forall_mem_singleton.mpr hp
  apply front_congr hP
  split
  · exact List.forall_mem_append.mpr ⟨h, List.forall_mem_singleton.mpr hnew⟩
  · exact h

theorem Front.found_cases (f : Front) (position : Nat) (found : Option Nat) :
    f.found position found = found ∨ f.found position found = some position := by
  unfold Front.found
  split
  · exact .inr rfl
  · exact .inl rfl

/-- From a place on the end found stays, or is one behind that place and in the text. -/
theorem endFrom_later (p : Pattern) (fuel : Nat) (before : Option Char) (rest : List Char)
    (position : Nat) (pending : List Stack) (found : Option Nat) :
    endFrom p fuel before rest position pending found = found ∨
      ∃ n, position ≤ n ∧ n ≤ position + rest.length ∧
        endFrom p fuel before rest position pending found = some n := by
  induction rest generalizing before position pending found with
  | nil =>
    rw [endFrom_nil]
    rcases Front.found_cases _ position found with h | h
    · exact .inl h
    · exact .inr ⟨position, Nat.le_refl _, Nat.le_refl _, h⟩
  | cons c rest ih =>
    rw [endFrom_cons, List.length_cons]
    generalize frontAt p fuel before (some c) position pending found = f
    -- What is found here is `found` or this place, and what is found later is that or later.
    have hhere : f.found position found = found ∨ ∃ n, position ≤ n ∧
        n ≤ position + (rest.length + 1) ∧ f.found position found = some n := by
      rcases f.found_cases position found with h | h
      · exact .inl h
      · exact .inr ⟨position, Nat.le_refl _, by omega, h⟩
    dsimp only
    split
    · exact hhere
    · rcases ih (some c) (position + 1) (f.read c) (f.found position found) with h | h
      · rw [h]
        exact hhere
      · obtain ⟨n, hlow, hhigh, hn⟩ := h
        exact .inr ⟨n, by omega, by omega, hn⟩

/-- A text that goes on, while no place notices, has the same end or one behind it. -/
theorem endFrom_append {v x : List Char} (hp : Over S P p)
    (hP : ∀ q, P q → ∀ before, q.holds before x.head? = q.holds before none)
    (h : ∀ stack ∈ pending, Stack.Over S P stack) :
    endFrom p fuel before (v ++ x) position pending found =
        endFrom p fuel before v position pending found ∨
      ∃ n, position + v.length < n ∧
        endFrom p fuel before (v ++ x) position pending found = some n := by
  induction v generalizing before position pending found with
  | nil =>
    have hfront := frontAt_congr fuel position found hp (fun q hq => hP q hq before) h
    rw [List.nil_append, endFrom_nil, ← hfront]
    cases x with
    | nil => exact .inl (endFrom_nil p fuel before position pending found)
    | cons c x =>
      rw [endFrom_cons, List.head?_cons]
      dsimp only
      split
      · exact .inl rfl
      · rcases endFrom_later p fuel (some c) x (position + 1) _ _ with hlater | hlater
        · exact .inl hlater
        · obtain ⟨n, hlow, -, hn⟩ := hlater
          exact .inr ⟨n, hlow, hn⟩
  | cons c v ih =>
    rw [List.cons_append, endFrom_cons, endFrom_cons, List.length_cons]
    have hread := (frontAt_over fuel before (some c) position found hp h).read c
    dsimp only
    split
    · exact .inl rfl
    · rcases ih hread with hsame | ⟨n, hn, hend⟩
      · exact .inl hsame
      · exact .inr ⟨n, by omega, hend⟩

/-- Nothing is found where a pattern that is anchored has no stack left. -/
theorem endFrom_done (hanchored : p.isAnchored = true) (rest : List Char) :
    endFrom p fuel before rest (position + 1) [] found = found := by
  have hfront : ∀ after, frontAt p fuel before after (position + 1) [] found = ⟨[], [], false⟩ := by
    intro after
    simp [frontAt, front, hanchored]
  cases rest with
  | nil =>
    rw [endFrom_nil, hfront]
    rfl
  | cons c rest =>
    rw [endFrom_cons, hfront, hanchored]
    simp [Front.found]

/-- Where the text goes on with a character that no set takes, the end is that of the text in
front of it. -/
theorem endFrom_blocked {v : List Char} {c : Char} (x : List Char) (hp : Over S P p)
    (hanchored : p.isAnchored = true) (hS : ∀ s, S s → s.has c = false)
    (hP : ∀ q, P q → ∀ before, q.holds before (some c) = q.holds before none)
    (h : ∀ stack ∈ pending, Stack.Over S P stack) :
    endFrom p fuel before (v ++ c :: x) position pending found =
      endFrom p fuel before v position pending found := by
  induction v generalizing before position pending found with
  | nil =>
    have hfront := frontAt_congr fuel position found hp (fun q hq => hP q hq before) h
    have hread := (frontAt_over fuel before (some c) position found hp h).read_eq_nil hS
    rw [List.nil_append, endFrom_nil, ← hfront, endFrom_cons]
    dsimp only
    rw [hread, endFrom_done hanchored, ite_self]
  | cons d v ih =>
    have hread := (frontAt_over fuel before (some d) position found hp h).read d
    rw [List.cons_append, endFrom_cons, endFrom_cons]
    dsimp only
    rw [ih hread]

/-! ## Matches -/

theorem matchEnd_le {text : List Char} {n : Nat} (h : p.matchEnd text = some n) :
    n ≤ text.length := by
  rcases endFrom_later p (p.depth + 1) none text 0 [] none with hnone | ⟨m, -, hm, hend⟩
  · exact absurd (hnone.symm.trans h) (Option.some_ne_none n).symm
  · cases hend.symm.trans h
    omega

instance : Engine.InBounds Pattern := ⟨matchEnd_le⟩

/-- `endFrom_append` at the start of a text. -/
theorem matchEnd_append {v x : List Char}
    (hplaces : ∀ q ∈ p.places, ∀ before, q.holds before x.head? = q.holds before none) :
    p.matchEnd (v ++ x) = p.matchEnd v ∨ ∃ n, v.length < n ∧ p.matchEnd (v ++ x) = some n := by
  have hnone : ∀ stack ∈ ([] : List Stack), Stack.Over (· ∈ p.sets) (· ∈ p.places) stack :=
    fun stack hstack => (List.not_mem_nil hstack).elim
  have hend : p.matchEnd (v ++ x) = p.matchEnd v ∨
      ∃ n, 0 + v.length < n ∧ p.matchEnd (v ++ x) = some n :=
    endFrom_append (over_self p) hplaces hnone
  rwa [Nat.zero_add] at hend

/-- `endFrom_blocked` at the start of a text. -/
theorem matchEnd_blocked {v : List Char} {c : Char} (x : List Char)
    (hanchored : p.isAnchored = true) (hsets : ∀ s ∈ p.sets, s.has c = false)
    (hplaces : ∀ q ∈ p.places, ∀ before, q.holds before (some c) = q.holds before none) :
    p.matchEnd (v ++ c :: x) = p.matchEnd v :=
  endFrom_blocked x (over_self p) hanchored hsets hplaces
    fun _ hstack => (List.not_mem_nil hstack).elim

/-! ## Runs of one set -/

/-- Where one set waits, the next character goes on or the end is here. -/
theorem endFrom_single (hanchored : p.isAnchored = true) {f : Front} {set : CharSet}
    {next : Stack} {c : Char} (rest : List Char)
    (hfront : frontAt p fuel before (some c) position pending found = f)
    (hwaiting : f.waiting = [(set, next)]) :
    endFrom p fuel before (c :: rest) position pending found =
      if set.has c then
        endFrom p fuel (some c) rest (position + 1) [next] (f.found position found)
      else f.found position found := by
  have hread : f.read c = if set.has c then [next] else [] := by
    cases h : set.has c <;> simp [Front.read, hwaiting, h]
  rw [endFrom_cons, hfront]
  dsimp only
  rw [hwaiting, hread, List.isEmpty_cons, Bool.false_and, if_neg Bool.false_ne_true]
  split
  · rfl
  · exact endFrom_done hanchored rest

/-- Behind one round of a set all the characters of the set that follow are taken. -/
theorem endFrom_again (hanchored : p.isAnchored = true) (set : CharSet) (rest : List Char) :
    endFrom p (fuel + 2) before rest (position + 1) [[again (char set) true]] found =
      some (position + 1 + (rest.takeWhile set.has).length) := by
  have hfront : ∀ before after position found, frontAt p (fuel + 2) before after (position + 1)
      [[again (char set) true]] found =
      ⟨[[], [char set, again (char set) true], [again (char set) true]],
        [(set, [again (char set) true])], true⟩ := by
    intro before after position found
    simp [frontAt, hanchored, front, follow]
  induction rest generalizing before position found with
  | nil =>
    rw [endFrom_nil, hfront]
    rfl
  | cons c rest ih =>
    rw [endFrom_single hanchored rest (hfront _ _ _ _) rfl, List.takeWhile_cons]
    split
    · rw [ih, List.length_cons]
      congr 1
      omega
    · rfl

/-- What the pattern of a run of a set matches. -/
theorem matchEnd_run (set : CharSet) (text : List Char) :
    (seq (place .textStart) (plus (char set) true)).matchEnd text =
      if text.takeWhile set.has = [] then none else some (text.takeWhile set.has).length := by
  have hfront : ∀ after, frontAt (seq (place .textStart) (plus (char set) true)) 7 none after 0
      [] none = ⟨[[char set, again (char set) true], [plus (char set) true],
        [place .textStart, plus (char set) true],
        [seq (place .textStart) (plus (char set) true)]],
        [(set, [again (char set) true])], false⟩ := by
    exact fun _ => rfl
  cases text with
  | nil => rfl
  | cons c rest =>
    show endFrom _ 7 none (c :: rest) 0 [] none = _
    rw [endFrom_single rfl rest (hfront _) rfl, endFrom_again rfl, List.takeWhile_cons]
    split
    · rw [if_neg (List.cons_ne_nil _ _), List.length_cons, Nat.zero_add, Nat.add_comm]
    · rfl

/-- What the pattern of a start and a run of a set behind it matches. -/
theorem matchEnd_startRun {start set : CharSet} {c : Char} (rest : List Char)
    (hc : start.has c = true) :
    (seq (place .textStart) (seq (char start) (star (char set) true))).matchEnd (c :: rest) =
      some (1 + (rest.takeWhile set.has).length) := by
  let p := seq (place .textStart) (seq (char start) (star (char set) true))
  let behind : Stack := [star (char set) true]
  -- Before the start its set waits; behind it the end is here, and the set of the run waits.
  have hstart : (frontAt p 11 none (some c) 0 [] none).waiting = [(start, behind)] := rfl
  have hbehind : ∀ after, (frontAt p 11 (some c) after 1 [behind] none).waiting =
      [(set, [again (char set) true])] := fun _ => rfl
  have hmatched : ∀ after, (frontAt p 11 (some c) after 1 [behind] none).found 1 none =
      some 1 := fun _ => rfl
  show endFrom p 11 none (c :: rest) 0 [] none = _
  rw [endFrom_single rfl rest rfl hstart, if_pos hc]
  show endFrom p 11 (some c) rest 1 [behind] none = _
  cases rest with
  | nil => rfl
  | cons d rest =>
    rw [endFrom_single rfl rest rfl (hbehind _), hmatched, endFrom_again rfl, List.takeWhile_cons]
    split
    · rw [List.length_cons, Nat.add_assoc, Nat.add_comm 1 (List.length _)]
    · rfl

end Pattern

end ApiSyntax
