/-
  ApiSyntax/Action.lean --- steps that may fail and keep what they changed.

  An action runs on a state and ends with a result or a failure, and in both cases
  with the state it reached: a failing step does not undo what it did before it
  failed.  Undoing is a matter of those who know what to restore.
-/
import ApiSyntax.Diagnostic

set_option autoImplicit false

namespace ApiSyntax

/-- A step on states `σ` with failures `ε` and results `α`. -/
def Action (σ ε α : Type) : Type := σ → Except ε α × σ

namespace Action

variable {σ ε α β : Type}

/-- The result `a`, with nothing changed. -/
@[inline] def ret (a : α) : Action σ ε α := fun s => (.ok a, s)

/-- The first step, then what follows from its result; a failure ends the run. -/
@[inline] def andThen (x : Action σ ε α) (f : α → Action σ ε β) : Action σ ε β := fun s =>
  match x s with
  | (.ok a, s') => f a s'
  | (.error e, s') => (.error e, s')

instance : Monad (Action σ ε) where
  pure := ret
  bind := andThen

/-- The failure `e`, with nothing changed. -/
@[inline] def fail (e : ε) : Action σ ε α := fun s => (.error e, s)

/-- The state, read. -/
@[inline] def read : Action σ ε σ := fun s => (.ok s, s)

/-- The state, changed. -/
@[inline] def change (f : σ → σ) : Action σ ε Unit := fun s => (.ok (), f s)

/-- A result or failure that does not touch the state. -/
@[inline] def ofExcept (x : Except ε α) : Action σ ε α := fun s => (x, s)

/-- The run with each failure described anew. -/
@[inline] def mapError {ε' : Type} (f : ε → ε') (x : Action σ ε α) : Action σ ε' α := fun s =>
  match x s with
  | (.ok a, s') => (.ok a, s')
  | (.error e, s') => (.error (f e), s')

/-- A change that may be refused; a refusal leaves the state alone. -/
@[inline] def tryChange (f : σ → Except ε σ) : Action σ ε Unit := fun s =>
  match f s with
  | .ok s' => (.ok (), s')
  | .error e => (.error e, s)

/-- A step for each element of a list, one after another. -/
def forAll (f : α → Action σ ε Unit) : List α → Action σ ε Unit
  | [] => ret ()
  | a :: rest => andThen (f a) fun _ => forAll f rest

/-! ## Equations -/

@[simp] theorem pure_run (a : α) (s : σ) : (pure a : Action σ ε α) s = (.ok a, s) := rfl

theorem bind_run (x : Action σ ε α) (f : α → Action σ ε β) (s : σ) :
    (x >>= f) s = match x s with
      | (.ok a, s') => f a s'
      | (.error e, s') => (.error e, s') := rfl

@[simp] theorem fail_run (e : ε) (s : σ) : (fail e : Action σ ε α) s = (.error e, s) := rfl

@[simp] theorem read_run (s : σ) : (read : Action σ ε σ) s = (.ok s, s) := rfl

@[simp] theorem change_run (f : σ → σ) (s : σ) : (change f : Action σ ε Unit) s = (.ok (), f s) :=
  rfl

@[simp] theorem ofExcept_run (x : Except ε α) (s : σ) : (ofExcept x : Action σ ε α) s = (x, s) :=
  rfl

theorem mapError_ok {ε' : Type} (f : ε → ε') (a : α) :
    (Except.ok a : Except ε α).mapError f = .ok a := rfl

theorem mapError_error {ε' : Type} (f : ε → ε') (e : ε) :
    (Except.error e : Except ε α).mapError f = .error (f e) := rfl

theorem mapError_snd {ε' : Type} (f : ε → ε') (x : Action σ ε α) (s : σ) :
    (x.mapError f s).2 = (x s).2 := by
  unfold mapError
  rcases x s with ⟨_ | _, _⟩ <;> rfl

/-- Steps that each leave what a transitive relation allows do so together. -/
theorem bind_rel {R : σ → σ → Prop} {x : Action σ ε α} {f : α → Action σ ε β}
    (htrans : ∀ {a b c}, R a b → R b c → R a c) (hx : ∀ s, R s (x s).2)
    (hf : ∀ a s, R s (f a s).2) (s : σ) : R s ((x >>= f) s).2 := by
  have hstart := hx s
  rw [bind_run]
  generalize x s = r at hstart
  rcases r with ⟨_ | a, s'⟩
  · exact hstart
  · exact htrans hstart (hf a s')

instance : LawfulMonad (Action σ ε) := LawfulMonad.mk' _
  (fun x => by
    funext s
    show (match x s with
      | (.ok a, s') => (Except.ok a, s')
      | (.error e, s') => (.error e, s')) = x s
    rcases x s with ⟨_ | _, _⟩ <;> rfl)
  (fun _ _ => rfl)
  (fun x f g => by
    funext s
    simp only [bind_run]
    rcases x s with ⟨_ | _, _⟩ <;> rfl)

/-- A list is worked through by working through its members, one after another. -/
theorem mapM_rel {R : σ → σ → Prop} {f : α → Action σ ε β} (hrefl : ∀ s, R s s)
    (htrans : ∀ {a b c}, R a b → R b c → R a c) {as : List α}
    (hf : ∀ a ∈ as, ∀ s, R s (f a s).2) (s : σ) : R s (as.mapM f s).2 := by
  induction as generalizing s with
  | nil => exact hrefl s
  | cons a as ih =>
    have hrest := ih fun b hb => hf b (List.mem_cons_of_mem _ hb)
    rw [List.mapM_cons]
    exact bind_rel @htrans (hf a List.mem_cons_self)
      (fun _ => bind_rel @htrans hrest fun _ => hrefl) s

/-- A list fails at its first member, or the rest of it runs where that ended. -/
theorem mapM_cons_cases {f : α → Action σ ε β} {a : α} {as : List α} {results : Except ε (List β)}
    {s t : σ} (h : (a :: as).mapM f s = (results, t)) :
    (∃ e, f a s = (.error e, t) ∧ results = .error e) ∨
      ∃ b s' rest, f a s = (.ok b, s') ∧ as.mapM f s' = (rest, t) ∧
        results = rest.map (b :: ·) := by
  rw [List.mapM_cons, bind_run] at h
  cases hrun : f a s with
  | mk result s' =>
    rw [hrun] at h
    cases result with
    | error e =>
      cases h
      exact .inl ⟨e, rfl, rfl⟩
    | ok b =>
      simp only [bind_run] at h
      cases hruns : as.mapM f s' with
      | mk rest t' =>
        rw [hruns] at h
        cases rest with
        | error e =>
          cases h
          exact .inr ⟨b, s', .error e, rfl, hruns, rfl⟩
        | ok bs =>
          cases h
          exact .inr ⟨b, s', .ok bs, rfl, hruns, rfl⟩

/-- What fails in a list fails at one of its members. -/
theorem exists_of_mapM_error {f : α → Action σ ε β} {as : List α} {e : ε} {s t : σ}
    (h : as.mapM f s = (.error e, t)) : ∃ a ∈ as, ∃ s', f a s' = (.error e, t) := by
  induction as generalizing s with
  | nil => cases h
  | cons a as ih =>
    obtain ⟨e', hrun, he⟩ | ⟨b, s', rest, -, hruns, he⟩ := mapM_cons_cases h
    · cases he
      exact ⟨a, List.mem_cons_self, s, hrun⟩
    · cases rest with
      | ok bs => cases he
      | error e' =>
        cases he
        obtain ⟨a', ha', hrun⟩ := ih hruns
        exact ⟨a', List.mem_cons_of_mem _ ha', hrun⟩

end Action

/-! ## How a run ends without a result -/

/-- A run ends without a result when it fails, or when it is given up because its bound on
recursion is used up. -/
inductive Stop
  | failed (d : Diagnostic)
  | exhausted
deriving DecidableEq, Repr, Inhabited

/-- A failure placed unless it already has a position. -/
def Stop.orPlaced (span : Span) : Stop → Stop
  | .failed d => .failed (d.orPlaced span)
  | .exhausted => .exhausted

end ApiSyntax
