/-
  ApiSyntax/Proofs/Arena/Comparison.lean --- two actions compared.

  `Mirrors` compares two actions: run on states that are related, they end alike.  `Tracks`
  compares two actions that may be given up: when the first one is, nothing is said of the
  second, whose bounds may be larger.  There is a rule for each way to put actions together.
-/
import ApiSyntax.Action

set_option autoImplicit false

namespace ApiSyntax

/-! ## Replies -/

/-- Both answer, with answers that `R` relates, or both fail, of failures that `E` relates. -/
inductive Replies {ε α β : Type} (E : ε → ε → Prop) (R : α → β → Prop) :
    Except ε α → Except ε β → Prop
  | ok {a : α} {b : β} (h : R a b) : Replies E R (.ok a) (.ok b)
  | error {e e' : ε} (h : E e e') : Replies E R (.error e) (.error e')

namespace Replies

variable {ε α β γ δ : Type} {E : ε → ε → Prop} {R : α → β → Prop} {Q : γ → δ → Prop}
  {x : Except ε α} {y : Except ε β}

theorem bind {f : α → Except ε γ} {g : β → Except ε δ} (h : Replies E R x y)
    (hf : ∀ a b, R a b → Replies E Q (f a) (g b)) : Replies E Q (x >>= f) (y >>= g) := by
  cases h with
  | ok h => exact hf _ _ h
  | error h => exact .error h

theorem imp {P : α → β → Prop} (h : Replies E R x y) (hRP : ∀ a b, R a b → P a b) :
    Replies E P x y := by
  cases h with
  | ok h => exact .ok (hRP _ _ h)
  | error h => exact .error h

theorem map {f : α → γ} {g : β → δ} (h : Replies E R x y) (hf : ∀ a b, R a b → Q (f a) (g b)) :
    Replies E Q (x.map f) (y.map g) := by
  cases h with
  | ok h => exact .ok (hf _ _ h)
  | error h => exact .error h

/-- A list is worked through with replies that are functions of each other. -/
theorem mapM {k : α → β} {m : γ → δ} {f : α → Except ε γ} {g : β → Except ε δ}
    (hf : ∀ a, Replies E (fun c d => d = m c) (f a) (g (k a))) (as : List α) :
    Replies E (fun cs ds => ds = cs.map m) (as.mapM f) ((as.map k).mapM g) := by
  induction as with
  | nil => exact .ok rfl
  | cons a as ih =>
    rw [List.map_cons, List.mapM_cons, List.mapM_cons]
    refine (hf a).bind fun c d hcd => ih.bind fun cs ds hds => ?_
    subst hcd hds
    exact .ok rfl

end Replies

/-! ## Actions that fail or answer -/

namespace Action

variable {σ ε α β γ δ : Type}

/-- Two runs that reply alike, from states that `S` relates to states that `S` relates. -/
structure Ends (S : σ → σ → Prop) (E : ε → ε → Prop) (R : α → β → Prop) (x : Except ε α × σ)
    (y : Except ε β × σ) : Prop where
  reply : Replies E R x.1 y.1
  state : S x.2 y.2

/-- From states that `S` relates, both actions end alike. -/
def Mirrors (S : σ → σ → Prop) (E : ε → ε → Prop) (R : α → β → Prop) (x : Action σ ε α)
    (y : Action σ ε β) : Prop := ∀ s t, S s t → Ends S E R (x s) (y t)

namespace Mirrors

variable {S : σ → σ → Prop} {E : ε → ε → Prop} {R : α → β → Prop} {Q : γ → δ → Prop}
  {x : Action σ ε α} {y : Action σ ε β}

theorem pure {a : α} {b : β} (h : R a b) : Mirrors S E R (Pure.pure a) (Pure.pure b) :=
  fun _ _ hst => ⟨.ok h, hst⟩

theorem fail {e e' : ε} (h : E e e') : Mirrors S E R (.fail e) (.fail e') :=
  fun _ _ hst => ⟨.error h, hst⟩

theorem bind {f : α → Action σ ε γ} {g : β → Action σ ε δ} (hx : Mirrors S E R x y)
    (hf : ∀ a b, R a b → Mirrors S E Q (f a) (g b)) : Mirrors S E Q (x >>= f) (y >>= g) := by
  intro s t hst
  have hends := hx s t hst
  rw [bind_run, bind_run]
  generalize x s = r, y t = r' at hends
  obtain ⟨r, s'⟩ := r
  obtain ⟨r', t'⟩ := r'
  obtain ⟨hreply, hstate⟩ := hends
  cases hreply with
  | ok h => exact hf _ _ h _ _ hstate
  | error h => exact ⟨.error h, hstate⟩

/-- Actions that give the same result, then what follows from it. -/
theorem next {x y : Action σ ε α} {f : α → Action σ ε γ} {g : α → Action σ ε δ}
    (hx : Mirrors S E Eq x y) (hf : ∀ a, Mirrors S E Q (f a) (g a)) :
    Mirrors S E Q (x >>= f) (y >>= g) := by
  refine hx.bind fun a b hab => ?_
  subst hab
  exact hf a

theorem mapError {ε' : Type} {E' : ε' → ε' → Prop} {f g : ε → ε'} (hx : Mirrors S E R x y)
    (hfg : ∀ e e', E e e' → E' (f e) (g e')) : Mirrors S E' R (x.mapError f) (y.mapError g) := by
  intro s t hst
  have hends := hx s t hst
  unfold Action.mapError
  generalize x s = r, y t = r' at hends
  obtain ⟨r, s'⟩ := r
  obtain ⟨r', t'⟩ := r'
  obtain ⟨hreply, hstate⟩ := hends
  cases hreply with
  | ok h => exact ⟨.ok h, hstate⟩
  | error h => exact ⟨.error (hfg _ _ h), hstate⟩

end Mirrors

end Action

/-! ## Actions that may be given up -/

namespace Action

variable {σ α β γ δ : Type}

/-- Two runs that end alike, in states that `S` relates, unless the first one was given up. -/
inductive Paced (S : σ → σ → Prop) (E : Diagnostic → Diagnostic → Prop) (R : α → β → Prop) :
    Except Stop α × σ → Except Stop β × σ → Prop
  | done {a : α} {b : β} {s t : σ} (h : R a b) (meets : S s t) : Paced S E R (.ok a, s) (.ok b, t)
  | failed {d d' : Diagnostic} {s t : σ} (h : E d d') (meets : S s t) :
      Paced S E R (.error (.failed d), s) (.error (.failed d'), t)
  | spent {s : σ} {r : Except Stop β × σ} : Paced S E R (.error .exhausted, s) r

/-- From states that `S` relates, the second action keeps up with the first. -/
def Tracks (S : σ → σ → Prop) (E : Diagnostic → Diagnostic → Prop) (R : α → β → Prop)
    (x : Action σ Stop α) (y : Action σ Stop β) : Prop := ∀ s t, S s t → Paced S E R (x s) (y t)

/-- Runs that keep up, then what follows from their results. -/
theorem Paced.bind {S : σ → σ → Prop} {E : Diagnostic → Diagnostic → Prop} {R : α → β → Prop}
    {Q : γ → δ → Prop} {x : Action σ Stop α} {y : Action σ Stop β} {f : α → Action σ Stop γ}
    {g : β → Action σ Stop δ} {s t : σ} (h : Paced S E R (x s) (y t))
    (hf : ∀ a b, R a b → Tracks S E Q (f a) (g b)) : Paced S E Q ((x >>= f) s) ((y >>= g) t) := by
  rw [bind_run, bind_run]
  generalize x s = r, y t = r' at h
  cases h with
  | done h meets => exact hf _ _ h _ _ meets
  | failed h meets => exact .failed h meets
  | spent => exact .spent

namespace Tracks

variable {S : σ → σ → Prop} {E : Diagnostic → Diagnostic → Prop} {R : α → β → Prop}
  {Q : γ → δ → Prop} {x : Action σ Stop α} {y : Action σ Stop β}

theorem pure {a : α} {b : β} (h : R a b) : Tracks S E R (Pure.pure a) (Pure.pure b) :=
  fun _ _ hst => .done h hst

theorem fail {d d' : Diagnostic} (h : E d d') :
    Tracks S E R (.fail (.failed d)) (.fail (.failed d')) := fun _ _ hst => .failed h hst

theorem exhausted : Tracks S E R (.fail .exhausted) y := fun _ _ _ => .spent

theorem bind {f : α → Action σ Stop γ} {g : β → Action σ Stop δ} (hx : Tracks S E R x y)
    (hf : ∀ a b, R a b → Tracks S E Q (f a) (g b)) : Tracks S E Q (x >>= f) (y >>= g) :=
  fun s t hst => (hx s t hst).bind hf

/-- The second result is a function of the first; then what follows. -/
theorem next {m : α → β} {f : α → Action σ Stop γ} {g : β → Action σ Stop δ}
    (hx : Tracks S E (fun a b => b = m a) x y) (hf : ∀ a, Tracks S E Q (f a) (g (m a))) :
    Tracks S E Q (x >>= f) (y >>= g) := by
  refine hx.bind fun a b hab => ?_
  subst hab
  exact hf a

/-- Actions that fail with a diagnostic are never given up. -/
theorem ofMirrors {x : Action σ Diagnostic α} {y : Action σ Diagnostic β} {f g : Diagnostic → Stop}
    (h : Mirrors S E R x y)
    (hfg : ∀ d d', E d d' → ∃ e e', f d = .failed e ∧ g d' = .failed e' ∧ E e e') :
    Tracks S E R (x.mapError f) (y.mapError g) := by
  intro s t hst
  have hends := h s t hst
  unfold Action.mapError
  generalize x s = r, y t = r' at hends
  obtain ⟨r, s'⟩ := r
  obtain ⟨r', t'⟩ := r'
  obtain ⟨hreply, hstate⟩ := hends
  cases hreply with
  | ok hab => exact .done hab hstate
  | error hd =>
    obtain ⟨e, e', hf, hg, he⟩ := hfg _ _ hd
    dsimp only
    rw [hf, hg]
    exact .failed he hstate

theorem mapM {k : α → α} {m : β → γ} {f : α → Action σ Stop β} {g : α → Action σ Stop γ}
    (hf : ∀ a, Tracks S E (fun b c => c = m b) (f a) (g (k a))) (as : List α) :
    Tracks S E (fun bs cs => cs = bs.map m) (as.mapM f) ((as.map k).mapM g) := by
  induction as with
  | nil => exact pure rfl
  | cons a as ih =>
    rw [List.map_cons, List.mapM_cons, List.mapM_cons]
    exact (hf a).next fun b => ih.next fun bs => pure rfl

end Tracks

/-- A question about the state, whose failures end the run. -/
theorem Paced.ask {S : σ → σ → Prop} {E : Diagnostic → Diagnostic → Prop} {R : α → β → Prop}
    {x : Except Diagnostic α} {y : Except Diagnostic β} {s t : σ} (h : Replies E R x y)
    (hst : S s t) : Paced S E R (x.mapError .failed, s) (y.mapError .failed, t) := by
  cases h with
  | ok h => exact .done h hst
  | error h => exact .failed h hst

end Action

end ApiSyntax
