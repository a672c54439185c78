/-!
# Computations whose outcome depends on a view of the state

For programs that change a state and can fail. `Gives` and `Fails` say what a program does from every
state of a set; `Settles` says that from all of them it does the same, up to a view of the state that
it leaves. The rules follow the program.
-/

namespace Toolkit

set_option autoImplicit false

universe u

variable {σ τ ε α β : Type u}

/-- From every state of `P` the value is `a`, and the state left is in `Q`. -/
def Gives (P : σ → Prop) (m : StateT σ (Except ε) α) (a : α) (Q : σ → Prop) : Prop :=
  ∀ s, P s → ∃ t, m s = .ok (a, t) ∧ Q t

/-- From every state of `P` the program fails with `e`. -/
def Fails (P : σ → Prop) (m : StateT σ (Except ε) α) (e : ε) : Prop :=
  ∀ s, P s → m s = .error e

/-- All states of `P` have the same outcome: one value and one view of the state left, or one error. -/
def Settles (view : σ → τ) (P : σ → Prop) (m : StateT σ (Except ε) α) (Q : α → τ → Prop)
    (E : ε → Prop) : Prop :=
  (∃ a r, Q a r ∧ Gives P m a fun t => view t = r) ∨ ∃ e, E e ∧ Fails P m e

section

variable {view : σ → τ} {P P' Q Q' : σ → Prop} {m : StateT σ (Except ε) α}
  {g : α → StateT σ (Except ε) β} {a : α} {b : β} {e : ε} {E : ε → Prop}
  {R : α → τ → Prop} {R' : β → τ → Prop}

theorem gives_pure (h : ∀ s, P s → Q s) : Gives P (pure a : StateT σ (Except ε) α) a Q :=
  fun s hs => ⟨s, rfl, h s hs⟩

theorem fails_throw : Fails P (throw e : StateT σ (Except ε) α) e := fun _ _ => rfl

theorem gives_bind (h : Gives P m a Q) (h' : Gives Q (g a) b Q') : Gives P (m >>= g) b Q' := by
  intro s hs
  obtain ⟨t, hm, ht⟩ := h s hs
  obtain ⟨t', hg, ht'⟩ := h' t ht
  refine ⟨t', ?_, ht'⟩
  calc (m >>= g) s = (m s).bind fun x => g x.1 x.2 := rfl
    _ = g a t := by rw [hm]; rfl
    _ = .ok (b, t') := hg

theorem fails_first (h : Fails P m e) : Fails P (m >>= g) e := by
  intro s hs
  calc (m >>= g) s = (m s).bind fun x => g x.1 x.2 := rfl
    _ = .error e := by rw [h s hs]; rfl

theorem fails_bind (h : Gives P m a Q) (h' : Fails Q (g a) e) : Fails P (m >>= g) e := by
  intro s hs
  obtain ⟨t, hm, ht⟩ := h s hs
  calc (m >>= g) s = (m s).bind fun x => g x.1 x.2 := rfl
    _ = g a t := by rw [hm]; rfl
    _ = .error e := h' t ht

theorem Gives.mono (h : Gives P m a Q) (hP : ∀ s, P' s → P s) (hQ : ∀ s, Q s → Q' s) :
    Gives P' m a Q' := by
  intro s hs
  obtain ⟨t, hm, ht⟩ := h s (hP s hs)
  exact ⟨t, hm, hQ t ht⟩

theorem Gives.pre (h : Gives P m a Q) (hP : ∀ s, P' s → P s) : Gives P' m a Q :=
  h.mono hP fun _ ht => ht

theorem Fails.pre (h : Fails P m e) (hP : ∀ s, P' s → P s) : Fails P' m e :=
  fun s hs => h s (hP s hs)

theorem settles_pure {r : τ} (hview : ∀ s, P s → view s = r) (hR : R a r) :
    Settles view P (pure a : StateT σ (Except ε) α) R E :=
  .inl ⟨a, r, hR, gives_pure hview⟩

theorem settles_throw (hE : E e) : Settles view P (throw e : StateT σ (Except ε) α) R E :=
  .inr ⟨e, hE, fails_throw⟩

theorem settles_gives {r : τ} (h : Gives P m a fun t => view t = r) (hR : R a r) :
    Settles view P m R E :=
  .inl ⟨a, r, hR, h⟩

theorem settles_fails (h : Fails P m e) (hE : E e) : Settles view P m R E := .inr ⟨e, hE, h⟩

theorem settles_step (h : Gives P m a Q) (h' : Settles view Q (g a) R' E) :
    Settles view P (m >>= g) R' E := by
  rcases h' with ⟨b, r, hR, hg⟩ | ⟨e, hE, hg⟩
  · exact .inl ⟨b, r, hR, gives_bind h hg⟩
  · exact .inr ⟨e, hE, fails_bind h hg⟩

theorem settles_bind (h : Settles view P m R E)
    (h' : ∀ a r, R a r → Settles view (fun s => view s = r) (g a) R' E) :
    Settles view P (m >>= g) R' E := by
  rcases h with ⟨a, r, hR, hm⟩ | ⟨e, hE, hm⟩
  · exact settles_step hm (h' a r hR)
  · exact .inr ⟨e, hE, fails_first hm⟩

theorem Settles.mono {S : α → τ → Prop} (h : Settles view P m R E) (hR : ∀ a r, R a r → S a r) :
    Settles view P m S E := by
  rcases h with ⟨a, r, ha, hm⟩ | ⟨e, hE, hm⟩
  · exact .inl ⟨a, r, hR a r ha, hm⟩
  · exact .inr ⟨e, hE, hm⟩

theorem Settles.pre (h : Settles view P m R E) (hP : ∀ s, P' s → P s) : Settles view P' m R E := by
  rcases h with ⟨a, r, ha, hm⟩ | ⟨e, hE, hm⟩
  · exact .inl ⟨a, r, ha, hm.pre hP⟩
  · exact .inr ⟨e, hE, hm.pre hP⟩

theorem Settles.agree (h : Settles view P m R E) {s s' : σ} (hs : P s) (hs' : P s') :
    (m s).map (·.1) = (m s').map (·.1) ∧ ∀ e, m s = .error e → E e := by
  rcases h with ⟨a, r, _, hm⟩ | ⟨e, hE, hm⟩
  · obtain ⟨t, ht, _⟩ := hm s hs
    obtain ⟨t', ht', _⟩ := hm s' hs'
    refine ⟨?_, ?_⟩
    · rw [ht, ht']
      rfl
    · intro e he
      rw [ht] at he
      cases he
  · refine ⟨by rw [hm s hs, hm s' hs'], ?_⟩
    intro e' he
    rw [hm s hs] at he
    cases he
    exact hE

end

end Toolkit
