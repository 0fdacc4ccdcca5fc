import Mathlib

/-!
# Programs over a state that may stop with an error

`Leads P m Q` says that every run of `m` from a state in `P` that returns, returns a value
and a state in `Q`. A run that stops with an error is not spoken about.
-/

namespace PgShard.Hoare

variable {σ ε α β : Type} {P P' : σ → Prop}

variable {x : StateT σ (Except ε) α} {f : α → Except ε β}

def Leads (P : σ → Prop) (m : StateT σ (Except ε) α) (Q : α → σ → Prop) : Prop :=
  ∀ s a s', P s → m s = .ok (a, s') → Q a s'

theorem bind_eq_ok {x : Except ε α} {b : β} (h : x >>= f = .ok b) : ∃ a, x = .ok a ∧ f a = .ok b := by
  cases x with
  | error e => cases h
  | ok a => exact ⟨a, rfl, h⟩

theorem ok_bind (a : α) (f : α → Except ε β) : (Except.ok a >>= f) = f a := rfl

theorem map_eq_ok {x : Except ε α} {f : α → β} {b : β} (h : x.map f = .ok b) : ∃ a, x = .ok a ∧ f a = b := by
  cases x with
  | error e => cases h
  | ok a => exact ⟨a, rfl, Except.ok.inj h⟩

theorem mapM_zip {xs : List α} {ys : List β} {x : α}
    (h : xs.mapM f = .ok ys) (hx : x ∈ xs) : ∃ y, f x = .ok y ∧ (x, y) ∈ xs.zip ys := by
  induction xs generalizing ys with
  | nil => cases hx
  | cons a rest ih =>
    rw [List.mapM_cons] at h
    obtain ⟨b, hb, h⟩ := bind_eq_ok h
    obtain ⟨bs, hbs, h⟩ := bind_eq_ok h
    cases h
    cases hx with
    | head => exact ⟨b, hb, List.mem_cons_self⟩
    | tail _ hx =>
      obtain ⟨y, hy, hmem⟩ := ih hbs hx
      exact ⟨y, hy, List.mem_cons_of_mem _ hmem⟩

theorem mapM_eq_ok {xs : List α} {ys : List β} {x : α}
    (h : xs.mapM f = .ok ys) (hx : x ∈ xs) : ∃ y, f x = .ok y ∧ y ∈ ys := by
  obtain ⟨y, hy, hmem⟩ := mapM_zip h hx
  exact ⟨y, hy, (List.of_mem_zip hmem).2⟩

/-! A run taken apart. -/

section

variable {k : α → StateT σ (Except ε) β} {b : β} {s s' : σ}

theorem run_seq (h : (x >>= k) s = .ok (b, s')) : ∃ a s₁, x s = .ok (a, s₁) ∧ k a s₁ = .ok (b, s') := by
  obtain ⟨⟨a, s₁⟩, h₁, h₂⟩ := bind_eq_ok h
  exact ⟨a, s₁, h₁, h₂⟩

theorem run_lift {x : Except ε α} (h : ((monadLift x : StateT σ (Except ε) α) >>= k) s = .ok (b, s')) :
    ∃ a, x = .ok a ∧ k a s = .ok (b, s') := by
  obtain ⟨a, s₁, h₁, h₂⟩ := run_seq h
  obtain ⟨c, hc, heq⟩ := bind_eq_ok h₁
  cases heq
  exact ⟨a, hc, h₂⟩

theorem run_read {k : σ → StateT σ (Except ε) β} (h : (MonadState.get >>= k) s = .ok (b, s')) : k s s = .ok (b, s') :=
  h

end

variable {Q : α → σ → Prop}

theorem Leads.bind {k : α → StateT σ (Except ε) β} {S : β → σ → Prop}
    (hx : Leads P x Q) (hk : ∀ a, Leads (Q a) (k a) S) : Leads P (x >>= k) S := by
  intro s b s' hs h
  obtain ⟨⟨a, s₁⟩, h₁, h₂⟩ := bind_eq_ok h
  exact hk a s₁ b s' (hx s a s₁ hs h₁) h₂

/-- Sequencing where only the state is handed on. -/
theorem Leads.seq {k : α → StateT σ (Except ε) β}
    {Q : σ → Prop} {S : β → σ → Prop} (hx : Leads P x fun _ => Q) (hk : ∀ a, Leads Q (k a) S) : Leads P (x >>= k) S :=
  hx.bind hk

theorem Leads.pure {a : α} (h : ∀ s, P s → Q a s) : Leads P (Pure.pure a : StateT σ (Except ε) α) Q := by
  intro s b s' hs heq
  cases heq
  exact h s hs

theorem Leads.get : Leads P (MonadState.get : StateT σ (Except ε) σ) fun a s => a = s ∧ P s := by
  intro s a s' hs heq
  cases heq
  exact ⟨rfl, hs⟩

theorem Leads.modify {Q : PUnit → σ → Prop} {φ : σ → σ} (h : ∀ s, P s → Q ⟨⟩ (φ s)) :
    Leads P (modify φ : StateT σ (Except ε) PUnit) Q := by
  intro s a s' hs heq
  cases heq
  exact h s hs

theorem Leads.throw {e : ε} : Leads P (MonadExcept.throw e : StateT σ (Except ε) α) Q := by
  intro s a s' _ heq
  cases heq

theorem Leads.lift {x : Except ε α} (h : ∀ a s, x = .ok a → P s → Q a s) :
    Leads P (monadLift x : StateT σ (Except ε) α) Q := by
  intro s a s' hs heq
  obtain ⟨b, hb, heq⟩ := bind_eq_ok heq
  cases heq
  exact h a s hb hs

theorem Leads.weaken {m : StateT σ (Except ε) α} {Q' : α → σ → Prop} (h : Leads P m Q)
    (hp : ∀ s, P' s → P s) (hq : ∀ a s, Q a s → Q' a s) : Leads P' m Q' := by
  intro s a s' hs heq
  exact hq a s' (h s a s' (hp s hs) heq)

end PgShard.Hoare
