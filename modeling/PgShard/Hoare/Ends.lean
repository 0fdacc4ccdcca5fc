import Mathlib

/-!
# Programs that fail half-way

A program over a state that may stop with an error, where what it had changed by then stays
changed. `Ends P m Q E`: from a state in `P`, `m` returns in `Q` or stops in `E`.
-/

namespace PgShard.Hoare

variable {σ ε α β : Type} {P P' E E' : σ → Prop}

def Ends (P : σ → Prop) (m : EStateM ε σ α) (Q : α → σ → Prop) (E : σ → Prop) : Prop :=
  ∀ s, P s → match m s with
    | .ok a s' => Q a s'
    | .error _ s' => E s'

/-- The state a run ends in, whether it returned or stopped. -/
def left (m : EStateM ε σ α) (s : σ) : σ :=
  match m s with
  | .ok _ s' => s'
  | .error _ s' => s'

variable {m : EStateM ε σ α} {Q : α → σ → Prop}

theorem Ends.left {s : σ} (h : Ends P m (fun _ => E) E) (hs : P s) : E (left m s) := by
  have hm := h s hs
  unfold Hoare.left
  cases hr : m s with
  | ok a s' => rwa [hr] at hm
  | error e s' => rwa [hr] at hm

theorem Ends.pure {a : α} (h : ∀ s, P s → Q a s) : Ends P (Pure.pure a : EStateM ε σ α) Q E := h

theorem Ends.throw {e : ε} (h : ∀ s, P s → E s) : Ends P (MonadExcept.throw e : EStateM ε σ α) Q E :=
  h

theorem Ends.update {φ : σ → σ} {k : PUnit → EStateM ε σ β} {M : σ → Prop} {Q : β → σ → Prop}
    (h : ∀ s, P s → M (φ s)) (hk : Ends M (k ⟨⟩) Q E) : Ends P (modify φ >>= k) Q E := by
  intro s hs
  exact hk (φ s) (h s hs)

theorem Ends.modify {Q : PUnit → σ → Prop} {φ : σ → σ} (h : ∀ s, P s → Q ⟨⟩ (φ s)) :
    Ends P (modify φ : EStateM ε σ PUnit) Q E :=
  h

/-- Reading the state: what follows starts from the state that was read. -/
theorem Ends.read {k : σ → EStateM ε σ β} {Q : β → σ → Prop}
    (h : ∀ s₀, P s₀ → Ends (· = s₀) (k s₀) Q E) : Ends P (MonadState.get >>= k) Q E := by
  intro s hs
  exact h s hs s rfl

/-- Reading the state where what follows needs only `P` of it. -/
theorem Ends.consult {k : σ → EStateM ε σ β} {Q : β → σ → Prop}
    (h : ∀ s₀, P s₀ → Ends P (k s₀) Q E) : Ends P (MonadState.get >>= k) Q E := by
  intro s hs
  exact h s hs s hs

theorem Ends.bind {x : EStateM ε σ α} {k : α → EStateM ε σ β} {M : α → σ → Prop}
    {Q : β → σ → Prop} (hx : Ends P x M E) (hk : ∀ a, Ends (M a) (k a) Q E) : Ends P (x >>= k) Q E := by
  intro s hs
  have hm := hx s hs
  change match EStateM.bind x k s with
    | .ok a s' => Q a s'
    | .error _ s' => E s'
  unfold EStateM.bind
  cases hr : x s with
  | ok a s' =>
    rw [hr] at hm
    exact hk a s' hm
  | error e s' =>
    rw [hr] at hm
    exact hm

/-- A failure that is caught: the handler goes on from what the failed part left. -/
theorem Ends.catching {x : EStateM ε σ α} {k : ε → EStateM ε σ α} {M : σ → Prop} (hx : Ends P x Q M)
    (hk : ∀ e, Ends M (k e) Q E) : Ends P (tryCatch x k) Q E := by
  intro s hs
  have hm := hx s hs
  change match EStateM.tryCatch x k s with
    | .ok a s' => Q a s'
    | .error _ s' => E s'
  unfold EStateM.tryCatch
  cases hr : x s with
  | ok a s' =>
    rw [hr] at hm
    exact hm
  | error e s' =>
    rw [hr] at hm
    exact hk e s' hm

theorem Ends.weaken {Q' : α → σ → Prop} (h : Ends P m Q E) (hp : ∀ s, P' s → P s)
    (hq : ∀ a s, Q a s → Q' a s) (he : ∀ s, E s → E' s) : Ends P' m Q' E' := by
  intro s hs
  have hm := h s (hp s hs)
  cases hr : m s with
  | ok a s' =>
    rw [hr] at hm
    exact hq a s' hm
  | error e s' =>
    rw [hr] at hm
    exact he s' hm

theorem Ends.gives {Q' : α → σ → Prop} (h : Ends P m Q E) (hq : ∀ a s, Q a s → Q' a s) : Ends P m Q' E :=
  h.weaken (fun _ hs => hs) hq fun _ hs => hs

theorem Ends.fails (h : Ends P m Q E) (he : ∀ s, E s → E' s) : Ends P m Q E' :=
  h.weaken (fun _ hs => hs) (fun _ _ hs => hs) he

theorem Ends.cond {c : Prop} [Decidable c] {m' : EStateM ε σ α} (ht : c → Ends P m Q E)
    (hf : ¬ c → Ends P m' Q E) : Ends P (if c then m else m') Q E := by
  by_cases hc : c
  · rw [if_pos hc]
    exact ht hc
  · rw [if_neg hc]
    exact hf hc

end PgShard.Hoare
