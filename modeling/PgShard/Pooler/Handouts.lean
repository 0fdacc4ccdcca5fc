import PgShard.Runs.Offence

/-!
# Handouts of a backend

A backend goes from the pool to a session and back. A backend that was given back carries a mark, by
which the pool tells a second return of one handout; the next handout takes the mark away.
-/

namespace PgShard.Pooler.Handouts

variable {ρ κ : Type}

/-- `holders` are the sessions that were handed the backend and have not given it back; `dropped` is
that it was closed on its way out of the idle list. -/
structure Backend (ρ κ : Type) where
  role : ρ
  digest : κ
  released : Bool := false
  broken : Bool := false
  holders : List Nat := []
  dropped : Bool := false

/-- `disturbed` is that a session gave back, with effect, what it did not hold. -/
structure Pool (ρ κ : Type) where
  backends : Nat → Option (Backend ρ κ) := fun _ => none
  idle : ρ → List Nat := fun _ => []
  closed : Bool := false
  disturbed : Bool := false

/-- One section under the pool's lock. Whether a backend has expired or is fit for reuse, and which idle
one is evicted, is the event's. -/
inductive Event (ρ κ : Type)
  | dial (session : Nat) (role : ρ) (digest : κ) (b : Nat)
  | popIdle (session : Nat) (role : ρ) (digest : κ) (expired : Bool)
  | evictIdle (role : ρ) (i : Nat)
  /-- Release, or Discard when `broken`. -/
  | release (session b : Nat) (broken fit : Bool)
  | abandon (session b : Nat)
  | close

namespace Pool

def put (p : Pool ρ κ) (b : Nat) (x : Backend ρ κ) : Pool ρ κ :=
  { p with backends := Function.update p.backends b (some x) }

variable [DecidableEq ρ] [DecidableEq κ] (p : Pool ρ κ)

/-- A backend is given back: one that was already is left alone. -/
def giveBack (session b : Nat) (broken fit : Bool) : Pool ρ κ :=
  match p.backends b with
  | none => p
  | some x =>
    let y := { x with holders := x.holders.erase session }
    if x.released then p.put b y
    else
      let q := { p.put b { y with released := true, broken := x.broken || broken } with
        disturbed := p.disturbed || !x.holders.contains session }
      if !p.closed && !(x.broken || broken) && fit then
        { q with idle := Function.update p.idle x.role (p.idle x.role ++ [b]) }
      else q

def step : Event ρ κ → Pool ρ κ
  | .dial session role digest b =>
    if p.closed || (p.backends b).isSome then p
    else p.put b { role := role, digest := digest, holders := [session] }
  | .popIdle session role digest expired =>
    match (p.idle role).getLast?.bind fun b => (p.backends b).map (b, ·) with
    | none => p
    | some (b, x) =>
      let q := { p with idle := Function.update p.idle role (p.idle role).dropLast }
      if expired || x.digest ≠ digest then q.put b { x with released := false, dropped := true }
      else q.put b { x with released := false, holders := session :: x.holders }
  | .evictIdle role i => { p with idle := Function.update p.idle role ((p.idle role).eraseIdx i) }
  | .release session b broken fit => p.giveBack session b broken fit
  | .abandon session b => p.giveBack session b true false
  | .close => { p with closed := true, idle := fun _ => [] }

def run (events : List (Event ρ κ)) : Pool ρ κ := events.foldl step {}

/-- No backend is both idle and held or held by two sessions, and giving back what a session does not
hold has changed nothing. -/
structure Harmless : Prop where
  alone : ∀ b x, p.backends b = some x → x.holders.length ≤ 1
  apart : ∀ b x, p.backends b = some x → x.holders ≠ [] → ∀ role, b ∉ p.idle role
  undisturbed : p.disturbed = false

/-- A session gives back what it holds, or what nobody holds and was not closed on its way out. -/
def KeepsOff (p : Pool ρ κ) : Event ρ κ → Prop
  | .release session b _ _ | .abandon session b => ∀ x, p.backends b = some x →
    session ∈ x.holders ∨ x.holders = [] ∧ x.dropped = false
  | _ => True

end Pool

/-! ### What holds while sessions keep off -/

structure Backend.Marked (x : Backend ρ κ) : Prop where
  mark : x.released = false ↔ x.holders ≠ [] ∨ x.dropped = true
  alone : x.holders.length ≤ 1
  dropped : x.dropped = true → x.holders = []

namespace Pool

structure Inv (p : Pool ρ κ) : Prop where
  marked : ∀ b x, p.backends b = some x → x.Marked
  idle : ∀ role, ∀ b ∈ p.idle role, ∃ x, p.backends b = some x ∧ x.released = true ∧ x.role = role
  nodup : ∀ role, (p.idle role).Nodup
  undisturbed : p.disturbed = false

variable {p : Pool ρ κ} {b : Nat} {x y : Backend ρ κ}

lemma Inv.harmless (h : p.Inv) : p.Harmless := { h with
  alone b x hx := (h.marked b x hx).alone
  apart b x hx hheld role hb := by
    obtain ⟨x', hx', hrel, -⟩ := h.idle role b hb
    obtain rfl : x' = x := Option.some.inj (hx'.symm.trans hx)
    simp [(h.marked b x' hx).mark.mpr (.inl hheld)] at hrel }

/-- A backend that is out of the pool is not idle. -/
lemma Inv.out (h : p.Inv) (hx : p.backends b = some x) (hrel : x.released = false) (role : ρ) : b ∉ p.idle role := by
  intro hb
  obtain ⟨x', hx', hrel', -⟩ := h.idle role b hb
  obtain rfl : x' = x := Option.some.inj (hx'.symm.trans hx)
  simp [hrel] at hrel'

lemma Inv.put (h : p.Inv) (hy : y.Marked) (hout : ∀ role, b ∉ p.idle role) : (p.put b y).Inv := { h with
  marked b' x hx := by
    by_cases hb : b' = b
    · subst hb
      obtain rfl : y = x := by simpa [Pool.put] using hx
      exact hy
    · exact h.marked b' x (by simpa [Pool.put, hb] using hx)
  idle role b' hb' := by
    have hne : b' ≠ b := fun heq => hout role (heq ▸ hb')
    obtain ⟨x, hx, hrest⟩ := h.idle role b' hb'
    exact ⟨x, by simpa [Pool.put, hne] using hx, hrest⟩ }

lemma Inv.fewer (h : p.Inv) {idle : ρ → List Nat} (hsub : ∀ role, (idle role).Sublist (p.idle role)) :
    ({ p with idle := idle } : Pool ρ κ).Inv := { h with
  idle role b hb := h.idle role b ((hsub role).subset hb)
  nodup role := (h.nodup role).sublist (hsub role) }

variable [DecidableEq ρ]

lemma update_sublist {idle : ρ → List Nat} {role : ρ} {l : List Nat} (hl : l.Sublist (idle role)) (role' : ρ) :
    (Function.update idle role l role').Sublist (idle role') := by
  by_cases hr : role' = role
  · subst hr
    rwa [Function.update_self]
  · rw [Function.update_of_ne hr]

lemma Inv.keep (h : p.Inv) (hx : p.backends b = some x) (hrel : x.released = true) (hout : ∀ role, b ∉ p.idle role) :
    ({ p with idle := Function.update p.idle x.role (p.idle x.role ++ [b]) } : Pool ρ κ).Inv := { h with
  idle role b' hb' := by
    by_cases hr : role = x.role
    · subst hr
      simp only [Function.update_self, List.mem_append, List.mem_singleton] at hb'
      rcases hb' with hb' | rfl
      · exact h.idle _ b' hb'
      · exact ⟨x, hx, hrel, rfl⟩
    · simp only [Function.update_of_ne hr] at hb'
      exact h.idle role b' hb'
  nodup role := by
    by_cases hr : role = x.role
    · subst hr
      simpa [List.nodup_append, h.nodup] using fun a ha => ne_of_mem_of_not_mem ha (hout _)
    · simpa [Function.update_of_ne hr] using h.nodup role }

lemma Inv.giveBack (h : p.Inv) {session : Nat} (broken fit : Bool)
    (hoff : ∀ x, p.backends b = some x → session ∈ x.holders ∨ x.holders = [] ∧ x.dropped = false) :
    (p.giveBack session b broken fit).Inv := by
  unfold Pool.giveBack
  split
  · exact h
  · rename_i x hx
    have hmarked := h.marked b x hx
    rcases hoff x hx with hholds | ⟨hnobody, hkept⟩
    · have hrel : x.released = false := hmarked.mark.mpr (.inl (List.ne_nil_of_mem hholds))
      have hnil : x.holders.erase session = [] := by
        rw [← List.length_eq_zero_iff, List.length_erase_of_mem hholds]
        exact Nat.sub_eq_zero_of_le hmarked.alone
      have hkept : x.dropped = false := by
        by_contra hdropped
        exact List.ne_nil_of_mem hholds (hmarked.dropped (by simpa using hdropped))
      have hput := h.put (y := { x with released := true, broken := x.broken || broken, holders := x.holders.erase session })
        ⟨by simp [hnil, hkept], by simp [hnil], by simp [hnil]⟩ (h.out hx hrel)
      have hq : ({ p.put b { x with released := true, broken := x.broken || broken, holders := x.holders.erase session }
          with disturbed := p.disturbed || !x.holders.contains session } : Pool ρ κ).Inv :=
        { hput with undisturbed := by simp [h.undisturbed, hholds] }
      simp only [hrel, Bool.false_eq_true, if_false]
      split
      · exact hq.keep (x := { x with released := true, broken := x.broken || broken, holders := x.holders.erase session })
          (Function.update_self ..) rfl (h.out hx hrel)
      · exact hq
    · have hrel : x.released = true := by
        by_contra hno
        rcases hmarked.mark.mp (by simpa using hno) with hheld | hdropped
        · exact hheld hnobody
        · simp [hkept] at hdropped
      have hsame : ({ x with holders := x.holders.erase session } : Backend ρ κ) = x := by
        rw [hnobody, List.erase_nil, ← hnobody]
      have hput : p.put b x = p := by
        rw [Pool.put, ← hx, Function.update_eq_self]
      dsimp only
      rwa [if_pos hrel, hsame, hput]

variable [DecidableEq κ]

lemma inv_step (h : p.Inv) (e : Event ρ κ) (hoff : p.KeepsOff e) : (p.step e).Inv := by
  cases e with
  | dial session role digest b =>
    unfold Pool.step
    dsimp only
    split
    · exact h
    · rename_i hfree
      simp only [Bool.or_eq_true, not_or, Option.not_isSome_iff_eq_none] at hfree
      refine h.put ⟨by simp, by simp, by simp⟩ fun role' hb => ?_
      obtain ⟨x, hx, -⟩ := h.idle role' b hb
      simp [hfree.2] at hx
  | popIdle session role digest expired =>
    unfold Pool.step
    dsimp only
    split
    · exact h
    · rename_i b x hpop
      obtain ⟨b', hlast, hmap⟩ := Option.bind_eq_some_iff.mp hpop
      obtain ⟨x', hx, heq⟩ := Option.map_eq_some_iff.mp hmap
      cases heq
      obtain ⟨x', hx', hrel, hrole⟩ := h.idle role b (List.mem_of_getLast? hlast)
      obtain rfl : x' = x := Option.some.inj (hx'.symm.trans hx)
      have hmarked := h.marked b x' hx
      have hnobody : x'.holders = [] ∧ x'.dropped = false := by
        have hmark := hmarked.mark
        rw [hrel] at hmark
        simpa using hmark
      have hq := h.fewer (update_sublist (List.dropLast_sublist (p.idle role)))
      have hout : ∀ role', b ∉ Function.update p.idle role (p.idle role).dropLast role' := by
        intro role' hb
        obtain ⟨x'', hx'', -, hrole'⟩ := h.idle role' b ((update_sublist (List.dropLast_sublist _) role').subset hb)
        obtain rfl : x'' = x' := Option.some.inj (hx''.symm.trans hx)
        obtain rfl : role = role' := hrole.symm.trans hrole'
        rw [Function.update_self] at hb
        have hnodup := h.nodup role
        rw [← List.dropLast_append_getLast? b hlast, List.nodup_append] at hnodup
        exact hnodup.2.2 b hb b (by simp) rfl
      split
      · exact hq.put ⟨by simp, hmarked.alone, fun _ => hnobody.1⟩ hout
      · exact hq.put ⟨by simp, by simp [hnobody.1], by simp [hnobody.2]⟩ hout
  | evictIdle role i => exact h.fewer (update_sublist (List.eraseIdx_sublist _ i))
  | release session b broken fit => exact h.giveBack broken fit hoff
  | abandon session b => exact h.giveBack true false hoff
  | close => exact { h.fewer (fun _ => List.nil_sublist _) with }

lemma disturbs (h : p.Inv) (e : Event ρ κ) (hoff : ¬ p.KeepsOff e) : ¬ (p.step e).Harmless := by
  have hcall : ∀ session b broken fit, ¬ (∀ x, p.backends b = some x → session ∈ x.holders ∨
      x.holders = [] ∧ x.dropped = false) → ¬ (p.giveBack session b broken fit).Harmless := by
    intro session b broken fit hnot hharmless
    push Not at hnot
    obtain ⟨x, hx, hother, hout⟩ := hnot
    have hrel : x.released = false := by
      refine (h.marked b x hx).mark.mpr ?_
      by_cases hheld : x.holders = []
      · exact .inr (by simpa using hout hheld)
      · exact .inl hheld
    have hdisturbed := hharmless.undisturbed
    unfold Pool.giveBack at hdisturbed
    simp only [hx, hrel, Bool.false_eq_true, if_false] at hdisturbed
    split at hdisturbed <;> simp [hother] at hdisturbed
  cases e with
  | release session b broken fit => exact hcall session b broken fit hoff
  | abandon session b => exact hcall session b true false hoff
  | dial | popIdle | evictIdle | close => exact absurd trivial hoff

end Pool

/-- Over any run of the pool: giving a handout back again has changed nothing and no backend is shared or
held while it is idle, exactly when no session gives back a backend that another one has been handed
since or that was closed on its way to another one. -/
theorem second_release_harmless_iff [DecidableEq ρ] [DecidableEq κ] (events : List (Event ρ κ)) :
    (∀ earlier, earlier <+: events → (Pool.run earlier).Harmless) ↔
      ∀ earlier e, earlier ++ [e] <+: events → (Pool.run earlier).KeepsOff e := by
  apply Runs.good_throughout_iff Pool.step Pool.Inv Pool.Harmless (fun _ => True) Pool.KeepsOff
  · exact fun p e h _ hoff => Pool.inv_step h e hoff
  · exact fun p h => h.harmless
  · exact fun p e h _ hoff => Pool.disturbs h e hoff
  · exact ⟨nofun, nofun, fun _ => .nil, rfl⟩
  · exact fun _ _ => trivial

/-- Session 1 gives its backend back, session 2 gets it, and session 1 gives it back once more: it is
idle while session 2 holds it, and session 3 gets it too. -/
theorem second_release_shares_backend :
    ∃ events : List (Event Unit Unit), ∃ x, (Pool.run events).backends 0 = some x ∧ x.holders = [3, 2] :=
  ⟨[.dial 1 () () 0, .release 1 0 false true, .popIdle 2 () () false, .release 1 0 false true,
    .popIdle 3 () () false], _, rfl, rfl⟩

end PgShard.Pooler.Handouts
