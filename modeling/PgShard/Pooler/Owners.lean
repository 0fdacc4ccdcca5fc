import PgShard.Places.Separate
import PgShard.Pooler.Capacity

/-!
# Who has a backend

A backend is in the idle list or with one thread, and a thread is handed only a backend of its own
database and role that was authenticated with the keys it came with.
-/

namespace PgShard.Pooler

open Key Places Finset

/-- The backend a thread has in its hands. -/
@[simp] def Stage.owns : Stage → Option Backend
  | .check _ b | .leave (.reused b) | .holding b | .abandoned b => some b
  | .freeTotal _ next | .freeSem _ next => next.owns
  | _ => none

/-- The backend a thread has been given to use. -/
@[simp] def Stage.handed : Stage → Option Backend
  | .leave (.reused b) | .holding b | .abandoned b => some b
  | .freeTotal _ next | .freeSem _ next => next.handed
  | _ => none

/-- The backends at a place: the idle list, or a thread. -/
def Pool.backendsAt (p : Pool) : Option Nat → Set Backend
  | none => { b | b ∈ p.idle }
  | some i => { b | (p.threads i).stage.owns = some b }

def Pool.idsAt (p : Pool) (place : Option Nat) : Set Nat := Backend.id '' p.backendsAt place

/-- What a thread has is of its own database and role, and what it was given is of its credential. -/
structure Suits (cfg : PoolConfig) (t : Thread) : Prop where
  keyed : ∀ b, t.stage.owns = some b → b.key = t.key
  matched : ∀ b, t.stage.handed = some b → b.credDigest = cfg.credDigest t.keys

structure Owned (cfg : PoolConfig) (p : Pool) : Prop where
  separate : Separate p.idsAt
  once : (p.idle.map Backend.id).Nodup
  sound : ∀ place, ∀ b ∈ p.backendsAt place, b.id < p.dialled ∧ b.credDigest = cfg.credDigest b.keys
  suits : ∀ i, Suits cfg (p.threads i)

/-- A thread that goes on has what its stage says, and the other places what they had. -/
lemma goto_at {p : Pool} {i : Nat} {s : Stage} {place : Option Nat} {c : Backend}
    (hc : c ∈ (p.goto i s).backendsAt place) :
    place = some i ∧ s.owns = some c ∨ place ≠ some i ∧ c ∈ p.backendsAt place := by
  cases place with
  | none => exact .inr ⟨by simp, hc⟩
  | some j =>
    by_cases hj : j = i
    · subst hj
      exact .inl ⟨rfl, by simpa [Pool.backendsAt, Pool.goto] using hc⟩
    · exact .inr ⟨by simpa using hj, by simpa [Pool.backendsAt, Pool.goto, Function.update_of_ne hj] using hc⟩

namespace Owned

variable {cfg : PoolConfig} {p p₁ : Pool} {i : Nat} {s : Stage}

section

variable (h : Owned cfg p)

include h

lemma elsewhere {x y : Option Nat} {b c : Backend} (hb : b ∈ p.backendsAt x)
    (hc : c ∈ p.backendsAt y) (hne : y ≠ x) : c.id ≠ b.id :=
  fun hid => hne (h.separate ⟨c, hc, hid⟩ ⟨b, hb, rfl⟩)

/-- A backend taken from the idle list is not there any more. -/
lemma dropped {b c : Backend} (hb : b ∈ p.idle) (hc : c ∈ (p.dropIdle b).idle) : c.id ≠ b.id := by
  have hnodup : p.idle.Nodup := List.Nodup.of_map _ h.once
  obtain ⟨hne, hc⟩ := (hnodup.mem_erase_iff).mp hc
  exact fun hid => hne (List.inj_on_of_nodup_map h.once hc hb hid)

/-- Backends stay where they were, but for one that may be new at a place. -/
lemma gain (x : Option Nat) (new : Option Backend) (hat : ∀ place, ∀ c ∈ p₁.backendsAt place,
      c ∈ p.backendsAt place ∧ (∀ b ∈ new, c.id ≠ b.id) ∨ place = x ∧ c ∈ new)
    (hnew : ∀ b ∈ new, b.id < p₁.dialled ∧ b.credDigest = cfg.credDigest b.keys)
    (hdialled : p.dialled ≤ p₁.dialled) (honce : (p₁.idle.map Backend.id).Nodup)
    (hsuits : ∀ j, Suits cfg (p₁.threads j)) : Owned cfg p₁ := by
  refine ⟨?_, honce, ?_, hsuits⟩
  · rintro place other _ ⟨b, hb, rfl⟩ ⟨c, hc, hid⟩
    rcases hat place b hb with ⟨hold, hne⟩ | ⟨hplace, hbnew⟩
    · rcases hat other c hc with ⟨hold', -⟩ | ⟨-, hcnew⟩
      · exact h.separate ⟨b, hold, rfl⟩ ⟨c, hold', hid⟩
      · exact absurd hid.symm (hne c hcnew)
    · rcases hat other c hc with ⟨-, hne⟩ | ⟨hother, -⟩
      · exact absurd hid (hne b hbnew)
      · exact hplace.trans hother.symm
  · intro place b hb
    rcases hat place b hb with ⟨hold, -⟩ | ⟨-, hbnew⟩
    · obtain ⟨hid, hdigest⟩ := h.sound place b hold
      exact ⟨hid.trans_le hdialled, hdigest⟩
    · exact hnew b hbnew

lemma suits_goto (hthreads : p₁.threads = p.threads)
    (hs : Suits cfg ((p.threads i).goto s)) (j : Nat) : Suits cfg ((p₁.goto i s).threads j) := by
  simp only [Pool.goto, hthreads]
  exact (Function.forall_update_iff p.threads fun _ t => Suits cfg t).mpr
    ⟨hs, fun j _ => h.suits j⟩ j

/-- A thread goes on with the backend it has, if any; idle backends may go. -/
lemma goto (howns : ∀ b, s.owns = some b → (p.threads i).stage.owns = some b)
    (hhanded : ∀ b, s.handed = some b → (p.threads i).stage.handed = some b ∨
      b.credDigest = cfg.credDigest (p.threads i).keys) (hidle : p₁.idle.Sublist p.idle := by rfl)
    (hthreads : p₁.threads = p.threads := by rfl) (hdialled : p₁.dialled = p.dialled := by rfl) :
    Owned cfg (p₁.goto i s) := by
  refine h.gain none none ?_ (by simp) hdialled.ge (h.once.sublist (hidle.map _))
    (h.suits_goto hthreads ⟨fun b hb => (h.suits i).keyed b (howns b hb), fun b hb => ?_⟩)
  · refine fun place c hc => .inl ⟨?_, by simp⟩
    rcases goto_at hc with ⟨rfl, hself⟩ | ⟨-, hold⟩
    · exact howns c hself
    · cases place with
      | none => exact hidle.subset hold
      | some j => simpa [Pool.backendsAt, hthreads] using hold
  · exact (hhanded b hb).elim ((h.suits i).matched b) id

lemma turn (hb : SameBooks p p₁) (howns : ∀ b, s.owns = some b → (p.threads i).stage.owns = some b)
    (hhanded : ∀ b, s.handed = some b → (p.threads i).stage.handed = some b) : Owned cfg (p₁.goto i s) :=
  h.goto howns (fun b hs => .inl (hhanded b hs)) (by rw [hb.idle]) hb.threads hb.dialled

/-- A new thread that has nothing; idle backends may go. -/
lemma spawn {t : Thread} (howns : t.stage.owns = none) (hhanded : t.stage.handed = none)
    (hidle : p₁.idle.Sublist p.idle := by rfl) (hthreads : p₁.threads = p.threads := by rfl)
    (hdialled : p₁.dialled = p.dialled := by rfl) : Owned cfg (p₁.spawn t) := by
  refine h.gain none none ?_ (by simp) hdialled.ge (h.once.sublist (hidle.map _)) ?_
  · refine fun place c hc => .inl ⟨?_, by simp⟩
    cases place with
    | none => exact hidle.subset hc
    | some j =>
      by_cases hj : j = p₁.started
      · subst hj
        simp [Pool.backendsAt, Pool.spawn, howns] at hc
      · simpa [Pool.backendsAt, Pool.spawn, Function.update_of_ne hj, hthreads] using hc
  · simp only [Pool.spawn, hthreads]
    exact (Function.forall_update_iff p.threads fun _ t => Suits cfg t).mpr
      ⟨⟨by simp [howns], by simp [hhanded]⟩, fun j _ => h.suits j⟩

/-- A thread has dialled a backend. -/
lemma dial (now : Nat) : Owned cfg ({ p with dialled := p.dialled + 1 }.goto i (.holding
      ⟨p.dialled, (p.threads i).key, (p.threads i).keys, cfg.credDigest (p.threads i).keys, now⟩)) := by
  refine h.gain (some i) (some ⟨p.dialled, (p.threads i).key, (p.threads i).keys,
    cfg.credDigest (p.threads i).keys, now⟩) ?_ ?_ (Nat.le_succ _) h.once
    (h.suits_goto rfl ⟨by rintro b ⟨⟩; rfl, by rintro b ⟨⟩; rfl⟩)
  · intro place c hc
    rcases goto_at hc with ⟨hplace, hself⟩ | ⟨-, hold⟩
    · exact .inr ⟨hplace, hself⟩
    · refine .inl ⟨hold, ?_⟩
      rintro b ⟨⟩
      exact (h.sound place c hold).1.ne
  · rintro b ⟨⟩
    exact ⟨Nat.lt_succ_self _, rfl⟩

/-- A thread gave its backend back to the idle list. -/
lemma keepIdle {b : Backend} (now : Nat) (hi : (p.threads i).stage = .holding b) :
    Owned cfg (({ p with idle := p.idle ++ [{ b with lastUsed := now }] }.wakeFor b.key).goto i .done) := by
  have hbooks := wakeFor_books { p with idle := p.idle ++ [{ b with lastUsed := now }] } b.key
  have hhad : b ∈ p.backendsAt (some i) := by simp [Pool.backendsAt, hi]
  refine h.gain none (some { b with lastUsed := now }) ?_ ?_ hbooks.dialled.ge ?_
    (h.suits_goto hbooks.threads ⟨by simp, by simp⟩)
  · intro place c hc
    rcases goto_at hc with ⟨-, hself⟩ | ⟨hplace, hc⟩
    · simp at hself
    · have hother : c ∈ p.backendsAt place →
          ∀ d ∈ some { b with lastUsed := now }, c.id ≠ d.id := by
        rintro hold d ⟨⟩
        exact h.elsewhere (b := b) hhad hold hplace
      cases place with
      | none =>
        simp only [Pool.backendsAt, hbooks.idle, Set.mem_ofPred_eq, List.mem_append, List.mem_singleton] at hc
        rcases hc with hold | hnew
        · exact .inl ⟨hold, hother hold⟩
        · exact .inr ⟨rfl, congrArg some hnew.symm⟩
      | some j =>
        have hold : c ∈ p.backendsAt (some j) := by simpa [Pool.backendsAt, hbooks.threads] using hc
        exact .inl ⟨hold, hother hold⟩
  · rintro d ⟨⟩
    simp only [Pool.goto, hbooks.dialled]
    exact h.sound _ b hhad
  · simp only [Pool.goto, hbooks.idle, List.map_append, List.map_cons, List.map_nil]
    refine List.nodup_append.mpr ⟨h.once, by simp, ?_⟩
    intro x hx y hy
    obtain ⟨c, hc, rfl⟩ := List.mem_map.mp hx
    obtain rfl := List.mem_singleton.mp hy
    exact h.elsewhere hhad (y := none) hc (by simp)

lemma pop {b : Backend} (hb : b ∈ p.idle) (hkey : b.key = (p.threads i).key)
    (origin : Origin) : Owned cfg ((p.dropIdle b).goto i (.check origin b)) := by
  refine h.gain (some i) (some b) ?_ ?_ le_rfl (h.once.sublist (List.erase_sublist.map _))
    (h.suits_goto rfl ⟨by rintro c ⟨⟩; exact hkey, by simp⟩)
  · intro place c hc
    rcases goto_at hc with ⟨hplace, hself⟩ | ⟨-, hc⟩
    · exact .inr ⟨hplace, hself⟩
    · refine .inl ?_
      cases place with
      | none => exact ⟨List.mem_of_mem_erase hc, by rintro d ⟨⟩; exact h.dropped hb hc⟩
      | some j =>
        exact ⟨hc, by rintro d ⟨⟩; exact h.elsewhere (x := none) (y := some j) hb hc (by simp)⟩
  · rintro d ⟨⟩
    exact h.sound none b hb

end

lemma freeing_owns (bs : List Backend) (next : Stage) : (Pool.freeing bs next).owns = next.owns := by
  induction bs with
  | nil => rfl
  | cons b bs ih => exact ih

lemma freeing_handed (bs : List Backend) (next : Stage) : (Pool.freeing bs next).handed = next.handed := by
  induction bs with
  | nil => rfl
  | cons b bs ih => exact ih

lemma moves (h : Owned cfg p) {e : Event} (hm : Moves cfg p e p₁) : Owned cfg p₁ := by
  cases hm with
  | same => exact h
  | turn hi ht =>
    have hb := ht.books
    cases ht with
    | hand hdigest | reuse hdigest =>
      exact h.goto (by simp [hi]) (by simpa using .inr hdigest)
    | leave outcome | leaveTotal outcome =>
      cases outcome <;> exact h.turn hb (by simp [hi]) (by simp [hi])
    | _ => exact h.turn hb (by simp) (by simp)
  | pop hi hlast =>
    obtain ⟨hmem, hkey⟩ := lastIdle_mem hlast
    exact h.pop hmem hkey _
  | evictRole hi hb | evictAny hi hb => exact h.goto (by simp) (by simp) List.erase_sublist
  | takeSlot hi hst => rcases hst with ⟨rfl, rfl⟩ | ⟨rfl, rfl⟩ <;> exact h.goto (by simp) (by simp)
  | takeTotal hi hst =>
    rcases hst with ⟨-, ⟨woken, rfl⟩, rfl⟩ | ⟨rfl, rfl⟩ <;> exact h.goto (by simp) (by simp)
  | dropSem => exact h.goto (by simp) (by simp)
  | freeTotal hi | freeSem hi =>
    exact h.goto (by simp [hi]) (by simpa [hi] using fun _ => .inl)
  | dialled now => exact h.dial now
  | release now hi => exact h.keepIdle now hi
  | @abandon i b hi =>
    have hgo : Owned cfg (p.goto i (.abandoned b)) := h.turn {} (by simp [hi]) (by simp [hi])
    exact hgo.spawn rfl rfl
  | acquire => refine h.spawn ?_ ?_ <;> (cases p.closed <;> simp)
  | reap dead =>
    exact h.spawn (by simp [freeing_owns]) (by simp [freeing_handed]) List.filter_sublist
  | close => exact h.spawn (by simp [freeing_owns]) (by simp [freeing_handed]) (List.nil_sublist _)

lemma step (h : Owned cfg p) (e : Event) : Owned cfg (p.step cfg e) := h.moves (step_moves cfg p e)

end Owned

lemma withDefaults_bounds (cfg : PoolConfig) : 0 < cfg.withDefaults.maxPerSuperuser ∧
    cfg.withDefaults.maxPerSuperuser ≤ cfg.withDefaults.maxPerRole ∧
    cfg.withDefaults.maxPerRole ≤ cfg.withDefaults.maxBackends := by
  unfold PoolConfig.withDefaults defaultMaxPerSuperuser
  grind

lemma limit_bounds (cfg : PoolConfig) (role : String) :
    0 < cfg.withDefaults.limit role ∧ cfg.withDefaults.limit role ≤ cfg.withDefaults.maxPerRole := by
  obtain ⟨hpos, hsuper, -⟩ := withDefaults_bounds cfg
  unfold PoolConfig.limit
  split <;> constructor <;> omega

lemma credDigest_injective {cfg : PoolConfig} (hsha : Function.Injective cfg.sha256) :
    Function.Injective cfg.credDigest := by
  intro k l hkl
  have htext := hsha hkl
  rw [List.append_assoc, List.append_assoc] at htext
  obtain ⟨hclient, hrest⟩ := List.append_inj htext (k.size.trans l.size.symm)
  have hserver : k.serverKey = l.serverKey := by simpa using hrest
  cases k
  cases l
  simp_all

lemma accounts_init (cfg : PoolConfig) : Accounts cfg.withDefaults {} where
  rest _ _ := rfl
  books k := by cases k <;> rfl
  max k := by
    have hbounds := withDefaults_bounds cfg
    cases k with
    | none => exact (by omega : (0 : Int) ≤ cfg.withDefaults.maxBackends)
    | some role => exact (limit_bounds cfg role).1.le

lemma owned_init (cfg : PoolConfig) : Owned cfg {} where
  separate := by
    rintro place other _ ⟨b, hb, -⟩
    cases place <;> simp [Pool.backendsAt] at hb
  once := List.nodup_nil
  sound place b hb := by cases place <;> simp [Pool.backendsAt] at hb
  suits i := ⟨nofun, nofun⟩

lemma poolAfter_invariants (cfg : PoolConfig) (es : List Event) :
    Accounts cfg.withDefaults (poolAfter cfg es) ∧ Owned cfg.withDefaults (poolAfter cfg es) := by
  refine List.foldlRecOn (motive := fun p => Accounts _ p ∧ Owned _ p) es _ ⟨accounts_init cfg, owned_init _⟩ ?_
  exact fun _ h e _ => ⟨h.1.step e, h.2.step e⟩

namespace Accounts

variable {cfg : PoolConfig} {p : Pool} {i : Nat}

lemma tokens_le (h : Accounts cfg p) (i : Nat) (k : Budget) : (p.threads i).tokens k ≤ p.tokens k := by
  by_cases hi : i < p.started
  · have := single_le_sum (f := fun j => (p.threads j).tokens k) (fun _ _ => Nat.zero_le _) (mem_range.mpr hi)
    have := h.books k
    omega
  · cases k <;> simp [Thread.tokens, Stage.tokens, h.rest i (by omega)]

/-- A thread about to take a token back finds one. -/
lemma free (h : Accounts cfg p) {role : String} {next : Stage}
    (hi : (p.threads i).stage = .freeTotal role next) : 0 < p.total := by
  have := h.tokens_le i none
  simp only [Thread.tokens, Stage.tokens, hi, Stage.backends, Pool.tokens] at this
  omega

lemma freeSlot (h : Accounts cfg p) {role : String} (hi : 0 < (p.threads i).slots role) : 0 < p.sem role :=
  lt_of_lt_of_le hi (h.tokens_le i (some role))

end Accounts

/-- What holds of the pool at any moment of any run. -/
structure WithinBudget (cfg : PoolConfig) (p : Pool) : Prop where
  /-- The shard's tokens are those of the idle backends and of the threads that have, dial or close one. -/
  total : p.total = p.idle.length + ∑ i ∈ range p.started, (p.threads i).stage.backends
  sem : ∀ role, p.sem role = p.idleOf role + ∑ i ∈ range p.started, (p.threads i).slots role
  totalMax : (p.total : Int) ≤ cfg.maxBackends
  semMax : ∀ role, (p.sem role : Int) ≤ cfg.maxPerRole
  /-- A token is there whenever one is taken back. -/
  free : ∀ i role next, (p.threads i).stage = .freeTotal role next → 0 < p.total ∧ 0 < p.sem role
  freeSem : ∀ i role next, (p.threads i).stage = .freeSem role next → 0 < p.sem role
  dropSem : ∀ i, (p.threads i).stage = .dropSem → 0 < p.sem (p.threads i).key.role
  /-- No backend is held twice, or held and idle. -/
  alone : ∀ i j b c, (p.threads i).stage = .holding b → (p.threads j).stage = .holding c → b.id = c.id → i = j
  away : ∀ i b, (p.threads i).stage = .holding b → ∀ c ∈ p.idle, c.id ≠ b.id
  /-- A holder has a backend of its own database, role and credential. -/
  own : ∀ i b, (p.threads i).stage = .holding b → b.key = (p.threads i).key ∧
    cfg.credDigest b.keys = cfg.credDigest (p.threads i).keys
  ownKeys : Function.Injective cfg.sha256 → ∀ i b, (p.threads i).stage = .holding b → b.keys = (p.threads i).keys

theorem pool_within_budget (cfg : PoolConfig) (es : List Event) : WithinBudget cfg.withDefaults (poolAfter cfg es) := by
  obtain ⟨ha, ho⟩ := poolAfter_invariants cfg es
  have hown : ∀ i b, ((poolAfter cfg es).threads i).stage = .holding b → b.key = ((poolAfter cfg es).threads i).key ∧
        cfg.withDefaults.credDigest b.keys =
          cfg.withDefaults.credDigest ((poolAfter cfg es).threads i).keys := by
    intro i b hi
    have hmem : b ∈ (poolAfter cfg es).backendsAt (some i) := by simp [Pool.backendsAt, hi]
    refine ⟨(ho.suits i).keyed b hmem, ?_⟩
    rw [← (ho.sound (some i) b hmem).2]
    exact (ho.suits i).matched b (by simp [hi])
  have hid : ∀ i b, ((poolAfter cfg es).threads i).stage = .holding b → b.id ∈ (poolAfter cfg es).idsAt (some i) :=
    fun i b hi => ⟨b, by simp [Pool.backendsAt, hi], rfl⟩
  refine ⟨?_, (ha.books <| some ·), ha.max none, ?_, ?_, ?_, ?_, ?_, ?_, hown, ?_⟩
  · exact (ha.books none).trans (by simp [Pool.idleTokens, Backend.tokens, Thread.tokens, Stage.tokens])
  · intro role
    exact (ha.max (some role)).trans (limit_bounds cfg role).2
  · intro i role next hi
    refine ⟨ha.free hi, ha.freeSlot (i := i) ?_⟩
    simp only [Thread.slots, hi, Stage.slots, ofRole, if_true]
    omega
  · intro i role next hi
    refine ha.freeSlot (i := i) ?_
    simp only [Thread.slots, hi, Stage.slots, ofRole, if_true]
    omega
  · intro i hi
    refine ha.freeSlot (i := i) ?_
    simp [Thread.slots, hi, ofRole]
  · intro i j b c hi hj hbc
    exact Option.some.inj (ho.separate (hid i b hi) (hbc ▸ hid j c hj))
  · intro i b hi c hc hbc
    have hidle : b.id ∈ (poolAfter cfg es).idsAt none := ⟨c, hc, hbc⟩
    exact Option.some_ne_none i (ho.separate (hid i b hi) hidle)
  · intro hsha i b hi
    exact credDigest_injective hsha (hown i b hi).2

end PgShard.Pooler
