import PgShard.Migration.Owner

/-!
# A statement that may have committed

An attempt is told whether an earlier one may have reached the server and committed, so that it looks for the
object first. Within a pass that is a variable; from one pass to the next it is the state of the shard's entry
and its `ran`, which an attempt that takes over a running entry and fails without running writes anew.
-/

namespace PgShard.Migration

open Interleave

variable {Q : Type}

/-- A statement is sent by the pass that leads only. Where it has taken effect and the entry does not say so,
the next attempt is recorded, and does not fail in a way that rules out that it ran. -/
def takesOver (x : Luck) (i : Nat) : Call Q → World Q → Prop
  | .step m key _, w => w.owner = some i ∧
    ((w.shards key).ran = true → (m.perShard key).ran = false → x.err.all fun e => mayHaveRun m (some e))
  | .save _ m, w => ∀ key ∈ m.keys, (w.shards key).ran = true → (m.perShard key).state = .running →
    (m.perShard key).ran = false → x.save = .fine
  | _, _ => True

def takeoverBounds : Bounds (World Q) (Call Q) Luck Event := ⟨takesOver, fun e _ => e.led⟩

instance (x : Luck) (i : Nat) (c : Call Q) (w : World Q) : Decidable (takesOver x i c w) := by
  rcases c
  case step m key _ => exact inferInstanceAs (Decidable (_ ∧ (_ → _ → _)))
  case save _ m => exact inferInstanceAs (Decidable (∀ key ∈ m.keys, _))
  all_goals exact .isTrue trivial

instance (x : Luck) (i : Nat) (c : Call Q) (w : World Q) : Decidable (takeoverBounds.call x i c w) :=
  inferInstanceAs (Decidable (takesOver x i c w))

instance (e : Event) (w : World Q) : Decidable (takeoverBounds.world e w) := inferInstanceAs (Decidable (e.led = true))

/-- Where the statement has taken effect the row says that it may have, or that the shard is finished. -/
def DDLMigration.Covers (m : DDLMigration Q) (w : World Q) : Prop :=
  ∀ key, (w.shards key).ran = true → m.state ≠ .queued ∧ key ∈ m.keys ∧
    ((m.perShard key).resumed = true ∨ (m.perShard key).state.final = true)

def DDLMigration.single (m : DDLMigration Q) : Prop := m.strategy ≠ .multistep ∧ m.strategy ≠ .rewrite

/-- The invariant of a run. -/
structure Informed (w : World Q) : Prop where
  term : 0 < w.term
  single : w.row.single
  covers : w.row.Covers w
  told : ∀ a ∈ w.attempts, a.2.2 = true → a.2.1 = true

def attemptsLogic : Logic (host Q) takeoverBounds where
  inv := Informed
  rely := Leads ShardData.ran
  rely_refl := Leads.refl
  rely_trans := Leads.trans

/-- What a pass knows of the row it holds. -/
structure Knows (i : Nat) (p : Pass) (m : DDLMigration Q) (w : World Q) : Prop where
  led : Led i p w
  single : m.single
  covers : w.owner = some i → m.Covers w

section

variable {i : Nat} {p : Pass} {m : DDLMigration Q} {s t u w : World Q}

lemma DDLMigration.Covers.later (h : Leads ShardData.ran i s t) (howner : t.owner = some i) (hm : m.Covers s) :
    m.Covers t :=
  fun key hran => hm key (((h.kept howner).2.2.2 key).symm.trans hran)

lemma Knows.later (h : Leads ShardData.ran i s t) (hm : Knows i p m s) : Knows i p m t :=
  ⟨hm.led.later h, hm.single, fun howner => .later h howner (hm.covers (h.kept howner).1)⟩

/-- A write of the pass: it is taken only while the pass leads. -/
lemma write_informed {x : SaveLuck} {starts : Bool} {r : Except SaveError Unit}
    (h : t.write x p.term starts (t.saved m) = (r, u)) (hinv : Informed t) (hm : Knows i p m t) :
    Informed u ∧ (∀ j, j ≠ i → Leads ShardData.ran j t u) ∧ Knows i p m u := by
  rcases World.write_cases h with ⟨rfl, -⟩ | ⟨haccepts, rfl, -⟩
  · exact ⟨hinv, fun j _ => .refl j u, hm⟩
  · have howner := hm.led.accepts_iff.mp haccepts
    refine ⟨⟨hinv.term, hinv.single, hm.covers howner, hinv.told⟩, fun j hne => ?_, ?_⟩
    · exact .of_owner howner hne
    · exact ⟨{ hm.led with }, hm.single, hm.covers⟩

lemma attempts_save (hm : Knows i p m w) {P : Except SaveError Unit → World Q → Prop}
    (h : ∀ x t r u, Leads ShardData.ran i w t → Informed t → takesOver x i (.save p.term m) t → Knows i p m u →
      t.write x.save p.term (m.state = .running) (t.saved m) = (r, u) → P r u) :
    attemptsLogic.Safe i P (ask (.save p.term m)) w := by
  intro t ht hinv x r u hx hexec
  have hwrite := Option.some.inj hexec
  obtain ⟨hinformed, hothers, hknows⟩ := write_informed hwrite hinv (hm.later ht)
  exact ⟨hinformed, hothers, h x t r u ht hinv hx hknows hwrite⟩

lemma attempts_mirror (hm : Knows i p m w) :
    attemptsLogic.Safe i (fun _ _ => True) (ask (.mirrorAndSave p.term m)) w := by
  intro t ht hinv x r u hx hexec
  obtain ⟨hinformed, hothers, -⟩ := write_informed (Option.some.inj hexec) hinv (hm.later ht)
  exact ⟨hinformed, hothers, trivial⟩

end

section

variable {i : Nat} {p : Pass} {key : Key} {m₀ m : DDLMigration Q} {s : ShardMigration} {w u : World Q}

/-- The flag is set if the statement has taken effect on the shard, as far as the pass that leads knows. -/
def Admits (i : Nat) (key : Key) (flag : Bool) (w : World Q) : Prop :=
  w.owner = some i → (w.shards key).ran = true → flag = true

variable {flag : Bool} {x : Luck} {r : Except SaveError Unit}

lemma Admits.later (h : Admits i key flag w) (hu : Leads ShardData.ran i w u) : Admits i key flag u :=
  fun howner hran => h (hu.kept howner).1 (((hu.kept howner).2.2.2 key).symm.trans hran)

/-- What the loop has in hand, where `told` is what the attempts are told: the entries of the other shards
are as they were, and a statement that has taken effect on the shard is known to the attempts. -/
structure Told (i : Nat) (p : Pass) (key : Key) (m₀ m : DDLMigration Q) (told : Bool) (w : World Q) : Prop where
  led : Led i p w
  single : m₀.single
  only : m₀.Only key m
  others : w.owner = some i → ∀ key', key' ≠ key → (w.shards key').ran = true → key' ∈ m₀.keys ∧
    ((m₀.perShard key').resumed = true ∨ (m₀.perShard key').state.final = true)
  running : m₀.state = .running
  target : key ∈ m₀.keys
  told : Admits i key told w

variable {told : Bool}

lemma Told.later (h : Told i p key m₀ m told w) (hu : Leads ShardData.ran i w u) : Told i p key m₀ m told u :=
  ⟨h.led.later hu, h.single, h.only, fun howner key' hne hran =>
    h.others (hu.kept howner).1 key' hne (((hu.kept howner).2.2.2 key').symm.trans hran),
    h.running, h.target, h.told.later hu⟩

lemma Told.setEntry (h : Told i p key m₀ m told w) (s : ShardMigration) : Told i p key m₀ (m.setEntry key s) told w :=
  { h with only := h.only.setEntry s }

/-- The row may be written with an entry that says what is known of the shard. -/
lemma Told.knows (h : Told i p key m₀ m told w) {s : ShardMigration}
    (hs : Admits i key (s.resumed || s.state.final) w) : Knows i p (m.setEntry key s) w := by
  refine ⟨h.led, ?_, fun howner key' hran => ?_⟩
  · rw [DDLMigration.single, DDLMigration.strategy_setEntry, h.only.strategy]
    exact h.single
  · rw [DDLMigration.state_setEntry, h.only.state, DDLMigration.keys_setEntry, h.only.keys, h.running]
    refine ⟨by decide, ?_⟩
    by_cases hk : key' = key
    · subst hk
      rw [DDLMigration.entry_setEntry]
      exact ⟨h.target, Bool.or_eq_true_iff.mp (hs howner hran)⟩
    · rw [DDLMigration.entry_setEntry_ne hk, h.only.entries key' hk]
      exact h.others howner key' hk hran

/-- The attempt is recorded: the row says that the shard is running. -/
structure Recorded (i : Nat) (p : Pass) (key : Key) (m₀ m : DDLMigration Q) (s : ShardMigration) (told : Bool)
    (w : World Q) : Prop extends Told i p key m₀ m told w where
  entry : m.perShard key = s
  state : s.state = .running
  row : w.owner = some i → w.row.state ≠ .queued ∧ key ∈ w.row.keys ∧ (w.row.perShard key).resumed = true

lemma Recorded.later (h : Recorded i p key m₀ m s told w) (hu : Leads ShardData.ran i w u) :
    Recorded i p key m₀ m s told u :=
  ⟨h.toTold.later hu, h.entry, h.state, fun howner => by
    rw [(hu.kept howner).2.2.1]
    exact h.row (hu.kept howner).1⟩

lemma Admits.write {t : World Q} {x : SaveLuck} {term : Nat} {starts : Bool}
    {row : DDLMigration Q} (h : Admits i key flag t) (hwrite : t.write x term starts row = (r, u)) :
    Admits i key flag u := by
  rcases World.write_cases hwrite with ⟨rfl, -⟩ | ⟨-, rfl, -⟩ <;> exact h

lemma write_fine {t : World Q} {term : Nat} {starts : Bool} {row : DDLMigration Q}
    (h : t.write .fine term starts row = (r, u)) : r = .ok () ∨ r = .error .notLeaderTerm := by
  simp only [World.write] at h
  split at h
  · exact .inl (congrArg Prod.fst h).symm
  · exact .inr (congrArg Prod.fst h).symm

/-- What a save of the entry leaves. -/
lemma Told.saved {t : World Q} {s : ShardMigration} (h : Told i p key m₀ m told t)
    (hwrite : t.write x.save p.term ((m.setEntry key s).state = .running) (t.saved (m.setEntry key s)) = (r, u)) :
    Told i p key m₀ (m.setEntry key s) told u ∧ (r = .error .notLeaderTerm → u.owner ≠ some i) ∧
      (r = .ok () → u.row = t.saved (m.setEntry key s)) := by
  have hnext := h.setEntry s
  rcases World.write_cases hwrite with ⟨rfl, hne, hrefused⟩ | ⟨haccepts, rfl, hne⟩
  · refine ⟨hnext, fun hr howner => ?_, fun hr => absurd hr hne⟩
    have haccepts := h.led.accepts_iff.mpr howner
    rw [hrefused hr] at haccepts
    cases haccepts
  · exact ⟨⟨{ h.led with }, h.single, hnext.only, h.others, h.running, h.target,
      h.told⟩, fun hr => absurd hr hne, fun _ => rfl⟩

lemma resumed_begun (s : ShardMigration) : s.begun.resumed = true := rfl

/-- A save that fails leaves an entry that says what has taken effect. -/
lemma Told.unsaved {t : World Q} (h : Told i p key m₀ m told t)
    (hx : takesOver x i (.save p.term (m.setEntry key s.begun)) t)
    (hwrite : t.write x.save p.term ((m.setEntry key s.begun).state = .running) (t.saved (m.setEntry key s.begun)) = (r, u))
    (hok : r ≠ .ok ()) (hterm : r ≠ .error .notLeaderTerm) : Admits i key s.ran u := by
  intro howner hran
  rw [World.write_shards hwrite] at hran
  cases hflag : s.ran with
  | true => rfl
  | false =>
    have hkey : key ∈ (m.setEntry key s.begun).keys := by
      rw [DDLMigration.keys_setEntry, h.only.keys]
      exact h.target
    have hfine := hx key hkey hran (by rw [DDLMigration.entry_setEntry]; rfl)
      (by rw [DDLMigration.entry_setEntry]; exact hflag)
    rw [hfine] at hwrite
    rcases write_fine hwrite with hr | hr
    · exact absurd hr hok
    · exact absurd hr hterm

lemma Told.recorded {x : Luck} {t : World Q} (h : Told i p key m₀ m told t)
    (hwrite : t.write x.save p.term ((m.setEntry key s.begun).state = .running)
      (t.saved (m.setEntry key s.begun)) = (.ok (), u)) :
    Recorded i p key m₀ (m.setEntry key s.begun) s.begun told u := by
  obtain ⟨hnext, -, htaken⟩ := h.saved hwrite
  refine ⟨hnext, DDLMigration.entry_setEntry, rfl, fun _ => ?_⟩
  rw [htaken rfl]
  refine ⟨?_, ?_, ?_⟩
  · change m.state ≠ .queued
    rw [h.only.state, h.running]
    decide
  · exact h.only.keys ▸ h.target
  · change ((m.setEntry key s.begun).perShard key).resumed = true
    rw [DDLMigration.entry_setEntry]
    exact resumed_begun s

/-- What the loop ends with. -/
def Left (i : Nat) (p : Pass) (key : Key) (m₀ m : DDLMigration Q) (s : ShardMigration) (w : World Q) : Prop :=
  m₀.Only key m ∧ Knows i p (m.setEntry key s) w

section

variable (h : Told i p key m₀ m told w)

include h

lemma Told.left (hs : Admits i key (s.resumed || s.state.final) w) : Left i p key m₀ m s w := ⟨h.only, h.knows hs⟩

/-- A pass that does not lead any more knows nothing. -/
lemma Told.left_of_lost (hlost : w.owner ≠ some i) : Left i p key m₀ m s w := h.left fun howner => absurd howner hlost

lemma Told.left_of_running (hs : s.state = .running) : Left i p key m₀ m s w :=
  h.left fun _ _ => by simp [ShardMigration.resumed, hs]

lemma Told.left_of_final (hs : s.state.final = true) : Left i p key m₀ m s w :=
  h.left fun _ _ => by rw [hs, Bool.or_true]

end

/-- The statement, as it is sent to the shard. -/
def sent (key : Key) (told : Bool) (m : DDLMigration Q) : Prog Q (Except Err ShardState × Bool) := do
  let out ← ask (.step m key told)
  return (out, told || mayHaveRun m (failure out))

/-- What comes of it. -/
structure Sent (x : Luck) (key : Key) (told : Bool) (m : DDLMigration Q) (t : World Q) (r : Except Err ShardState)
    (u : World Q) : Prop where
  reply : r = answer .applied x.err
  row : u.row = t.row
  term : u.term = t.term
  cancelled : u.cancelled = t.cancelled
  owner : u.owner = t.owner
  attempts : u.attempts = t.attempts ++ [(key, told, (t.shards key).ran)]
  ran : (u.shards key).ran = ((t.shards key).ran || (x.err.isNone || x.commits && mayHaveRun m x.err))
  others : ∀ key', key' ≠ key → u.shards key' = t.shards key'

lemma exec_step {t : World Q} {r : Except Err ShardState}
    (h : exec x i (.step m key told) t = some (r, u)) : Sent x key told m t r u := by
  cases h
  refine ⟨rfl, rfl, rfl, rfl, rfl, rfl, ?_, fun key' hne => Function.update_of_ne hne ..⟩
  rw [World.shards_onShard]
  rfl

lemma Sent.next {x : Luck} {t : World Q} {r : Except Err ShardState} (hsent : Sent x key told m t r u)
    (howner : t.owner = some i) (h : Told i p key m₀ m told t) (told' : Bool) (htold' : Admits i key told' u) :
    Told i p key m₀ m told' u := by
  refine ⟨⟨h.led.guarded, fun ho => ?_, ?_⟩, h.single, h.only, fun _ key' hne hran => ?_, h.running, h.target, htold'⟩
  · rw [hsent.term]
    exact h.led.current (hsent.owner ▸ ho)
  · rw [hsent.owner, hsent.term]
    exact h.led.passed
  · rw [hsent.others key' hne] at hran
    exact h.others howner key' hne hran

lemma Sent.informed {t : World Q} {r : Except Err ShardState} (hsent : Sent x key told m t r u)
    (howner : t.owner = some i) (h : Recorded i p key m₀ m s told t) (hinv : Informed t) : Informed u := by
  refine ⟨hsent.term ▸ hinv.term, hsent.row ▸ hinv.single, fun key' hran => ?_, fun a ha => ?_⟩
  · rw [hsent.row]
    by_cases hk : key' = key
    · subst hk
      obtain ⟨hstate, hkey, hresumed⟩ := h.row howner
      exact ⟨hstate, hkey, .inl hresumed⟩
    · rw [hsent.others key' hk] at hran
      exact hinv.covers key' hran
  · rw [hsent.attempts] at ha
    rcases List.mem_append.mp ha with ha | ha
    · exact hinv.told a ha
    · cases List.mem_singleton.mp ha
      exact h.told howner

/-- An attempt that failed is known to have taken effect, if it or an earlier one has. -/
lemma Sent.admits {t : World Q} {r : Except Err ShardState} {e : Err}
    (hsent : Sent x key told m t r u) (herr : x.err = some e)
    (hbefore : (t.shards key).ran = true → (flag || mayHaveRun m (some e)) = true) :
    Admits i key (flag || mayHaveRun m (some e)) u := by
  intro _ hran
  rw [hsent.ran, herr, Option.isNone_some, Bool.false_or, Bool.or_eq_true, Bool.and_eq_true] at hran
  rcases hran with hran | ⟨-, hmay⟩
  · exact hbefore hran
  · rw [hmay, Bool.or_true]

lemma safe_sent (h : Recorded i p key m₀ m s told w) : attemptsLogic.Safe i (fun r u => match r with
      | (.ok outcome, _) => Left i p key m₀ m { s with state := outcome, error := "", sqlState := {} } u
      | (.error e, told) => Told i p key m₀ m told u ∧ s.state = .running ∧
          Admits i key (s.ran || mayHaveRun m (some e)) u) (sent key told m) w := by
  refine Logic.Safe.bind ?_
  intro t ht hinv x r u hx hexec
  obtain ⟨howner, hfails⟩ := hx
  have ht := h.later ht
  have hsent := exec_step (i := i) hexec
  refine ⟨hsent.informed howner ht hinv, fun j hne =>
    .of_owner howner hne hsent.term hsent.cancelled hsent.owner, ?_⟩
  cases herr : x.err with
  | none =>
    have hr : r = .ok .applied := hsent.reply.trans (by rw [herr]; rfl)
    subst hr
    exact (hsent.next howner ht.toTold true fun _ _ => rfl).left_of_final rfl
  | some e =>
    have hr : r = .error e := hsent.reply.trans (by rw [herr]; rfl)
    subst hr
    refine ⟨hsent.next howner ht.toTold _ (hsent.admits herr fun hran => ?_), ht.state,
      hsent.admits herr fun hran => ?_⟩
    · rw [ht.told howner hran, Bool.true_or]
    · cases hflag : s.ran with
      | true => rfl
      | false =>
        rw [herr] at hfails
        exact hfails hran (by rw [ht.entry]; exact hflag)

/-- The loop on one shard. -/
def attemptsSpec (m₀ : DDLMigration Q) : RetrySpec attemptsLogic i p key (sent (Q := Q) key) where
  before m _ told w := Told i p key m₀ m told w
  recorded m s told w := Recorded i p key m₀ m s told w
  failed m s told e w := Told i p key m₀ m told w ∧ s.state = .running ∧ Admits i key (s.ran || mayHaveRun m (some e)) w
  waiting m s told w := Told i p key m₀ m told w ∧ Admits i key s.resumed w
  after m s w := Left i p key m₀ m s w
  before_later hu h := h.later hu
  failed_later hu h := ⟨h.1.later hu, h.2.1, h.2.2.later hu⟩
  waiting_later hu h := ⟨h.1.later hu, h.2.later hu⟩
  record {m s told w} h := by
    refine attempts_save (h.knows fun _ _ => rfl) fun x t r u ht hinv hx hknows hwrite => ?_
    have ht := h.later ht
    obtain ⟨hnext, hrefused, -⟩ := ht.saved hwrite
    split
    · exact (hnext.setEntry s).left_of_lost (hrefused rfl)
    · rename_i e hne
      have hadmits := ht.unsaved hx hwrite nofun fun heq => hne (Except.error.inj heq)
      exact ⟨hnext, rfl, fun howner hran => by rw [show s.begun.ran = s.ran from rfl, hadmits howner hran, Bool.true_or]⟩
    · exact ht.recorded hwrite
  runs h := (safe_sent h).imp fun r u hr => by
    obtain ⟨result, told⟩ := r
    cases result <;> exact hr
  stopped h _ := h.1.left_of_running h.2.1
  ends h hstate := h.1.left_of_final (by rcases hstate with ⟨rfl, -⟩ | rfl <;> rfl)
  retry {m s told e w} h := by
    have hresumed : Admits i key (s.hit m e .retrying).resumed w := fun howner hran => h.2.2 howner hran
    refine attempts_save (h.1.knows fun howner hran => by rw [hresumed howner hran, Bool.true_or])
      fun x t r u ht hinv hx hknows hwrite => ?_
    obtain ⟨hnext, hrefused, -⟩ := (h.1.later ht).saved hwrite
    split
    · exact hnext.left_of_lost (hrefused rfl)
    · exact ⟨hnext, (hresumed.later ht).write hwrite⟩
  woken h _ := h.1.left fun howner hran => by rw [h.2 howner hran, Bool.true_or]
  lost h _ _ := h.1.left fun howner hran => by rw [h.2 howner hran, Bool.true_or]
  again h := h.1

lemma attempts_applyOn (hm : Knows i p m w) (hrunning : m.state = .running) (hkey : key ∈ m.keys)
    (hopen : (m.perShard key).state.final = false) :
    attemptsLogic.Safe i (fun ms u => m.Only key ms.1 ∧ Knows i p (ms.1.setEntry key ms.2) u)
      (applyOn p key m (m.perShard key)) w := by
  have htold : Told i p key m m (m.perShard key).resumed w := by
    refine ⟨hm.led, hm.single, .refl key m, fun howner key' _ hran => (hm.covers howner key' hran).2, hrunning, hkey,
      fun howner hran => ?_⟩
    rcases (hm.covers howner key hran).2.2 with hresumed | hfinal
    · exact hresumed
    · rw [hopen] at hfinal
      cases hfinal
  unfold applyOn
  rw [if_pos hm.single.1]
  exact (attemptsSpec m).safe_retrying htold

end

section

variable {m : DDLMigration Q} {w : World Q}

lemma covers_of_final (h : m.Covers w) {m' : DDLMigration Q} (hstate : m'.state ≠ .queued) (hkeys : m'.keys = m.keys)
    (hentries : ∀ key, m'.perShard key = m.perShard key ∨ (m'.perShard key).state.final = true) : m'.Covers w := by
  intro key hran
  obtain ⟨-, hkey, hcovered⟩ := h key hran
  refine ⟨hstate, hkeys ▸ hkey, ?_⟩
  rcases hentries key with hsame | hfinal
  · rw [hsame]
    exact hcovered
  · exact .inr hfinal

lemma tally_covers (h : m.Covers w) : (tally m).Covers w := by
  unfold tally
  split
  · exact covers_of_final h nofun rfl fun _ => .inl rfl
  · split
    · exact covers_of_final h nofun rfl fun _ => .inl rfl
    · split
      · exact covers_of_final h nofun rfl fun _ => .inl rfl
      · exact covers_of_final h nofun rfl fun _ => .inr rfl

lemma tally_strategy (m : DDLMigration Q) : (tally m).strategy = m.strategy := by
  unfold tally
  split
  · rfl
  · split
    · rfl
    · split <;> rfl

/-- A row none of whose shards was driven covers only shards on which nothing has happened. -/
lemma not_ran_of_untouched (h : m.Covers w) (huntouched : m.touched = false) (key : Key) :
    (w.shards key).ran ≠ true := by
  intro hran
  obtain ⟨-, hkey, hcovered⟩ := h key hran
  have hpending : (m.perShard key).state = .pending := by
    have hall := List.any_eq_false.mp huntouched key hkey
    simpa using hall
  rcases hcovered with hresumed | hfinal
  · simp [ShardMigration.resumed, hpending] at hresumed
  · rw [hpending] at hfinal
    cases hfinal

lemma Informed.of_same {u : World Q} (h : Informed w) (hterm : 0 < u.term) (hrow : u.row = w.row)
    (hattempts : u.attempts = w.attempts) (hran : ∀ key, (u.shards key).ran = (w.shards key).ran) : Informed u := by
  refine ⟨hterm, hrow ▸ h.single, fun key hran' => ?_, hattempts ▸ h.told⟩
  rw [hrow]
  exact h.covers key ((hran key).symm.trans hran')

lemma safe_swept {i : Nat} {key : Key} : attemptsLogic.Safe i (fun _ _ => True) (ask (.sweepShard key)) w := by
  intro t _ hinv x r u _ hexec
  rcases exec_sweepShard (i := i) hexec with rfl | rfl
  · exact ⟨hinv, fun j _ => .refl j u, trivial⟩
  · have hran : ∀ key', ((t.onShard key ShardData.swept).shards key').ran = (t.shards key').ran :=
      World.forall_onShard (P := fun key' d => d.ran = (t.shards key').ran) |>.mpr ⟨rfl, fun _ _ => rfl⟩
    exact ⟨hinv.of_same hinv.term rfl rfl hran, fun j _ => .of_same hran, trivial⟩

lemma safe_returned {i : Nat} : attemptsLogic.Safe i (fun _ _ => True) (ask .returned) w := by
  intro t _ hinv x r u _ hexec
  cases hexec
  refine ⟨?_, fun j hne => .returned hne, trivial⟩
  split
  · exact hinv.of_same hinv.term rfl rfl fun _ => rfl
  · exact hinv

def attemptsShards (i : Nat) (p : Pass) : ShardsSpec (attemptsLogic (Q := Q)) i p where
  good := Knows i p
  good_later h hm := hm.later h
  saves hm := attempts_save hm fun _ _ _ _ _ _ _ hknows _ => hknows
  direct hm := hm.single.2
  gaveUp key hm hrunning := by
    refine ⟨hm.led, hm.single, fun howner => covers_of_final (hm.covers howner) ?_ rfl fun key' => ?_⟩
    · rw [DDLMigration.state_setEntry, hrunning]
      decide
    · by_cases hk : key' = key
      · subst hk
        rw [DDLMigration.entry_setEntry]
        exact .inr rfl
      · exact .inl (DDLMigration.entry_setEntry_ne hk)
  applies hm hrunning hkey hopen :=
    (attempts_applyOn hm hrunning hkey hopen).imp fun _ _ h => ⟨h.1, .inl ⟨h.2, trivial⟩⟩
  tallied hm _ := by
    refine ⟨hm.led, ?_, fun howner => tally_covers (hm.covers howner)⟩
    rw [DDLMigration.single, tally_strategy]
    exact hm.single
  mirrors := attempts_mirror

def attemptsPass (i : Nat) (p : Pass) : PassSpec (attemptsLogic (Q := Q)) i p where
  toRowSpec := (attemptsShards i p).toRowSpec
  here := Led i p
  idle _ := True
  here_later h hw := hw.later h
  idle_later _ := id
  loaded hw hinv _ hfound := by
    obtain ⟨rfl, -⟩ := pendingRow_some hfound
    exact ⟨hw, hinv.single, fun _ => hinv.covers⟩
  unloaded _ _ _ := trivial
  failed _ hm := ⟨hm.led, hm.single, fun howner => covers_of_final (hm.covers howner) nofun rfl fun _ => .inl rfl⟩
  rehome _ hm := { hm with }
  replan _ huntouched hm := ⟨hm.led, hm.single, fun howner key hran =>
    absurd hran (not_ran_of_untouched (hm.covers howner) huntouched key)⟩
  driven := Knows i p
  begins {m w} serving keys hqueued hm := by
    have hfresh : Knows i p (m.fresh serving keys) w := ⟨hm.led, hm.single, fun howner key hran =>
      absurd hqueued (hm.covers howner key hran).1⟩
    exact attempts_save hfresh fun _ _ _ _ _ _ _ hknows _ _ => hknows
  resumes hm _ := hm
  sweeps _ _ := safe_swept
  returns _ := safe_returned
  drives hm hrunning := (attemptsShards i p).safe_driveBegun hm hrunning

lemma worldSafe_attempts : (attemptsLogic (Q := Q)).WorldSafe := by
  intro e n w hinv hled
  refine ⟨?_, fun j hj => .happen e n w hj, fun task htask => ?_⟩
  · have hspares : w.Spares (happen e n w).2 := happen_spares e n w
    exact hinv.of_same (Nat.lt_of_lt_of_le hinv.term hspares.term) hspares.row hspares.attempts
      fun key => congrArg (fun shards => (shards key).ran) hspares.shards
  · have hbegun : ∀ catalog, e ≠ .begin false catalog := fun catalog he => by
      rw [he] at hled
      cases hled
    obtain ⟨p, rfl, hp⟩ := Led.begun htask hbegun hinv.term
    exact (attemptsPass n p).safe_runOnce hp

/-- Every attempt that follows one that took effect is told so, provided only the pass that leads sends, and
an attempt that takes over a running entry is recorded and does not fail in a way that rules out that it
ran. -/
theorem attempts_told (w : World Q) (hterm : 0 < w.term)
    (hsingle : w.row.strategy ≠ .multistep ∧ w.row.strategy ≠ .rewrite)
    (hclean : ∀ key, (w.shards key).ran = false) (hnone : w.attempts = []) (moves : List (Move Luck Event))
    (hmoves : takeoverBounds.Along (host Q) ⟨w, []⟩ moves) :
    ∀ a ∈ (Tasks.run (host Q) ⟨w, []⟩ moves).store.attempts, a.2.2 = true → a.2.1 = true := by
  have hstart : attemptsLogic.Holds (⟨w, []⟩ : Tasks _ _ _) := by
    refine ⟨⟨hterm, hsingle, fun key hran => ?_, fun a ha => ?_⟩, fun i p hp => nomatch hp⟩
    · rw [hclean key] at hran
      cases hran
    · rw [hnone] at ha
      cases ha
  exact (hstart.run worldSafe_attempts hmoves).1.told

end

/-- A pass sends the statement to one shard, where it takes effect, and is stopped before it hears of it;
another controller takes the term and goes as far as the send. -/
def stoppedAfterSend : List (Move Luck Event) :=
  .world (.begin true false) :: undisturbed 0 3 ++ .act 0 { ids := [0] } :: undisturbed 0 5 ++
    [.stop 0, .world .takeLeaderTerm, .world (.begin true false)] ++ undisturbed 1 4 ++
    .act 1 { attemptsLeft := 1 } :: undisturbed 1 1

theorem attempts_told_resumed :
    let w : World Unit := { row := { kind := "CREATE TABLE", strategy := .direct } }
    let u := (Tasks.run (host Unit) ⟨w, []⟩ (stoppedAfterSend ++ undisturbed 1 1)).store
    u.attempts = [(.shard 0, false, false), (.shard 0, true, true)] ∧ ∀ a ∈ u.attempts, a.2.2 = true → a.2.1 = true :=
  ⟨by decide +kernel, attempts_told _ (by decide) (by decide) (fun _ => rfl) rfl
    (stoppedAfterSend ++ undisturbed 1 1) (by decide +kernel)⟩

def refusedDial : Err := { text := "connection refused", dial := true }

/-- The attempt that takes over cannot reach the shard, its controller stops too, and the next one sends the
statement a second time without being told. -/
theorem attempt_not_told :
    let w : World Unit := { row := { kind := "CREATE TABLE", strategy := .direct } }
    let moves := stoppedAfterSend ++ .act 1 { err := some refusedDial } :: undisturbed 1 2 ++
      [.stop 1, .world .takeLeaderTerm, .world (.begin true false)] ++ undisturbed 2 7
    (Tasks.run (host Unit) ⟨w, []⟩ moves).store.attempts =
      [(.shard 0, false, false), (.shard 0, true, true), (.shard 0, false, true)] := by
  decide +kernel

end PgShard.Migration
