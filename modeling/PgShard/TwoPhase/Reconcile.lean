import PgShard.TwoPhase.World

/-!
# Reconciliation of a restored participant with the decision log

`twopc.Reconcile`: the rows that name the shard as a participant are applied by
the decision table, and every other prepared transaction is presumed aborted.
-/

namespace PgShard.Reconcile

open TwoPhase (Gid)

/-- What the log records. `none` is the absence of a row; `other` is a state this
build does not recognise. -/
inductive State where
  | none | preparing | commit | abort
  | other (text : String)
  deriving DecidableEq, Repr

def State.known : State → Bool
  | other _ => false
  | _ => true

inductive Action where
  | nothing | commit | rollback | contradiction | unverifiable | unreadable
  deriving DecidableEq, Repr

inductive XactStatus where
  | committed | aborted | inProgress | unavailable
  deriving DecidableEq, Repr

/-- The decision table. -/
def decide (state : State) (prepared : Bool) (status : XactStatus) : Action :=
  if !state.known then .unreadable
  else if prepared ∧ state = .commit then .commit
  else if prepared then .rollback
  else if state = .commit ∧ status = .committed then .nothing
  else if state = .commit ∧ status = .unavailable then .unverifiable
  else if state = .commit then .contradiction
  else .nothing

structure Participation where
  shard : Int
  xid : String
  deriving DecidableEq, Repr

structure Decision where
  gid : Gid
  state : State
  participants : List Participation
  deriving DecidableEq, Repr

namespace Decision

def xid (d : Decision) (shard : Int) : String := ((d.participants.find? (·.shard = shard)).map (·.xid)).getD ""

def involves (d : Decision) (shard : Int) : Bool := d.participants.any (·.shard = shard)

end Decision

/-- What became of a transaction on the participant. -/
inductive Fate where
  | absent | prepared | committed | rolledBack
  deriving DecidableEq, Repr

/-- The participant's answers: its prepared transactions with their databases,
the errors of its COMMIT PREPARED and ROLLBACK PREPARED, and its transaction
statuses. -/
structure Participant where
  prepared : Except String (List (Gid × String))
  refuses : String → Gid → Bool → Option String
  xactStatus : String → Except String XactStatus

structure Outcome where
  committed : Nat := 0
  rolledBack : Nat := 0
  contradictions : List Gid := []
  unverifiable : List Gid := []
  unreadable : List Gid := []
  deriving DecidableEq, Repr

structure Progress where
  out : Outcome
  fate : Gid → Fate

def finish (p : Participant) (db : String) (gid : Gid) (commit : Bool) (fate : Gid → Fate) :
    Except String (Gid → Fate) :=
  match p.refuses db gid commit with
  | some e => .error e
  | none =>
    if fate gid = .prepared then
      .ok (Function.update fate gid (if commit then .committed else .rolledBack))
    else .error "does not exist"

def apply (p : Participant) (db : String) (gid : Gid) (a : Action) (st : Progress) : Except String Progress :=
  let out := st.out
  match a with
  | .commit => do
    let fate ← finish p db gid true st.fate
    return ⟨{ out with committed := out.committed + 1 }, fate⟩
  | .rollback => do
    let fate ← finish p db gid false st.fate
    return ⟨{ out with rolledBack := out.rolledBack + 1 }, fate⟩
  | .contradiction => return { st with out := { out with contradictions := out.contradictions ++ [gid] } }
  | .unverifiable => return { st with out := { out with unverifiable := out.unverifiable ++ [gid] } }
  | .unreadable => return { st with out := { out with unreadable := out.unreadable ++ [gid] } }
  | .nothing => return st

def rowAction (p : Participant) (shard : Int) (prepared : List (Gid × String)) (d : Decision) : Except String Action :=
  let held := (prepared.lookup d.gid).isSome
  if !held ∧ d.state = .commit then do
    let status ← p.xactStatus (d.xid shard)
    return decide d.state held status
  else return decide d.state held .unavailable

def applyRows (p : Participant) (shard : Int) (prepared : List (Gid × String)) :
    List Decision → Progress → Except String Progress
  | [], st => .ok st
  | d :: ds, st =>
    if d.involves shard then do
      let a ← rowAction p shard prepared d
      let st ← apply p ((prepared.lookup d.gid).getD "") d.gid a st
      applyRows p shard prepared ds st
    else applyRows p shard prepared ds st

def applyOrphans (p : Participant) (prepared : List (Gid × String)) (seen : List Gid) :
    List Gid → Progress → Except String Progress
  | [], st => .ok st
  | gid :: gids, st =>
    if gid ∈ seen then applyOrphans p prepared seen gids st
    else do
      let st ← apply p ((prepared.lookup gid).getD "") gid (decide .none true .unavailable) st
      applyOrphans p prepared seen gids st

def seen (shard : Int) (decisions : List Decision) : List Gid := (decisions.filter (·.involves shard)).map (·.gid)

def gids (prepared : List (Gid × String)) : List Gid := (prepared.map (·.1)).dedup.insertionSort (· ≤ ·)

def initial (prepared : List (Gid × String)) : Progress :=
  ⟨{}, fun gid => if gid ∈ prepared.map (·.1) then .prepared else .absent⟩

def reconcile (p : Participant) (shard : Int) (decisions : List Decision) : Except String Progress := do
  let prepared ← p.prepared
  let st ← applyRows p shard prepared decisions (initial prepared)
  applyOrphans p prepared (seen shard decisions) (gids prepared) st

variable {p : Participant} {shard : Int} {prepared : List (Gid × String)} {st st' : Progress}

lemma bind_ok {ε α β : Type} {x : Except ε α} {f : α → Except ε β} {b : β}
    (h : (x >>= f) = .ok b) : ∃ a, x = .ok a ∧ f a = .ok b := by
  cases x with
  | error e => cases h
  | ok a => exact ⟨a, rfl, h⟩

lemma finish_ok {db : String} {gid : Gid} {commit : Bool} {fate fate' : Gid → Fate}
    (h : finish p db gid commit fate = .ok fate') :
    fate' = Function.update fate gid (if commit then .committed else .rolledBack) := by
  unfold finish at h
  split at h
  · cases h
  · split at h
    · exact (Except.ok.inj h).symm
    · cases h

/-- Where an action leaves a transaction. -/
def Action.fate (a : Action) (f : Fate) : Fate :=
  match a with
  | .commit => .committed
  | .rollback => .rolledBack
  | _ => f

/-- What an action reports of a transaction is in the outcome. -/
def Action.Listed (a : Action) (gid : Gid) (o : Outcome) : Prop :=
  match a with
  | .contradiction => gid ∈ o.contradictions
  | .unverifiable => gid ∈ o.unverifiable
  | .unreadable => gid ∈ o.unreadable
  | _ => True

/-- The lists of an outcome only grow. -/
structure Outcome.Grows (o o' : Outcome) : Prop where
  contradictions : o.contradictions ⊆ o'.contradictions := by simp
  unverifiable : o.unverifiable ⊆ o'.unverifiable := by simp
  unreadable : o.unreadable ⊆ o'.unreadable := by simp

lemma Outcome.Grows.trans {o o' o'' : Outcome} (h : o.Grows o') (h' : o'.Grows o'') : o.Grows o'' :=
  ⟨fun _ hx => h'.contradictions (h.contradictions hx), fun _ hx => h'.unverifiable (h.unverifiable hx),
    fun _ hx => h'.unreadable (h.unreadable hx)⟩

lemma Action.Listed.grows {a : Action} {gid : Gid} {o o' : Outcome} (h : a.Listed gid o) (hgrows : o.Grows o') :
    a.Listed gid o' := by
  cases a with
  | contradiction => exact hgrows.contradictions h
  | unverifiable => exact hgrows.unverifiable h
  | unreadable => exact hgrows.unreadable h
  | nothing | commit | rollback => trivial

lemma apply_ok {db : String} {gid : Gid} {a : Action} (h : apply p db gid a st = .ok st') :
    st'.fate = Function.update st.fate gid (a.fate (st.fate gid)) ∧ st.out.Grows st'.out ∧ a.Listed gid st'.out := by
  cases a with
  | commit | rollback =>
    obtain ⟨fate, hf, h⟩ := bind_ok h
    cases h
    exact ⟨finish_ok hf, {}, trivial⟩
  | nothing | contradiction | unverifiable | unreadable =>
    cases h
    exact ⟨by simp [Action.fate], {}, by simp [Action.Listed]⟩

/-- A held transaction's action does not depend on its status. -/
def heldAction (d : Decision) : Action := decide d.state true .unavailable

lemma applyRows_ok {ds : List Decision} (hnd : (ds.map (·.gid)).Nodup)
    (h : applyRows p shard prepared ds st = .ok st') :
    (∀ gid, gid ∉ seen shard ds → st'.fate gid = st.fate gid) ∧ st.out.Grows st'.out ∧
    ∀ d ∈ ds, d.involves shard = true → ∃ a, rowAction p shard prepared d = .ok a ∧
      st'.fate d.gid = a.fate (st.fate d.gid) ∧ a.Listed d.gid st'.out := by
  induction ds generalizing st with
  | nil =>
    cases h
    exact ⟨fun _ _ => rfl, {}, by simp⟩
  | cons d ds ih =>
    obtain ⟨hfresh, hnd⟩ := List.nodup_cons.mp hnd
    rw [applyRows] at h
    split at h
    · rename_i hinv
      obtain ⟨a, ha, h⟩ := bind_ok h
      obtain ⟨st₁, h₁, h⟩ := bind_ok h
      obtain ⟨hfate, hgrows, hlisted⟩ := apply_ok h₁
      obtain ⟨hframe, hgrows', hrows⟩ := ih hnd h
      have hseen : seen shard (d :: ds) = d.gid :: seen shard ds := by simp [seen, hinv]
      have hnot : d.gid ∉ seen shard ds := by
        intro hmem
        obtain ⟨d', hd', heq⟩ := List.mem_map.mp hmem
        exact hfresh (List.mem_map.mpr ⟨d', (List.mem_filter.mp hd').1, heq⟩)
      refine ⟨fun gid hgid => ?_, hgrows.trans hgrows', ?_⟩
      · rw [hseen, List.mem_cons, not_or] at hgid
        rw [hframe gid hgid.2, hfate, Function.update_of_ne hgid.1]
      · intro d' hd' hinv'
        rcases List.mem_cons.mp hd' with rfl | hd'
        · refine ⟨a, ha, ?_, hlisted.grows hgrows'⟩
          rw [hframe _ hnot, hfate, Function.update_self]
        · have hne : d'.gid ≠ d.gid := fun heq => hfresh (List.mem_map.mpr ⟨d', hd', heq⟩)
          obtain ⟨a', ha', hf, hl⟩ := hrows d' hd' hinv'
          refine ⟨a', ha', ?_, hl⟩
          rw [hf, hfate, Function.update_of_ne hne]
    · rename_i hinv
      obtain ⟨hframe, hsub, hrows⟩ := ih hnd h
      have hseen : seen shard (d :: ds) = seen shard ds := by simp [seen, hinv]
      refine ⟨hseen ▸ hframe, hsub, fun d' hd' hinv' => ?_⟩
      rcases List.mem_cons.mp hd' with rfl | hd'
      · exact absurd hinv' hinv
      · exact hrows d' hd' hinv'

lemma applyOrphans_ok {known gids : List Gid} (hnd : gids.Nodup)
    (h : applyOrphans p prepared known gids st = .ok st') : (∀ gid, gid ∈ known → st'.fate gid = st.fate gid) ∧
    (∀ gid ∈ gids, gid ∉ known → st'.fate gid = .rolledBack) ∧ st.out.Grows st'.out := by
  suffices (∀ gid, gid ∈ known ∨ gid ∉ gids → st'.fate gid = st.fate gid) ∧
      (∀ gid ∈ gids, gid ∉ known → st'.fate gid = .rolledBack) ∧ st.out.Grows st'.out from
    ⟨fun gid hgid => this.1 gid (.inl hgid), this.2⟩
  induction gids generalizing st with
  | nil =>
    cases h
    exact ⟨fun _ _ => rfl, by simp, {}⟩
  | cons g gids ih =>
    obtain ⟨hfresh, hnd⟩ := List.nodup_cons.mp hnd
    rw [applyOrphans] at h
    split at h
    · rename_i hknown
      obtain ⟨hframe, hback, hsub⟩ := ih hnd h
      refine ⟨fun gid hgid => hframe gid (hgid.imp_right fun hno hmem => hno (by simp [hmem])),
        fun gid hmem hno => ?_, hsub⟩
      rcases List.mem_cons.mp hmem with rfl | hmem
      · exact absurd hknown hno
      · exact hback gid hmem hno
    · rename_i hknown
      obtain ⟨st₁, h₁, h⟩ := bind_ok h
      obtain ⟨hfate, hsub, -⟩ := apply_ok h₁
      obtain ⟨hframe, hback, hsub'⟩ := ih hnd h
      have hself : st₁.fate g = .rolledBack := by
        rw [hfate, Function.update_self]
        rfl
      refine ⟨fun gid hgid => ?_, fun gid hmem hno => ?_, hsub.trans hsub'⟩
      · have hne : gid ≠ g := by
          rintro rfl
          rcases hgid with hgid | hgid
          · exact hknown hgid
          · exact hgid (by simp)
        rw [hframe gid (hgid.imp_right fun hno hmem => hno (by simp [hmem])), hfate, Function.update_of_ne hne]
      · rcases List.mem_cons.mp hmem with rfl | hmem
        · rw [hframe _ (.inr hfresh), hself]
        · exact hback gid hmem hno

lemma mem_gids {gid : Gid} : gid ∈ gids prepared ↔ gid ∈ prepared.map (·.1) := by
  simp [gids, List.mem_insertionSort]

lemma gids_nodup : (gids prepared).Nodup := (List.perm_insertionSort _ _).nodup_iff.mpr (List.nodup_dedup _)

lemma lookup_isSome {gid : Gid} (h : gid ∈ prepared.map (·.1)) : (prepared.lookup gid).isSome = true := by
  induction prepared with
  | nil => simp at h
  | cons x prepared ih =>
    by_cases hx : gid = x.1
    · simp [List.lookup, hx]
    · have hne : (gid == x.1) = false := by simpa using hx
      simpa [List.lookup, hne] using ih (by simpa [hx] using h)

/-- What reconciliation does: the decision table for a row that names the shard, a rollback of every other
transaction that is held. -/
lemma reconcile_rows {decisions : List Decision} (hnd : (decisions.map (·.gid)).Nodup)
    (hp : p.prepared = .ok prepared) (h : reconcile p shard decisions = .ok st) :
    (∀ d ∈ decisions, d.involves shard = true → ∃ a, rowAction p shard prepared d = .ok a ∧
      st.fate d.gid = a.fate ((initial prepared).fate d.gid) ∧ a.Listed d.gid st.out) ∧
    ∀ gid ∈ prepared.map (·.1), gid ∉ seen shard decisions → st.fate gid = .rolledBack := by
  rw [reconcile, hp] at h
  obtain ⟨_, ⟨⟩, h⟩ := bind_ok h
  obtain ⟨st₁, h₁, h⟩ := bind_ok h
  obtain ⟨-, -, hrows⟩ := applyRows_ok hnd h₁
  obtain ⟨hkeep, hback, hgrows⟩ := applyOrphans_ok gids_nodup h
  refine ⟨fun d hd hinv => ?_, fun gid hheld hno => hback gid (mem_gids.mpr hheld) hno⟩
  have hseen : d.gid ∈ seen shard decisions := List.mem_map_of_mem (List.mem_filter.mpr ⟨hd, hinv⟩)
  obtain ⟨a, ha, hfate, hlisted⟩ := hrows d hd hinv
  exact ⟨a, ha, (hkeep _ hseen).trans hfate, hlisted.grows hgrows⟩

lemma reconcile_held {decisions : List Decision} (hnd : (decisions.map (·.gid)).Nodup)
    (hp : p.prepared = .ok prepared) (h : reconcile p shard decisions = .ok st) {d : Decision} (hd : d ∈ decisions)
    (hheld : d.gid ∈ prepared.map (·.1)) (hinv : d.involves shard = true) :
    st.fate d.gid = (heldAction d).fate .prepared ∧ (heldAction d).Listed d.gid st.out := by
  obtain ⟨a, ha, hfate, hlisted⟩ := (reconcile_rows hnd hp h).1 d hd hinv
  simp only [rowAction, lookup_isSome hheld, if_true] at ha
  cases ha
  simp only [initial, hheld, if_true] at hfate
  exact ⟨hfate, hlisted⟩

/-- The purpose of reconciliation, whatever participants a row lists: a held
transaction decided commit is committed, one in an unknown state is left alone
and reported, and only one without such a row is rolled back. -/
structure Honours (prepared : List (Gid × String)) (decisions : List Decision) (st : Progress) : Prop where
  commit : ∀ d ∈ decisions, d.gid ∈ prepared.map (·.1) → d.state = .commit → st.fate d.gid = .committed
  unreadable : ∀ d ∈ decisions, d.gid ∈ prepared.map (·.1) → d.state.known = false →
    st.fate d.gid = .prepared ∧ d.gid ∈ st.out.unreadable
  rolledBack : ∀ d ∈ decisions, d.gid ∈ prepared.map (·.1) → st.fate d.gid = .rolledBack →
    d.state = .none ∨ d.state = .preparing ∨ d.state = .abort

/-- Reconciliation honours the log exactly when every row of a held transaction
that records a commit or an unknown state lists the shard. -/
theorem reconcile_honours_iff (p : Participant) (shard : Int) (decisions : List Decision)
    (hnd : (decisions.map (·.gid)).Nodup) (prepared : List (Gid × String))
    (hp : p.prepared = .ok prepared) (st : Progress) (h : reconcile p shard decisions = .ok st) :
    Honours prepared decisions st ↔ ∀ d ∈ decisions, d.gid ∈ prepared.map (·.1) → d.involves shard = false →
        d.state = .none ∨ d.state = .preparing ∨ d.state = .abort := by
  constructor
  · intro hh d hd hheld hinv
    refine hh.rolledBack d hd hheld ((reconcile_rows hnd hp h).2 _ hheld ?_)
    intro hmem
    obtain ⟨d', hd', heq⟩ := List.mem_map.mp hmem
    obtain ⟨hd', hinv'⟩ := List.mem_filter.mp hd'
    have : d' = d := List.inj_on_of_nodup_map hnd hd' hd heq
    simp [this, hinv] at hinv'
  · intro hcond
    have hcases : ∀ d ∈ decisions, d.gid ∈ prepared.map (·.1) →
        (d.state = .none ∨ d.state = .preparing ∨ d.state = .abort) ∨
          st.fate d.gid = (heldAction d).fate .prepared ∧ (heldAction d).Listed d.gid st.out := by
      intro d hd hheld
      cases hinv : d.involves shard with
      | false => exact .inl (hcond d hd hheld hinv)
      | true => exact .inr (reconcile_held hnd hp h hd hheld hinv)
    refine ⟨fun d hd hheld hst => ?_, fun d hd hheld hst => ?_, fun d hd hheld hf => ?_⟩
    · rcases hcases d hd hheld with hc | ⟨hf, -⟩
      · simp [hst] at hc
      · rw [hf, heldAction, hst]
        rfl
    · obtain ⟨text, ht⟩ : ∃ text, d.state = .other text := by
        cases hs : d.state <;> simp_all [State.known]
      rcases hcases d hd hheld with hc | ⟨hf, hl⟩
      · simp [ht] at hc
      · have : heldAction d = .unreadable := by simp [heldAction, decide, hst]
        rw [this] at hf hl
        exact ⟨hf, hl⟩
    · rcases hcases d hd hheld with hc | ⟨hf', -⟩
      · exact hc
      · rw [hf'] at hf
        cases hs : d.state <;> simp_all [heldAction, decide, State.known, Action.fate]

/-- A participant that holds one transaction and refuses nothing. -/
def holding (gid : Gid) : Participant where
  prepared := .ok [(gid, "app")]
  refuses _ _ _ := none
  xactStatus _ := .ok .unavailable

/-- Shard 0 holds a transaction decided commit whose row lists shard 1 only, as a
reshard leaves it: the transaction is rolled back. -/
theorem reconcile_rolls_back_commit : (reconcile (holding "pgshard-c") 0 [⟨"pgshard-c", .commit, [⟨1, "20"⟩]⟩]).map
      (fun st => st.fate "pgshard-c") = .ok .rolledBack := by
  rfl

theorem reconcile_honours_listed :
    ∃ st, reconcile (holding "pgshard-c") 1 [⟨"pgshard-c", .commit, [⟨1, "20"⟩]⟩] = .ok st ∧
      Honours [("pgshard-c", "app")] [⟨"pgshard-c", .commit, [⟨1, "20"⟩]⟩] st :=
  ⟨_, rfl, (reconcile_honours_iff (holding "pgshard-c") 1 _ (by simp) _ rfl _ rfl).mpr
    (by simp [Decision.involves])⟩

end PgShard.Reconcile
