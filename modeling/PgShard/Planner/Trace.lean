import PgShard.Hoare.Leads
import PgShard.Planner.Mentions

/-!
# What the walk leaves behind

The walk goes through the events of the scan that it takes part in, in their order, and its
relations are the table names among them that are not the name of a WITH item passed before.
-/

namespace PgShard.Planner

open Hoare

variable {r r' : Rel} {sess : Session} {rv : RangeVar}

lemma applyPlacement_mention {pl : Placement} {name : String}
    (h : applyPlacement r pl name = .ok r') : r'.mention = r.mention := by
  unfold applyPlacement at h
  split at h
  · split at h
    · cases h
    · cases h
      rfl
  · cases h
    rfl
  · cases h
    rfl

lemma lookupView_mention {snap : Snapshot} {v : View} (h : lookupView snap r v = .ok r') :
    r'.mention = r.mention := by
  unfold lookupView at h
  split at h
  · cases h
  · split at h
    · cases h
    · obtain ⟨r₁, h₁, h⟩ := bind_eq_ok h
      cases h
      have hm := applyPlacement_mention h₁
      exact hm

lemma map_some_eq_ok {α ε : Type} {x : Except ε α} {a : α} (h : x.map some = .ok (some a)) : x = .ok a := by
  cases x with
  | error e => cases h
  | ok b => cases h; rfl

lemma searchSchemas_mention {schemas : List String}
    (h : searchSchemas sess rv r schemas = .ok (some r')) : r'.mention = r.mention := by
  induction schemas with
  | nil => cases h
  | cons schema rest ih =>
    unfold searchSchemas at h
    split at h
    · split at h
      · cases h
        rfl
      · exact ih h
    · split at h
      · exact ih h
      · split at h
        · have hm := lookupView_mention (map_some_eq_ok h)
          exact hm
        · split at h
          · have hm := applyPlacement_mention (map_some_eq_ok h)
            exact hm
          · exact ih h

lemma undeclared_mention (h : undeclared sess rv r = .ok r') : r'.mention = r.mention := by
  unfold undeclared at h
  split at h
  · cases h
    rfl
  · split at h
    · cases h
      rfl
    · split at h
      · cases h
        rfl
      · cases h
      · cases h
        rfl

lemma lookupTable_mention (h : lookupTable sess rv = .ok r) : r.mention = rv := by
  unfold lookupTable at h
  split at h
  · cases h
  · split at h
    · cases h
    · next hf =>
      cases h
      exact searchSchemas_mention hf
    · exact undeclared_mention h

/-- The name of a WITH item is not looked up any further. -/
lemma lookup_cases {ctes : List String} {o : Option Rel} (h : lookup sess ctes rv = .ok o) :
    (rv.isCte ctes = true ∧ o = none) ∨
    (rv.isCte ctes = false ∧ ∃ r, o = some r ∧ lookupTable sess rv = .ok r) := by
  unfold lookup at h
  split at h
  · next hc =>
    cases h
    exact .inl ⟨hc, rfl⟩
  · next hc =>
    cases hr : lookupTable sess rv with
    | error e => simp [hr, Except.map] at h
    | ok r =>
      simp only [hr, Except.map, Except.ok.injEq] at h
      exact .inr ⟨by simpa using hc, r, h.symm, rfl⟩

/-- The events the walk takes part in, without what PostgreSQL makes of a name. -/
def heard (evs : List Event) : List Event :=
  evs.filterMap fun
    | .cte name => some (.cte name)
    | .table rv _ true => some (.table rv false true)
    | .table _ _ false => none

@[simp] lemma heard_nil : heard [] = [] := rfl

@[simp] lemma heard_append (xs ys : List Event) : heard (xs ++ ys) = heard xs ++ heard ys := by
  simp [heard]

@[simp] lemma heard_written (rv : RangeVar) : heard (written rv false) = [] := rfl

@[simp] lemma heard_unreached (rv : RangeVar) (b : Bool) : heard [.table rv b false] = [] := rfl

@[simp] lemma heard_reached (rv : RangeVar) (b : Bool) : heard [.table rv b true] = [.table rv false true] := rfl

/-- What the walk passes over leaves no trace. -/
lemma heard_skipped : (∀ reach scope n, reach = .skipped → heard (scan reach scope n) = []) ∧
    (∀ reach scope ns, reach = .skipped → heard (scanWith reach scope ns) = []) ∧
    (∀ reach scope ns, reach = .skipped → heard (scans reach scope ns) = []) ∧
    (∀ reach scope n, reach = .skipped → heard (scan? reach scope n) = []) := by
  apply scan.mutual_induct
  all_goals
    intros
    subst_vars
    first
    | rw [scan] <;> simp_all
    | rw [scan?] <;> simp_all
    | rw [scans] <;> simp_all
    | rw [scanWith] <;> simp_all

/-- The trace does not depend on what PostgreSQL sees. -/
lemma heard_scope : (∀ reach scope n, ∀ scope', heard (scan reach scope n) = heard (scan reach scope' n)) ∧
    (∀ reach scope ns, ∀ scope', heard (scanWith reach scope ns) = heard (scanWith reach scope' ns)) ∧
    (∀ reach scope ns, ∀ scope', heard (scans reach scope ns) = heard (scans reach scope' ns)) ∧
    (∀ reach scope n, ∀ scope', heard (scan? reach scope n) = heard (scan? reach scope' n)) := by
  apply scan.mutual_induct
  case case1 =>
    intro reach scope rv scope'
    cases reach <;> simp [scan]
  all_goals
    intros
    first
    | rw [scan, scan] <;> grind [heard_append]
    | rw [scan?, scan?] <;> grind
    | rw [scans, scans] <;> grind [heard_append]
    | rw [scanWith, scanWith] <;> grind [heard_append]

lemma scans_append (reach : Reach) (scope : List String) (xs ys : List Node) :
    scans reach scope (xs ++ ys) = scans reach scope xs ++ scans reach scope ys := by
  induction xs with
  | nil => simp [scans]
  | cons x xs ih => simp [scans, ih]

lemma scans_toList (reach : Reach) (scope : List String) (o : Option Node) :
    scans reach scope o.toList = scan? reach scope o := by
  cases o <;> simp [scans, scan?]

lemma scan_commonTableExpr (reach : Reach) (scope : List String) (name : String) (cols : List String) (q : Node) :
    scan reach scope (.commonTableExpr name cols q) = scan reach.past scope q := by
  rw [scan]
  · simp [Node.children, scans]
  all_goals simp

/-- The visitor does not pass a WITH item, it only looks into it. -/
lemma heard_scanWith_visited (scope : List String) (ns : List Node) :
    heard (scanWith .visited scope ns) = heard (scans .visited scope ns) := by
  induction ns generalizing scope with
  | nil => simp [scanWith, scans]
  | cons n ns ih =>
    have hscope := heard_scope.2.2.1 .visited
    cases n with
    | commonTableExpr name cols q =>
      simp [scanWith, scans, scan_commonTableExpr, ih, hscope (name :: scope) ns scope]
    | _ => rw [scanWith, scans] <;> simp [ih]

/-- The visitor goes from a node to its children. -/
lemma heard_visited_children (scope : List String) (n : Node) (hn : ∀ t q, n ≠ .subLink t q) :
    heard (scan .visited scope n) = heard (scans .visited scope n.children) := by
  have hs := fun o scope' => heard_scope.2.2.1 .visited scope' o scope
  have ho := fun o scope' => heard_scope.2.2.2 .visited scope' o scope
  have h1 := fun o scope' => heard_scope.1 .visited scope' o scope
  cases n with
  | subLink t q => exact absurd rfl (hn t q)
  | rangeVar rv => simp [scan, Node.children, scans]
  | _ =>
    rw [scan]
    all_goals simp [Node.children, scans, scans_append, scans_toList, heard_scanWith_visited,
      hs _ (stmtScope _ _), ho _ (stmtScope _ _), hs _ (itemScope _ _), h1 _ (stmtScope _ _)]

/-- The names of the WITH items passed, the last one first. -/
def seenAfter (seen : List String) : List Event → List String
  | [] => seen
  | .cte name :: rest => seenAfter (name :: seen) rest
  | .table _ _ _ :: rest => seenAfter seen rest

/-- The tables the walk looks up. -/
def lookedUp (seen : List String) : List Event → List RangeVar
  | [] => []
  | .cte name :: rest => lookedUp (name :: seen) rest
  | .table rv _ reached :: rest =>
    if reached && !rv.isCte seen then rv :: lookedUp seen rest else lookedUp seen rest

lemma seenAfter_append (seen : List String) (xs ys : List Event) :
    seenAfter seen (xs ++ ys) = seenAfter (seenAfter seen xs) ys := by
  induction xs generalizing seen with
  | nil => rfl
  | cons x xs ih => cases x <;> simp [seenAfter, ih]

lemma lookedUp_append (seen : List String) (xs ys : List Event) :
    lookedUp seen (xs ++ ys) = lookedUp seen xs ++ lookedUp (seenAfter seen xs) ys := by
  induction xs generalizing seen with
  | nil => rfl
  | cons x xs ih =>
    cases x with
    | cte name => simp [lookedUp, seenAfter, ih]
    | table rv sh re =>
      simp only [List.cons_append, lookedUp, seenAfter, ih]
      split <;> simp

lemma seenAfter_heard (seen : List String) (xs : List Event) : seenAfter seen (heard xs) = seenAfter seen xs := by
  induction xs generalizing seen with
  | nil => rfl
  | cons x xs ih =>
    have hcons : heard (x :: xs) = heard [x] ++ heard xs := heard_append [x] xs
    rw [hcons, seenAfter_append, ih]
    match x with
    | .cte name => rfl
    | .table rv sh true => rfl
    | .table rv sh false => rfl

lemma lookedUp_heard (seen : List String) (xs : List Event) : lookedUp seen (heard xs) = lookedUp seen xs := by
  induction xs generalizing seen with
  | nil => rfl
  | cons x xs ih =>
    have hcons : heard (x :: xs) = heard [x] ++ heard xs := heard_append [x] xs
    rw [hcons, lookedUp_append, ih]
    match x with
    | .cte name => rfl
    | .table rv sh true => cases hc : rv.isCte seen <;> simp [lookedUp, seenAfter, hc]
    | .table rv sh false => simp [lookedUp, seenAfter]

/-- The walker after the events so far. -/
structure Sim (sess : Session) (past : List Event) (w : Walker) : Prop where
  ctes : w.ctes = seenAfter [] past
  rels : w.rels.map (·.mention) = lookedUp [] past
  found : ∀ r ∈ w.rels, lookupTable sess r.mention = .ok r

lemma Sim.congr {past past' : List Event} {w : Walker} (h : heard past = heard past')
    (hs : Sim sess past w) : Sim sess past' w := by
  constructor
  · rw [hs.ctes, ← seenAfter_heard, h, seenAfter_heard]
  · rw [hs.rels, ← lookedUp_heard, h, lookedUp_heard]
  · exact hs.found

lemma Sim.same {past : List Event} {w w' : Walker} (hs : Sim sess past w) (hrels : w'.rels = w.rels)
    (hctes : w'.ctes = w.ctes) : Sim sess past w' :=
  ⟨hctes.trans hs.ctes, by rw [hrels]; exact hs.rels, by rw [hrels]; exact hs.found⟩

/-- A name is looked up unless it is that of a WITH item passed before. -/
lemma Sim.look {past : List Event} {w w' : Walker} {o : Option Rel} (b : Bool)
    (hs : Sim sess past w) (ho : lookup sess w.ctes rv = .ok o) (hctes : w'.ctes = w.ctes)
    (hrels : w'.rels = w.rels ++ o.toList) : Sim sess (past ++ [.table rv b true]) w' := by
  have hseen : w'.ctes = seenAfter [] (past ++ [.table rv b true]) := by
    simp [seenAfter_append, seenAfter, hctes, hs.ctes]
  rcases lookup_cases ho with ⟨hc, rfl⟩ | ⟨hc, r, rfl, hr⟩
  · rw [hs.ctes] at hc
    rw [Option.toList_none, List.append_nil] at hrels
    exact ⟨hseen, by simp [lookedUp_append, lookedUp, hc, hs.rels, hrels], by rw [hrels]; exact hs.found⟩
  · rw [hs.ctes] at hc
    refine ⟨hseen, ?_, ?_⟩
    · simp [lookedUp_append, lookedUp, hc, hs.rels, hrels, lookupTable_mention hr]
    · rw [hrels]
      intro r' hr'
      rcases List.mem_append.mp hr' with h | h
      · exact hs.found r' h
      · rw [List.mem_singleton.mp h, lookupTable_mention hr]
        exact hr

/-! ### Facts about the walker that a walk keeps -/

/-- The places of a scope: from `low` on, and within the list of relations. -/
def Within (low : Nat) (scope : Scope) (w : Walker) : Prop := ∀ x ∈ scope, low ≤ x.2 ∧ x.2 < w.rels.length

/-- A fact about the walker and the events so far that the steps of a walk keep. The walk adds
relations behind the ones it finds there, and joins and notes key predicates only among those from
`low` on. -/
structure Stepwise (sess : Session) (low : Nat) (R : List Event → Walker → Prop) : Prop where
  low_le : ∀ past w, R past w → low ≤ w.rels.length
  trace : ∀ past past' w, R past w → heard past = heard past' → R past' w
  quiet : ∀ past w w', R past w → w'.rels = w.rels → w'.ctes = w.ctes → w'.groups = w.groups →
    w'.terms = w.terms → w'.target = w.target → R past w'
  cte : ∀ past w name, R past w → R (past ++ [.cte name]) { w with ctes := name :: w.ctes }
  look : ∀ past w rv b o, R past w → lookup sess w.ctes rv = .ok o →
    R (past ++ [.table rv b true]) { w with rels := w.rels ++ o.toList }
  link : ∀ past w a b, R past w → low ≤ a → a < w.rels.length → low ≤ b → b < w.rels.length → R past (w.unify a b)
  note : ∀ past w i t, R past w → low ≤ i → i < w.rels.length → R past { w with terms := w.terms ++ [(i, t)] }

lemma sim_stepwise : Stepwise sess 0 (Sim sess) where
  low_le _ _ _ := Nat.zero_le _
  trace _ _ _ hs h := hs.congr h
  quiet _ _ _ hs hrels hctes _ _ _ := hs.same hrels hctes
  cte _ _ _ hs := ⟨by simp [seenAfter_append, seenAfter, hs.ctes],
    by simpa [lookedUp_append, lookedUp] using hs.rels, hs.found⟩
  look _ _ _ b _ hs ho := hs.look b ho rfl rfl
  link _ w a b hs _ _ _ _ := by
    unfold Walker.unify
    split
    · exact hs
    · exact hs.same rfl rfl
  note _ _ _ _ hs _ _ := hs.same rfl rfl

/-- A part of the walk goes through exactly these events. -/
def Tracks (R : List Event → Walker → Prop) {α : Type} (m : Walk α) (evs : List Event) : Prop :=
  ∀ past, Leads (R past) m fun _ => R (past ++ evs)

section

variable {R : List Event → Walker → Prop} {α β : Type} {m : Walk α} {evs evs' : List Event}

lemma Tracks.seq {k : α → Walk β} (h : Tracks R m evs) (hk : ∀ a, Tracks R (k a) evs') :
    Tracks R (m >>= k) (evs ++ evs') := by
  intro past
  refine (h past).seq ?_
  intro a
  rw [← List.append_assoc]
  exact hk a _

/-- A step that leaves no trace, before the rest. -/
lemma Tracks.quietly {k : α → Walk β} (h : Tracks R m []) (hk : ∀ a, Tracks R (k a) evs) : Tracks R (m >>= k) evs :=
  h.seq hk

/-- A step that leaves no trace, after the rest. -/
lemma Tracks.then_quietly {k : α → Walk β} (h : Tracks R m evs)
    (hk : ∀ a, Tracks R (k a) []) : Tracks R (m >>= k) evs := by
  have hseq := h.seq hk
  rwa [List.append_nil] at hseq

lemma Tracks.pure {a : α} : Tracks R (Pure.pure a : Walk α) [] := by
  intro past
  apply Leads.pure
  intro w hs
  simpa using hs

lemma Tracks.change {φ : Walker → Walker} (h : ∀ past w, R past w → R past (φ w)) :
    Tracks R (modify φ : Walk PUnit) [] := by
  intro past
  apply Leads.modify
  intro w hs
  rw [List.append_nil]
  exact h past w hs

lemma Tracks.throw {e : Refusal} : Tracks R (MonadExcept.throw e : Walk α) evs := by
  intro past
  exact Leads.throw

lemma Tracks.lift_then {x : Except Refusal α} {k : α → Walk β}
    (hk : ∀ a, x = .ok a → Tracks R (k a) evs) : Tracks R (monadLift x >>= k) evs := by
  intro past
  refine Leads.bind (Q := fun a w => x = .ok a ∧ R past w) ?_ ?_
  · apply Leads.lift
    intro a w ha hs
    exact ⟨ha, hs⟩
  · intro a s b s' hs heq
    exact hk a hs.1 past s b s' hs.2 heq

lemma Stepwise.read_then {low : Nat} (hR : Stepwise sess low R) {k : Walker → Walk β}
    (hk : ∀ w, low ≤ w.rels.length → Tracks R (k w) evs) : Tracks R (get >>= k) evs := by
  intro past
  refine Leads.get.bind ?_
  rintro w s b s' ⟨rfl, hw⟩ heq
  exact hk w (hR.low_le past w hw) past w b s' hw heq

lemma Stepwise.congr {low : Nat} (hR : Stepwise sess low R) (h : Tracks R m evs)
    (heq : heard evs = heard evs') : Tracks R m evs' := by
  intro past
  refine (h past).weaken (fun _ hs => hs) ?_
  intro _ w hs
  exact hR.trace _ _ w hs (by simp [heq])

end

end PgShard.Planner
