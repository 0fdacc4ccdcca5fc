import Mathlib

/-!
# The recorded generation of a group's roles (`internal/controller/roles.go`)

A pass of a role verifier loads the desired roles with their generation, writes them to a group one statement at a
time and records the generation. One group is followed, under any number of controller processes, each of which
runs one pass at a time. What belongs to the superusers of the group is left out of the desired state.
-/

namespace PgShard.Controller

inductive RoleItem where
  | role (name : String)
  | member (role member : String)
  | setting (role database name : String)
  deriving DecidableEq

/-- Every item in the order it is written, with what it is to be. -/
structure DesiredRoles where
  generation : Nat := 0
  items : List (RoleItem × String) := []

def DesiredRoles.names (d : DesiredRoles) : List RoleItem := d.items.map (·.1)

/-- A pass over the group: what it loaded and, once it has seen the recorded generation, what is left to write and
whether it records its own. -/
structure RolePass where
  desired : DesiredRoles
  work : Option (List (RoleItem × String) × Bool) := none

structure Roles where
  desired : DesiredRoles := {}
  recorded : Option Nat := none
  /-- What passes wrote, and the generation it came from. -/
  group : RoleItem → Option (String × Nat) := fun _ => none
  passes : Nat → Option RolePass := fun _ => none

inductive RoleEvent where
  /-- A transaction; each of its statements bumps the generation, whose row it holds from the first on. -/
  | commit (statements : Nat) (items : List (RoleItem × String))
  | load (i : Nat)
  /-- The recorded generation is read; where it is not behind, `RunOnce` repairs what drifted. -/
  | look (i : Nat) (drifted : Option (List RoleItem))
  | write (i : Nat)
  | save (i : Nat)
  | fail (i : Nat)

namespace Roles

variable (w : Roles)

def setPass (i : Nat) (p : Option RolePass) : Roles := { w with passes := Function.update w.passes i p }

def step : RoleEvent → Roles
  | .commit statements items => { w with desired := ⟨w.desired.generation + statements, items⟩ }
  | .load i => if (w.passes i).isNone then w.setPass i (some { desired := w.desired }) else w
  | .look i drifted =>
    match w.passes i with
    | some ⟨d, none⟩ =>
      if w.recorded.any (d.generation ≤ ·) then
        w.setPass i (drifted.map fun names => ⟨d, some (d.items.filter (·.1 ∈ names), false)⟩)
      else w.setPass i (some ⟨d, some (d.items, true)⟩)
    | _ => w
  | .write i =>
    match w.passes i with
    | some ⟨d, some (item :: todo, records)⟩ =>
      { w.setPass i (some ⟨d, some (todo, records)⟩) with
        group := Function.update w.group item.1 (some (item.2, d.generation)) }
    | _ => w
  | .save i =>
    match w.passes i with
    | some ⟨d, some ([], records)⟩ =>
      { w.setPass i none with
        recorded := if records then some (max (w.recorded.getD 0) d.generation) else w.recorded }
    | _ => w
  | .fail i => if (w.passes i).isSome then w.setPass i none else w

/-- Nothing a pass wrote is older than the recorded generation. -/
def Applied : Prop := ∀ g ∈ w.recorded, ∀ item, ∀ v ∈ w.group item, g ≤ v.2

/-- A pass begins while none is going on; no transaction takes an item away. -/
def Orderly : RoleEvent → Prop
  | .load _ => ∀ i, w.passes i = none
  | .commit _ items => w.desired.names ⊆ items.map (·.1)
  | _ => True

def OrderlyRun (w : Roles) : List RoleEvent → Prop
  | [] => True
  | e :: events => w.Orderly e ∧ (w.step e).OrderlyRun events

/-- A pass with nothing written behind its back since it loaded. -/
structure Going (p : RolePass) : Prop where
  recorded : ∀ g ∈ w.recorded, g ≤ p.desired.generation
  loaded : p.desired.generation ≤ w.desired.generation
  names : p.desired.names ⊆ w.desired.names
  written : ∀ item, ∀ v ∈ w.group item, item ∈ p.desired.names
  todo : ∀ todo records, p.work = some (todo, records) → todo ⊆ p.desired.items ∧
    (records = true → ∀ item, ∀ v ∈ w.group item, item ∈ todo.map (·.1) ∨ v.2 = p.desired.generation)

structure Sound : Prop where
  applied : w.Applied
  idle : w.Going { desired := w.desired }
  alone : ∀ i j, (w.passes i).isSome → (w.passes j).isSome → i = j
  going : ∀ i p, w.passes i = some p → w.Going p

variable {w}

/-- The only pass goes on or ends. -/
lemma Sound.lone {w' : Roles} {i : Nat} {p : Option RolePass} (hi : ∀ j, (w.passes j).isSome → j = i)
    (hp : w'.passes = Function.update w.passes i p) (happlied : w'.Applied) (hidle : w'.Going { desired := w'.desired })
    (hgoing : ∀ q ∈ p, w'.Going q) : w'.Sound := by
  have hall : ∀ j q, w'.passes j = some q → j = i ∧ q ∈ p := by
    intro j q hq
    rw [hp, Function.update_apply] at hq
    split at hq
    · exact ⟨‹_›, hq⟩
    · exact absurd (hi j (by simp [hq])) ‹_›
  refine ⟨happlied, hidle, fun j k hj hk => ?_, fun j q hq => hgoing q (hall j q hq).2⟩
  obtain ⟨q, hq⟩ := Option.isSome_iff_exists.mp hj
  obtain ⟨r, hr⟩ := Option.isSome_iff_exists.mp hk
  rw [(hall j q hq).1, (hall k r hr).1]

lemma Sound.step {e : RoleEvent} (h : w.Sound) (he : w.Orderly e) : (w.step e).Sound := by
  have hone : ∀ {i p}, w.passes i = some p → ∀ j, (w.passes j).isSome → j = i :=
    fun hp j hj => h.alone j _ hj (by simp [hp])
  fun_cases Roles.step w e with
  | case1 statements items =>
    have hlater : ∀ {p}, w.Going p → Going { w with desired := ⟨w.desired.generation + statements, items⟩ } p :=
      fun hg => { hg with loaded := Nat.le_add_right_of_le hg.loaded, names := fun _ h => he (hg.names h) }
    exact ⟨h.applied, ⟨fun g hg => Nat.le_add_right_of_le (h.idle.recorded g hg), Nat.le_refl _, fun _ => id,
      fun item v hv => he (h.idle.written item v hv), nofun⟩, h.alone, fun i p hp => hlater (h.going i p hp)⟩
  | case2 i =>
    refine .lone (by simp [he _]) rfl h.applied { h.idle with } ?_
    rintro _ ⟨⟩
    exact { h.idle with }
  | case4 i drifted d hp =>
    refine .lone (hone hp) rfl h.applied { h.idle with } fun q hq => ?_
    obtain ⟨names, -, rfl⟩ := Option.map_eq_some_iff.mp hq
    refine { h.going i _ hp with todo := ?_ }
    rintro _ _ ⟨⟩
    exact ⟨List.filter_sublist.subset, nofun⟩
  | case5 i drifted d hp =>
    refine .lone (hone hp) rfl h.applied { h.idle with } ?_
    rintro _ ⟨⟩
    have hg := h.going i _ hp
    refine { hg with todo := ?_ }
    rintro _ _ ⟨⟩
    exact ⟨fun _ => id, fun _ item v hv => .inl (hg.written item v hv)⟩
  | case7 i d item todo records hp =>
    have hg := h.going i _ hp
    obtain ⟨htodo, hold⟩ := hg.todo _ _ rfl
    -- what the group has now is this item or was there before
    have hnow : ∀ n, ∀ v ∈ Function.update w.group item.1 (some (item.2, d.generation)) n,
        n = item.1 ∧ v.2 = d.generation ∨ n ≠ item.1 ∧ v ∈ w.group n := by
      grind [Function.update_apply]
    have hwritten : ∀ n, ∀ v ∈ Function.update w.group item.1 (some (item.2, d.generation)) n, n ∈ d.names := by
      intro n v hv
      rcases hnow n v hv with ⟨rfl, -⟩ | ⟨-, hv⟩
      · exact List.mem_map_of_mem (htodo (.head _))
      · exact hg.written n v hv
    refine .lone (hone hp) rfl ?_ { h.idle with written := fun n v hv => hg.names (hwritten n v hv), todo := nofun } ?_
    · intro g hrec n v hv
      rcases hnow n v hv with ⟨-, hv⟩ | ⟨-, hv⟩
      · exact hv ▸ hg.recorded g hrec
      · exact h.applied g hrec n v hv
    · rintro _ ⟨⟩
      refine { hg with written := hwritten, todo := ?_ }
      rintro _ _ ⟨⟩
      refine ⟨fun x hx => htodo (.tail _ hx), fun hrec n v hv => ?_⟩
      rcases hnow n v hv with ⟨-, hv⟩ | ⟨hne, hv⟩
      · exact .inr hv
      · exact (hold hrec n v hv).imp_left fun hin => (List.mem_cons.mp hin).resolve_left hne
  | case9 i d records hp =>
    have hg := h.going i _ hp
    have hmax : max (w.recorded.getD 0) d.generation ≤ d.generation := by
      cases hr : w.recorded with
      | none => simp
      | some g => exact Nat.max_le.mpr ⟨hg.recorded g hr, Nat.le_refl _⟩
    cases records with
    | false => exact .lone (hone hp) rfl h.applied { h.idle with } nofun
    | true =>
      refine .lone (hone hp) rfl ?_ { h.idle with recorded := ?_, todo := nofun } nofun
      · rintro g ⟨⟩ n v hv
        rw [((hg.todo _ _ rfl).2 rfl n v hv).resolve_left nofun]
        exact hmax
      · rintro g ⟨⟩
        exact Nat.le_trans hmax hg.loaded
  | case11 i hp =>
    obtain ⟨p, hp⟩ := Option.isSome_iff_exists.mp hp
    exact .lone (hone hp) rfl h.applied { h.idle with } nofun
  | _ => exact h

lemma Sound.run (events : List RoleEvent) (h : w.Sound) (horderly : w.OrderlyRun events) :
    (events.foldl Roles.step w).Sound := by
  induction events generalizing w with
  | nil => exact h
  | cons e events ih => exact ih (h.step horderly.1) horderly.2

def applied : List RoleEvent := [.commit 1 [(.role "app", "old")], .load 0, .look 0 none]

end Roles

end PgShard.Controller
