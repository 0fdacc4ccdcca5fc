import Mathlib

/-!
# Three-valued logic

A condition of SQL is true, false or unknown; a WHERE keeps the rows for which it is true.
-/

namespace PgShard.Sql

variable {A : Type}

abbrev Truth := Option Bool

namespace Truth

def and : Truth → Truth → Truth
  | some false, _ | _, some false => some false
  | some true, b => b
  | none, _ => none

def or : Truth → Truth → Truth
  | some true, _ | _, some true => some true
  | some false, b => b
  | none, _ => none

def not : Truth → Truth
  | some b => some !b
  | none => none

def coalesce (a : Truth) (b : Bool) : Truth := some (a.getD b)

/-- Whether a WHERE keeps the row. -/
def holds (a : Truth) : Bool := a == some true

@[simp] theorem holds_some (b : Bool) : holds (some b) = b := by
  cases b <;> rfl

@[simp] theorem holds_and (a b : Truth) : (a.and b).holds = (a.holds && b.holds) := by
  rcases a with _ | (_ | _) <;> rcases b with _ | (_ | _) <;> rfl

@[simp] theorem holds_or (a b : Truth) : (a.or b).holds = (a.holds || b.holds) := by
  rcases a with _ | (_ | _) <;> rcases b with _ | (_ | _) <;> rfl

/-- A NOT keeps what the condition itself does not, but for the rows where it is unknown. -/
theorem holds_not {a : Truth} (h : a.isSome) : a.not.holds = !a.holds := by
  cases a with
  | none => cases h
  | some b => cases b <;> rfl

end Truth

def equal [DecidableEq A] : Option A → Option A → Truth
  | some a, some b => some (a = b)
  | _, _ => none

/-- `&&` of arrays. -/
def overlaps [DecidableEq A] : Option (List A) → Option (List A) → Truth
  | some l, some l' => some (l.any (· ∈ l'))
  | _, _ => none

theorem overlaps_comm [DecidableEq A] (l l' : Option (List A)) : overlaps l l' = overlaps l' l := by
  cases l with
  | none => cases l' <;> rfl
  | some l =>
    cases l' with
    | none => rfl
    | some l' =>
      have h : l.any (fun a => decide (a ∈ l')) = l'.any (fun a => decide (a ∈ l)) := by
        apply Bool.eq_iff_iff.mpr
        simp only [List.any_eq_true, decide_eq_true_eq]
        exact ⟨fun ⟨a, ha, hb⟩ => ⟨a, hb, ha⟩, fun ⟨a, ha, hb⟩ => ⟨a, hb, ha⟩⟩
      exact congrArg some h

end PgShard.Sql
