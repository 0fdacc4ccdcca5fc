import PgShard.Planner.WalkTrace

/-!
# What the walk leaves alone

The walk over a part of a statement adds relations behind the ones it finds there, and joins
and notes key predicates only among those it added. A fact about the walker that such steps
keep is kept by the whole walk.
-/

namespace PgShard.Planner

open Hoare Key

/-- A fact that steps among the relations from `low` on keep. -/
structure Above (low : Nat) (P : Walker → Prop) : Prop where
  low_le : ∀ w, P w → low ≤ w.rels.length
  quiet : ∀ w w', P w → w'.rels = w.rels → w'.groups = w.groups → w'.terms = w.terms → w'.target = w.target → P w'
  grow : ∀ w r, P w → P { w with rels := w.rels ++ [r] }
  link : ∀ w a b, P w → low ≤ a → a < w.rels.length → low ≤ b → b < w.rels.length → P (w.unify a b)
  note : ∀ w i t, P w → low ≤ i → i < w.rels.length → P { w with terms := w.terms ++ [(i, t)] }

/-- A walk that keeps a fact. -/
def Holds (P : Walker → Prop) {α : Type} (m : Walk α) : Prop := Leads P m fun _ => P

lemma Above.stepwise {sess : Session} {low : Nat} {P : Walker → Prop} (hP : Above low P) :
    Stepwise sess low fun _ => P where
  low_le _ := hP.low_le
  trace _ _ _ hw _ := hw
  quiet _ w w' hw hrels _ := hP.quiet w w' hw hrels
  cte _ w _ hw := hP.quiet w _ hw rfl rfl rfl rfl
  look _ w _ _ o hw _ := by
    cases o with
    | none => simpa using hw
    | some r => exact hP.grow w r hw
  link _ := hP.link
  note _ := hP.note

section

variable {low : Nat} {P : Walker → Prop} {sess : Session} (hP : Above low P)

include hP

lemma Above.exprs (ns : List Node) : Holds P (exprs sess ns) := hP.stepwise.exprs [] ns []

lemma Above.withClause (wc : Option (WithClause Node)) : Holds P (withClause sess wc) :=
  hP.stepwise.withClause [] wc []

end

end PgShard.Planner
