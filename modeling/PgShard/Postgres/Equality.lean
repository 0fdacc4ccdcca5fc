import PgShard.Postgres.Stored

/-!
# Equal keys and where they live

PostgreSQL's equality between two columns a shard key can have, as a foreign key and a unique
index use it. Equal values have one position unless a `text` is compared as a `character`.
-/

namespace PgShard.Postgres

open Key Placement

/-- A value of one column compared with a value of another: by the type of the second, to which
the first is brought. `character` ignores the blanks at the end, and loses them as `text`. -/
def Equal (left right : Column) (x y : Datum) : Prop :=
  match x, y with
  | .int i, .int j => i = j
  | .uuid u, .uuid v => u = v
  | .text b, .text c =>
    if right.isCharacter then trimRight b = trimRight c
    else if left.isCharacter then trimRight b = c
    else b = c
  | _, _ => False

instance (left right : Column) (x y : Datum) : Decidable (Equal left right x y) := by
  unfold Equal
  split <;> infer_instance

/-- A `text` or `varchar` that is compared as a `character`: the position sees blanks that the
comparison does not. -/
def Padded (left right : Column) : Prop := right.isCharacter = true ∧ left.isCharacter = false

instance (left right : Column) : Decidable (Padded left right) := inferInstanceAs (Decidable (_ ∧ _))

lemma storedID_mem (col : Column) (d : Datum) : minKey ≤ storedID col d ∧ storedID col d ≤ maxKey := by
  unfold storedID
  split <;> exact position_mem _

lemma OfColumn.position {col : Column} {i : Int} (h : OfColumn col (.int i)) :
    storedID col (.int i) = keyspaceID (.int i) := by
  unfold OfColumn at h
  split at h
  · next hcol heq =>
    cases heq
    exact storedID_int hcol h
  · next heq => cases heq
  · next heq => cases heq
  · cases h

lemma storedID_uuid (col : Column) (u : Bytes) :
    storedID col (.uuid u) = position (hashBytesExtended u partitionSeed) := by
  cases col <;> rfl

lemma storedID_bytes (col : Column) (b : Bytes) : storedID col (.text b) =
      position (hashBytesExtended (if col.isCharacter then trimRight b else b) partitionSeed) := by
  cases col <;> rfl

/-- Equal keys have one position. -/
lemma Equal.position {left right : Column} {x y : Datum} (hx : OfColumn left x)
    (hy : OfColumn right y) (h : Equal left right x y) (hp : ¬Padded left right) :
    storedID left x = storedID right y := by
  unfold Equal at h
  split at h
  · rw [hx.position, hy.position, h]
  · rw [storedID_uuid, storedID_uuid, h]
  · rw [storedID_bytes, storedID_bytes]
    split at h
    · next hright =>
      have hleft : left.isCharacter = true := by
        by_contra hno
        exact hp ⟨hright, by simpa using hno⟩
      rw [if_pos hleft, if_pos hright, h]
    · next hright =>
      rw [if_neg hright]
      split at h
      · next hleft => rw [if_pos hleft, h]
      · next hleft => rw [if_neg hleft, h]
  · cases h

end PgShard.Postgres
