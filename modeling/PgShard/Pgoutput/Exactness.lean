import PgShard.Pgoutput.Layout

/-!
# What the decoder reads

Each reader takes exactly the bytes the layout gives its item. The one place where the bytes that follow matter is the
abort of a streamed transaction, whose last fields are read when there are bytes enough for them.
-/

namespace PgShard.Pgoutput

open Wire

namespace Read

lemma uint8_exact : Exact uint8 fun x used _ => used = [x] := Wire.uint8_exact _

lemma uint32_exact : Exact uint32 fun x used _ => used = w32 x := Wire.uint32_exact _

lemma uint64_exact : Exact uint64 fun x used _ => used = w64 x := Wire.uint64_exact _

lemma string_exact : Exact string fun s used _ => used = wstring s := Wire.cstring_exact _

lemma bytes_exact : Exact bytes fun bs used _ => used = wbytes bs := Wire.bytes32_exact _

lemma micros_exact : Exact micros fun t used _ => used = wmicros t := by
  refine .intro (uint64_exact.field fun v => .pure fun _ => List.append_nil _) ?_
  rintro t _ rest rfl
  exact uint64_exact.read_bind (a := t.toUInt64) rfl

section

variable {B : Type} {rest : Bytes}

@[simp] lemma pure_run (b : B) : (pure b : Read B) rest = .ok (b, rest) := rfl

@[simp] lemma uint8_bind (f : UInt8 → Read B) (x : UInt8) : (uint8 >>= f) (x :: rest) = f x rest :=
  uint8_exact.read_bind (rfl : [x] = [x])

@[simp] lemma uint32_bind (f : UInt32 → Read B) (x : UInt32) : (uint32 >>= f) (w32 x ++ rest) = f x rest :=
  uint32_exact.read_bind rfl

@[simp] lemma uint64_bind (f : UInt64 → Read B) (x : UInt64) : (uint64 >>= f) (w64 x ++ rest) = f x rest :=
  uint64_exact.read_bind rfl

@[simp] lemma string_bind (f : CString → Read B) (s : CString) : (string >>= f) (wstring s ++ rest) = f s rest :=
  string_exact.read_bind rfl

@[simp] lemma bytes_bind (f : Counted 4 UInt8 → Read B) (bs : Counted 4 UInt8) :
    (bytes >>= f) (wbytes bs ++ rest) = f bs rest := bytes_exact.read_bind rfl

@[simp] lemma micros_bind (f : Int64 → Read B) (t : Int64) : (micros >>= f) (wmicros t ++ rest) = f t rest :=
  micros_exact.read_bind rfl

end

lemma column_exact : Exact column fun c used _ => c.Lays used := by
  refine .intro (uint8_exact.field fun flags => string_exact.field fun name => uint32_exact.field fun oid =>
    uint32_exact.field fun typmod => .pure fun _ => ⟨flags, rfl, rfl⟩) ?_
  rintro c _ rest ⟨flags, hkey, rfl⟩
  simp [-bind_pure_comp, column, Column.fields, hkey]

lemma tupleColumn_exact : Exact tupleColumn fun c used _ => used = c.bytes := by
  refine .intro (uint8_exact.field fun kind => ?_) ?_
  · refine .cond (fun h => .pure fun _ => ?_) fun _ => .cond (fun h => .pure fun _ => ?_) fun _ =>
      .cond (fun h => bytes_exact.field fun data => .pure fun _ => ?_) fun _ =>
      .cond (fun h => bytes_exact.field fun data => .pure fun _ => ?_) fun _ => .fail _
    all_goals simp [TupleColumn.bytes, h]
  · rintro c _ rest rfl
    cases c <;> simp +decide [-bind_pure_comp, tupleColumn, TupleColumn.bytes]

lemma tuple_exact : Exact tuple fun t used _ => used = wtuple t := by
  have h := counted16_exact DecodeError.short tupleColumn_exact
  simp only [sequence_iff, exists_eq_right] at h
  exact h

@[simp] lemma tuple_bind {B : Type} {rest : Bytes} (f : Tuple → Read B) (t : Tuple) :
    (tuple >>= f) (wtuple t ++ rest) = f t rest := tuple_exact.read_bind rfl

/-- The image of the old row and the kind that follows it; a kind that is no image's is the one just read. -/
lemma oldImage_exact (k : UInt8) : Exact (oldImage k) fun x used _ =>
    (∃ i : Image, x.1 = some i ∧ k :: used = i.bytes ++ [x.2]) ∨
      x = (none, k) ∧ used = [] ∧ k ≠ 'K'.toUInt8 ∧ k ≠ 'O'.toUInt8 := by
  refine .intro (.cond (fun hk => ?_) fun hK => .cond (fun hk => ?_) fun hO => ?_) ?_
  · exact tuple_exact.field fun t => uint8_exact.field fun k' => .pure fun _ => .inl ⟨.key t, rfl, by rw [hk]; rfl⟩
  · exact tuple_exact.field fun t => uint8_exact.field fun k' => .pure fun _ => .inl ⟨.old t, rfl, by rw [hk]; rfl⟩
  · exact .pure fun _ => .inr ⟨rfl, rfl, hK, hO⟩
  · rintro ⟨old, k'⟩ used rest (⟨i, rfl, hbytes⟩ | ⟨h, rfl, hK, hO⟩)
    · cases i <;> cases hbytes <;> simp +decide [-bind_pure_comp, oldImage]
    · cases h
      simp [oldImage, hK, hO]

lemma abort_exact : Exact abort fun a used rest => used = wabort a ∧ (a = none → rest.length < 16) := by
  have habort : ∀ data, abort data = (if 16 ≤ data.length then do let lsn ← uint64; let t ← micros; return some (lsn, t)
      else return none : Read _) data := fun _ => rfl
  refine .intro (fun data => ?_) ?_
  · rw [habort]
    split
    · exact (uint64_exact.field fun lsn => micros_exact.field fun t => .pure fun _ => ⟨by simp [wabort], nofun⟩ : Sound _ _) data
    · intro a rest hdata
      cases hdata
      exact ⟨[], rfl, rfl, fun _ => by omega⟩
  · rintro a _ rest ⟨rfl, hshort⟩
    rw [habort]
    cases a with
    | none => simp [wabort, Nat.not_le.mpr (hshort rfl)]
    | some x =>
      have h16 : 16 ≤ (wabort (some x) ++ rest).length := by
        simp only [wabort, wmicros, w64, List.length_append, length_be]
        omega
      rw [if_pos h16]
      simp [-bind_pure_comp, wabort]

variable {xid : UInt32} {t : Tag} {m : Message Int64} {used rest : Bytes}

/-- The fields of the second phase of a transaction, with one time. -/
lemma prepared_sound {make : UInt8 → UInt64 → UInt64 → Int64 → UInt32 → CString → Message Int64}
    {L : Message Int64 → Bytes → Bytes → Prop} (h : ∀ flags lsn fin t xid gid rest,
      L (make flags lsn fin t xid gid) (wprepared flags lsn fin [t] xid gid) rest) : Sound (prepared make) L :=
  uint8_exact.field fun flags => uint64_exact.field fun lsn => uint64_exact.field fun fin => micros_exact.field fun t =>
    uint32_exact.field fun xid => string_exact.field fun gid => .pure fun rest => by
      simpa [wprepared] using h flags lsn fin t xid gid rest

lemma commit_sound {make : UInt8 → UInt64 → UInt64 → Int64 → Message Int64}
    {L : Message Int64 → Bytes → Bytes → Prop} (h : ∀ flags lsn fin t rest,
      L (make flags lsn fin t) [[flags], w64 lsn, w64 fin, wmicros t].flatten rest) : Sound (commit make) L :=
  uint8_exact.field fun flags => uint64_exact.field fun lsn => uint64_exact.field fun fin => micros_exact.field fun t =>
    .pure (h flags lsn fin t)

lemma relation_exact : Exact (relation xid) fun rel used _ =>
    rel.xid = xid ∧ ∃ v, used = rel.fields v ∧ Sequence Column.Lays rel.columns.1 v := by
  refine .intro (uint32_exact.field fun id => string_exact.field fun ns => string_exact.field fun name =>
    uint8_exact.field fun identity => (counted16_exact _ column_exact).bind fun cols u => .pure fun _ h => ?_) ?_
  · obtain ⟨v, rfl, hv⟩ := h
    exact ⟨rfl, v, by simp [Relation.fields], hv⟩
  · rintro rel _ rest ⟨rfl, v, rfl, hv⟩
    simp only [relation, Relation.fields, List.flatten_cons, List.flatten_nil, List.append_nil, List.append_assoc,
      uint32_bind, string_bind, List.cons_append, List.nil_append, uint8_bind]
    rw [← List.append_assoc]
    exact (counted16_exact _ column_exact).read_bind ⟨v, rfl, hv⟩

lemma update_sound : Sound (body xid .update) fun m used rest => Laid xid .update m used ∧ m.Closed rest := by
  refine uint32_exact.field fun rel => uint8_exact.field fun k => (oldImage_exact k).bind fun old u => .cond
    (fun hnew => tuple_exact.field fun new => .pure fun _ h => ?_) fun _ => .fail _
  obtain ⟨old, k'⟩ := old
  obtain rfl : k' = 'N'.toUInt8 := hnew
  refine ⟨?_, trivial⟩
  have hlaid : Laid xid .update (.update xid rel old new) _ := .update
  rcases h with ⟨i, rfl, hbytes⟩ | ⟨h, rfl, -, -⟩
  · have hk : ∀ x, k :: (u ++ x) = i.bytes ++ 'N'.toUInt8 :: x := by
      intro x
      rw [← List.cons_append, hbytes, List.append_assoc]
      rfl
    simpa [wold, hk] using hlaid
  · cases h
    exact hlaid

lemma truncate_sound : Sound (body xid .truncate) fun m used rest => Laid xid .truncate m used ∧ m.Closed rest := by
  refine uint32_exact.field fun n => uint8_exact.field fun opts => (times_exact uint32_exact n.toNat).bind fun ids u =>
    .pure fun _ hids => ⟨?_, trivial⟩
  have h : Laid xid .truncate
      (.truncate xid (opts &&& 1 != 0) (opts &&& 2 != 0) ⟨ids.1, by rw [ids.2]; exact n.toNat_lt⟩) _ := .truncate rfl rfl
  rw [sequence_iff.mp hids]
  simpa [ids.2, w32] using h

lemma streamAbort_sound :
    Sound (body xid .streamAbort) fun m used rest => Laid xid .streamAbort m used ∧ m.Closed rest := by
  refine uint32_exact.field fun x => uint32_exact.field fun sub => abort_exact.bind fun a u => .pure fun rest h => ?_
  obtain ⟨rfl, ha⟩ := h
  refine ⟨.streamAbort, ?_⟩
  cases a with
  | none => exact ha rfl
  | some y => trivial

/-- Of a message of any kind, what is read is what the layout says. -/
lemma body_sound (xid : UInt32) (t : Tag) :
    Sound (body xid t) fun m used rest => Laid xid t m used ∧ m.Closed rest := by
  cases t with
  | begin =>
    exact uint64_exact.field fun _ => micros_exact.field fun _ => uint32_exact.field fun _ => .pure fun _ => ⟨.begin, trivial⟩
  | commit => exact commit_sound fun _ _ _ _ _ => ⟨.commit, trivial⟩
  | origin => exact uint64_exact.field fun _ => string_exact.field fun _ => .pure fun _ => ⟨.origin, trivial⟩
  | relation =>
    refine relation_exact.bind fun rel u => .pure fun _ h => ⟨?_, trivial⟩
    obtain ⟨hxid, v, rfl, hv⟩ := h
    rw [List.append_nil]
    exact .relation hxid hv
  | type =>
    exact uint32_exact.field fun _ => string_exact.field fun _ => string_exact.field fun _ => .pure fun _ => ⟨.type, trivial⟩
  | insert =>
    refine uint32_exact.field fun rel => uint8_exact.field fun k => .cond (fun hk => ?_) fun _ => .fail _
    rw [hk]
    exact tuple_exact.field fun new => .pure fun _ => ⟨.insert, trivial⟩
  | update => exact update_sound
  | delete =>
    refine uint32_exact.field fun rel => uint8_exact.field fun k => .cond (fun hk => ?_) fun _ =>
      .cond (fun hk => ?_) fun _ => .fail _
    · rw [hk]
      exact tuple_exact.field fun t => .pure fun _ => ⟨(.delete : Laid xid .delete (.delete xid rel (.key t)) _), trivial⟩
    · rw [hk]
      exact tuple_exact.field fun t => .pure fun _ => ⟨(.delete : Laid xid .delete (.delete xid rel (.old t)) _), trivial⟩
  | truncate => exact truncate_sound
  | logicalMessage =>
    exact uint8_exact.field fun _ => uint64_exact.field fun _ => string_exact.field fun _ => bytes_exact.field fun _ =>
      .pure fun _ => ⟨.logicalMessage rfl, trivial⟩
  | streamStart => exact uint32_exact.field fun _ => uint8_exact.field fun _ => .pure fun _ => ⟨.streamStart rfl, trivial⟩
  | streamStop => exact .pure fun _ => ⟨.streamStop, trivial⟩
  | streamCommit => exact uint32_exact.field fun _ => commit_sound fun _ _ _ _ _ => ⟨.streamCommit, trivial⟩
  | streamAbort => exact streamAbort_sound
  | beginPrepare =>
    exact uint64_exact.field fun _ => uint64_exact.field fun _ => micros_exact.field fun _ => uint32_exact.field fun _ =>
      string_exact.field fun _ => .pure fun _ => ⟨.beginPrepare, trivial⟩
  | prepare => exact prepared_sound fun _ _ _ _ _ _ _ => ⟨.prepare, trivial⟩
  | commitPrepared => exact prepared_sound fun _ _ _ _ _ _ _ => ⟨.commitPrepared, trivial⟩
  | rollbackPrepared =>
    refine uint8_exact.field fun flags => uint64_exact.field fun lsn => uint64_exact.field fun fin =>
      micros_exact.field fun t => micros_exact.field fun t' => uint32_exact.field fun x => string_exact.field fun gid =>
      .pure fun _ => ⟨?_, trivial⟩
    have h : Laid xid .rollbackPrepared (.rollbackPrepared flags lsn fin t t' x gid) _ := .rollbackPrepared
    simpa [wprepared] using h
  | streamPrepare => exact prepared_sound fun _ _ _ _ _ _ _ => ⟨.streamPrepare, trivial⟩

lemma body_read (h : Laid xid t m used) (hclosed : m.Closed rest) : body xid t (used ++ rest) = .ok (m, rest) := by
  cases h with
  | @relation rel v hxid hcols => exact relation_exact.read_bind ⟨hxid, v, rfl, hcols⟩
  | @update rel old new =>
    rcases old with _ | t | t <;> simp +decide [-bind_pure_comp, body, update, wold, Image.bytes, oldImage]
  | @delete rel old => cases old <;> simp +decide [-bind_pure_comp, body, delete, Image.bytes]
  | @truncate opts cascade restart rels hcascade hrestart =>
    obtain ⟨rels, hlt⟩ := rels
    have hn : (UInt32.ofNat rels.length).toNat = rels.length := UInt32.toNat_ofNat_of_lt hlt
    have hw : be 4 rels.length = w32 (UInt32.ofNat rels.length) := by rw [w32, hn]
    simp only [body, truncate, hw, List.flatten_cons, List.flatten_nil, List.append_nil, List.append_assoc, uint32_bind,
      List.cons_append, List.nil_append, uint8_bind, hcascade, hrestart]
    exact (times_exact uint32_exact _).read_bind (a := ⟨rels, hn.symm⟩) (sequence_iff.mpr rfl)
  | @streamAbort x sub a =>
    simp only [body, List.flatten_cons, List.flatten_nil, List.append_nil, List.append_assoc, uint32_bind]
    refine abort_exact.read_bind ⟨rfl, ?_⟩
    rintro rfl
    exact hclosed
  | _ => subst_vars; simp [-bind_pure_comp, body, commit, prepared, insert, wprepared]

lemma changeXid_exact (inStream : Bool) (t : Tag) : Exact (changeXid inStream t) fun xid used _ =>
      ((inStream && t.streamed) = false → xid = 0) ∧ used = xidBytes inStream t xid := by
  unfold changeXid xidBytes
  cases inStream && t.streamed with
  | true => simpa using uint32_exact
  | false =>
    refine .intro (.pure fun _ => ⟨fun _ => rfl, rfl⟩) ?_
    rintro xid _ rest ⟨hxid, rfl⟩
    rw [hxid rfl]
    rfl

lemma message_exact (inStream : Bool) :
    Exact (message inStream) fun m used rest => m.Lays inStream used ∧ m.Closed rest := by
  refine .intro (uint8_exact.field fun b => ?_) ?_
  · unfold kind
    cases hb : Tag.ofByte b with
    | none => exact .fail _
    | some t =>
      rw [Tag.ofByte_eq_some.mp hb]
      refine (changeXid_exact inStream t).bind fun xid u => (body_sound xid t).imp fun m v rest h hx => ?_
      obtain ⟨hxid, rfl⟩ := hx
      exact ⟨⟨t, xid, v, hxid, rfl, h.1⟩, h.2⟩
  · rintro m _ rest ⟨⟨t, xid, v, hxid, rfl, hlaid⟩, hclosed⟩
    simp only [message, kind, List.cons_append, List.append_assoc, uint8_bind, Tag.ofByte_eq_some.mpr rfl]
    exact ((changeXid_exact inStream t).read_bind ⟨hxid, rfl⟩).trans (body_read hlaid hclosed)

end Read

end PgShard.Pgoutput
