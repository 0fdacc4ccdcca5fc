import PgShard.Pgoutput.Exactness

/-!
# What the decoder makes of what a server sends

Every laid out message is read back. Two things are lost: a time whose nanoseconds do not fit an `int64` comes out as
another time, and bytes after the end of a message are passed over.
-/

namespace PgShard.Pgoutput

open Wire

/-- Nanoseconds since the start of 2000. -/
def instant (micros : Int64) : Int := micros.toInt * 1000

def InRange (micros : Int64) : Prop := -2 ^ 63 ≤ instant micros ∧ instant micros < 2 ^ 63

lemma pgTime_eq_instant_iff (micros : Int64) : pgTime micros = instant micros ↔ InRange micros := by
  have h1000 : (1000 : Int64).toInt = 1000 := rfl
  simp only [pgTime, instant, InRange, Int64.toInt_mul, h1000, Int.bmod_def]
  split <;> omega

namespace Message

lemma map_eq_map_iff {T T' : Type} {f g : T → T'} (m : Message T) : m.map f = m.map g ↔ ∀ t ∈ m.times, f t = g t := by
  cases m with
  | streamAbort xid sub aborted => cases aborted <;> simp [map, times]
  | _ => simp [map, times]

lemma inStream_after (d : Decoder) (m : Message Int64) : (d.after m).inStream = m.inStreamAfter d.inStream := by
  cases m <;> rfl

lemma closed_nil (m : Message Int64) : m.Closed [] := by
  unfold Closed
  split
  · exact Nat.succ_pos _
  · trivial

end Message

open Message

lemma Decoder.decode_encode {d : Decoder} {m : Message Int64} (h : d.inStream = false → m.changeXid = 0) :
    d.decode (m.encode d.inStream) = .ok (m.map pgTime, d.after m) := by
  have hread := (Read.message_exact d.inStream).read ⟨encode_lays h, m.closed_nil⟩
  rw [List.append_nil] at hread
  rw [decode, hread]

lemma Decoder.decodeAll_encodeAll {d : Decoder} {ms : List (Message Int64)} (h : Framed d.inStream ms) :
    d.decodeAll (encodeAll d.inStream ms) = .ok (ms.map (·.map pgTime)) := by
  induction ms generalizing d with
  | nil => rfl
  | cons m ms ih =>
    have hms := ih (d := d.after m) (by rw [inStream_after]; exact h.2)
    rw [inStream_after] at hms
    rw [encodeAll, decodeAll, decode_encode h.1]
    change (do let ms ← (d.after m).decodeAll _; Except.ok (m.map pgTime :: ms)) = _
    rw [hms]
    rfl

lemma exists_w64 (bs : Bytes) (h : bs.length = 8) : ∃ x, bs = w64 x := by
  have hlt : value bs < 2 ^ 64 := by
    have hvalue := value_lt bs
    rw [h] at hvalue
    exact hvalue
  have hto : (UInt64.ofNat (value bs)).toNat = value bs := UInt64.toNat_ofNat_of_lt hlt
  refine ⟨UInt64.ofNat (value bs), ?_⟩
  rw [w64, hto, ← h, be_value]

lemma exists_wabort (bs : Bytes) (h : bs.length = 16) : ∃ lsn t, bs = wabort (some (lsn, t)) := by
  obtain ⟨lsn, hlsn⟩ := exists_w64 (bs.take 8) (by simp [h])
  obtain ⟨t, ht⟩ := exists_w64 (bs.drop 8) (by simp [h])
  refine ⟨lsn, t.toInt64, ?_⟩
  change bs = w64 lsn ++ w64 t
  rw [← hlsn, ← ht, List.take_append_drop]

/-- Whatever follows a laid out message, a message is read. -/
lemma exists_read {inStream : Bool} {m : Message Int64} {used : Bytes} (h : m.Lays inStream used) (rest : Bytes) :
    ∃ m' rest', Read.message inStream (used ++ rest) = .ok (m', rest') := by
  by_cases hclosed : m.Closed rest
  · exact ⟨m, rest, (Read.message_exact inStream).read ⟨h, hclosed⟩⟩
  · obtain ⟨t, xid, v, hxid, rfl, hlaid⟩ := h
    cases hlaid with
    | @streamAbort x sub aborted =>
      cases aborted with
      | some y => exact absurd trivial hclosed
      | none =>
        have hlen : 16 ≤ rest.length := Nat.not_lt.mp hclosed
        obtain ⟨lsn, t, htake⟩ := exists_wabort (rest.take 16) (by simp [hlen])
        have hlong : Lays inStream (.streamAbort x sub (some (lsn, t)))
            (Tag.streamAbort.byte :: (xidBytes inStream .streamAbort xid ++ [w32 x, w32 sub, rest.take 16].flatten)) :=
          ⟨_, xid, _, hxid, rfl, htake ▸ .streamAbort⟩
        have hread : Read.message inStream (_ ++ rest.drop 16) = _ :=
          (Read.message_exact inStream).read ⟨hlong, trivial⟩
        refine ⟨.streamAbort x sub (some (lsn, t)), rest.drop 16, ?_⟩
        simpa [wabort] using hread
    | _ => exact absurd trivial hclosed

/-- The decoder refuses the bytes or reads all of them. -/
def Decoder.Settles (d : Decoder) (data : Bytes) : Prop :=
  (∃ e, d.decode data = .error e) ∨ ∃ m, Read.message d.inStream data = .ok (m, [])

lemma Decoder.settles_iff (d : Decoder) (data : Bytes) : d.Settles data ↔
      (∃ m, Lays d.inStream m data) ∨ ¬ ∃ m used rest, data = used ++ rest ∧ Lays d.inStream m used := by
  cases hread : Read.message d.inStream data with
  | error e =>
    constructor
    · rintro -
      right
      rintro ⟨m, used, rest, rfl, h⟩
      obtain ⟨m', rest', hok⟩ := exists_read h rest
      rw [hread] at hok
      cases hok
    · rintro -
      exact .inl ⟨e, by rw [decode, hread]⟩
  | ok x =>
    obtain ⟨m, rest⟩ := x
    obtain ⟨used, hdata, hlays, -⟩ := (Read.message_exact d.inStream data m rest).mp hread
    constructor
    · rintro (⟨e, he⟩ | ⟨m', hm'⟩)
      · rw [decode, hread] at he
        cases he
      · rw [hread] at hm'
        cases hm'
        rw [List.append_nil] at hdata
        exact .inl ⟨m, hdata ▸ hlays⟩
    · rintro (⟨m', hm'⟩ | hno)
      · have hall := (Read.message_exact d.inStream).read ⟨hm', m'.closed_nil⟩
        rw [List.append_nil] at hall
        exact .inr ⟨m', hall⟩
      · exact absurd ⟨m, used, rest, hdata, hlays⟩ hno

/-- Messages are read back as they were sent if and only if their times are within 292 years of 2000; bytes are refused
or read to the end if and only if they are a message as a whole or do not start with one; and nothing is read past the
end. -/
theorem decode_faithful_iff (d : Decoder) : (∀ ms : List (Message Int64), Framed d.inStream ms →
      (d.decodeAll (encodeAll d.inStream ms) = .ok (ms.map (·.map instant)) ↔ ∀ m ∈ ms, ∀ t ∈ m.times, InRange t)) ∧
    (∀ data : Bytes, d.Settles data ↔
      (∃ m, Lays d.inStream m data) ∨ ¬ ∃ m used rest, data = used ++ rest ∧ Lays d.inStream m used) ∧
    ∀ (data rest : Bytes) (m : Message Int64),
      Read.message d.inStream data = .ok (m, rest) → rest.IsSuffix data := by
  refine ⟨fun ms h => ?_, d.settles_iff, fun data rest m h => ?_⟩
  · rw [d.decodeAll_encodeAll h, Except.ok.injEq, List.map_inj_left]
    simp only [map_eq_map_iff, pgTime_eq_instant_iff]
  · exact (Read.message_exact d.inStream).suffix h

/-- A byte after the end of a stream stop is passed over, and a transaction that commits 571 years after 2000 is decoded
as one that committed before 2000. -/
theorem decode_unfaithful : (Decoder.new.decode ['E'.toUInt8, 0] = .ok (.streamStop, Decoder.new) ∧
      Read.message false ['E'.toUInt8, 0] = .ok (.streamStop, [0])) ∧
    Decoder.new.decodeAll (encodeAll false [.begin 0 (2 ^ 54) 7]) = .ok [.begin 0 (-432345564227567616) 7] ∧
      instant (2 ^ 54) = 18014398509481984000 := by
  refine ⟨⟨rfl, rfl⟩, ?_, rfl⟩
  have h : Framed Decoder.new.inStream [.begin 0 (2 ^ 54) 7] := ⟨fun _ => rfl, trivial⟩
  exact Decoder.decodeAll_encodeAll h

end PgShard.Pgoutput
