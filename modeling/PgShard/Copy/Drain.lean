import PgShard.Copy.Split

/-!
# The rows of a whole stream

What the splitter yields does not depend on how the stream was cut into chunks, and the rows put
together are the stream.
-/

namespace PgShard.Copy

open Key

namespace Splitter

/-- `Next` until it has no whole row: the rows, and the splitter then or the error it stopped with. -/
def drain (s : Splitter) : List Row × Except SplitError Splitter :=
  match h : s.next with
  | .error e => ([], .error e)
  | .ok (none, s') => ([], .ok s')
  | .ok (some row, s') =>
    have := next_shorter h
    (row :: (drain s').1, (drain s').2)
termination_by s.buf.length

/-- Every chunk is written and the rows it completes are taken; then the stream ends. -/
def feed (s : Splitter) : List Bytes → List Row × Option SplitError
  | [] =>
    match s.finish.drain with
    | (rows, .error e) => (rows, some e)
    | (rows, .ok _) => (rows, none)
  | data :: chunks =>
    match (s.write data).drain with
    | (rows, .error e) => (rows, some e)
    | (rows, .ok s') => (rows ++ (feed s' chunks).1, (feed s' chunks).2)

end Splitter

/-- The rows a fresh splitter yields for a stream that arrives in these chunks, and the error it ends
with. -/
def yields (keyCol cols : Nat) (chunks : List Bytes) : List Row × Option SplitError :=
  Splitter.feed { keyCol := keyCol, cols := cols } chunks

lemma rowEnd_escape (ended : Bool) (eol : Eol) (i : Nat) (c : UInt8) (rest : Bytes) :
    rowEnd ended eol i (92 :: c :: rest) = rowEnd ended eol (i + 2) rest := by
  rw [rowEnd.eq_def]
  rfl

lemma rowEnd_plain {c : UInt8} (hback : c ≠ 92) (hnl : c ≠ 10) (hcr : c ≠ 13) (ended : Bool)
    (eol : Eol) (i : Nat) (rest : Bytes) : rowEnd ended eol i (c :: rest) = rowEnd ended eol (i + 1) rest := by
  rw [rowEnd.eq_def]
  simp only [if_neg hback, if_neg hnl, if_neg hcr]

lemma rowEnd_none {ended : Bool} {eol eol' : Eol} {i : Nat} {b : Bytes}
    (h : rowEnd ended eol i b = .ok (none, eol')) : eol' = eol := by
  fun_induction rowEnd ended eol i b <;> simp_all

lemma rowEnd_le {ended : Bool} {eol eol' : Eol} {i n : Nat} {b : Bytes}
    (h : rowEnd ended eol i b = .ok (some n, eol')) : n ≤ i + b.length := by
  fun_induction rowEnd ended eol i b <;> simp_all <;> omega

/-- What was decided about a buffer stays when more of the stream arrives, or none. -/
lemma rowEnd_more {eol : Eol} {i : Nat} {b : Bytes} (ended : Bool) (more : Bytes)
    (h : ∀ eol', rowEnd false eol i b ≠ .ok (none, eol')) : rowEnd ended eol i (b ++ more) = rowEnd false eol i b := by
  fun_induction rowEnd false eol i b with
  | case3 i c rest ih =>
    rw [List.cons_append, List.cons_append, rowEnd_escape]
    exact ih h
  | case18 i c rest hback hnl hcr ih =>
    rw [List.cons_append, rowEnd_plain hback hnl hcr]
    exact ih h
  | _ => unfold rowEnd; simp_all

namespace Splitter

/-- The splitter with more of its stream, or all of it. -/
def more (s : Splitter) (data : Bytes) (ended : Bool) : Splitter := { s with buf := s.buf ++ data, ended := ended }

variable {s s' : Splitter} {data : Bytes} {ended : Bool}

variable {n : Nat} {row : Option Row}

lemma cut_more (hn : n ≤ s.buf.length) (data : Bytes) (ended : Bool) :
    (s.more data ended).cut n = (s.cut n).map fun p => (p.1, p.2.more data ended) := by
  have htake : (s.buf ++ data).take n = s.buf.take n := List.take_append_of_le_length hn
  have hdrop : (s.buf ++ data).drop n = s.buf.drop n ++ data := List.drop_append_of_le_length hn
  unfold cut
  simp only [more, htake, hdrop]
  by_cases hm : isMarker (s.buf.take n) = true
  · simp [hm, Except.map]
  · simp only [hm]
    cases column (s.buf.take n) s.keyCol s.cols with
    | error e => rfl
    | ok p => rfl

lemma cut_ended (h : s.cut n = .ok (row, s')) : s'.ended = s.ended := by
  unfold cut at h
  dsimp only at h
  split at h
  · cases h
    rfl
  · split at h
    · cases h
    · cases h
      rfl

lemma cut_some (h : s.cut n = .ok (row, s')) : row ≠ none := by
  unfold cut at h
  dsimp only at h
  split at h
  · cases h
    simp
  · split at h
    · cases h
    · cases h
      simp

/-- A splitter that still waits for data has moved nothing when it has no whole row. -/
lemma next_none (hs : s.ended = false) (h : s.next = .ok (none, s')) : s' = s := by
  unfold next at h
  split at h
  · cases h
  · exact absurd rfl (cut_some h)
  · rename_i eol hend
    rw [rowEnd_none hend] at h
    simp only [hs, Bool.false_and, Bool.false_eq_true, if_false] at h
    cases h
    rw [← hs]

/-- A row or an error that came out comes out the same with more of the stream behind it. -/
lemma next_more (hs : s.ended = false) (h : ∀ s', s.next ≠ .ok (none, s')) (data : Bytes) (ended : Bool) :
    (s.more data ended).next = s.next.map fun p => (p.1, p.2.more data ended) := by
  have hkept := @rowEnd_more s.eol 0 s.buf ended data
  unfold next at h ⊢
  rw [hs] at h ⊢
  cases hend : rowEnd false s.eol 0 s.buf with
  | error e =>
    rw [hend] at hkept
    simp [more, hkept, Except.map]
  | ok found =>
    obtain ⟨found, eol⟩ := found
    rw [hend] at hkept h
    cases found with
    | none => simp at h
    | some n =>
      have hn : n ≤ s.buf.length := by simpa using rowEnd_le hend
      have hcut := cut_more (s := { s with eol := eol, ended := false }) hn data ended
      simpa [more, hkept] using hcut

lemma next_ended (h : s.next = .ok (row, s')) : s'.ended = s.ended := by
  unfold next at h
  split at h
  · cases h
  · exact (cut_ended h :)
  · split at h
    · exact (cut_ended h :)
    · cases h
      rfl

lemma drain_error {e : SplitError} (h : s.next = .error e) : s.drain = ([], .error e) := by
  rw [drain]
  split <;> simp_all

lemma drain_none (h : s.next = .ok (none, s')) : s.drain = ([], .ok s') := by
  rw [drain]
  split <;> simp_all

lemma drain_some {row : Row} (h : s.next = .ok (some row, s')) : s.drain = (row :: s'.drain.1, s'.drain.2) := by
  rw [drain]
  split <;> simp_all

/-- Draining what is there and then the rest yields what draining all of it yields. -/
lemma drain_more (hs : s.ended = false) (data : Bytes) (ended : Bool) : (s.more data ended).drain =
      match s.drain.2 with
      | .error e => (s.drain.1, .error e)
      | .ok s' => (s.drain.1 ++ (s'.more data ended).drain.1, (s'.more data ended).drain.2) := by
  fun_induction drain s with
  | case1 s e h =>
    have hnext := next_more hs (by simp [h]) data ended
    rw [h] at hnext
    exact drain_error hnext
  | case2 s s' h => simp [next_none hs h]
  | case3 s row s' h _ ih =>
    have hnext := next_more hs (by simp [h]) data ended
    rw [h] at hnext
    rw [drain_some hnext, ih ((next_ended h).trans hs)]
    cases s'.drain.2 with
    | error e => rfl
    | ok s' => rfl

lemma drain_ok_ended (h : s.drain.2 = .ok s') : s'.ended = s.ended := by
  fun_induction drain s with
  | case1 s e hnext => cases h
  | case2 s s₁ hnext =>
    cases h
    exact next_ended hnext
  | case3 s row s₁ hnext _ ih => exact (ih h).trans (next_ended hnext)

/-- The chunks as one. -/
lemma feed_eq_drain (hs : s.ended = false) (chunks : List Bytes) :
    s.feed chunks = ((s.more chunks.flatten true).drain.1,
      match (s.more chunks.flatten true).drain.2 with
      | .error e => some e
      | .ok _ => none) := by
  induction chunks generalizing s with
  | nil =>
    have hfinish : s.more [].flatten true = s.finish := by simp [more, finish]
    rw [hfinish, feed]
    cases hd : s.finish.drain with
    | mk rows res => cases res <;> rfl
  | cons data chunks ih =>
    have hwrite : s.more (data :: chunks).flatten true = (s.write data).more chunks.flatten true := by
      simp [more, write]
    rw [hwrite, drain_more (s := s.write data) hs, feed]
    cases hd : (s.write data).drain with
    | mk rows res =>
      cases res with
      | error e => rfl
      | ok s' =>
        have hs' : s'.ended = false := (drain_ok_ended (s := s.write data) (by rw [hd])).trans hs
        simp only [ih hs']

lemma cut_bytes {row : Row} (h : s.cut n = .ok (some row, s')) : s.buf = row.bytes ++ s'.buf := by
  unfold cut at h
  dsimp only at h
  split at h
  · cases h
    exact (List.take_append_drop n s.buf).symm
  · split at h
    · cases h
    · cases h
      exact (List.take_append_drop n s.buf).symm

lemma next_bytes {row : Row} (h : s.next = .ok (some row, s')) : s.buf = row.bytes ++ s'.buf := by
  unfold next at h
  split at h
  · cases h
  · exact (cut_bytes h :)
  · split at h
    · exact (cut_bytes h :)
    · cases h

lemma next_none_ended (hs : s.ended = true) (h : s.next = .ok (none, s')) : s.buf = [] := by
  unfold next at h
  split at h
  · cases h
  · exact absurd rfl (cut_some h)
  · split at h
    · exact absurd rfl (cut_some h)
    · rename_i hempty
      simpa [hs] using hempty

/-- The rows stand in the buffer one after the other; once the stream has ended without an error they
are all of it. -/
lemma drain_bytes (s : Splitter) : ∃ left, s.buf = s.drain.1.flatMap Row.bytes ++ left ∧
    (s.ended = true → ∀ s', s.drain.2 = .ok s' → left = []) := by
  fun_induction drain s with
  | case1 s e h => exact ⟨s.buf, rfl, by simp⟩
  | case2 s s' h => exact ⟨s.buf, rfl, fun hs _ _ => next_none_ended hs h⟩
  | case3 s row s' h _ ih =>
    obtain ⟨left, hbuf, hall⟩ := ih
    refine ⟨left, ?_, fun hs => hall ((next_ended h).trans hs)⟩
    rw [next_bytes h, hbuf]
    simp

end Splitter

/-- What the splitter yields depends on the bytes of the stream only. -/
lemma yields_eq (keyCol cols : Nat) (chunks : List Bytes) :
    yields keyCol cols chunks = yields keyCol cols [chunks.flatten] := by
  simp only [yields]
  rw [Splitter.feed_eq_drain rfl, Splitter.feed_eq_drain rfl]
  simp

/-- The rows of a stream, put together, are its bytes up to an error, and all of them without one. -/
theorem rows_are_stream (keyCol cols : Nat) (chunks : List Bytes) : ∃ left,
    chunks.flatten = (yields keyCol cols chunks).1.flatMap Row.bytes ++ left ∧
      ((yields keyCol cols chunks).2 = none → left = []) := by
  obtain ⟨left, hbuf, hall⟩ := Splitter.drain_bytes (Splitter.more { keyCol, cols } chunks.flatten true)
  rw [yields, Splitter.feed_eq_drain rfl]
  refine ⟨left, hbuf, fun hok => ?_⟩
  split at hok
  · cases hok
  · exact hall rfl _ ‹_›

end PgShard.Copy
