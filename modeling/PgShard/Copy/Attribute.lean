import PgShard.Copy.Conserved
import PgShard.Copy.Escape

/-!
# The key the router reads and the value PostgreSQL stores

Row for row, the splitter's key against the attribute PostgreSQL reads out of the same stream.
-/

namespace PgShard.Copy

open Key Postgres

/-- PostgreSQL and the splitter see the same end of the first row. -/
lemma rowEnd_line {eol eol' : Eol} {seen b content rest : Bytes} (i : Nat)
    (h : copyReadLine eol seen b = .ok (.line content eol' rest)) :
    ∃ body ending, content = seen ++ body ∧ b = body ++ ending ++ rest ∧ closed body = true ∧
      quiet body = true ∧ (ending = [10] ∨ ending = [13] ∨ ending = [13, 10]) ∧
      rowEnd true eol i b = .ok (some (i + (body.length + ending.length)), eol') := by
  fun_induction copyReadLine eol seen b generalizing i with
  | case2 | case3 =>
    cases h
    exact ⟨[], [13, 10], by simp, rfl, rfl, rfl, by simp, by rw [rowEnd.eq_def]; simp [*]⟩
  | case4 line rest hno heol =>
    cases h
    refine ⟨[], [13], by simp, rfl, rfl, rfl, by simp, ?_⟩
    rw [rowEnd.eq_def, heol]
    cases rest with
    | nil => rfl
    | cons d rest =>
      have hd : d ≠ 10 := fun heq => hno rest (by rw [heq])
      simp [hd]
  | case7 =>
    cases h
    exact ⟨[], [13], by simp, rfl, rfl, rfl, by simp, by rw [rowEnd.eq_def]; simp [*]⟩
  | case10 | case11 =>
    cases h
    exact ⟨[], [10], by simp, rfl, rfl, rfl, by simp, by rw [rowEnd.eq_def]; simp [*]⟩
  | case13 => cases endOfCopy_ok h
  | case14 line d rest hd _ _ ih =>
    obtain ⟨body, ending, rfl, rfl, hclosed, hquiet, hending, hend⟩ := ih (i + 2) h
    refine ⟨92 :: d :: body, ending, by simp, by simp, ?_, ?_, hending, ?_⟩
    · rw [closed_escape]
      exact hclosed
    · rw [quiet_escape]
      exact hquiet
    · rw [rowEnd_escape, hend]
      simp only [List.length_cons]
      congr 3
      omega
  | case15 line c rest hcr hnl hback ih =>
    obtain ⟨body, ending, rfl, rfl, hclosed, hquiet, hending, hend⟩ := ih (i + 1) h
    refine ⟨c :: body, ending, by simp, by simp, ?_, ?_, hending, ?_⟩
    · rw [closed_plain hback]
      exact hclosed
    · rw [quiet_plain hback]
      simp [hcr, hnl, hquiet]
    · rw [rowEnd_plain hback hnl hcr, hend]
      simp only [List.length_cons]
      congr 3
      omega
  | _ => cases h

lemma rowEnd_last {eol : Eol} {seen b content : Bytes} (i : Nat) (h : copyReadLine eol seen b = .ok (.last content)) :
    content = seen ++ b ∧ quiet b = true ∧ rowEnd true eol i b = .ok (none, eol) := by
  fun_induction copyReadLine eol seen b generalizing i with
  | case1 =>
    cases h
    exact ⟨by simp, rfl, rfl⟩
  | case12 =>
    cases h
    exact ⟨rfl, rfl, by rw [rowEnd.eq_def]; rfl⟩
  | case13 => cases endOfCopy_ok h
  | case14 line d rest hd _ _ ih =>
    obtain ⟨rfl, hquiet, hend⟩ := ih (i + 2) h
    exact ⟨by simp, by rw [quiet_escape]; exact hquiet, by rw [rowEnd_escape]; exact hend⟩
  | case15 line c rest hcr hnl hback ih =>
    obtain ⟨rfl, hquiet, hend⟩ := ih (i + 1) h
    refine ⟨by simp, ?_, by rw [rowEnd_plain hback hnl hcr]; exact hend⟩
    rw [quiet_plain hback]
    simp [hcr, hnl, hquiet]
  | _ => cases h

/-- What PostgreSQL has as the line of a row: the row without its line ending, or all of a row that
has none. -/
inductive LineOf : Bytes → Bytes → Prop
  | ended {content ending : Bytes} (hclosed : closed content = true) (hquiet : quiet content = true)
      (hending : ending = [10] ∨ ending = [13] ∨ ending = [13, 10]) :
      LineOf (content ++ ending) content
  | last {content : Bytes} (hquiet : quiet content = true) : LineOf content content

lemma cut_row {s s' : Splitter} {n : Nat} {row : Row} (h : s.cut n = .ok (some row, s')) :
    row.bytes = s.buf.take n ∧ s' = { s with buf := s.buf.drop n } ∧
      (isRow row = true → column row.bytes s.keyCol s.cols = .ok (row.key, row.keyIsNull)) := by
  unfold Splitter.cut at h
  dsimp only at h
  split at h
  · rename_i hm
    cases h
    exact ⟨rfl, rfl, fun hrow => by simp [isRow, hm] at hrow⟩
  · split at h
    · cases h
    · rename_i hcol
      cases h
      exact ⟨rfl, rfl, fun _ => hcol⟩

lemma drain_head {s : Splitter} {i : Nat} {row : Row} (h : s.drain.1[i]? = some row) :
    ∃ first s', s.next = .ok (some first, s') ∧ s.drain.1 = first :: s'.drain.1 := by
  cases hnext : s.next with
  | error e => simp [Splitter.drain_error hnext] at h
  | ok p =>
    obtain ⟨first, s'⟩ := p
    cases first with
    | none => simp [Splitter.drain_none hnext] at h
    | some first => exact ⟨first, s', rfl, by rw [Splitter.drain_some hnext]⟩

/-- The first row, where PostgreSQL reads a line with its line ending. -/
lemma next_line {s s' : Splitter} (hs : s.ended = true) {first : Row} {content rest : Bytes}
    {eol : Eol} (hread : copyReadLine s.eol [] s.buf = .ok (.line content eol rest))
    (hnext : s.next = .ok (some first, s')) : LineOf first.bytes content ∧ s' = { s with eol := eol, buf := rest } ∧
      (isRow first = true → column first.bytes s.keyCol s.cols = .ok (first.key, first.keyIsNull)) := by
  obtain ⟨body, ending, hcontent, hbuf, hclosed, hquiet, hending, hend⟩ := rowEnd_line 0 hread
  rw [List.nil_append] at hcontent
  subst hcontent
  unfold Splitter.next at hnext
  rw [hs, hend] at hnext
  have hn : 0 + (content.length + ending.length) = (content ++ ending).length := by simp
  simp only [hn] at hnext
  obtain ⟨hbytes, hs', hcol⟩ := cut_row hnext
  simp only [hbuf, List.take_left, List.drop_left] at hbytes hs'
  refine ⟨?_, ?_, hcol⟩
  · rw [hbytes]
    exact .ended hclosed hquiet hending
  · rw [hs', hs]

/-- The first row, where PostgreSQL reads up to the end of the input. -/
lemma next_last {s s' : Splitter} (hs : s.ended = true) {first : Row} {content : Bytes}
    (hread : copyReadLine s.eol [] s.buf = .ok (.last content)) (hnext : s.next = .ok (some first, s')) :
    LineOf first.bytes content ∧
      (isRow first = true → column first.bytes s.keyCol s.cols = .ok (first.key, first.keyIsNull)) := by
  obtain ⟨hcontent, hquiet, hend⟩ := rowEnd_last 0 hread
  rw [List.nil_append] at hcontent
  subst hcontent
  unfold Splitter.next at hnext
  rw [hs, hend] at hnext
  split at hnext
  · cases hnext
  · simp at *
  · split at hnext
    · obtain ⟨hbytes, -, hcol⟩ := cut_row hnext
      refine ⟨?_, hcol⟩
      rw [hbytes, List.take_length]
      exact .last hquiet
    · cases hnext

/-- Row by row, the splitter and PostgreSQL read the stream alike. -/
lemma rows_lines {s : Splitter} (hs : s.ended = true) {i : Nat} {row : Row} {content : Bytes}
    (hrow : s.drain.1[i]? = some row) (hkey : isRow row = true) (hline : (copyLines s.eol s.buf)[i]? = some content) :
    LineOf row.bytes content ∧ column row.bytes s.keyCol s.cols = .ok (row.key, row.keyIsNull) := by
  obtain ⟨first, s', hnext, hdrain⟩ := drain_head hrow
  rw [hdrain] at hrow
  unfold copyLines at hline
  split at hline
  · simp at hline
  · simp at hline
  · rename_i last hread
    split at hline
    · simp at hline
    · -- there is one line left
      cases i with
      | zero =>
        simp only [List.getElem?_cons_zero, Option.some.injEq] at hrow hline
        subst hrow hline
        obtain ⟨hof, hcol⟩ := next_last hs hread hnext
        exact ⟨hof, hcol hkey⟩
      | succ i => simp at hline
  · rename_i line eol rest hread
    obtain ⟨hof, hs', hcol⟩ := next_line hs hread hnext
    cases i with
    | zero =>
      simp only [List.getElem?_cons_zero, Option.some.injEq] at hrow hline
      subst hrow hline
      exact ⟨hof, hcol hkey⟩
    | succ i =>
      subst hs'
      exact rows_lines (s := { s with eol := eol, buf := rest }) hs hrow hkey hline
termination_by i

/-- The value of a field of the router's. -/
def value (raw : Bytes) : Option Bytes := if raw = [92, 78] then none else some (unescape raw)

lemma fieldValue_append (raw stop out : Bytes) :
    fieldValue (raw ++ stop) stop out = if raw = [92, 78] then none else some out := by
  have hlen : (raw ++ stop).length - stop.length = raw.length := by simp
  rw [fieldValue, hlen, List.take_left]

lemma copyReadAttributes_tab (start out cur : Bytes) : copyReadAttributes start out (9 :: cur) =
      fieldValue start (9 :: cur) out :: copyReadAttributes cur [] cur := by
  rw [copyReadAttributes.eq_def]
  rfl

lemma copyReadAttributes_escape (start out : Bytes) (c : UInt8) (cur : Bytes) :
    copyReadAttributes start out (92 :: c :: cur) =
      copyReadAttributes start (out ++ [(escape c cur).1]) (escape c cur).2 := by
  rw [copyReadAttributes.eq_def, ← deescape_eq]
  rfl

lemma copyReadAttributes_plain {c : UInt8} (htab : c ≠ 9) (hback : c ≠ 92) (start out cur : Bytes) :
    copyReadAttributes start out (c :: cur) = copyReadAttributes start (out ++ [c]) cur := by
  rw [copyReadAttributes.eq_def]
  simp only [if_neg htab, if_neg hback]

/-- PostgreSQL's scan from inside a field: `raw` is what it has of the field and `out` what that
stands for. A backslash at the end of the line is dropped. -/
lemma copyReadAttributes_fields {b tail : Bytes} (hb : closed b = true)
    (htail : tail = [] ∨ tail = [92]) (raw out : Bytes) :
    ∃ f fs, (∀ field, fields field b = (field ++ f) :: fs) ∧ copyReadAttributes (raw ++ (b ++ tail)) out (b ++ tail) =
        (if raw ++ f = [92, 78] then none else some (out ++ unescape f)) :: fs.map value := by
  induction hn : b.length using Nat.strongRecOn generalizing b raw out with
  | _ n ih =>
  cases b with
  | nil =>
    refine ⟨[], [], fun field => by simp [fields], ?_⟩
    rcases htail with rfl | rfl
    · rw [List.append_nil, copyReadAttributes, fieldValue_append]
      simp [unescape]
    · rw [List.nil_append, copyReadAttributes.eq_def]
      simp [fieldValue_append, unescape]
  | cons c rest =>
    rw [List.length_cons] at hn
    by_cases htab : c = 9
    · subst htab
      rw [closed_plain (by decide)] at hb
      obtain ⟨f, fs, hfields, hread⟩ := ih rest.length (by omega) hb [] [] rfl
      refine ⟨[], fields [] rest, fun field => by rw [fields_tab]; simp, ?_⟩
      rw [List.nil_append] at hread
      rw [List.cons_append, copyReadAttributes_tab, fieldValue_append, hread, hfields []]
      simp [value, unescape]
    · by_cases hc : c = 92
      · subst hc
        cases rest with
        | nil => cases hb
        | cons d rest =>
          rw [closed_escape] at hb
          obtain ⟨digits, hrest, hhex, hsame⟩ := escape_taken d rest
          have hclosed : closed (escape d rest).2 = true := by
            rw [hrest, closed_digits hhex] at hb
            exact hb
          have hshort := escape_length d rest
          rw [List.length_cons] at hn
          obtain ⟨f, fs, hfields, hread⟩ := ih (escape d rest).2.length (by omega) hclosed
            (raw ++ 92 :: d :: digits) (out ++ [(escape d rest).1]) rfl
          have hstop : StartAlike ((escape d rest).2 ++ tail) (escape d rest).2 := by
            refine .append ?_
            rcases htail with rfl | rfl
            · exact Stops.nil
            · exact stops_cons (by decide) []
          have hline : rest ++ tail = digits ++ ((escape d rest).2 ++ tail) := by
            rw [← List.append_assoc, ← hrest]
          refine ⟨92 :: d :: (digits ++ f), fs, ?_, ?_⟩
          · intro field
            rw [fields_escape, hrest, fields_digits hhex, hfields]
            simp
          · rw [unescape_escape, hsame f (field_startAlike hfields), List.cons_append,
              List.cons_append, copyReadAttributes_escape, hline, hsame _ hstop]
            simpa using hread
      · rw [closed_plain hc] at hb
        obtain ⟨f, fs, hfields, hread⟩ := ih rest.length (by omega) hb (raw ++ [c]) (out ++ [c]) rfl
        refine ⟨c :: f, fs, fun field => by rw [fields_plain hc htab, hfields]; simp, ?_⟩
        rw [unescape_plain hc, List.cons_append, copyReadAttributes_plain htab hc]
        simpa using hread

lemma attributes_closed {b tail : Bytes} (hb : closed b = true) (htail : tail = [] ∨ tail = [92]) :
    attributes (b ++ tail) = (fields [] b).map value := by
  obtain ⟨f, fs, hfields, hread⟩ := copyReadAttributes_fields hb htail [] []
  rw [attributes, hfields []]
  simpa [value] using hread

lemma value_backslash {b : Bytes} (hb : closed b = true) : value (b ++ [92]) = some (unescape b ++ [92]) := by
  have hne : b ++ [92] ≠ [92, 78] := by
    intro heq
    have := congrArg List.getLast? heq
    simp at this
  rw [value, if_neg hne, unescape_append hb (stops_cons (by decide) [])]
  simp [unescape]

lemma value_newline {b : Bytes} (hb : closed b = true) : value (b ++ [92, 10]) = some (unescape b ++ [10]) := by
  have hne : b ++ [92, 10] ≠ [92, 78] := by
    intro heq
    have := congrArg List.getLast? heq
    simp at this
  have hesc : unescape [92, 10] = [10] := by
    rw [unescape_escape]
    simp [escape, isOctal, named, unescape]
  rw [value, if_neg hne, unescape_append hb (stops_cons (by decide) [10]), hesc]

/-- The key of a row, NULL or its text. -/
def Row.keyValue (row : Row) : Option Bytes := if row.keyIsNull then none else some row.key

lemma column_value {b key : Bytes} {n cols : Nat} {null : Bool} (h : column b n cols = .ok (key, null)) :
    (fields [] (line b)).length = cols ∧
      (if null then none else some key) = value ((fields [] (line b)).getD n []) := by
  unfold column at h
  dsimp only at h
  split at h
  · cases h
  · split at h
    · cases h
    · refine ⟨by omega, ?_⟩
      unfold value
      split at h
      · rename_i hnull
        cases h
        rw [if_pos rfl, if_pos hnull]
      · rename_i hnull
        split at h
        · cases h
        · cases h
          rw [if_neg hnull]
          rfl

/-- Two lines that differ in their last field only. -/
lemma lastField_iff {front : List Bytes} {p q : Bytes} {n cols : Nat} (hn : n < cols)
    (hcols : (front ++ [q]).length = cols) (hne : value p ≠ value q) :
    ((front ++ [p]).map value)[n]? = some (value ((front ++ [q]).getD n [])) ↔ ¬n + 1 = cols := by
  rw [List.length_append, List.length_singleton] at hcols
  by_cases hlast : n = front.length
  · subst hlast
    have hlast : ∀ r : Bytes, (front ++ [r])[front.length]? = some r := fun r => by simp
    rw [List.getElem?_map, List.getD_eq_getElem?_getD, hlast, hlast]
    simp [hcols, hne]
  · have hlt : n < front.length := by omega
    refine iff_of_true ?_ (by omega)
    rw [List.getElem?_map, List.getElem?_append_left hlt, List.getD_eq_getElem?_getD,
      List.getElem?_append_left hlt, List.getElem?_eq_getElem hlt]
    rfl

lemma sameFields {found : List Bytes} {n cols : Nat} (hn : n < cols) (hcols : found.length = cols) :
    (found.map value)[n]? = some (value (found.getD n [])) := by
  have hlt : n < found.length := by omega
  rw [List.getElem?_map, List.getD_eq_getElem?_getD, List.getElem?_eq_getElem hlt]
  rfl

/-- A row with its line ending, or whose last byte stands outside an escape. -/
lemma endsInEscape_ended {b ending : Bytes} (hb : closed b = true)
    (hending : ending = [10] ∨ ending = [13] ∨ ending = [13, 10]) : endsInEscape (b ++ ending) = false := by
  unfold endsInEscape
  rcases hending with rfl | rfl | rfl
  · rw [closed_append hb, List.dropLast_concat, hb]
    simp [closed]
  · rw [closed_append hb]
    simp [closed]
  · have happ : b ++ [13, 10] = (b ++ [13]) ++ [10] := by simp
    rw [happ, List.dropLast_concat, closed_snoc, closed_snoc, hb]
    simp

lemma lineOf_iff {b content key : Bytes} {null : Bool} {n cols : Nat} (hn : n < cols)
    (hof : LineOf b content) (hcol : column b n cols = .ok (key, null)) :
    (attributes content)[n]? = some (if null then none else some key) ↔
      ¬(n + 1 = cols ∧ endsInEscape b = true) := by
  obtain ⟨hcols, hvalue⟩ := column_value hcol
  rw [hvalue]
  have hsame : closed content = true → line b = content → endsInEscape b = false →
      ((attributes content)[n]? = some (value ((fields [] (line b)).getD n [])) ↔
        ¬(n + 1 = cols ∧ endsInEscape b = true)) := by
    intro hclosed hline hescape
    rw [hline] at hcols ⊢
    have hattr := attributes_closed hclosed (.inl rfl)
    rw [List.append_nil] at hattr
    rw [hattr, hescape]
    exact iff_of_true (sameFields hn hcols) (by simp)
  cases hof with
  | ended hclosed hquiet hending =>
    refine hsame hclosed ?_ (endsInEscape_ended hclosed hending)
    rcases hending with rfl | rfl | rfl
    · exact line_nl hquiet
    · exact line_cr hclosed
    · exact line_crnl hclosed
  | last hquiet =>
    cases hclosed : closed b with
    | false =>
      -- the backslash at the end is data to the router and dropped by PostgreSQL
      obtain ⟨y, rfl, hy⟩ := not_closed hclosed
      obtain ⟨front, last, hfields, hlast, happ⟩ := fields_append hy
      have hline : line (y ++ [92]) = y ++ [92] := by
        rw [line_last hquiet, trimNl_snoc, if_neg (by decide)]
      have hgo : fields [] (line (y ++ [92])) = front ++ [last ++ [92]] := by
        rw [hline, happ]
        rfl
      have hescape : endsInEscape (y ++ [92]) = true := by simp [endsInEscape, hclosed]
      rw [hgo] at hcols ⊢
      rw [attributes_closed hy (.inr rfl), hfields, hescape, lastField_iff hn hcols, and_iff_left rfl]
      rw [value_backslash hlast, value]
      split <;> simp
    | true =>
      rcases List.eq_nil_or_concat b with rfl | ⟨x, c, rfl⟩
      · exact hsame rfl rfl rfl
      · rw [List.concat_eq_append] at *
        by_cases hc : c = 10
        · -- the escaped newline at the end is trimmed by the router, its backslash kept
          subst hc
          obtain ⟨y, rfl, hy⟩ := not_closed (quiet_snoc hquiet (.inl rfl))
          obtain ⟨front, last, hfields, hlast, happ⟩ := fields_append hy
          have hline : line (y ++ [92] ++ [10]) = y ++ [92] := by
            rw [line_last hquiet, trimNl_snoc, if_pos rfl]
          have hgo : fields [] (line (y ++ [92] ++ [10])) = front ++ [last ++ [92]] := by
            rw [hline, happ]
            rfl
          have hescape : endsInEscape (y ++ [92] ++ [10]) = true := by
            simp only [endsInEscape, List.dropLast_concat, closed_snoc, hy]
            simp
          have hattr : attributes (y ++ [92] ++ [10]) = (front ++ [last ++ [92, 10]]).map value := by
            have := attributes_closed hclosed (.inl rfl)
            rw [List.append_nil] at this
            rw [this, List.append_assoc, List.singleton_append, happ]
            rfl
          rw [hgo] at hcols ⊢
          rw [hattr, hescape, lastField_iff hn hcols, and_iff_left rfl]
          rw [value_backslash hlast, value_newline hlast]
          simp
        · refine hsame hclosed ?_ ?_
          · rw [line_last hquiet, trimNl_snoc, if_neg hc]
          · simp [endsInEscape, hclosed, hc]

/-- The key of every row that PostgreSQL reads too is the attribute PostgreSQL reads, unless the key
is the last column and the row ends inside an escape, which only the last row of a stream can. -/
theorem copy_key_iff {keyCol cols i : Nat} {chunks : List Bytes} {row : Row} {content : Bytes}
    (hcol : keyCol < cols) (hrow : (yields keyCol cols chunks).1[i]? = some row) (hkey : isMarker row.bytes = false)
    (hline : (copyLines .unknown chunks.flatten)[i]? = some content) :
    (attributes content)[keyCol]? = some row.keyValue ↔
      ¬(keyCol + 1 = cols ∧ endsInEscape row.bytes = true) := by
  simp only [yields] at hrow
  rw [Splitter.feed_eq_drain rfl] at hrow
  obtain ⟨hof, hcolumn⟩ := rows_lines rfl hrow (by simp [isRow, hkey]) (by simpa [Splitter.more] using hline)
  exact lineOf_iff hcol hof hcolumn

/-- The row `1⇥a\t` in two chunks: its key is an `a` and a tab. -/
theorem copy_key_second_column :
    ∃ row content, (yields 1 2 [[49, 9, 97, 92], [116, 10]]).1[0]? = some row ∧ isMarker row.bytes = false ∧
      (copyLines .unknown [[49, 9, 97, 92], [116, 10]].flatten)[0]? = some content ∧
      (attributes content)[1]? = some row.keyValue := by
  refine ⟨{ bytes := [49, 9, 97, 92, 116, 10], key := [97, 9] }, [49, 9, 97, 92, 116], ?_, ?_, ?_, ?_⟩
  · decide +kernel
  · decide +kernel
  · decide +kernel
  · exact (@copy_key_iff 1 2 0 [[49, 9, 97, 92], [116, 10]] _ _ (by decide) (by decide +kernel)
      (by decide +kernel) (by decide +kernel)).mpr (by decide +kernel)

/-- The stream `a\` without a line ending: the router reads the key `a\`, PostgreSQL stores `a`. -/
theorem copy_key_backslash : (yields 0 1 [[97, 92]]).1 = [{ bytes := [97, 92], key := [97, 92] }] ∧
      (copyLines .unknown [97, 92]).map attributes = [[some [97]]] := by
  decide +kernel

end PgShard.Copy
