import PgShard.Postgres.CopyText

/-!
# Escapes in COPY text

Where a text stands with respect to the escapes in it: what the splitter trims off a row, where it
splits a line and how it resolves the escapes of a field.
-/

namespace PgShard.Copy

open Key Postgres

/-- No backslash at the end waits for the byte it escapes. -/
def closed : Bytes → Bool
  | [] => true
  | c :: rest =>
    if c = 92 then
      match rest with
      | [] => false
      | _ :: rest => closed rest
    else closed rest

/-- No newline and no carriage return stands outside an escape. -/
def quiet : Bytes → Bool
  | [] => true
  | c :: rest =>
    if c = 92 then
      match rest with
      | [] => true
      | _ :: rest => quiet rest
    else c ≠ 10 && c ≠ 13 && quiet rest

lemma closed_escape (c : UInt8) (rest : Bytes) : closed (92 :: c :: rest) = closed rest := by
  rw [closed.eq_def]
  rfl

variable {c : UInt8} {b rest : Bytes}

lemma closed_plain (h : c ≠ 92) (rest : Bytes) : closed (c :: rest) = closed rest := by
  rw [closed.eq_def]
  simp only [if_neg h]

lemma quiet_escape (c : UInt8) (rest : Bytes) : quiet (92 :: c :: rest) = quiet rest := by
  rw [quiet.eq_def]
  rfl

lemma quiet_plain (h : c ≠ 92) (rest : Bytes) : quiet (c :: rest) = (c ≠ 10 && c ≠ 13 && quiet rest) := by
  rw [quiet.eq_def]
  simp only [if_neg h]

/-- Escapes end where a closed text ends. -/
lemma closed_append (h : closed b = true) (more : Bytes) : closed (b ++ more) = closed more := by
  fun_induction closed b with
  | case1 => rfl
  | case2 => cases h
  | case3 c rest ih =>
    rw [List.cons_append, List.cons_append, closed_escape]
    exact ih h
  | case4 c rest hc ih =>
    rw [List.cons_append, closed_plain hc]
    exact ih h

/-- One more byte: a backslash waits unless it is escaped itself. -/
lemma closed_snoc (b : Bytes) (c : UInt8) : closed (b ++ [c]) = (c ≠ 92 || !closed b) := by
  fun_induction closed b with
  | case1 =>
    by_cases hc : c = 92
    · subst hc
      rfl
    · simp [closed_plain hc, hc, closed]
  | case2 => simp [closed]
  | case3 d rest ih => rw [List.cons_append, List.cons_append, closed_escape, ih]
  | case4 d rest hd ih => rw [List.cons_append, closed_plain hd, ih]

/-- What is not closed ends in the backslash that waits. -/
lemma not_closed (h : closed b = false) : ∃ x, b = x ++ [92] ∧ closed x = true := by
  fun_induction closed b with
  | case1 => cases h
  | case2 => exact ⟨[], rfl, rfl⟩
  | case3 c rest ih =>
    obtain ⟨x, rfl, hx⟩ := ih h
    exact ⟨92 :: c :: x, rfl, by rw [closed_escape]; exact hx⟩
  | case4 c rest hc ih =>
    obtain ⟨x, rfl, hx⟩ := ih h
    exact ⟨c :: x, rfl, by rw [closed_plain hc]; exact hx⟩

/-- A line ending at the end of a text without one outside an escape is escaped. -/
lemma quiet_snoc (h : quiet (b ++ [c]) = true) (hc : c = 10 ∨ c = 13) : closed b = false := by
  have hback : c ≠ 92 := by rcases hc with rfl | rfl <;> decide
  fun_induction closed b with
  | case1 =>
    rw [List.nil_append, quiet_plain hback] at h
    rcases hc with rfl | rfl <;> simp at h
  | case2 => rfl
  | case3 d rest ih => exact ih (by rwa [List.cons_append, List.cons_append, quiet_escape] at h)
  | case4 d rest hd ih =>
    rw [List.cons_append, quiet_plain hd] at h
    simp only [Bool.and_eq_true] at h
    exact ih h.2

/-- The run of backslashes a text ends in is odd when the text is not closed. -/
lemma backslashes_odd (b : Bytes) : (b.reverse.takeWhile (· = 92)).length % 2 = if closed b then 0 else 1 := by
  induction b using List.reverseRecOn with
  | nil => rfl
  | append_singleton b c ih =>
    rw [closed_snoc, List.reverse_append, List.reverse_singleton, List.singleton_append, List.takeWhile_cons]
    by_cases hc : c = 92
    · cases hb : closed b <;> simp [hc, hb] at ih ⊢ <;> omega
    · simp [hc]

lemma escaped_append (x y : Bytes) : escaped (x ++ y) x.length = !closed x := by
  unfold escaped
  rw [List.take_left, backslashes_odd]
  cases closed x <;> rfl

def trimNl (b : Bytes) : Bytes := if b.getLast? = some 10 then b.dropLast else b

def trimCr (b : Bytes) : Bytes :=
  if b.getLast? = some 13 ∧ escaped b (b.length - 1) = false then b.dropLast else b

lemma line_eq (row : Bytes) : line row = trimCr (trimNl row) := rfl

lemma trimNl_snoc (b : Bytes) (c : UInt8) : trimNl (b ++ [c]) = if c = 10 then b else b ++ [c] := by
  simp [trimNl]

/-- A carriage return goes unless it is escaped. -/
lemma trimCr_snoc (b : Bytes) (c : UInt8) : trimCr (b ++ [c]) = if c = 13 ∧ closed b = true then b else b ++ [c] := by
  have hlen : (b ++ [c]).length - 1 = b.length := by simp
  unfold trimCr
  rw [hlen, escaped_append, List.dropLast_concat]
  simp

lemma trimCr_quiet (hq : quiet b = true) : trimCr b = b := by
  rcases List.eq_nil_or_concat b with rfl | ⟨x, c, rfl⟩
  · rfl
  · rw [List.concat_eq_append] at hq ⊢
    rw [trimCr_snoc, if_neg]
    rintro ⟨rfl, hx⟩
    rw [quiet_snoc hq (.inr rfl)] at hx
    cases hx

lemma line_nl (hq : quiet b = true) : line (b ++ [10]) = b := by
  rw [line_eq, trimNl_snoc, if_pos rfl, trimCr_quiet hq]

lemma line_cr (hb : closed b = true) : line (b ++ [13]) = b := by
  rw [line_eq, trimNl_snoc, if_neg (by decide), trimCr_snoc, if_pos ⟨rfl, hb⟩]

lemma line_crnl (hb : closed b = true) : line (b ++ [13, 10]) = b := by
  have happ : b ++ [13, 10] = (b ++ [13]) ++ [10] := by simp
  rw [happ, line_eq, trimNl_snoc, if_pos rfl, trimCr_snoc, if_pos ⟨rfl, hb⟩]

/-- A row without a line ending is its own line, unless its last byte is an escaped newline. -/
lemma line_last (hq : quiet b = true) : line b = trimNl b := by
  rcases List.eq_nil_or_concat b with rfl | ⟨x, c, rfl⟩
  · rfl
  · rw [List.concat_eq_append] at hq ⊢
    rw [line_eq, trimNl_snoc]
    by_cases hc : c = 10
    · subst hc
      rw [if_pos rfl]
      -- what the escaped newline leaves ends in its backslash
      obtain ⟨y, rfl, hy⟩ := not_closed (quiet_snoc hq (.inl rfl))
      rw [trimCr_snoc, if_neg (by simp)]
    · rw [if_neg hc, trimCr_quiet hq]

/-- The row ends inside an escape: in a backslash, or in a newline that a backslash escapes. -/
def endsInEscape (b : Bytes) : Bool := !closed b || (b.getLast? = some 10 && !closed b.dropLast)

lemma fields_escape (field : Bytes) (c : UInt8) (rest : Bytes) :
    fields field (92 :: c :: rest) = fields (field ++ [92, c]) rest := by
  rw [fields.eq_def]
  rfl

lemma fields_tab (field rest : Bytes) : fields field (9 :: rest) = field :: fields [] rest := by
  rw [fields.eq_def]
  rfl

lemma fields_plain (hback : c ≠ 92) (htab : c ≠ 9) (field rest : Bytes) :
    fields field (c :: rest) = fields (field ++ [c]) rest := by
  rw [fields.eq_def]
  simp only [if_neg hback, if_neg htab]

/-- What was read of the first field stands before the rest of it. -/
lemma fields_cons (b : Bytes) : ∃ f fs, ∀ field, fields field b = (field ++ f) :: fs := by
  fun_induction closed b with
  | case1 => exact ⟨[], [], fun field => by simp [fields]⟩
  | case2 => exact ⟨[92], [], fun field => rfl⟩
  | case3 c rest ih =>
    obtain ⟨f, fs, h⟩ := ih
    exact ⟨92 :: c :: f, fs, fun field => by rw [fields_escape, h]; simp⟩
  | case4 c rest hc ih =>
    obtain ⟨f, fs, h⟩ := ih
    by_cases htab : c = 9
    · subst htab
      exact ⟨[], fields [] rest, fun field => by rw [fields_tab]; simp⟩
    · exact ⟨c :: f, fs, fun field => by rw [fields_plain hc htab, h]; simp⟩

/-- Behind a closed text the last field goes on. -/
lemma fields_append (h : closed b = true) : ∃ front last, fields [] b = front ++ [last] ∧ closed last = true ∧
      ∀ more, fields [] (b ++ more) = front ++ fields last more := by
  suffices hgen : ∀ field, closed field = true → ∃ front last, fields field b = front ++ [last] ∧
      closed last = true ∧ ∀ more, fields field (b ++ more) = front ++ fields last more from hgen [] rfl
  fun_induction closed b with
  | case1 => exact fun field hfield => ⟨[], field, rfl, hfield, fun _ => rfl⟩
  | case2 => cases h
  | case3 c rest ih =>
    intro field hfield
    obtain ⟨front, last, hfields, hlast, happ⟩ :=
      ih h (field ++ [92, c]) (by rw [closed_append hfield, closed_escape]; rfl)
    refine ⟨front, last, by rw [fields_escape, hfields], hlast, fun more => ?_⟩
    rw [List.cons_append, List.cons_append, fields_escape, happ]
  | case4 c rest hc ih =>
    intro field hfield
    by_cases htab : c = 9
    · subst htab
      obtain ⟨front, last, hfields, hlast, happ⟩ := ih h [] rfl
      refine ⟨field :: front, last, by rw [fields_tab, hfields]; rfl, hlast, fun more => ?_⟩
      rw [List.cons_append, fields_tab, happ]
      rfl
    · obtain ⟨front, last, hfields, hlast, happ⟩ :=
        ih h (field ++ [c]) (by rw [closed_append hfield, closed_plain hc]; rfl)
      refine ⟨front, last, by rw [fields_plain hc htab, hfields], hlast, fun more => ?_⟩
      rw [List.cons_append, fields_plain hc htab, happ]

lemma isHex_of_isOctal (h : isOctal c = true) : isHex c = true := by
  unfold isOctal at h
  unfold isHex
  simp only [Bool.and_eq_true, Bool.or_eq_true, decide_eq_true_eq] at h ⊢
  grind

lemma ofNat_sub (c d : UInt8) (h : d ≤ c) : UInt8.ofNat (c.toNat - d.toNat) = c - d := by
  apply UInt8.toNat_inj.mp
  have := c.toNat_lt
  rw [UInt8.toNat_ofNat', UInt8.toNat_sub_of_le _ _ h]
  omega

lemma octalVal_eq (h : isOctal c = true) : UInt8.ofNat (c.toNat - 48) = c - 48 := by
  simp only [isOctal, Bool.and_eq_true, decide_eq_true_eq] at h
  exact ofNat_sub c 48 h.1

lemma hexVal_eq (h : isHex c = true) : UInt8.ofNat (decimalFromHex c) = hexVal c := by
  simp only [isHex, Bool.and_eq_true, Bool.or_eq_true, decide_eq_true_eq] at h
  unfold decimalFromHex hexVal
  rcases h with (h | h) | h
  · rw [if_pos h, if_neg (by grind), if_neg (by grind)]
    exact ofNat_sub c 48 h.1
  · rw [if_neg (by grind), if_neg (by grind), if_pos h.1, UInt8.ofNat_add]
    exact congrArg (· + 10) (ofNat_sub c 97 h.1)
  · have hle := UInt8.le_iff_toNat_le.mp h.1
    have hnat : c.toNat + 32 - 97 + 10 = c.toNat - (65 : UInt8).toNat + 10 := by
      have : (65 : UInt8).toNat = 65 := rfl
      omega
    rw [if_neg (by grind), if_pos (by grind), if_neg (by grind), if_pos h.1, hnat, UInt8.ofNat_add]
    exact congrArg (· + 10) (ofNat_sub c 65 h.1)

lemma deescape_octal (hc : isOctal c = true) (cur : Bytes) : deescape c cur = octalDigits (c - 48) 2 cur := by
  unfold deescape
  rw [if_pos hc]
  cases cur with
  | nil => simp [octalDigits, octalVal_eq hc]
  | cons d cur =>
    by_cases hd : isOctal d = true
    · cases cur with
      | nil => simp [octalDigits, hd, octalVal_eq hc, octalVal_eq hd, UInt8.ofNat_add, UInt8.ofNat_mul]
      | cons e cur =>
        by_cases he : isOctal e = true
        · simp [octalDigits, hd, he, octalVal_eq hc, octalVal_eq hd, octalVal_eq he, UInt8.ofNat_add, UInt8.ofNat_mul]
        · simp [octalDigits, hd, he, octalVal_eq hc, octalVal_eq hd, UInt8.ofNat_add, UInt8.ofNat_mul]
    · simp [octalDigits, hd, octalVal_eq hc]

/-- Nothing a longer escape could take stands at the front. -/
def Stops (b : Bytes) : Prop := ∀ c ∈ b.head?, isHex c = false

lemma Stops.nil : Stops [] := by
  intro c hc
  cases hc

lemma stops_cons (hc : isHex c = false) (rest : Bytes) : Stops (c :: rest) := by
  intro d hd
  cases hd
  exact hc

lemma escape_octal (hc : isOctal c = true) (rest : Bytes) : escape c rest = octalDigits (c - 48) 2 rest := by
  unfold escape
  rw [if_pos hc]

lemma escape_named (hc : ¬isOctal c = true) (hrest : c = 120 → Stops rest) : escape c rest = (named c, rest) := by
  unfold escape
  rw [if_neg hc]
  cases rest with
  | nil => rfl
  | cons d rest =>
    by_cases hx : c = 120
    · have := hrest hx d rfl
      simp [this]
    · simp [hx]

lemma escape_hex {d : UInt8} (hd : isHex d = true) (hrest : Stops rest) :
    escape 120 (d :: rest) = (hexVal d, rest) := by
  unfold escape
  cases rest with
  | nil => simp [hd, isOctal]
  | cons e rest =>
    have := hrest e rfl
    simp [hd, this, isOctal]

lemma escape_hex_hex {d e : UInt8} (hd : isHex d = true) (he : isHex e = true) (rest : Bytes) :
    escape 120 (d :: e :: rest) = (hexVal d * 16 + hexVal e, rest) := by
  unfold escape
  simp [hd, he, isOctal]

lemma deescape_named (hc : ¬isOctal c = true) (hrest : c = 120 → Stops rest) : deescape c rest = (named c, rest) := by
  unfold deescape
  rw [if_neg hc]
  by_cases hx : c = 120
  · subst hx
    cases rest with
    | nil => rfl
    | cons d rest =>
      have := hrest rfl d rfl
      simp [this, named]
  · simp only [hx, if_false, named]
    grind

lemma deescape_eq (c : UInt8) (cur : Bytes) : deescape c cur = escape c cur := by
  by_cases hc : isOctal c = true
  · rw [deescape_octal hc, escape_octal hc]
  · by_cases hstop : c = 120 → Stops cur
    · rw [deescape_named hc hstop, escape_named hc hstop]
    · -- a hexadecimal escape
      simp only [Classical.not_imp] at hstop
      obtain ⟨rfl, hstop⟩ := hstop
      cases cur with
      | nil => exact absurd Stops.nil hstop
      | cons d cur =>
        have hd : isHex d = true := by
          by_contra hno
          exact hstop (stops_cons (Bool.eq_false_iff.mpr hno) cur)
        cases cur with
        | nil =>
          rw [escape_hex hd Stops.nil]
          simp [deescape, isOctal, hd, hexVal_eq hd]
        | cons e cur =>
          by_cases he : isHex e = true
          · rw [escape_hex_hex hd he]
            simp [deescape, isOctal, hd, he, hexVal_eq hd, hexVal_eq he, UInt8.ofNat_add, UInt8.ofNat_mul]
          · rw [escape_hex hd (stops_cons (Bool.eq_false_iff.mpr he) cur)]
            simp [deescape, isOctal, hd, he, hexVal_eq hd]

/-- The two texts start alike, as far as an escape before them can tell. -/
def StartAlike (y z : Bytes) : Prop := y.head? = z.head? ∨ (Stops y ∧ Stops z)

lemma StartAlike.stops {y z : Bytes} (h : StartAlike y z) (hz : Stops z) : Stops y := by
  rcases h with h | h
  · rwa [Stops, h]
  · exact h.1

lemma StartAlike.append {more : Bytes} (hmore : Stops more) : StartAlike (b ++ more) b := by
  cases b with
  | nil => exact .inr ⟨hmore, Stops.nil⟩
  | cons c rest => exact .inl rfl

/-- A text that does not start with an octal digit. -/
lemma octalDigits_stop {v : UInt8} {k : Nat} (h : ∀ c ∈ b.head?, ¬isOctal c = true) : octalDigits v k b = (v, b) := by
  cases k with
  | zero => rfl
  | succ k =>
    cases b with
    | nil => rfl
    | cons c rest => simp [octalDigits, h c rfl]

lemma StartAlike.octal {y z : Bytes} (h : StartAlike y z) (hz : ∀ c ∈ z.head?, ¬isOctal c = true) :
    ∀ c ∈ y.head?, ¬isOctal c = true := by
  rcases h with h | h
  · rwa [h]
  · intro c hc hoct
    have := h.1 c hc
    rw [isHex_of_isOctal hoct] at this
    cases this

/-- The digits of an octal escape; it is the same before any text that starts alike. -/
lemma octalDigits_taken (v : UInt8) (k : Nat) (b : Bytes) :
    ∃ digits, b = digits ++ (octalDigits v k b).2 ∧ (∀ c ∈ digits, isHex c = true) ∧
      ∀ y, StartAlike y (octalDigits v k b).2 →
        octalDigits v k (digits ++ y) = ((octalDigits v k b).1, y) := by
  induction k generalizing v b with
  | zero => exact ⟨[], rfl, by simp, fun y _ => rfl⟩
  | succ k ih =>
    by_cases hb : ∀ c ∈ b.head?, ¬isOctal c = true
    · rw [octalDigits_stop hb]
      exact ⟨[], rfl, by simp, fun y hy => octalDigits_stop (hy.octal hb)⟩
    · cases b with
      | nil => simp at hb
      | cons c rest =>
        have hc : isOctal c = true := by simpa using hb
        obtain ⟨digits, hrest, hhex, hsame⟩ := ih (v * 8 + (c - 48)) rest
        have hstep : ∀ x, octalDigits v (k + 1) (c :: x) = octalDigits (v * 8 + (c - 48)) k x :=
          fun x => by simp [octalDigits, hc]
        refine ⟨c :: digits, ?_, ?_, ?_⟩
        · rw [hstep, List.cons_append, ← hrest]
        · intro d hd
          rcases List.mem_cons.mp hd with rfl | hd
          · exact isHex_of_isOctal hc
          · exact hhex d hd
        · intro y hy
          rw [hstep] at hy ⊢
          rw [List.cons_append, hstep]
          exact hsame y hy

/-- The digits an escape takes; it is the same before any text that starts alike. -/
lemma escape_taken (c : UInt8) (b : Bytes) : ∃ digits, b = digits ++ (escape c b).2 ∧ (∀ d ∈ digits, isHex d = true) ∧
      ∀ y, StartAlike y (escape c b).2 → escape c (digits ++ y) = ((escape c b).1, y) := by
  by_cases hc : isOctal c = true
  · rw [escape_octal hc]
    obtain ⟨digits, hb, hhex, hsame⟩ := octalDigits_taken (c - 48) 2 b
    exact ⟨digits, hb, hhex, fun y hy => by rw [escape_octal hc]; exact hsame y hy⟩
  · by_cases hstop : c = 120 → Stops b
    · rw [escape_named hc hstop]
      exact ⟨[], rfl, by simp, fun y hy => escape_named hc fun hx => hy.stops (hstop hx)⟩
    · simp only [Classical.not_imp] at hstop
      obtain ⟨rfl, hstop⟩ := hstop
      cases b with
      | nil => exact absurd Stops.nil hstop
      | cons d rest =>
        have hd : isHex d = true := by
          by_contra hno
          exact hstop (stops_cons (Bool.eq_false_iff.mpr hno) rest)
        by_cases hrest : Stops rest
        · rw [escape_hex hd hrest]
          exact ⟨[d], rfl, by simpa using hd, fun y hy => escape_hex hd (hy.stops hrest)⟩
        · cases rest with
          | nil => exact absurd Stops.nil hrest
          | cons e rest =>
            have he : isHex e = true := by
              by_contra hno
              exact hrest (stops_cons (Bool.eq_false_iff.mpr hno) rest)
            rw [escape_hex_hex hd he]
            exact ⟨[d, e], rfl, by simp [hd, he], fun y _ => escape_hex_hex hd he y⟩

lemma unescape_escape (c : UInt8) (rest : Bytes) :
    unescape (92 :: c :: rest) = (escape c rest).1 :: unescape (escape c rest).2 := by
  rw [unescape, if_pos rfl]

lemma unescape_plain (hc : c ≠ 92) (rest : Bytes) : unescape (c :: rest) = c :: unescape rest := by
  cases rest with
  | nil => simp [unescape]
  | cons d rest => rw [unescape, if_neg hc]

lemma isHex_plain (h : isHex c = true) : c ≠ 92 ∧ c ≠ 9 := by
  constructor <;> rintro rfl <;> simp [isHex] at h

lemma closed_digits {digits : Bytes} (h : ∀ c ∈ digits, isHex c = true) (rest : Bytes) :
    closed (digits ++ rest) = closed rest := by
  induction digits with
  | nil => rfl
  | cons c digits ih =>
    rw [List.cons_append, closed_plain (isHex_plain (h c List.mem_cons_self)).1]
    exact ih fun d hd => h d (.tail _ hd)

lemma fields_digits {digits : Bytes} (h : ∀ c ∈ digits, isHex c = true) (field rest : Bytes) :
    fields field (digits ++ rest) = fields (field ++ digits) rest := by
  induction digits generalizing field with
  | nil => simp
  | cons c digits ih =>
    obtain ⟨hback, htab⟩ := isHex_plain (h c List.mem_cons_self)
    rw [List.cons_append, fields_plain hback htab, ih fun d hd => h d (List.mem_cons_of_mem _ hd)]
    simp

/-- The first field of a text starts as the text does. -/
lemma field_startAlike {f : Bytes} {fs : List Bytes}
    (h : ∀ field, fields field b = (field ++ f) :: fs) : StartAlike f b := by
  have h := h []
  cases b with
  | nil =>
    cases h
    exact .inl rfl
  | cons c rest =>
    by_cases hc : c = 92
    · subst hc
      cases rest with
      | nil =>
        cases h
        exact .inl rfl
      | cons d rest =>
        obtain ⟨g, gs, hg⟩ := fields_cons rest
        rw [fields_escape, hg] at h
        cases h
        exact .inl rfl
    · by_cases htab : c = 9
      · subst htab
        rw [fields_tab] at h
        cases h
        exact .inr ⟨Stops.nil, stops_cons (by decide) rest⟩
      · obtain ⟨g, gs, hg⟩ := fields_cons rest
        rw [fields_plain hc htab, hg] at h
        cases h
        exact .inl rfl

/-- No escape of a closed text reaches into what follows it. -/
lemma unescape_append {more : Bytes} (hb : closed b = true) (hmore : Stops more) :
    unescape (b ++ more) = unescape b ++ unescape more := by
  induction hn : b.length using Nat.strongRecOn generalizing b with
  | _ n ih =>
  cases b with
  | nil => simp [unescape]
  | cons c rest =>
    rw [List.length_cons] at hn
    by_cases hc : c = 92
    · subst hc
      cases rest with
      | nil => cases hb
      | cons d rest =>
        rw [closed_escape] at hb
        obtain ⟨digits, hrest, hhex, hsame⟩ := escape_taken d rest
        have hclosed : closed (escape d rest).2 = true := by
          rw [hrest, closed_digits hhex] at hb
          exact hb
        have hshort := escape_length d rest
        rw [List.length_cons] at hn
        have hline : rest ++ more = digits ++ ((escape d rest).2 ++ more) := by
          rw [← List.append_assoc, ← hrest]
        rw [List.cons_append, List.cons_append, unescape_escape, unescape_escape, hline,
          hsame _ (.append hmore), List.cons_append]
        exact congrArg _ (ih (escape d rest).2.length (by omega) hclosed rfl)
    · rw [closed_plain hc] at hb
      rw [List.cons_append, unescape_plain hc, unescape_plain hc, List.cons_append]
      exact congrArg _ (ih rest.length (by omega) hb rfl)

end PgShard.Copy
