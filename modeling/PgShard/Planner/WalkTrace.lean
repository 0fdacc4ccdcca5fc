import PgShard.Planner.Trace

/-!
# The steps of the walk

A fact that the steps of a walk keep is kept by the whole walk, and the walk leaves the trace that
`scan` reads off the tree.
-/

namespace PgShard.Planner

open Hoare Key

variable {sess : Session}

/-- A key column is a column reference: there is nothing in it to look for. -/
lemma scan_keyColumn {w : Walker} {e : Option Node} {scope : Scope} {x : Rel × Nat}
    (h : keyColumn? w e scope = some x) (reach : Reach) (names : List String) : scan? reach names e = [] := by
  cases e with
  | none => cases h
  | some n =>
    cases n with
    | columnRef fields =>
      rw [scan?, scan]
      all_goals simp [Node.children, scans]
    | _ => cases h

/-- Nor is there in a literal or a parameter. -/
lemma scan_literal (n : Node) (reach : Reach) (names : List String) (item : KeyItem)
    (h : literal n = some item) : scan reach names n = [] := by
  induction h using literal_induction generalizing reach with
  | cast arg tn inner item harg h hcast ih =>
    rw [scan]
    · simp [Node.children, scans, ih]
    all_goals simp
  | _ =>
    rw [scan]
    all_goals simp [Node.children, scans]

lemma scans_readItems {t t' : KeyTerm} {ns : List Node} (reach : Reach) (names : List String)
    (h : readItems t ns = .ok (some t')) : scans reach names ns = [] := by
  induction ns generalizing t with
  | nil => rw [scans]
  | cons n ns ih =>
    rw [scans]
    unfold readItems at h
    have hlit : ∀ item, constOrParam n = .ok (some item) → scan reach names n = [] := by
      intro item hi
      unfold constOrParam at hi
      cases hl : literal n with
      | none => simp [hl] at hi
      | some item' => exact scan_literal n reach names item' hl
    split at h
    · cases h
    · cases h
    · next hi => rw [hlit _ hi, ih h]; rfl
    · next hi => rw [hlit _ hi, ih h]; rfl

lemma scan_termOf {value : Option Node} {list : Bool} {t : KeyTerm} (names : List String)
    (h : termOf value list = .ok (some t)) : scan? .visited names value = [] := by
  unfold termOf at h
  split at h
  · cases h
  · have := scans_readItems .visited names h
    simpa [scans, scan?] using this
  · have := scans_readItems .visited names h
    rw [scan?, scan]
    all_goals simp [Node.children, this]
  · cases h

lemma scan_equality (kind : AExprKind) (name : List String) (l r : Option Node) (scope : List String) :
    scan .visited scope (.aExpr kind name l r) = scan? .visited scope l ++ scan? .visited scope r := by
  rw [scan]
  all_goals simp [Node.children, scans_append, scans_toList]

lemma within_scopeFrom {low start : Nat} (w : Walker) (h : low ≤ start) : Within low (w.scopeFrom start) w := by
  intro x hx
  obtain ⟨k, hk⟩ := List.mem_iff_getElem?.mp hx
  rw [Walker.scopeFrom, List.getElem?_drop, List.getElem?_zipIdx] at hk
  obtain ⟨r, hr, rfl⟩ := Option.map_eq_some_iff.mp hk
  obtain ⟨hlt, _⟩ := List.getElem?_eq_some_iff.mp hr
  simp
  omega

lemma Within.grow {low : Nat} {scope : Scope} {w w' : Walker} (h : Within low scope w)
    (hlen : w.rels.length ≤ w'.rels.length) : Within low scope w' := by
  intro x hx
  obtain ⟨hlow, hlt⟩ := h x hx
  omega

@[simp] lemma Walker.unify_rels (w : Walker) (a b : Nat) : (w.unify a b).rels = w.rels := by
  unfold Walker.unify
  split <;> rfl

lemma keyMatch_mem {w : Walker} {scope : Scope} {col qual : String} {found : Option (Rel × Nat)} {x : Rel × Nat}
    (h : keyMatch w col qual found scope = some x) : found = some x ∨ x ∈ scope := by
  induction scope generalizing found with
  | nil => exact .inl h
  | cons y rest ih =>
    obtain ⟨r, i⟩ := y
    have hrest : ∀ f, keyMatch w col qual f rest = some x → f = some x ∨ x ∈ (r, i) :: rest := by
      intro f hf
      rcases ih hf with hfound | hmem
      · exact .inl hfound
      · exact .inr (.tail _ hmem)
    unfold keyMatch at h
    split at h
    · exact hrest _ h
    · split at h
      · exact hrest _ h
      · split at h
        · rcases ih h with hfound | hmem
          · cases hfound
            exact .inr (by simp)
          · exact .inr (.tail _ hmem)
        · split at h
          · cases h
          · exact hrest _ h

lemma keyColumn_mem {w : Walker} {scope : Scope} {e : Option Node} {x : Rel × Nat} (h : keyColumn? w e scope = some x) :
    x ∈ scope := by
  obtain ⟨n, rfl, hn⟩ := Option.bind_eq_some_iff.mp h
  unfold keyColumn at hn
  split at hn
  · split at hn
    · cases hn
    · split at hn
      · cases hn
      · exact (keyMatch_mem hn).resolve_left (by simp)
      · exact (keyMatch_mem hn).resolve_left (by simp)
  · cases hn

section

variable {low : Nat} {R : List Event → Walker → Prop} (hR : Stepwise sess low R)

include hR

variable {past : List Event} {w : Walker} {scope : Scope} {β : Type} {evs evs' : List Event}

lemma Stepwise.block (hw : R past w) (b : Blocker) : R past (w.block b) := by
  unfold Walker.block
  split
  · exact hw
  · exact hR.quiet past w _ hw rfl rfl rfl rfl rfl

lemma Stepwise.blocker (b : Blocker) : Tracks R (blocker b) [] := Tracks.change fun _ _ hw => hR.block hw b

/-- With the scope as part of the fact, whatever is looked up in it is within the list. -/
lemma Stepwise.within (scope : Scope) : Stepwise sess low fun past w => R past w ∧ Within low scope w where
  low_le past w h := hR.low_le past w h.1
  trace past past' w h heq := ⟨hR.trace past past' w h.1 heq, h.2⟩
  quiet past w w' h hrels hctes hgroups hterms htarget :=
    ⟨hR.quiet past w w' h.1 hrels hctes hgroups hterms htarget, h.2.grow (by rw [hrels])⟩
  cte past w name h := ⟨hR.cte past w name h.1, h.2⟩
  look past w rv b o h ho := ⟨hR.look past w rv b o h.1 ho, h.2.grow (by simp)⟩
  link past w a b h ha ha' hb hb' := ⟨hR.link past w a b h.1 ha ha' hb hb', h.2.grow (by simp)⟩
  note past w i t h hi hi' := ⟨hR.note past w i t h.1 hi hi', h.2⟩

lemma Stepwise.joinUsing (hw : R past w) (natural : Bool) (cols : List String)
    (hs : Within low scope w) : R past (joinUsing natural cols scope w) := by
  have hfold : ∀ (rest : Scope) (r₀ : Rel) (i₀ : Nat), ∀ w, Within low ((r₀, i₀) :: rest) w → R past w →
      R past (rest.foldl (fun w x => if x.1.shardKey = r₀.shardKey then w.unify i₀ x.2 else w) w) := by
    intro rest r₀ i₀
    induction rest with
    | nil => exact fun _ _ hw => hw
    | cons x rest ih =>
      intro w hrest hw
      obtain ⟨h₀, h₀'⟩ := hrest (r₀, i₀) (by simp)
      obtain ⟨hx, hx'⟩ := hrest x (by simp)
      have htail : Within low ((r₀, i₀) :: rest) w := by
        intro y hy
        apply hrest y
        simp at hy ⊢
        tauto
      rw [List.foldl_cons]
      split
      · exact ih _ (htail.grow (by simp)) (hR.link past w _ _ hw h₀ h₀' hx hx')
      · exact ih _ htail hw
  unfold Planner.joinUsing
  dsimp only
  split
  · exact hw
  · next r₀ i₀ rest heq =>
    have hmem : ∀ x ∈ (r₀, i₀) :: rest, x ∈ scope := by
      intro x hx
      rw [← heq] at hx
      exact List.mem_of_mem_filter hx
    exact hfold rest r₀ i₀ w (fun x hx => hs x (hmem x hx)) hw

lemma Stepwise.notePreserved (hw : R past w) (jt : JoinType) (l r : Scope) :
    R past (notePreservedReference jt l r w) := by
  unfold notePreservedReference
  split
  · exact hR.quiet past w _ hw rfl rfl rfl rfl rfl
  · exact hw

lemma Stepwise.blockIf {c : Prop} [Decidable c] (hw : R past w) (b : Blocker) :
    R past (if c then w.block b else w) := by
  split
  · exact hR.block hw b
  · exact hw

lemma Stepwise.outerFeatures (hw : R past w) (s : SelectStmt Node) : R past (outerFeatures s w) := by
  unfold Planner.outerFeatures
  exact hR.blockIf (hR.blockIf (hR.blockIf (hR.blockIf hw _) _) _) _

/-- A change of the walker's flags, before the rest. -/
lemma Stepwise.flag_then {φ : Walker → Walker} {k : PUnit → Walk β}
    (h : ∀ w, (φ w).rels = w.rels ∧ (φ w).ctes = w.ctes ∧ (φ w).groups = w.groups ∧
      (φ w).terms = w.terms ∧ (φ w).target = w.target) (hk : ∀ a, Tracks R (k a) evs) :
    Tracks R (modify φ >>= k) evs := by
  refine (Tracks.change fun past w hw => ?_).quietly hk
  obtain ⟨hrels, hctes, hgroups, hterms, htarget⟩ := h w
  exact hR.quiet past w _ hw hrels hctes hgroups hterms htarget

lemma Stepwise.nested (b : Bool) : Tracks R (modify fun w => { w with nested := b } : Walk PUnit) [] :=
  Tracks.change fun past w hw => hR.quiet past w _ hw rfl rfl rfl rfl rfl

omit hR in
/-- A condition walked over the relations from a place on. -/
lemma Tracks.scoped {start : Nat} {m : Walker → Walk Unit} {k : Unit → Walk β} (hlow : low ≤ start)
    (hm : ∀ w, Tracks (fun past s => R past s ∧ Within low (w.scopeFrom start) s) (m w) evs)
    (hk : ∀ a, Tracks R (k a) evs') : Tracks R (get >>= fun w => m w >>= k) (evs ++ evs') := by
  intro past
  refine Leads.get.bind fun w => ?_
  refine Leads.bind (Q := fun _ => R (past ++ evs)) ?_ fun a => ?_
  · refine (hm w past).weaken ?_ fun _ _ h => h.1
    rintro s ⟨rfl, hs⟩
    exact ⟨hs, within_scopeFrom w hlow⟩
  · rw [← List.append_assoc]
    exact hk a _

lemma Stepwise.rangeVar (rv : RangeVar) (scope : List String) :
    Tracks R (fromItem sess (.rangeVar rv)) (scan .walked scope (.rangeVar rv)) := by
  rw [fromItem, scan]
  dsimp only
  split
  · exact Tracks.throw
  · intro past
    refine Leads.get.bind fun w₀ => ?_
    refine Leads.bind (Q := fun o w => R past w ∧ lookup sess w.ctes rv = .ok o) ?_ ?_
    · apply Leads.lift
      rintro o w ho ⟨rfl, hs⟩
      exact ⟨hs, ho⟩
    · rintro o w a w' ⟨hs, ho⟩ heq
      have hlook := hR.look past w rv (rv.isCte scope) o hs ho
      cases o <;> cases heq <;> simpa using hlook

/-- A nested statement that is no query is passed over. -/
lemma Stepwise.nestedStatement (n : Node) (scope : List String)
    (h : ∀ scope, Tracks R (selectStmt sess n) (scan (Reach.walked.into n) scope n)) :
    Tracks R (nestedStatement sess n) (scan (Reach.walked.into n) scope n) := by
  have hquiet : ∀ k : Walk Unit, Tracks R k [] → Tracks R k (scan .skipped scope n) :=
    fun k hk => hR.congr hk (heard_skipped.1 .skipped scope n rfl).symm
  have hwrite : Tracks R (nestedWrite sess) [] := by
    unfold nestedWrite
    split
    · exact Tracks.pure
    · exact Tracks.throw
  rw [Planner.nestedStatement]
  apply hR.read_then
  intro w _
  apply (hR.nested true).quietly
  intro _
  cases n with
  | selectStmt s => exact (h scope).then_quietly fun _ => hR.nested _
  | setOpStmt s => exact (h scope).then_quietly fun _ => hR.nested _
  | insertStmt s => exact hquiet _ (hwrite.quietly fun _ => hR.nested _)
  | updateStmt s => exact hquiet _ (hwrite.quietly fun _ => hR.nested _)
  | deleteStmt s => exact hquiet _ (hwrite.quietly fun _ => hR.nested _)
  | _ => exact hquiet _ (hR.nested _)

/-- Where a predicate does not route, its value is looked through. -/
lemma Stepwise.term (i : Nat) (value : Option Node) (list : Bool) (scope : List String)
    (hi : ∀ past w, R past w → low ≤ i ∧ i < w.rels.length)
    (h : ∀ scope, Tracks R (expr? sess value) (scan? .visited scope value)) :
    Tracks R (term sess i value list) (scan? .visited scope value) := by
  rw [Planner.term]
  apply Tracks.lift_then
  intro o ho
  cases o with
  | some t =>
    rw [scan_termOf scope ho]
    exact Tracks.change fun past w hw => hR.note past w i t hw (hi past w hw).1 (hi past w hw).2
  | none => exact h scope

/-- A key equality leaves the trace of both its sides, whichever way it is used. -/
lemma Stepwise.keyEquality (rels : Scope) (l r : Option Node) (scope : List String)
    (hs : ∀ past w, R past w → Within low rels w)
    (hwhole : ∀ scope, Tracks R (expr sess (.aExpr .op ["="] l r)) (scan .visited scope (.aExpr .op ["="] l r)))
    (hl : ∀ i, (∀ past w, R past w → low ≤ i ∧ i < w.rels.length) → ∀ scope,
      Tracks R (Planner.term sess i l false) (scan? .visited scope l))
    (hr : ∀ i, (∀ past w, R past w → low ≤ i ∧ i < w.rels.length) → ∀ scope,
      Tracks R (Planner.term sess i r false) (scan? .visited scope r)) :
    Tracks R (conjunct sess rels (.aExpr .op ["="] l r))
      (scan .visited scope (.aExpr .op ["="] l r)) := by
  rw [conjunct]
  apply hR.read_then
  intro w₁ _
  apply Tracks.lift_then
  intro _ _
  apply hR.read_then
  intro w₂ _
  apply Tracks.lift_then
  intro _ _
  apply hR.read_then
  intro w _
  split
  · next hkl hkr =>
    rw [scan_equality, scan_keyColumn hkl, scan_keyColumn hkr]
    apply Tracks.change
    intro past w hw
    split
    · obtain ⟨hi, hi'⟩ := hs past w hw _ (keyColumn_mem hkl)
      obtain ⟨hj, hj'⟩ := hs past w hw _ (keyColumn_mem hkr)
      exact hR.link past w _ _ hw hi hi' hj hj'
    · exact hw
  · next hkl _ =>
    split
    · exact hwhole _
    · rw [scan_equality, scan_keyColumn hkl, List.nil_append]
      exact hr _ (fun past w hw => hs past w hw _ (keyColumn_mem hkl)) _
  · next hkr =>
    split
    · exact hwhole _
    · rw [scan_equality, scan_keyColumn hkr, List.append_nil]
      exact hl _ (fun past w hw => hs past w hw _ (keyColumn_mem hkr)) _
  · exact hwhole _

lemma Stepwise.keyList (rels : Scope) (l r : Option Node) (scope : List String)
    (hs : ∀ past w, R past w → Within low rels w)
    (hwhole : ∀ scope, Tracks R (expr sess (.aExpr .isIn ["="] l r)) (scan .visited scope (.aExpr .isIn ["="] l r)))
    (hr : ∀ i, (∀ past w, R past w → low ≤ i ∧ i < w.rels.length) → ∀ scope,
      Tracks R (Planner.term sess i r true) (scan? .visited scope r)) :
    Tracks R (conjunct sess rels (.aExpr .isIn ["="] l r))
      (scan .visited scope (.aExpr .isIn ["="] l r)) := by
  rw [conjunct]
  apply hR.read_then
  intro w _
  split
  · exact hwhole _
  · apply Tracks.lift_then
    intro _ _
    split
    · next hk =>
      rw [scan_equality, scan_keyColumn hk, List.nil_append]
      exact hr _ (fun past w hw => hs past w hw _ (keyColumn_mem hk)) _
    · exact hwhole _

/-- A node that is no query is passed over where a query is expected. -/
lemma Stepwise.noQuery (n : Node) (scope : List String) (hs : ∀ s, n ≠ .selectStmt s) (ho : ∀ s, n ≠ .setOpStmt s) :
    Tracks R (selectStmt sess n) (scan (Reach.walked.into n) scope n) := by
  have hreach : Reach.walked.into n = .skipped := by
    cases n with
    | selectStmt s => exact absurd rfl (hs s)
    | setOpStmt s => exact absurd rfl (ho s)
    | _ => rfl
  rw [selectStmt, hreach]
  · exact hR.congr Tracks.pure (heard_skipped.1 .skipped scope n rfl).symm
  · exact ho
  · exact hs

end

variable {low : Nat}

/-- The walk leaves the trace that `scan` reads off the tree: which names it looks up, and in
which order it passes the WITH items. -/
lemma walk_tracks :
    (∀ n R, Stepwise sess low R → ∀ scope, Tracks R (selectStmt sess n) (scan (Reach.walked.into n) scope n)) ∧
    (∀ o R, Stepwise sess low R → ∀ scope, Tracks R (expr? sess o) (scan? .visited scope o)) ∧
    (∀ n R, Stepwise sess low R → ∀ scope, Tracks R (expr sess n) (scan .visited scope n)) ∧
    (∀ ns R, Stepwise sess low R → ∀ scope, Tracks R (exprs sess ns) (scans .visited scope ns)) ∧
    (∀ n R, Stepwise sess low R → ∀ scope, Tracks R (nestedStatement sess n) (scan (Reach.walked.into n) scope n)) ∧
    (∀ rels o R, Stepwise sess low R → (∀ past w, R past w → Within low rels w) → ∀ scope,
      Tracks R (whereClause sess rels o) (scan? .visited scope o)) ∧
    (∀ rels n R, Stepwise sess low R → (∀ past w, R past w → Within low rels w) → ∀ scope,
      Tracks R (conjuncts sess rels n) (scan .visited scope n)) ∧
    (∀ rels n R, Stepwise sess low R → (∀ past w, R past w → Within low rels w) → ∀ scope,
      Tracks R (conjunct sess rels n) (scan .visited scope n)) ∧
    (∀ i o list R, Stepwise sess low R → (∀ past w, R past w → low ≤ i ∧ i < w.rels.length) → ∀ scope,
      Tracks R (term sess i o list) (scan? .visited scope o)) ∧
    (∀ rels ns R, Stepwise sess low R → (∀ past w, R past w → Within low rels w) → ∀ scope,
      Tracks R (conjunctsOf sess rels ns) (scans .visited scope ns)) ∧
    (∀ ns R, Stepwise sess low R → ∀ scope, Tracks R (fromItems sess ns) (scans .walked scope ns)) ∧
    (∀ n R, Stepwise sess low R → ∀ scope, Tracks R (fromItem sess n) (scan .walked scope n)) ∧
    (∀ wc R, Stepwise sess low R → ∀ scope, Tracks R (withClause sess wc) (scanWith .walked scope (ctesOf wc))) ∧
    (∀ ns R, Stepwise sess low R → ∀ scope, Tracks R (withItems sess ns) (scanWith .walked scope ns)) := by
  apply selectStmt.mutual_induct sess
  case case1 =>
    intro s hw hl hr R hR scope
    have hskip := fun xs => heard_skipped.2.2.1 .skipped (stmtScope s.withClause scope) xs rfl
    have hskip' := fun o => heard_skipped.2.2.2 .skipped (stmtScope s.withClause scope) o rfl
    have htrace : heard (scan .walked scope (.setOpStmt s)) =
        heard (scanWith .walked (itemScope s.withClause scope) (ctesOf s.withClause) ++
          (scan (Reach.walked.into s.larg) (stmtScope s.withClause scope) s.larg ++
            scan (Reach.walked.into s.rarg) (stmtScope s.withClause scope) s.rarg)) := by
      rw [scan]
      simp [hskip, hskip']
    rw [selectStmt]
    refine hR.congr ?_ htrace.symm
    apply (hw R hR _).seq
    intro _
    apply (hR.blocker _).quietly
    intro _
    apply hR.flag_then
    · intro w
      split <;> simp
    intro _
    apply hR.flag_then
    · intro w
      split <;> simp
    intro _
    apply (hR.nested true).quietly
    intro _
    exact (hl R hR _).seq fun _ => hr R hR _
  case case2 =>
    intro s hw hf hwh ht hh hv R hR scope
    have hskip := fun xs => heard_skipped.2.2.1 .skipped (stmtScope s.withClause scope) xs rfl
    have hskip' := fun o => heard_skipped.2.2.2 .skipped (stmtScope s.withClause scope) o rfl
    have htrace : heard (scan .walked scope (.selectStmt s)) =
        heard (scanWith .walked (itemScope s.withClause scope) (ctesOf s.withClause) ++
          (scans .walked (stmtScope s.withClause scope) s.fromClause ++
            (scan? .visited (stmtScope s.withClause scope) s.whereClause ++
              (scans .visited (stmtScope s.withClause scope) s.targetList ++
                (scan? .visited (stmtScope s.withClause scope) s.havingClause ++
                  scans .visited (stmtScope s.withClause scope) s.valuesLists))))) := by
      rw [scan]
      simp [hskip, hskip']
    rw [selectStmt]
    refine hR.congr ?_ htrace.symm
    apply (hw R hR _).seq
    intro _
    apply hR.flag_then
    · intro w
      split <;> simp
    intro _
    refine (Tracks.change fun past w hw => ?_).quietly fun _ => ?_
    · split
      · exact hw
      · exact hR.outerFeatures (hR.quiet past w { w with outer := some s } hw rfl rfl rfl rfl rfl) s
    apply hR.read_then
    intro w hlow
    apply (hf R hR _).seq
    intro _
    apply Tracks.scoped hlow
    · exact fun w' => hwh w w' _ (hR.within _) (fun _ _ h => h.2) _
    intro _
    apply (ht R hR _).seq
    intro _
    exact (hh R hR _).seq fun _ => hv R hR _
  case case3 => exact fun n ho hs R hR scope => hR.noQuery n scope hs ho
  case case5 =>
    intro n h R hR scope
    rw [expr?, scan?]
    exact h R hR scope
  case case6 =>
    intro t q h R hR scope
    rw [expr, scan]
    apply (hR.blocker _).quietly
    intro _
    apply hR.congr (h R hR scope)
    simp [heard_skipped.2.2.2 .skipped scope t rfl]
  case case7 =>
    intro n hn h R hR scope
    rw [expr]
    · exact hR.congr (h R hR scope) (heard_visited_children scope n hn).symm
    · exact hn
  case case9 =>
    intro n rest hn hr R hR scope
    rw [exprs, scans]
    exact (hn R hR scope).seq fun _ => hr R hR scope
  case case10 =>
    intro n h R hR scope
    apply hR.nestedStatement
    intro scope
    cases n with
    | selectStmt s => exact h R hR scope
    | setOpStmt s => exact h R hR scope
    | _ => exact hR.noQuery _ scope (by simp) (by simp)
  case case12 =>
    intro rels n h R hR hs scope
    rw [whereClause, scan?]
    exact h R hR hs scope
  case case13 =>
    intro rels args h R hR hs scope
    rw [conjuncts, scan]
    · simpa [Node.children] using h R hR hs scope
    all_goals simp
  case case14 =>
    intro rels n hn h R hR hs scope
    rw [conjuncts]
    · exact h R hR hs scope
    · exact hn
  case case15 =>
    intro rels l r hwhole hr hl R hR hs scope
    exact hR.keyEquality rels l r scope hs (hwhole R hR) (fun i => hl i R hR) fun i => hr i R hR
  case case16 =>
    intro rels l r hwhole hr R hR hs scope
    exact hR.keyList rels l r scope hs (hwhole R hR) fun i => hr i R hR
  case case17 =>
    intro rels n h₁ h₂ h R hR _ scope
    rw [conjunct]
    · exact h R hR scope
    · exact h₁
    · exact h₂
  case case18 => exact fun i value list h R hR hi scope => hR.term i value list scope hi (h R hR)
  case case20 =>
    intro rels n rest hn hr R hR hs scope
    rw [conjunctsOf, scans]
    exact (hn R hR hs scope).seq fun _ => hr R hR hs scope
  case case22 =>
    intro n rest hn hr R hR scope
    rw [fromItems, scans]
    exact (hn R hR scope).seq fun _ => hr R hR scope
  case case23 => exact fun rv _ R hR scope => hR.rangeVar rv scope
  case case24 => exact fun rv _ R hR scope => hR.rangeVar rv scope
  case case25 =>
    intro j hl hr hq R hR scope
    rw [fromItem, scan, List.append_assoc]
    apply (hR.blocker _).quietly
    intro _
    apply hR.read_then
    intro w₀ hlow
    apply (hl R hR _).seq
    intro _
    apply hR.read_then
    intro _ _
    apply (hr R hR _).seq
    intro _
    refine (Tracks.change fun past w hw => hR.notePreserved hw _ _ _).quietly fun _ => ?_
    refine (Tracks.change fun past w hw => ?_).quietly fun _ => ?_
    · split
      · exact hR.joinUsing hw _ _ (within_scopeFrom w hlow)
      · exact hw
    apply hR.read_then
    intro _ _
    apply hR.flag_then
    · intro w
      split <;> simp
    intro _
    rw [← List.append_nil (scan? _ _ j.quals)]
    apply Tracks.scoped hlow
    · exact fun w₁ => hq w₀ w₁ _ (hR.within _) (fun _ _ h => h.2) scope
    exact fun _ => Tracks.change fun past w hw => hR.quiet past w _ hw rfl rfl rfl rfl rfl
  case case26 =>
    intro q _ h R hR scope
    rw [fromItem, scan]
    exact (hR.blocker _).quietly fun _ => h R hR scope
  case case27 =>
    intro fs _ h R hR scope
    rw [fromItem, scan]
    exact (hR.blocker _).quietly fun _ => h R hR scope
  case case28 =>
    intro r args rep hr ha R hR scope
    rw [fromItem, scan]
    apply hR.congr ((hr R hR scope).seq fun _ => ha R hR scope)
    simp [heard_skipped.2.2.2 .skipped scope rep rfl]
  case case29 =>
    intro d r ns cs _ hd hr R hR scope
    rw [fromItem, scan]
    apply (hR.blocker _).quietly
    intro _
    apply hR.congr ((hd R hR scope).seq fun _ => hr R hR scope)
    simp [heard_skipped.2.2.1 .skipped scope _ rfl]
  case case30 =>
    intro n h₁ h₂ h₃ h₄ h₅ h₆ R _ scope
    rw [fromItem]
    · exact Tracks.throw
    all_goals assumption
  case case32 =>
    intro wc h R hR scope
    rw [withClause]
    exact h R hR scope
  case case34 =>
    intro name cols q rest hq hr R hR scope
    have hname : Tracks R (modify fun w => { w with ctes := name :: w.ctes } : Walk PUnit) [.cte name] :=
      fun past => Leads.modify fun w hw => hR.cte past w name hw
    rw [withItems, scanWith, List.append_assoc]
    apply hname.seq
    intro _
    apply (hR.blocker _).quietly
    intro _
    exact (hq R hR _).seq fun _ => hr R hR _
  case case35 =>
    intro n rest hn hr R hR scope
    rw [withItems, scanWith]
    · apply hR.congr (hr R hR scope)
      simp [heard_skipped.1 .skipped scope n rfl]
    all_goals exact hn
  -- where there is nothing to walk
  all_goals
    intros
    first
    | rw [expr?, scan?]
    | rw [exprs, scans]
    | rw [whereClause, scan?]
    | rw [conjunctsOf, scans]
    | rw [fromItems, scans]
    | rw [withClause, ctesOf, scanWith]
    | rw [withItems, scanWith]
    exact Tracks.pure

section

variable {R : List Event → Walker → Prop} (hR : Stepwise sess low R) (scope : List String)

include hR

lemma Stepwise.exprs (ns : List Node) : Tracks R (exprs sess ns) (scans .visited scope ns) :=
  walk_tracks.2.2.2.1 ns R hR scope

lemma Stepwise.selectStmt (n : Node) :
    Tracks R (selectStmt sess n) (scan (Reach.walked.into n) scope n) := walk_tracks.1 n R hR scope

lemma Stepwise.statement (n : Node) :
    Tracks R (Planner.nestedStatement sess n) (scan (Reach.walked.into n) scope n) :=
  walk_tracks.2.2.2.2.1 n R hR scope

lemma Stepwise.whereClause {rels : Scope} (o : Option Node) (hs : ∀ past w, R past w → Within low rels w) :
    Tracks R (whereClause sess rels o) (scan? .visited scope o) :=
  walk_tracks.2.2.2.2.2.1 rels o R hR hs scope

lemma Stepwise.fromItems (ns : List Node) : Tracks R (fromItems sess ns) (scans .walked scope ns) :=
  walk_tracks.2.2.2.2.2.2.2.2.2.2.1 ns R hR scope

lemma Stepwise.withClause (wc : Option (WithClause Node)) :
    Tracks R (withClause sess wc) (scanWith .walked scope (ctesOf wc)) :=
  walk_tracks.2.2.2.2.2.2.2.2.2.2.2.2.1 wc R hR scope

end

end PgShard.Planner
