import PgShard.Copy.Drain
import PgShard.Copy.Sharded

/-!
# A sharded COPY sends every row once

When the relay of the rows succeeds, every row before the end-of-data marker went to the shard of its
key, in the order of the stream.
-/

namespace PgShard.Copy

open Key

variable {load : Load} {r r' : Relay} {done : List Row} {s : CopyInStream}

/-- The chunks the client sends before its part of the COPY ends. -/
def received : List Receive → List Bytes
  | .message (.copyData data) :: rest => data :: received rest
  | .message .other :: rest => received rest
  | _ => []

/-- The bytes a shard's stream took. -/
def sentTo (trace : List Sent) (shard : Nat) : Bytes :=
  trace.flatMap fun s =>
    match s.request with
    | .copyData data => if s.shard = shard ∧ s.delivered = true then data else []
    | _ => []

/-- The row's key belongs to the shard. -/
def Load.belongs (load : Load) (shard : Nat) (row : Row) : Bool :=
  match load.copyShard row.key with
  | .ok sh => sh = shard
  | .error _ => false

/-- The bytes of the rows that belong to a shard, in their order. -/
def Load.routed (load : Load) (rows : List Row) (shard : Nat) : Bytes :=
  (rows.filter (load.belongs shard)).flatMap Row.bytes

@[simp] lemma Load.routed_append (load : Load) (xs ys : List Row) (shard : Nat) :
    load.routed (xs ++ ys) shard = load.routed xs shard ++ load.routed ys shard := by
  simp [Load.routed]

namespace Relay

variable {pending : List (Nat × Bytes)} {shard : Nat} {b : Bytes}

lemma lookup_map_other {other : Nat} (h : other ≠ shard) :
    (pending.map fun p => if p.1 = shard then (shard, b) else p).lookup other = pending.lookup other := by
  induction pending with
  | nil => rfl
  | cons p rest ih => grind

lemma lookup_setPending (pending : List (Nat × Bytes)) (shard other : Nat) (b : Bytes) :
    (setPending pending shard b).lookup other = if other = shard then some b else pending.lookup other := by
  induction pending with
  | nil => grind [setPending]
  | cons p rest ih =>
    by_cases hp : p.1 = shard
    · have hothers := @lookup_map_other rest shard b other
      grind [setPending]
    · have hrest : setPending (p :: rest) shard b = p :: setPending rest shard b := by
        grind [setPending]
      grind

lemma lookup_mem (h : (pending.lookup shard).getD [] ≠ []) : shard ∈ pending.map Prod.fst := by
  induction pending with
  | nil => exact absurd rfl h
  | cons p rest ih => grind

end Relay

/-! ### What the relay has done so far -/

/-- The relay has taken exactly these rows: each is at its shard or waits to be sent there. -/
structure Carries (load : Load) (r : Relay) (done : List Row) : Prop where
  count : r.rows = done.length
  placed : ∀ row ∈ done, ∃ shard, load.copyShard row.key = .ok shard ∧ (load.part shard).isSome
  bytes : ∀ shard, sentTo r.trace shard ++ r.pendingOf shard = load.routed done shard

namespace Carries

variable {load : Load} {r r' : Relay} {done : List Row}

lemma part_shard {shard : Nat} {p : Part} (h : load.part shard = some p) : p.shard = shard := by
  simpa using List.find?_some h

/-- What is pending for a shard has a part to go to. -/
lemma part_isSome (h : Carries load r done) {shard : Nat} (hp : r.pendingOf shard ≠ []) :
    (load.part shard).isSome := by
  have hne : load.routed done shard ≠ [] := by
    rw [← h.bytes]
    simp [hp]
  obtain ⟨row, hmem, hbelongs, -⟩ :
      ∃ row ∈ done, load.belongs shard row = true ∧ ¬row.bytes = [] := by
    simpa [Load.routed] using hne
  obtain ⟨sh, hsh, hpart⟩ := h.placed row hmem
  simp only [Load.belongs, hsh, decide_eq_true_eq] at hbelongs
  rwa [← hbelongs]

lemma flush (h : Carries load r done) {p : Part} (hf : r.flush load p = (r', none)) :
    Carries load r' done ∧ ∀ shard, r'.pendingOf shard =
      if shard = p.shard then [] else r.pendingOf shard := by
  unfold Relay.flush at hf
  by_cases hempty : r.pendingOf p.shard = []
  · rw [if_pos hempty] at hf
    cases hf
    refine ⟨h, fun shard => ?_⟩
    split
    · rename_i heq
      rw [heq, hempty]
    · rfl
  · rw [if_neg hempty] at hf
    unfold Load.sendOn at hf
    by_cases hstream : p.stream = true
    · simp only [hstream, if_true, post, Prod.mk.injEq] at hf
      obtain ⟨rfl, hok⟩ := hf
      have hsent : load.wire r.trace p.shard (.copyData (r.pendingOf p.shard)) = true := by
        by_contra hno
        simp [hno] at hok
      have hpending : ∀ shard, Relay.pendingOf { r with
          trace := r.trace ++ [⟨p.shard, .copyData (r.pendingOf p.shard), load.wire r.trace p.shard (.copyData (r.pendingOf p.shard))⟩],
          pending := Relay.setPending r.pending p.shard [] } shard =
          if shard = p.shard then [] else r.pendingOf shard := by
        intro shard
        simp only [Relay.pendingOf, Relay.lookup_setPending]
        split <;> rfl
      refine ⟨⟨h.count, h.placed, fun shard => ?_⟩, hpending⟩
      rw [hpending, ← h.bytes shard]
      by_cases hs : shard = p.shard
      · subst hs
        simp [sentTo, hsent]
      · simp [sentTo, hs, Ne.symm hs]
    · simp only [hstream] at hf
      simp at hf

lemma place (h : Carries load r done) {row : Row} (hp : r.place load row = (r', none)) :
    Carries load r' (done ++ [row]) := by
  unfold Relay.place at hp
  split at hp
  · simp at hp
  · cases hsh : load.copyShard row.key with
    | error e => simp [hsh] at hp
    | ok shard =>
      cases hpart : load.part shard with
      | none => simp [hsh, hpart] at hp
      | some p =>
        simp only [hsh, hpart] at hp
        have hbelongs : ∀ sh, load.belongs sh row = decide (shard = sh) := by
          intro sh
          simp [Load.belongs, hsh]
        have held : Carries load { r with
            pending := Relay.setPending r.pending shard (r.pendingOf shard ++ row.bytes),
            rows := r.rows + 1 } (done ++ [row]) := by
          refine ⟨by simp [h.count], ?_, ?_⟩
          · intro row' hrow'
            rcases List.mem_append.mp hrow' with hold | hnew
            · exact h.placed row' hold
            · rw [List.mem_singleton.mp hnew]
              exact ⟨shard, hsh, by simp [hpart]⟩
          · intro sh
            have hold := h.bytes sh
            simp only [Relay.pendingOf, Relay.lookup_setPending, Load.routed_append] at hold ⊢
            by_cases heq : sh = shard
            · subst heq
              rw [if_pos rfl, ← hold]
              simp [Load.routed, hbelongs]
            · rw [if_neg heq, hold]
              simp [Load.routed, hbelongs, Ne.symm heq]
        split at hp
        · exact (held.flush hp).1
        · cases hp
          exact held

/-- The rows held go out: what was pending for the listed shards is not pending any more. -/
lemma flushAll (h : Carries load r done) {shards : List Nat} (hf : r.flushAll load shards = (r', none)) :
    Carries load r' done ∧ ∀ shard, r'.pendingOf shard ≠ [] →
      shard ∉ shards ∧ r.pendingOf shard ≠ [] := by
  induction shards generalizing r with
  | nil =>
    cases hf
    exact ⟨h, fun shard hp => ⟨List.not_mem_nil, hp⟩⟩
  | cons sh rest ih =>
    unfold Relay.flushAll at hf
    cases hpart : load.part sh with
    | none =>
      rw [hpart] at hf
      obtain ⟨hc, hall⟩ := ih h hf
      refine ⟨hc, fun shard hp => ?_⟩
      obtain ⟨hnot, hpend⟩ := hall shard hp
      refine ⟨?_, hpend⟩
      -- a shard without a part has nothing pending
      rintro (_ | ⟨_, hmem⟩)
      · have hsome := h.part_isSome hpend
        simp [hpart] at hsome
      · exact hnot hmem
    | some p =>
      simp only [hpart] at hf
      cases hflush : r.flush load p with
      | mk r₁ failure =>
        rw [hflush] at hf
        cases failure with
        | some e => simp at hf
        | none =>
          obtain ⟨hc₁, hpend₁⟩ := h.flush hflush
          obtain ⟨hc, hall⟩ := ih hc₁ hf
          refine ⟨hc, fun shard hp => ?_⟩
          obtain ⟨hnot, hpend⟩ := hall shard hp
          rw [hpend₁] at hpend
          have hne : shard ≠ sh := by
            rintro rfl
            rw [part_shard hpart] at hpend
            simp at hpend
          refine ⟨?_, ?_⟩
          · rintro (_ | ⟨_, hmem⟩)
            · exact hne rfl
            · exact hnot hmem
          · rwa [if_neg (by rw [part_shard hpart]; exact hne)] at hpend

end Carries

/-! ### The rows up to the marker -/

def isRow (row : Row) : Bool := !isMarker row.bytes

/-- The marker has no key, and nothing but the marker is taken for it. -/
lemma marker_iff {s s' : Splitter} {row : Row} (h : s.next = .ok (some row, s')) :
    (row.key = [] ∧ row.keyIsNull = false ∧ isMarker row.bytes = true) ↔ isRow row = false := by
  have hcut : ∀ {t t' : Splitter} {n : Nat}, t.cut n = .ok (some row, t') →
      isMarker row.bytes = true → row.key = [] ∧ row.keyIsNull = false := by
    intro t t' n hcut hm
    unfold Splitter.cut at hcut
    dsimp only at hcut
    split at hcut
    · cases hcut
      exact ⟨rfl, rfl⟩
    · rename_i hno
      split at hcut
      · cases hcut
      · cases hcut
        exact absurd hm hno
  have hmarker : isMarker row.bytes = true → row.key = [] ∧ row.keyIsNull = false := by
    unfold Splitter.next at h
    split at h
    · cases h
    · exact hcut h
    · split at h
      · exact hcut h
      · cases h
  simp only [isRow, Bool.not_eq_false']
  exact ⟨fun hall => hall.2.2, fun hm => ⟨(hmarker hm).1, (hmarker hm).2, hm⟩⟩

lemma Carries.with_split (h : Carries load r done) (split : Splitter) (ended : Bool) :
    Carries load { r with split := split, ended := ended } done :=
  { h with }

/-- A relay that has taken these rows of the splitter's, up to the marker if it came up. -/
def Routed (load : Load) (r : Relay) (done rows : List Row) (rest : Except SplitError Splitter) : Prop :=
  Carries load r (done ++ rows.takeWhile isRow) ∧
    if rows.all isRow then r.ended = false ∧ rest = .ok r.split else r.ended = true

lemma route_routed (h : Carries load r done) (hend : r.ended = false) (hr : r.route load = (r', none)) :
    Routed load r' done r.split.drain.1 r.split.drain.2 := by
  fun_induction Relay.route load r generalizing done with
  | case1 r e hnext => simp at hr
  | case2 r split hnext =>
    cases hr
    rw [Splitter.drain_none hnext]
    exact ⟨by simpa using h.with_split split r.ended, by simp [hend]⟩
  | case3 r row split hnext _ hmark =>
    cases hr
    have hrow := (marker_iff hnext).mp hmark
    rw [Splitter.drain_some hnext]
    exact ⟨by simpa [hrow] using h.with_split split true, by simp [hrow]⟩
  | case4 r row split hnext _ hmark r₁ e hp => simp at hr
  | case5 r row hmark r₁ hnext _ hp ih =>
    have hrow : isRow row = true := by
      by_contra hno
      exact hmark ((marker_iff hnext).mpr (Bool.eq_false_iff.mpr hno))
    have hend₁ : r₁.ended = false := by
      have := Relay.place_frame load { r with split := r₁.split } row
      rw [hp] at this
      exact this.2.trans hend
    obtain ⟨hcarries, hrest⟩ := ih ((h.with_split r₁.split r.ended).place hp) hend₁ hr
    rw [Splitter.drain_some hnext]
    exact ⟨by simpa [hrow] using hcarries, by simpa [hrow] using hrest⟩

lemma received_next {s' : CopyInStream} {res : Except StreamError Bytes} (hd : s.done = false)
    (h : s.next = some (res, s')) : received s.queue = match res with
      | .ok data => data :: received s'.queue
      | .error _ => [] := by
  have h : receive s.queue = some (res, s') := by simpa [CopyInStream.next, hd] using h
  generalize s.queue = queue at h
  fun_induction receive queue with
  | case8 rest ih => exact ih h
  | _ => cases h <;> rfl

/-- Every one of these rows was sent to its shard. -/
def Delivered (load : Load) (trace : List Sent) (n : Nat) (rows : List Row) : Prop :=
  n = rows.length ∧ (∀ row ∈ rows, ∃ shard, load.copyShard row.key = .ok shard) ∧
    ∀ shard, sentTo trace shard = load.routed rows shard

lemma flushed_delivered (h : Carries load r done) (hf : r.flushAll load (r.pending.map Prod.fst) = (r', none)) :
    Delivered load r'.trace r'.rows done := by
  obtain ⟨hc, hall⟩ := h.flushAll hf
  refine ⟨hc.count, ?_, ?_⟩
  · intro row hrow
    obtain ⟨shard, hsh, -⟩ := hc.placed row hrow
    exact ⟨shard, hsh⟩
  · intro shard
    have hempty : r'.pendingOf shard = [] := by
      by_contra hp
      obtain ⟨hnot, hpend⟩ := hall shard hp
      exact hnot (Relay.lookup_mem hpend)
    have := hc.bytes shard
    rwa [hempty, List.append_nil] at this

lemma close_delivered (h : Carries load r done) (hc : r.close load = (r', none)) :
    if r.ended then Delivered load r'.trace r'.rows done
    else Delivered load r'.trace r'.rows (done ++ (r.split.feed []).1.takeWhile isRow) ∧
      ((r.split.feed []).1.all isRow = true → (r.split.feed []).2 = none) := by
  unfold Relay.close at hc
  cases hend : r.ended with
  | true =>
    simp only [hend, if_true] at hc ⊢
    exact flushed_delivered h hc
  | false =>
    simp only [hend, Bool.false_eq_true, if_false] at hc ⊢
    cases hroute : Relay.route load { r with split := r.split.finish, ended := false } with
    | mk r₁ failure =>
      rw [hroute] at hc
      cases failure with
      | some e => simp at hc
      | none =>
        obtain ⟨hcarries, hrest⟩ := route_routed (h.with_split r.split.finish false) rfl hroute
        have hfeed : (r.split.feed []).1 = r.split.finish.drain.1 := by
          unfold Splitter.feed
          split <;> simp_all
        rw [hfeed]
        refine ⟨flushed_delivered hcarries hc, fun hall => ?_⟩
        rw [if_pos hall] at hrest
        unfold Splitter.feed
        split <;> simp_all

lemma chunk_routed {data : Bytes}
    (h : Carries load r done) (hend : r.ended = false) (hc : r.chunk load data = (r', none)) :
    Routed load r' done (r.split.write data).drain.1 (r.split.write data).drain.2 := by
  unfold Relay.chunk at hc
  simp only [hend, Bool.false_eq_true, if_false] at hc
  cases hroute : Relay.route load { r with split := r.split.write data, ended := false } with
  | mk r₁ failure =>
    rw [hroute] at hc
    cases failure with
    | some e => simp at hc
    | none =>
      simp only at hc
      split at hc
      · simp at hc
      · cases hc
        exact route_routed (h.with_split (r.split.write data) false) rfl hroute

lemma takeWhile_append_of_not_all {α : Type} {p : α → Bool} {xs : List α} (ys : List α)
    (h : xs.all p = false) : (xs ++ ys).takeWhile p = xs.takeWhile p := by
  induction xs with
  | nil => cases h
  | cons x xs ih =>
    by_cases hx : p x = true
    · simp only [List.cons_append, List.takeWhile_cons, hx, if_true]
      rw [ih (by simpa [hx] using h)]
    · simp [hx]

/-- The rows of the first chunk come first, and then nothing else if it ended in an error. -/
lemma feed_cons (s : Splitter) (data : Bytes) (chunks : List Bytes) :
    ∃ more, (s.feed (data :: chunks)).1 = (s.write data).drain.1 ++ more ∧ ∀ s', (s.write data).drain.2 = .ok s' →
        more = (s'.feed chunks).1 ∧ (s.feed (data :: chunks)).2 = (s'.feed chunks).2 := by
  cases hd : (s.write data).drain with
  | mk rows res =>
    cases res with
    | error e => exact ⟨[], by simp [Splitter.feed, hd], by simp⟩
    | ok s' => exact ⟨(s'.feed chunks).1, by simp [Splitter.feed, hd], by simp [Splitter.feed, hd]⟩

/-- The loop: it has taken `done`, and takes what the splitter yields for the rest of the stream, up
to the marker. -/
lemma relay_delivered {trace : List Sent} {n : Nat} (h : Carries load r done) (hd : s.done = false)
    (hsplit : r.ended = false → r.split.ended = false) (hr : relayCopyRows load r s = (trace, .rows n)) :
    if r.ended then Delivered load trace n done
    else Delivered load trace n (done ++ (r.split.feed (received s.queue)).1.takeWhile isRow) ∧
      ((r.split.feed (received s.queue)).1.all isRow = true →
        (r.split.feed (received s.queue)).2 = none) := by
  fun_induction relayCopyRows load r s generalizing done with
  | case3 r s data s' hnext _ r₁ hchunk ih =>
    obtain ⟨-, hd', -⟩ := next_data hnext
    rw [received_next hd hnext]
    cases hend : r.ended with
    | true =>
      have hsame : r₁ = r := by
        simp only [Relay.chunk, hend, if_true] at hchunk
        cases hchunk
        rfl
      subst hsame
      have := ih h hd' hsplit hr
      rwa [hend] at this
    | false =>
      obtain ⟨hcarries, hrest⟩ := chunk_routed h hend hchunk
      obtain ⟨more, hrows, hmore⟩ := feed_cons r.split data (received s'.queue)
      simp only [Bool.false_eq_true, if_false, hrows]
      cases hall : (r.split.write data).drain.1.all isRow with
      | true =>
        simp only [hall, if_true] at hrest
        obtain ⟨hend₁, hok⟩ := hrest
        obtain ⟨hmore, herr⟩ := hmore _ hok
        have hsplit₁ : r₁.split.ended = false :=
          (Splitter.drain_ok_ended (s := r.split.write data) hok).trans (hsplit hend)
        have := ih hcarries hd' (fun _ => hsplit₁) hr
        simp only [hend₁, Bool.false_eq_true, if_false] at this
        have hpos := List.all_eq_true.mp hall
        rw [List.takeWhile_append_of_pos hpos, herr, hmore, List.all_append, hall, Bool.true_and, ← List.append_assoc]
        rwa [List.takeWhile_eq_self_iff.mpr hpos] at this
      | false =>
        simp only [hall, Bool.false_eq_true, if_false] at hrest
        have := ih hcarries hd' (by simp [hrest]) hr
        simp only [hrest, if_true] at this
        rw [takeWhile_append_of_not_all _ hall, List.all_append, hall, Bool.false_and]
        exact ⟨this, by simp⟩
  | case6 r s s' hnext r₁ hclose =>
    cases hr
    rw [received_next hd hnext]
    exact close_delivered h hclose
  | _ => simp at hr

/-- The rows before the marker, and the marker with whatever follows it. -/
lemma rows_partition {s : Splitter} (hs : s.ended = true)
    (hok : s.drain.1.all isRow = true → ∃ s', s.drain.2 = .ok s') :
    ∃ tail, s.buf = (s.drain.1.takeWhile isRow).flatMap Row.bytes ++ tail ∧
      (tail = [] ∨ ∃ marker after, isMarker marker = true ∧ tail = marker ++ after) := by
  obtain ⟨left, hbuf, hall⟩ := s.drain_bytes
  cases hrows : s.drain.1.all isRow with
  | true =>
    obtain ⟨s', hs'⟩ := hok hrows
    rw [hall hs s' hs', List.append_nil] at hbuf
    refine ⟨[], ?_, .inl rfl⟩
    rw [List.takeWhile_eq_self_iff.mpr (List.all_eq_true.mp hrows), List.append_nil]
    exact hbuf
  | false =>
    rw [← List.takeWhile_append_dropWhile (p := isRow) (l := s.drain.1), List.flatMap_append, List.append_assoc] at hbuf
    refine ⟨_, hbuf, .inr ?_⟩
    cases hdrop : s.drain.1.dropWhile isRow with
    | nil =>
      rw [List.dropWhile_eq_nil_iff] at hdrop
      rw [List.all_eq_true.mpr hdrop] at hrows
      cases hrows
    | cons row rest =>
      have hrow : isRow row = false := by
        have := List.head_dropWhile_not isRow (l := s.drain.1) (by simp [hdrop])
        simpa [hdrop] using this
      exact ⟨row.bytes, rest.flatMap Row.bytes ++ left, by simpa [isRow] using hrow, by simp⟩

/-- What the splitter yields depends only on the bytes of the stream, and a relay that succeeds has
sent every row before the end-of-data marker to the shard of its key, in the order of the stream, and
nothing else. -/
theorem sharded_copy_conserves :
    (∀ (keyCol cols : Nat) (chunks chunks' : List Bytes), chunks.flatten = chunks'.flatten →
      yields keyCol cols chunks = yields keyCol cols chunks') ∧
    ∀ (load : Load) (client : List Receive) (trace : List Sent) (n : Nat),
      relayCopyRows load { split := { keyCol := load.keyColumn, cols := load.columns } }
        { queue := client } = (trace, .rows n) →
      let rows := (yields load.keyColumn load.columns (received client)).1.takeWhile isRow
      n = rows.length ∧ (∀ row ∈ rows, ∃ shard, load.copyShard row.key = .ok shard) ∧
        (∀ shard, sentTo trace shard = load.routed rows shard) ∧
        ∃ tail, (received client).flatten = rows.flatMap Row.bytes ++ tail ∧
          (tail = [] ∨ ∃ marker after, isMarker marker = true ∧ tail = marker ++ after) := by
  refine ⟨?_, ?_⟩
  · intro keyCol cols chunks chunks' h
    rw [yields_eq, h, ← yields_eq]
  · intro load client trace n hr
    have hstart : Carries load { split := { keyCol := load.keyColumn, cols := load.columns } } [] :=
      ⟨rfl, by simp, fun _ => rfl⟩
    have hrelay := relay_delivered hstart rfl (fun _ => rfl) hr
    simp only [Bool.false_eq_true, if_false, List.nil_append] at hrelay
    obtain ⟨⟨hn, hplaced, hsent⟩, hok⟩ := hrelay
    refine ⟨hn, hplaced, hsent, ?_⟩
    simp only [yields]
    rw [Splitter.feed_eq_drain rfl] at hok ⊢
    exact rows_partition rfl fun hall => by
      have := hok hall
      split at this
      · cases this
      · exact ⟨_, ‹_›⟩

-- Two shards, and a first row that arrives in two chunks.
example :
    let load : Load :=
      { set := "main", keyColumn := 0, columns := 1, copyShard := fun key => .ok (key.length % 2),
        targets := [⟨0, true⟩, ⟨1, true⟩], start := fun _ => .rows, wire := fun _ _ _ => true, told := true }
    relayCopyRows load { split := { keyCol := 0, cols := 1 } }
      { queue := [.message (.copyData [53]), .message (.copyData [10, 54, 54, 10]), .message .copyDone] } =
    ([⟨1, .copyData [53, 10], true⟩, ⟨0, .copyData [54, 54, 10], true⟩], .rows 2) := by
  decide +kernel

end PgShard.Copy
