import PgShard.Vstream.Merge

/-!
# One shard of a stream

What the acknowledgements of a shard depend on, taken by itself: the units the reader has pushed, the one
the merger is at, what was sent and published of them, and the acks asked for.
-/

namespace PgShard.Vstream

/-- What is left to be noted of a unit that the merger has begun. -/
inductive Part
  | sending
  | sent
  | marked
  | moved
  deriving DecidableEq

/-- `pos` and `flag` are what is published of the shard, `copying` is what the merger itself knows. -/
structure Lane where
  pos : Nat := 0
  flag : Bool := false
  copying : Bool := false
  current : Option (StreamUnit × Part) := none
  queue : List StreamUnit := []
  delivered : Nat := 0
  copies : Bool := false
  snapshot : Nat := 0
  want : Nat := 0
  lastSent : Nat := 0

namespace Lane

variable (k : Lane)

def push (u : StreamUnit) : Lane :=
  if u.position && u.endLSN ≤ k.delivered then k
  else { k with queue := k.queue ++ [u], delivered := if u.position then u.endLSN else k.delivered }

def setSnapshot (lsn : Nat) : Lane := { k with snapshot := lsn }

def endCopy : Lane := { k with copies := false }

/-- The merger begins with the first unit. -/
def take : Lane :=
  match k.queue with
  | u :: us => { k with current := some (u, .sending), queue := us }
  | [] => k

/-- The stream ends, or its unit is an error. -/
def leave : Lane := { k with current := none }

def skip : Lane := { k with current := none, queue := k.queue.tail }

def send (u : StreamUnit) : Lane :=
  { k with current := some (u, .sent), lastSent := if u.position then u.endLSN else k.lastSent }

def mark (u : StreamUnit) : Lane :=
  { k with
    current := some (u, .marked)
    copying := u.copy.isSome || k.copying
    flag := u.copy.isSome || k.flag }

/-- The position is published when it moves. -/
def move (u : StreamUnit) (moves : Bool) : Lane :=
  { k with current := some (u, .moved), pos := if moves then max u.endLSN k.pos else k.pos }

def unmark (u : StreamUnit) : Lane :=
  { k with current := none, copying := !u.copyDone && k.copying, flag := !u.copyDone && k.flag }

def request (lsn : Nat) : Lane :=
  if k.copying then k
  else if 0 < min lsn k.pos then { k with want := max (min lsn k.pos) k.want } else k

/-- The units that are not behind the merger. -/
def ahead : List StreamUnit := (k.current.map (·.1)).toList ++ k.queue

/-- The units that are not sent in full. -/
def unsent : List StreamUnit :=
  match k.current with
  | some (u, .sending) => u :: k.queue
  | _ => k.queue

/-- What an LSN of the shard is held to. A copy counts once it was handed over in full. -/
def limit (handed : Nat) : Nat := if k.copies then max handed k.snapshot else handed

/-- The units that are not sent: their positions rise beyond what was sent. -/
structure Units (lastSent : Nat) (us : List StreamUnit) : Prop where
  rising : (us.filter (·.position)).Pairwise fun u v => u.endLSN < v.endLSN
  later : ∀ u ∈ us, u.position = true → lastSent ≤ u.endLSN

/-- The units ahead. Behind the end of the copy nothing is copied. -/
structure Course (sh : Shard) (copying copies : Bool) (bound : Nat) (us : List StreamUnit) : Prop where
  own : ∀ u ∈ us, u.shard = sh
  finished : copying = false → copies = false ∧ ∀ u ∈ us, u.copy = none ∧ u.copyDone = false
  lastCopy : us.Pairwise fun u v => u.copyDone = true → v.copy = none ∧ v.copyDone = false
  copyEnd : ∀ u ∈ us, u.copyDone = true → copies = false
  bound : ∀ u ∈ us, u.position = true → u.endLSN ≤ bound

structure Sound (sh : Shard) (handed : Nat) (k : Lane) : Prop where
  /-- What is published was sent. -/
  pos : k.pos ≤ k.lastSent
  limit : k.pos ≤ k.limit handed
  sent : k.lastSent ≤ k.delivered
  want : k.want ≤ k.pos
  clear : 0 < k.want → k.copying = false
  flag : k.copying = true → k.flag = true
  current : ∀ u part, k.current = some (u, part) → part ≠ .sending → u.position = true → u.endLSN ≤ k.lastSent
  units : Units k.lastSent k.unsent
  course : Course sh k.copying k.copies (min k.delivered (k.limit handed)) k.ahead

variable {k} {handed bound bound' lastSent : Nat} {sh : Shard} {us vs : List StreamUnit} {u : StreamUnit}
  {copying copies : Bool}

lemma Units.sublist (h : Units lastSent us) (hsub : vs.Sublist us) : Units lastSent vs :=
  ⟨h.rising.sublist (hsub.filter _), fun u hu => h.later u (hsub.subset hu)⟩

lemma Course.sublist (h : Course sh copying copies bound us) (hsub : vs.Sublist us) :
    Course sh copying copies bound vs where
  own u hu := h.own u (hsub.subset hu)
  finished hno := ⟨(h.finished hno).1, fun u hu => (h.finished hno).2 u (hsub.subset hu)⟩
  lastCopy := h.lastCopy.sublist hsub
  copyEnd u hu := h.copyEnd u (hsub.subset hu)
  bound u hu := h.bound u (hsub.subset hu)

lemma Course.more (h : Course sh copying copies bound us) (hle : bound ≤ bound') :
    Course sh copying copies bound' us :=
  { h with bound := fun u hu hp => (h.bound u hu hp).trans hle }

lemma Course.nil (h : copying = false → copies = false) : Course sh copying copies bound [] :=
  ⟨by simp, fun hno => ⟨h hno, by simp⟩, .nil, by simp, by simp⟩

lemma limit_mono {handed' : Nat} (h : handed ≤ handed') : k.limit handed ≤ k.limit handed' := by
  cases hc : k.copies <;> simp only [limit, hc, if_true, if_false, Bool.false_eq_true] <;> omega

lemma Sound.more (h : k.Sound sh handed) {handed' : Nat} (hle : handed ≤ handed') : k.Sound sh handed' := by
  have hlimit : k.limit handed ≤ k.limit handed' := limit_mono hle
  exact { h with limit := h.limit.trans hlimit, course := h.course.more (by omega) }

lemma unsent_sublist : k.unsent.Sublist k.ahead := by
  unfold unsent ahead
  split
  · rename_i u hcur
    simp [hcur]
  · exact List.sublist_append_right _ _

lemma queue_sublist_unsent : k.queue.Sublist k.unsent := by
  unfold unsent
  split
  · exact List.sublist_cons_self _ _
  · exact List.Sublist.refl _

lemma unsent_queue (us : List StreamUnit) (delivered : Nat) :
    ({ k with queue := k.queue ++ us, delivered := delivered } : Lane).unsent = k.unsent ++ us := by
  simp only [unsent]
  split <;> simp

lemma forall_snoc {p : StreamUnit → Prop} : (∀ v ∈ us ++ [u], p v) ↔ (∀ v ∈ us, p v) ∧ p u := by
  simp [or_imp, forall_and]

lemma Units.push (h : Units lastSent us) (hnew : u.position = true → lastSent ≤ u.endLSN)
    (hold : ∀ v ∈ us, v.position = true → u.position = true → v.endLSN < u.endLSN) : Units lastSent (us ++ [u]) where
  rising := by
    rw [List.filter_append, List.pairwise_append]
    refine ⟨h.rising, ?_, ?_⟩
    · by_cases hp : u.position = true <;> simp [hp]
    · intro a ha b hb
      obtain ⟨hamem, hap⟩ := List.mem_filter.mp ha
      obtain ⟨hbmem, hbp⟩ := List.mem_filter.mp hb
      obtain rfl := List.mem_singleton.mp hbmem
      exact hold a hamem hap hbp
  later := forall_snoc.mpr ⟨h.later, hnew⟩

lemma Course.push (h : Course sh copying copies bound us) (hown : u.shard = sh)
    (hcopy : copies = false → u.copy = none ∧ u.copyDone = false) (hdone : u.copyDone = true → copies = false)
    (hbound : u.position = true → u.endLSN ≤ bound) : Course sh copying copies bound (us ++ [u]) where
  own := forall_snoc.mpr ⟨h.own, hown⟩
  finished hno := ⟨(h.finished hno).1, forall_snoc.mpr ⟨(h.finished hno).2, hcopy (h.finished hno).1⟩⟩
  lastCopy := by
    refine List.pairwise_append.mpr ⟨h.lastCopy, List.pairwise_singleton _ _, ?_⟩
    intro a ha b hb hend
    obtain rfl := List.mem_singleton.mp hb
    exact hcopy (h.copyEnd a ha hend)
  copyEnd := forall_snoc.mpr ⟨h.copyEnd, hdone⟩
  bound := forall_snoc.mpr ⟨h.bound, hbound⟩

/-- A unit of the stream, or one of a copy that is going on. -/
lemma Sound.push (h : k.Sound sh handed) (hown : u.shard = sh) (hdone : u.copyDone = false)
    (hcopy : u.copy = none ∨ k.copies = true)
    (hlimit : u.position = true → u.endLSN ≤ k.limit handed) : (k.push u).Sound sh handed := by
  unfold Lane.push
  split
  · exact h
  · rename_i hold
    have hnew : u.position = true → k.delivered < u.endLSN := by simpa using hold
    have hgrows : k.delivered ≤ if u.position then u.endLSN else k.delivered := by
      split
      · exact Nat.le_of_lt (hnew ‹_›)
      · exact .refl
    have hfree : k.copies = false → u.copy = none ∧ u.copyDone = false := by
      intro hno
      simp only [hno, Bool.false_eq_true, or_false] at hcopy
      exact ⟨hcopy, hdone⟩
    have hmore := show min k.delivered (k.limit handed) ≤ min (if u.position then u.endLSN else k.delivered) (k.limit handed) by omega
    refine { h with sent := h.sent.trans hgrows, units := ?_, course := ?_ }
    · rw [unsent_queue]
      apply h.units.push
      · exact fun hp => h.sent.trans (Nat.le_of_lt (hnew hp))
      · intro v hv hvp hp
        have hreached := h.course.bound v (unsent_sublist.subset hv) hvp
        have hlt := hnew hp
        omega
    · change Course sh k.copying k.copies (min _ (k.limit handed)) (_ ++ (k.queue ++ [u]))
      rw [← List.append_assoc]
      apply (h.course.more hmore).push hown hfree
      · simp [hdone]
      · intro hp
        have hle := hlimit hp
        simp only [hp, if_true]
        omega

/-- Nothing of the shard has a position yet when its copy starts from nothing. -/
lemma Sound.snapshot (h : k.Sound sh handed) (hnothing : k.delivered = 0) (cp : Nat) :
    (k.setSnapshot cp).Sound sh handed := by
  have hpos := h.pos.trans h.sent
  rw [hnothing] at hpos
  refine { h with limit := hpos.trans (Nat.zero_le _), course := h.course.more ?_ }
  rw [hnothing, Nat.zero_min]
  exact Nat.zero_le _

/-- The copy was handed over in full. -/
lemma Sound.finish (h : k.Sound sh handed) (hcopies : k.copies = true) (hown : u.shard = sh)
    (hpos : u.position = false) : (k.push u).endCopy.Sound sh (max k.snapshot handed) := by
  have hcopying : k.copying = true := by
    by_contra hno
    have hfalse := (h.course.finished (by simpa using hno)).1
    simp [hcopies] at hfalse
  have hgoing : ∀ v ∈ k.ahead, v.copyDone = false := by
    intro v hv
    by_contra hdone
    have hfalse := h.course.copyEnd v hv (by simpa using hdone)
    simp [hcopies] at hfalse
  have hpush : k.push u = { k with queue := k.queue ++ [u], delivered := k.delivered } := by
    simp [Lane.push, hpos]
  have hlimit : k.limit handed = max k.snapshot handed := by simp [Lane.limit, hcopies, Nat.max_comm]
  rw [hpush]
  refine { h with limit := hlimit ▸ h.limit, units := ?_, course := ?_ }
  · have hunits := h.units.push (u := u) (by simp [hpos]) (by simp [hpos])
    rwa [← unsent_queue [u] k.delivered] at hunits
  · change Course sh k.copying false (min k.delivered (max k.snapshot handed)) (_ ++ (k.queue ++ [u]))
    rw [← List.append_assoc, ← hlimit, hcopying]
    constructor
    · exact forall_snoc.mpr ⟨h.course.own, hown⟩
    · nofun
    · refine List.pairwise_append.mpr ⟨h.course.lastCopy, List.pairwise_singleton _ _, ?_⟩
      intro a ha b _ hdone
      simp [hgoing a ha] at hdone
    · exact fun _ _ _ => rfl
    · exact forall_snoc.mpr ⟨h.course.bound, by simp [hpos]⟩

lemma Sound.take (h : k.Sound sh handed) (hfree : k.current = none) : k.take.Sound sh handed := by
  unfold Lane.take
  split
  · rename_i u us hq
    have hahead : k.ahead = u :: us := by simp [Lane.ahead, hfree, hq]
    have hunsent : k.unsent = u :: us := by simp [Lane.unsent, hfree, hq]
    have hunits := h.units
    have hcourse := h.course
    rw [hunsent] at hunits
    rw [hahead] at hcourse
    refine { h with current := ?_, units := hunits, course := hcourse }
    rintro v part ⟨⟩ hne
    exact absurd rfl hne
  · exact h

/-- Fewer units are ahead. -/
lemma Sound.fewer (h : k.Sound sh handed) (hsub : us.Sublist k.unsent) :
    ({ k with current := none, queue := us } : Lane).Sound sh handed :=
  { h with
    current := by simp
    units := h.units.sublist hsub
    course := h.course.sublist (hsub.trans unsent_sublist) }

lemma Sound.leave (h : k.Sound sh handed) : k.leave.Sound sh handed := h.fewer queue_sublist_unsent

lemma Sound.skip (h : k.Sound sh handed) : k.skip.Sound sh handed :=
  h.fewer ((List.tail_sublist _).trans queue_sublist_unsent)

variable {part : Part}

section

variable (h : k.Sound sh handed)

include h

/-- What is ahead while the merger is at a unit. -/
lemma Sound.at (hcur : k.current = some (u, part)) :
    Course sh k.copying k.copies (min k.delivered (k.limit handed)) (u :: k.queue) := by
  have hahead : k.ahead = u :: k.queue := by simp [ahead, hcur]
  exact hahead ▸ h.course

lemma Sound.rest : Units k.lastSent k.queue := h.units.sublist queue_sublist_unsent

lemma Sound.send (hcur : k.current = some (u, .sending)) : (k.send u).Sound sh handed := by
  have hcourse := h.at hcur
  have hunits := h.units
  rw [show k.unsent = u :: k.queue by simp [unsent, hcur]] at hunits
  have hlast : k.lastSent ≤ (k.send u).lastSent ∧ (k.send u).lastSent ≤ k.delivered := by
    simp only [Lane.send]
    split
    · rename_i hp
      have hreached := hcourse.bound u List.mem_cons_self hp
      exact ⟨hunits.later u List.mem_cons_self hp, by omega⟩
    · exact ⟨Nat.le_refl _, h.sent⟩
  refine { h with
    pos := h.pos.trans hlast.1, sent := hlast.2, current := ?_, units := ⟨h.rest.rising, ?_⟩, course := hcourse }
  · rintro v part ⟨⟩ - hp
    simp [Lane.send, hp]
  · intro v hv hvp
    simp only [Lane.send]
    split
    · rename_i hp
      have hr := hunits.rising
      rw [List.filter_cons_of_pos hp, List.pairwise_cons] at hr
      exact Nat.le_of_lt (hr.1 v (List.mem_filter.mpr ⟨hv, hvp⟩))
    · exact h.rest.later v hv hvp

lemma Sound.mark (hcur : k.current = some (u, .sent)) : (k.mark u).Sound sh handed := by
  -- a copy that goes on was going on
  have hgoes : (u.copy.isSome || k.copying) = k.copying := by
    cases hc : k.copying with
    | true => simp
    | false => simp [(((h.at hcur).finished hc).2 u List.mem_cons_self).1]
  refine { h with clear := ?_, flag := ?_, current := ?_, units := h.rest, course := ?_ }
  · simp only [Lane.mark, hgoes]
    exact h.clear
  · simp only [Lane.mark, hgoes]
    intro hcopying
    simp [h.flag hcopying]
  · rintro v part ⟨⟩ - hp
    exact h.current u .sent hcur (by decide) hp
  · simp only [Lane.mark, hgoes]
    exact h.at hcur

lemma Sound.move (hcur : k.current = some (u, .marked)) {moves : Bool}
    (hmoves : moves = true → u.position = true) : (k.move u moves).Sound sh handed := by
  have hsent : u.position = true → u.endLSN ≤ k.lastSent := h.current u .marked hcur (by decide)
  have hpos : k.pos ≤ (k.move u moves).pos ∧ (k.move u moves).pos ≤ k.lastSent ∧
      (k.move u moves).pos ≤ k.limit handed := by
    simp only [Lane.move]
    split
    · rename_i hm
      have hreached := (h.at hcur).bound u List.mem_cons_self (hmoves hm)
      have hle := hsent (hmoves hm)
      have hpos := h.pos
      have hlimit := h.limit
      omega
    · exact ⟨.refl, h.pos, h.limit⟩
  refine { h with
    pos := hpos.2.1, limit := hpos.2.2, want := h.want.trans hpos.1, current := ?_
    units := h.rest, course := h.at hcur }
  rintro v part ⟨⟩ - hp
  exact hsent hp

lemma Sound.unmark (hcur : k.current = some (u, .moved)) : (k.unmark u).Sound sh handed := by
  have hrest := h.at hcur
  have hless := hrest.sublist (List.sublist_cons_self u k.queue)
  refine { h with clear := ?_, flag := ?_, current := by simp [Lane.unmark], units := h.rest, course := { hless with finished := ?_ } }
  · intro hwant
    simp [Lane.unmark, h.clear hwant]
  · intro hcopying
    simp only [Lane.unmark, Bool.and_eq_true] at hcopying ⊢
    exact ⟨hcopying.1, h.flag hcopying.2⟩
  · intro hno
    cases hdone : u.copyDone with
    | true =>
      -- the end of the copy: nothing behind it copies
      exact ⟨hrest.copyEnd u List.mem_cons_self hdone, fun v hv => (List.pairwise_cons.mp hrest.lastCopy).1 v hv hdone⟩
    | false => exact hless.finished (by simpa [Lane.unmark, hdone] using hno)

lemma Sound.request (lsn : Nat) : (k.request lsn).Sound sh handed := by
  unfold Lane.request
  split
  · exact h
  · rename_i hno
    split
    · refine { h with want := ?_, clear := fun _ => by simpa using hno }
      exact Nat.max_le.mpr ⟨Nat.min_le_right _ _, h.want⟩
    · exact h

end

end Lane

end PgShard.Vstream
