import PgShard.Hoare.Leads
import PgShard.Places.Separate
import PgShard.Sequence.Allocator

/-!
# No value of a sequence is returned twice

Whatever is cached, on its way to a router, taken by a call or returned lies below the row's
`next_value`, and no value is at two of these places.
-/

namespace PgShard.Sequence

open Hoare Places

variable {s' : SequenceRow} {blockStart blockEnd : Int64}

lemma bigint_toInt {x : Int} {v : Int64} (h : bigint x = .ok v) : v.toInt = x := by
  unfold bigint at h
  split at h
  · rename_i hx
    cases h
    have hmin : Int64.minValue.toInt = -2 ^ 63 := rfl
    have hmax : Int64.maxValue.toInt = 2 ^ 63 - 1 := rfl
    exact Int64.toInt_ofInt_of_le (by omega) (by omega)
  · cases h

lemma setNextValue_ok {s : SequenceRow} {v : Int64} (h : s.setNextValue v = .ok s') :
    s'.nextValue = v ∧ s.nextValue ≤ v := by
  unfold SequenceRow.setNextValue at h
  split at h
  · cases h
  · cases h
    exact ⟨rfl, by grind⟩

lemma block_ok {s : SequenceRow} {size : Int32}
    (h : allocateSequenceBlock.block s size = .ok (s', blockStart, blockEnd)) :
    blockStart = s.nextValue ∧ blockEnd < s'.nextValue ∧ s.nextValue ≤ s'.nextValue := by
  obtain ⟨next, hnext, h⟩ := bind_eq_ok h
  obtain ⟨moved, hmoved, h⟩ := bind_eq_ok h
  obtain ⟨first, hfirst, h⟩ := bind_eq_ok h
  obtain ⟨last, hlast, h⟩ := bind_eq_ok h
  cases h
  obtain ⟨hto, hle⟩ := setNextValue_ok hmoved
  have hsum := bigint_toInt hnext
  have hstart := bigint_toInt hfirst
  have hend := bigint_toInt hlast
  refine ⟨Int64.toInt_inj.mp ?_, Int64.lt_iff_toInt_lt.mpr ?_, hto ▸ hle⟩
  · rw [hstart, hto]
    omega
  · omega

/-- A block starts where the row stood and ends before the row's new `next_value`. -/
lemma allocate_ok {row : Option SequenceRow} {n : Option Int32}
    (h : allocateSequenceBlock row n = .ok (s', blockStart, blockEnd)) :
    blockStart = (row.getD {}).nextValue ∧ blockEnd < s'.nextValue ∧
      (row.getD {}).nextValue ≤ s'.nextValue := by
  unfold allocateSequenceBlock at h
  cases n with
  | none => exact block_ok h
  | some k =>
    by_cases hk : k ≤ 0
    · simp [hk] at h
    · simp only [hk, if_false] at h
      exact block_ok h

inductive Kind where
  | taken
  | cached
  | coming

/-- A call takes first what is cached, then what is on its way. -/
def Kind.rank : Kind → Nat
  | .taken => 0
  | .cached => 1
  | .coming => 2

/-- The values a router has: taken by the call, left in its block, or in a block on its way. -/
def Slot.values (s : Slot) : Kind → Set Int64
  | .taken => {v | ∃ c, s.call = some c ∧ v ∈ c.out}
  | .cached => {v | s.block.next ≤ v ∧ v ≤ s.block.blockEnd}
  | .coming => {v | ∃ c a, s.call = some c ∧ c.answer = some a ∧ a.1 ≤ v ∧ v ≤ a.2}

/-- Values that are taken earlier are smaller. -/
def Slot.Ordered (s : Slot) : Prop := ∀ k k', k.rank < k'.rank → ∀ v ∈ s.values k, ∀ u ∈ s.values k', v < u

/-- The values of a call that returned. -/
def given : Except NextError (List Int64) → List Int64
  | .ok vs => vs
  | .error _ => []

/-- `none` is the place of the values that were returned. -/
def Lane.values (l : Lane) : Option (Nat × Kind) → Set Int64
  | some (r, k) => (l.slots r).values k
  | none => {v | v ∈ l.results.flatMap given}

structure Lane.Valid (l : Lane) : Prop where
  separate : Separate l.values
  below : ∀ p v, v ∈ l.values p → ∃ row, l.row = some row ∧ v < row.nextValue
  ascending : ∀ r c, (l.slots r).call = some c → c.out.Pairwise (· < ·)
  ordered : ∀ r, (l.slots r).Ordered
  returned : ∀ res ∈ l.results, (given res).Pairwise (· < ·)
  nodup : (l.results.flatMap given).Nodup

section

variable {l : Lane} {r : Nat} {s : Slot} {c : Call}

@[simp] lemma setSlot_slots_same : (l.setSlot r s).slots r = s := Function.update_self ..

lemma setSlot_slots_other {r' : Nat} (h : r' ≠ r) : (l.setSlot r s).slots r' = l.slots r' :=
  Function.update_of_ne h ..

/-- A row that does not move back keeps everything. -/
lemma Lane.Valid.setRow (h : l.Valid) {row : SequenceRow}
    (hrow : ∀ old, l.row = some old → old.nextValue ≤ row.nextValue) : Lane.Valid { l with row := some row } := { h with
  below p v hv := by
    obtain ⟨old, hold, hlt⟩ := h.below p v hv
    exact ⟨row, rfl, by have := hrow old hold; grind⟩ }

lemma Slot.Ordered.kind_eq (h : s.Ordered) {k k' : Kind} {v : Int64} (hk : v ∈ s.values k)
    (hk' : v ∈ s.values k') : k = k' := by
  have hlt : ∀ {a b : Kind}, a.rank < b.rank → v ∈ s.values a → v ∉ s.values b :=
    fun hab ha hb => Int64.lt_irrefl (h _ _ hab v ha v hb)
  cases k <;> cases k' <;>
    first | rfl | exact absurd hk' (hlt (by decide) hk) | exact absurd hk (hlt (by decide) hk')

/-- What has to be shown of a router's new slot: a value it has was in the old one, or is new. -/
lemma Lane.Valid.setSlot (h : l.Valid) (s : Slot)
    (hvalues : ∀ k, ∀ v ∈ s.values k, (∃ k', v ∈ (l.slots r).values k') ∨
      (∀ p, v ∉ l.values p) ∧ ∃ row, l.row = some row ∧ v < row.nextValue)
    (hasc : ∀ c, s.call = some c → c.out.Pairwise (· < ·)) (hord : s.Ordered) : (l.setSlot r s).Valid := by
  have hplace : ∀ {p v}, v ∈ (l.setSlot r s).values p →
      (∃ k, p = some (r, k) ∧ v ∈ s.values k) ∨ (∀ k, p ≠ some (r, k)) ∧ v ∈ l.values p := by
    intro p v hv
    match p with
    | none => exact .inr ⟨nofun, hv⟩
    | some (r', k) =>
      by_cases hr : r' = r
      · subst hr
        exact .inl ⟨k, rfl, by simpa [Lane.values] using hv⟩
      · refine .inr ⟨fun k' heq => hr ?_, by simpa [Lane.values, setSlot_slots_other hr] using hv⟩
        cases heq
        rfl
  have hapart : ∀ {k v q}, v ∈ s.values k → (∀ k, q ≠ some (r, k)) → v ∉ l.values q := by
    intro k v q hv hq hv'
    rcases hvalues k v hv with ⟨k', hold⟩ | ⟨hnew, -⟩
    · exact hq k' (h.separate (q := some (r, k')) hv' hold)
    · exact hnew q hv'
  exact { h with
    separate := by
      intro p q v hp hq
      rcases hplace hp with ⟨k, rfl, hk⟩ | ⟨hp', hp⟩ <;> rcases hplace hq with ⟨k', rfl, hk'⟩ | ⟨hq', hq⟩
      · rw [hord.kind_eq hk hk']
      · exact absurd hq (hapart hk hq')
      · exact absurd hp (hapart hk' hp')
      · exact h.separate hp hq
    below := by
      intro p v hv
      rcases hplace hv with ⟨k, -, hk⟩ | ⟨-, hv⟩
      · rcases hvalues k v hk with ⟨k', hold⟩ | ⟨-, hrow⟩
        · exact h.below (some (r, k')) v hold
        · exact hrow
      · exact h.below p v hv
    ascending := by
      intro r' c hc
      by_cases hr : r' = r
      · subst hr
        exact hasc c (by simpa using hc)
      · exact h.ascending r' c (by simpa [setSlot_slots_other hr] using hc)
    ordered := by
      intro r'
      by_cases hr : r' = r
      · subst hr
        simpa using hord
      · simpa [setSlot_slots_other hr] using h.ordered r' }

/-- A slot that only lets go of values. -/
lemma Lane.Valid.letGo (h : l.Valid) (s : Slot) (hs : ∀ k, s.values k ⊆ (l.slots r).values k)
    (hasc : ∀ c, s.call = some c → c.out.Pairwise (· < ·)) : (l.setSlot r s).Valid :=
  h.setSlot s (fun k _ hv => .inl ⟨k, hs k hv⟩) hasc fun k k' hk v hv u hu =>
    h.ordered r k k' hk v (hs _ hv) u (hs _ hu)

lemma Lane.Valid.restart (h : l.Valid) : (l.restart r).Valid := by
  refine h.letGo {} ?_ (by simp)
  intro k v hv
  cases k with
  | cached =>
    have hle : (1 : Int64) ≤ v ∧ v ≤ 0 := hv
    grind
  | coming => obtain ⟨c, a, hc, -⟩ := hv; cases hc
  | taken => obtain ⟨c, hc, -⟩ := hv; cases hc

/-- A call without its answer and its values. -/
lemma values_noCall (k : Kind) : Slot.values { s with call := none } k ⊆ s.values k := by
  intro v hv
  cases k with
  | cached => exact hv
  | coming => obtain ⟨c, a, hc, -⟩ := hv; cases hc
  | taken => obtain ⟨c, hc, -⟩ := hv; cases hc

lemma Lane.Valid.call (h : l.Valid) (n : Nat) : (l.setSlot r { l.slots r with call := some { n := n } }).Valid := by
  refine h.letGo _ ?_ ?_
  · intro k v hv
    cases k with
    | cached => exact hv
    | coming => obtain ⟨c, a, hc, ha, -⟩ := hv; cases hc; cases ha
    | taken => obtain ⟨c, hc, hmem⟩ := hv; cases hc; cases hmem
  · intro c hc
    cases hc
    exact .nil

/-- A call ends: values it took leave the router and are returned. -/
lemma Lane.Valid.finish (h : l.Valid) {res : Except NextError (List Int64)}
    (htaken : ∀ v ∈ given res, v ∈ l.values (some (r, .taken))) (hasc : (given res).Pairwise (· < ·)) :
    (l.finish r res).Valid := by
  have hgone := h.letGo (r := r) _ values_noCall (by simp)
  have hreturned : ∀ v, v ∈ (l.finish r res).values none ↔
      v ∈ given res ∨ v ∈ l.values none := by
    intro v
    simp [Lane.values, Lane.finish]
  have hplaces : ∀ p v, p ≠ none → v ∈ (l.finish r res).values p →
      v ∈ (l.setSlot r { l.slots r with call := none }).values p := by
    intro p v hp hv
    match p with
    | none => exact absurd rfl hp
    | some _ => exact hv
  exact {
    separate := by
      refine hgone.separate.gain none {v | v ∈ given res} (fun p hp v => hplaces p v hp) ?_ ?_
      · intro v hv
        exact ((hreturned v).mp hv).symm
      · intro p hp v hv hv'
        match p with
        | none => exact hp rfl
        | some (r', k) =>
          -- the value was at the call's place, which is empty now
          by_cases hr : r' = r
          · subst hr
            simp only [Lane.values, Lane.finish, setSlot_slots_same] at hv'
            have hk := h.separate (q := some (r', k)) (htaken v hv) (values_noCall k hv')
            cases hk
            obtain ⟨_, hnone, -⟩ := hv'
            cases hnone
          · simp only [Lane.values, Lane.finish, setSlot_slots_other hr] at hv'
            have hk := h.separate (q := some (r', k)) (htaken v hv) hv'
            simp only [Option.some.injEq, Prod.mk.injEq] at hk
            exact hr hk.1.symm
    below := by
      intro p v hv
      by_cases hp : p = none
      · subst hp
        rcases (hreturned v).mp hv with hv | hv
        · exact h.below _ v (htaken v hv)
        · exact h.below _ v hv
      · exact hgone.below p v (hplaces p v hp hv)
    ascending := hgone.ascending
    ordered := hgone.ordered
    returned := by
      intro res hres
      cases hres with
      | head => exact hasc
      | tail _ hres => exact h.returned res hres
    nodup := by
      refine List.nodup_append.mpr ⟨?_, h.nodup, ?_⟩
      · exact (hasc).imp fun hlt heq => by grind
      · rintro v hv u hu rfl
        cases h.separate (q := none) (htaken v hv) hu }

lemma Lane.Valid.failed (h : l.Valid) (e : NextError) : (l.finish r (.error e)).Valid := h.finish nofun .nil

lemma Lane.Valid.returns (h : l.Valid) (hc : (l.slots r).call = some c) : (l.finish r (.ok c.out)).Valid :=
  h.finish (fun _ hv => ⟨c, hc, hv⟩) (h.ascending r c hc)

lemma succ_toInt (h : l.Valid) (hle : (l.slots r).block.next ≤ (l.slots r).block.blockEnd) :
    ((l.slots r).block.next + 1).toInt = (l.slots r).block.next.toInt + 1 := by
  obtain ⟨row, -, hlt⟩ := h.below (some (r, .cached)) _ ⟨Int64.le_refl _, hle⟩
  have hmin := Int64.le_toInt (l.slots r).block.next
  have hlt := Int64.lt_iff_toInt_lt.mp hlt
  have hmax := Int64.toInt_lt row.nextValue
  rw [Int64.toInt_add]
  refine Int.bmod_eq_of_le ?_ ?_ <;> simp <;> omega

section

variable (s c)

/-- The slot after the call took the first value of the block. -/
def took : Slot := ⟨{ s.block with next := s.block.next + 1 }, some { c with out := c.out ++ [s.block.next] }⟩

variable {s c} (hc : s.call = some c) (hle : s.block.next ≤ s.block.blockEnd)
  (hsucc : (s.block.next + 1).toInt = s.block.next.toInt + 1)

include hc in
lemma took_taken : (took s c).values .taken = s.values .taken ∪ {s.block.next} := by
  ext v
  simp [Slot.values, took, hc, or_comm]

include hc in
lemma took_coming : (took s c).values .coming = s.values .coming := by
  ext v
  simp [Slot.values, took, hc]

include hsucc in
lemma took_cached {v : Int64} (hv : v ∈ (took s c).values .cached) : v ∈ s.values .cached ∧ s.block.next < v := by
  have hnext : s.block.next + 1 ≤ v := hv.1
  have hlt : s.block.next < v := by
    have := Int64.le_iff_toInt_le.mp hnext
    exact Int64.lt_iff_toInt_lt.mpr (by omega)
  exact ⟨⟨Int64.le_of_lt hlt, hv.2⟩, hlt⟩

include hc hle hsucc in
lemma took_ordered (h : s.Ordered) : (took s c).Ordered := by
  have hfirst : s.block.next ∈ s.values .cached := ⟨Int64.le_refl _, hle⟩
  intro k k' hk v hv u hu
  cases k' with
  | taken => cases hk
  | cached =>
    cases k with
    | taken =>
      rw [took_taken hc] at hv
      obtain ⟨hold, hlt⟩ := took_cached hsucc hu
      rcases hv with hv | rfl
      · exact h .taken .cached hk v hv u hold
      · exact hlt
    | cached => exact absurd hk (by decide)
    | coming => exact absurd hk (by decide)
  | coming =>
    rw [took_coming hc] at hu
    cases k with
    | taken =>
      rw [took_taken hc] at hv
      rcases hv with hv | rfl
      · exact h .taken .coming hk v hv u hu
      · exact h .cached .coming (by decide) _ hfirst u hu
    | cached => exact h .cached .coming hk v (took_cached hsucc hv).1 u hu
    | coming => exact absurd hk (by decide)

end

lemma Lane.Valid.takes (h : l.Valid) (hc : (l.slots r).call = some c)
    (hle : (l.slots r).block.next ≤ (l.slots r).block.blockEnd) : (l.setSlot r (took (l.slots r) c)).Valid := by
  have hsucc := succ_toInt h hle
  have hfirst : (l.slots r).block.next ∈ l.values (some (r, .cached)) := ⟨Int64.le_refl _, hle⟩
  refine h.setSlot _ (fun k v hv => .inl ?_) ?_ (took_ordered hc hle hsucc (h.ordered r))
  · cases k with
    | taken =>
      rcases (took_taken hc).le hv with hv | rfl
      · exact ⟨.taken, hv⟩
      · exact ⟨.cached, hfirst⟩
    | cached => exact ⟨.cached, (took_cached hsucc hv).1⟩
    | coming => exact ⟨.coming, (took_coming hc).le hv⟩
  · intro c' hc'
    cases hc'
    refine List.pairwise_append.mpr ⟨h.ascending r c hc, List.pairwise_singleton .., ?_⟩
    intro v hv u hu
    rw [List.mem_singleton.mp hu]
    exact h.ordered r .taken .cached (by decide) v ⟨c, hc, hv⟩ _ hfirst

lemma Lane.Valid.turnOf (h : l.Valid) (hc : (l.slots r).call = some c) : (l.turnOf r c).Valid := by
  unfold Lane.turnOf turn
  split
  · rename_i out hout
    split at hout
    · split at hout <;> cases hout
    · cases hout
      exact h.returns hc
  · exact h
  · rename_i b c' hout
    split at hout
    · split at hout
      · cases hout
      · rename_i hle
        cases hout
        exact h.takes hc (by grind)
    · cases hout

/-- The block of the catalog starts where the row stood, above everything there is. -/
lemma Lane.Valid.execute (h : l.Valid) (hc : (l.slots r).call = some c) {row : SequenceRow}
    (hrow : allocateSequenceBlock l.row none = .ok (row, blockStart, blockEnd)) : Lane.Valid { l.setSlot r
      { l.slots r with call := some { c with answer := some (blockStart, blockEnd) } } with
        row := some row } := by
  obtain ⟨hstart, hend, hle⟩ := allocate_ok hrow
  have habove : ∀ p v, v ∈ l.values p → v < blockStart := by
    intro p v hv
    obtain ⟨old, hold, hlt⟩ := h.below p v hv
    rw [hstart, hold]
    exact hlt
  have hmoved : Lane.Valid { l with row := some row } := by
    refine h.setRow ?_
    intro old hold
    rw [hold] at hle
    exact hle
  have hkept : ∀ k, k ≠ .coming →
      Slot.values { l.slots r with call := some { c with answer := some (blockStart, blockEnd) } } k ⊆
        (l.slots r).values k := by
    intro k hk v hv
    cases k with
    | taken =>
      obtain ⟨c', hc', hv⟩ := hv
      cases hc'
      exact ⟨c, hc, hv⟩
    | cached => exact hv
    | coming => exact absurd rfl hk
  have hnew : ∀ v, v ∈ Slot.values
      { l.slots r with call := some { c with answer := some (blockStart, blockEnd) } } .coming →
        blockStart ≤ v ∧ v ≤ blockEnd := by
    rintro v ⟨c', a, hc', ha, hv⟩
    cases hc'
    cases ha
    exact hv
  refine hmoved.setSlot _ (fun k v hv => ?_) ?_ ?_
  · by_cases hk : k = .coming
    · subst hk
      obtain ⟨hge, hle⟩ := hnew v hv
      refine .inr ⟨fun p hv' => ?_, row, rfl, by grind⟩
      have := habove p v hv'
      grind
    · exact .inl ⟨k, hkept k hk hv⟩
  · intro c' hc'
    cases hc'
    exact h.ascending r c hc
  · intro k k' hk v hv u hu
    by_cases hk' : k' = .coming
    · subst hk'
      have hne : k ≠ .coming := fun heq => by subst heq; exact Nat.lt_irrefl _ hk
      have := habove (some (r, k)) v (hkept k hne hv)
      have := (hnew u hu).1
      grind
    · have hne : k ≠ .coming := by
        rintro rfl
        cases k' <;> simp [Kind.rank] at hk
      exact h.ordered r k k' hk v (hkept k hne hv) u (hkept k' hk' hu)

lemma Lane.Valid.receive (h : l.Valid) (hc : (l.slots r).call = some c) (ha : c.answer = some (blockStart, blockEnd)) :
    (l.setSlot r ⟨⟨blockStart, blockEnd⟩, some { c with answer := none }⟩).Valid := by
  have htaken : Slot.values ⟨⟨blockStart, blockEnd⟩, some { c with answer := none }⟩ .taken =
      (l.slots r).values .taken := by
    ext v
    simp [Slot.values, hc]
  have hcached : Slot.values ⟨⟨blockStart, blockEnd⟩, some { c with answer := none }⟩ .cached =
      (l.slots r).values .coming := by
    ext v
    simp [Slot.values, hc, ha]
  have hcoming : Slot.values ⟨⟨blockStart, blockEnd⟩, some { c with answer := none }⟩ .coming = ∅ := by
    ext v
    simp [Slot.values]
  refine h.setSlot _ (fun k v hv => .inl ?_) ?_ ?_
  · cases k with
    | taken => exact ⟨.taken, htaken.le hv⟩
    | cached => exact ⟨.coming, hcached.le hv⟩
    | coming => simp [hcoming] at hv
  · intro c' hc'
    cases hc'
    exact h.ascending r c hc
  · intro k k' hk v hv u hu
    cases k' with
    | taken => cases hk
    | cached =>
      cases k with
      | taken => exact h.ordered r .taken .coming (by decide) v (htaken.le hv) u (hcached.le hu)
      | cached => exact absurd hk (by decide)
      | coming => exact absurd hk (by decide)
    | coming => simp [hcoming] at hu

/-- Everything one event can do to a sequence. -/
lemma Lane.Valid.step (name : String) (h : l.Valid) (e : Event) : (l.step name e).Valid := by
  cases e with
  | call r n =>
    simp only [Lane.step]
    split
    · exact h.call n
    · exact h
  | turn r =>
    simp only [Lane.step]
    split
    · exact h
    · exact h.turnOf ‹_›
  | execute r =>
    simp only [Lane.step]
    split
    · exact h
    · rename_i c hc
      unfold Lane.executeFor
      split
      · split
        · exact h
        · exact h.execute hc ‹_›
      · exact h
  | receive r =>
    simp only [Lane.step]
    split
    · exact h
    · rename_i c hc
      unfold Lane.receiveAt
      split
      · exact h
      · rename_i first last ha
        unfold refill
        by_cases hempty : last < first
        · simp only [hempty, if_true]
          exact h.failed _
        · simp only [hempty, if_false]
          exact h.receive hc ha
  | fail r err =>
    simp only [Lane.step]
    split
    · exact h
    · split
      · exact h.failed _
      · exact h
  | allocate n =>
    simp only [Lane.step]
    split
    · exact h
    · rename_i row _ _ hrow
      refine h.setRow fun old hold => ?_
      have hle := (allocate_ok hrow).2.2
      rw [hold] at hle
      exact hle
  | advance v =>
    simp only [Lane.step]
    split
    · exact h
    · rename_i old hold
      split
      · exact h
      · rename_i row hrow
        obtain ⟨hto, hle⟩ := setNextValue_ok hrow
        refine h.setRow fun old' hold' => ?_
        cases hold.symm.trans hold'
        rw [hto]
        exact hle
  | tune size pos =>
    simp only [Lane.step]
    cases hrow : l.row with
    | none =>
      rw [Option.map_none, ← hrow]
      exact h
    | some old =>
      refine h.setRow fun old' hold' => ?_
      cases hrow.symm.trans hold'
      exact Int64.le_refl _
  | insert row =>
    simp only [Lane.step]
    split
    · rename_i hnone
      refine h.setRow fun old hold => ?_
      simp [hold] at hnone
    · exact h

end

lemma start_valid (row : Option SequenceRow) : Lane.Valid { row := row } := by
  have empty : ∀ p, Lane.values { row := row } p = ∅ := by
    intro p
    ext v
    match p with
    | none => simp [Lane.values]
    | some (r, .taken) => simp [Lane.values, Slot.values]
    | some (r, .cached) =>
      refine iff_of_false ?_ id
      rintro ⟨hle, hge⟩
      have : (1 : Int64) ≤ v := hle
      have : v ≤ (0 : Int64) := hge
      grind
    | some (r, .coming) => simp [Lane.values, Slot.values]
  have hslot : ∀ r k, (Slot.values {} k : Set Int64) = ∅ := fun r k => empty (some (r, k))
  exact {
    separate := fun p q v hv _ => by simp [empty] at hv
    below := fun p v hv => by simp [empty] at hv
    ascending := by simp
    ordered := fun r k k' hk v hv => by simp [hslot r] at hv
    returned := by simp
    nodup := List.nodup_nil }

lemma World.step_valid {w : World} (h : ∀ name, (w name).Valid) (e : WorldEvent) (name : String) :
    (w.step e name).Valid := by
  cases e with
  | «at» other e =>
    by_cases hname : name = other
    · subst hname
      simpa [World.step] using (h name).step name e
    · simpa [World.step, Function.update_of_ne hname] using h name
  | restart r => exact (h name).restart

lemma World.run_valid {w : World} (h : ∀ name, (w name).Valid) (es : List WorldEvent)
    (name : String) : (w.run es name).Valid := by
  induction es generalizing w with
  | nil => exact h name
  | cons e es ih => exact ih (World.step_valid h e)

/-- Over every history of the catalog and the routers, no value of a sequence is returned twice, by
one call or by two, every call's values ascend, and `b.next++` never passes the largest int64. -/
theorem sequence_values_unique (rows : String → Option SequenceRow) (es : List WorldEvent) (name : String) :
    (((World.start rows).run es name).results.flatMap given).Nodup ∧
      (∀ vs, .ok vs ∈ ((World.start rows).run es name).results → vs.Pairwise (· < ·)) ∧
      ∀ r, let b := (((World.start rows).run es name).slots r).block
        b.next ≤ b.blockEnd → (b.next + 1).toInt = b.next.toInt + 1 := by
  have h := World.run_valid (fun name => start_valid (rows name)) es name
  exact ⟨h.nodup, fun vs hvs => h.returned _ hvs, fun r => succ_toInt h⟩

-- Two routers share a sequence of blocks of two; the first crosses into its second block.
example : (((World.start fun _ => some { blockSize := 2 }).run <| List.map (.at "s")
    [.call 0 3, .call 1 1, .execute 0, .execute 1, .receive 1, .turn 1, .receive 0, .turn 0, .turn 0,
      .execute 0, .turn 1, .receive 0, .turn 0, .turn 0]) "s").results =
    [.ok [1, 2, 5], .ok [3]] := by decide +kernel

/-- Every value that was returned, and every value a router still has in its block, lies below the catalog's
`next_value`. -/
theorem values_below_catalog (rows : String → Option SequenceRow) (es : List WorldEvent) (name : String) :
    let l := (World.start rows).run es name
    (∀ v ∈ l.results.flatMap given, ∃ row, l.row = some row ∧ v < row.nextValue) ∧
      ∀ r v, (l.slots r).block.next ≤ v → v ≤ (l.slots r).block.blockEnd → ∃ row, l.row = some row ∧ v < row.nextValue := by
  have h := World.run_valid (fun name => start_valid (rows name)) es name
  exact ⟨h.below none, fun r v hnext hend => h.below (some (r, .cached)) v ⟨hnext, hend⟩⟩

end PgShard.Sequence
