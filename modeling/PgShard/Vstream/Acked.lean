import PgShard.Vstream.Stream

/-!
# No ack ahead of what was sent

What holds of each shard of a stream bounds every LSN that leaves the router and every one that reaches
PostgreSQL.
-/

namespace PgShard.Vstream

def PoolerAck.Within (r : Router) : PoolerAck → Prop
  | .asked _ slot lsn _ => lsn ≤ r.handed slot
  | .held reader lsn _ | .noted reader lsn _ =>
    ∃ sr : StreamReader, r.readers[reader]? = some sr ∧ lsn ≤ r.handed sr.slot

/-- What a call has read of a stream is still published. -/
def AckCall.Within (r : Router) (c : AckCall) : Prop :=
  ∀ sh lsn d, c.read = some (sh, lsn, d) →
    ∃ l : Live, r.streams[c.stream]? = some l ∧ ∃ d', l.emitted.pos sh = some d' ∧ d ≤ d'

namespace Router

structure Inv (r : Router) : Prop where
  streams : ∀ (id : Nat) (l : Live), r.streams[id]? = some l → l.Good fun sh => r.handed (l.name, sh)
  calls : ∀ c ∈ r.calls, c.Within r
  acks : ∀ a ∈ r.acks, a.Within r
  readers : ∀ sr ∈ r.readers, sr.acked ≤ r.handed sr.slot
  seats : ∀ pooler slot (reader : Nat), r.seats pooler slot = some reader →
    ∃ sr : StreamReader, r.readers[reader]? = some sr ∧ sr.slot = slot

variable {r r' : Router}

/-- The readers that there were keep their slots. -/
def Keeps (r r' : Router) : Prop :=
  ∀ (j : Nat) (sr : StreamReader), r.readers[j]? = some sr →
    ∃ sr' : StreamReader, r'.readers[j]? = some sr' ∧ sr'.slot = sr.slot

lemma Keeps.within {a : PoolerAck} (h : r.Keeps r') (ha : a.Within r)
    (hhanded : ∀ slot, r.handed slot ≤ r'.handed slot) : a.Within r' := by
  cases a with
  | asked pooler slot lsn caller => exact ha.trans (hhanded slot)
  | held reader lsn caller | noted reader lsn caller =>
    obtain ⟨sr, hsr, hle⟩ := ha
    obtain ⟨sr', hsr', hslot⟩ := h reader sr hsr
    exact ⟨sr', hsr', hslot ▸ hle.trans (hhanded _)⟩

lemma Keeps.seated {reader : Nat} {slot : Slot} (h : r.Keeps r')
    (hseat : ∃ sr : StreamReader, r.readers[reader]? = some sr ∧ sr.slot = slot) :
    ∃ sr : StreamReader, r'.readers[reader]? = some sr ∧ sr.slot = slot := by
  obtain ⟨sr, hsr, hslot⟩ := hseat
  obtain ⟨sr', hsr', hkept⟩ := h reader sr hsr
  exact ⟨sr', hsr', hkept.trans hslot⟩

variable {id lsn : Nat} {f : Live → Live} {l : Live} {sh : Shard}

/-- One stream goes on, and more may have been handed over. -/
lemma Inv.onward (h : r.Inv) (hstreams : r'.streams = r.streams.modify id f)
    (hhanded : ∀ slot, r.handed slot ≤ r'.handed slot)
    (hcalls : r'.calls = r.calls) (hacks : r'.acks = r.acks) (hreaders : r'.readers = r.readers)
    (hseats : r'.seats = r.seats)
    (hf : ∀ l, r.streams[id]? = some l → l.Onward (fun sh => r'.handed (l.name, sh)) (f l)) : r'.Inv := by
  have hget : ∀ j, r'.streams[j]? = (r.streams[j]?).map fun l => if id = j then f l else l := by
    intro j
    rw [hstreams, List.getElem?_modify]
    by_cases hj : id = j
    · subst hj
      simp
    · simp [hj]
  constructor
  · intro j l hl
    rw [hget] at hl
    obtain ⟨l₀, hl₀, rfl⟩ := Option.map_eq_some_iff.mp hl
    split
    · rename_i hj
      subst hj
      rw [(hf l₀ hl₀).name]
      exact (hf l₀ hl₀).good
    · exact (h.streams j l₀ hl₀).more fun sh => hhanded _
  · intro c hc sh lsn d hread
    rw [hcalls] at hc
    obtain ⟨l, hl, d', hd', hle⟩ := h.calls c hc sh lsn d hread
    rw [hget, hl]
    by_cases hj : id = c.stream
    · subst hj
      obtain ⟨d'', hd'', hle'⟩ := (hf l hl).pos sh d' hd'
      exact ⟨f l, by simp, d'', hd'', hle.trans hle'⟩
    · exact ⟨l, by simp [hj], d', hd', hle⟩
  · intro a ha
    have hkeeps : r.Keeps r' := fun j sr hsr => ⟨sr, by rw [hreaders, hsr], rfl⟩
    exact hkeeps.within (h.acks a (hacks ▸ ha)) hhanded
  · intro sr hsr
    exact (h.readers sr (hreaders ▸ hsr)).trans (hhanded _)
  · rw [hseats, hreaders]
    exact h.seats

lemma Inv.change (h : r.Inv) (hf : ∀ l, r.streams[id]? = some l → l.Onward (fun sh => r.handed (l.name, sh)) (f l)) :
    (r.change id f).Inv :=
  h.onward rfl (fun _ => .refl) rfl rfl rfl rfl hf

lemma Inv.changeAt (h : r.Inv) (hl : r.streams[id]? = some l)
    (hf : l.Onward (fun sh => r.handed (l.name, sh)) (f l)) : (r.change id f).Inv := by
  apply h.change
  intro l' hl'
  cases hl'.symm.trans hl
  exact hf

lemma handed_hand (r : Router) (slot : Slot) (lsn : Nat) (s : Slot) : r.handed s ≤ (r.hand slot lsn).handed s := by
  by_cases hs : s = slot
  · subst hs
    have hself : (r.hand s lsn).handed s = max lsn (r.handed s) := Function.update_self ..
    rw [hself]
    exact Nat.le_max_right _ _
  · simp [Router.hand, Function.update_of_ne hs]

lemma Inv.hand (h : r.Inv) (slot : Slot) (lsn : Nat) : (r.hand slot lsn).Inv := by
  have hgrows := handed_hand r slot lsn
  have hsame : (r.hand slot lsn).streams = r.streams.modify 0 id := by simp [Router.hand]
  exact h.onward hsame hgrows rfl rfl rfl rfl fun l hl =>
    ((h.streams 0 l hl).more fun sh => hgrows _).refl

lemma Inv.ask (h : r.Inv) (hl : r.streams[id]? = some l) (hle : lsn ≤ r.handed (l.name, sh))
    (pooler : Nat) (caller : Option (Nat × Shard)) : (r.ask id sh lsn pooler caller).Inv := by
  have hask : r.ask id sh lsn pooler caller = { r with acks := r.acks ++ [.asked pooler (l.name, sh) lsn caller] } := by
    simp [Router.ask, hl]
  rw [hask]
  refine { h with acks := ?_ }
  intro a ha
  rcases List.mem_append.mp ha with hmem | hmem
  · exact h.acks a hmem
  · obtain rfl := List.mem_singleton.mp hmem
    exact hle

/-- What is published of a shard that is not copying. -/
lemma published {handed : Shard → Nat} (hg : l.Good handed) (hin : sh ∈ l.merger.shards)
    (hcopy : (l.merger.copyOf sh).isSome = false) {d : Nat} (hd : d ≤ (l.emitted.pos sh).getD 0) :
    d ≤ l.lastSent sh ∧ d ≤ handed sh := by
  have hsound := hg.sound sh hin
  have hcopies : l.copies sh = false := (hsound.course.finished hcopy).1
  have hlimit : (l.lane sh).limit (handed sh) = handed sh := by
    have hlane : (l.lane sh).copies = false := hcopies
    simp [Lane.limit, hlane]
  exact ⟨hd.trans hsound.pos, hd.trans (hlimit ▸ hsound.limit)⟩

/-- The stream was sent everything up to the LSN, and so was handed it. -/
def Delivered (r : Router) (id : Nat) (sh : Shard) (lsn : Nat) : Prop :=
  ∃ l, r.streams[id]? = some l ∧ l.merger.copyOf sh = none ∧ lsn ≤ l.lastSent sh ∧ lsn ≤ r.handed (l.name, sh)

lemma Inv.wanted (h : r.Inv) (hw : r.wanted id sh = some lsn) : r.Delivered id sh lsn := by
  obtain ⟨l, hl, hif⟩ := Option.bind_eq_some_iff.mp hw
  split at hif
  · rename_i hlt
    cases hif
    have hg := h.streams id l hl
    have hin : sh ∈ l.merger.shards := by
      by_contra hout
      rw [(hg.absent sh hout).2] at hlt
      omega
    have hsound := hg.sound sh hin
    have hcopy : (l.merger.copyOf sh).isSome = false := hsound.clear (by change 0 < l.want sh; omega)
    obtain ⟨hsent, hhanded⟩ := published hg hin hcopy hsound.want
    exact ⟨l, hl, by simpa using hcopy, hsent, hhanded⟩
  · cases hif

lemma Inv.cleared (h : r.Inv) {call : Nat} (hc : r.cleared call = some (id, sh, lsn)) : r.Delivered id sh lsn := by
  obtain ⟨c, hcall, hc⟩ := Option.bind_eq_some_iff.mp hc
  obtain ⟨⟨sh', asked, d⟩, hread, hc⟩ := Option.bind_eq_some_iff.mp hc
  obtain ⟨l, hl, hif⟩ := Option.bind_eq_some_iff.mp hc
  split at hif
  · cases hif
  · rename_i hno
    cases hif
    obtain ⟨l', hl', d', hd', hle⟩ := h.calls c (List.mem_of_getElem? hcall) sh asked d hread
    cases hl'.symm.trans hl
    have hg := h.streams _ l hl
    have hin : sh ∈ l.merger.shards := (hg.known sh).mp (by simp [hd'])
    simp only [Bool.or_eq_true, not_or] at hno
    -- the flag was read after the position, and it is down
    have hcopy : (l.merger.copyOf sh).isSome = false := by
      by_contra hup
      exact hno.1 ((hg.sound sh hin).flag (eq_true_of_ne_false hup))
    have hpos : min asked d ≤ (l.emitted.pos sh).getD 0 := by
      rw [hd']
      exact (Nat.min_le_right _ _).trans hle
    obtain ⟨hsent, hhanded⟩ := published hg hin hcopy hpos
    exact ⟨l, hl, by simpa using hcopy, hsent, hhanded⟩

section

variable (h : r.Inv)

include h

lemma Inv.opened (hg : l.Good fun sh => r.handed (l.name, sh)) :
    ({ r with streams := r.streams ++ [l] } : Router).Inv := by
  refine ⟨?_, ?_, h.acks, h.readers, h.seats⟩
  · intro id l' hl'
    rcases Nat.lt_or_ge id r.streams.length with hlt | hge
    · rw [List.getElem?_append_left hlt] at hl'
      exact h.streams id l' hl'
    · rw [List.getElem?_append_right hge, List.getElem?_singleton] at hl'
      split at hl'
      · cases hl'
        exact hg
      · cases hl'
  · intro c hc sh lsn d hread
    obtain ⟨l', hl', hd⟩ := h.calls c hc sh lsn d hread
    refine ⟨l', ?_, hd⟩
    have hlt : c.stream < r.streams.length := (List.getElem?_eq_some_iff.mp hl').1
    exact (List.getElem?_append_left hlt).trans hl'

/-- A pooler's reader learns more, and keeps its slot. -/
lemma Inv.reader {reader : Nat} {f : StreamReader → StreamReader} (hslot : ∀ sr, (f sr).slot = sr.slot)
    (hacked : ∀ sr, r.readers[reader]? = some sr → (f sr).acked ≤ r.handed sr.slot) :
    ({ r with readers := r.readers.modify reader f } : Router).Inv := by
  have hget : ∀ (j : Nat) (sr₀ : StreamReader), r.readers[j]? = some sr₀ →
      ∃ sr, (r.readers.modify reader f)[j]? = some sr ∧ sr.slot = sr₀.slot ∧ sr.acked ≤ r.handed sr₀.slot := by
    intro j sr₀ hsr₀
    rw [List.getElem?_modify, hsr₀]
    by_cases hj : reader = j
    · subst hj
      exact ⟨f sr₀, by simp, hslot sr₀, hacked sr₀ hsr₀⟩
    · exact ⟨sr₀, by simp [hj], rfl, h.readers sr₀ (List.mem_of_getElem? hsr₀)⟩
  have hkeeps : r.Keeps { r with readers := r.readers.modify reader f } := fun j sr₀ hsr₀ =>
    (hget j sr₀ hsr₀).imp fun _ hsr => ⟨hsr.1, hsr.2.1⟩
  refine { h with
    acks := fun a ha => hkeeps.within (h.acks a ha) fun _ => .refl
    readers := fun sr hsr => ?_
    seats := fun pooler slot j hseat => hkeeps.seated (h.seats pooler slot j hseat) }
  obtain ⟨j, hj⟩ := List.mem_iff_getElem?.mp hsr
  obtain ⟨sr₀, hsr₀⟩ : ∃ sr₀, r.readers[j]? = some sr₀ := by
    rw [List.getElem?_modify] at hj
    obtain ⟨sr₀, hsr₀, -⟩ := Option.map_eq_some_iff.mp hj
    exact ⟨sr₀, hsr₀⟩
  obtain ⟨sr', hsr', hs, hle⟩ := hget j sr₀ hsr₀
  cases hsr'.symm.trans hj
  rw [hs]
  exact hle

lemma Inv.setAck {i : Nat} {a : PoolerAck} (ha : a.Within r) : ({ r with acks := r.acks.set i a } : Router).Inv := by
  refine { h with acks := fun b hb => ?_ }
  rcases List.mem_or_eq_of_mem_set hb with hmem | rfl
  · exact h.acks b hmem
  · exact ha

/-- What an event does to one stream alone. -/
lemma Inv.changeOnly (id : Nat)
    (hgood : ∀ (l : Live) handed, l.Good handed → l.Onward handed (f l)) : (r.change id f).Inv :=
  h.change fun l hl => hgood l _ (h.streams id l hl)

/-- What an event does on a condition to a stream that is there. -/
lemma Inv.guarded {p : Live → Bool} {g : Live → Router} (hg : ∀ l, r.streams[id]? = some l → p l = true → (g l).Inv) :
    (match r.streams[id]? with
      | some l => if p l then g l else r
      | none => r).Inv := by
  split
  · rename_i l hl
    split
    · exact hg l hl ‹_›
    · exact h
  · exact h

/-- The merger works only on a stream that is open, between two units. -/
lemma Inv.working (id : Nat)
    (hgood : ∀ (l : Live) handed, l.Good handed → l.stage = .between → l.Onward handed (f l)) :
    (r.change id fun l => match l.stage with
      | .between => if l.running then f l else l
      | _ => l).Inv := by
  refine h.changeOnly id fun l handed hg => ?_
  split
  · split
    · exact hgood l handed hg ‹_›
    · exact hg.refl
  · exact hg.refl

lemma Inv.register (id : Nat) : (r.step (.register id)).Inv := by
  unfold Router.step
  dsimp only
  split
  · split
    · exact h
    · have hrun := h.changeOnly (f := fun l => { l with running := true }) id fun l handed hg =>
        hg.same ⟨rfl, rfl, fun _ => rfl⟩ fun _ => rfl
      exact { hrun with }
  · exact h

lemma Inv.close (id : Nat) : (r.step (.close id)).Inv := by
  unfold Router.step
  dsimp only
  split
  · exact { h.changeOnly id fun l handed hg => hg.ended with }
  · exact h

lemma Inv.push (id : Nat) (u : StreamUnit) : (r.step (.push id u)).Inv := by
  refine h.guarded fun l hl hcan => ?_
  simp only [Bool.and_eq_true, Bool.or_eq_true, Bool.not_eq_true', decide_eq_true_eq, Option.isNone_iff_eq_none] at hcan
  obtain ⟨⟨⟨⟨hin, hcopies⟩, hcopy⟩, hdone⟩, hbatch⟩ := hcan
  refine h.changeAt hl ((h.streams id l hl).push hin hdone (.inl hcopy) fun hpos => ?_)
  have hlane : (l.lane u.shard).copies = false := hcopies
  rw [Lane.limit, if_neg (by simp [hlane])]
  simpa [hpos] using hbatch

/-- The readers of shards that are copying. -/
lemma Inv.snapshot (id : Nat) (sh : Shard) (st : CopyState) (cp : Nat) : (r.step (.snapshot id sh st cp)).Inv := by
  refine h.guarded fun l hl hcan => ?_
  simp only [Bool.and_eq_true, decide_eq_true_eq] at hcan
  exact h.changeAt hl ((h.streams id l hl).pushSnapshot hcan.1.1 hcan.1.2 st cp)

lemma Inv.copyUnit (id : Nat) (sh : Shard) (st : CopyState) (items : List Item) :
    (r.step (.copyUnit id sh st items)).Inv := by
  refine h.guarded fun l hl hcan => ?_
  simp only [Bool.and_eq_true, decide_eq_true_eq] at hcan
  exact h.changeAt hl ((h.streams id l hl).push hcan.1 rfl (.inr hcan.2) nofun)

lemma Inv.copyDone (id : Nat) (sh : Shard) (items : List Item) : (r.step (.copyDone id sh items)).Inv := by
  refine h.guarded fun l hl hcan => ?_
  simp only [Bool.and_eq_true, decide_eq_true_eq] at hcan
  refine h.onward rfl (handed_hand r _ _) rfl rfl rfl rfl fun l' hl' => ?_
  cases hl'.symm.trans hl
  refine Live.Onward.more ((h.streams id l hl).endCopy hcan.1 hcan.2 items) fun sh' => ?_
  by_cases hsh : sh' = sh
  · subst hsh
    rw [Function.update_self]
    exact Nat.le_of_eq (Function.update_self (β := fun _ => Nat) ..).symm
  · rw [Function.update_of_ne hsh]
    exact handed_hand r _ _ _

lemma Inv.forward (id : Nat) (sh : Shard) (pooler : Nat) : (r.step (.forward id sh pooler)).Inv := by
  unfold Router.step
  dsimp only
  split
  · rename_i lsn hw
    obtain ⟨l, hl, -, -, hle⟩ := h.wanted hw
    exact h.ask hl hle pooler _
  · exact h

lemma Inv.ack (name : String) (position : VPosition) : (r.step (.ack name position)).Inv := by
  unfold Router.step
  dsimp only
  split
  · refine { h with calls := fun c hc sh lsn d hread => ?_ }
    rcases List.mem_append.mp hc with hmem | hmem
    · exact h.calls c hmem sh lsn d hread
    · obtain rfl := List.mem_singleton.mp hmem
      cases hread
  · exact h

end

lemma mem_modify_calls {calls : List AckCall} {i : Nat} {f : AckCall → AckCall} {c : AckCall}
    (h : c ∈ calls.modify i f) : c ∈ calls ∨ ∃ c₀ ∈ calls, c = f c₀ := by
  obtain ⟨j, hj⟩ := List.mem_iff_getElem?.mp h
  rw [List.getElem?_modify] at hj
  obtain ⟨c₀, hc₀, rfl⟩ := Option.map_eq_some_iff.mp hj
  have hmem := List.mem_of_getElem? hc₀
  split
  · exact .inr ⟨c₀, hmem, rfl⟩
  · exact .inl hmem

lemma Inv.ackRead (h : r.Inv) (call : Nat) (sh : Shard) : (r.step (.ackRead call sh)).Inv := by
  suffices hcalls : ∀ c ∈ (r.step (.ackRead call sh)).calls, c.Within r from { h with calls := hcalls }
  intro c hc sh' lsn d hread
  rcases mem_modify_calls hc with hmem | ⟨c₀, hmem, rfl⟩
  · exact h.calls c hmem sh' lsn d hread
  · split at hread
    · obtain ⟨l, hl, hmap⟩ := Option.bind_eq_some_iff.mp hread
      obtain ⟨d', hd', heq⟩ := Option.map_eq_some_iff.mp hmap
      cases heq
      exact ⟨l, by simpa using hl, d, hd', Nat.le_refl d⟩
    · simpa using h.calls c₀ hmem sh' lsn d hread

lemma Inv.ackForward (h : r.Inv) (call pooler : Nat) : (r.step (.ackForward call pooler)).Inv := by
  have hcalls : ({ r with calls := r.calls.modify call fun c => { c with read := none } } : Router).Inv := by
    refine { h with calls := fun c hc sh lsn d hread => ?_ }
    rcases mem_modify_calls hc with hmem | ⟨c₀, -, rfl⟩
    · exact h.calls c hmem sh lsn d hread
    · cases hread
  unfold Router.step
  dsimp only
  split
  · rename_i id sh lsn hclear
    obtain ⟨l, hl, -, -, hle⟩ := h.cleared hclear
    exact hcalls.ask hl hle pooler none
  · exact hcalls

lemma seated_cases {seats : Nat → Slot → Option Nat} {pooler p : Nat} {slot q : Slot} {v : Option Nat} {reader : Nat}
    (h : Function.update seats pooler (Function.update (seats pooler) slot v) p q = some reader) :
    (slot = q ∧ v = some reader) ∨ seats p q = some reader := by
  by_cases hp : p = pooler
  · subst hp
    rw [Function.update_self] at h
    by_cases hq : q = slot
    · subst hq
      rw [Function.update_self] at h
      exact .inl ⟨rfl, h⟩
    · rw [Function.update_of_ne hq] at h
      exact .inr h
  · rw [Function.update_of_ne hp] at h
    exact .inr h

section

variable (h : r.Inv)

include h

lemma Inv.claim (pooler id : Nat) (sh : Shard) : (r.step (.claim pooler id sh)).Inv := by
  unfold Router.step
  dsimp only
  split
  · rename_i l hl
    split
    · exact h
    · have hkeeps : ∀ {readers seats}, r.Keeps { r with readers := r.readers ++ readers, seats := seats } :=
        fun j sr hsr => ⟨sr, (List.getElem?_append_left (List.getElem?_eq_some_iff.mp hsr).1).trans hsr, rfl⟩
      refine ⟨h.streams, h.calls, fun a ha => hkeeps.within (h.acks a ha) fun _ => .refl, ?_, ?_⟩
      · intro sr hsr
        rcases List.mem_append.mp hsr with hmem | hmem
        · exact h.readers sr hmem
        · obtain rfl := List.mem_singleton.mp hmem
          exact Nat.zero_le _
      · intro pooler' slot reader hseat
        rcases seated_cases hseat with ⟨rfl, hreader⟩ | hseat
        · obtain rfl := Option.some.inj hreader
          exact ⟨_, List.getElem?_concat_length, rfl⟩
        · exact hkeeps.seated (h.seats pooler' slot reader hseat)
  · exact h

lemma Inv.release (pooler : Nat) (slot : Slot) : (r.step (.release pooler slot)).Inv := by
  refine { h with seats := fun pooler' slot' reader hseat => ?_ }
  rcases seated_cases hseat with ⟨-, hreader⟩ | hseat
  · cases hreader
  · exact h.seats pooler' slot' reader hseat

lemma Inv.batch (reader endLsn : Nat) : (r.step (.batch reader endLsn)).Inv := by
  unfold Router.step
  dsimp only
  split
  · rename_i sr hsr
    have hhand := h.hand sr.slot endLsn
    exact hhand.reader (fun _ => rfl) fun sr' hsr' => hhand.readers sr' (List.mem_of_getElem? hsr')
  · exact h

lemma Inv.hold (ack : Nat) : (r.step (.hold ack)).Inv := by
  unfold Router.step
  dsimp only
  split
  · rename_i pooler slot lsn caller hack
    split
    · rename_i reader hseat
      split
      · rename_i sr hsr
        -- the reader that holds the slot reads this slot
        obtain ⟨sr', hsr', hs⟩ := h.seats pooler slot reader hseat
        have hasked : lsn ≤ r.handed slot := h.acks _ (List.mem_of_getElem? hack)
        exact h.setAck ⟨sr', hsr', (Nat.min_le_left _ _).trans (hs ▸ hasked)⟩
      · exact h
    · exact h
  · exact h

lemma Inv.store (ack : Nat) : (r.step (.store ack)).Inv := by
  unfold Router.step
  dsimp only
  split
  · rename_i reader lsn caller hack
    obtain ⟨sr, hsr, hle⟩ : PoolerAck.Within r (.held reader lsn caller) := h.acks _ (List.mem_of_getElem? hack)
    have hacks : ({ r with acks := r.acks.set ack (.noted reader lsn caller) } : Router).Inv := h.setAck ⟨sr, hsr, hle⟩
    refine hacks.reader (fun _ => rfl) fun sr' hsr' => ?_
    cases hsr'.symm.trans hsr
    exact Nat.max_le.mpr ⟨hle, h.readers sr (List.mem_of_getElem? hsr)⟩
  · exact h

lemma Inv.drop (ack : Nat) : (r.step (.drop ack)).Inv :=
  { h with acks := fun a ha => h.acks a (List.mem_of_mem_eraseIdx ha) }

lemma Inv.answer (ack : Nat) : (r.step (.answer ack)).Inv := by
  unfold Router.step
  dsimp only
  split
  · rename_i reader lsn caller hack
    split
    · have hless := h.drop ack
      cases caller with
      | none => exact hless
      | some c =>
        exact hless.changeOnly c.1 fun l handed hg => hg.same ⟨rfl, rfl, fun _ => rfl⟩ fun _ => rfl
    · exact h
  · exact h

lemma Inv.step (e : Event) : (r.step e).Inv := by
  cases e with
  | openStream name shards opts generation fingerprint start copy =>
    exact h.opened (good_openWith ..)
  | register id => exact h.register id
  | close id => exact h.close id
  | push id u => exact h.push id u
  | snapshot id sh st cp => exact h.snapshot id sh st cp
  | copyUnit id sh st items => exact h.copyUnit id sh st items
  | copyDone id sh items => exact h.copyDone id sh items
  | fill id sh => exact h.changeOnly id fun l handed hg => hg.fill sh
  | choose id now => exact h.working id fun l handed hg hbetween => hg.choose hbetween now
  | send id => exact h.changeOnly id fun l handed hg => hg.send
  | note id => exact h.changeOnly id fun l handed hg => hg.note
  | forwardAck id sh lsn => exact h.working id fun l handed hg _ => hg.forwardAck sh lsn
  | forward id sh pooler => exact h.forward id sh pooler
  | ack name position => exact h.ack name position
  | ackRead call sh => exact h.ackRead call sh
  | ackForward call pooler => exact h.ackForward call pooler
  | claim pooler id sh => exact h.claim pooler id sh
  | release pooler slot => exact h.release pooler slot
  | batch reader endLsn => exact h.batch reader endLsn
  | hold ack => exact h.hold ack
  | store ack => exact h.store ack
  | sendStatus reader =>
    exact h.reader (fun _ => rfl) fun sr hsr => h.readers sr (List.mem_of_getElem? hsr)
  | answer ack => exact h.answer ack
  | drop ack => exact h.drop ack

end

lemma inv_init : ({} : Router).Inv := by
  constructor <;> simp

lemma Inv.run (h : r.Inv) (events : List Event) : (r.run events).Inv := by
  induction events generalizing r with
  | nil => exact h
  | cons e events ih => exact ih (h.step e)

end Router

/-- Over any run of the router, its streams, the calls that acknowledge them and the poolers: an LSN is
forwarded for a stream's shard only when the shard is not copying and the stream was sent everything up
to it, and what PostgreSQL is told of a slot was handed over by the slot's readers. -/
theorem acks_after_delivery (events : List Event) (e : Event) :
    let r := ({} : Router).run events
    (∀ id sh lsn, e.forwards r = some (id, sh, lsn) →
      ∃ l, r.streams[id]? = some l ∧ l.merger.copyOf sh = none ∧ lsn ≤ l.lastSent sh) ∧
    ∀ slot lsn, e.confirms r = some (slot, lsn) → lsn ≤ r.handed slot := by
  intro r
  have hinv : r.Inv := Router.inv_init.run events
  constructor
  · intro id sh lsn hfwd
    cases e with
    | forward id' sh' pooler =>
      obtain ⟨lsn', hw, heq⟩ := Option.map_eq_some_iff.mp hfwd
      cases heq
      obtain ⟨l, hl, hcopy, hsent, -⟩ := hinv.wanted hw
      exact ⟨l, hl, hcopy, hsent⟩
    | ackForward call pooler =>
      obtain ⟨l, hl, hcopy, hsent, -⟩ := hinv.cleared hfwd
      exact ⟨l, hl, hcopy, hsent⟩
    | _ => cases hfwd
  · intro slot lsn hconf
    cases e with
    | sendStatus reader =>
      obtain ⟨sr, hsr, heq⟩ := Option.map_eq_some_iff.mp hconf
      cases heq
      exact hinv.readers sr (List.mem_of_getElem? hsr)
    | _ => cases hconf

/-- One transaction of one shard, read from its slot, sent and acknowledged. -/
def deliveredOnce : List Event :=
  let sh : Shard := ⟨"main", 0⟩
  [.openStream "orders" [sh] ⟨false, 0, 0⟩ 1 1 ⟨1, 1, [(sh, 4)], []⟩ false, .register 0, .claim 0 0 sh, .batch 0 10,
    .push 0 { shard := sh, items := [⟨.begin sh 7 0 "", [], 0⟩, ⟨.commit sh 9 10, [], 0⟩], endLSN := 10, position := true },
    .fill 0 sh, .choose 0 0, .send 0, .send 0, .send 0, .note 0, .note 0, .note 0, .send 0, .send 0,
    .forwardAck 0 sh 40]

def acknowledgedOnce : List Event := deliveredOnce ++ [.forward 0 ⟨"main", 0⟩ 0, .hold 0, .store 0]

theorem acks_after_delivery_once :
    (∃ l, (({} : Router).run deliveredOnce).streams[0]? = some l ∧ l.merger.copyOf ⟨"main", 0⟩ = none ∧
      10 ≤ l.lastSent ⟨"main", 0⟩) ∧
    10 ≤ (({} : Router).run acknowledgedOnce).handed ("orders", ⟨"main", 0⟩) :=
  ⟨(acks_after_delivery deliveredOnce (.forward 0 ⟨"main", 0⟩ 0)).1 0 ⟨"main", 0⟩ 10 (by decide +kernel),
    (acks_after_delivery acknowledgedOnce (.sendStatus 0)).2 ("orders", ⟨"main", 0⟩) 10 (by decide +kernel)⟩

/-- The position acknowledgements are held to was sent to the stream's client, and that was pushed by the shard's
reader before. -/
theorem published_was_sent (events : List Event) (id : Nat) : ∀ l ∈ (({} : Router).run events).streams[id]?,
    ∀ sh ∈ l.merger.shards, (l.emitted.pos sh).getD 0 ≤ l.lastSent sh ∧ l.lastSent sh ≤ l.delivered sh := by
  intro l hl sh hsh
  have hinv : (({} : Router).run events).Inv := Router.inv_init.run events
  have hsound := (hinv.streams id l hl).sound sh hsh
  exact ⟨hsound.pos, hsound.sent⟩

theorem published_was_sent_deliveredOnce : ∃ l ∈ (({} : Router).run deliveredOnce).streams[0]?,
    (l.emitted.pos ⟨"main", 0⟩).getD 0 ≤ l.lastSent ⟨"main", 0⟩ :=
  ⟨_, rfl, (published_was_sent deliveredOnce 0 _ rfl ⟨"main", 0⟩ (by decide +kernel)).1⟩

end PgShard.Vstream
