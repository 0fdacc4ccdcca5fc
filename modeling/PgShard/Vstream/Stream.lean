import PgShard.Vstream.Ack
import PgShard.Vstream.Lane

/-!
# An open stream, shard by shard

Each step of a stream is a step of one of its lanes and leaves the others as they are.
-/

namespace PgShard.Vstream

/-- The merger takes the head of some shard, or none. -/
def Merger.Picks (m : Merger) (r : Option StreamUnit × Merger) : Prop :=
  r.2.shards = m.shards ∧ r.2.copying = m.copying ∧ (r.1 = none ∧ r.2.heads = m.heads ∨
      ∃ sh u, r.1 = some u ∧ m.heads sh = some u ∧ r.2.heads = Function.update m.heads sh none)

namespace Merger

variable {m : Merger}

lemma picks_none (m : Merger) : m.Picks (none, m) := ⟨rfl, rfl, .inl ⟨rfl, rfl⟩⟩

lemma picks_take {sh : Shard} {u : StreamUnit} (h : m.heads sh = some u) : m.Picks (some u, m.take sh) :=
  ⟨rfl, rfl, .inr ⟨sh, u, rfl, h, rfl⟩⟩

lemma aligned_spec (now : Int) (floors : CommitFloors) (shards : List Shard)
    (pick : Option (Shard × StreamUnit)) (m : Merger) (hpick : ∀ sh u, pick = some (sh, u) → m.heads sh = some u) :
    m.Picks (aligned now floors shards pick m) := by
  induction shards generalizing pick m with
  | nil =>
    cases pick with
    | none => exact picks_none m
    | some best => exact picks_take (hpick best.1 best.2 rfl)
  | cons sh rest ih =>
    -- the rest of the shards, after a hold and with a unit that is there
    have hrest : ∀ u pick', (∀ sh u, pick' = some (sh, u) → m.heads sh = some u) →
        m.Picks (aligned now floors rest pick' (m.hold now floors sh u)) := by
      intro u pick' hpick'
      have hheld := ih pick' (m.hold now floors sh u)
      unfold hold at hheld ⊢
      split
      · exact ih pick' m hpick'
      · rename_i hlate
        rw [if_neg hlate] at hheld
        exact hheld hpick'
    rw [aligned]
    split
    · exact ih pick m hpick
    · rename_i u hu
      split
      · exact picks_take hu
      · split
        · split
          · refine hrest u _ ?_
            rintro sh' u' ⟨⟩
            exact hu
          · exact hrest u pick hpick
        · exact hrest u pick hpick

lemma choose_spec (m : Merger) (now : Int) : m.Picks (m.choose now) := by
  unfold choose
  split
  · exact aligned_spec now _ _ none m (by rintro sh u ⟨⟩)
  · unfold roundRobin
    dsimp only
    split
    · exact picks_none m
    · rename_i i hi
      have hany := List.find?_some hi
      split
      · exact picks_none m
      · rename_i sh hsh
        rw [hsh] at hany
        obtain ⟨u, hu⟩ := Option.isSome_iff_exists.mp (by simpa using hany)
        exact ⟨rfl, rfl, .inr ⟨sh, u, hu, hu, rfl⟩⟩

lemma find_filter_other {l : List (Shard × CopyState)} {a b : Shard} (h : a ≠ b) :
    (l.filter (·.1 ≠ a)).find? (·.1 = b) = l.find? (·.1 = b) := by
  rw [List.find?_filter]
  congr 1
  funext e
  by_cases he : e.1 = b
  · simp [he, Ne.symm h]
  · simp [he]

lemma copyOf_mark (m : Merger) (u : StreamUnit) (sh : Shard) : ((m.mark u).copyOf sh).isSome =
      if u.shard = sh then (u.copy.isSome || (m.copyOf sh).isSome) else (m.copyOf sh).isSome := by
  unfold mark
  split
  · rename_i st hst
    by_cases hsh : u.shard = sh
    · subst hsh
      simp [copyOf, hst, List.find?_append]
    · simp only [copyOf, List.find?_append, find_filter_other hsh, hsh, if_false, List.find?_singleton,
        decide_false, Bool.false_eq_true]
      simp
  · rename_i hst
    simp [hst]

lemma copyOf_unmark (m : Merger) (u : StreamUnit) (sh : Shard) : ((m.unmark u).copyOf sh).isSome =
      if u.shard = sh then (!u.copyDone && (m.copyOf sh).isSome) else (m.copyOf sh).isSome := by
  unfold unmark
  split
  · rename_i hdone
    by_cases hsh : u.shard = sh
    · subst hsh
      simp [copyOf, hdone]
    · simp only [copyOf, find_filter_other hsh, hsh, if_false]
  · rename_i hdone
    simp [hdone]

end Merger

def Stage.part : Stage → Option (StreamUnit × Part)
  | .sending u _ => some (u, .sending)
  | .sent u => some (u, .sent)
  | .marked u => some (u, .marked)
  | .moved u => some (u, .moved)
  | _ => none

def Live.lane (l : Live) (sh : Shard) : Lane where
  pos := (l.emitted.pos sh).getD 0
  flag := l.emitted.copying sh
  copying := (l.merger.copyOf sh).isSome
  current := l.stage.part.filter (·.1.shard = sh)
  queue := (l.merger.heads sh).toList ++ l.inputs sh
  delivered := l.delivered sh
  copies := l.copies sh
  snapshot := l.snapshot sh
  want := l.want sh
  lastSent := l.lastSent sh

namespace Live

variable {l l' : Live} {u : StreamUnit} {part : Part} {sh : Shard}

lemma pos_setCopying (e : Emitted) (sh : Shard) (b : Bool) : (e.setCopying sh b).pos = e.pos := by
  unfold Emitted.setCopying
  split <;> rfl

lemma copying_setCopying {e : Emitted} {sh' : Shard} (hknown : (e.pos sh').isSome = true) (b : Bool) :
    (e.setCopying sh' b).copying sh = if sh' = sh then b else e.copying sh := by
  unfold Emitted.setCopying
  rw [if_pos hknown]
  by_cases hsh : sh' = sh
  · subst hsh
    simp
  · simp [hsh, Function.update_of_ne (Ne.symm hsh)]

/-- The name and the shards of a stream stay, and so do the shards it has positions of. -/
structure Frame (l l' : Live) : Prop where
  name : l'.name = l.name
  shards : l'.merger.shards = l.merger.shards
  known : ∀ sh, (l'.emitted.pos sh).isSome = (l.emitted.pos sh).isSome

/-- One shard's lane becomes `k`, the others stay as they are. -/
structure At (l l' : Live) (sh : Shard) (k : Lane) : Prop extends l.Frame l' where
  lane : ∀ sh', l'.lane sh' = if sh = sh' then k else l.lane sh'

lemma at_push (l : Live) (u : StreamUnit) : l.At (l.push u) u.shard ((l.lane u.shard).push u) := by
  unfold push Lane.push
  by_cases hold : (u.position && u.endLSN ≤ l.delivered u.shard) = true
  · rw [if_pos hold, if_pos (show (u.position && u.endLSN ≤ (l.lane u.shard).delivered) = true from hold)]
    exact ⟨⟨rfl, rfl, fun _ => rfl⟩, fun sh => by split <;> simp_all⟩
  · rw [if_neg hold, if_neg (show ¬ (u.position && u.endLSN ≤ (l.lane u.shard).delivered) = true from hold)]
    refine ⟨⟨rfl, rfl, fun _ => rfl⟩, fun sh => ?_⟩
    by_cases hsh : u.shard = sh
    · subst hsh
      by_cases hp : u.position = true <;> simp [lane, hp]
    · by_cases hp : u.position = true <;> simp [lane, hp, hsh, Function.update_of_ne (Ne.symm hsh)]

lemma at_setSnapshot (l : Live) (sh : Shard) (lsn : Nat) :
    l.At (l.setSnapshot sh lsn) sh ((l.lane sh).setSnapshot lsn) := by
  refine ⟨⟨rfl, rfl, fun _ => rfl⟩, fun sh' => ?_⟩
  by_cases hsh : sh = sh'
  · subst hsh
    simp [setSnapshot, Lane.setSnapshot, lane]
  · simp [setSnapshot, lane, hsh, Function.update_of_ne (Ne.symm hsh)]

lemma at_endCopy (l : Live) (sh : Shard) : l.At (l.endCopy sh) sh (l.lane sh).endCopy := by
  refine ⟨⟨rfl, rfl, fun _ => rfl⟩, fun sh' => ?_⟩
  by_cases hsh : sh = sh'
  · subst hsh
    simp [endCopy, Lane.endCopy, lane]
  · simp [endCopy, lane, hsh, Function.update_of_ne (Ne.symm hsh)]

lemma frame_fill (l : Live) (sh : Shard) : l.Frame (l.fill sh) := by
  unfold fill
  split <;> exact ⟨rfl, rfl, fun _ => rfl⟩

lemma lane_fill (l : Live) (sh' sh : Shard) : (l.fill sh').lane sh = l.lane sh := by
  unfold fill
  split
  · rename_i u us hhead hin
    by_cases hsh : sh = sh'
    · subst hsh
      simp [lane, hhead, hin, Merger.copyOf]
    · simp [lane, Function.update_of_ne hsh, Merger.copyOf]
  · rfl

lemma lane_current (hstage : l.stage.part = some (u, part)) : (l.lane u.shard).current = some (u, part) := by
  simp [lane, hstage]

/-- All events of a unit are sent. -/
lemma at_send (hstage : l.stage = .sending u []) : l.At l.send u.shard ((l.lane u.shard).send u) := by
  refine ⟨by simp only [send, hstage]; exact ⟨rfl, rfl, fun _ => rfl⟩, fun sh => ?_⟩
  by_cases hsh : u.shard = sh
  · subst hsh
    by_cases hp : u.position = true <;>
      simp [send, hstage, lane, Lane.send, Stage.part, Merger.delivered, Merger.copyOf, hp]
  · have hne : ¬ sh = u.shard := Ne.symm hsh
    by_cases hp : u.position = true <;>
      simp [send, hstage, lane, Stage.part, Merger.delivered, Merger.copyOf, hp, hsh, Option.filter_some,
        Function.update_of_ne hne]

/-- What is published of a copy that begins, goes on or ends. -/
lemma published_copying {e : Emitted} (c b : Bool) (sh' : Shard) (hknown : (e.pos sh').isSome = true) :
    (if c then e.setCopying sh' b else e).pos = e.pos ∧
      ∀ sh, (if c then e.setCopying sh' b else e).copying sh = if sh' = sh ∧ c then b else e.copying sh := by
  cases c with
  | false => simp
  | true => exact ⟨pos_setCopying .., fun sh => by simp [copying_setCopying hknown]⟩

lemma at_mark (hstage : l.stage = .sent u) (hknown : (l.emitted.pos u.shard).isSome = true) :
    l.At l.note u.shard ((l.lane u.shard).mark u) := by
  have hmerger : (l.merger.mark u).shards = l.merger.shards ∧ (l.merger.mark u).heads = l.merger.heads := by
    unfold Merger.mark
    split <;> exact ⟨rfl, rfl⟩
  obtain ⟨hpos, hflag⟩ := published_copying u.copy.isSome true u.shard hknown
  simp only [note, hstage]
  refine { name := rfl, shards := hmerger.1, known := fun sh => by rw [hpos], lane := fun sh => ?_ }
  by_cases hsh : u.shard = sh
  · subst hsh
    simp only [lane, Lane.mark, Stage.part, Merger.copyOf_mark, hmerger, hflag, hpos]
    cases u.copy <;> simp
  · simp [hstage, lane, Stage.part, Merger.copyOf_mark, hmerger, hflag, hpos, hsh, Option.filter_some]

lemma at_move (hstage : l.stage = .marked u) (hknown : (l.emitted.pos u.shard).isSome = true) :
    l.At l.note u.shard ((l.lane u.shard).move u (l.merger.moves u)) := by
  obtain ⟨d, hd⟩ := Option.isSome_iff_exists.mp hknown
  have hmerger : (l.merger.move u).shards = l.merger.shards ∧ (l.merger.move u).heads = l.merger.heads ∧
      (l.merger.move u).copying = l.merger.copying := by
    unfold Merger.move
    split <;> exact ⟨rfl, rfl, rfl⟩
  simp only [note, hstage]
  refine ⟨⟨rfl, hmerger.1, fun sh => ?_⟩, fun sh => ?_⟩
  all_goals
    by_cases hsh : u.shard = sh
    · subst hsh
      by_cases hm : l.merger.moves u = true <;>
        simp [lane, Lane.move, Stage.part, Merger.copyOf, hmerger, hm, Emitted.advance, hd]
    · by_cases hm : l.merger.moves u = true <;>
        simp [hstage, lane, Stage.part, Merger.copyOf, hmerger, hm, hsh, Emitted.advance, Option.filter_some,
          Function.update_of_ne (Ne.symm hsh)]

lemma at_unmark (hstage : l.stage = .moved u) (hknown : (l.emitted.pos u.shard).isSome = true) :
    l.At l.note u.shard ((l.lane u.shard).unmark u) := by
  have hmerger : (l.merger.unmark u).shards = l.merger.shards ∧ (l.merger.unmark u).heads = l.merger.heads := by
    unfold Merger.unmark
    split <;> exact ⟨rfl, rfl⟩
  obtain ⟨hpos, hflag⟩ := published_copying u.copyDone false u.shard hknown
  simp only [note, hstage]
  refine { name := rfl, shards := hmerger.1, known := fun sh => by rw [hpos], lane := fun sh => ?_ }
  by_cases hsh : u.shard = sh
  · subst hsh
    simp only [lane, Lane.unmark, Stage.part, Merger.copyOf_unmark, hmerger, hflag, hpos]
    cases u.copyDone <;> simp
  · simp [hstage, lane, Stage.part, Merger.copyOf_unmark, hmerger, hflag, hpos, hsh, Option.filter_some]

lemma at_forwardAck (l : Live) (hin : sh ∈ l.merger.shards) (lsn : Nat) :
    l.At (l.forwardAck sh lsn) sh ((l.lane sh).request lsn) := by
  have hrequest : (l.lane sh).request lsn = (l.forwardAck sh lsn).lane sh := by
    by_cases hcopy : (l.merger.copyOf sh).isSome = true
    · simp [forwardAck, hin, hcopy, Lane.request, lane]
    · by_cases hpos : 0 < min lsn ((l.emitted.pos sh).getD 0) <;>
        simp [forwardAck, hin, hcopy, Lane.request, lane, hpos]
  have hother : ∀ sh', sh ≠ sh' → (l.forwardAck sh lsn).lane sh' = l.lane sh' := by
    intro sh' hsh
    unfold forwardAck
    split
    · rfl
    · dsimp only
      split
      · simp [lane, Function.update_of_ne (Ne.symm hsh)]
      · rfl
  refine ⟨?_, fun sh' => ?_⟩
  · unfold forwardAck
    split
    · exact ⟨rfl, rfl, fun _ => rfl⟩
    · dsimp only
      split <;> exact ⟨rfl, rfl, fun _ => rfl⟩
  · split
    · rename_i hsh
      subst hsh
      exact hrequest.symm
    · exact hother sh' ‹_›

/-- A stream has only units of its own shards. -/
structure Good (handed : Shard → Nat) (l : Live) : Prop where
  known : ∀ sh, (l.emitted.pos sh).isSome = true ↔ sh ∈ l.merger.shards
  absent : ∀ sh, sh ∉ l.merger.shards → (l.lane sh).ahead = [] ∧ l.want sh = 0
  sound : ∀ sh ∈ l.merger.shards, (l.lane sh).Sound sh (handed sh)

variable {handed : Shard → Nat}

lemma Good.more (hg : l.Good handed) {handed' : Shard → Nat} (h : ∀ sh, handed sh ≤ handed' sh) : l.Good handed' :=
  { hg with sound := fun sh hsh => (hg.sound sh hsh).more (h sh) }

/-- A shard with units is one of the stream's. -/
lemma Good.mem (hg : l.Good handed) (hu : u ∈ (l.lane sh).ahead) : sh ∈ l.merger.shards := by
  by_contra hout
  rw [(hg.absent sh hout).1] at hu
  cases hu

lemma Good.mem_part (hg : l.Good handed) (hstage : l.stage.part = some (u, part)) : u.shard ∈ l.merger.shards :=
  hg.mem (u := u) (by simp [Lane.ahead, lane_current hstage])

/-- The stream keeps its name, and what it has published only grows. -/
structure Onward (handed : Shard → Nat) (l l' : Live) : Prop where
  name : l'.name = l.name
  pos : ∀ sh d, l.emitted.pos sh = some d → ∃ d', l'.emitted.pos sh = some d' ∧ d ≤ d'
  good : l'.Good handed

lemma Onward.more (h : l.Onward handed l') {handed' : Shard → Nat} (hle : ∀ sh, handed sh ≤ handed' sh) :
    l.Onward handed' l' :=
  { h with good := h.good.more hle }

/-- A change that each shard stands by itself. -/
lemma Good.next (hg : l.Good handed) (hframe : l.Frame l')
    (habsent : ∀ sh, sh ∉ l.merger.shards → (l'.lane sh).ahead = [] ∧ l'.want sh = 0)
    (hlane : ∀ sh ∈ l.merger.shards, (l.lane sh).pos ≤ (l'.lane sh).pos ∧ (l'.lane sh).Sound sh (handed sh)) :
    l.Onward handed l' := by
  have hshards := hframe.shards
  refine ⟨hframe.name, ?_, ?_, hshards ▸ habsent, fun sh hsh => (hlane sh (hshards ▸ hsh)).2⟩
  · intro sh d hd
    have hknown : (l.emitted.pos sh).isSome = true := by simp [hd]
    obtain ⟨d', hd'⟩ := Option.isSome_iff_exists.mp ((hframe.known sh).trans hknown)
    have hle := (hlane sh ((hg.known sh).mp hknown)).1
    simp only [lane, hd, hd', Option.getD_some] at hle
    exact ⟨d', hd', hle⟩
  · intro sh
    rw [hframe.known, hshards]
    exact hg.known sh

lemma Good.same (hg : l.Good handed) (hframe : l.Frame l') (hlane : ∀ sh, l'.lane sh = l.lane sh) :
    l.Onward handed l' := by
  refine hg.next hframe (fun sh hout => ?_) fun sh hsh => ?_
  · change _ ∧ (l'.lane sh).want = 0
    rw [hlane]
    exact hg.absent sh hout
  · rw [hlane]
    exact ⟨.refl, hg.sound sh hsh⟩

lemma Good.at {k : Lane} (hg : l.Good handed) (hat : l.At l' sh k) (hin : sh ∈ l.merger.shards)
    (hk : k.Sound sh (handed sh)) (hpos : (l.lane sh).pos ≤ k.pos) :
    l.Onward handed l' := by
  refine hg.next hat.toFrame (fun sh' hout => ?_) fun sh' hsh' => ?_
  · have hne : sh ≠ sh' := fun h => hout (h ▸ hin)
    change _ ∧ (l'.lane sh').want = 0
    rw [hat.lane, if_neg hne]
    exact hg.absent sh' hout
  · rw [hat.lane]
    split
    · rename_i hsh
      subst hsh
      exact ⟨hpos, hk⟩
    · exact ⟨.refl, hg.sound sh' hsh'⟩

lemma push_pos (k : Lane) (u : StreamUnit) : k.pos ≤ (k.push u).pos := by
  unfold Lane.push
  split <;> exact .refl

section

variable (hg : l.Good handed)

include hg

lemma Good.push (hin : u.shard ∈ l.merger.shards) (hdone : u.copyDone = false)
    (hcopy : u.copy = none ∨ l.copies u.shard = true)
    (hlimit : u.position = true → u.endLSN ≤ (l.lane u.shard).limit (handed u.shard)) : l.Onward handed (l.push u) :=
  hg.at (at_push l u) hin ((hg.sound _ hin).push rfl hdone hcopy hlimit) (push_pos _ u)

lemma Good.pushSnapshot (hin : sh ∈ l.merger.shards) (hcopies : l.copies sh = true)
    (st : CopyState) (cp : Nat) : l.Onward handed (l.pushSnapshot sh st cp) := by
  unfold Live.pushSnapshot
  split
  · rename_i hnothing
    have hset := hg.at (at_setSnapshot l sh cp) hin ((hg.sound sh hin).snapshot hnothing cp) .refl
    have hpush := hset.good.push (u := { shard := sh, copy := some st, position := true, endLSN := cp })
      hin rfl (.inr hcopies) fun _ => ?_
    · exact { hpush with }
    · have hlim : ((l.lane sh).setSnapshot cp).limit (handed sh) = max (handed sh) cp := if_pos hcopies
      rw [(at_setSnapshot l sh cp).lane, if_pos rfl, hlim]
      exact Nat.le_max_right _ _
  · exact hg.push hin rfl (.inr hcopies) (by rintro ⟨⟩)

/-- The copy of a shard is over, and what its snapshot covers was handed over. -/
lemma Good.endCopy (hin : sh ∈ l.merger.shards) (hcopies : l.copies sh = true) (items : List Item) :
    l.Onward (Function.update handed sh (max (l.snapshot sh) (handed sh)))
      ((l.push { shard := sh, items := items, copyDone := true }).endCopy sh) := by
  have hpush := at_push l { shard := sh, items := items, copyDone := true }
  have hend := at_endCopy (l.push { shard := sh, items := items, copyDone := true }) sh
  have hgrown : l.Good (Function.update handed sh (max (l.snapshot sh) (handed sh))) := by
    refine hg.more fun sh' => ?_
    by_cases hsh : sh' = sh
    · subst hsh
      rw [Function.update_self]
      exact Nat.le_max_right _ _
    · rw [Function.update_of_ne hsh]
  refine hgrown.at (k := ((l.lane sh).push { shard := sh, items := items, copyDone := true }).endCopy) ?_ hin
    ?_ (push_pos _ _)
  · refine ⟨{ hpush with }, fun sh' => ?_⟩
    rw [hend.lane, hpush.lane, hpush.lane, if_pos rfl]
    split <;> rfl
  · rw [Function.update_self]
    exact (hg.sound sh hin).finish hcopies rfl rfl

lemma Good.fill (sh : Shard) : l.Onward handed (l.fill sh) := hg.same (frame_fill l sh) (lane_fill l sh)

lemma Good.choose (hbetween : l.stage = .between) (now : Int) : l.Onward handed (l.choose now) := by
  obtain ⟨hshards, hcopying, ⟨hnone, hheads⟩ | ⟨sh, u, hsome, hhead, hheads⟩⟩ := l.merger.choose_spec now
  · have hchoose : l.choose now = { l with merger := (l.merger.choose now).2 } := by
      unfold Live.choose
      split <;> simp_all
    rw [hchoose]
    exact hg.same ⟨rfl, hshards, fun _ => rfl⟩ fun sh => by simp [lane, hheads, hcopying, Merger.copyOf]
  · have hmem : u ∈ (l.lane sh).ahead := by simp [Lane.ahead, lane, hhead]
    have hin := hg.mem hmem
    have hsound := hg.sound sh hin
    obtain rfl : u.shard = sh := hsound.course.own u hmem
    have hchoose : l.choose now = { l with
        merger := (l.merger.choose now).2
        stage := if u.err.isSome then .ended
          else .sending u (Merger.sends (l.merger.choose now).2.sentRel u.items).1 } := by
      unfold Live.choose
      split
      · rename_i v m heq
        rw [heq] at hsome ⊢
        cases hsome
        split <;> rfl
      · simp_all
    rw [hchoose]
    refine hg.at (k := if u.err.isSome then (l.lane u.shard).skip else (l.lane u.shard).take)
      ⟨⟨rfl, hshards, fun _ => rfl⟩, fun sh => ?_⟩ hin ?_ ?_
    · by_cases hsh : u.shard = sh
      · subst hsh
        by_cases herr : u.err.isSome = true <;>
          simp [lane, Lane.skip, Lane.take, Stage.part, hheads, hhead, hcopying, Merger.copyOf, herr]
      · by_cases herr : u.err.isSome = true <;>
          simp [lane, Stage.part, hheads, hcopying, Merger.copyOf, hbetween, Function.update_of_ne (Ne.symm hsh),
            hsh, herr]
    · split
      · exact hsound.skip
      · exact hsound.take (by simp [lane, hbetween, Stage.part])
    · split
      · exact .refl
      · unfold Lane.take
        split <;> exact .refl

/-- Only the events that are still to be sent change. -/
lemma Good.restage {stage : Stage} (hpart : stage.part = l.stage.part) : l.Onward handed { l with stage := stage } :=
  hg.same ⟨rfl, rfl, fun _ => rfl⟩ fun sh => by simp [lane, hpart]

lemma Good.refl : l.Onward handed l := hg.same ⟨rfl, rfl, fun _ => rfl⟩ fun _ => rfl

lemma Good.send : l.Onward handed l.send := by
  cases hstage : l.stage with
  | sending u left =>
    have hpart : l.stage.part = some (u, .sending) := by rw [hstage]; rfl
    cases left with
    | cons ev left =>
      have hsend : l.send = { l with stage := .sending u left } := by simp [Live.send, hstage]
      rw [hsend]
      exact hg.restage hpart.symm
    | nil =>
      have hin := hg.mem_part hpart
      exact hg.at (at_send hstage) hin ((hg.sound _ hin).send (lane_current hpart)) .refl
  | reporting left =>
    cases left with
    | cons ev left =>
      have hsend : l.send = { l with stage := .reporting left } := by simp [Live.send, hstage]
      rw [hsend]
      exact hg.restage (by rw [hstage]; rfl)
    | nil =>
      have hsend : l.send = { l with stage := .between } := by simp [Live.send, hstage]
      rw [hsend]
      exact hg.restage (by rw [hstage]; rfl)
  | between | sent u | marked u | moved u | ended =>
    have hsend : l.send = l := by simp [Live.send, hstage]
    rw [hsend]
    exact hg.refl

lemma Good.note : l.Onward handed l.note := by
  -- the shard of the unit the merger is at
  have hat : ∀ u part, l.stage.part = some (u, part) → (l.emitted.pos u.shard).isSome = true ∧
      u.shard ∈ l.merger.shards ∧ (l.lane u.shard).Sound u.shard (handed u.shard) ∧
      (l.lane u.shard).current = some (u, part) := by
    intro u part hpart
    have hin := hg.mem_part hpart
    exact ⟨(hg.known _).mpr hin, hin, hg.sound _ hin, lane_current hpart⟩
  cases hstage : l.stage with
  | sent u =>
    obtain ⟨hknown, hin, hsound, hcur⟩ := hat u .sent (by rw [hstage]; rfl)
    exact hg.at (at_mark hstage hknown) hin (hsound.mark hcur) .refl
  | marked u =>
    obtain ⟨hknown, hin, hsound, hcur⟩ := hat u .marked (by rw [hstage]; rfl)
    refine hg.at (at_move hstage hknown) hin (hsound.move hcur fun hm => ?_) ?_
    · simp only [Merger.moves, Bool.and_eq_true] at hm
      exact hm.1
    · unfold Lane.move
      dsimp only
      split
      · exact Nat.le_max_right _ _
      · exact .refl
  | moved u =>
    obtain ⟨hknown, hin, hsound, hcur⟩ := hat u .moved (by rw [hstage]; rfl)
    exact hg.at (at_unmark hstage hknown) hin (hsound.unmark hcur) .refl
  | between | sending u left | reporting left | ended =>
    have hnote : l.note = l := by simp [Live.note, hstage]
    rw [hnote]
    exact hg.refl

lemma Good.forwardAck (sh : Shard) (lsn : Nat) : l.Onward handed (l.forwardAck sh lsn) := by
  by_cases hin : sh ∈ l.merger.shards
  · refine hg.at (at_forwardAck l hin lsn) hin ((hg.sound sh hin).request lsn) ?_
    unfold Lane.request
    split
    · exact .refl
    · split <;> exact .refl
  · have hsame : l.forwardAck sh lsn = l := by simp [Live.forwardAck, hin]
    rw [hsame]
    exact hg.refl

/-- The stream ends where it is. -/
lemma Good.ended : l.Onward handed { l with stage := .ended } := by
  have hlane : ∀ sh, ({ l with stage := .ended } : Live).lane sh = (l.lane sh).leave := fun sh => by
    simp [lane, Lane.leave, Stage.part]
  refine hg.next ⟨rfl, rfl, fun _ => rfl⟩ (fun sh hout => ?_) fun sh hsh => ?_
  · obtain ⟨hahead, hwant⟩ := hg.absent sh hout
    rw [hlane]
    exact ⟨(List.append_eq_nil_iff.mp hahead).2, hwant⟩
  · rw [hlane]
    exact ⟨.refl, (hg.sound sh hsh).leave⟩

end

end Live

lemma known_copying (keys : List Shard) (e : Emitted) :
    (keys.foldl (fun e sh => e.setCopying sh true) e).pos = e.pos ∧ ∀ sh, (e.pos sh).isSome = true →
        (keys.foldl (fun e sh => e.setCopying sh true) e).copying sh = (keys.contains sh || e.copying sh) := by
  induction keys generalizing e with
  | nil => exact ⟨rfl, fun sh _ => by simp⟩
  | cons key keys ih =>
    obtain ⟨hpos, hcopying⟩ := ih (e.setCopying key true)
    rw [Live.pos_setCopying] at hpos hcopying
    refine ⟨hpos, fun sh hknown => ?_⟩
    rw [List.foldl_cons, hcopying sh hknown]
    by_cases hsh : key = sh
    · subst hsh
      rw [Live.copying_setCopying hknown]
      simp
    · have hother : (e.setCopying key true).copying sh = e.copying sh := by
        unfold Emitted.setCopying
        split
        · exact Function.update_of_ne (Ne.symm hsh) _ _
        · rfl
      rw [hother]
      simp [Ne.symm hsh]

lemma copyOf_isSome (m : Merger) (sh : Shard) : (m.copyOf sh).isSome = (m.copying.map (·.1)).contains sh := by
  rw [Bool.eq_iff_iff]
  simp [Merger.copyOf]

lemma good_openWith (name : String) (shards : List Shard) (opts : Options) (generation fingerprint : Nat)
    (start : VPosition) (copy : Bool) (handed : Shard → Nat) :
    (Live.openWith name shards opts generation fingerprint start copy).Good handed := by
  generalize hl : Live.openWith name shards opts generation fingerprint start copy = l
  have hpos : l.emitted.pos = fun sh => if sh ∈ l.merger.shards then some 0 else none := by
    subst hl
    exact (known_copying _ _).1
  have hflag : ∀ sh ∈ l.merger.shards, l.emitted.copying sh = l.copies sh := by
    intro sh hsh
    have hknown : ((Emitted.new l.merger.shards).pos sh).isSome = true := by simp [Emitted.new, hsh]
    subst hl
    exact ((known_copying _ _).2 sh hknown).trans (Bool.or_false _)
  have hcopy : ∀ sh, (l.merger.copyOf sh).isSome = l.copies sh := by
    intro sh
    rw [copyOf_isSome]
    subst hl
    rfl
  have hempty : ∀ sh, l.want sh = 0 ∧ l.lastSent sh = 0 ∧ (l.lane sh).current = none ∧ (l.lane sh).ahead = [] ∧
      (l.lane sh).unsent = [] := fun sh => by subst hl; exact ⟨rfl, rfl, rfl, rfl, rfl⟩
  refine ⟨fun sh => ?_, fun sh _ => ⟨(hempty sh).2.2.2.1, (hempty sh).1⟩, fun sh hsh => ?_⟩
  · by_cases hsh : sh ∈ l.merger.shards <;> simp [hpos, hsh]
  · obtain ⟨hwant, hlast, hcurrent, hahead, hunsent⟩ := hempty sh
    have hlane : (l.lane sh).pos = 0 := by simp [Live.lane, hpos, hsh]
    have hwant : (l.lane sh).want = 0 := hwant
    have hlast : (l.lane sh).lastSent = 0 := hlast
    constructor
    iterate 5 omega
    · intro hc
      exact (hflag sh hsh).trans ((hcopy sh).symm.trans hc)
    · simp [hcurrent]
    · rw [hunsent]
      exact ⟨.nil, by simp⟩
    · rw [hahead]
      exact .nil fun hc => (hcopy sh).symm.trans hc

end PgShard.Vstream
