import PgShard.Placer.CatchUp

/-!
# No transaction is skipped

The slot moves to the last commit of a peek, behind which everything was applied, or to the WAL end that
was read before an empty peek. A commit may have been written there and not yet flushed: the peek does
not show it, and the slot passes it once it is flushed. Nothing else is lost.
-/

namespace PgShard.Placer

variable {wf : Workflow}

variable {done : Int → Nat} {upto : Nat}

lemma kindsFor_within {ops ops' : List ApplyOp} (h : ops <:+: ops') (t : Int) :
    kindsFor ops t <:+: kindsFor ops' t := by
  obtain ⟨before, after, rfl⟩ := h
  rw [kindsFor_append, kindsFor_append]
  exact ⟨_, _, rfl⟩

/-- A complete flush has sent everything that was ready. -/
lemma sentOps_complete {p : CatchUp} {ready : List ApplyOp} (h : CatchUp.complete wf ready done = true) (t : Int) :
    (p.send wf ready done).sentOps t = p.sentOps t ++ kindsFor ready t := by
  refine List.flatMap_append.trans (congrArg (p.sentOps t ++ ·) ?_)
  by_cases ht : ∃ op ∈ ready, op.shard = t
  · obtain ⟨op, hop, rfl⟩ := ht
    have hlen := List.all_eq_true.mp h op hop
    rw [List.take_of_length_le (of_decide_eq_true hlen), statementsFor, coalesce_ops]
  · have hnone : kindsFor ready t = [] := by
      rw [kindsFor, List.map_eq_nil_iff, List.filter_eq_nil_iff]
      intro op hop hshard
      exact ht ⟨op, hop, of_decide_eq_true hshard⟩
    rw [statementsFor, hnone]
    simp [coalesce, coalesceFrom, flushUps, flushDels]

/-- The source goes on, and the targets are sent more. -/
structure Grows (p p' : CatchUp) : Prop where
  txs : ∀ tx ∈ p'.txs, tx ∈ p.txs ∨ p.written < tx.lsn
  written : p.written ≤ p'.written
  slot : p'.slot = p.slot
  sent : ∀ t, p.sent t <+: p'.sent t

variable {p p' : CatchUp}

lemma Grows.sentOps (h : Grows p p') (t : Int) : p.sentOps t <:+: p'.sentOps t := by
  obtain ⟨more, hmore⟩ := h.sent t
  rw [CatchUp.sentOps, CatchUp.sentOps, ← hmore, List.flatMap_append]
  exact (List.prefix_append _ _).isInfix

variable {tx : Tx} {seen behind : List Tx} {before : List Message} {rest : List Row} {r : Round} {upto : Nat}

lemma Tx.Applied.grows (h : tx.Applied wf p) (hg : Grows p p') : tx.Applied wf p' := by
  obtain ⟨ops, hops, hsent⟩ := h
  exact ⟨ops, hops, fun t => (hsent t).trans (hg.sentOps t)⟩

lemma grows_send (ready : List ApplyOp) (done : Int → Nat) : Grows p (p.send wf ready done) where
  txs := fun _ htx => .inl htx
  written := .refl
  slot := rfl
  sent := fun _ => List.prefix_append _ _

/-- The rows that are left, behind some whole transactions and some messages of the next. -/
def Cut (seen : List Tx) (rest : List Row) (behind : List Tx) (before : List Message) : Prop :=
  (seen = behind ∧ before = [] ∧ rest = []) ∨
    ∃ tx ahead after, seen = behind ++ tx :: ahead ∧ tx.messages = before ++ after ∧
      rest = after.map .message ++ .commit tx.lsn :: ahead.flatMap Tx.rows

lemma Cut.first (seen : List Tx) : Cut seen (seen.flatMap Tx.rows) [] [] := by
  cases seen with
  | nil => exact .inl ⟨rfl, rfl, rfl⟩
  | cons tx ahead => exact .inr ⟨tx, ahead, tx.messages, rfl, rfl, by simp [Tx.rows]⟩

lemma Cut.last (h : Cut seen [] behind before) : seen = behind := by
  rcases h with ⟨rfl, -, -⟩ | ⟨tx, ahead, after, -, -, hrest⟩
  · rfl
  · simp at hrest

lemma Cut.message {m : Message} (h : Cut seen (.message m :: rest) behind before) :
    Cut seen rest behind (before ++ [m]) := by
  rcases h with ⟨-, -, hrest⟩ | ⟨tx, ahead, after, hseen, hmessages, hrest⟩
  · cases hrest
  · cases after with
    | nil => cases hrest
    | cons m' after =>
      cases hrest
      exact .inr ⟨tx, ahead, after, hseen, by simp [hmessages], rfl⟩

lemma Cut.commit {lsn : Nat} (h : Cut seen (.commit lsn :: rest) behind before) :
    ∃ tx, tx.lsn = lsn ∧ tx.messages = before ∧ Cut seen rest (behind ++ [tx]) [] := by
  rcases h with ⟨-, -, hrest⟩ | ⟨tx, ahead, after, hseen, hmessages, hrest⟩
  · cases hrest
  · cases after with
    | cons m' after => cases hrest
    | nil =>
      cases hrest
      refine ⟨tx, rfl, by simpa using hmessages, ?_⟩
      cases ahead with
      | nil => exact .inl ⟨hseen, rfl, rfl⟩
      | cons next ahead =>
        exact .inr ⟨next, ahead, next.messages, by simp [hseen], rfl, by simp [Tx.rows]⟩

lemma opsOf_more {cs cs' : List Change} {ops ops' : List ApplyOp} (h : opsOf wf.rt wf.shape cs = .ok ops)
    (h' : opsOf wf.rt wf.shape cs' = .ok ops') : opsOf wf.rt wf.shape (cs ++ cs') = .ok (ops ++ ops') := by
  induction cs generalizing ops with
  | nil =>
    cases h
    exact h'
  | cons c cs ih =>
    obtain ⟨first, rest, hfirst, hrest, rfl⟩ := opsOf_cons h
    simp [opsOf, hfirst, ih hrest]

/-- A message adds the operations of its change to the open transaction. -/
lemma Round.message_ok {r' : Round} {m : Message} (h : r.message wf m = .ok r') :
    r'.ready = r.ready ∧ r'.commitLSN = r.commitLSN ∧
      ∃ ops, opsOf wf.rt wf.shape (m.changeOf wf).toList = .ok ops ∧ r'.opened = r.opened ++ ops := by
  cases m with
  | silent =>
    cases h
    exact ⟨rfl, rfl, [], rfl, (List.append_nil _).symm⟩
  | invalid => cases h
  | change rel c =>
    simp only [Round.message] at h
    by_cases hother : rel.other wf = true
    · rw [if_pos hother] at h
      cases h
      exact ⟨rfl, rfl, [], by simp [Message.changeOf, hother, opsOf], (List.append_nil _).symm⟩
    · rw [if_neg hother] at h
      split at h
      · cases h
      split at h
      · cases h
      rename_i ops hroute
      split at h
      · cases h
      cases h
      exact ⟨rfl, rfl, ops, by simp [Message.changeOf, hother, opsOf, hroute], rfl⟩

/-- The operations of a transaction behind the decoder have been sent, or wait to be. -/
def Tx.Held (wf : Workflow) (p : CatchUp) (r : Round) (tx : Tx) : Prop :=
  ∃ ops, opsOf wf.rt wf.shape (tx.changes wf) = .ok ops ∧ ((∀ t, kindsFor ops t <:+: p.sentOps t) ∨ ops <:+: r.ready)

/-- Where the slot may go when all that was seen has been applied. -/
def reach (seen : List Tx) (upto : Nat) : Nat := (seen.getLast?.map Tx.lsn).getD upto

/-- The peek has shown everything that the slot would pass. -/
structure Shown (wf : Workflow) (p : CatchUp) (upto : Nat) (seen : List Tx) : Prop where
  bound : reach seen upto ≤ p.written
  all : ∀ tx ∈ p.txs, tx.changes wf ≠ [] → p.slot < tx.lsn → tx.lsn ≤ reach seen upto → tx ∈ seen

structure Partway (wf : Workflow) (p : CatchUp) (upto : Nat) (rest : List Row) (r : Round)
    (seen behind : List Tx) (before : List Message) : Prop where
  cut : Cut seen rest behind before
  opened : opsOf wf.rt wf.shape (before.filterMap (Message.changeOf wf)) = .ok r.opened
  held : ∀ tx ∈ behind, tx.Held wf p r
  commitLSN : r.commitLSN = behind.getLast?.map Tx.lsn
  shown : Shown wf p upto seen

def Phase.Sound (wf : Workflow) (p : CatchUp) : Phase → Prop
  | .idle => True
  | .read upto => upto ≤ p.written
  | .decoding upto rest r => ∃ seen behind before, Partway wf p upto rest r seen behind before
  | .flushing upto rest r last =>
    (∃ seen behind before, Partway wf p upto rest r seen behind before) ∧ (last = true → rest = [])
  | .applied upto r => ∃ seen, (∀ tx ∈ seen, tx.Applied wf p) ∧ r.commitLSN = seen.getLast?.map Tx.lsn ∧
    Shown wf p upto seen

lemma Tx.Held.grows (h : tx.Held wf p r) (hg : Grows p p') : tx.Held wf p' r := by
  obtain ⟨ops, hops, hsent | hready⟩ := h
  · exact ⟨ops, hops, .inl fun t => (hsent t).trans (hg.sentOps t)⟩
  · exact ⟨ops, hops, .inr hready⟩

lemma Shown.grows (h : Shown wf p upto seen) (hg : Grows p p') : Shown wf p' upto seen := by
  refine ⟨h.bound.trans hg.written, ?_⟩
  intro tx htx hchanges hslot hle
  rcases hg.txs tx htx with hold | hnew
  · exact h.all tx hold hchanges (hg.slot ▸ hslot) hle
  · have hbound := h.bound
    omega

lemma Partway.grows (h : Partway wf p upto rest r seen behind before) (hg : Grows p p') :
    Partway wf p' upto rest r seen behind before := { h with
  held := fun tx htx => (h.held tx htx).grows hg
  shown := h.shown.grows hg }

lemma Phase.Sound.grows {phase : Phase} (h : phase.Sound wf p) (hg : Grows p p') : phase.Sound wf p' := by
  cases phase with
  | idle => trivial
  | read upto => exact Nat.le_trans h hg.written
  | decoding upto rest r =>
    obtain ⟨seen, behind, before, hpart⟩ := h
    exact ⟨seen, behind, before, hpart.grows hg⟩
  | flushing upto rest r last =>
    obtain ⟨⟨seen, behind, before, hpart⟩, hlast⟩ := h
    exact ⟨⟨seen, behind, before, hpart.grows hg⟩, hlast⟩
  | applied upto r =>
    obtain ⟨seen, happlied, hcommit, hshown⟩ := h
    exact ⟨seen, fun tx htx => (happlied tx htx).grows hg, hcommit, hshown.grows hg⟩

lemma takeTxs_first (limit : Nat) (txs : List Tx) : takeTxs limit txs <+: txs := by
  induction txs generalizing limit with
  | nil => exact List.prefix_rfl
  | cons tx txs ih =>
    rw [takeTxs]
    split
    · exact ⟨txs, rfl⟩
    · exact (List.prefix_cons_inj tx).mpr (ih _)

lemma takeTxs_eq_nil {limit : Nat} {txs : List Tx} (h : takeTxs limit txs = []) : txs = [] := by
  cases txs with
  | nil => rfl
  | cons tx txs =>
    rw [takeTxs] at h
    split at h <;> cases h

/-- What the first part of an ordered list does not hold comes after its last. -/
lemma mem_of_le_last {txs : List Tx} (hordered : txs.Pairwise fun a b => a.lsn < b.lsn)
    (hseen : seen <+: txs) {last : Tx} (hlast : seen.getLast? = some last) (htx : tx ∈ txs)
    (hle : tx.lsn ≤ last.lsn) : tx ∈ seen := by
  obtain ⟨after, rfl⟩ := hseen
  rcases List.mem_append.mp htx with hmem | hmem
  · exact hmem
  · have hlt := (List.pairwise_append.mp hordered).2.2 last (List.mem_of_getLast? hlast) tx hmem
    omega

/-- The commits of the table up to the WAL end that the round has read are flushed. -/
def CatchUp.EndFlushed (wf : Workflow) (p : CatchUp) : Prop :=
  ∀ upto, p.phase = .read upto → ∀ tx ∈ p.txs, tx.changes wf ≠ [] → tx.lsn ≤ upto → tx.lsn ≤ p.flushed

lemma shown_peek (hordered : p.txs.Pairwise fun a b => a.lsn < b.lsn)
    (hbelow : ∀ tx ∈ p.txs, tx.lsn ≤ p.written) (hupto : upto ≤ p.written)
    (hphase : p.phase = .read upto) (hflushed : p.EndFlushed wf) : Shown wf p upto p.decodable := by
  have hmem : ∀ tx, tx ∈ p.txs.filter (fun tx => p.slot < tx.lsn && tx.lsn ≤ p.flushed) ↔
      tx ∈ p.txs ∧ p.slot < tx.lsn ∧ tx.lsn ≤ p.flushed := by
    intro tx
    simp [List.mem_filter]
  have hseen := takeTxs_first peekChanges (p.txs.filter fun tx => p.slot < tx.lsn && tx.lsn ≤ p.flushed)
  cases hlast : p.decodable.getLast? with
  | none =>
    have hreach : reach p.decodable upto = upto := by simp [reach, hlast]
    have hnil : p.decodable = [] := List.getLast?_eq_none_iff.mp hlast
    have hempty := takeTxs_eq_nil hnil
    constructor
    · rw [hreach]
      exact hupto
    · intro tx htx hchanges hslot hle
      rw [hreach] at hle
      have hin := (hmem tx).mpr ⟨htx, hslot, hflushed upto hphase tx htx hchanges hle⟩
      rw [hempty] at hin
      cases hin
  | some last =>
    have hreach : reach p.decodable upto = last.lsn := by simp [reach, hlast]
    have hin := (hmem last).mp (hseen.subset (List.mem_of_getLast? hlast))
    constructor
    · rw [hreach]
      exact hbelow last hin.1
    · intro tx htx hchanges hslot hle
      rw [hreach] at hle
      exact mem_of_le_last (hordered.filter _) hseen hlast
        ((hmem tx).mpr ⟨htx, hslot, hle.trans hin.2.2⟩) hle

structure CatchUp.Inv (wf : Workflow) (start : Nat) (p : CatchUp) : Prop where
  ordered : p.txs.Pairwise fun a b => a.lsn < b.lsn
  below : ∀ tx ∈ p.txs, tx.lsn ≤ p.written
  flushed : p.flushed ≤ p.written
  slot : p.slot ≤ p.flushed
  skips : p.SkipsNone wf start
  phase : p.phase.Sound wf p

variable {start : Nat}

/-- Everything but the round's phase. -/
lemma CatchUp.Inv.goto (h : p.Inv wf start) {phase : Phase} (hphase : phase.Sound wf p) :
    (p.goto phase).Inv wf start := { h with
  phase := hphase.grows ⟨fun _ htx => .inl htx, Nat.le_refl _, rfl, fun _ => List.prefix_rfl⟩ }

lemma skipsNone_grows (h : p.SkipsNone wf start) (hslot : p.slot ≤ p.written) (hg : Grows p p') :
    p'.SkipsNone wf start := by
  intro tx htx hchanges hstart hle
  rw [hg.slot] at hle
  rcases hg.txs tx htx with hold | hnew
  · exact (h tx hold hchanges hstart hle).grows hg
  · omega

lemma CatchUp.Inv.send (h : p.Inv wf start) (ready : List ApplyOp) (done : Int → Nat) :
    (p.send wf ready done).Inv wf start := { h with
  skips := skipsNone_grows h.skips (h.slot.trans h.flushed) (grows_send ready done)
  phase := h.phase.grows (grows_send ready done) }

/-- Once what was ready has been sent, so has everything behind the decoder. -/
lemma Tx.Held.sent (h : tx.Held wf p r) (hcomplete : CatchUp.complete wf r.ready done = true) :
    tx.Applied wf (p.send wf r.ready done) := by
  obtain ⟨ops, hops, hsent⟩ := h
  refine ⟨ops, hops, fun t => ?_⟩
  rw [sentOps_complete hcomplete]
  rcases hsent with hsent | hready
  · exact (hsent t).trans (List.prefix_append _ _).isInfix
  · exact (kindsFor_within hready t).trans (List.suffix_append _ _).isInfix

lemma Tx.Applied.held (h : tx.Applied wf p) (r : Round) : tx.Held wf p r := by
  obtain ⟨ops, hops, hsent⟩ := h
  exact ⟨ops, hops, .inl hsent⟩

section

variable {upto : Nat} {rest : List Row} {r : Round} {seen behind : List Tx} {before : List Message}

lemma Partway.message {m : Message} (h : Partway wf p upto (.message m :: rest) r seen behind before)
    {r' : Round} (hr : r.message wf m = .ok r') : Partway wf p upto rest r' seen behind (before ++ [m]) := by
  obtain ⟨hready, hcommit, ops, hops, hopened⟩ := Round.message_ok hr
  constructor
  · exact h.cut.message
  · rw [List.filterMap_append, hopened]
    refine opsOf_more h.opened ?_
    cases hm : m.changeOf wf with
    | none => simpa [hm] using hops
    | some c => simpa [hm] using hops
  · intro tx htx
    obtain ⟨ops, hops, hsent⟩ := h.held tx htx
    exact ⟨ops, hops, hsent.imp_right fun hin => hready ▸ hin⟩
  · rw [hcommit]
    exact h.commitLSN
  · exact h.shown

lemma Partway.commit {lsn : Nat} (h : Partway wf p upto (.commit lsn :: rest) r seen behind before) :
    ∃ tx, Partway wf p upto rest (r.commit lsn) seen (behind ++ [tx]) [] := by
  obtain ⟨tx, hlsn, hmessages, hcut⟩ := h.cut.commit
  refine ⟨tx, hcut, rfl, ?_, ?_, h.shown⟩
  · intro tx' htx'
    rcases List.mem_append.mp htx' with hmem | hmem
    · obtain ⟨ops, hops, hsent⟩ := h.held tx' hmem
      exact ⟨ops, hops, hsent.imp_right fun hin => hin.trans (List.prefix_append _ _).isInfix⟩
    · obtain rfl := List.mem_singleton.mp hmem
      refine ⟨r.opened, ?_, .inr (List.suffix_append _ _).isInfix⟩
      rw [Tx.changes, hmessages]
      exact h.opened
  · simp [Round.commit, hlsn]

lemma Partway.flushed (h : Partway wf p upto rest r seen behind before)
    (hcomplete : CatchUp.complete wf r.ready done = true) :
    Partway wf (p.send wf r.ready done) upto rest r.flushed seen behind before := { h with
  held := fun tx htx => ((h.held tx htx).sent hcomplete).held _
  shown := h.shown.grows (grows_send r.ready done) }

end

lemma CatchUp.Inv.decodeRow (h : p.Inv wf start) {rest : List Row} {r : Round}
    (hphase : p.phase = .decoding upto rest r) : (p.decodeRow wf upto r rest).Inv wf start := by
  obtain ⟨seen, behind, before, hpart⟩ : ∃ seen behind before, Partway wf p upto rest r seen behind before := by
    have hsound := h.phase
    rwa [hphase] at hsound
  cases rest with
  | nil => exact h.goto ⟨⟨seen, behind, before, hpart⟩, fun _ => rfl⟩
  | cons row rest =>
    cases row with
    | message m =>
      simp only [CatchUp.decodeRow]
      split
      · exact h.goto trivial
      · rename_i r' hr
        exact h.goto ⟨seen, behind, before ++ [m], hpart.message hr⟩
    | commit lsn =>
      obtain ⟨tx, hnext⟩ := hpart.commit
      simp only [CatchUp.decodeRow]
      split
      · exact h.goto ⟨⟨seen, behind ++ [tx], [], hnext⟩, fun hlast => by cases hlast⟩
      · exact h.goto ⟨seen, behind ++ [tx], [], hnext⟩

lemma CatchUp.Inv.applyOps (h : p.Inv wf start) {rest : List Row} {r : Round} {last : Bool}
    (hphase : p.phase = .flushing upto rest r last) (done : Int → Nat) :
    (p.applyOps wf upto rest r last done).Inv wf start := by
  have hsound : (Phase.flushing upto rest r last).Sound wf p := hphase ▸ h.phase
  obtain ⟨⟨seen, behind, before, hpart⟩, hlast⟩ := hsound
  rw [CatchUp.applyOps]
  split
  · rename_i hcomplete
    refine (h.send r.ready done).goto ?_
    cases last with
    | false => exact ⟨seen, behind, before, hpart.flushed hcomplete⟩
    | true =>
      -- the rows are over, so the decoder is behind everything that was seen
      obtain rfl := hlast rfl
      obtain rfl := hpart.cut.last
      exact ⟨seen, fun tx htx => (hpart.held tx htx).sent hcomplete, hpart.commitLSN,
        hpart.shown.grows (grows_send r.ready done)⟩
  · exact (h.send r.ready done).goto trivial

lemma Round.target_reach {r : Round} {lsn : Nat} {seen : List Tx}
    (hcommit : r.commitLSN = seen.getLast?.map Tx.lsn) (h : r.target upto = some lsn) : lsn = reach seen upto := by
  rw [reach, ← hcommit]
  simp only [Round.target] at h
  split at h
  · rename_i hc
    rw [hc]
    exact (Option.some.inj h).symm
  · rename_i hc
    rw [hc]
    split at h
    · exact (Option.some.inj h).symm
    · cases h

lemma CatchUp.Inv.slotAdvance (h : p.Inv wf start) {seen : List Tx}
    (happlied : ∀ tx ∈ seen, tx.Applied wf p) (hshown : Shown wf p upto seen) :
    ((p.slotAdvance (reach seen upto)).goto .idle).Inv wf start := by
  rw [CatchUp.slotAdvance]
  split
  · exact h.goto trivial
  · refine { h with slot := Nat.min_le_right _ _, skips := ?_, phase := trivial }
    intro tx htx hchanges hstart hle
    have hreach : tx.lsn ≤ reach seen upto := hle.trans (Nat.min_le_left _ _)
    by_cases hslot : tx.lsn ≤ p.slot
    · exact h.skips tx htx hchanges hstart hslot
    · exact happlied tx (hshown.all tx htx hchanges (Nat.lt_of_not_le hslot) hreach)

/-- The source's own events. -/
lemma CatchUp.Inv.source (h : p.Inv wf start) (hg : Grows p p')
    (hordered : p'.txs.Pairwise fun a b => a.lsn < b.lsn) (hbelow : ∀ tx ∈ p'.txs, tx.lsn ≤ p'.written)
    (hflushed : p.flushed ≤ p'.flushed ∧ p'.flushed ≤ p'.written) (hphase : p'.phase = p.phase) : p'.Inv wf start where
  ordered := hordered
  below := hbelow
  flushed := hflushed.2
  slot := hg.slot ▸ h.slot.trans hflushed.1
  skips := skipsNone_grows h.skips (h.slot.trans h.flushed) hg
  phase := hphase ▸ h.phase.grows hg

lemma CatchUp.Inv.commit (h : p.Inv wf start) (messages : List Message) (length : Nat) :
    (p.step wf (.commit messages length)).Inv wf start := by
  have hin : ∀ tx, tx ∈ (p.step wf (.commit messages length)).txs →
      tx ∈ p.txs ∨ tx = ⟨p.written + length + 1, messages⟩ := by
    intro tx htx
    simpa [CatchUp.step] using htx
  refine h.source ⟨?_, ?_, rfl, fun _ => List.prefix_rfl⟩ ?_ ?_ ⟨.refl, ?_⟩ rfl
  · intro tx htx
    rcases hin tx htx with hold | rfl
    · exact .inl hold
    · exact .inr (by dsimp only; omega)
  · simp only [CatchUp.step]
    omega
  · refine List.pairwise_append.mpr ⟨h.ordered, List.pairwise_singleton _ _, ?_⟩
    intro a ha b hb
    obtain rfl := List.mem_singleton.mp hb
    have hle := h.below a ha
    dsimp only
    omega
  · intro tx htx
    simp only [CatchUp.step]
    rcases hin tx htx with hold | rfl
    · have hle := h.below tx hold
      omega
    · exact .refl
  · have hle := h.flushed
    simp only [CatchUp.step]
    omega

lemma CatchUp.Inv.step (h : p.Inv wf start) (e : Event) (hpeek : e = .peek → p.EndFlushed wf) :
    (p.step wf e).Inv wf start := by
  cases e with
  | commit messages length => exact h.commit messages length
  | write length =>
    have hmore : p.written ≤ p.written + length := Nat.le_add_right _ _
    exact h.source ⟨fun _ htx => .inl htx, hmore, rfl, fun _ => List.prefix_rfl⟩ h.ordered
      (fun tx htx => (h.below tx htx).trans hmore) ⟨.refl, h.flushed.trans hmore⟩ rfl
  | flushTo lsn =>
    refine h.source ⟨fun _ htx => .inl htx, Nat.le_refl _, rfl, fun _ => List.prefix_rfl⟩ h.ordered h.below
      ⟨Nat.le_max_left _ _, ?_⟩ rfl
    have hle := h.flushed
    simp only [CatchUp.step]
    omega
  | readEnd =>
    simp only [CatchUp.step]
    split
    · exact h.goto (.refl)
    · exact h
  | peek =>
    simp only [CatchUp.step]
    split
    · rename_i upto hphase
      have hupto : (Phase.read upto).Sound wf p := hphase ▸ h.phase
      refine h.goto ⟨p.decodable, [], [], Cut.first _, rfl, ?_, rfl, ?_⟩
      · exact fun tx htx => absurd htx List.not_mem_nil
      · exact shown_peek h.ordered h.below hupto hphase (hpeek rfl)
    · exact h
  | row =>
    simp only [CatchUp.step]
    split
    · rename_i upto rest r hphase
      exact h.decodeRow hphase
    · exact h
  | apply done =>
    simp only [CatchUp.step]
    split
    · rename_i upto rest r last hphase
      exact h.applyOps hphase done
    · exact h
  | advance =>
    simp only [CatchUp.step]
    split
    · rename_i upto r hphase
      have hsound : (Phase.applied upto r).Sound wf p := hphase ▸ h.phase
      obtain ⟨seen, happlied, hcommit, hshown⟩ := hsound
      split
      · rename_i lsn htarget
        rw [Round.target_reach hcommit htarget]
        exact h.slotAdvance happlied hshown
      · exact h.goto trivial
    · exact h
  | fail => exact h.goto trivial

/-- Whenever a round peeks, the commits of the table that were written when it read the WAL end are
flushed. -/
def CatchUp.PeeksFlushed (wf : Workflow) (p : CatchUp) : List Event → Prop
  | [] => True
  | e :: events => (e = .peek → p.EndFlushed wf) ∧ CatchUp.PeeksFlushed wf (p.step wf e) events

lemma CatchUp.Inv.run (h : p.Inv wf start) {events : List Event} (hpeeks : p.PeeksFlushed wf events) :
    (p.run wf events).Inv wf start := by
  induction events generalizing p with
  | nil => exact h
  | cons e events ih => exact ih (h.step e hpeeks.1) hpeeks.2

/-- A source with a slot that was made at `start`, before the first round. -/
structure CatchUp.Begins (start : Nat) (p : CatchUp) : Prop where
  ordered : p.txs.Pairwise fun a b => a.lsn < b.lsn
  below : ∀ tx ∈ p.txs, tx.lsn ≤ p.written
  flushed : p.flushed ≤ p.written
  made : start ≤ p.flushed
  slot : p.slot = start
  phase : p.phase = .idle

lemma CatchUp.Begins.inv (h : p.Begins start) : p.Inv wf start := { h with
  slot := h.slot ▸ h.made
  skips := by
    intro tx htx hchanges hstart hle
    rw [h.slot] at hle
    omega
  phase := by
    rw [h.phase]
    trivial }

section

/-- A table of one column that moves to shard 1. -/
def notesWorkflow : Workflow where
  schema := "public"
  table := "notes"
  columns := ["id"]
  rt := ⟨.unsharded, 1, [1], [], -1, ""⟩
  shape := ⟨["id"], [""], ["id"], by decide, by decide⟩
  sqlBytes := fun _ => 0

def notesRow : Tuple := ⟨[some [49]], [false]⟩

def notesInsert : List Message := [.silent, .change ⟨"public", "notes", ["id"]⟩ (.insert notesRow)]

lemma notes_begins : ({} : CatchUp).Begins 0 :=
  ⟨List.Pairwise.nil, fun _ htx => absurd htx List.not_mem_nil, Nat.le_refl _, Nat.le_refl _, rfl, rfl⟩

end

end PgShard.Placer
