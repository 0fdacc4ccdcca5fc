import Mathlib

/-!
# The candidate of a failover

A commit is acknowledged once enough of the members in `synchronous_standby_names` have flushed it. When the old
primary is gone, the member to promote is chosen from what could be learned of the others.
-/

namespace PgShard.Operator

/-- What candidate selection knows about one member. -/
structure MemberView where
  name : String
  listed : Bool := false
  reachable : Bool := false
  inRecovery : Bool := false
  streaming : Bool := false
  flushLSN : Nat := 0
  readySlots : Nat := 0
  why : String := ""
  deriving DecidableEq

/-- What chooseCandidate saw of one member, for its refusals. -/
def MemberView.describe (exclude : String) (m : MemberView) : String :=
  m.name ++ (if m.name = exclude then " (excluded)" else "") ++ (if m.listed then "" else " unlisted") ++
    if m.reachable then
      (if m.inRecovery then " in-recovery" else " not-in-recovery") ++
        (if m.streaming then " streaming" else " not-streaming") ++ " flush=" ++ toString m.flushLSN
    else if m.why ≠ "" then " unreachable: " ++ m.why
    else " unreachable, no reason recorded"

def describeViews (members : List MemberView) (exclude : String) : String :=
  if members.isEmpty then "no members" else "; ".intercalate (members.map (·.describe exclude))

inductive Refusal
  | noCandidate (saw : String)
  | quorum (saw : String)
  deriving DecidableEq

def Refusal.text : Refusal → String
  | .noCandidate saw => "no eligible failover candidate; saw " ++ saw
  | .quorum saw =>
    "no eligible failover candidate: unreachable synchronous standbys may hold acknowledged commits; saw " ++ saw

/-- More data first, then more slots that survive the promotion, then the name. -/
def MemberView.ahead (a b : MemberView) : Bool :=
  b.flushLSN < a.flushLSN ||
    (b.flushLSN = a.flushLSN && (b.readySlots < a.readySlots || (b.readySlots = a.readySlots && a.name ≤ b.name)))

def MemberView.eligible (m : MemberView) : Bool := m.reachable && m.inRecovery

/-- The members that are looked at. -/
def others (exclude : String) (members : List MemberView) : List MemberView := members.filter (·.name ≠ exclude)

def acks (numSync : Int) : Nat := (max 1 numSync).toNat

def chooseCandidate (members : List MemberView) (exclude preferred : String) (numSync : Int) : Except Refusal String :=
  let eligible := (others exclude members).filter (·.eligible)
  let listed := (others exclude members).countP (·.listed)
  let reachableListed := (others exclude members).countP fun m => m.listed && m.reachable
  match eligible.mergeSort MemberView.ahead with
  | [] => .error (.noCandidate (describeViews members exclude))
  | best :: rest =>
    if reachableListed < listed && reachableListed + acks numSync ≤ listed then
      .error (.quorum (describeViews members exclude))
    else
      match (best :: rest).find? fun m => m.name = preferred && m.flushLSN = best.flushLSN with
      | some m => .ok m.name
      | none => .ok best.name

/-- Every member but the old primary is in `synchronous_standby_names`. -/
def listOthers (old : String) (views : List MemberView) : List MemberView :=
  views.map fun v => { v with listed := v.name ≠ old }

/-- A member, and how far it has really flushed. What it reports is that, if it can be asked. -/
structure Member where
  view : MemberView
  flushed : Nat
  honest : view.reachable = true → view.flushLSN = flushed

/-- Enough of the members besides the old primary have flushed the commit. -/
def Acknowledged (members : List Member) (old : String) (numSync : Int) (lsn : Nat) : Prop :=
  acks numSync ≤ members.countP fun m => m.view.name ≠ old && lsn ≤ m.flushed

/-- The candidate, if there is one, holds every commit that was acknowledged. -/
def HoldsAcknowledged (members : List Member) (old preferred : String) (numSync : Int) : Prop :=
  ∀ name, chooseCandidate (listOthers old (members.map (·.view))) old preferred numSync = .ok name →
    ∃ m ∈ members, m.view.name = name ∧ m.view.name ≠ old ∧ m.view.eligible = true ∧
      ∀ lsn, Acknowledged members old numSync lsn → lsn ≤ m.view.flushLSN

/-- The order as a lexicographic one. -/
def MemberView.rank (m : MemberView) : ℕᵒᵈ ×ₗ ℕᵒᵈ ×ₗ String :=
  toLex (.toDual m.flushLSN, toLex (.toDual m.readySlots, m.name))

lemma ahead_iff {a b : MemberView} : a.ahead b = true ↔ a.rank ≤ b.rank := by
  simp [MemberView.ahead, MemberView.rank, Prod.Lex.le_iff, @eq_comm _ b.flushLSN, @eq_comm _ b.readySlots]

lemma ahead_trans (a b c : MemberView) (hab : a.ahead b = true) (hbc : b.ahead c = true) : a.ahead c = true :=
  ahead_iff.mpr ((ahead_iff.mp hab).trans (ahead_iff.mp hbc))

lemma ahead_total (a b : MemberView) : (a.ahead b || b.ahead a) = true := by
  rw [Bool.or_eq_true, ahead_iff, ahead_iff]
  exact le_total _ _

/-- The first of the candidates has flushed as much as any. -/
lemma flushed_most {l : List MemberView} {best m : MemberView} {rest : List MemberView}
    (hsort : l.mergeSort MemberView.ahead = best :: rest) (hm : m ∈ l) : m.flushLSN ≤ best.flushLSN := by
  have hpairs := List.pairwise_mergeSort ahead_trans ahead_total l
  rw [hsort, List.pairwise_cons] at hpairs
  have hm : m ∈ best :: rest := hsort ▸ List.mem_mergeSort.mpr hm
  rcases List.mem_cons.mp hm with rfl | hm
  · exact .refl
  · have hahead := hpairs.1 m hm
    simp only [MemberView.ahead, Bool.or_eq_true, Bool.and_eq_true, decide_eq_true_eq] at hahead
    omega

section

variable {members : List Member} {old preferred name : String} {numSync : Int}

/-- How many of the members besides the old primary are such. -/
def count (old : String) (p : MemberView → Bool) (members : List Member) : Nat :=
  members.countP fun m => m.view.name ≠ old && p m.view

/-- Some member can be reached and the ones that cannot may have all the acknowledgements of a commit. -/
def Refused (members : List Member) (old : String) (numSync : Int) : Prop :=
  count old (·.reachable) members < count old (fun _ => true) members ∧
    count old (·.reachable) members + acks numSync ≤ count old (fun _ => true) members

lemma countP_others (members : List Member) (old : String) (p : MemberView → Bool) (hp : ∀ v b, p { v with listed := b } = p v) :
    (others old (listOthers old (members.map (·.view)))).countP (fun v => v.listed && p v) = count old p members := by
  simp only [others, listOthers, List.countP_filter, List.countP_map, count]
  apply List.countP_congr
  intro m _
  simp only [Function.comp, hp]
  by_cases h : m.view.name = old <;> simp [h]

/-- The members the candidate is taken from. -/
def candidates (members : List Member) (old : String) : List MemberView :=
  (others old (listOthers old (members.map (·.view)))).filter (·.eligible)

lemma mem_candidates {v : MemberView} : v ∈ candidates members old ↔
    ∃ m ∈ members, m.view.name ≠ old ∧ m.view.eligible = true ∧ v = { m.view with listed := true } := by
  simp only [candidates, others, listOthers, List.mem_filter, List.mem_map]
  constructor
  · rintro ⟨⟨⟨_, ⟨m, hm, rfl⟩, rfl⟩, hne⟩, helig⟩
    have hne : m.view.name ≠ old := by simpa using hne
    exact ⟨m, hm, hne, helig, by simp [hne]⟩
  · rintro ⟨m, hm, hne, helig, rfl⟩
    exact ⟨⟨⟨m.view, ⟨m, hm, rfl⟩, by simp [hne]⟩, by simpa using hne⟩, helig⟩

lemma chooseCandidate_eq : chooseCandidate (listOthers old (members.map (·.view))) old preferred numSync =
      match (candidates members old).mergeSort MemberView.ahead with
      | [] => .error (.noCandidate (describeViews (listOthers old (members.map (·.view))) old))
      | best :: rest =>
        if count old (·.reachable) members < count old (fun _ => true) members &&
            count old (·.reachable) members + acks numSync ≤ count old (fun _ => true) members then
          .error (.quorum (describeViews (listOthers old (members.map (·.view))) old))
        else
          match (best :: rest).find? fun m => m.name = preferred && m.flushLSN = best.flushLSN with
          | some m => .ok m.name
          | none => .ok best.name := by
  have hlisted := countP_others members old (fun _ => true) fun _ _ => rfl
  have hreach := countP_others members old (·.reachable) fun _ _ => rfl
  simp only [Bool.and_true] at hlisted
  simp only [chooseCandidate, hlisted, hreach, candidates]

/-- The candidate is one of the members that can be taken, and none of those has flushed more. -/
lemma chosen (h : chooseCandidate (listOthers old (members.map (·.view))) old preferred numSync = .ok name) :
    ¬Refused members old numSync ∧ ∃ m ∈ members, m.view.name = name ∧ m.view.name ≠ old ∧ m.view.eligible = true ∧
      ∀ m' ∈ members, m'.view.name ≠ old → m'.view.eligible = true → m'.view.flushLSN ≤ m.view.flushLSN := by
  rw [chooseCandidate_eq] at h
  cases hsort : (candidates members old).mergeSort MemberView.ahead with
  | nil => simp [hsort] at h
  | cons best rest =>
    rw [hsort] at h
    dsimp only at h
    split at h
    · cases h
    · rename_i hrefuse
      refine ⟨by simpa [Refused] using hrefuse, ?_⟩
      obtain ⟨v, hv, hname, hflush⟩ : ∃ v ∈ best :: rest, v.name = name ∧ v.flushLSN = best.flushLSN := by
        split at h
        · rename_i m hfind
          have hm := List.find?_some hfind
          simp only [Bool.and_eq_true, decide_eq_true_eq] at hm
          exact ⟨m, List.mem_of_find?_eq_some hfind, Except.ok.inj h, hm.2⟩
        · exact ⟨best, List.mem_cons_self, Except.ok.inj h, rfl⟩
      have hv : v ∈ candidates members old := List.mem_mergeSort.mp (hsort ▸ hv)
      obtain ⟨m, hm, hne, helig, rfl⟩ := mem_candidates.mp hv
      refine ⟨m, hm, hname, hne, helig, fun m' hm' hne' helig' => ?_⟩
      have hmost := flushed_most hsort (mem_candidates.mpr ⟨m', hm', hne', helig', rfl⟩)
      have hflush : m.view.flushLSN = best.flushLSN := hflush
      have hmost : m'.view.flushLSN ≤ best.flushLSN := hmost
      omega

lemma some_chosen (preferred : String) (hrefuse : ¬Refused members old numSync) {m : Member} (hm : m ∈ members)
    (hne : m.view.name ≠ old) (helig : m.view.eligible = true) :
    ∃ name, chooseCandidate (listOthers old (members.map (·.view))) old preferred numSync = .ok name := by
  rw [chooseCandidate_eq]
  cases hsort : (candidates members old).mergeSort MemberView.ahead with
  | nil =>
    have hmem : { m.view with listed := true } ∈ (candidates members old).mergeSort MemberView.ahead :=
      List.mem_mergeSort.mpr (mem_candidates.mpr ⟨m, hm, hne, helig, rfl⟩)
    rw [hsort] at hmem
    cases hmem
  | cons best rest =>
    dsimp only
    rw [if_neg (by simpa [Refused] using hrefuse)]
    split <;> exact ⟨_, rfl⟩

end

lemma both_of_countP {A : Type} {p q : A → Bool} {l : List A} (h : l.length < l.countP p + l.countP q) :
    ∃ a ∈ l, p a = true ∧ q a = true := by
  induction l with
  | nil => simp at h
  | cons a l ih =>
    by_cases hboth : p a = true ∧ q a = true
    · exact ⟨a, List.mem_cons_self, hboth⟩
    · have hle : (if p a then 1 else 0) + (if q a then 1 else 0) ≤ 1 := by
        cases hp : p a <;> cases hq : q a <;> simp_all
      rw [List.countP_cons, List.countP_cons, List.length_cons] at h
      obtain ⟨b, hb, hpq⟩ := ih (by omega)
      exact ⟨b, List.mem_cons_of_mem a hb, hpq⟩

section

variable {members : List Member} {old preferred : String} {numSync : Int} {lsn : Nat}

lemma count_eq_filter (p : MemberView → Bool) :
    count old p members = (members.filter (·.view.name ≠ old)).countP (p ·.view) := by
  rw [count, List.countP_filter]
  exact List.countP_congr fun m _ => by simp [Bool.and_comm]

/-- The members that can be taken are so many that one of them acknowledged the commit. -/
lemma eligible_acknowledged
    (henough : count old (fun _ => true) members < count old (·.eligible) members + acks numSync)
    (hack : Acknowledged members old numSync lsn) :
    ∃ m ∈ members, m.view.name ≠ old ∧ m.view.eligible = true ∧ lsn ≤ m.view.flushLSN := by
  let l := members.filter (·.view.name ≠ old)
  have hlength : count old (fun _ => true) members = l.length := by
    rw [count_eq_filter, List.countP_true]
  have hacked : acks numSync ≤ l.countP fun m => lsn ≤ m.flushed := by
    rw [List.countP_filter]
    refine Nat.le_trans hack (Nat.le_of_eq (List.countP_congr fun m _ => by simp [and_comm]))
  have helig : count old (·.eligible) members = l.countP (·.view.eligible) := count_eq_filter _
  obtain ⟨m, hm, hel, hlsn⟩ := both_of_countP (p := fun m : Member => m.view.eligible)
    (q := fun m => decide (lsn ≤ m.flushed)) (l := l) (by omega)
  obtain ⟨hm, hne⟩ := List.mem_filter.mp hm
  have hreach : m.view.reachable = true := (Bool.and_eq_true_iff.mp hel).1
  refine ⟨m, hm, by simpa using hne, hel, ?_⟩
  rw [m.honest hreach]
  exact of_decide_eq_true hlsn

/-- What is known of a member besides how far it has flushed. -/
def Member.shape (m : Member) : String × Bool × Bool := (m.view.name, m.view.reachable, m.view.inRecovery)

lemma count_of_shape {members' : List Member} (hshape : members'.map Member.shape = members.map Member.shape)
    (p : String × Bool × Bool → Bool) : (members'.countP fun m => p m.shape) = members.countP fun m => p m.shape := by
  have h := congrArg (List.countP p) hshape
  rw [List.countP_map, List.countP_map] at h
  exact h

/-- The members that can be taken have flushed nothing, the others something. -/
def Member.behind (old : String) (m : Member) : Member where
  view := { m.view with flushLSN := if m.view.name ≠ old ∧ m.view.eligible = true then 0 else 1 }
  flushed := if m.view.name ≠ old ∧ m.view.eligible = true then 0 else 1
  honest _ := rfl

lemma count_behind (old : String) (members : List Member) :
    count old (fun _ => true) members = count old (·.eligible) members +
      members.countP fun m => m.view.name ≠ old && 1 ≤ (m.behind old).flushed := by
  induction members with
  | nil => rfl
  | cons m members ih =>
    simp only [count, List.countP_cons] at ih ⊢
    rw [ih]
    by_cases hname : m.view.name = old
    · simp [hname]
    · cases helig : m.view.eligible <;> simp [hname, helig, Member.behind] <;> omega

lemma acknowledged_behind
    (hmany : count old (·.eligible) members + acks numSync ≤ count old (fun _ => true) members) :
    Acknowledged (members.map (Member.behind old)) old numSync 1 := by
  rw [count_behind old members] at hmany
  rw [Acknowledged, List.countP_map]
  exact Nat.le_of_add_le_add_left hmany

/-- The counts that decide do not depend on how far the members have flushed. -/
lemma counts_of_shape (old : String) {members' : List Member} (hshape : members'.map Member.shape = members.map Member.shape) :
    count old (·.eligible) members' = count old (·.eligible) members ∧
      count old (fun _ => true) members' = count old (fun _ => true) members ∧
      count old (·.reachable) members' = count old (·.reachable) members :=
  ⟨count_of_shape hshape fun x => x.1 ≠ old && (x.2.1 && x.2.2), count_of_shape hshape fun x => x.1 ≠ old && true,
    count_of_shape hshape fun x => x.1 ≠ old && x.2.1⟩

end

/-- Whatever the members have flushed, the candidate holds every acknowledged commit exactly where no member can
be taken, where promotion is refused because the unreachable ones may have all acknowledgements, or where those
that can be taken are so many that the rest cannot have all acknowledgements of a commit. -/
theorem candidate_holds_acknowledged_iff (members : List Member) (old preferred : String) (numSync : Int) :
    (∀ members', members'.map Member.shape = members.map Member.shape →
        HoldsAcknowledged members' old preferred numSync) ↔
      count old (·.eligible) members = 0 ∨ Refused members old numSync ∨
        count old (fun _ => true) members < count old (·.eligible) members + acks numSync := by
  constructor
  · intro hholds
    by_contra hcond
    simp only [not_or, Nat.not_lt] at hcond
    obtain ⟨hsome, hrefuse, hmany⟩ := hcond
    have hshape : (members.map (Member.behind old)).map Member.shape = members.map Member.shape := by
      rw [List.map_map]
      rfl
    obtain ⟨helig, hall, hreach⟩ := counts_of_shape old hshape
    obtain ⟨m, hm, hp⟩ := List.countP_pos_iff.mp (Nat.pos_of_ne_zero hsome)
    simp only [Bool.and_eq_true, decide_eq_true_eq, ne_eq] at hp
    have hrefuse' : ¬Refused (members.map (Member.behind old)) old numSync := by
      unfold Refused
      rw [hall, hreach]
      exact hrefuse
    obtain ⟨name, hname⟩ := some_chosen preferred hrefuse' (List.mem_map_of_mem hm) hp.1 hp.2
    obtain ⟨m', hm', -, hne, hel, hlsn⟩ := hholds _ hshape name hname
    obtain ⟨m₀, -, rfl⟩ := List.mem_map.mp hm'
    have hle := hlsn 1 (acknowledged_behind hmany)
    have hzero : (m₀.behind old).view.flushLSN = 0 := if_pos ⟨hne, hel⟩
    omega
  · intro hcond members' hshape name hname
    obtain ⟨helig, hall, hreach⟩ := counts_of_shape old hshape
    obtain ⟨hrefuse, m, hm, hnamed, hne, hel, hmost⟩ := chosen hname
    refine ⟨m, hm, hnamed, hne, hel, fun lsn hack => ?_⟩
    rcases hcond with hnone | hcond | hmany
    · have hpos : 0 < count old (·.eligible) members' := List.countP_pos_iff.mpr ⟨m, hm, by simp [hne, hel]⟩
      omega
    · unfold Refused at hrefuse hcond
      rw [hall, hreach] at hrefuse
      exact absurd hcond hrefuse
    · obtain ⟨m', hm', hne', hel', hlsn⟩ := eligible_acknowledged (by rw [helig, hall]; exact hmany) hack
      exact Nat.le_trans hlsn (hmost m' hm' hne' hel')

/-- One member can be reached but is not in recovery, and it alone has flushed the last commit. It is counted among
those that can be reached, and the other one is chosen. -/
theorem candidate_lacks_acknowledged :
    let ahead : Member := ⟨{ name := "b", reachable := true, inRecovery := false, flushLSN := 10 }, 10, fun _ => rfl⟩
    let chosen : Member := ⟨{ name := "c", reachable := true, inRecovery := true, flushLSN := 5 }, 5, fun _ => rfl⟩
    chooseCandidate (listOthers "a" [ahead.view, chosen.view]) "a" "" 1 = .ok "c" ∧
      Acknowledged [ahead, chosen] "a" 1 10 ∧ chosen.view.flushLSN < 10 := by
  refine ⟨?_, by unfold Acknowledged; decide, by decide⟩
  simp [chooseCandidate, listOthers, others, MemberView.eligible]

/-- A member is chosen exactly when one can be taken and the unreachable ones cannot have all acknowledgements of a
commit. None that can be taken has flushed more than the chosen one. -/
theorem candidate_chosen_iff (members : List Member) (old preferred : String) (numSync : Int) :
    let choice := chooseCandidate (listOthers old (members.map (·.view))) old preferred numSync
    ((∃ name, choice = .ok name) ↔
      (∃ m ∈ members, m.view.name ≠ old ∧ m.view.eligible = true) ∧ ¬Refused members old numSync) ∧
    ∀ name, choice = .ok name → ∃ m ∈ members, m.view.name = name ∧ m.view.name ≠ old ∧ m.view.eligible = true ∧
      ∀ m' ∈ members, m'.view.name ≠ old → m'.view.eligible = true → m'.view.flushLSN ≤ m.view.flushLSN := by
  refine ⟨⟨fun ⟨name, h⟩ => ?_, fun ⟨⟨m, hm, hne, helig⟩, hrefuse⟩ => ?_⟩, fun name h => (chosen h).2⟩
  · obtain ⟨hrefuse, m, hm, -, hne, helig, -⟩ := chosen h
    exact ⟨⟨m, hm, hne, helig⟩, hrefuse⟩
  · exact some_chosen preferred hrefuse hm hne helig

end PgShard.Operator
