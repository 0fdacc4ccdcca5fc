import Mathlib

/-!
# Global sequences

The catalog holds one row for each sequence and hands out blocks of values by moving the row's
`next_value`. A router keeps the block it was handed and serves values from it; the rest of a block
is never handed out again.
-/

namespace PgShard.Sequence

/-- A row of `pgshard.sequences`. -/
structure SequenceRow where
  nextValue : Int64 := 1
  blockSize : Int32 := 1000
  pos : 0 < blockSize := by decide

inductive CatalogError where
  | blockSize (n : Int32)
  | outOfRange
  | goesBack
  deriving DecidableEq

/-- The result of a bigint operation of PostgreSQL. -/
def bigint (x : Int) : Except CatalogError Int64 :=
  if Int64.minValue.toInt ≤ x ∧ x ≤ Int64.maxValue.toInt then .ok (Int64.ofInt x)
  else .error .outOfRange

/-- An UPDATE of `next_value`, with the trigger `sequence_watermark_only_moves_forward`. -/
def SequenceRow.setNextValue (s : SequenceRow) (toValue : Int64) : Except CatalogError SequenceRow :=
  if toValue < s.nextValue then .error .goesBack else .ok { s with nextValue := toValue }

/-- `pgshard.allocate_sequence_block`: the row afterwards, `block_start` and `block_end`. -/
def allocateSequenceBlock (row : Option SequenceRow) (n : Option Int32) :
    Except CatalogError (SequenceRow × Int64 × Int64) :=
  match n with
  | some k => if k ≤ 0 then .error (.blockSize k) else block (row.getD {}) k
  | none => block (row.getD {}) (row.getD {}).blockSize
where
  block (s : SequenceRow) (size : Int32) : Except CatalogError (SequenceRow × Int64 × Int64) := do
    let next ← bigint (s.nextValue.toInt + size.toInt)
    let s ← s.setNextValue next
    let blockStart ← bigint (s.nextValue.toInt - size.toInt)
    let blockEnd ← bigint (s.nextValue.toInt - 1)
    .ok (s, blockStart, blockEnd)

/-- `pgshard.advance_sequence`, on a row that exists. -/
def advanceSequence (s : SequenceRow) (toValue : Int64) : Except CatalogError SequenceRow :=
  s.setNextValue (max s.nextValue toValue)

structure SeqBlock where
  next : Int64 := 1
  blockEnd : Int64 := 0

structure NextError where
  code : String
  message : String
  deriving DecidableEq

/-- A call of `Next` that holds its block's mutex. `answer` is a block the catalog allocated for it
that it has not received. -/
structure Call where
  n : Nat
  out : List Int64 := []
  answer : Option (Int64 × Int64) := none

inductive Turn where
  | returns (out : List Int64)
  | asks
  | takes (b : SeqBlock) (c : Call)

/-- One turn of the loop of `Next`, up to the call of `AllocateBlock`. -/
def turn (b : SeqBlock) (c : Call) : Turn :=
  if c.out.length < c.n then
    if b.next > b.blockEnd then .asks
    else .takes { b with next := b.next + 1 } { c with out := c.out ++ [b.next] }
  else .returns c.out

/-- What `Next` does with the block it asked for. -/
def refill (name : String) (blockStart blockEnd : Int64) : Except NextError SeqBlock :=
  if blockEnd < blockStart then
    .error ⟨"XX000", s!"sequence {name}: catalog returned an empty block [{blockStart}, {blockEnd}]"⟩
  else .ok ⟨blockStart, blockEnd⟩

def allocateFailed (name err : String) : NextError :=
  ⟨"08006", s!"allocating a block of sequence {name} from the catalog failed: {err}"⟩

/-- What a router has of one sequence: a fresh router has an empty block and no call. -/
structure Slot where
  block : SeqBlock := {}
  call : Option Call := none

/-- One sequence: its row in the catalog, what each router has of it, and what every call of `Next`
has returned so far. -/
structure Lane where
  row : Option SequenceRow
  slots : Nat → Slot := fun _ => {}
  results : List (Except NextError (List Int64)) := []

inductive Event where
  /-- Router `r` starts a call of `Next` for `n` values. -/
  | call (r n : Nat)
  /-- The call at router `r` goes through its loop once. -/
  | turn (r : Nat)
  /-- The catalog allocates the block the call at router `r` asked for. -/
  | execute (r : Nat)
  /-- The answer of the catalog reaches the call. -/
  | receive (r : Nat)
  /-- `AllocateBlock` fails at the router, whether or not the catalog has executed it. -/
  | fail (r : Nat) (err : String)
  /-- The catalog executes an allocation nobody waits for. -/
  | allocate (n : Option Int32)
  | advance (toValue : Int64)
  | tune (size : Int32) (pos : 0 < size)
  | insert (row : SequenceRow)

namespace Lane

def setSlot (l : Lane) (r : Nat) (s : Slot) : Lane := { l with slots := Function.update l.slots r s }

/-- The call at `r` returns. -/
def finish (l : Lane) (r : Nat) (result : Except NextError (List Int64)) : Lane :=
  { l.setSlot r { l.slots r with call := none } with results := result :: l.results }

/-- The router process is replaced: its blocks and calls are gone. -/
def restart (l : Lane) (r : Nat) : Lane := l.setSlot r {}

def turnOf (l : Lane) (r : Nat) (c : Call) : Lane :=
  match turn (l.slots r).block c with
  | .returns out => l.finish r (.ok out)
  | .asks => l
  | .takes b c => l.setSlot r ⟨b, some c⟩

/-- A call that waits for the catalog. -/
def asking (l : Lane) (r : Nat) (c : Call) : Bool :=
  match turn (l.slots r).block c with
  | .asks => true
  | _ => false

def executeFor (l : Lane) (r : Nat) (c : Call) : Lane :=
  if l.asking r c ∧ c.answer = none then
    match allocateSequenceBlock l.row none with
    | .error _ => l
    | .ok (row, blockStart, blockEnd) =>
      { l.setSlot r { l.slots r with call := some { c with answer := some (blockStart, blockEnd) } } with
        row := some row }
  else l

def receiveAt (name : String) (l : Lane) (r : Nat) (c : Call) : Lane :=
  match c.answer with
  | none => l
  | some (blockStart, blockEnd) =>
    match refill name blockStart blockEnd with
    | .error e => l.finish r (.error e)
    | .ok b => l.setSlot r ⟨b, some { c with answer := none }⟩

/-- An event that is not possible leaves everything as it is. -/
def step (name : String) (l : Lane) : Event → Lane
  | .call r n =>
    match (l.slots r).call with
    | none => l.setSlot r { l.slots r with call := some { n := n } }
    | some _ => l
  | .turn r =>
    match (l.slots r).call with
    | none => l
    | some c => l.turnOf r c
  | .execute r =>
    match (l.slots r).call with
    | none => l
    | some c => l.executeFor r c
  | .receive r =>
    match (l.slots r).call with
    | none => l
    | some c => receiveAt name l r c
  | .fail r err =>
    match (l.slots r).call with
    | none => l
    | some c => if l.asking r c then l.finish r (.error (allocateFailed name err)) else l
  | .allocate n =>
    match allocateSequenceBlock l.row n with
    | .error _ => l
    | .ok (row, _, _) => { l with row := some row }
  | .advance toValue =>
    match l.row with
    | none => l
    | some row =>
      match advanceSequence row toValue with
      | .error _ => l
      | .ok row => { l with row := some row }
  | .tune size pos => { l with row := l.row.map fun row => { row with blockSize := size, pos := pos } }
  | .insert row => if l.row.isNone then { l with row := some row } else l

end Lane

/-- All sequences, by name. -/
abbrev World := String → Lane

inductive WorldEvent where
  | at (name : String) (e : Event)
  | restart (r : Nat)

namespace World

def step (w : World) : WorldEvent → World
  | .at name e => Function.update w name ((w name).step name e)
  | .restart r => fun name => (w name).restart r

def run (w : World) (es : List WorldEvent) : World := es.foldl step w

/-- Routers that have just started, over a catalog with any rows. -/
def start (rows : String → Option SequenceRow) : World := fun name => { row := rows name }

end World

end PgShard.Sequence
