import LongCtxSpecDecode.Library.BroadcastRing

/-!
# The ring buffer in shared memory

`distributed/device_communicators/shm_broadcast.py`: the flags and the data of `ShmRingBuffer`,
and `acquire_write` and `acquire_read` as the sequences of single-byte accesses that they make.
An execution is any interleaving of the accesses of the writer and of the readers.
-/

namespace LongCtxSpecDecode

open Library

abbrev Byte := UInt8

abbrev Chunk := Nat → Byte

/-- Where `acquire_write` stands. -/
inductive WriterPc where
  | idle
  /-- `read_count` so far; the flag of the reader `i` is read next, and then the written flag. -/
  | counting (i readCount : Nat)
  | claiming
  | writing
  /-- The flag of the reader `i` is reset next, and then the written flag is set. -/
  | resetting (i : Nat)
deriving DecidableEq, Repr

/-- Where `acquire_read` stands. -/
inductive ReaderPc where
  | idle
  | checked (readFlag : Bool)
  | reading (seen : List (Nat × Byte))
deriving DecidableEq, Repr

structure RingWriter where
  currentIdx : Nat := 0
  pc : WriterPc := .idle

structure ReadRecord where
  idx : Nat
  seen : List (Nat × Byte)

structure RingReader where
  currentIdx : Nat := 0
  pc : ReaderPc := .idle
  log : List ReadRecord := []

/-- The shared memory with the processes. A reader is named by its `local_reader_rank`. -/
structure ShmRing where
  writtenFlag : Nat → Bool := fun _ => false
  readFlag : Nat → Nat → Bool := fun _ _ => false
  data : Nat → Chunk
  writer : RingWriter := {}
  readers : Nat → RingReader := fun _ => {}
  published : List Chunk := []

namespace ShmRing

variable (s : ShmRing)

def setWriter (pc : WriterPc) : ShmRing :=
  { s with writer := { s.writer with pc := pc } }

def setReader (r : Nat) (pc : ReaderPc) : ShmRing :=
  { s with readers := Function.update s.readers r { s.readers r with pc := pc } }

/-- `metadata_buffer[0] = value` of a chunk. -/
def setWrittenFlag (idx : Nat) (value : Bool) : ShmRing :=
  { s with writtenFlag := Function.update s.writtenFlag idx value }

/-- `metadata_buffer[r + 1] = value` of a chunk. -/
def setReadFlag (idx r : Nat) (value : Bool) : ShmRing :=
  { s with
    readFlag := Function.update s.readFlag idx (Function.update (s.readFlag idx) r value) }

def setByte (idx offset : Nat) (value : Byte) : ShmRing :=
  { s with data := Function.update s.data idx (Function.update (s.data idx) offset value) }

/-- `current_idx = (current_idx + 1) % max_chunks` of the writer, whose call is over. -/
def advanceWriter (maxChunks : Nat) : ShmRing :=
  { s with
    published := s.published ++ [s.data s.writer.currentIdx]
    writer := { currentIdx := (s.writer.currentIdx + 1) % maxChunks, pc := .idle } }

/-- `current_idx = (current_idx + 1) % max_chunks` of a reader, whose call is over. -/
def advanceReader (maxChunks r : Nat) (seen : List (Nat × Byte)) : ShmRing :=
  { s with
    readers := Function.update s.readers r
      { currentIdx := ((s.readers r).currentIdx + 1) % maxChunks, pc := .idle
        log := (s.readers r).log ++ [{ idx := (s.readers r).currentIdx, seen := seen }] } }

inductive Step (nReader maxChunks : Nat) (s : ShmRing) : ShmRing → Prop where
  | startWrite : s.writer.pc = .idle → Step nReader maxChunks s (s.setWriter (.counting 0 0))
  | countFlag {i readCount} : s.writer.pc = .counting i readCount → i < nReader →
      Step nReader maxChunks s
        (s.setWriter (.counting (i + 1) (readCount + (s.readFlag s.writer.currentIdx i).toNat)))
  /-- The block is not read by all readers: try again, or raise `TimeoutError`. -/
  | waitWrite {readCount} : s.writer.pc = .counting nReader readCount →
      s.writtenFlag s.writer.currentIdx = true → readCount ≠ nReader →
      Step nReader maxChunks s (s.setWriter .idle)
  | claim {readCount} : s.writer.pc = .counting nReader readCount →
      ¬(s.writtenFlag s.writer.currentIdx = true ∧ readCount ≠ nReader) →
      Step nReader maxChunks s (s.setWriter .claiming)
  | clearWritten : s.writer.pc = .claiming →
      Step nReader maxChunks s
        ((s.setWrittenFlag s.writer.currentIdx false).setWriter .writing)
  | writeByte (offset : Nat) (value : Byte) : s.writer.pc = .writing →
      Step nReader maxChunks s (s.setByte s.writer.currentIdx offset value)
  | failWrite : s.writer.pc = .writing → Step nReader maxChunks s (s.setWriter .idle)
  | finishWrite : s.writer.pc = .writing → Step nReader maxChunks s (s.setWriter (.resetting 0))
  | resetFlag {i} : s.writer.pc = .resetting i → i < nReader →
      Step nReader maxChunks s
        ((s.setReadFlag s.writer.currentIdx i false).setWriter (.resetting (i + 1)))
  | markWritten : s.writer.pc = .resetting nReader →
      Step nReader maxChunks s
        ((s.setWrittenFlag s.writer.currentIdx true).advanceWriter maxChunks)
  | checkRead {r} : r < nReader → (s.readers r).pc = .idle →
      Step nReader maxChunks s
        (s.setReader r (.checked (s.readFlag (s.readers r).currentIdx r)))
  /-- The block is not written or already read: try again, or raise `TimeoutError`. -/
  | waitRead {r readFlag} : r < nReader → (s.readers r).pc = .checked readFlag →
      s.writtenFlag (s.readers r).currentIdx = false ∨ readFlag = true →
      Step nReader maxChunks s (s.setReader r .idle)
  | startRead {r} : r < nReader → (s.readers r).pc = .checked false →
      s.writtenFlag (s.readers r).currentIdx = true →
      Step nReader maxChunks s (s.setReader r (.reading []))
  | readByte {r seen} (offset : Nat) : r < nReader → (s.readers r).pc = .reading seen →
      Step nReader maxChunks s
        (s.setReader r
          (.reading (seen ++ [(offset, s.data (s.readers r).currentIdx offset)])))
  /-- The body of the `with` block raises: the chunk is not marked as read. -/
  | failRead {r seen} : r < nReader → (s.readers r).pc = .reading seen →
      Step nReader maxChunks s (s.setReader r .idle)
  | markRead {r seen} : r < nReader → (s.readers r).pc = .reading seen →
      Step nReader maxChunks s
        ((s.setReadFlag (s.readers r).currentIdx r true).advanceReader maxChunks r seen)

def Reachable (nReader maxChunks : Nat) (s : ShmRing) : Prop :=
  ∃ data, Relation.ReflTransGen (Step nReader maxChunks) { data := data } s

def Writing : Prop := s.writer.pc = .writing ∨ ∃ i, s.writer.pc = .resetting i

def Reading (r : Nat) : Prop := ∃ seen, (s.readers r).pc = .reading seen

end ShmRing

end LongCtxSpecDecode
