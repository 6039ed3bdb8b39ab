import LongCtxSpecDecode.ShmRingBuffer
import LongCtxSpecDecode.Library.BigEndian
import LongCtxSpecDecode.Library.Channel
import LongCtxSpecDecode.Library.Slices

/-!
# The message queue

`MessageQueue` of `distributed/device_communicators/shm_broadcast.py`: a small message is framed in
a chunk of the ring, a large one is announced there and sent on a socket. The ring is used through
the queue that it implements, and a socket is a channel. A pickled object is its buffers.
-/

namespace LongCtxSpecDecode

open Library Library.Slices

/-! ## Frames -/

/-- What `pickle.dumps` gives. `oob_callback` leaves buffers of less than 1 MiB in `main`. -/
structure Message where
  main : List Byte
  oob : List (List Byte)
deriving DecidableEq, Repr

namespace Message

def allBuffers (m : Message) : List (List Byte) := m.main :: m.oob

/-- `total_bytes + len(all_buffers[0])`: 2 bytes for the number of buffers, and 4 for the size of
each of them. -/
def totalBytes (m : Message) : Nat := 6 + (m.oob.map fun buf => buf.length + 4).sum + m.main.length

def overflows (maxChunkBytes : Nat) (m : Message) : Bool := maxChunkBytes ≤ m.totalBytes

end Message

/-- `to_bytes_big`; a number that does not fit raises `OverflowError`. -/
def toBytesBig (value size : Nat) : Option (List Byte) :=
  if value < 256 ^ size then some (BigEndian.bytes size value) else none

def encodeBuffers : List (List Byte) → Option (List Byte)
  | [] => some []
  | buf :: bufs => do
      let size ← toBytesBig buf.length 4
      let rest ← encodeBuffers bufs
      return size ++ buf ++ rest

/-- What `enqueue` writes to the chunk for a small message. -/
def encodeMessage (m : Message) : Option (List Byte) := do
  let count ← toBytesBig m.allBuffers.length 2
  let buffers ← encodeBuffers m.allBuffers
  return 0 :: count ++ buffers

/-- A buffer that `pickle.loads` gets: one of its own, or a view of a chunk of the ring. -/
inductive Buffer where
  | own (bytes : List Byte)
  | view (idx offset bufLen : Nat)
deriving DecidableEq, Repr

/-- What `pickle.loads` gives. It makes new objects from the main buffer; an object that was
pickled out of band is a view of its buffer. -/
structure Received where
  main : List Byte
  oob : List Buffer
deriving DecidableEq, Repr

/-- The bytes of the buffer, with the present content of the chunks. -/
def Buffer.bytes (data : Nat → Chunk) : Buffer → List Byte
  | .own bytes => bytes
  | .view idx offset bufLen => slice (data idx) offset bufLen

/-- The message that the object is now. -/
def Received.value (data : Nat → Chunk) (x : Received) : Message where
  main := x.main
  oob := x.oob.map (Buffer.bytes data)

def Message.received (m : Message) : Received where
  main := m.main
  oob := m.oob.map .own

/-- Offset and length of the buffers of a chunk. -/
def decodeBuffers (buf : Chunk) : Nat → Nat → List (Nat × Nat)
  | 0, _ => []
  | count + 1, offset =>
    let bufLen := BigEndian.fromBytes (slice buf offset 4)
    (offset + 4, bufLen) :: decodeBuffers buf count (offset + 4 + bufLen)

/-- What `dequeue` makes of the chunk `idx` of a small message. -/
def decodeMessage (idx : Nat) (buf : Chunk) : Option Received :=
  match decodeBuffers buf (BigEndian.fromBytes (slice buf 1 2)) 3 with
  | [] => none
  | main :: oob => some
    { main := slice buf main.1 main.2
      oob := oob.map fun (offset, bufLen) => .view idx offset bufLen }

variable {xs : List Byte}

theorem toBytesBig_eq_some {value size : Nat} :
    toBytesBig value size = some xs ↔ value < 256 ^ size ∧ BigEndian.bytes size value = xs := by
  unfold toBytesBig
  split_ifs with h
  · simp [h]
  · simp [h]

/-- Where `enqueue` puts the buffers. -/
def layout : List (List Byte) → Nat → List (Nat × Nat)
  | [], _ => []
  | buf :: bufs, offset => (offset + 4, buf.length) :: layout bufs (offset + 4 + buf.length)

theorem decodeBuffers_of_carries {buf : Chunk} {bufs : List (List Byte)} {offset : Nat}
    (hxs : encodeBuffers bufs = some xs) (h : Slices.Carries buf offset xs) :
    decodeBuffers buf bufs.length offset = layout bufs offset ∧
      (layout bufs offset).map (fun v => slice buf v.1 v.2) = bufs := by
  induction bufs generalizing xs offset with
  | nil => exact ⟨rfl, rfl⟩
  | cons b bufs ih =>
    simp only [encodeBuffers, Option.bind_eq_bind, Option.bind_eq_some_iff, Option.pure_def,
      Option.some.injEq] at hxs
    obtain ⟨size, hsize, rest, hrest, rfl⟩ := hxs
    obtain ⟨hlt, rfl⟩ := toBytesBig_eq_some.mp hsize
    have hsize' := h.left.left.slice_eq
    have hbuf := h.left.right.slice_eq
    have htail := ih hrest h.right
    rw [List.length_append, ← Nat.add_assoc] at htail
    rw [BigEndian.length_bytes] at hsize' hbuf htail
    constructor
    · rw [List.length_cons, decodeBuffers, hsize', BigEndian.fromBytes_bytes hlt, htail.1, layout]
    · rw [layout, List.map_cons, hbuf, htail.2]

theorem decodeMessage_write {m : Message} (hxs : encodeMessage m = some xs) (buf : Chunk)
    (idx : Nat) :
    decodeMessage idx (write buf 0 xs) = some
      { main := m.main
        oob := (layout m.oob (7 + m.main.length)).map fun v => .view idx v.1 v.2 } ∧
      (layout m.oob (7 + m.main.length)).map (fun v => slice (write buf 0 xs) v.1 v.2) = m.oob := by
  simp only [encodeMessage, Option.bind_eq_bind, Option.bind_eq_some_iff, Option.pure_def,
    Option.some.injEq] at hxs
  obtain ⟨count, hcount, buffers, hbuffers, rfl⟩ := hxs
  obtain ⟨hlt, rfl⟩ := toBytesBig_eq_some.mp hcount
  have hall : Slices.Carries (write buf 0 ((0 :: BigEndian.bytes 2 m.allBuffers.length) ++ buffers))
    0
      (([0] ++ BigEndian.bytes 2 m.allBuffers.length) ++ buffers) := carries_write
  have hcount' := hall.left.right.slice_eq
  have hbufs := decodeBuffers_of_carries hbuffers hall.right
  rw [List.length_append] at hbufs
  rw [BigEndian.length_bytes] at hcount' hbufs
  simp only [List.length_singleton] at hcount' hbufs
  obtain ⟨hdecode, hslices⟩ := hbufs
  rw [Message.allBuffers, layout, List.map_cons, List.cons.injEq] at hslices
  refine ⟨?_, hslices.2⟩
  unfold decodeMessage
  rw [hcount', BigEndian.fromBytes_bytes hlt, hdecode, Message.allBuffers, layout]
  exact congrArg some (congrArg₂ Received.mk hslices.1 rfl)

theorem value_received (data : Nat → Chunk) (m : Message) : m.received.value data = m := by
  unfold Message.received Received.value
  rw [List.map_map]
  exact congrArg (Message.mk m.main) (List.map_id m.oob)

/-! ## The queue -/

structure QueueConfig where
  nLocalReader : Nat
  nRemoteReader : Nat
  maxChunkBytes : Nat
  maxChunks : Nat

/-- Where `enqueue` stands. -/
inductive EnqueuePc where
  | idle
  | sendingLocal (m : Message)
  | sendingRemote (m : Message)
deriving DecidableEq, Repr

/-- Where the `dequeue` of a local reader stands. -/
inductive DequeuePc where
  | idle
  | receiving
deriving DecidableEq, Repr

/-- The writer with its readers; each reader is connected by a socket. -/
structure MessageQueue (c : QueueConfig) (S : Channel Message) where
  ring : BroadcastRing (Fin c.nLocalReader) Chunk := {}
  /-- The present content of the chunks of the ring. -/
  data : Nat → Chunk := fun _ _ => 0
  localSocket : Fin c.nLocalReader → S.State := fun _ => S.connected
  remoteSocket : Fin c.nRemoteReader → S.State := fun _ => S.connected
  writer : EnqueuePc := .idle
  localReader : Fin c.nLocalReader → DequeuePc := fun _ => .idle
  enqueued : List Message := []
  /-- What the successful calls of `dequeue` have returned. -/
  localReturned : Fin c.nLocalReader → List Received := fun _ => []
  remoteReturned : Fin c.nRemoteReader → List Received := fun _ => []

namespace MessageQueue

variable {c : QueueConfig} {S : Channel Message}

/-- The chunk that the writer writes next. -/
def writeIdx (q : MessageQueue c S) : Nat := q.ring.published.length % c.maxChunks

/-- `bytes` are written to the next chunk. -/
def announce (q : MessageQueue c S) (m : Message) (bytes : List Byte) (writer : EnqueuePc) :
    MessageQueue c S :=
  let chunk := write (q.data q.writeIdx) 0 bytes
  { q with
    ring := q.ring.publish chunk, data := Function.update q.data q.writeIdx chunk
    enqueued := q.enqueued ++ [m], writer := writer }

/-- The reader has read its chunk; `dequeue` goes on or returns. -/
def readChunk (q : MessageQueue c S) (r : Fin c.nLocalReader) (pc : DequeuePc)
    (returned : List Received) : MessageQueue c S :=
  { q with
    ring := q.ring.take r
    localReader := Function.update q.localReader r pc
    localReturned := Function.update q.localReturned r (q.localReturned r ++ returned) }

/-- The steps of `enqueue` and `dequeue`, without a timeout between the chunk and the payload of
a large message. A timeout while the ring or the socket of a remote reader is empty changes
nothing. -/
inductive Step (q : MessageQueue c S) : MessageQueue c S → Prop where
  | enqueueSmall (m : Message) (frame : List Byte) : 0 < c.nLocalReader →
      q.writer = .idle → m.overflows c.maxChunkBytes = false → encodeMessage m = some frame →
      q.ring.Room c.maxChunks → Step q (q.announce m frame (.sendingRemote m))
  | enqueueLarge (m : Message) : 0 < c.nLocalReader →
      q.writer = .idle → m.overflows c.maxChunkBytes = true → q.ring.Room c.maxChunks →
      Step q (q.announce m [1] (.sendingLocal m))
  | sendLocal {m} (sockets : Fin c.nLocalReader → S.State) : q.writer = .sendingLocal m →
      (∀ r, S.Send (q.localSocket r) m (sockets r)) →
      Step q { q with localSocket := sockets, writer := .sendingRemote m }
  | enqueueRemote (m : Message) : c.nLocalReader = 0 → q.writer = .idle →
      Step q { q with enqueued := q.enqueued ++ [m], writer := .sendingRemote m }
  | sendRemote {m} (sockets : Fin c.nRemoteReader → S.State) : q.writer = .sendingRemote m →
      (∀ r, S.Send (q.remoteSocket r) m (sockets r)) →
      Step q { q with remoteSocket := sockets, writer := .idle }
  | transferLocal (r : Fin c.nLocalReader) {socket : S.State} :
      S.Transfer (q.localSocket r) socket →
      Step q { q with localSocket := Function.update q.localSocket r socket }
  | transferRemote (r : Fin c.nRemoteReader) {socket : S.State} :
      S.Transfer (q.remoteSocket r) socket →
      Step q { q with remoteSocket := Function.update q.remoteSocket r socket }
  | dequeueSmall (r : Fin c.nLocalReader) {chunk : Chunk} {x : Received} :
      q.localReader r = .idle → q.ring.head? r = some chunk → chunk 0 ≠ 1 →
      decodeMessage (q.ring.taken r % c.maxChunks) chunk = some x →
      Step q (q.readChunk r .idle [x])
  | dequeueLarge (r : Fin c.nLocalReader) {chunk : Chunk} :
      q.localReader r = .idle → q.ring.head? r = some chunk → chunk 0 = 1 →
      Step q (q.readChunk r .receiving [])
  | recvLocal (r : Fin c.nLocalReader) {m : Message} {socket : S.State} :
      q.localReader r = .receiving → S.Recv (q.localSocket r) m socket →
      Step q
        { q with
          localSocket := Function.update q.localSocket r socket
          localReader := Function.update q.localReader r .idle
          localReturned := Function.update q.localReturned r (q.localReturned r ++ [m.received]) }
  | recvRemote (r : Fin c.nRemoteReader) {m : Message} {socket : S.State} :
      S.Recv (q.remoteSocket r) m socket →
      Step q
        { q with
          remoteSocket := Function.update q.remoteSocket r socket
          remoteReturned :=
            Function.update q.remoteReturned r (q.remoteReturned r ++ [m.received]) }

/-- `recv` raises `TimeoutError` before the payload has arrived. The chunk is marked as read. -/
inductive PayloadTimeout (q : MessageQueue c S) : MessageQueue c S → Prop where
  | timeout (r : Fin c.nLocalReader) : q.localReader r = .receiving →
      (∀ m socket, ¬S.Recv (q.localSocket r) m socket) →
      PayloadTimeout q { q with localReader := Function.update q.localReader r .idle }

/-- No message with out-of-band buffers went through the ring. -/
def Inline (q : MessageQueue c S) : Prop :=
  ∀ m ∈ q.enqueued, m.overflows c.maxChunkBytes = false → m.oob = []

structure Delivers (pending : S.State → List Message) (q : MessageQueue c S) : Prop where
  /-- What a reader has got is, as it is now, the beginning of what was enqueued. -/
  localOrder : ∀ r, (q.localReturned r).map (Received.value q.data) <+: q.enqueued
  remoteOrder : ∀ r, (q.remoteReturned r).map (Received.value q.data) <+: q.enqueued
  /-- Outside `dequeue` a local reader has a message for each chunk that it has read. -/
  each : ∀ r, q.localReader r = .idle → (q.localReturned r).length = q.ring.taken r
  /-- The next message of a local reader is in the ring, on the socket, or about to be sent. -/
  localNext : ∀ r, (q.localReturned r).length < q.enqueued.length →
    (q.localReader r = .idle ∧ (q.ring.head? r).isSome) ∨
      (q.localReader r = .receiving ∧
        (pending (q.localSocket r) ≠ [] ∨ ∃ m, q.writer = .sendingLocal m))
  remoteNext : ∀ r, (q.remoteReturned r).length < q.enqueued.length →
    pending (q.remoteSocket r) ≠ [] ∨ q.writer ≠ .idle

end MessageQueue

end LongCtxSpecDecode
