import LongCtxSpecDecode.MessageQueue

/-!
# What the readers of the message queue get

Without a timeout between the chunk and the payload of a large message, every reader gets the
messages in order. After such a timeout the chunk is read and the payload is not, and the two
streams no longer agree. A small message with out-of-band buffers changes when its chunk is
written again.
-/

namespace LongCtxSpecDecode

open Library Library.Slices List Function

namespace MessageQueue

variable {c : QueueConfig} {S : Channel Message} {q q' : MessageQueue c S}

def Announces (maxChunkBytes : Nat) (m : Message) (chunk : Chunk) : Prop :=
  if m.overflows maxChunkBytes then chunk 0 = 1
  else chunk 0 = 0 ∧ ∀ idx, decodeMessage idx chunk = some
    { main := m.main, oob := (layout m.oob (7 + m.main.length)).map fun v => .view idx v.1 v.2 }

def unsentLocal : EnqueuePc → List Message
  | .sendingLocal m => [m]
  | _ => []

def unsentRemote : EnqueuePc → List Message
  | .idle => []
  | .sendingLocal m => [m]
  | .sendingRemote m => [m]

def openChunks : DequeuePc → Nat
  | .idle => 0
  | .receiving => 1

/-- What holds of a local reader, with the payloads under way to it. -/
structure Reads (c : QueueConfig) (enqueued : List Message) (writer : EnqueuePc)
    (payloads : List Message) (taken : Nat) (pc : DequeuePc) (returned : List Received) : Prop where
  order : returned <+: enqueued.map Message.received
  taken_eq : taken = returned.length + openChunks pc
  large : pc = .receiving →
    ∃ m, enqueued[returned.length]? = some m ∧ m.overflows c.maxChunkBytes = true
  payloads : payloads ++ unsentLocal writer =
    (enqueued.drop returned.length).filter (·.overflows c.maxChunkBytes)

structure Invariant (pending : S.State → List Message) (q : MessageQueue c S) : Prop where
  length : 0 < c.nLocalReader → q.ring.published.length = q.enqueued.length
  chunks : ∀ (j : Nat) chunk, q.ring.published[j]? = some chunk →
    ∃ m, q.enqueued[j]? = some m ∧ Announces c.maxChunkBytes m chunk
  reads : ∀ r, Reads c q.enqueued q.writer (pending (q.localSocket r)) (q.ring.taken r)
    (q.localReader r) (q.localReturned r)
  remote : ∀ r, q.remoteReturned r ++
    (pending (q.remoteSocket r) ++ unsentRemote q.writer).map Message.received =
      q.enqueued.map Message.received

theorem getElem?_append_of_some {α : Type} {l l' : List α} {j : Nat} {a : α}
    (h : l[j]? = some a) : (l ++ l')[j]? = some a := by
  rw [getElem?_append_left (lt_length_of_getElem? h), h]

theorem drop_of_getElem? {α : Type} {l : List α} {n : Nat} {a : α} (h : l[n]? = some a) :
    l.drop n = a :: l.drop (n + 1) := by
  obtain ⟨hlt, rfl⟩ := List.getElem?_eq_some_iff.mp h
  exact drop_eq_getElem_cons hlt

theorem concat_isPrefix {α β : Type} {f : β → α} {l : List α} {l' : List β} {b : β}
    (h : l <+: l'.map f) (hb : l'[l.length]? = some b) : l ++ [f b] <+: l'.map f := by
  obtain ⟨rest, hrest⟩ := h
  have hget : (l ++ rest)[l.length]? = some (f b) := by
    rw [hrest, getElem?_map, hb]
    rfl
  rw [getElem?_append_right le_rfl, Nat.sub_self] at hget
  cases rest with
  | nil => cases hget
  | cons a rest =>
    cases hget
    exact ⟨rest, by rw [append_assoc, singleton_append, hrest]⟩

variable {pending : S.State → List Message} {m : Message} {chunk : Chunk} {r : Fin c.nLocalReader}
  {maxChunkBytes : Nat} {old : Chunk}

theorem announces_frame {frame : List Byte} (hsmall : m.overflows maxChunkBytes = false)
    (hframe : encodeMessage m = some frame) : Announces maxChunkBytes m (write old 0 frame) := by
  unfold Announces
  rw [if_neg (by simp [hsmall])]
  refine ⟨?_, fun idx => (decodeMessage_write hframe old idx).1⟩
  simp only [encodeMessage, Option.bind_eq_bind, Option.bind_eq_some_iff, Option.pure_def,
    Option.some.injEq] at hframe
  obtain ⟨count, -, buffers, -, rfl⟩ := hframe
  exact carries_write 0 0 rfl

theorem announces_overflow (hlarge : m.overflows maxChunkBytes = true) :
    Announces maxChunkBytes m (write old 0 [1]) := by
  unfold Announces
  rw [if_pos hlarge]
  exact carries_write 0 1 rfl

theorem Invariant.announce {bytes : List Byte} {writer : EnqueuePc} (h : q.Invariant pending)
    (hidle : q.writer = .idle) (hchunk : ∀ old, Announces c.maxChunkBytes m (write old 0 bytes))
    (hlocal : unsentLocal writer = [m].filter (·.overflows c.maxChunkBytes))
    (hremote : unsentRemote writer = [m]) (hpos : 0 < c.nLocalReader) :
    (q.announce m bytes writer).Invariant pending := by
  have hlength := h.length hpos
  refine ⟨fun _ => ?_, fun j chunk hj => ?_, fun r => ?_, fun r => ?_⟩
  · change (q.ring.published ++ [_]).length = (q.enqueued ++ [m]).length
    rw [length_append, length_append, hlength]
    rfl
  · change (q.ring.published ++ [_])[j]? = _ at hj
    rw [getElem?_append] at hj
    split_ifs at hj with hlt
    · obtain ⟨m', hm', hann⟩ := h.chunks j chunk hj
      exact ⟨m', getElem?_append_of_some hm', hann⟩
    · have hbound := lt_length_of_getElem? hj
      rw [length_singleton] at hbound
      obtain rfl : j = q.enqueued.length := by omega
      rw [hlength, Nat.sub_self] at hj
      cases hj
      exact ⟨m, getElem?_concat_length, hchunk _⟩
  · obtain ⟨horder, htaken, hlarge, hpayloads⟩ := h.reads r
    have hle := horder.length_le
    rw [length_map] at hle
    rw [hidle, show unsentLocal .idle = [] from rfl, append_nil] at hpayloads
    refine ⟨?_, htaken, fun hr => ?_, ?_⟩
    · change _ <+: (q.enqueued ++ [m]).map _
      rw [map_append]
      exact horder.trans (prefix_append _ _)
    · obtain ⟨m', hm', hlarge⟩ := hlarge hr
      exact ⟨m', getElem?_append_of_some hm', hlarge⟩
    · change pending (q.localSocket r) ++ unsentLocal writer =
        ((q.enqueued ++ [m]).drop (q.localReturned r).length).filter _
      rw [drop_append_of_le_length hle, filter_append, ← hpayloads, hlocal]
  · have hremote' := h.remote r
    rw [hidle, unsentRemote, append_nil] at hremote'
    change q.remoteReturned r ++ (pending (q.remoteSocket r) ++ unsentRemote writer).map _ =
      (q.enqueued ++ [m]).map _
    rw [hremote, map_append, map_append, ← append_assoc, hremote']

theorem Invariant.head (h : q.Invariant pending) (hidle : q.localReader r = .idle)
    (hhead : q.ring.head? r = some chunk) : ∃ m, q.enqueued[(q.localReturned r).length]? = some m ∧
      Announces c.maxChunkBytes m chunk := by
  have htaken := (h.reads r).taken_eq
  rw [hidle] at htaken
  unfold BroadcastRing.head? at hhead
  rw [htaken] at hhead
  exact h.chunks _ chunk hhead

theorem Invariant.readChunk {pc : DequeuePc} {returned : List Received} (h : q.Invariant pending)
    (hreads : Reads c q.enqueued q.writer (pending (q.localSocket r)) (q.ring.taken r + 1) pc
      (q.localReturned r ++ returned)) : (q.readChunk r pc returned).Invariant pending := by
  refine ⟨h.length, h.chunks, fun r' => ?_, h.remote⟩
  change Reads _ _ _ _ (update q.ring.taken r _ r') (update q.localReader r _ r')
    (update q.localReturned r _ r')
  rcases eq_or_ne r' r with rfl | hne
  · rw [update_self, update_self, update_self]
    exact hreads
  · rw [update_of_ne hne, update_of_ne hne, update_of_ne hne]
    exact h.reads r'

theorem Invariant.announced (h : q.Invariant pending) (hreader : q.localReader r = .receiving) :
    ∃ m, q.enqueued[(q.localReturned r).length]? = some m ∧
      pending (q.localSocket r) ++ unsentLocal q.writer =
        m :: (q.enqueued.drop ((q.localReturned r).length + 1)).filter
          (·.overflows c.maxChunkBytes) := by
  obtain ⟨m, hm, hlarge⟩ := (h.reads r).large hreader
  refine ⟨m, hm, ?_⟩
  rw [(h.reads r).payloads, drop_of_getElem? hm, filter_cons_of_pos hlarge]

theorem Invariant.recvLocal {socket : S.State} (hS : S.Reliable pending) (h : q.Invariant pending)
    (hreader : q.localReader r = .receiving) (hrecv : S.Recv (q.localSocket r) m socket) :
    Invariant pending { q with
      localSocket := update q.localSocket r socket
      localReader := update q.localReader r .idle
      localReturned := update q.localReturned r (q.localReturned r ++ [m.received]) } := by
  obtain ⟨m', hm, hnext⟩ := h.announced hreader
  rw [hS.recv hrecv, cons_append, cons.injEq] at hnext
  obtain ⟨rfl, hrest⟩ := hnext
  refine ⟨h.length, h.chunks, fun r' => ?_, h.remote⟩
  change Reads _ _ _ (pending (update q.localSocket r _ r')) _ (update q.localReader r _ r')
    (update q.localReturned r _ r')
  rcases eq_or_ne r' r with rfl | hne
  · obtain ⟨horder, htaken, -, -⟩ := h.reads r'
    rw [hreader] at htaken
    rw [update_self, update_self, update_self]
    refine ⟨concat_isPrefix horder hm, ?_, nofun, ?_⟩
    · rw [length_append]
      exact htaken
    · rw [length_append]
      exact hrest
  · rw [update_of_ne hne, update_of_ne hne, update_of_ne hne]
    exact h.reads r'

theorem Invariant.dequeueSmall {x : Received} (h : q.Invariant pending) (hinline : q.Inline)
    (hidle : q.localReader r = .idle) (hhead : q.ring.head? r = some chunk) (hflag : chunk 0 ≠ 1)
    {idx : Nat} (hdecode : decodeMessage idx chunk = some x) :
    (q.readChunk r .idle [x]).Invariant pending := by
  obtain ⟨m, hm, hann⟩ := h.head hidle hhead
  unfold Announces at hann
  split_ifs at hann with hlarge
  · exact absurd hann hflag
  · have hoob := hinline m (mem_of_getElem? hm) (Bool.eq_false_iff.mpr hlarge)
    -- without out-of-band buffers the object has no view of the chunk
    obtain rfl : m.received = x := by
      refine Option.some.inj (Eq.trans ?_ ((hann.2 idx).symm.trans hdecode))
      rw [Message.received, hoob]
      rfl
    obtain ⟨horder, htaken, -, hpayloads⟩ := h.reads r
    rw [hidle] at htaken
    rw [drop_of_getElem? hm, filter_cons_of_neg hlarge] at hpayloads
    refine h.readChunk ⟨concat_isPrefix horder hm, ?_, nofun, ?_⟩
    · rw [htaken, length_append]
      rfl
    · rw [length_append]
      exact hpayloads

theorem Invariant.step (hS : S.Reliable pending) (h : q.Invariant pending) (hinline : q.Inline)
    (hstep : Step q q') : q'.Invariant pending := by
  cases hstep with
  | enqueueSmall m frame hpos hidle hsmall hframe hroom =>
    refine h.announce hidle (fun old => announces_frame hsmall hframe) ?_ rfl hpos
    rw [filter_singleton, hsmall]
    rfl
  | enqueueLarge m hpos hidle hlarge hroom =>
    refine h.announce hidle (fun old => announces_overflow hlarge) ?_ rfl hpos
    rw [filter_singleton, hlarge]
    rfl
  | @sendLocal m sockets hwriter hsend =>
    refine ⟨h.length, h.chunks, fun r => ?_, fun r => ?_⟩
    · obtain ⟨horder, htaken, hlarge, hpayloads⟩ := h.reads r
      rw [hwriter] at hpayloads
      refine ⟨horder, htaken, hlarge, Eq.trans ?_ hpayloads⟩
      dsimp only
      rw [hS.send (hsend r)]
      exact append_nil _
    · have hremote := h.remote r
      rw [hwriter] at hremote
      exact hremote
  | enqueueRemote m hzero hidle =>
    have hnone : Fin c.nLocalReader → False := fun r => absurd r.isLt (by omega)
    refine ⟨fun hpos => absurd hpos (by omega), fun j chunk hj => ?_, fun r => (hnone r).elim,
      fun r => ?_⟩
    · obtain ⟨m', hm', hann⟩ := h.chunks j chunk hj
      exact ⟨m', getElem?_append_of_some hm', hann⟩
    · have hremote := h.remote r
      rw [hidle, unsentRemote, append_nil] at hremote
      change _ ++ (_ ++ [m]).map _ = (q.enqueued ++ [m]).map _
      rw [map_append, map_append, ← append_assoc, hremote]
  | @sendRemote m sockets hwriter hsend =>
    refine ⟨h.length, h.chunks, fun r => ?_, fun r => ?_⟩
    · obtain ⟨horder, htaken, hlarge, hpayloads⟩ := h.reads r
      rw [hwriter] at hpayloads
      exact ⟨horder, htaken, hlarge, hpayloads⟩
    · have hremote := h.remote r
      rw [hwriter] at hremote
      dsimp only
      rw [hS.send (hsend r), ← hremote]
      exact congrArg (_ ++ map _ ·) (append_nil _)
  | transferLocal r htransfer =>
    refine ⟨h.length, h.chunks, fun r' => ?_, h.remote⟩
    change Reads _ _ _ (pending (update q.localSocket r _ r')) _ _ _
    rcases eq_or_ne r' r with rfl | hne
    · rw [update_self, hS.transfer htransfer]
      exact h.reads r'
    · rw [update_of_ne hne]
      exact h.reads r'
  | transferRemote r htransfer =>
    refine ⟨h.length, h.chunks, h.reads, fun r' => ?_⟩
    dsimp only
    rcases eq_or_ne r' r with rfl | hne
    · rw [update_self, hS.transfer htransfer]
      exact h.remote r'
    · rw [update_of_ne hne]
      exact h.remote r'
  | dequeueSmall r hidle hhead hflag hdecode =>
    exact h.dequeueSmall hinline hidle hhead hflag hdecode
  | @dequeueLarge r chunk hidle hhead hflag =>
    obtain ⟨m', hm', hann⟩ := h.head hidle hhead
    unfold Announces at hann
    split_ifs at hann with hlarge
    · obtain ⟨horder, htaken, -, hpayloads⟩ := h.reads r
      rw [hidle] at htaken
      refine h.readChunk ?_
      rw [append_nil]
      exact ⟨horder, congrArg (· + 1) htaken, fun _ => ⟨m', hm', hlarge⟩, hpayloads⟩
    · rw [hann.1] at hflag
      exact absurd hflag (by decide)
  | recvLocal r hreader hrecv => exact h.recvLocal hS hreader hrecv
  | @recvRemote r m socket hrecv =>
    refine ⟨h.length, h.chunks, h.reads, fun r' => ?_⟩
    dsimp only
    rcases eq_or_ne r' r with rfl | hne
    · have hremote := h.remote r'
      rw [hS.recv hrecv] at hremote
      rw [update_self, update_self, ← hremote]
      exact append_assoc ..
    · rw [update_of_ne hne, update_of_ne hne]
      exact h.remote r'

theorem invariant_init (hS : S.Reliable pending) :
    ({} : MessageQueue c S).Invariant pending := by
  refine ⟨fun _ => rfl, nofun, fun _ => ⟨prefix_rfl, rfl, nofun, ?_⟩, fun _ => ?_⟩
  · exact (append_nil _).trans hS.connected
  · exact congrArg (map _) ((append_nil _).trans hS.connected)

theorem Inline.of_step (hstep : Step q q') (h : q'.Inline) : q.Inline := by
  cases hstep with
  | enqueueSmall | enqueueLarge | enqueueRemote => exact fun m hm => h m (mem_append_left _ hm)
  | sendLocal | sendRemote | transferLocal | transferRemote | dequeueSmall | dequeueLarge
  | recvLocal | recvRemote => exact h

theorem Invariant.delivers (h : q.Invariant pending) : q.Delivers pending := by
  have hvalue : (q.enqueued.map Message.received).map (Received.value q.data) = q.enqueued := by
    rw [map_map]
    exact (map_congr_left fun m _ => value_received q.data m).trans (map_id _)
  refine ⟨fun r => ?_, fun r => ?_, fun r hidle => ?_, fun r hlt => ?_, fun r hlt => ?_⟩
  · rw [← hvalue]
    exact (h.reads r).order.map _
  · rw [← hvalue, ← h.remote r]
    exact (prefix_append _ _).map _
  · have htaken := (h.reads r).taken_eq
    rw [hidle] at htaken
    exact htaken.symm
  · have hlength := h.length r.pos
    have htaken := (h.reads r).taken_eq
    cases hreader : q.localReader r with
    | idle =>
      rw [hreader, openChunks] at htaken
      refine .inl ⟨rfl, ?_⟩
      unfold BroadcastRing.head?
      rw [isSome_getElem?]
      omega
    | receiving =>
      refine .inr ⟨rfl, ?_⟩
      obtain ⟨m, -, hnext⟩ := h.announced hreader
      cases hwriter : q.writer with
      | sendingLocal m' => exact .inr ⟨m', rfl⟩
      | idle | sendingRemote m' =>
        refine .inl fun hnil => ?_
        rw [hwriter, hnil] at hnext
        cases hnext
  · by_contra hnone
    rw [not_or, not_not, not_not] at hnone
    have hremote := congrArg List.length (h.remote r)
    rw [hnone.1, hnone.2, length_append, length_map, length_map] at hremote
    exact hlt.ne hremote

/-- In every run without a timeout between the chunk and the payload of a large message and
without out-of-band buffers in the ring, the readers get the messages in order, each once. -/
theorem delivers_in_order (hS : S.Reliable pending)
    (hrun : Relation.ReflTransGen Step ({} : MessageQueue c S) q) (hinline : q.Inline) :
    q.Delivers pending := by
  have h : q.Invariant pending := by
    induction hrun with
    | refl => exact invariant_init hS
    | tail _ hstep ih => exact (ih (hinline.of_step hstep)).step hS (hinline.of_step hstep) hstep
  exact h.delivers

def smallQueue : QueueConfig where
  nLocalReader := 1
  nRemoteReader := 0
  maxChunkBytes := 16
  maxChunks := 2

def largeMessage : Message := { main := replicate 10 65, oob := [] }

def smallMessage : Message := { main := [66], oob := [] }

def onlyReader : Fin smallQueue.nLocalReader := ⟨0, by decide⟩

theorem room_smallQueue {ring : BroadcastRing (Fin smallQueue.nLocalReader) Chunk}
    (h : ring.published.length < 2) : ring.Room smallQueue.maxChunks :=
  fun _ => Nat.lt_of_lt_of_le h (Nat.le_add_left _ _)

theorem delivers_in_order_large : ∃ q : MessageQueue smallQueue (.fifo Message),
    Relation.ReflTransGen Step {} q ∧ q.enqueued = [largeMessage, smallMessage] ∧
      (q.localReturned onlyReader).length = 2 ∧ q.Delivers id := by
  have h₀ : Relation.ReflTransGen Step ({} : MessageQueue smallQueue (.fifo Message)) {} := .refl
  have h₁ := h₀.tail (.enqueueLarge largeMessage (by decide) rfl rfl (room_smallQueue (by decide)))
  have h₂ := h₁.tail (.dequeueLarge onlyReader rfl rfl rfl)
  have h₃ := (h₂.tail (.sendLocal _ rfl fun _ => rfl)).tail (.recvLocal onlyReader rfl rfl)
  have h₄ := (h₃.tail (.sendRemote _ rfl fun _ => rfl)).tail
    (.enqueueSmall smallMessage _ (by decide) rfl rfl rfl (room_smallQueue (by decide)))
  have h₅ := h₄.tail (.dequeueSmall onlyReader rfl rfl (by decide)
    (decodeMessage_write (m := smallMessage) rfl _ _).1)
  refine ⟨_, h₅, rfl, rfl, delivers_in_order Channel.fifo_reliable h₅ fun m hm _ => ?_⟩
  rcases mem_pair.mp hm with rfl | rfl
  · rfl
  · rfl

/-- The reader reads the chunk of the large message and times out before the payload is sent;
its next call returns the small message that was enqueued after it. -/
theorem payloadTimeout_skips_message : ∃ q : MessageQueue smallQueue (.fifo Message),
    Relation.ReflTransGen (fun q q' => Step q q' ∨ PayloadTimeout q q') {} q ∧
      q.enqueued = [largeMessage, smallMessage] ∧
      (q.localReturned onlyReader).map (Received.value q.data) = [smallMessage] ∧
      ¬q.Delivers id := by
  have h₀ : Relation.ReflTransGen (fun q q' => Step q q' ∨ PayloadTimeout q q')
      ({} : MessageQueue smallQueue (.fifo Message)) {} := .refl
  have h₁ := h₀.tail (.inl (.enqueueLarge largeMessage (by decide) rfl rfl
    (room_smallQueue (by decide))))
  have h₂ := h₁.tail (.inl (.dequeueLarge onlyReader rfl rfl rfl))
  have h₃ := h₂.tail (.inr (.timeout onlyReader rfl nofun))
  have h₄ := (h₃.tail (.inl (.sendLocal _ rfl fun _ => rfl))).tail
    (.inl (.sendRemote _ rfl fun _ => rfl))
  have h₅ := h₄.tail (.inl (.enqueueSmall smallMessage _ (by decide) rfl rfl rfl
    (room_smallQueue (by decide))))
  have h₆ := h₅.tail (.inl (.dequeueSmall onlyReader rfl rfl (by decide)
    (decodeMessage_write (m := smallMessage) rfl _ _).1))
  refine ⟨_, h₆, rfl, rfl, fun h => ?_⟩
  exact absurd (h.localOrder onlyReader) (by decide)

/-- A reader keeps a message whose array, of 1 MiB, is a view of the only chunk of the ring; the
next message is written over it. -/
theorem reused_chunk_changes_message {array : List Byte} (hlength : array.length = 1024 * 1024)
    (hhead : array[0]? ≠ some 66) :
    ∃ q : MessageQueue ⟨1, 0, 2 * 1024 * 1024, 1⟩ (.fifo Message),
      Relation.ReflTransGen Step {} q ∧ q.enqueued = [⟨[65], [array]⟩, ⟨replicate 10 66, []⟩] ∧
      ¬q.Delivers id := by
  obtain ⟨frame, hframe⟩ : ∃ frame, encodeMessage ⟨[65], [array]⟩ = some frame := by
    simp [encodeMessage, encodeBuffers, Message.allBuffers, toBytesBig, hlength]
  have hsmall : Message.overflows (2 * 1024 * 1024) ⟨[65], [array]⟩ = false := by
    simp [Message.overflows, Message.totalBytes, hlength]
  have hroom : ∀ ring : BroadcastRing (Fin 1) Chunk, ring.published.length ≤ ring.taken 0 →
      ring.Room 1 := fun ring hle r => by
    rw [Fin.fin_one_eq_zero r]
    exact Nat.lt_succ_of_le hle
  have hflag : ∀ old : Chunk, write old 0 frame 0 ≠ 1 := fun old => by
    have hann : Announces _ _ (write old 0 frame) := announces_frame hsmall hframe
    unfold Announces at hann
    rw [hsmall] at hann
    rw [hann.1]
    decide
  have h₀ : Relation.ReflTransGen Step
      ({} : MessageQueue ⟨1, 0, 2 * 1024 * 1024, 1⟩ (.fifo Message)) {} := .refl
  have h₁ := h₀.tail (.enqueueSmall _ frame Nat.one_pos rfl hsmall hframe (hroom _ le_rfl))
  have h₂ := (h₁.tail (.sendRemote (fun _ => []) rfl fun r => r.elim0)).tail
    (.dequeueSmall 0 rfl rfl
    (hflag _) (decodeMessage_write hframe _ _).1)
  obtain ⟨q, hq, hidle, hlen, henqueued, hreturned, htaken⟩ :
      ∃ q : MessageQueue ⟨1, 0, 2 * 1024 * 1024, 1⟩ (.fifo Message),
        Relation.ReflTransGen Step {} q ∧ q.writer = .idle ∧ q.ring.published.length = 1 ∧
        q.enqueued = [⟨[65], [array]⟩] ∧
        q.localReturned 0 = [⟨[65], [.view 0 12 array.length]⟩] ∧ q.ring.taken 0 = 1 :=
    ⟨_, h₂, rfl, rfl, rfl, rfl, rfl⟩
  refine ⟨_, hq.tail (.enqueueSmall ⟨replicate 10 66, []⟩ _ Nat.one_pos hidle rfl rfl
    (hroom _ (by omega))), ?_, fun h => ?_⟩
  · exact congrArg (· ++ _) henqueued
  · have hprefix := h.localOrder 0
    change (q.localReturned 0).map _ <+: q.enqueued ++ _ at hprefix
    rw [hreturned, henqueued] at hprefix
    have harray : slice (update q.data q.writeIdx _ 0) 12 array.length = array :=
      (cons.inj (congrArg Message.oob (cons_prefix_cons.mp hprefix).1)).1
    have hidx : q.writeIdx = 0 := Nat.mod_one _
    -- the array begins at byte 12, which the second message has set to 66
    rw [hidx, update_self] at harray
    rw [← harray, hlength, slice, getElem?_map, getElem?_range (by norm_num)] at hhead
    exact hhead (congrArg some (carries_write 12 66 rfl))

end MessageQueue

end LongCtxSpecDecode
