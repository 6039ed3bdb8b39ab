import LongCtxSpecDecode.ShmRingBuffer

/-!
# The flags of the ring buffer keep the readers and the writer apart

Chunks are numbered in the order in which they are published. The invariant says which of them are
in the ring and what their flags are; the safety of the protocol follows, and that it implements a
bounded queue.
-/

namespace LongCtxSpecDecode

open Library List Function

namespace ShmRing

variable {nReader maxChunks : Nat} {s s' : ShmRing} {r m : Nat}

def taken (s : ShmRing) (r : Nat) : Nat := (s.readers r).log.length

abbrev nextIdx (s : ShmRing) (maxChunks : Nat) : Nat := s.published.length % maxChunks

/-- The chunk `m` is in the ring, and the readers that have read it are those whose flag is
set. -/
structure Holds (nReader maxChunks : Nat) (s : ShmRing) (m : Nat) : Prop where
  written : s.writtenFlag (m % maxChunks) = true
  content : s.published[m]? = some (s.data (m % maxChunks))
  flags : ∀ r < nReader, s.readFlag (m % maxChunks) r = decide (m < s.taken r)

def Drained (nReader maxChunks : Nat) (s : ShmRing) : Prop :=
  ∀ r < nReader, s.published.length < s.taken r + maxChunks

def WriterKnows (nReader maxChunks : Nat) (s : ShmRing) : WriterPc → Prop
  | .idle => True
  | .counting i readCount => i ≤ nReader ∧ readCount ≤ i ∧
      (readCount = i → s.writtenFlag (s.nextIdx maxChunks) = true →
        ∀ r < i, s.published.length < s.taken r + maxChunks)
  | .claiming => s.Drained nReader maxChunks
  | .writing => s.writtenFlag (s.nextIdx maxChunks) = false
  | .resetting i => i ≤ nReader ∧ s.writtenFlag (s.nextIdx maxChunks) = false ∧
      ∀ r < i, s.readFlag (s.nextIdx maxChunks) r = false

/-- The bytes are those of the chunk `m`. -/
def SeenIn (s : ShmRing) (m : Nat) (seen : List (Nat × Byte)) : Prop :=
  ∃ content, s.published[m]? = some content ∧ ∀ byte ∈ seen, content byte.1 = byte.2

def ReaderKnows (maxChunks : Nat) (s : ShmRing) (r : Nat) : ReaderPc → Prop
  | .idle => True
  | .checked readFlag => readFlag = false → s.taken r = s.published.length →
      s.writtenFlag (s.nextIdx maxChunks) = false
  | .reading seen => s.taken r < s.published.length ∧ s.SeenIn (s.taken r) seen

structure Invariant (nReader maxChunks : Nat) (s : ShmRing) : Prop where
  writerIdx : s.writer.currentIdx = s.nextIdx maxChunks
  readerIdx : ∀ r < nReader, (s.readers r).currentIdx = s.taken r % maxChunks
  behind : ∀ r < nReader, s.taken r ≤ s.published.length
  window : ∀ r < nReader, s.published.length ≤ s.taken r + maxChunks
  kept : ∀ m, m < s.published.length → s.published.length < m + maxChunks →
    s.Holds nReader maxChunks m
  next : s.writtenFlag (s.nextIdx maxChunks) = true →
    ∃ m, m + maxChunks = s.published.length ∧ s.Holds nReader maxChunks m
  free : s.writtenFlag (s.nextIdx maxChunks) = false → s.Drained nReader maxChunks
  unused : ∀ m, s.published.length < m → m < maxChunks → s.writtenFlag m = false
  writer : s.WriterKnows nReader maxChunks s.writer.pc
  reader : ∀ r < nReader, s.ReaderKnows maxChunks r (s.readers r).pc
  log : ∀ r < nReader, ∀ j record, (s.readers r).log[j]? = some record →
    record.idx = j % maxChunks ∧ s.SeenIn j record.seen

theorem Invariant.writerKnows {pc : WriterPc} (h : s.Invariant nReader maxChunks)
    (hpc : s.writer.pc = pc) : s.WriterKnows nReader maxChunks pc :=
  hpc ▸ h.writer

theorem Invariant.readerKnows {pc : ReaderPc} (h : s.Invariant nReader maxChunks)
    (hr : r < nReader) (hpc : (s.readers r).pc = pc) : s.ReaderKnows maxChunks r pc :=
  hpc ▸ h.reader r hr

theorem Invariant.current (h : s.Invariant nReader maxChunks) (hr : r < nReader)
    (hlt : s.taken r < s.published.length) : s.Holds nReader maxChunks (s.taken r) := by
  have hwindow := h.window r hr
  rcases Nat.lt_or_ge s.published.length (s.taken r + maxChunks) with hin | hge
  · exact h.kept _ hlt hin
  · cases hflag : s.writtenFlag (s.nextIdx maxChunks) with
    | false =>
      have hfree := h.free hflag r hr
      omega
    | true =>
      obtain ⟨m, hm, hholds⟩ := h.next hflag
      obtain rfl : m = s.taken r := by omega
      exact hholds

theorem Invariant.apart (h : s.Invariant nReader maxChunks) (hr : r < nReader)
    (hflag : s.writtenFlag (s.nextIdx maxChunks) = false)
    (hlt : s.taken r < s.published.length) : s.taken r % maxChunks ≠ s.nextIdx maxChunks :=
  mod_ne_of_lt hlt (h.free hflag r hr)

theorem Holds.congr (h : s.Holds nReader maxChunks m)
    (hwritten : s'.writtenFlag (m % maxChunks) = s.writtenFlag (m % maxChunks))
    (hpublished : s'.published[m]? = s.published[m]?)
    (hdata : s'.data (m % maxChunks) = s.data (m % maxChunks))
    (hflags : ∀ r < nReader, s'.readFlag (m % maxChunks) r = s.readFlag (m % maxChunks) r)
    (htaken : ∀ r, s'.taken r = s.taken r) : s'.Holds nReader maxChunks m := by
  refine ⟨hwritten.trans h.written, ?_, fun r hr => ?_⟩
  · rw [hpublished, hdata]
    exact h.content
  · rw [hflags r hr, htaken r]
    exact h.flags r hr

theorem WriterKnows.mono {pc : WriterPc} (h : s.WriterKnows nReader maxChunks pc)
    (hpublished : s'.published = s.published)
    (hwritten : s'.writtenFlag (s.nextIdx maxChunks) = s.writtenFlag (s.nextIdx maxChunks))
    (hflags : s.writtenFlag (s.nextIdx maxChunks) = false → ∀ r,
      s'.readFlag (s.nextIdx maxChunks) r = s.readFlag (s.nextIdx maxChunks) r)
    (htaken : ∀ r, s.taken r ≤ s'.taken r) : s'.WriterKnows nReader maxChunks pc := by
  have hnext : s'.nextIdx maxChunks = s.nextIdx maxChunks := by rw [nextIdx, hpublished]
  cases pc with
  | idle => trivial
  | counting i readCount =>
    refine ⟨h.1, h.2.1, fun hcount hflag r hr => ?_⟩
    rw [hnext, hwritten] at hflag
    rw [hpublished]
    exact (h.2.2 hcount hflag r hr).trans_le (Nat.add_le_add_right (htaken r) _)
  | claiming =>
    intro r hr
    rw [hpublished]
    exact (h r hr).trans_le (Nat.add_le_add_right (htaken r) _)
  | writing =>
    change s'.writtenFlag (s'.nextIdx maxChunks) = false
    rw [hnext, hwritten]
    exact h
  | resetting i =>
    obtain ⟨hi, hflag, hreset⟩ := h
    refine ⟨hi, ?_, fun r hr => ?_⟩
    · rw [hnext, hwritten]
      exact hflag
    · rw [hnext, hflags hflag]
      exact hreset r hr

theorem SeenIn.congr {seen : List (Nat × Byte)} (h : s.SeenIn m seen)
    (hpublished : s'.published[m]? = s.published[m]?) : s'.SeenIn m seen := by
  obtain ⟨content, hcontent, hseen⟩ := h
  exact ⟨content, hpublished.trans hcontent, hseen⟩

theorem ReaderKnows.congr {pc : ReaderPc} (h : s.ReaderKnows maxChunks r pc)
    (hpublished : s'.published = s.published)
    (hwritten : s'.writtenFlag (s.nextIdx maxChunks) = s.writtenFlag (s.nextIdx maxChunks))
    (htaken : s'.taken r = s.taken r) : s'.ReaderKnows maxChunks r pc := by
  cases pc with
  | idle => trivial
  | checked readFlag =>
    intro hread hlast
    rw [nextIdx, hpublished, hwritten]
    exact h hread (by rw [← htaken, hlast, hpublished])
  | reading seen =>
    obtain ⟨hlt, hseen⟩ := h
    refine ⟨?_, ?_⟩
    · rw [htaken, hpublished]
      exact hlt
    · rw [htaken]
      exact hseen.congr (by rw [hpublished])

/-! ## The accesses of the writer -/

section writer

variable (h : s.Invariant nReader maxChunks)
include h

theorem Invariant.setWriter {pc : WriterPc} (hpc : s.WriterKnows nReader maxChunks pc) :
    (s.setWriter pc).Invariant nReader maxChunks where
  writerIdx := h.writerIdx
  readerIdx := h.readerIdx
  behind := h.behind
  window := h.window
  kept m hm hin := (h.kept m hm hin).congr rfl rfl rfl (fun _ _ => rfl) fun _ => rfl
  next hflag := by
    obtain ⟨m, hm, hholds⟩ := h.next hflag
    exact ⟨m, hm, hholds.congr rfl rfl rfl (fun _ _ => rfl) fun _ => rfl⟩
  free := h.free
  unused := h.unused
  writer := hpc.mono rfl rfl (fun _ _ => rfl) fun _ => le_rfl
  reader r hr := (h.reader r hr).congr rfl rfl rfl
  log := h.log

theorem Invariant.countFlag {i readCount : Nat}
    (hpc : s.writer.pc = .counting i readCount) (hi : i < nReader) : s.WriterKnows nReader maxChunks
      (.counting (i + 1) (readCount + (s.readFlag s.writer.currentIdx i).toNat)) := by
  obtain ⟨-, hcount, hall⟩ := h.writerKnows hpc
  have hflag := Bool.toNat_le (s.readFlag s.writer.currentIdx i)
  refine ⟨hi, by omega, fun heq hwritten r hr => ?_⟩
  rcases Nat.lt_or_ge r i with hlt | hge
  · exact hall (by omega) hwritten r hlt
  · -- the flag that was just counted
    obtain rfl : r = i := by omega
    obtain ⟨m, hm, hholds⟩ := h.next hwritten
    have hread : s.readFlag s.writer.currentIdx r = true := by
      cases hr : s.readFlag s.writer.currentIdx r with
      | true => rfl
      | false =>
        rw [hr, Bool.toNat_false] at heq
        omega
    have hflags := hholds.flags r hi
    rw [h.writerIdx, nextIdx, ← hm, Nat.add_mod_right, hflags] at hread
    have hlt := of_decide_eq_true hread
    omega

theorem Invariant.claim {readCount : Nat} (hpc : s.writer.pc = .counting nReader readCount)
    (hgo : ¬(s.writtenFlag s.writer.currentIdx = true ∧ readCount ≠ nReader)) :
    s.Drained nReader maxChunks := by
  rw [h.writerIdx] at hgo
  cases hflag : s.writtenFlag (s.nextIdx maxChunks) with
  | false => exact h.free hflag
  | true =>
    refine (h.writerKnows hpc).2.2 ?_ hflag
    by_contra hne
    exact hgo ⟨hflag, hne⟩

theorem Invariant.atNext {writtenFlag : Nat → Bool} {readFlag : Nat → Nat → Bool}
    {data : Nat → Chunk} {pc : WriterPc}
    (hsame : ∀ i, i ≠ s.nextIdx maxChunks →
      writtenFlag i = s.writtenFlag i ∧ readFlag i = s.readFlag i ∧ data i = s.data i)
    (hflag : writtenFlag (s.nextIdx maxChunks) = false) (hdrained : s.Drained nReader maxChunks)
    (hpc : ({ s with writtenFlag, readFlag, data } : ShmRing).WriterKnows nReader maxChunks pc) :
    ({ s with writtenFlag, readFlag, data, writer := { s.writer with pc } } : ShmRing).Invariant
      nReader maxChunks := by
  refine ⟨h.writerIdx, h.readerIdx, h.behind, h.window, fun m hm hin => ?_, fun htrue => ?_,
    fun _ => hdrained, fun m hm hlt => ?_, hpc.mono rfl rfl (fun _ _ => rfl) fun _ => le_rfl,
    fun r hr => ?_, h.log⟩
  · obtain ⟨hwritten, hread, hdata⟩ := hsame _ (mod_ne_of_lt hm hin)
    exact (h.kept m hm hin).congr hwritten rfl hdata (fun r _ => congrFun hread r) fun _ => rfl
  · exact absurd (hflag.symm.trans htrue) (by decide)
  · rcases eq_or_ne m (s.nextIdx maxChunks) with rfl | hne
    · exact hflag
    · exact (hsame m hne).1.trans (h.unused m hm hlt)
  · change ReaderKnows maxChunks _ r (s.readers r).pc
    cases hrpc : (s.readers r).pc with
    | idle => trivial
    | checked readFlag => exact fun _ _ => hflag
    | reading seen => exact h.readerKnows hr hrpc

theorem Invariant.clearWritten (hpc : s.writer.pc = .claiming) :
    ((s.setWrittenFlag s.writer.currentIdx false).setWriter .writing).Invariant nReader
      maxChunks := by
  have hself : update s.writtenFlag (s.nextIdx maxChunks) false (s.nextIdx maxChunks) =
      false := update_self _ _ _
  rw [h.writerIdx]
  exact h.atNext (fun i hi => ⟨update_of_ne hi _ _, rfl, rfl⟩) hself (h.writerKnows hpc) hself

theorem Invariant.writeByte (hpc : s.writer.pc = .writing) (offset : Nat) (value : Byte) :
    (s.setByte s.writer.currentIdx offset value).Invariant nReader maxChunks := by
  have hflag := h.writerKnows hpc
  rw [h.writerIdx]
  exact h.atNext (fun i hi => ⟨rfl, rfl, update_of_ne hi _ _⟩) hflag (h.free hflag)
    (h.writer.mono rfl rfl (fun _ _ => rfl) fun _ => le_rfl)

theorem Invariant.resetFlag {i : Nat} (hpc : s.writer.pc = .resetting i) (hi : i < nReader) :
    ((s.setReadFlag s.writer.currentIdx i false).setWriter (.resetting (i + 1))).Invariant nReader
      maxChunks := by
  obtain ⟨-, hflag, hreset⟩ := h.writerKnows hpc
  rw [h.writerIdx]
  refine h.atNext (fun i hi => ⟨rfl, update_of_ne hi _ _, rfl⟩) hflag (h.free hflag)
    ⟨hi, hflag, fun r hr => ?_⟩
  change update s.readFlag (s.nextIdx maxChunks) _ (s.nextIdx maxChunks) r = false
  rw [update_self]
  rcases eq_or_ne r i with rfl | hri
  · exact update_self _ _ _
  · exact (update_of_ne hri _ _).trans (hreset r (by omega))

section mark

variable (hpc : s.writer.pc = .resetting nReader)
include hpc

theorem Invariant.holds_markWritten (hm : m ≤ s.published.length)
    (hin : s.published.length < m + maxChunks) :
    ((s.setWrittenFlag (s.nextIdx maxChunks) true).advanceWriter maxChunks).Holds nReader maxChunks
      m := by
  obtain ⟨-, -, hreset⟩ := h.writerKnows hpc
  rcases Nat.lt_or_ge m s.published.length with hlt | hge
  · refine (h.kept m hlt hin).congr (update_of_ne (mod_ne_of_lt hlt hin) _ _) ?_ rfl
      (fun _ _ => rfl) fun _ => rfl
    exact getElem?_append_left hlt
  · obtain rfl : m = s.published.length := by omega
    refine ⟨update_self _ _ _, ?_, fun r hr => ?_⟩
    · change (s.published ++ [s.data s.writer.currentIdx])[s.published.length]? = _
      rw [getElem?_concat_length, h.writerIdx]
      rfl
    · have hbehind := h.behind r hr
      change s.readFlag (s.nextIdx maxChunks) r = decide (s.published.length < s.taken r)
      rw [hreset r hr, decide_eq_false (by omega)]

theorem Invariant.markWritten (hpos : 0 < maxChunks) :
    ((s.setWrittenFlag s.writer.currentIdx true).advanceWriter maxChunks).Invariant nReader
      maxChunks := by
  have hholds := fun m => h.holds_markWritten (m := m) hpc
  have hdrained := h.free (h.writerKnows hpc).2.1
  have hidx := h.writerIdx
  have hmono : ∀ j seen, s.SeenIn j seen →
      ((s.setWrittenFlag (s.nextIdx maxChunks) true).advanceWriter maxChunks).SeenIn j seen := by
    rintro j seen ⟨content, hcontent, hseen⟩
    have hj : j < s.published.length := (List.getElem?_eq_some_iff.mp hcontent).1
    exact ⟨content, (getElem?_append_left hj).trans hcontent, hseen⟩
  rw [hidx]
  have hlength :
      ((s.setWrittenFlag (s.nextIdx maxChunks) true).advanceWriter maxChunks).published.length =
        s.published.length + 1 := by
    change (s.published ++ [_]).length = _
    rw [length_append, length_singleton]
  have hnextIdx :
      ((s.setWrittenFlag (s.nextIdx maxChunks) true).advanceWriter maxChunks).nextIdx maxChunks =
        (s.published.length + 1) % maxChunks := congrArg (· % maxChunks) hlength
  -- the place after the one that was written
  have hnext : maxChunks ≤ s.published.length + 1 →
      ∃ m, m + maxChunks = s.published.length + 1 ∧
        ((s.setWrittenFlag (s.nextIdx maxChunks) true).advanceWriter maxChunks).Holds nReader
          maxChunks m := fun hle =>
    ⟨s.published.length + 1 - maxChunks, by omega, hholds _ (by omega) (by omega)⟩
  have hunused : ∀ m, s.published.length < m → m < maxChunks →
      update s.writtenFlag (s.nextIdx maxChunks) true m = false := fun m hm hlt => by
    have hne : m ≠ s.nextIdx maxChunks := by
      have hle : s.nextIdx maxChunks ≤ s.published.length := Nat.mod_le _ _
      omega
    rw [update_of_ne hne]
    exact h.unused m hm hlt
  refine ⟨?_, h.readerIdx, fun r hr => ?_, fun r hr => ?_, fun m hm hin => ?_, fun hflag => ?_,
    fun hflag r hr => ?_, fun m hm hlt => ?_, trivial, fun r hr => ?_,
    fun r hr j record hrecord => ?_⟩
  · rw [hnextIdx, ← Nat.mod_add_mod]
    change (s.writer.currentIdx + 1) % maxChunks = _
    rw [hidx]
  · rw [hlength]
    exact (h.behind r hr).trans (Nat.le_succ _)
  · rw [hlength]
    exact hdrained r hr
  · exact hholds m (by omega) (by omega)
  · rw [hlength]
    rcases Nat.lt_or_ge (s.published.length + 1) maxChunks with hlt | hge
    · rw [hnextIdx, Nat.mod_eq_of_lt hlt] at hflag
      exact absurd ((hunused _ (Nat.lt_succ_self _) hlt).symm.trans hflag) (by decide)
    · exact hnext hge
  · rcases Nat.lt_or_ge (s.published.length + 1) maxChunks with hlt | hge
    · omega
    · obtain ⟨m, hm, hm'⟩ := hnext hge
      rw [hnextIdx, ← hm, Nat.add_mod_right, hm'.written] at hflag
      cases hflag
  · exact hunused m (by omega) hlt
  · have hbehind := h.behind r hr
    change ReaderKnows maxChunks _ r (s.readers r).pc
    cases hrpc : (s.readers r).pc with
    | idle => trivial
    | checked readFlag =>
      intro _ hlast
      change s.taken r = _ at hlast
      omega
    | reading seen =>
      obtain ⟨hlt, hseen⟩ := h.readerKnows hr hrpc
      refine ⟨?_, hmono _ _ hseen⟩
      rw [hlength]
      exact hlt.trans (Nat.lt_succ_self _)
  · obtain ⟨hrecord', hseen⟩ := h.log r hr j record hrecord
    exact ⟨hrecord', hmono j _ hseen⟩

end mark

end writer

/-! ## The accesses of a reader -/

theorem taken_setReader (pc : ReaderPc) (r' : Nat) : (s.setReader r pc).taken r' = s.taken r' := by
  change (update s.readers r _ r').log.length = _
  rcases eq_or_ne r' r with rfl | hne
  · rw [update_self]
    rfl
  · rw [update_of_ne hne]
    rfl

theorem taken_markRead (s : ShmRing) (r maxChunks : Nat) (seen : List (Nat × Byte)) (idx r' : Nat) :
    ((s.setReadFlag idx r true).advanceReader maxChunks r seen).taken r' =
      if r' = r then s.taken r + 1 else s.taken r' := by
  change (update s.readers r _ r').log.length = _
  rcases eq_or_ne r' r with rfl | hne
  · rw [update_self, if_pos rfl, length_append]
    rfl
  · rw [update_of_ne hne, if_neg hne]
    rfl

section reader

variable (h : s.Invariant nReader maxChunks) (hr : r < nReader)
include h hr

theorem Invariant.setReader {pc : ReaderPc}
    (hpc : s.ReaderKnows maxChunks r pc) : (s.setReader r pc).Invariant nReader maxChunks := by
  have htaken := fun r' => taken_setReader (s := s) (r := r) pc r'
  have hother : ∀ r', (update s.readers r { s.readers r with pc := pc } r').log =
      (s.readers r').log ∧ (update s.readers r { s.readers r with pc := pc } r').currentIdx =
      (s.readers r').currentIdx := fun r' => by
    rcases eq_or_ne r' r with rfl | hne
    · rw [update_self]
      exact ⟨rfl, rfl⟩
    · rw [update_of_ne hne]
      exact ⟨rfl, rfl⟩
  refine ⟨h.writerIdx, fun r' hr' => ?_, fun r' hr' => ?_, fun r' hr' => ?_, fun m hm hin => ?_,
    fun hflag => ?_, fun hflag r' hr' => ?_, h.unused, ?_, fun r' hr' => ?_, fun r' hr' => ?_⟩
  · rw [htaken]
    exact (hother r').2.trans (h.readerIdx r' hr')
  · rw [htaken]
    exact h.behind r' hr'
  · rw [htaken]
    exact h.window r' hr'
  · exact (h.kept m hm hin).congr rfl rfl rfl (fun _ _ => rfl) htaken
  · obtain ⟨m, hm, hholds⟩ := h.next hflag
    exact ⟨m, hm, hholds.congr rfl rfl rfl (fun _ _ => rfl) htaken⟩
  · rw [htaken]
    exact h.free hflag r' hr'
  · exact h.writer.mono rfl rfl (fun _ _ => rfl) fun r' => (htaken r').ge
  · change ReaderKnows maxChunks _ r' (update s.readers r _ r').pc
    rcases eq_or_ne r' r with rfl | hne
    · rw [update_self]
      exact hpc.congr rfl rfl (htaken r')
    · rw [update_of_ne hne]
      exact (h.reader r' hr').congr rfl rfl (htaken r')
  · change ∀ j record, (update s.readers r _ r').log[j]? = some record → _
    rw [(hother r').1]
    exact h.log r' hr'

theorem Invariant.checkRead (hpos : 0 < maxChunks) :
    s.ReaderKnows maxChunks r (.checked (s.readFlag (s.readers r).currentIdx r)) := by
  intro hread hlast
  cases hflag : s.writtenFlag (s.nextIdx maxChunks) with
  | false => rfl
  | true =>
    obtain ⟨m, hm, hholds⟩ := h.next hflag
    have hflags := hholds.flags r hr
    rw [h.readerIdx r hr, hlast, ← hm, Nat.add_mod_right, hflags,
      decide_eq_true (by omega)] at hread
    cases hread

theorem Invariant.startRead (hpc : (s.readers r).pc = .checked false)
    (hflag : s.writtenFlag (s.readers r).currentIdx = true) :
    s.ReaderKnows maxChunks r (.reading []) := by
  have hlt : s.taken r < s.published.length := by
    refine lt_of_le_of_ne (h.behind r hr) fun heq => ?_
    have hfalse := h.readerKnows hr hpc rfl heq
    rw [h.readerIdx r hr, heq, hfalse] at hflag
    cases hflag
  exact ⟨hlt, _, (h.current hr hlt).content, nofun⟩

theorem Invariant.readByte {seen : List (Nat × Byte)} (hpc : (s.readers r).pc = .reading seen)
    (offset : Nat) :
    s.ReaderKnows maxChunks r
      (.reading (seen ++ [(offset, s.data (s.readers r).currentIdx offset)])) := by
  obtain ⟨hlt, content, hcontent, hseen⟩ := h.readerKnows hr hpc
  refine ⟨hlt, content, hcontent, fun byte hbyte => ?_⟩
  rcases mem_append.mp hbyte with hbyte | hbyte
  · exact hseen byte hbyte
  · rw [mem_singleton.mp hbyte, h.readerIdx r hr]
    exact congrFun (Option.some.inj (hcontent.symm.trans (h.current hr hlt).content)) offset

variable {seen : List (Nat × Byte)} (hlt : s.taken r < s.published.length)
include hlt

theorem Holds.markRead (hholds : s.Holds nReader maxChunks m) (hm : m < s.published.length)
    (hin : s.published.length ≤ m + maxChunks) :
    ((s.setReadFlag (s.taken r % maxChunks) r true).advanceReader maxChunks r seen).Holds nReader
      maxChunks m := by
  have hwindow := h.window r hr
  refine ⟨hholds.written, hholds.content, fun r' hr' => ?_⟩
  rw [taken_markRead]
  change update s.readFlag (s.taken r % maxChunks) _ (m % maxChunks) r' = _
  rcases eq_or_ne m (s.taken r) with rfl | hne
  · rw [update_self]
    rcases eq_or_ne r' r with rfl | hne
    · rw [update_self, if_pos rfl, decide_eq_true (Nat.lt_succ_self _)]
    · rw [update_of_ne hne, if_neg hne]
      exact hholds.flags r' hr'
  · have hplace : m % maxChunks ≠ s.taken r % maxChunks := by
      rcases Nat.lt_or_gt_of_ne hne with hlt' | hgt
      · exact mod_ne_of_lt hlt' (by omega)
      · exact (mod_ne_of_lt hgt (by omega)).symm
    rw [update_of_ne hplace, hholds.flags r' hr']
    split_ifs with heq
    · rw [heq]
      exact decide_eq_decide.mpr (by omega)
    · rfl

theorem Invariant.markRead (hseen : s.SeenIn (s.taken r) seen) :
    ((s.setReadFlag (s.readers r).currentIdx r true).advanceReader maxChunks r seen).Invariant
      nReader maxChunks := by
  have hidx := h.readerIdx r hr
  rw [hidx]
  have htaken := fun r' => s.taken_markRead r maxChunks seen
    (s.taken r % maxChunks) r'
  have hmono : ∀ r', s.taken r' ≤ ((s.setReadFlag (s.taken r % maxChunks) r true).advanceReader
      maxChunks r seen).taken r' := fun r' => by
    rw [htaken]
    split_ifs with heq
    · rw [heq]
      exact Nat.le_succ _
    · exact le_rfl
  refine ⟨h.writerIdx, fun r' hr' => ?_, fun r' hr' => ?_, fun r' hr' => ?_, fun m hm hin => ?_,
    fun hflag => ?_, fun hflag r' hr' => ?_, h.unused, ?_, fun r' hr' => ?_, fun r' hr' => ?_⟩
  · rw [htaken]
    change (update s.readers r _ r').currentIdx = _
    rcases eq_or_ne r' r with rfl | hne
    · rw [update_self, if_pos rfl]
      change ((s.readers r').currentIdx + 1) % maxChunks = _
      rw [hidx, Nat.mod_add_mod]
    · rw [update_of_ne hne, if_neg hne]
      exact h.readerIdx r' hr'
  · rw [htaken]
    split_ifs
    · exact hlt
    · exact h.behind r' hr'
  · exact (h.window r' hr').trans (Nat.add_le_add_right (hmono r') _)
  · exact Holds.markRead h hr hlt (h.kept m hm hin) hm hin.le
  · obtain ⟨m, hm, hholds⟩ := h.next hflag
    have hwindow := h.window r hr
    exact ⟨m, hm, Holds.markRead h hr hlt hholds (by omega) (by omega)⟩
  · exact (h.free hflag r' hr').trans_le (Nat.add_le_add_right (hmono r') _)
  · refine h.writer.mono rfl rfl (fun hflag r' => ?_) hmono
    exact congrFun (update_of_ne (h.apart hr hflag hlt).symm _ _) r'
  · change ReaderKnows maxChunks _ r' (update s.readers r _ r').pc
    rcases eq_or_ne r' r with rfl | hne
    · rw [update_self]
      trivial
    · rw [update_of_ne hne]
      exact (h.reader r' hr').congr rfl rfl ((htaken r').trans (if_neg hne))
  · change ∀ j record, (update s.readers r _ r').log[j]? = some record → _
    rcases eq_or_ne r' r with rfl | hne
    · rw [update_self]
      intro j record hrecord
      rw [getElem?_append] at hrecord
      split_ifs at hrecord with hj
      · exact h.log r' hr j record hrecord
      · have hj' : j = s.taken r' := by
          have hbound := (List.getElem?_eq_some_iff.mp hrecord).1
          change ¬j < s.taken r' at hj
          change j - s.taken r' < 1 at hbound
          omega
        subst hj'
        change [_][s.taken r' - s.taken r']? = _ at hrecord
        rw [Nat.sub_self] at hrecord
        cases hrecord
        exact ⟨hidx, hseen⟩
    · rw [update_of_ne hne]
      exact h.log r' hr'

end reader

/-! ## Executions -/

theorem invariant_init (data : Nat → Chunk) (hpos : 0 < maxChunks) :
    ({ data := data } : ShmRing).Invariant nReader maxChunks := by
  refine ⟨(Nat.zero_mod _).symm, fun r _ => (Nat.zero_mod _).symm, fun r _ => le_rfl,
    fun r _ => Nat.zero_le _, nofun, nofun,
    fun _ r _ => Nat.add_pos_right _ hpos, fun m _ _ => rfl, trivial, fun r _ => trivial,
    nofun⟩

theorem Invariant.step (h : s.Invariant nReader maxChunks) (hpos : 0 < maxChunks)
    (hstep : Step nReader maxChunks s s') : s'.Invariant nReader maxChunks := by
  cases hstep with
  | startWrite hpc =>
    exact h.setWriter ⟨Nat.zero_le _, le_rfl, nofun⟩
  | countFlag hpc hi => exact h.setWriter (h.countFlag hpc hi)
  | waitWrite hpc hflag hcount => exact h.setWriter trivial
  | claim hpc hgo => exact h.setWriter (h.claim hpc hgo)
  | clearWritten hpc => exact h.clearWritten hpc
  | writeByte offset value hpc => exact h.writeByte hpc offset value
  | failWrite hpc => exact h.setWriter trivial
  | finishWrite hpc =>
    exact h.setWriter ⟨Nat.zero_le _, h.writerKnows hpc, nofun⟩
  | resetFlag hpc hi => exact h.resetFlag hpc hi
  | markWritten hpc => exact h.markWritten hpc hpos
  | checkRead hr hpc => exact h.setReader hr (h.checkRead hr hpos)
  | waitRead hr hpc hwait => exact h.setReader hr trivial
  | startRead hr hpc hflag => exact h.setReader hr (h.startRead hr hpc hflag)
  | readByte offset hr hpc => exact h.setReader hr (h.readByte hr hpc offset)
  | failRead hr hpc => exact h.setReader hr trivial
  | markRead hr hpc =>
    obtain ⟨hlt, hseen⟩ := h.readerKnows hr hpc
    exact h.markRead hr hlt hseen

theorem Reachable.invariant (h : s.Reachable nReader maxChunks) (hpos : 0 < maxChunks) :
    s.Invariant nReader maxChunks := by
  obtain ⟨data, hrun⟩ := h
  induction hrun with
  | refl => exact invariant_init data hpos
  | tail _ hstep ih => exact ih.step hpos hstep

theorem Reachable.step (h : s.Reachable nReader maxChunks) (hstep : Step nReader maxChunks s s') :
    s'.Reachable nReader maxChunks := by
  obtain ⟨data, hrun⟩ := h
  exact ⟨data, hrun.tail hstep⟩

theorem Invariant.written_eq_false (h : s.Invariant nReader maxChunks) (hw : s.Writing) :
    s.writtenFlag (s.nextIdx maxChunks) = false := by
  rcases hw with hpc | ⟨i, hpc⟩
  · exact h.writerKnows hpc
  · exact (h.writerKnows hpc).2.1

/-- Two readers of a ring of two chunks: 7 and 8 are written, both readers read 7 and the first one
reads 8, 9 is written over 7, and the first reader reads 9. -/
theorem reachable_wrapped : ∃ s : ShmRing, s.Reachable 2 2 ∧ s.published.length = 3 ∧
    (s.readers 0).pc = .reading [(0, 9)] ∧ s.taken 0 = 2 ∧ s.taken 1 = 1 := by
  have write := fun (s : ShmRing) (value : Byte) (h : s.Reachable 2 2) (hpc : s.writer.pc = .idle)
      hgo =>
    have h₁ := ((h.step (.startWrite hpc)).step (.countFlag rfl two_pos)).step
      (.countFlag rfl Nat.one_lt_two)
    have h₂ := ((h₁.step (.claim rfl hgo)).step (.clearWritten rfl)).step (.writeByte 0 value rfl)
    have h₃ := (h₂.step (.finishWrite rfl)).step (.resetFlag rfl two_pos)
    (h₃.step (.resetFlag rfl Nat.one_lt_two)).step (.markWritten rfl)
  have h₀ : ({ data := fun _ _ => 0 } : ShmRing).Reachable 2 2 := ⟨_, .refl⟩
  have h₁ := write _ 8 (write _ 7 h₀ rfl (by decide)) rfl (by decide)
  have h₂ := (h₁.step (.checkRead two_pos rfl)).step (.startRead two_pos rfl rfl)
  have h₃ := (h₂.step (.markRead two_pos rfl)).step (.checkRead Nat.one_lt_two rfl)
  have h₄ := (h₃.step (.startRead Nat.one_lt_two rfl rfl)).step (.markRead Nat.one_lt_two rfl)
  have h₅ := (h₄.step (.checkRead two_pos rfl)).step (.startRead two_pos rfl rfl)
  have h₆ := write _ 9 (h₅.step (.markRead two_pos rfl)) rfl (by decide)
  have h₇ := (h₆.step (.checkRead two_pos rfl)).step (.startRead two_pos rfl rfl)
  exact ⟨_, h₇.step (.readByte 0 two_pos rfl), rfl, rfl, rfl, rfl⟩

structure Safe (nReader maxChunks : Nat) (s : ShmRing) : Prop where
  exclusive : ∀ r < nReader, s.Writing → s.Reading r →
    (s.readers r).currentIdx ≠ s.writer.currentIdx
  overwrite : s.Writing → ∀ r < nReader, ∀ m < s.published.length,
    m % maxChunks = s.writer.currentIdx → m < (s.readers r).log.length
  order : ∀ r < nReader, (s.readers r).log.length ≤ s.published.length ∧
    ∀ j record, (s.readers r).log[j]? = some record → record.idx = j % maxChunks ∧
      ∃ content, s.published[j]? = some content ∧
        ∀ byte ∈ record.seen, content byte.1 = byte.2
  available : ∀ r < nReader, (s.readers r).log.length < s.published.length →
    s.writtenFlag (s.readers r).currentIdx = true ∧ s.readFlag (s.readers r).currentIdx r = false

/-- The protocol is safe in every interleaving. -/
theorem flag_protocol_safe (hpos : 0 < maxChunks) (hreach : s.Reachable nReader maxChunks) :
    s.Safe nReader maxChunks := by
  have h := hreach.invariant hpos
  refine ⟨fun r hr hw hreading => ?_, fun hw r hr m hm hidx => ?_,
    fun r hr => ⟨h.behind r hr, h.log r hr⟩, fun r hr hlt => ?_⟩
  · obtain ⟨seen, hpc⟩ := hreading
    rw [h.readerIdx r hr, h.writerIdx]
    exact h.apart hr (h.written_eq_false hw) (h.readerKnows hr hpc).1
  · have hdrained := h.free (h.written_eq_false hw) r hr
    rw [h.writerIdx] at hidx
    -- a chunk at the place of the writer is at least one round old
    have hold : m + maxChunks ≤ s.published.length := by
      by_contra hlt
      exact mod_ne_of_lt hm (by omega) hidx
    change m < s.taken r
    omega
  · have hholds := h.current hr hlt
    have hflags := hholds.flags r hr
    rw [h.readerIdx r hr]
    exact ⟨hholds.written, hflags.trans (decide_eq_false (Nat.lt_irrefl _))⟩

theorem flag_protocol_safe_reading : ∃ s : ShmRing, s.Reachable 2 2 ∧ s.published.length = 3 ∧
    (s.readers 0).pc = .reading [(0, 9)] ∧ s.taken 0 = 2 ∧ s.taken 1 = 1 ∧ s.Safe 2 2 := by
  obtain ⟨s, hreach, hpublished, hpc, htaken₀, htaken₁⟩ := reachable_wrapped
  exact ⟨s, hreach, hpublished, hpc, htaken₀, htaken₁, flag_protocol_safe two_pos hreach⟩

/-! ## The ring is a bounded queue -/

def toQueue (nReader : Nat) (s : ShmRing) : BroadcastRing (Fin nReader) Chunk where
  published := s.published
  taken r := s.taken r

theorem toQueue_setReader (pc : ReaderPc) :
    (s.setReader r pc).toQueue nReader = s.toQueue nReader := by
  unfold toQueue
  congr 1
  funext r'
  exact taken_setReader pc r'

theorem Step.toQueue (h : s.Invariant nReader maxChunks) (hstep : Step nReader maxChunks s s') :
    s'.toQueue nReader = s.toQueue nReader ∨
      BroadcastRing.Step maxChunks (s.toQueue nReader) (s'.toQueue nReader) := by
  cases hstep with
  | startWrite | countFlag | waitWrite | claim | clearWritten | writeByte | failWrite
  | finishWrite | resetFlag => exact .inl rfl
  | markWritten hpc =>
    have hdrained := h.free (h.writerKnows hpc).2.1
    exact .inr (.publish (s.data s.writer.currentIdx) fun r => hdrained r r.isLt)
  | checkRead | waitRead | startRead | readByte | failRead => exact .inl (toQueue_setReader _)
  | @markRead r seen hr hpc =>
    refine .inr ?_
    have htake : ((s.setReadFlag (s.readers r).currentIdx r true).advanceReader maxChunks r
        seen).toQueue nReader = (s.toQueue nReader).take ⟨r, hr⟩ := by
      unfold toQueue BroadcastRing.take
      congr 1
      funext r'
      rw [taken_markRead, update_apply]
      simp only [Fin.ext_iff]
    rw [htake]
    exact BroadcastRing.Step.take (⟨r, hr⟩ : Fin nReader) (h.readerKnows hr hpc).1

/-- In every interleaving, what was published and taken is a run of the bounded queue. -/
theorem ring_refines_queue (hpos : 0 < maxChunks) (hreach : s.Reachable nReader maxChunks) :
    Relation.ReflTransGen (BroadcastRing.Step maxChunks) {} (s.toQueue nReader) := by
  obtain ⟨data, hrun⟩ := hreach
  induction hrun with
  | refl => exact .refl
  | tail hsteps hstep ih =>
    rcases hstep.toQueue (Reachable.invariant ⟨data, hsteps⟩ hpos) with hsame | hqueue
    · rw [hsame]
      exact ih
    · exact ih.tail hqueue

theorem ring_refines_queue_wrapped : ∃ s : ShmRing, s.Reachable 2 2 ∧ s.published.length = 3 ∧
    s.taken 0 = 2 ∧ s.taken 1 = 1 ∧
    Relation.ReflTransGen (BroadcastRing.Step 2) {} (s.toQueue 2) := by
  obtain ⟨s, hreach, hpublished, -, htaken₀, htaken₁⟩ := reachable_wrapped
  exact ⟨s, hreach, hpublished, htaken₀, htaken₁, ring_refines_queue two_pos hreach⟩

end ShmRing

end LongCtxSpecDecode
