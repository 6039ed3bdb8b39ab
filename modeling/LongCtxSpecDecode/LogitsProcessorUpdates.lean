import LongCtxSpecDecode.LogitsProcessors
import LongCtxSpecDecode.Library.RowReplay

/-!
# A batch update replays the changes of the rows

What `update_state` leaves at each row, for each of the built-in logits processors, and that the
shortcuts of the source change nothing.
-/

namespace LongCtxSpecDecode

open Library Library.RowReplay List Function OrderedDict

variable {K : Type}

def MoveDirectionality.isSwap : MoveDirectionality → Bool
  | unidirectional => false
  | swap => true

/-- A record of `moved` as a move of rows. -/
def rowMove (m : Nat × Nat × MoveDirectionality) : Move :=
  { src := m.1, dst := m.2.1, both := m.2.2.isSwap }

/-- What a table by row holds once the changes of the builder are replayed; `state` is what is
stored for an added request. -/
def BatchUpdateBuilder.pending {α : Type} (u : BatchUpdateBuilder K) (e : α)
    (state : AddedRequest K → α) (f : Nat → α) : Nat → α :=
  replay e f (u.added.map fun a => (a.index, state a)) u.removed (u.moved.map rowMove)

variable {α : Type} {e : α}

theorem move_const {m : Move} : move e (fun _ => e) m = fun _ => e := by
  funext j
  simp [move]

theorem foldl_move_const (moved : List Move) : moved.foldl (move e) (fun _ => e) = fun _ => e := by
  induction moved with
  | nil => rfl
  | cons m moved ih => rw [foldl_cons, move_const, ih]

theorem clear_const (removed : List Nat) : clear e (fun _ => e) removed = fun _ => e := by
  funext j
  simp [clear]

theorem clear_cons (f : Nat → α) (i : Nat) (removed : List Nat) :
    clear e f (i :: removed) = clear e (update f i e) removed := by
  funext j
  unfold clear
  rcases eq_or_ne j i with rfl | hj
  · simp
  · simp [hj]

/-! ## Min-p -/

section card

variable [Zero K] [DecidableEq K]

theorem support_update (f : Nat → K) (i : Nat) (v : K) :
    {j | update f i v j ≠ 0} =
      if v = 0 then {j | f j ≠ 0} \ {i} else insert i {j | f j ≠ 0} := by
  ext j
  split_ifs with hv
  · rcases eq_or_ne j i with rfl | hj
    · simp [hv]
    · simp [hj]
  · rcases eq_or_ne j i with rfl | hj
    · simp [hv]
    · simp [hj]

end card

variable {m : Nat × Nat × MoveDirectionality} {moved : List (Nat × Nat × MoveDirectionality)}
  {u : BatchUpdateBuilder K}

namespace MinPLogitsProcessor

variable [Field K] [LinearOrder K] {p : MinPLogitsProcessor K} {f : Nat → K}

/-- `min_p_count` counts the rows with a value, and zero is stored as it is. -/
structure Counts (p : MinPLogitsProcessor K) : Prop where
  zero : p.float32 0 = 0
  finite : {j | p.minP j ≠ 0}.Finite
  card : p.minPCount = {j | p.minP j ≠ 0}.ncard

theorem ncard_update (hf : {j | f j ≠ 0}.Finite) (i : Nat) (v : K) :
    ({j | update f i v j ≠ 0}.ncard : Int) =
      {j | f j ≠ 0}.ncard + (if v = 0 then 0 else 1) - (if f i = 0 then 0 else 1) := by
  rw [support_update]
  by_cases hv : v = 0
  · grind [Set.sdiff_singleton_eq_self, Set.ncard_sdiff_singleton_add_one]
  · grind [Set.ncard_insert_of_notMem, Set.insert_eq_of_mem]

theorem finite_update (hf : {j | f j ≠ 0}.Finite) (i : Nat) (v : K) :
    {j | update f i v j ≠ 0}.Finite := by
  rw [support_update]
  split_ifs
  · exact hf.sdiff
  · exact hf.insert i

/-- The value does not become zero when it is stored. -/
def Keeps (p : MinPLogitsProcessor K) (minP : K) : Prop := p.float32 minP = 0 → minP = 0

theorem minP_processAdded (p : MinPLogitsProcessor K) (a : AddedRequest K) :
    (p.processAdded a).minP = update p.minP a.index (p.float32 a.params.minP) := by
  unfold processAdded
  by_cases heq : p.minP a.index = p.float32 a.params.minP
  · simp [heq.symm]
  · simp [heq]

theorem float32_processAdded (p : MinPLogitsProcessor K) (a : AddedRequest K) :
    (p.processAdded a).float32 = p.float32 := by
  unfold processAdded
  dsimp only
  split_ifs <;> rfl

theorem Counts.processAdded (h : p.Counts) {a : AddedRequest K} (ha : p.Keeps a.params.minP) :
    (p.processAdded a).Counts := by
  refine ⟨?_, ?_, ?_⟩
  · rw [float32_processAdded]
    exact h.zero
  · rw [minP_processAdded]
    exact finite_update h.finite _ _
  · have hzero : p.float32 a.params.minP = 0 ↔ a.params.minP = 0 :=
      ⟨ha, fun heq => heq ▸ h.zero⟩
    rw [minP_processAdded, ncard_update h.finite, ← h.card]
    unfold MinPLogitsProcessor.processAdded
    by_cases heq : p.minP a.index = p.float32 a.params.minP
    · simp [heq]
    · grind

theorem minP_processRemoved (p : MinPLogitsProcessor K) (i : Nat) :
    (p.processRemoved i).minP = update p.minP i 0 := by
  unfold processRemoved
  by_cases hi : p.minP i = 0
  · simp [hi.symm]
  · simp [hi]

theorem float32_processRemoved (p : MinPLogitsProcessor K) (i : Nat) :
    (p.processRemoved i).float32 = p.float32 := by
  unfold processRemoved
  split_ifs <;> rfl

theorem Counts.processRemoved (h : p.Counts) (i : Nat) : (p.processRemoved i).Counts := by
  refine ⟨?_, ?_, ?_⟩
  · rw [float32_processRemoved]
    exact h.zero
  · rw [minP_processRemoved]
    exact finite_update h.finite _ _
  · rw [minP_processRemoved, ncard_update h.finite, ← h.card]
    unfold MinPLogitsProcessor.processRemoved
    by_cases hi : p.minP i = 0
    · simp [hi]
    · simp [hi]

theorem move_eq_update {α : Type} {e : α} (g : Nat → α) {m : Move} (hne : m.src ≠ m.dst) :
    move e g m =
      update (update g m.dst (g m.src)) m.src (if m.both then g m.dst else e) := by
  funext j
  unfold move
  rcases eq_or_ne j m.src with rfl | hsrc
  · simp [hne]
  · rcases eq_or_ne j m.dst with rfl | hdst
    · simp [hsrc]
    · simp [hsrc, hdst]

theorem minP_processMoved (p : MinPLogitsProcessor K) (hne : m.1 ≠ m.2.1) :
    (p.processMoved m).minP = move 0 p.minP (rowMove m) := by
  obtain ⟨a, b, direct⟩ := m
  rw [move_eq_update p.minP (show (rowMove (a, b, direct)).src ≠ _ from hne)]
  unfold processMoved rowMove
  cases direct with
  | swap =>
    by_cases heq : p.minP a = p.minP b
    · simp [heq, MoveDirectionality.isSwap]
    · simp [heq, MoveDirectionality.isSwap]
  | unidirectional =>
    grind [MoveDirectionality.isSwap]

theorem float32_processMoved (p : MinPLogitsProcessor K) (m : Nat × Nat × MoveDirectionality) :
    (p.processMoved m).float32 = p.float32 := by
  unfold processMoved
  dsimp only
  split_ifs <;> rfl

theorem Counts.processMoved (h : p.Counts) (hne : m.1 ≠ m.2.1) : (p.processMoved m).Counts := by
  have hvalues := minP_processMoved p hne
  rw [move_eq_update p.minP (show (rowMove m).src ≠ (rowMove m).dst from hne)] at hvalues
  have hfirst := finite_update h.finite (rowMove m).dst (p.minP (rowMove m).src)
  refine ⟨?_, ?_, ?_⟩
  · rw [float32_processMoved]
    exact h.zero
  · rw [hvalues]
    exact finite_update hfirst _ _
  · rw [hvalues, ncard_update hfirst, ncard_update h.finite, ← h.card,
      update_of_ne (show (rowMove m).src ≠ (rowMove m).dst from hne)]
    obtain ⟨a, b, direct⟩ := m
    unfold processMoved rowMove
    cases direct with
    | swap => simp [MoveDirectionality.isSwap]
    | unidirectional =>
      grind [MoveDirectionality.isSwap]

theorem foldl_processAdded (h : p.Counts) (added : List (AddedRequest K))
    (hadded : ∀ a ∈ added, p.Keeps a.params.minP) :
    (added.foldl processAdded p).minP =
        add p.minP (added.map fun a => (a.index, p.float32 a.params.minP)) ∧
      (added.foldl processAdded p).float32 = p.float32 ∧ (added.foldl processAdded p).Counts := by
  induction added generalizing p with
  | nil => exact ⟨rfl, rfl, h⟩
  | cons a added ih =>
    have hsame := float32_processAdded p a
    obtain ⟨hvalues, hfloat, hcounts⟩ := ih (h.processAdded (hadded a mem_cons_self))
      fun a' ha' => by
        unfold Keeps
        rw [hsame]
        exact hadded a' (mem_cons_of_mem a ha')
    refine ⟨?_, hfloat.trans hsame, hcounts⟩
    rw [foldl_cons, hvalues, minP_processAdded, hsame]
    rfl

theorem foldl_processRemoved (h : p.Counts) (removed : List Nat) :
    (removed.foldl processRemoved p).minP = clear 0 p.minP removed ∧
      (removed.foldl processRemoved p).float32 = p.float32 ∧
      (removed.foldl processRemoved p).Counts := by
  induction removed generalizing p with
  | nil =>
    refine ⟨?_, rfl, h⟩
    funext j
    simp [clear]
  | cons i removed ih =>
    obtain ⟨hvalues, hfloat, hcounts⟩ := ih (h.processRemoved i)
    refine ⟨?_, hfloat.trans (float32_processRemoved p i), hcounts⟩
    rw [foldl_cons, hvalues, minP_processRemoved, clear_cons]

theorem foldl_processMoved (h : p.Counts) (hne : ∀ m ∈ moved, m.1 ≠ m.2.1) :
    (moved.foldl processMoved p).minP = (moved.map rowMove).foldl (move 0) p.minP ∧
      (moved.foldl processMoved p).float32 = p.float32 ∧ (moved.foldl processMoved p).Counts := by
  induction moved generalizing p with
  | nil => exact ⟨rfl, rfl, h⟩
  | cons m moved ih =>
    have hm := hne m mem_cons_self
    obtain ⟨hvalues, hfloat, hcounts⟩ := ih (h.processMoved hm) fun m' hm' =>
      hne m' (mem_cons_of_mem m hm')
    refine ⟨?_, hfloat.trans (float32_processMoved p m), hcounts⟩
    rw [foldl_cons, hvalues, minP_processMoved p hm]
    rfl

theorem Counts.eq_zero (h : p.Counts) (hzero : p.minPCount = 0) : p.minP = fun _ => 0 := by
  have hcard := h.card
  have hempty : {j | p.minP j ≠ 0} = ∅ := (Set.ncard_eq_zero h.finite).mp (by omega)
  funext j
  by_contra hj
  exact absurd (show j ∈ {j | p.minP j ≠ 0} from hj) (hempty ▸ Set.notMem_empty j)

theorem Counts.updateState (h : p.Counts) (hne : ∀ m ∈ u.moved, m.1 ≠ m.2.1)
    (hadded : ∀ a ∈ u.added, p.Keeps a.params.minP) (n : Nat) :
    (p.updateState (u.get n)).minP = u.pending 0 (p.float32 ·.params.minP) p.minP ∧
      (p.updateState (u.get n)).float32 = p.float32 ∧ (p.updateState (u.get n)).Counts := by
  unfold BatchUpdateBuilder.get BatchUpdateBuilder.pending
  split_ifs with hempty
  · obtain ⟨hremoved, hmoved, hadded⟩ := hempty
    rw [List.isEmpty_iff] at hremoved hmoved hadded
    rw [hremoved, hmoved, hadded]
    exact ⟨rfl, rfl, h⟩
  · obtain ⟨hvalues, hfloat, hcounts⟩ := foldl_processAdded h u.added hadded
    unfold MinPLogitsProcessor.updateState
    by_cases hzero : (u.added.foldl MinPLogitsProcessor.processAdded p).minPCount = 0
    · simp only [hzero, ne_eq, not_true_eq_false, if_false]
      refine ⟨?_, hfloat, hcounts⟩
      have hnone := hcounts.eq_zero hzero
      unfold replay
      rw [← hvalues, hnone, clear_const, foldl_move_const]
    · simp only [ne_eq, hzero, not_false_eq_true, if_true]
      obtain ⟨hvalues', hfloat', hcounts'⟩ := foldl_processRemoved hcounts u.removed
      obtain ⟨hvalues'', hfloat'', hcounts''⟩ := foldl_processMoved hcounts' hne
      refine ⟨?_, hfloat''.trans (hfloat'.trans hfloat), hcounts''⟩
      rw [hvalues'', hvalues', hvalues]
      rfl

end MinPLogitsProcessor

/-! ## Dictionaries by row -/

section dict

variable {T : Type} {newState : AddedRequest K → Option T} {entries : OrderedDict Nat T}

theorem get_processDictAdded (entries : OrderedDict Nat T) (a : AddedRequest K) :
    (processDictAdded newState entries a).get = update entries.get a.index (newState a) := by
  funext j
  unfold processDictAdded
  rcases eq_or_ne j a.index with rfl | hj
  · cases hstate : newState a with
    | none => simp [get_pop]
    | some state => simp [get_set]
  · cases hstate : newState a with
    | none => simp [get_pop, hj]
    | some state => simp [get_set, hj]

theorem get_pop_eq_update (entries : OrderedDict Nat T) (i : Nat) :
    (entries.pop i).get = update entries.get i none := by
  funext j
  rw [get_pop, update_apply]

theorem get_putEntry (d : OrderedDict Nat T) (k : Nat) (entry : Option T) (j : Nat) :
    (putEntry d k entry).get j = if j = k then entry.or (d.get k) else d.get j := by
  unfold putEntry
  cases entry with
  | none =>
    rcases eq_or_ne j k with rfl | hj
    · simp
    · simp [hj]
  | some x => simp [get_set]

theorem get_processDictMoved (entries : OrderedDict Nat T) (hne : m.1 ≠ m.2.1) :
    (processDictMoved entries m).get = move none entries.get (rowMove m) := by
  obtain ⟨a, b, direct⟩ := m
  unfold processDictMoved move rowMove
  cases direct with
  | swap =>
    grind [get_putEntry, get_pop, MoveDirectionality.isSwap]
  | unidirectional =>
    grind [get_putEntry, get_pop, MoveDirectionality.isSwap]

theorem get_foldl_processDictAdded (newState : AddedRequest K → Option T)
    (entries : OrderedDict Nat T) (added : List (AddedRequest K)) :
    (added.foldl (processDictAdded newState) entries).get =
      add entries.get (added.map fun a => (a.index, newState a)) := by
  induction added generalizing entries with
  | nil => rfl
  | cons a added ih =>
    rw [foldl_cons, ih, get_processDictAdded]
    rfl

theorem get_foldl_pop (removed : List Nat) :
    (removed.foldl OrderedDict.pop entries).get = clear none entries.get removed := by
  induction removed generalizing entries with
  | nil =>
    funext j
    simp [clear]
  | cons i removed ih => rw [foldl_cons, ih, get_pop_eq_update, clear_cons]

theorem get_foldl_processDictMoved (hne : ∀ m ∈ moved, m.1 ≠ m.2.1) :
    (moved.foldl processDictMoved entries).get =
      (moved.map rowMove).foldl (move none) entries.get := by
  induction moved generalizing entries with
  | nil => rfl
  | cons m moved ih =>
    rw [foldl_cons, ih fun m' hm' => hne m' (mem_cons_of_mem m hm'),
      get_processDictMoved entries (hne m mem_cons_self)]
    rfl

theorem get_processDictUpdates (hne : ∀ m ∈ u.moved, m.1 ≠ m.2.1) (n : Nat) :
    (processDictUpdates newState entries (u.get n)).get = u.pending none newState entries.get := by
  unfold BatchUpdateBuilder.get BatchUpdateBuilder.pending
  split_ifs with hempty
  · obtain ⟨hremoved, hmoved, hadded⟩ := hempty
    rw [List.isEmpty_iff] at hremoved hmoved hadded
    rw [hremoved, hmoved, hadded]
    rfl
  · have hvalues := get_foldl_processDictAdded newState entries u.added
    unfold processDictUpdates
    by_cases hnil : u.added.foldl (processDictAdded newState) entries = []
    · rw [hnil] at hvalues
      have hnone : (OrderedDict.get ([] : OrderedDict Nat T)) = fun _ => none := rfl
      unfold replay
      simp only [hnil, ne_eq, not_true_eq_false, if_false]
      rw [← hvalues, hnone, clear_const, foldl_move_const]
    · simp only [ne_eq, hnil, not_false_eq_true, if_true]
      rw [get_foldl_processDictMoved hne, get_foldl_pop, hvalues]
      rfl

theorem nodup_putEntry (hd : (OrderedDict.keys entries).Nodup) (i : Nat) (entry : Option T) :
    (OrderedDict.keys (putEntry entries i entry)).Nodup := by
  cases entry with
  | none => exact hd
  | some x => exact keys_set_nodup hd i x

theorem nodup_processDictUpdates (newState : AddedRequest K → Option T)
    (hd : (OrderedDict.keys entries).Nodup)
    (u : Option (BatchUpdate K)) :
    (OrderedDict.keys (processDictUpdates newState entries u)).Nodup := by
  have hadded : ∀ added : List (AddedRequest K),
      (OrderedDict.keys (added.foldl (processDictAdded newState) entries)).Nodup := fun added => by
    refine nodup_foldl (fun d a hd => ?_) added hd
    unfold processDictAdded
    split
    · exact keys_set_nodup hd _ _
    · exact keys_pop_nodup hd _
  have hmoved : ∀ (d : OrderedDict Nat T) (m : Nat × Nat × MoveDirectionality),
      (OrderedDict.keys d).Nodup → (OrderedDict.keys (processDictMoved d m)).Nodup := by
    grind [keys_pop_nodup, processDictMoved, nodup_putEntry]
  cases u with
  | none => exact hd
  | some u =>
    grind [processDictUpdates, nodup_foldl, keys_pop_nodup]

end dict

namespace MinTokens

variable {minToks : MinTokens}

theorem get_updateState (hd : (OrderedDict.keys minToks).Nodup) (hne : ∀ m ∈ u.moved, m.1 ≠ m.2.1)
    (outputTokenIds : ReqId → List Token) (n i : Nat) :
    (minToks.updateState outputTokenIds (u.get n)).get i =
      (u.pending none newState (OrderedDict.get minToks) i).filter fun entry =>
        (outputTokenIds entry.reqId).length < entry.minTokens := by
  have hnodup := nodup_processDictUpdates newState hd (u.get n)
  unfold updateState
  rw [get_foldl_pop_keys, ← get_processDictUpdates hne n]
  generalize processDictUpdates newState minToks (u.get n) = d at hnodup
  have hmem : i ∈ OrderedDict.keys (d.filter fun item =>
      decide (item.2.minTokens ≤ (outputTokenIds item.2.reqId).length)) ↔
      ∃ entry, OrderedDict.get d i = some entry ∧
        entry.minTokens ≤ (outputTokenIds entry.reqId).length := by
    simp [OrderedDict.keys, get_eq_some_iff hnodup]
  simp only [hmem]
  cases hget : OrderedDict.get d i with
  | none => simp
  | some entry =>
    by_cases hdone : entry.minTokens ≤ (outputTokenIds entry.reqId).length
    · simp [Option.filter, hdone]
    · simp [Option.filter, hdone]

theorem nodup_updateState (hd : (OrderedDict.keys minToks).Nodup)
    (outputTokenIds : ReqId → List Token) (u : Option (BatchUpdate K)) :
    (OrderedDict.keys (minToks.updateState outputTokenIds u)).Nodup :=
  nodup_foldl (fun _ item hd => keys_pop_nodup hd item.1) _
    (nodup_processDictUpdates _ hd u)

end MinTokens

end LongCtxSpecDecode
