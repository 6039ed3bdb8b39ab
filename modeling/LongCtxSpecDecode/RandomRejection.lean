import LongCtxSpecDecode.RejectionSampler

/-!
# The random rejection sampler

`rejection_random_sample_kernel` and the weights of `sample_recovered_tokens_kernel` of
`v1/sample/rejection_sampler.py`. Tokens are indices into the rows of probabilities; an empty
place of the output, `PLACEHOLDER_TOKEN_ID`, is `none`.
-/

namespace LongCtxSpecDecode

open Library.Ragged List Function

section model

variable {K V : Type} [Field K] [LinearOrder K]

structure RandomInputs (K V : Type) where
  draftTokenIds : Nat → V
  draftProbs : Option (Nat → V → K)
  targetProbs : Nat → V → K
  recoveredTokenIds : Nat → V
  uniformProbs : Nat → K

variable (x : RandomInputs K V)

namespace RandomInputs

def draftProb (i : Nat) : K :=
  match x.draftProbs with
  | none => 1
  | some probs => probs i (x.draftTokenIds i)

def Accepts (draftProb targetProb uniformProb : K) : Prop :=
  draftProb > 0 ∧ targetProb / draftProb ≥ uniformProb

instance (draftProb targetProb uniformProb : K) :
    Decidable (Accepts draftProb targetProb uniformProb) :=
  inferInstanceAs (Decidable (_ ∧ _))

def accepts (i : Nat) : Prop :=
  Accepts (x.draftProb i) (x.targetProbs i (x.draftTokenIds i)) (x.uniformProbs i)

instance (x : RandomInputs K V) (i : Nat) : Decidable (x.accepts i) :=
  inferInstanceAs (Decidable (Accepts ..))

/-- One round of the loop: the output memory and the flag `rejected`. -/
def randomRound (startIdx base : Nat) (state : (Nat → Option V) × Bool)
    (pos : Nat) : (Nat → Option V) × Bool :=
  if state.2 then
    state
  else if x.accepts (startIdx + pos) then
    (update state.1 (base + pos) (some (x.draftTokenIds (startIdx + pos))), false)
  else
    (update state.1 (base + pos) (some (x.recoveredTokenIds (startIdx + pos))), true)

/-- The program of `rejection_random_sample_kernel` for request `reqIdx`. -/
def rejectionRandomSampleKernel (cuNumDraftTokens : List Nat)
    (bonusTokenIds : Nat → V) (isGreedy : Nat → Bool) (maxSpecLen : Nat)
    (outputTokenIds : Nat → Option V) (reqIdx : Nat) : Nat → Option V :=
  if isGreedy reqIdx then
    outputTokenIds
  else
    let startIdx := if reqIdx = 0 then 0 else cuNumDraftTokens.getD (reqIdx - 1) 0
    let endIdx := cuNumDraftTokens.getD reqIdx 0
    let numDraftTokens := endIdx - startIdx
    let base := reqIdx * (maxSpecLen + 1)
    let state := (range numDraftTokens).foldl (x.randomRound startIdx base)
      (outputTokenIds, false)
    if state.2 then state.1
    else update state.1 (base + numDraftTokens) (some (bonusTokenIds reqIdx))

/-- The launch of the kernel on an empty output, and the tokens of request `reqIdx` in it. -/
def rejectionRandomSample (numDraftTokens : List Nat)
    (bonusTokenIds : Nat → V) (isGreedy : Nat → Bool) (maxSpecLen reqIdx : Nat) : List V :=
  let output := (range numDraftTokens.length).foldl
    (x.rejectionRandomSampleKernel (cumsum numDraftTokens) bonusTokenIds isGreedy maxSpecLen)
    fun _ => none
  (range (maxSpecLen + 1)).filterMap fun pos => output (reqIdx * (maxSpecLen + 1) + pos)

/-- `prob` of `sample_recovered_tokens_kernel`: the weight of token `t` at flat index `i`. -/
def recoveredProb [DecidableEq V] (x : RandomInputs K V) (i : Nat) (t : V) : K :=
  match x.draftProbs with
  | none => if t = x.draftTokenIds i then 0 else x.targetProbs i t
  | some probs => max (x.targetProbs i t - probs i t) 0

/-- The tokens of a request with `n` drafts from index `i` on: drafts up to the first that is
rejected, then its recovered token, or all drafts and the bonus token. -/
def emitted (x : RandomInputs K V) (bonus : V) : Nat → Nat → List V
  | 0, _ => [bonus]
  | n + 1, i =>
    if x.accepts i then x.draftTokenIds i :: emitted x bonus n (i + 1)
    else [x.recoveredTokenIds i]

section kernel

variable (x : RandomInputs K V) (startIdx base : Nat) (bonus : V)

theorem emitted_length (n i : Nat) : (x.emitted bonus n i).length ≤ n + 1 := by
  induction n generalizing i with
  | zero => exact Nat.le_refl 1
  | succ n ih =>
    unfold emitted
    split
    · have hrest := ih (i + 1)
      rw [length_cons]
      omega
    · exact Nat.le_add_left 1 (n + 1)

variable (out : Nat → Option V)

theorem foldl_randomRound_rejected (positions : List Nat) :
    positions.foldl (x.randomRound startIdx base) (out, true) = (out, true) := by
  induction positions with
  | nil => rfl
  | cons pos positions ih => exact ih

def appendBonus (state : (Nat → Option V) × Bool) (place : Nat) (bonus : V) : Nat → Option V :=
  if state.2 then state.1 else update state.1 place (some bonus)

/-- A list written into the memory from `place` on. -/
def written (place : Nat) (tokens : List V) (y : Nat) : Option V :=
  if place ≤ y ∧ y < place + tokens.length then tokens[y - place]? else out y

theorem written_cons (place : Nat) (t : V) (tokens : List V) :
    written (update out place (some t)) (place + 1) tokens =
      written out place (t :: tokens) := by
  funext y
  unfold written
  rcases Nat.lt_trichotomy y place with hy | rfl | hy
  · rw [if_neg (by omega), if_neg (by omega), update_of_ne (by omega)]
  · rw [if_neg (by omega), if_pos ⟨Nat.le_refl y, by rw [length_cons]; omega⟩,
      update_self, Nat.sub_self]
    rfl
  · grind

theorem written_nil (place : Nat) : written out place [] = out := by
  funext y
  exact if_neg fun h => by
    rw [length_nil] at h
    omega

theorem loop_eq_written (n pos : Nat) (out : Nat → Option V) :
    appendBonus ((range' pos n).foldl (x.randomRound startIdx base) (out, false))
        (base + pos + n) bonus =
      written out (base + pos) (x.emitted bonus n (startIdx + pos)) := by
  induction n generalizing pos out with
  | zero =>
    unfold emitted
    rw [← written_cons, written_nil]
    rfl
  | succ n ih =>
    rw [range'_succ, foldl_cons]
    unfold emitted randomRound
    by_cases haccept : x.accepts (startIdx + pos)
    · rw [if_pos haccept, if_pos haccept, ← written_cons]
      have hrest := ih (pos + 1) (update out (base + pos)
        (some (x.draftTokenIds (startIdx + pos))))
      rw [show base + (pos + 1) + n = base + pos + (n + 1) by omega] at hrest
      exact hrest
    · rw [if_neg haccept, if_neg haccept, ← written_cons, written_nil]
      have hrest := x.foldl_randomRound_rejected startIdx base (update out (base + pos)
        (some (x.recoveredTokenIds (startIdx + pos)))) (range' (pos + 1) n)
      exact congrArg (fun state => appendBonus state (base + pos + (n + 1)) bonus) hrest

variable {lens : List Nat} {bonusTokenIds : Nat → V} {isGreedy : Nat → Bool}
variable {maxSpecLen reqIdx : Nat}

theorem kernel_eq_written (hidx : reqIdx < lens.length) (hrandom : isGreedy reqIdx = false)
    (out : Nat → Option V) :
    x.rejectionRandomSampleKernel (cumsum lens) bonusTokenIds isGreedy maxSpecLen out reqIdx =
      written out (reqIdx * (maxSpecLen + 1))
        (x.emitted (bonusTokenIds reqIdx) (lens.getD reqIdx 0) (rowStart lens reqIdx)) := by
  unfold rejectionRandomSampleKernel
  rw [if_neg (by rw [hrandom]; exact Bool.false_ne_true), cumsum_pred _ hidx, cumsum_getD _ hidx,
    rowStart_succ]
  dsimp only
  rw [Nat.add_sub_cancel_left, range_eq_range']
  exact x.loop_eq_written (rowStart lens reqIdx) (reqIdx * (maxSpecLen + 1)) (bonusTokenIds reqIdx)
    (lens.getD reqIdx 0) 0 out

theorem launch_eq (hmax : ∀ i, lens.getD i 0 ≤ maxSpecLen) (count : Nat)
    (hcount : count ≤ lens.length)
    (i pos : Nat) (hpos : pos ≤ maxSpecLen) :
    (range count).foldl
        (x.rejectionRandomSampleKernel (cumsum lens) bonusTokenIds isGreedy maxSpecLen)
        (fun _ => none) (i * (maxSpecLen + 1) + pos) =
      if i < count ∧ isGreedy i = false then
        (x.emitted (bonusTokenIds i) (lens.getD i 0) (rowStart lens i))[pos]?
      else none := by
  induction count with
  | zero =>
    rfl
  | succ count ih =>
    have ih := ih (by omega)
    rw [range_succ, foldl_append, foldl_cons, foldl_nil]
    cases hgreedy : isGreedy count with
    | true =>
      unfold rejectionRandomSampleKernel at ih ⊢
      rw [if_pos hgreedy, ih]
      refine if_congr (and_congr_left fun hi => ?_) rfl rfl
      have hne : i ≠ count := fun heq => by
        rw [heq, hgreedy] at hi
        cases hi
      omega
    | false =>
      have hlength := x.emitted_length (bonusTokenIds count) (lens.getD count 0)
        (rowStart lens count)
      have hlen := hmax count
      rw [x.kernel_eq_written (by omega) hgreedy]
      unfold written
      rcases eq_or_ne i count with rfl | hne
      · grind
      · have hrow : i * (maxSpecLen + 1) + pos < count * (maxSpecLen + 1) ∨
            count * (maxSpecLen + 1) + lens.getD count 0 < i * (maxSpecLen + 1) + pos :=
          RejectionSampler.row_disjoint hne (Nat.lt_succ_of_le hpos) (Nat.lt_succ_of_le hlen)
        rw [ih]
        rw [if_neg (by omega)]
        exact if_congr (and_congr_left fun _ => by omega) rfl rfl

theorem filterMap_getElem? {α : Type} (l : List α) {m : Nat} (hm : l.length ≤ m) :
    (range m).filterMap (fun i => l[i]?) = l := by
  induction l generalizing m with
  | nil => simp
  | cons a l ih =>
    obtain ⟨m, rfl⟩ := Nat.exists_eq_add_of_le' (Nat.lt_of_lt_of_le (Nat.succ_pos _) hm)
    rw [range_succ_eq_map, filterMap_cons, filterMap_map]
    exact congrArg (a :: ·) (ih (Nat.le_of_succ_le_succ hm))

theorem rejectionRandomSample_eq (hmax : ∀ i, lens.getD i 0 ≤ maxSpecLen)
    (hidx : reqIdx < lens.length) (hrandom : isGreedy reqIdx = false) :
    x.rejectionRandomSample lens bonusTokenIds isGreedy maxSpecLen reqIdx =
      x.emitted (bonusTokenIds reqIdx) (lens.getD reqIdx 0) (rowStart lens reqIdx) := by
  have hlength := x.emitted_length (bonusTokenIds reqIdx) (lens.getD reqIdx 0)
    (rowStart lens reqIdx)
  have hlen := hmax reqIdx
  have hwidth : (x.emitted (bonusTokenIds reqIdx) (lens.getD reqIdx 0)
      (rowStart lens reqIdx)).length ≤ maxSpecLen + 1 := by omega
  refine Eq.trans (filterMap_congr fun pos hpos => ?_) (filterMap_getElem? _ hwidth)
  rw [x.launch_eq hmax _ (Nat.le_refl _) _ _ (Nat.le_of_lt_succ (mem_range.mp hpos)),
    if_pos ⟨hidx, hrandom⟩]

end kernel

end RandomInputs

end model

end LongCtxSpecDecode
