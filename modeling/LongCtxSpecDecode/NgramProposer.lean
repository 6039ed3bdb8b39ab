import LongCtxSpecDecode.Request
import LongCtxSpecDecode.Library.Borders

/-!
# N-gram proposals

`v1/spec_decode/ngram_proposer.py`: `_find_longest_matched_ngram_and_propose_tokens` computes the
failure function of the reversed tokens, with borders of at most `max_ngram` tokens; the proposer
calls it for the requests of a batch in parallel.
-/

namespace LongCtxSpecDecode

open Library Function List

/-- The variables of the `while` loop. -/
structure NgramScan where
  lps : Nat → Nat := fun _ => 0
  longestNgram : Nat := 0
  position : Nat := 0
  prevLps : Nat := 0
  i : Nat := 1

namespace NgramScan

/-- One round of the `while` loop. -/
def step (tokens : Nat → Token) (maxNgram : Nat) (s : NgramScan) : NgramScan :=
  if tokens s.prevLps = tokens s.i then
    let prevLps := s.prevLps + 1
    let lps := if s.i < maxNgram then update s.lps s.i prevLps else s.lps
    { lps
      longestNgram := if prevLps ≥ s.longestNgram then prevLps else s.longestNgram
      position := if prevLps ≥ s.longestNgram then s.i else s.position
      prevLps := if prevLps = maxNgram then lps (maxNgram - 1) else prevLps
      i := s.i + 1 }
  else if s.prevLps ≠ 0 then { s with prevLps := s.lps (s.prevLps - 1) }
  else { s with i := s.i + 1 }

def run (tokens : Nat → Token) (maxNgram totalToken : Nat) :
    Nat → NgramScan → Except Exn NgramScan
  | 0, s => if s.i < totalToken then .error .outOfFuel else .ok s
  | fuel + 1, s =>
    if s.i < totalToken then run tokens maxNgram totalToken fuel (s.step tokens maxNgram)
    else .ok s

end NgramScan

/-- `_find_longest_matched_ngram_and_propose_tokens`. -/
def findLongestMatchedNgramAndProposeTokens (originTokens : List Token)
    (minNgram maxNgram maxModelLen k : Nat) : Except Exn (List Token) := do
  let totalToken := originTokens.length
  if totalToken < minNgram then .ok []
  else
    let k := min k (maxModelLen - totalToken)
    if k = 0 then .ok []
    else
      let s ← NgramScan.run (originTokens.reverse.getD · 0) maxNgram totalToken
        (2 * totalToken) {}
      if s.longestNgram < minNgram then .ok []
      else
        let startPosition := totalToken - 1 - s.position + s.longestNgram
        let k := min k (totalToken - startPosition)
        .ok ((originTokens.drop startPosition).take k)

/-- The proposer with the buffers that its calls share. -/
structure NgramProposer where
  minN : Nat
  maxN : Nat
  k : Nat
  maxModelLen : Nat
  validNgramDraft : Nat → Nat → Token := fun _ _ => 0
  validNgramNumDrafts : Nat → Nat := fun _ => 0
  minN_pos : 0 < minN
  maxN_pos : 0 < maxN

namespace NgramProposer

/-- The stores for one request. -/
def store (p : NgramProposer) (idx : Nat) (drafterOutput : List Token) : NgramProposer :=
  { p with
    validNgramNumDrafts := update p.validNgramNumDrafts idx drafterOutput.length
    validNgramDraft := update p.validNgramDraft idx fun j =>
      drafterOutput.getD j (p.validNgramDraft idx j) }

section batch

variable (numTokensNoSpec : Nat → Nat) (tokenIdsCpu : Nat → List Token)

/-- `batch_propose_numba`, with the order in which the parallel iterations take effect. -/
def batchProposeNumba (p : NgramProposer) (order : List Nat) : Except Exn NgramProposer :=
  order.foldlM (fun p idx => do
    let drafterOutput ← findLongestMatchedNgramAndProposeTokens
      ((tokenIdsCpu idx).take (numTokensNoSpec idx)) p.minN p.maxN p.maxModelLen p.k
    .ok (p.store idx drafterOutput)) p

/-- `batch_propose`: the draft tokens of each request, and the proposer with its buffers. -/
def batchPropose (p : NgramProposer) (numRequests : Nat) (validNgramRequests order : List Nat) :
    Except Exn (List (List Token) × NgramProposer) := do
  let p ← (if validNgramRequests.length ≠ 0 then
      p.batchProposeNumba numTokensNoSpec tokenIdsCpu order
    else .ok p)
  .ok ((range numRequests).map fun i =>
    if i ∈ validNgramRequests ∧ p.validNgramNumDrafts i > 0 then
      (range (p.validNgramNumDrafts i)).map (p.validNgramDraft i)
    else [], p)

/-- The requests with sampled tokens and room in the model. -/
def validNgramRequests (p : NgramProposer) (sampledTokenIds : List (List Token)) : List Nat :=
  (range sampledTokenIds.length).filter fun i =>
    sampledTokenIds.getD i [] ≠ [] ∧ numTokensNoSpec i < p.maxModelLen

def propose (p : NgramProposer) (sampledTokenIds : List (List Token)) (order : List Nat) :
    Except Exn (List (List Token) × NgramProposer) :=
  p.batchPropose numTokensNoSpec tokenIdsCpu sampledTokenIds.length
    (p.validNgramRequests numTokensNoSpec sampledTokenIds) order

end batch

end NgramProposer

namespace NgramScan

variable {t : Nat → Token} {maxNgram totalToken p : Nat} {s : NgramScan}

/-- What the scan knows of the first `i` reversed tokens. -/
structure Invariant (t : Nat → Token) (maxNgram : Nat) (s : NgramScan) : Prop where
  border : Border t s.prevLps s.i
  capped : s.prevLps < maxNgram
  /-- No longer border goes on at `i`. -/
  next : ∀ w < maxNgram, Border t w s.i → t w = t s.i → w ≤ s.prevLps
  lps : ∀ e, 0 < e → e ≤ s.i → e ≤ maxNgram →
    Border t (s.lps (e - 1)) e ∧ ∀ w, Border t w e → w ≤ s.lps (e - 1)
  unset : ∀ j, s.i ≤ j → s.lps j = 0
  found : s.longestNgram ≠ 0 → Border t s.longestNgram (s.position + 1) ∧ s.position < s.i
  longest : ∀ e ≤ s.i, ∀ w ≤ maxNgram, Border t w e → w ≤ s.longestNgram
  latest : ∀ e ≤ s.i, s.longestNgram ≠ 0 → Border t s.longestNgram e → e ≤ s.position + 1
  longest_le : s.longestNgram ≤ maxNgram

/-- The scan after the next token, when `p` is the longest border that ends there. -/
def advance (maxNgram p : Nat) (s : NgramScan) : NgramScan :=
  let lps := if s.i < maxNgram then update s.lps s.i p else s.lps
  { lps
    longestNgram := if s.longestNgram ≤ p ∧ p ≠ 0 then p else s.longestNgram
    position := if s.longestNgram ≤ p ∧ p ≠ 0 then s.i else s.position
    prevLps := if p = maxNgram then lps (maxNgram - 1) else p
    i := s.i + 1 }

namespace Invariant

theorem initial (hmax : 0 < maxNgram) : Invariant t maxNgram {} where
  border := border_zero Nat.one_pos
  capped := hmax
  next := fun w _ hw _ => Nat.le_of_lt_succ hw.1
  lps := fun e hpos he _ => by
    obtain rfl : e = 1 := by
      change e ≤ 1 at he
      omega
    exact ⟨border_zero Nat.one_pos, fun w hw => Nat.le_of_lt_succ hw.1⟩
  unset := fun _ _ => rfl
  found := fun h => absurd rfl h
  longest := fun e he w _ hw => by
    have := hw.1
    change e ≤ 1 at he
    omega
  latest := fun _ _ h => absurd rfl h
  longest_le := Nat.zero_le _

variable (h : Invariant t maxNgram s)
include h

theorem advance_lps (hp : Border t p (s.i + 1))
    (hbest : ∀ w ≤ maxNgram, Border t w (s.i + 1) → w ≤ p)
    (e : Nat) (hpos : 0 < e) (he : e ≤ s.i + 1) (hcap : e ≤ maxNgram) :
    Border t ((s.advance maxNgram p).lps (e - 1)) e ∧
      ∀ w, Border t w e → w ≤ (s.advance maxNgram p).lps (e - 1) := by
  unfold advance
  dsimp only
  rcases Nat.lt_or_ge s.i e with hlast | hearlier
  · obtain rfl : e = s.i + 1 := by omega
    rw [if_pos (by omega), Nat.add_sub_cancel, update_self]
    exact ⟨hp, fun w hw => hbest w (by have := hw.1; omega) hw⟩
  · have hsame : (if s.i < maxNgram then update s.lps s.i p else s.lps) (e - 1) =
        s.lps (e - 1) := by
      split
      · exact update_of_ne (by omega) _ _
      · rfl
    rw [hsame]
    exact h.lps e hpos hearlier hcap

theorem advance (hp : Border t p (s.i + 1)) (hcap : p ≤ maxNgram)
    (hbest : ∀ w ≤ maxNgram, Border t w (s.i + 1) → w ≤ p) :
    Invariant t maxNgram (s.advance maxNgram p) := by
  have hlps := h.advance_lps hp hbest
  have hcapped := h.capped
  -- the longest border that may still grow
  have hprev : Border t (s.advance maxNgram p).prevLps (s.i + 1) ∧
      (s.advance maxNgram p).prevLps < maxNgram ∧
      ∀ w < maxNgram, Border t w (s.i + 1) → w ≤ (s.advance maxNgram p).prevLps := by
    by_cases hfull : p = maxNgram
    · have hprev : (s.advance maxNgram p).prevLps = (s.advance maxNgram p).lps (maxNgram - 1) :=
        if_pos hfull
      have hlen := hp.1
      obtain ⟨hborder, hmax⟩ := hlps maxNgram (by omega) (by omega) le_rfl
      rw [hfull] at hp
      rw [hprev]
      exact ⟨hp.trans hborder, hborder.1, fun w hw hw' => hmax w (hp.of_lt hw' hw)⟩
    · have hprev : (s.advance maxNgram p).prevLps = p := if_neg hfull
      rw [hprev]
      exact ⟨hp, by omega, fun w hw hw' => hbest w hw.le hw'⟩
  refine ⟨hprev.1, hprev.2.1, fun w hw hw' _ => hprev.2.2 w hw hw', hlps, fun j hj => ?_,
    fun hne => ?_, fun e he w hw hborder => ?_, fun e he hne hborder => ?_, ?_⟩
  · change s.i + 1 ≤ j at hj
    unfold NgramScan.advance
    dsimp only
    split
    · rw [update_of_ne (by omega)]
      exact h.unset j (by omega)
    · exact h.unset j (by omega)
  all_goals
    unfold NgramScan.advance at *
    dsimp only at *
  · split_ifs at hne ⊢ with hnew
    · exact ⟨hp, Nat.lt_succ_self _⟩
    · exact ⟨(h.found hne).1, (h.found hne).2.trans (Nat.lt_succ_self _)⟩
  · have hle : w ≤ s.longestNgram ∨ w ≤ p := by
      rcases Nat.lt_or_ge s.i e with hlast | hearlier
      · obtain rfl : e = s.i + 1 := by omega
        exact .inr (hbest w hw hborder)
      · exact .inl (h.longest e hearlier w hw hborder)
    split_ifs with hnew <;> omega
  · split_ifs at hne hborder ⊢ with hnew
    · exact he
    · rcases Nat.lt_or_ge s.i e with hlast | hearlier
      · obtain rfl : e = s.i + 1 := by omega
        have := hbest _ h.longest_le hborder
        omega
      · exact h.latest e hearlier hne hborder
  · have := h.longest_le
    split_ifs <;> omega

theorem step_of_advance (hstep : s.step t maxNgram = s.advance maxNgram p)
    (hp : Border t p (s.i + 1)) (hle : p ≤ s.prevLps + 1)
    (hgrow : ∀ w < maxNgram, Border t w s.i → t w = t s.i → w + 1 ≤ p) :
    Invariant t maxNgram (s.step t maxNgram) ∧
      2 * s.i + (s.step t maxNgram).prevLps < 2 * (s.step t maxNgram).i + s.prevLps ∧
      (s.step t maxNgram).i ≤ s.i + 1 := by
  have hbest : ∀ w ≤ maxNgram, Border t w (s.i + 1) → w ≤ p := by
    intro w hw hborder
    cases w with
    | zero => exact Nat.zero_le p
    | succ w =>
      obtain ⟨hborder, heq⟩ := border_succ_iff.mp hborder
      exact hgrow w hw hborder heq
  have hinv := h.advance hp (hle.trans h.capped) hbest
  have hprev := hbest _ hinv.capped.le hinv.border
  rw [hstep]
  refine ⟨hinv, ?_, le_rfl⟩
  change _ < 2 * (s.i + 1) + _
  omega

theorem step : Invariant t maxNgram (s.step t maxNgram) ∧
    2 * s.i + (s.step t maxNgram).prevLps < 2 * (s.step t maxNgram).i + s.prevLps ∧
    (s.step t maxNgram).i ≤ s.i + 1 := by
  have hcapped := h.capped
  by_cases hmatch : t s.prevLps = t s.i
  · refine h.step_of_advance ?_ (border_succ_iff.mpr ⟨h.border, hmatch⟩)
      le_rfl fun w hw hborder heq => Nat.succ_le_succ (h.next w hw hborder heq)
    unfold NgramScan.step NgramScan.advance
    rw [if_pos hmatch]
    simp
  · by_cases hzero : s.prevLps = 0
    · refine h.step_of_advance ?_ (border_zero (Nat.succ_pos _)) (Nat.zero_le _)
        fun w hw hborder heq => ?_
      · have hunset : update s.lps s.i 0 = s.lps :=
          update_eq_self_iff.mpr (h.unset s.i le_rfl).symm
        have hne : 0 ≠ maxNgram := by omega
        unfold NgramScan.step NgramScan.advance
        rw [if_neg hmatch, hunset]
        simp [hzero, hne]
      · have hw := h.next w hw hborder heq
        rw [hzero, Nat.le_zero] at hw
        rw [hw, ← hzero] at heq
        exact absurd heq hmatch
    · have hstep : s.step t maxNgram = { s with prevLps := s.lps (s.prevLps - 1) } := by
        unfold NgramScan.step
        rw [if_neg hmatch, if_pos hzero]
      obtain ⟨hborder, hmax⟩ := h.lps s.prevLps (by omega) h.border.1.le hcapped.le
      rw [hstep]
      refine ⟨{ h with
        border := h.border.trans hborder
        capped := hborder.1.trans hcapped
        next := fun w hw hw' heq => ?_ }, ?_, Nat.le_succ _⟩
      · -- the border that has just failed is the only longer one
        rcases (h.next w hw hw' heq).lt_or_eq with hlt | rfl
        · exact hmax w (h.border.of_lt hw' hlt)
        · exact absurd heq hmatch
      · have := hborder.1
        change 2 * s.i + s.lps (s.prevLps - 1) < 2 * s.i + s.prevLps
        omega

omit h in
theorem run (fuel : Nat) (h : Invariant t maxNgram s) (hi : s.i ≤ totalToken)
    (hfuel : 2 * totalToken + s.prevLps ≤ fuel + 2 * s.i) :
    ∃ s', run t maxNgram totalToken fuel s = .ok s' ∧ Invariant t maxNgram s' ∧
      s'.i = totalToken := by
  induction fuel generalizing s with
  | zero =>
    have hdone : ¬ s.i < totalToken := by omega
    exact ⟨s, if_neg hdone, h, by omega⟩
  | succ fuel ih =>
    unfold run
    by_cases hdone : s.i < totalToken
    · obtain ⟨hinv, hpotential, hnext⟩ := h.step
      rw [if_pos hdone]
      exact ih hinv (by omega) (by omega)
    · exact ⟨s, if_neg hdone, h, by omega⟩

end Invariant

end NgramScan

/-! ### The proposal -/

/-- The last `n` tokens occur at `start`, with a token after them. -/
def Occurs (tokens : List Token) (n start : Nat) : Prop :=
  start + n < tokens.length ∧ ∀ j < n, tokens[start + j]? = tokens[tokens.length - n + j]?

/-- The earliest occurrence of the longest n-gram of a length in the range. -/
structure BestMatch (tokens : List Token) (minNgram maxNgram n start : Nat) : Prop where
  min_le : minNgram ≤ n
  le_max : n ≤ maxNgram
  occurs : Occurs tokens n start
  longest : ∀ n' start', minNgram ≤ n' → n' ≤ maxNgram → Occurs tokens n' start' → n' ≤ n
  earliest : ∀ start', Occurs tokens n start' → start ≤ start'

/-- `out` follows the best match, cut to `k` tokens and to the room in the model; it is empty when
there is no match, and when no token may be proposed. -/
def Proposes (minNgram maxNgram maxModelLen k : Nat) (tokens out : List Token) : Prop :=
  ((∃ n start, BestMatch tokens minNgram maxNgram n start ∧
      out = (tokens.drop (start + n)).take (min k (maxModelLen - tokens.length))) ∨
    out = [] ∧ ∀ n start, minNgram ≤ n → n ≤ maxNgram → ¬ Occurs tokens n start) ∧
  (out = [] ↔ k = 0 ∨ maxModelLen ≤ tokens.length ∨
    ∀ n start, minNgram ≤ n → n ≤ maxNgram → ¬ Occurs tokens n start)

variable {tokens : List Token} {minNgram maxNgram maxModelLen k n start : Nat}

theorem occurs_iff_border : Occurs tokens n start ↔
    Border (tokens.reverse.getD · 0) n (tokens.length - start) := by
  have hget : ∀ j < tokens.length,
      some (tokens.reverse.getD j 0) = tokens[tokens.length - 1 - j]? := by
    intro j hj
    rw [getD_eq_getElem?_getD, getElem?_reverse hj, getElem?_eq_getElem (by omega)]
    rfl
  have hrev : start + n < tokens.length → ∀ j < n,
      (tokens.reverse.getD (tokens.length - start - n + j) 0 = tokens.reverse.getD j 0 ↔
        tokens[start + (n - 1 - j)]? = tokens[tokens.length - n + (n - 1 - j)]?) := by
    intro hlen j hj
    rw [← Option.some.injEq, hget _ (by omega), hget _ (by omega),
      show tokens.length - 1 - (tokens.length - start - n + j) = start + (n - 1 - j) by omega,
      show tokens.length - 1 - j = tokens.length - n + (n - 1 - j) by omega]
  constructor
  · rintro ⟨hlen, hsame⟩
    exact ⟨by omega, fun j hj => (hrev hlen j hj).mpr (hsame _ (by omega))⟩
  · rintro ⟨hlt, hsame⟩
    have hlen : start + n < tokens.length := by omega
    refine ⟨hlen, fun j hj => ?_⟩
    have := (hrev hlen (n - 1 - j) (by omega)).mp (hsame _ (by omega))
    rwa [show n - 1 - (n - 1 - j) = j by omega] at this

theorem scan_spec (hmin : 0 < minNgram) (hmax : 0 < maxNgram) (hlen : minNgram ≤ tokens.length) :
    ∃ s, NgramScan.run (tokens.reverse.getD · 0) maxNgram tokens.length (2 * tokens.length) {} =
        .ok s ∧
      (minNgram ≤ s.longestNgram → BestMatch tokens minNgram maxNgram s.longestNgram
        (tokens.length - 1 - s.position)) ∧
      (s.longestNgram < minNgram → ∀ n start, minNgram ≤ n → n ≤ maxNgram →
        ¬ Occurs tokens n start) := by
  obtain ⟨s, hrun, hinv, hi⟩ := NgramScan.Invariant.run
    (2 * tokens.length) (.initial hmax) (hmin.trans_le hlen) (Nat.le_add_right _ _)
  have hlongest : ∀ n start, n ≤ maxNgram → Occurs tokens n start → n ≤ s.longestNgram :=
    fun n start hn hoccurs => hinv.longest _ (by omega) n hn (occurs_iff_border.mp hoccurs)
  refine ⟨s, hrun, fun hle => ?_, fun hlt n start hn hn' hoccurs => ?_⟩
  · have hne : s.longestNgram ≠ 0 := by omega
    obtain ⟨hborder, hpos⟩ := hinv.found hne
    refine ⟨hle, hinv.longest_le, occurs_iff_border.mpr ?_, fun n start _ => hlongest n start,
      fun start hoccurs => ?_⟩
    · rwa [show tokens.length - (tokens.length - 1 - s.position) = s.position + 1 by omega]
    · have := hinv.latest _ (by omega) hne (occurs_iff_border.mp hoccurs)
      omega
  · exact absurd (hlongest n start hn' hoccurs) (by omega)

theorem findLongest_proposes (tokens : List Token) (maxModelLen k : Nat) (hmin : 0 < minNgram)
    (hmax : 0 < maxNgram) : ∃ out, findLongestMatchedNgramAndProposeTokens tokens minNgram maxNgram
      maxModelLen k = .ok out ∧ Proposes minNgram maxNgram maxModelLen k tokens out := by
  unfold findLongestMatchedNgramAndProposeTokens
  dsimp only
  by_cases hlen : tokens.length < minNgram
  · have hnone : ∀ n start, minNgram ≤ n → n ≤ maxNgram → ¬ Occurs tokens n start :=
      fun n start hn _ hoccurs => by
        have := hoccurs.1
        omega
    rw [if_pos hlen]
    exact ⟨[], rfl, .inr ⟨rfl, hnone⟩, iff_of_true rfl (.inr (.inr hnone))⟩
  · obtain ⟨s, hrun, hfound, hnone⟩ := scan_spec hmin hmax (not_lt.mp hlen)
    rw [if_neg hlen, hrun, ok_bind]
    by_cases hmatch : s.longestNgram < minNgram
    · refine ⟨[], ?_, .inr ⟨rfl, hnone hmatch⟩, iff_of_true rfl (.inr (.inr (hnone hmatch)))⟩
      rw [if_pos hmatch, ite_self]
    · have hbest := hfound (not_lt.mp hmatch)
      have hinside := hbest.occurs.1
      refine ⟨_, ?_, .inl ⟨_, _, hbest, rfl⟩, ?_⟩
      · split
        · rename_i hzero
          rw [hzero, take_zero]
        · refine congrArg Except.ok (take_eq_take_iff.mpr ?_)
          rw [length_drop]
          omega
      · have hsome : ¬ ∀ n start, minNgram ≤ n → n ≤ maxNgram → ¬ Occurs tokens n start :=
          fun hall => hall _ _ hbest.min_le hbest.le_max hbest.occurs
        rw [take_eq_nil_iff, drop_eq_nil_iff, or_iff_left hsome]
        omega

/-! ### The batch -/

namespace NgramProposer

variable {numTokensNoSpec : Nat → Nat} {tokenIdsCpu : Nat → List Token}

/-- The buffers hold `out` for the request `i`. -/
def Holds (p : NgramProposer) (i : Nat) (out : List Token) : Prop :=
  (range (p.validNgramNumDrafts i)).map (p.validNgramDraft i) = out

theorem holds_store (p : NgramProposer) (i : Nat) (out : List Token) :
    (p.store i out).Holds i out := by
  unfold Holds store
  dsimp only
  rw [update_self, update_self]
  refine ext_getElem (by simp) fun j hj hj' => ?_
  rw [getElem_map, getElem_range, getD_eq_getElem _ _ hj']

theorem Holds.store {p : NgramProposer} {i idx : Nat} {out : List Token} (h : p.Holds i out)
    (hne : i ≠ idx) (out' : List Token) : (p.store idx out').Holds i out := by
  unfold Holds NgramProposer.store
  dsimp only
  rw [update_of_ne hne, update_of_ne hne]
  exact h

/-- In whatever order the iterations take effect, each leaves its own proposal in the buffers. -/
theorem batchProposeNumba_holds {outs : Nat → List Token} (order : List Nat) (p : NgramProposer)
    (houts : ∀ i, findLongestMatchedNgramAndProposeTokens
      ((tokenIdsCpu i).take (numTokensNoSpec i)) p.minN p.maxN p.maxModelLen p.k = .ok (outs i)) :
    ∃ p', p.batchProposeNumba numTokensNoSpec tokenIdsCpu order = .ok p' ∧
      ∀ i, i ∈ order ∨ p.Holds i (outs i) → p'.Holds i (outs i) := by
  induction order generalizing p with
  | nil => exact ⟨p, rfl, fun i hi => hi.resolve_left not_mem_nil⟩
  | cons idx order ih =>
    obtain ⟨p', hrun, hholds⟩ := ih (p.store idx (outs idx)) houts
    refine ⟨p', ?_, fun i hi => hholds i ?_⟩
    · unfold batchProposeNumba
      rw [foldlM_cons, houts idx, ok_bind, ok_bind]
      exact hrun
    · rcases eq_or_ne i idx with rfl | hne
      · exact .inr (p.holds_store i _)
      · exact hi.imp (fun hmem => (mem_cons.mp hmem).resolve_left hne) fun h => h.store hne _

end NgramProposer

/-- The proposal is what follows the earliest occurrence of the longest n-gram. Each request of a
batch with sampled tokens gets the one for its own tokens, the others none. -/
theorem ngram_proposal (p : NgramProposer) :
    (∀ tokens, ∃ out, findLongestMatchedNgramAndProposeTokens tokens p.minN p.maxN p.maxModelLen
      p.k = .ok out ∧ Proposes p.minN p.maxN p.maxModelLen p.k tokens out) ∧
    ∀ (numTokensNoSpec : Nat → Nat) (tokenIdsCpu : Nat → List Token)
      (sampledTokenIds : List (List Token)) (order : List Nat),
      (∀ i, (tokenIdsCpu i).length = p.maxModelLen) →
      order.Perm (p.validNgramRequests numTokensNoSpec sampledTokenIds) →
      ∃ drafts p', p.propose numTokensNoSpec tokenIdsCpu sampledTokenIds order = .ok (drafts, p') ∧
        drafts.length = sampledTokenIds.length ∧
        ∀ i sampled, sampledTokenIds[i]? = some sampled → ∃ out, drafts[i]? = some out ∧
          (sampled = [] → out = []) ∧
          (sampled ≠ [] → Proposes p.minN p.maxN p.maxModelLen p.k
            ((tokenIdsCpu i).take (numTokensNoSpec i)) out) := by
  have hfind := fun tokens =>
    findLongest_proposes tokens p.maxModelLen p.k p.minN_pos p.maxN_pos
  refine ⟨hfind, fun numTokensNoSpec tokenIdsCpu sampledTokenIds order hrows horder => ?_⟩
  choose outs houts hproposes using fun i => hfind ((tokenIdsCpu i).take (numTokensNoSpec i))
  obtain ⟨p', hrun, hholds⟩ := NgramProposer.batchProposeNumba_holds order p houts
  have hcall : (if (p.validNgramRequests numTokensNoSpec sampledTokenIds).length ≠ 0 then
      p.batchProposeNumba numTokensNoSpec tokenIdsCpu order else .ok p) = .ok p' := by
    by_cases hnone : (p.validNgramRequests numTokensNoSpec sampledTokenIds).length = 0
    · rw [if_neg (not_not.mpr hnone)]
      rw [eq_nil_of_length_eq_zero (horder.length_eq.trans hnone)] at hrun
      exact hrun
    · rw [if_pos hnone, hrun]
  unfold NgramProposer.propose NgramProposer.batchPropose
  rw [hcall, ok_bind]
  refine ⟨_, p', rfl, by simp, fun i sampled hi => ?_⟩
  have hlt : i < sampledTokenIds.length := (List.getElem?_eq_some_iff.mp hi).1
  have hvalid : i ∈ p.validNgramRequests numTokensNoSpec sampledTokenIds ↔
      sampled ≠ [] ∧ numTokensNoSpec i < p.maxModelLen := by
    rw [NgramProposer.validNgramRequests, mem_filter, getD_eq_getElem?_getD, hi]
    simp [hlt]
  refine ⟨_, by rw [getElem?_map, getElem?_range hlt]; rfl, fun hnil => ?_, fun hsome => ?_⟩
  · exact if_neg fun h => (hvalid.mp h.1).1 hnil
  · convert hproposes i using 1
    dsimp only
    by_cases hroom : numTokensNoSpec i < p.maxModelLen
    · have hmem := hvalid.mpr ⟨hsome, hroom⟩
      have hout : _ = outs i := hholds i (.inl (horder.mem_iff.mpr hmem))
      rw [← hout]
      split_ifs with hmany
      · rfl
      · rw [Nat.eq_zero_of_not_pos fun hpos => hmany ⟨hmem, hpos⟩]
        rfl
    · rw [if_neg fun h => hroom (hvalid.mp h.1).2]
      exact ((hproposes i).2.mpr (.inr (.inl (by rw [length_take, hrows]; omega)))).symm

def smallProposer : NgramProposer where
  minN := 1
  maxN := 2
  k := 4
  maxModelLen := 6
  minN_pos := Nat.one_pos
  maxN_pos := Nat.two_pos

/-- Three requests with the same tokens: the first one was not sampled, the last one is full. -/
theorem ngram_proposal_batch : ∃ drafts p',
    smallProposer.propose ([5, 5, 6].getD · 0) (fun _ => [1, 2, 3, 1, 2, 2]) [[], [2], [2]] [1] =
      .ok (drafts, p') ∧
    ∃ out, drafts[1]? = some out ∧ out ≠ [] := by
  obtain ⟨drafts, p', hrun, -, hout⟩ := (ngram_proposal smallProposer).2 ([5, 5, 6].getD · 0)
    (fun _ => [1, 2, 3, 1, 2, 2]) [[], [2], [2]] [1] (fun _ => rfl) (.refl _)
  obtain ⟨out, hget, -, hproposes⟩ := hout 1 [2] rfl
  refine ⟨drafts, p', hrun, out, hget, fun hnil => ?_⟩
  rcases (hproposes (by decide)).2.mp hnil with h | h | h
  · exact absurd h (by decide)
  · exact absurd h (by decide)
  · exact h 2 0 (by decide) le_rfl ⟨by decide, by decide⟩

/-- A sequence of the maximal length gets no proposal, though its last token occurs before. -/
theorem ngram_proposal_noRoom :
    findLongestMatchedNgramAndProposeTokens [1, 1] 1 1 2 1 = .ok [] ∧ Occurs [1, 1] 1 0 :=
  ⟨rfl, by decide, by decide⟩

end LongCtxSpecDecode
