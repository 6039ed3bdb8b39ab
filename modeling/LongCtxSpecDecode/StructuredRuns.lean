import LongCtxSpecDecode.StructuredOutput

/-!
# Runs of a request with structured output
-/

namespace LongCtxSpecDecode

open List

structure StructuredInput where
  promptTokenIds : List Token
  reasoningEnded : Option Bool := none

structure StructuredRound where
  scheduled : List Token
  generated : List Token
  /-- How many of the tokens `_update_request_with_output` keeps. -/
  numKept : Nat
  drafts : List Token

def StructuredRound.kept (r : StructuredRound) : List Token := r.generated.take r.numKept

/-- The parser that decides when the grammar comes in: none if the grammar holds from the start. -/
def StructuredConfig.gate (cfg : StructuredConfig) : Option Reasoner :=
  if cfg.enableInReasoning then none else cfg.reasoner

def contentFrom (reasoner : Reasoner) (past : List Token) : List Token → Option (List Token)
  | [] => none
  | t :: ts =>
    if reasoner.isReasoningEndStreaming (past ++ [t]) [t] then some ts
    else contentFrom reasoner (past ++ [t]) ts

def StructuredInput.content (inp : StructuredInput) (cfg : StructuredConfig)
    (outputs : List Token) : Option (List Token) :=
  match cfg.gate with
  | none => some outputs
  | some reasoner =>
    if inp.reasoningEnded.getD (reasoner.isReasoningEnd inp.promptTokenIds) then some outputs
    else contentFrom reasoner inp.promptTokenIds outputs

namespace StructuredRequest

variable {S : Type} (cfg : StructuredConfig) (g : Grammar S)

def init (inp : StructuredInput) : StructuredRequest S where
  promptTokenIds := inp.promptTokenIds
  reasoningEnded := inp.reasoningEnded

/-- A step: the bitmask, the update with the output, and the drafts for the next step. -/
def round (q : StructuredRequest S) (r : StructuredRound) :
    Except Exn (List TokenMask × StructuredRequest S) := do
  let (rows, q) ← q.grammarBitmask cfg g r.scheduled
  let q := q.updateFromOutput cfg g r.scheduled r.generated r.numKept
  .ok (rows, q.updateDraftTokenIds cfg g (r.generated = []) r.drafts)

/-- The emitted tokens after the end of the reasoning are accepted one after the other, and the
grammar is in the state that they lead to. -/
def Conforms (inp : StructuredInput) (q : StructuredRequest S) : Prop :=
  g.run g.start ((inp.content cfg q.outputTokenIds).getD []) = some (q.grammar.state g)

end StructuredRequest

namespace StructuredRound

variable {S : Type} (cfg : StructuredConfig) (g : Grammar S)

/-- The scheduled drafts come from those that the request holds; rejected ones are padding. -/
def Scheduled (q : StructuredRequest S) (r : StructuredRound) : Prop :=
  ∃ k m, r.scheduled = q.specTokenIds.take k ++ replicate m (-1)

/-- What the sampler keeps to: accepted drafts, then one more token, each allowed by its row. -/
structure Sampled (rows : List TokenMask) (r : StructuredRound) : Prop where
  accepted : r.generated.dropLast <+: r.scheduled
  tokens : -1 ∉ r.generated
  allowed : ∀ (j : Nat) (t : Token), r.generated[j]? = some t →
    ∃ row : TokenMask, rows[j]? = some row ∧ row t = true
  numKept_pos : 0 < r.numKept
  drafts : -1 ∉ r.drafts

def GoesOn (r : StructuredRound) : Prop := r.generated.length ≤ r.numKept

/-- If the reasoning ends in the step, then with its last token; and no token is emitted after the
grammar has terminated. -/
structure Clean (inp : StructuredInput) (q : StructuredRequest S) (r : StructuredRound) : Prop where
  reasoning : inp.content cfg q.outputTokenIds = none →
    inp.content cfg (q.outputTokenIds ++ r.kept.dropLast) = none
  live : ∀ j < r.kept.length, ∀ c s,
    inp.content cfg (q.outputTokenIds ++ r.kept.take j) = some c → g.run g.start c = some s →
      g.terminated s = false

end StructuredRound

inductive StructuredRun {S : Type} (cfg : StructuredConfig) (g : Grammar S) (inp : StructuredInput)
    (P : StructuredRequest S → StructuredRound → Prop) : StructuredRequest S → Bool → Prop where
  | init : StructuredRun cfg g inp P (.init inp) true
  | round {q q' : StructuredRequest S} {r : StructuredRound} {rows : List TokenMask} {goesOn : Bool}
      (hrun : StructuredRun cfg g inp P q true) (hscheduled : r.Scheduled q)
      (hround : q.round cfg g r = .ok (rows, q')) (hsampled : r.Sampled rows) (hP : P q r)
      (hgoesOn : goesOn = true → r.GoesOn) :
      StructuredRun cfg g inp P q' goesOn

/-! When the reasoning has ended. -/

section content

variable {cfg : StructuredConfig} {inp : StructuredInput}

theorem contentFrom_append (reasoner : Reasoner) (past ts ts' : List Token) :
    contentFrom reasoner past (ts ++ ts') =
      ((contentFrom reasoner past ts).map (· ++ ts')).or
        (contentFrom reasoner (past ++ ts) ts') := by
  induction ts generalizing past with
  | nil =>
    rw [append_nil]
    rfl
  | cons t ts ih =>
    have hrest := ih (past ++ [t])
    rw [append_assoc, singleton_append] at hrest
    by_cases hend : reasoner.isReasoningEndStreaming (past ++ [t]) [t] = true
    · have hsome : ∀ ts, contentFrom reasoner past (t :: ts) = some ts := fun _ => if_pos hend
      rw [cons_append, hsome, hsome]
      rfl
    · have hnone : ∀ ts, contentFrom reasoner past (t :: ts) =
          contentFrom reasoner (past ++ [t]) ts := fun _ => if_neg hend
      rw [cons_append, hnone, hnone, hrest]

theorem content_append {outputs c : List Token} (h : inp.content cfg outputs = some c)
    (ts : List Token) : inp.content cfg (outputs ++ ts) = some (c ++ ts) := by
  unfold StructuredInput.content at h ⊢
  cases hgate : cfg.gate with
  | none =>
    rw [hgate] at h
    obtain rfl := Option.some.inj h
    rfl
  | some reasoner =>
    rw [hgate] at h
    dsimp only at h ⊢
    by_cases hended : inp.reasoningEnded.getD (reasoner.isReasoningEnd inp.promptTokenIds) = true
    · rw [if_pos hended] at h ⊢
      obtain rfl := Option.some.inj h
      rfl
    · rw [if_neg hended] at h ⊢
      rw [contentFrom_append, h]
      rfl

theorem content_append_singleton {outputs : List Token} (h : inp.content cfg outputs = none)
    (t : Token) :
    ∃ reasoner, cfg.gate = some reasoner ∧ inp.content cfg (outputs ++ [t]) =
        if reasoner.isReasoningEndStreaming (inp.promptTokenIds ++ outputs ++ [t]) [t] then some []
        else none := by
  unfold StructuredInput.content at h ⊢
  cases hgate : cfg.gate with
  | none =>
    rw [hgate] at h
    cases h
  | some reasoner =>
    rw [hgate] at h
    dsimp only at h
    cases hended : inp.reasoningEnded.getD (reasoner.isReasoningEnd inp.promptTokenIds) with
    | true =>
      rw [hended] at h
      cases h
    | false =>
      rw [hended, if_neg Bool.false_ne_true] at h
      refine ⟨reasoner, rfl, ?_⟩
      dsimp only
      rw [hended, contentFrom_append, h]
      rfl

end content

namespace StructuredRequest

variable {S : Type} {cfg : StructuredConfig} {g : Grammar S} {inp : StructuredInput}
variable {q : StructuredRequest S} {r : StructuredRound}

variable {reasoner : Reasoner} {rows : List TokenMask} {q' : StructuredRequest S}

theorem shouldFillBitmask_eq (cfg : StructuredConfig) (q : StructuredRequest S) :
    q.shouldFillBitmask cfg =
      match cfg.gate with
      | none => (true, q)
      | some reasoner =>
        (q.reasoningEnded.getD (reasoner.isReasoningEnd q.promptTokenIds),
          { q with
            reasoningEnded :=
              some (q.reasoningEnded.getD (reasoner.isReasoningEnd q.promptTokenIds)) }) := by
  unfold shouldFillBitmask StructuredConfig.gate
  cases cfg.reasoner <;> cases cfg.enableInReasoning <;> rfl

theorem shouldAdvance_eq (cfg : StructuredConfig) (q : StructuredRequest S) :
    q.shouldAdvance cfg =
      match cfg.gate with
      | none => (true, q)
      | some reasoner =>
        if q.reasoningEnded = some true then (true, q)
        else (false, if reasoner.isReasoningEndStreaming q.allTokenIds
            (q.allTokenIds.drop q.numComputedTokens) = true
          then { q with reasoningEnded := some true } else q) := by
  unfold shouldAdvance StructuredConfig.gate
  cases cfg.reasoner with
  | none => cases cfg.enableInReasoning <;> rfl
  | some reasoner =>
    cases cfg.enableInReasoning with
    | true => rfl
    | false =>
      exact (if_neg Bool.false_ne_true).trans
        (if_congr Iff.rfl rfl (apply_ite (Prod.mk false) ..).symm)

theorem shouldAdvance_over
    (h : ∀ reasoner, cfg.gate = some reasoner → q.reasoningEnded = some true) :
    q.shouldAdvance cfg = (true, q) := by
  rw [shouldAdvance_eq]
  cases hgate : cfg.gate with
  | none => rfl
  | some reasoner => exact if_pos (h reasoner hgate)

theorem shouldAdvance_open (hgate : cfg.gate = some reasoner) (h : q.reasoningEnded = some false) :
    q.shouldAdvance cfg =
      (false, if reasoner.isReasoningEndStreaming q.allTokenIds
          (q.allTokenIds.drop q.numComputedTokens) = true
        then { q with reasoningEnded := some true } else q) := by
  rw [shouldAdvance_eq, hgate]
  exact if_neg (by rw [h]; decide)

theorem updateDraftTokenIds_grammar (cfg : StructuredConfig) (g : Grammar S)
    (q : StructuredRequest S) (isPrefillChunk : Bool)
    (drafts : List Token) :
    (q.updateDraftTokenIds cfg g isPrefillChunk drafts).grammar = q.grammar ∧
      (q.updateDraftTokenIds cfg g isPrefillChunk drafts).outputTokenIds = q.outputTokenIds := by
  have hadvance : (q.shouldAdvance cfg).2.grammar = q.grammar ∧
      (q.shouldAdvance cfg).2.outputTokenIds = q.outputTokenIds := by
    rw [shouldAdvance_eq]
    split
    · exact ⟨rfl, rfl⟩
    · split_ifs <;> exact ⟨rfl, rfl⟩
  unfold updateDraftTokenIds
  split
  · exact ⟨rfl, rfl⟩
  · dsimp only
    split
    · exact ⟨(XgrammarGrammar.validateTokens_spec ..).1.trans hadvance.1, hadvance.2⟩
    · exact hadvance

structure Tracks (cfg : StructuredConfig) (g : Grammar S) (inp : StructuredInput)
    (q : StructuredRequest S) : Prop where
  promptTokenIds : q.promptTokenIds = inp.promptTokenIds
  conforms : Conforms cfg g inp q
  flag : q.grammar.isTerminated = true → g.terminated (q.grammar.state g) = true
  tokens : -1 ∉ q.specTokenIds
  ended : ∀ reasoner, cfg.gate = some reasoner →
    q.reasoningEnded.getD (reasoner.isReasoningEnd q.promptTokenIds) =
      (inp.content cfg q.outputTokenIds).isSome
  valid : (inp.content cfg q.outputTokenIds).isSome →
    (g.run (q.grammar.state g) q.specTokenIds).isSome

structure Masked (cfg : StructuredConfig) (g : Grammar S) (inp : StructuredInput)
    (q : StructuredRequest S) (scheduled : List Token) (rows : List TokenMask)
    (q' : StructuredRequest S) : Prop where
  promptTokenIds : q'.promptTokenIds = inp.promptTokenIds
  outputTokenIds : q'.outputTokenIds = q.outputTokenIds
  state : q'.grammar.state g = q.grammar.state g
  flag : q'.grammar.isTerminated = true → g.terminated (q'.grammar.state g) = true
  ended : ∀ reasoner, cfg.gate = some reasoner →
    q'.reasoningEnded = some (inp.content cfg q.outputTokenIds).isSome
  masks : (inp.content cfg q.outputTokenIds).isSome → ∀ j ≤ scheduled.length, ∀ s,
    -1 ∉ scheduled.take j → g.run (q.grammar.state g) (scheduled.take j) = some s →
      g.terminated s = false → Masks g rows s j

theorem run_take {s s' : S} {ts : List Token} (h : g.run s ts = some s') (k : Nat) :
    (g.run s (ts.take k)).isSome := by
  rw [← take_append_drop k ts, Grammar.run_append] at h
  obtain ⟨s₁, h₁, -⟩ := Option.bind_eq_some_iff.mp h
  exact Option.isSome_iff_exists.mpr ⟨s₁, h₁⟩

theorem Tracks.shouldFillBitmask (h : Tracks cfg g inp q) :
    ∃ q₁, q.shouldFillBitmask cfg = ((inp.content cfg q.outputTokenIds).isSome, q₁) ∧
      q₁.promptTokenIds = q.promptTokenIds ∧ q₁.outputTokenIds = q.outputTokenIds ∧
      q₁.grammar = q.grammar ∧ ∀ reasoner, cfg.gate = some reasoner →
        q₁.reasoningEnded = some (inp.content cfg q.outputTokenIds).isSome := by
  rw [shouldFillBitmask_eq]
  cases hgate : cfg.gate with
  | none =>
    have hcontent : inp.content cfg q.outputTokenIds = some q.outputTokenIds := by
      unfold StructuredInput.content
      rw [hgate]
    rw [hcontent]
    exact ⟨q, rfl, rfl, rfl, rfl, nofun⟩
  | some reasoner =>
    rw [← h.ended reasoner hgate]
    exact ⟨_, rfl, rfl, rfl, rfl, fun _ _ => rfl⟩

theorem Tracks.grammarBitmask (h : Tracks cfg g inp q) (hscheduled : r.Scheduled q) :
    ∃ rows q', q.grammarBitmask cfg g r.scheduled = .ok (rows, q') ∧
      Masked cfg g inp q r.scheduled rows q' := by
  obtain ⟨k, m, hscheduled⟩ := hscheduled
  obtain ⟨q₁, hfill, hprompt, houtputs, hgrammar, hended⟩ := h.shouldFillBitmask
  have hstart : q.startState cfg g = if (inp.content cfg q.outputTokenIds).isSome &&
      !q.grammar.isTerminated then some (q.grammar.state g) else none := by
    rw [startState, hfill]
  have haccepted : DraftsAccepted g (q.startState cfg g) r.scheduled := by
    rw [hstart]
    split
    · rename_i hmask
      obtain ⟨s', hvalid⟩ := Option.isSome_iff_exists.mp
        (h.valid (Bool.and_eq_true_iff.mp hmask).1)
      rw [hscheduled]
      exact draftsAccepted_of_run (Or.inl rfl) (run_take hvalid k) m
    · intro j _ _ _ hnone
      rw [liveState_none] at hnone
      cases hnone
  have hrows := grammarBitmask_eq haccepted
  rw [hfill] at hrows
  refine ⟨_, q₁, hrows, hprompt.trans h.promptTokenIds, houtputs, by rw [hgrammar],
    by rw [hgrammar]; exact h.flag, hended, fun hcontent j hj s hpad hrun hlive => ?_⟩
  have hflag : q.grammar.isTerminated = false := by
    by_contra hflag
    have hstate := live_of_run hrun hlive
    rw [h.flag (by simpa using hflag)] at hstate
    cases hstate
  have hstate : liveState g (q.startState cfg g) (r.scheduled.take j) = some s := by
    rw [hstart, hcontent, hflag]
    exact liveState_of_run hpad hrun hlive
  refine ⟨maskOf g (some s), ?_, fun t ht => ht⟩
  rw [getElem?_map, getElem?_range (by omega), ← hstate]
  rfl

theorem take_kept (hsampled : r.Sampled rows) {j : Nat} (hj : j < r.kept.length) :
    r.kept.take j = r.scheduled.take j ∧ j ≤ r.scheduled.length ∧ -1 ∉ r.scheduled.take j ∧
      r.kept[j]? = r.generated[j]? := by
  unfold StructuredRound.kept at hj ⊢
  rw [length_take] at hj
  have hdrop : j ≤ r.generated.dropLast.length := by
    rw [length_dropLast]
    omega
  have hgenerated : r.generated.take j = r.scheduled.take j := by
    have hlast : r.generated.dropLast.take j = r.generated.take j := by
      rw [dropLast_eq_take, take_take, Nat.min_eq_left (by omega)]
    rw [← hlast, prefix_iff_eq_take.mp hsampled.accepted, take_take, Nat.min_eq_left hdrop]
  refine ⟨?_, Nat.le_trans hdrop hsampled.accepted.length_le, ?_, ?_⟩
  · rw [take_take, Nat.min_eq_left (by omega), hgenerated]
  · rw [← hgenerated]
    exact fun hmem => hsampled.tokens (mem_of_mem_take hmem)
  · rw [getElem?_take_of_lt (by omega)]

theorem Conforms.run {c : List Token} (h : Conforms cfg g inp q)
    (hc : inp.content cfg q.outputTokenIds = some c) :
    g.run g.start c = some (q.grammar.state g) := by
  unfold Conforms at h
  rw [hc] at h
  exact h

theorem Masked.run_kept (h : Masked cfg g inp q r.scheduled rows q')
    (hconforms : Conforms cfg g inp q) (hsampled : r.Sampled rows) (hclean : r.Clean cfg g inp q)
    {c : List Token} (hc : inp.content cfg q.outputTokenIds = some c) (j : Nat)
    (hj : j ≤ r.kept.length) : ∃ s, g.run (q.grammar.state g) (r.kept.take j) = some s := by
  induction j with
  | zero => exact ⟨_, rfl⟩
  | succ j ih =>
    obtain ⟨s, hs⟩ := ih (Nat.le_of_succ_le hj)
    obtain ⟨htake, hle, hpad, hget⟩ := take_kept hsampled hj
    have hlive : g.terminated s = false := by
      refine hclean.live j hj _ s (content_append hc _) ?_
      rw [Grammar.run_append, hconforms.run hc]
      exact hs
    rw [htake] at hs
    obtain ⟨row, hrow, hallowed⟩ := h.masks (hc ▸ rfl) j hle s hpad hs hlive
    have hkept : r.kept[j]? = some r.kept[j] := getElem?_eq_getElem hj
    obtain ⟨row', hrow', htrue⟩ := hsampled.allowed j r.kept[j] (hget ▸ hkept)
    cases hrow.symm.trans hrow'
    obtain ⟨s', hs'⟩ := Option.isSome_iff_exists.mp (hallowed _ htrue)
    refine ⟨s', ?_⟩
    rw [take_add_one, hkept, Grammar.run_append, htake, hs]
    change (g.accept s r.kept[j]).bind _ = _
    rw [hs']
    rfl

structure Updated (cfg : StructuredConfig) (g : Grammar S) (inp : StructuredInput)
    (r : StructuredRound) (q : StructuredRequest S) : Prop where
  promptTokenIds : q.promptTokenIds = inp.promptTokenIds
  conforms : Conforms cfg g inp q
  flag : q.grammar.isTerminated = true → g.terminated (q.grammar.state g) = true
  ended : r.GoesOn → ∀ reasoner, cfg.gate = some reasoner →
    q.reasoningEnded = some (inp.content cfg q.outputTokenIds).isSome
  delta : r.GoesOn → r.generated ≠ [] → ∀ reasoner, cfg.gate = some reasoner →
    inp.content cfg q.outputTokenIds = none →
      reasoner.isReasoningEndStreaming q.allTokenIds (q.allTokenIds.drop q.numComputedTokens) =
        false

theorem drop_numComputedTokens (hsampled : r.Sampled rows) (hgoesOn : r.GoesOn)
    (hne : r.generated ≠ []) (past : List Token) :
    (past ++ r.kept).drop (if r.scheduled ≠ [] ∧ r.generated ≠ [] then
        past.length + r.scheduled.length - (r.scheduled.length - (r.generated.length - 1))
      else past.length + r.scheduled.length) = [r.generated.getLast hne] := by
  have hkept : r.kept = r.generated := take_of_length_le hgoesOn
  have hle : r.generated.length - 1 ≤ r.scheduled.length := by
    have h := hsampled.accepted.length_le
    rwa [length_dropLast] at h
  have hcount : (if r.scheduled ≠ [] ∧ r.generated ≠ [] then
        past.length + r.scheduled.length - (r.scheduled.length - (r.generated.length - 1))
      else past.length + r.scheduled.length) = past.length + (r.generated.length - 1) := by
    by_cases hdrafts : r.scheduled = []
    · rw [if_neg fun h => h.1 hdrafts, hdrafts, length_nil]
      rw [hdrafts, length_nil] at hle
      omega
    · rw [if_pos ⟨hdrafts, hne⟩]
      omega
  rw [hcount, hkept, drop_append, drop_of_length_le (by omega), nil_append,
    Nat.add_sub_cancel_left, drop_length_sub_one hne]

/-- The request with the new tokens, before `should_advance`. -/
def appended (q : StructuredRequest S) (r : StructuredRound) : StructuredRequest S :=
  { q with
    outputTokenIds := q.outputTokenIds ++ r.kept
    numComputedTokens := if r.scheduled ≠ [] ∧ r.generated ≠ [] then
      q.allTokenIds.length + r.scheduled.length - (r.scheduled.length - (r.generated.length - 1))
      else q.allTokenIds.length + r.scheduled.length }

theorem updateFromOutput_eq (q : StructuredRequest S) (r : StructuredRound) :
    q.updateFromOutput cfg g r.scheduled r.generated r.numKept =
      if r.kept ≠ [] then
        if ((q.appended r).shouldAdvance cfg).1 then
          { ((q.appended r).shouldAdvance cfg).2 with
            grammar := (((q.appended r).shouldAdvance cfg).2.grammar.acceptTokens g r.kept).1 }
        else ((q.appended r).shouldAdvance cfg).2
      else q.appended r := rfl

theorem kept_ne_nil (hsampled : r.Sampled rows) (hne : r.generated ≠ []) : r.kept ≠ [] := by
  intro hnil
  rcases take_eq_nil_iff.mp hnil with hzero | hnil
  · exact Nat.ne_of_gt hsampled.numKept_pos hzero
  · exact hne hnil

section update

variable {rows : List TokenMask} {q' : StructuredRequest S}
  (h : Masked cfg g inp q r.scheduled rows q') (hconforms : Conforms cfg g inp q)
  (hsampled : r.Sampled rows)

include h hconforms hsampled

theorem Masked.updated_nil (hkept : r.kept = []) : Updated cfg g inp r (q'.appended r) := by
  have hnil : r.generated = [] := by
    by_contra hne
    exact kept_ne_nil hsampled hne hkept
  have houtputs : (q'.appended r).outputTokenIds = q.outputTokenIds := by
    change q'.outputTokenIds ++ r.kept = _
    rw [hkept, append_nil, h.outputTokenIds]
  refine ⟨h.promptTokenIds, ?_, h.flag, fun _ reasoner hgate => ?_, fun _ hne => absurd hnil hne⟩
  · unfold Conforms at hconforms ⊢
    rw [houtputs]
    exact hconforms.trans (congrArg some h.state.symm)
  · rw [houtputs]
    exact h.ended reasoner hgate

variable (hclean : r.Clean cfg g inp q)

include hclean

theorem Masked.updated_over (hkept : r.kept ≠ []) {c : List Token}
    (hc : inp.content cfg q.outputTokenIds = some c) :
    Updated cfg g inp r
      { q'.appended r with grammar := ((q'.appended r).grammar.acceptTokens g r.kept).1 } := by
  have hcontent : inp.content cfg (q'.outputTokenIds ++ r.kept) = some (c ++ r.kept) := by
    rw [h.outputTokenIds]
    exact content_append hc _
  have hstart := hconforms.run hc
  obtain ⟨s, hs⟩ := h.run_kept hconforms hsampled hclean hc r.kept.length (Nat.le_refl _)
  rw [take_length] at hs
  have hlive : q'.grammar.isTerminated = false := by
    cases hflag : q'.grammar.isTerminated with
    | false => rfl
    | true =>
      have hterminated := hclean.live 0 (length_pos_iff.mpr hkept) c (q.grammar.state g)
        (by rw [take_zero, append_nil]; exact hc) hstart
      rw [← h.state, h.flag hflag] at hterminated
      cases hterminated
  obtain ⟨hstate, hflag⟩ := XgrammarGrammar.acceptTokens_state hlive (by rw [h.state]; exact hs)
  refine ⟨h.promptTokenIds, ?_, fun hterminated => ?_, fun _ reasoner hgate => ?_,
    fun _ _ _ _ hnone => ?_⟩
  · change g.run g.start ((inp.content cfg (q'.outputTokenIds ++ r.kept)).getD []) = _
    rw [hcontent]
    change g.run g.start (c ++ r.kept) = some ((q'.grammar.acceptTokens g r.kept).1.state g)
    rw [Grammar.run_append, hstart, hstate]
    exact hs
  · change g.terminated ((q'.grammar.acceptTokens g r.kept).1.state g) = true
    rw [hstate, ← hflag]
    exact hterminated
  · change q'.reasoningEnded = some (inp.content cfg (q'.outputTokenIds ++ r.kept)).isSome
    rw [h.ended reasoner hgate, hc, hcontent]
    rfl
  · cases hcontent.symm.trans hnone

theorem Masked.updated_open (hkept : r.kept ≠ []) (hc : inp.content cfg q.outputTokenIds = none)
    {reasoner : Reasoner} (hgate : cfg.gate = some reasoner) :
    Updated cfg g inp r
      (if reasoner.isReasoningEndStreaming (q'.appended r).allTokenIds
          ((q'.appended r).allTokenIds.drop (q'.appended r).numComputedTokens) = true
        then { q'.appended r with reasoningEnded := some true } else q'.appended r) := by
  have hprompt := h.promptTokenIds
  have hended := h.ended reasoner hgate
  rw [hc] at hended
  -- the reasoning has not ended before the last token
  have hbefore := hclean.reasoning hc
  obtain ⟨reasoner', hgate', hlast⟩ := content_append_singleton hbefore (r.kept.getLast hkept)
  cases hgate.symm.trans hgate'
  have houtputs : q.outputTokenIds ++ r.kept.dropLast ++ [r.kept.getLast hkept] =
      q'.outputTokenIds ++ r.kept := by
    rw [append_assoc, dropLast_append_getLast hkept, h.outputTokenIds]
  have hall :
      inp.promptTokenIds ++ (q.outputTokenIds ++ r.kept.dropLast) ++ [r.kept.getLast hkept] =
      (q'.appended r).allTokenIds := by
    rw [append_assoc, houtputs, ← hprompt]
    rfl
  rw [houtputs, hall] at hlast
  have hempty : (inp.content cfg (q'.outputTokenIds ++ r.kept)).getD [] = [] := by
    rw [hlast]
    split <;> rfl
  have hconforms' : g.run g.start ((inp.content cfg (q'.outputTokenIds ++ r.kept)).getD []) =
      some (q'.grammar.state g) := by
    unfold Conforms at hconforms
    rw [hc, ← h.state] at hconforms
    rw [hempty]
    exact hconforms
  -- the parser gets the last token as the delta
  have hdelta : r.GoesOn → r.generated ≠ [] →
      (q'.appended r).allTokenIds.drop (q'.appended r).numComputedTokens =
        [r.kept.getLast hkept] := by
    intro hgoesOn hne
    have hdrop := drop_numComputedTokens hsampled hgoesOn hne q'.allTokenIds
    have hkeptAll : r.kept = r.generated := take_of_length_le hgoesOn
    have hgetLast : r.kept.getLast hkept = r.generated.getLast hne := by simp only [hkeptAll]
    rw [hgetLast, ← hdrop]
    unfold allTokenIds appended
    rw [← append_assoc]
    rfl
  have hgenerated : r.generated ≠ [] := by
    intro hnil
    refine hkept ?_
    unfold StructuredRound.kept
    rw [hnil, take_nil]
  split
  · next hend =>
      refine ⟨hprompt, hconforms', h.flag, fun hgoesOn _ _ => ?_, fun hgoesOn hne _ _ hnone => ?_⟩
      · rw [hdelta hgoesOn hgenerated] at hend
        change some true = some (inp.content cfg (q'.outputTokenIds ++ r.kept)).isSome
        rw [hlast, if_pos hend]
        rfl
      · rw [hdelta hgoesOn hne] at hend
        rw [if_pos hend] at hlast
        cases hlast.symm.trans hnone
  · next hopen =>
      refine ⟨hprompt, hconforms', h.flag, fun hgoesOn reasoner₂ hgate₂ => ?_,
        fun _ _ reasoner₂ hgate₂ _ => ?_⟩
      · rw [hdelta hgoesOn hgenerated] at hopen
        change q'.reasoningEnded = some (inp.content cfg (q'.outputTokenIds ++ r.kept)).isSome
        rw [hlast, if_neg hopen]
        exact hended
      · cases hgate.symm.trans hgate₂
        exact Bool.eq_false_iff.mpr hopen

end update

theorem Masked.updateFromOutput (h : Masked cfg g inp q r.scheduled rows q')
    (hconforms : Conforms cfg g inp q) (hsampled : r.Sampled rows) (hclean : r.Clean cfg g inp q) :
    Updated cfg g inp r (q'.updateFromOutput cfg g r.scheduled r.generated r.numKept) := by
  rw [updateFromOutput_eq]
  by_cases hkept : r.kept = []
  · rw [if_neg (not_not.mpr hkept)]
    exact h.updated_nil hconforms hsampled hkept
  · rw [if_pos hkept]
    cases hc : inp.content cfg q.outputTokenIds with
    | some c =>
      have hadvance : (q'.appended r).shouldAdvance cfg = (true, q'.appended r) := by
        refine shouldAdvance_over fun reasoner hgate => ?_
        have hended := h.ended reasoner hgate
        rw [hc] at hended
        exact hended
      rw [hadvance]
      exact h.updated_over hconforms hsampled hclean hkept hc
    | none =>
      obtain ⟨reasoner, hgate, -⟩ := content_append_singleton hc 0
      have hended : (q'.appended r).reasoningEnded = some false := by
        have hended := h.ended reasoner hgate
        rw [hc] at hended
        exact hended
      rw [shouldAdvance_open hgate hended]
      exact h.updated_open hconforms hsampled hclean hkept hc hgate

theorem Updated.tracks (h : Updated cfg g inp r q) (hgoesOn : r.GoesOn)
    (hsampled : r.Sampled rows) :
    Tracks cfg g inp (q.updateDraftTokenIds cfg g (r.generated = []) r.drafts) := by
  by_cases hnil : r.generated = []
  · rw [updateDraftTokenIds, if_pos (decide_eq_true hnil)]
    refine ⟨h.promptTokenIds, h.conforms, h.flag, by simp, fun reasoner hgate => ?_, fun _ => rfl⟩
    rw [h.ended hgoesOn reasoner hgate]
    rfl
  · rw [updateDraftTokenIds, if_neg (by rw [decide_eq_true_iff]; exact hnil)]
    have hended : ∀ reasoner, cfg.gate = some reasoner →
        q.reasoningEnded.getD (reasoner.isReasoningEnd q.promptTokenIds) =
          (inp.content cfg q.outputTokenIds).isSome := by
      intro reasoner hgate
      rw [h.ended hgoesOn reasoner hgate]
      rfl
    cases hc : inp.content cfg q.outputTokenIds with
    | some c =>
      have hadvance : q.shouldAdvance cfg = (true, q) := by
        refine shouldAdvance_over fun reasoner hgate => ?_
        rw [h.ended hgoesOn reasoner hgate, hc]
        rfl
      obtain ⟨hgrammar, hlead, hvalid⟩ :=
        XgrammarGrammar.validateTokens_spec q.grammar r.drafts
      rw [hadvance]
      dsimp only
      rw [if_pos rfl, hgrammar]
      exact ⟨h.promptTokenIds, h.conforms, h.flag,
        fun hmem => hsampled.drafts (hlead.subset hmem), hended, fun _ => hvalid⟩
    | none =>
      obtain ⟨reasoner, hgate, -⟩ := content_append_singleton hc 0
      have hopen := h.ended hgoesOn reasoner hgate
      rw [hc] at hopen
      rw [shouldAdvance_open hgate hopen, h.delta hgoesOn hnil reasoner hgate hc,
        if_neg Bool.false_ne_true]
      dsimp only
      rw [if_neg Bool.false_ne_true]
      refine ⟨h.promptTokenIds, h.conforms, h.flag, hsampled.drafts, hended, fun hsome => ?_⟩
      rw [hc] at hsome
      cases hsome

theorem tracks_init (inp : StructuredInput) : Tracks cfg g inp (init inp) := by
  have hcontent : (inp.content cfg []).getD [] = [] := by
    unfold StructuredInput.content
    split
    · rfl
    · split <;> rfl
  refine ⟨rfl, ?_, by simp [init], by simp [init], fun reasoner hgate => ?_, fun _ => rfl⟩
  · change g.run g.start ((inp.content cfg []).getD []) = some g.start
    rw [hcontent]
    rfl
  · unfold StructuredInput.content
    rw [hgate]
    dsimp only [init]
    cases inp.reasoningEnded.getD (reasoner.isReasoningEnd inp.promptTokenIds) <;> rfl

theorem Tracks.round (h : Tracks cfg g inp q) (hscheduled : r.Scheduled q)
    (hclean : r.Clean cfg g inp q) (hround : q.round cfg g r = .ok (rows, q'))
    (hsampled : r.Sampled rows) : Conforms cfg g inp q' ∧ (r.GoesOn → Tracks cfg g inp q') := by
  obtain ⟨rows', q₁, hmask, hmasked⟩ := h.grammarBitmask hscheduled
  have hresult : q.round cfg g r = .ok (rows',
      (q₁.updateFromOutput cfg g r.scheduled r.generated r.numKept).updateDraftTokenIds cfg g
        (r.generated = []) r.drafts) := bind_eq_ok.mpr ⟨_, hmask, rfl⟩
  cases hresult.symm.trans hround
  have hupdated := hmasked.updateFromOutput h.conforms hsampled hclean
  refine ⟨?_, fun hgoesOn => hupdated.tracks hgoesOn hsampled⟩
  obtain ⟨hgrammar, houtputs⟩ := updateDraftTokenIds_grammar cfg g
    (q₁.updateFromOutput cfg g r.scheduled r.generated r.numKept) (r.generated = []) r.drafts
  unfold Conforms
  rw [hgrammar, houtputs]
  exact hupdated.conforms

theorem run_tracks {goesOn : Bool}
    (hrun : StructuredRun cfg g inp (fun q r => r.Clean cfg g inp q) q goesOn) :
    Conforms cfg g inp q ∧ (goesOn = true → Tracks cfg g inp q) := by
  induction hrun with
  | init => exact ⟨(tracks_init inp).conforms, fun _ => tracks_init inp⟩
  | round hrun hscheduled hround hsampled hclean hgoesOn ih =>
    obtain ⟨hconforms, htracks⟩ := (ih.2 rfl).round hscheduled hclean hround hsampled
    exact ⟨hconforms, fun h => htracks (hgoesOn h)⟩

end StructuredRequest

open StructuredRequest

/-- If in every step the reasoning ends with the last token or not at all, and no token is emitted
after the grammar has terminated, then the output conforms after every step, and the bitmask of the
next step can be made. -/
theorem structured_run_conforms {S : Type} (cfg : StructuredConfig) (g : Grammar S)
    (inp : StructuredInput) (q : StructuredRequest S) (goesOn : Bool)
    (hrun : StructuredRun cfg g inp (fun q r => r.Clean cfg g inp q) q goesOn) :
    Conforms cfg g inp q ∧ (goesOn = true → ∀ r : StructuredRound, r.Scheduled q →
      ∃ rows q', q.round cfg g r = .ok (rows, q')) := by
  obtain ⟨hconforms, htracks⟩ := run_tracks hrun
  refine ⟨hconforms, fun hgoesOn r hscheduled => ?_⟩
  obtain ⟨rows, q₁, hmask, -⟩ := (htracks hgoesOn).grammarBitmask hscheduled
  exact ⟨rows, _, bind_eq_ok.mpr ⟨_, hmask, rfl⟩⟩

/-- `BaseThinkingReasoningParser`. -/
def thinkingParser (startTokenId endTokenId : Token) : Reasoner where
  isReasoningEnd inputIds :=
    inputIds.reverse.find? (fun t => t = startTokenId ∨ t = endTokenId) == some endTokenId
  isReasoningEndStreaming _ deltaIds := endTokenId ∈ deltaIds

def thinkingConfig : StructuredConfig := ⟨some (thinkingParser 8 9), false⟩

/-- The answer `1`, `2`. -/
def shortGrammar : Grammar Nat where
  start := 0
  accept s t := if s = 0 ∧ t = 1 then some 1 else if s = 1 ∧ t = 2 then some 2 else none
  terminated s := s = 2
  accept_of_terminated s t h := by
    obtain rfl : s = 2 := by simpa using h
    simp

theorem sampled_of_full {r : StructuredRound} {n : Nat}
    (haccepted : r.generated.dropLast <+: r.scheduled)
    (htokens : -1 ∉ r.generated) (hlength : r.generated.length ≤ n) (hkept : 0 < r.numKept)
    (hdrafts : -1 ∉ r.drafts) : r.Sampled (replicate n fun _ => true) where
  accepted := haccepted
  tokens := htokens
  allowed j t hj := by
    have hlt := (List.getElem?_eq_some_iff.mp hj).1
    exact ⟨_, getElem?_replicate_of_lt (Nat.lt_of_lt_of_le hlt hlength), rfl⟩
  numKept_pos := hkept
  drafts := hdrafts

/-- The reasoning ends with an accepted draft, two tokens before the end of the step: the step is
not masked, and the parser that looks at the last token misses the end. -/
theorem not_conforms_of_draft_end :
    ∃ q : StructuredRequest Nat,
      StructuredRun thinkingConfig shortGrammar ⟨[7], none⟩ (fun _ _ => True) q true ∧
        q.outputTokenIds = [5, 9, 3, 4] ∧ ¬Conforms thinkingConfig shortGrammar ⟨[7], none⟩ q := by
  refine ⟨_, .round (.round .init ⟨0, 0, rfl⟩ (r := ⟨[], [5], 1, [9, 3]⟩) rfl ?_ trivial
    fun _ => Nat.le_refl 1) ⟨2, 0, rfl⟩ (r := ⟨[9, 3], [9, 3, 4], 3, []⟩) rfl ?_ trivial
    fun _ => Nat.le_refl 3, rfl, ?_⟩
  · change StructuredRound.Sampled (replicate 1 fun _ => true) _
    exact sampled_of_full (by decide) (by decide) (by decide) (by decide) (by decide)
  · change StructuredRound.Sampled (replicate 3 fun _ => true) _
    exact sampled_of_full (by decide) (by decide) (by decide) (by decide) (by decide)
  · unfold Conforms
    decide

/-- The reasoning ends with the last token of a step; the draft for the next step is accepted. -/
theorem structured_run_conforms_short :
    ∃ q : StructuredRequest Nat, q.outputTokenIds = [9, 1, 2] ∧
      Conforms thinkingConfig shortGrammar ⟨[7], none⟩ q := by
  refine ⟨_, ?_, (structured_run_conforms thinkingConfig shortGrammar ⟨[7], none⟩ _ true
    (.round (.round .init ⟨0, 0, rfl⟩ (r := ⟨[], [9], 1, [1]⟩) rfl ?_ ?_ fun _ => Nat.le_refl 1)
      ⟨1, 0, rfl⟩ (r := ⟨[1], [1, 2], 2, []⟩) rfl ?_ ?_ fun _ => Nat.le_refl 2)).1⟩
  · rfl
  · change StructuredRound.Sampled (replicate 1 fun _ => true) _
    exact sampled_of_full (by decide) (by decide) (by decide) (by decide) (by decide)
  · refine ⟨fun _ => rfl, fun j hj c s hc _ => ?_⟩
    obtain rfl : j = 0 := Nat.lt_one_iff.mp hj
    cases hc
  · refine ⟨by decide, by decide, fun j t hj => ?_, by decide, by decide⟩
    match j, hj with
    | 0, rfl | 1, rfl => exact ⟨_, rfl, rfl⟩
  · refine ⟨nofun, fun j hj c s hc hs => ?_⟩
    match j, hj with
    | 0, _ | 1, _ =>
      cases hc
      cases hs
      rfl

end LongCtxSpecDecode
