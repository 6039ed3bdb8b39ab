import LongCtxSpecDecode.Request

/-!
# Structured output with drafts

The grammar of one request over its steps: `v1/structured_output/__init__.py` with the matcher of
`backend_xgrammar.py`, and the calls to it of the scheduler. The matcher itself is the library's: a
transition function on its states. A mask allows the tokens that the matcher accepts.
-/

namespace LongCtxSpecDecode

open List

structure Grammar (S : Type) where
  start : S
  /-- `matcher.accept_token`. -/
  accept : S → Token → Option S
  terminated : S → Bool
  accept_of_terminated : ∀ s t, terminated s = true → accept s t = none

namespace Grammar

variable {S : Type} (g : Grammar S)

def run (s : S) : List Token → Option S
  | [] => some s
  | t :: ts => (g.accept s t).bind fun s => run s ts

theorem run_append (s : S) (ts ts' : List Token) :
    g.run s (ts ++ ts') = (g.run s ts).bind fun s => g.run s ts' := by
  induction ts generalizing s with
  | nil => rfl
  | cons t ts ih =>
    change (g.accept s t).bind _ = ((g.accept s t).bind _).bind _
    rw [Option.bind_assoc]
    exact Option.bind_congr fun s _ => ih s

end Grammar

/-- `XgrammarGrammar`: the states that the matcher has reached, the newest first, and its flag. -/
structure XgrammarGrammar (S : Type) where
  matcher : List S := []
  isTerminated : Bool := false

namespace XgrammarGrammar

variable {S : Type} (g : Grammar S) (x : XgrammarGrammar S)

def state : S := x.matcher.headD g.start

/-- The loop of `accept_tokens`. -/
def acceptLoop (x : XgrammarGrammar S) : List Token → XgrammarGrammar S × Bool
  | [] => ({ x with isTerminated := g.terminated (x.state g) }, true)
  | t :: ts =>
    match g.accept (x.state g) t with
    | none => (x, false)
    | some s => acceptLoop { x with matcher := s :: x.matcher } ts

def acceptTokens (tokens : List Token) : XgrammarGrammar S × Bool :=
  if x.isTerminated then (x, false) else acceptLoop g x tokens

/-- `matcher.rollback`. -/
def rollbackMatcher (numTokens : Nat) : XgrammarGrammar S :=
  { x with matcher := x.matcher.drop numTokens }

def rollback (numTokens : Nat) : XgrammarGrammar S :=
  let x := x.rollbackMatcher numTokens
  { x with isTerminated := g.terminated (x.state g) }

/-- The loop of `validate_tokens`. -/
def validateLoop (x : XgrammarGrammar S) (acceptedTokens : List Token) :
    List Token → XgrammarGrammar S × List Token
  | [] => (x, acceptedTokens)
  | t :: ts =>
    match g.accept (x.state g) t with
    | none => (x, acceptedTokens)
    | some s => validateLoop { x with matcher := s :: x.matcher } (acceptedTokens ++ [t]) ts

def validateTokens (tokens : List Token) : XgrammarGrammar S × List Token :=
  let result := validateLoop g x [] tokens
  if result.2.length > 0 then (result.1.rollbackMatcher result.2.length, result.2) else result

end XgrammarGrammar

structure Reasoner where
  isReasoningEnd : List Token → Bool
  isReasoningEndStreaming : List Token → List Token → Bool

/-- The configuration of `StructuredOutputManager`. -/
structure StructuredConfig where
  reasoner : Option Reasoner
  enableInReasoning : Bool

abbrev TokenMask := Token → Bool

structure StructuredRequest (S : Type) where
  promptTokenIds : List Token
  outputTokenIds : List Token := []
  /-- `num_computed_tokens - num_output_placeholders`. -/
  numComputedTokens : Nat := 0
  specTokenIds : List Token := []
  reasoningEnded : Option Bool
  grammar : XgrammarGrammar S := {}

namespace StructuredRequest

variable {S : Type} (cfg : StructuredConfig) (g : Grammar S) (q : StructuredRequest S)

def allTokenIds : List Token := q.promptTokenIds ++ q.outputTokenIds

/-- `should_fill_bitmask`, with the flag that it sets. -/
def shouldFillBitmask : Bool × StructuredRequest S :=
  match cfg.reasoner with
  | none => (true, q)
  | some reasoner =>
    if cfg.enableInReasoning then (true, q)
    else
      let ended := q.reasoningEnded.getD (reasoner.isReasoningEnd q.promptTokenIds)
      (ended, { q with reasoningEnded := some ended })

/-- `should_advance`, with the flag that it sets. -/
def shouldAdvance : Bool × StructuredRequest S :=
  match cfg.reasoner with
  | none => (true, q)
  | some reasoner =>
    if cfg.enableInReasoning then (true, q)
    else if q.reasoningEnded = some true then (true, q)
    else
      let deltaFrom := q.numComputedTokens
      if reasoner.isReasoningEndStreaming q.allTokenIds (q.allTokenIds.drop deltaFrom) then
        (false, { q with reasoningEnded := some true })
      else
        (false, q)

/-- `_fill_bitmasks`, one row. -/
def fillBitmask (x : XgrammarGrammar S) (applyBitmask : Bool) : TokenMask := fun t =>
  if applyBitmask && !x.isTerminated then (g.accept (x.state g) t).isSome else true

/-- The loop of `grammar_bitmask` over the drafts: the rows, the grammar and
`state_advancements`. -/
def fillRows (applyBitmask : Bool) (x : XgrammarGrammar S) (stateAdvancements : Nat) :
    List Token → Except Exn (List TokenMask × XgrammarGrammar S × Nat)
  | [] => .ok ([fillBitmask g x applyBitmask], x, stateAdvancements)
  | token :: tokens =>
    let row := fillBitmask g x applyBitmask
    let applyBitmask := if token = -1 then false else applyBitmask
    if applyBitmask && !x.isTerminated then
      let accepted := x.acceptTokens g [token]
      if accepted.2 then do
        let (rows, result) ← fillRows applyBitmask accepted.1 (stateAdvancements + 1) tokens
        .ok (row :: rows, result)
      else
        .error (.assertionError "")
    else do
      let (rows, result) ← fillRows applyBitmask x stateAdvancements tokens
      .ok (row :: rows, result)

/-- `grammar_bitmask`, the rows of this request. -/
def grammarBitmask (scheduled : List Token) :
    Except Exn (List TokenMask × StructuredRequest S) := do
  let (applyBitmask, q) := q.shouldFillBitmask cfg
  let (rows, grammar, stateAdvancements) ← fillRows g applyBitmask q.grammar 0 scheduled
  let grammar := if stateAdvancements > 0 then grammar.rollback g stateAdvancements else grammar
  .ok (rows, { q with grammar })

/-- The part of `update_from_output` for this request. A step that samples has computed all tokens
and the scheduled drafts. Of the sampled tokens, the first `numKept` are kept. -/
def updateFromOutput (scheduled generated : List Token) (numKept : Nat) : StructuredRequest S :=
  let numComputedTokens := q.allTokenIds.length + scheduled.length
  let numAccepted := generated.length - 1
  let numRejected := scheduled.length - numAccepted
  let numComputedTokens :=
    if scheduled ≠ [] ∧ generated ≠ [] then numComputedTokens - numRejected else numComputedTokens
  let newTokenIds := generated.take numKept
  let q := { q with outputTokenIds := q.outputTokenIds ++ newTokenIds, numComputedTokens }
  if newTokenIds ≠ [] then
    let (advance, q) := q.shouldAdvance cfg
    if advance then { q with grammar := (q.grammar.acceptTokens g newTokenIds).1 } else q
  else q

/-- The part of `update_draft_token_ids` for this request, also of the one for the output of the
asynchronous scheduler. -/
def updateDraftTokenIds (isPrefillChunk : Bool) (drafts : List Token) : StructuredRequest S :=
  if isPrefillChunk then { q with specTokenIds := [] }
  else
    let (advance, q) := q.shouldAdvance cfg
    if advance then
      let (grammar, drafts) := q.grammar.validateTokens g drafts
      { q with grammar, specTokenIds := drafts }
    else { q with specTokenIds := drafts }

end StructuredRequest

/-! The grammar object. -/

namespace XgrammarGrammar

variable {S : Type} {g : Grammar S}

theorem acceptLoop_eq {x : XgrammarGrammar S} {tokens : List Token} {s : S}
    (h : g.run (x.state g) tokens = some s) :
    ∃ reached, acceptLoop g x tokens =
        ({ matcher := reached ++ x.matcher, isTerminated := g.terminated s }, true) ∧
      (reached ++ x.matcher).headD g.start = s := by
  induction tokens generalizing x with
  | nil =>
    obtain rfl := Option.some.inj h
    exact ⟨[], rfl, rfl⟩
  | cons t tokens ih =>
    obtain ⟨s₁, haccept, hrest⟩ := Option.bind_eq_some_iff.mp h
    obtain ⟨reached, hloop, hhead⟩ := @ih { x with matcher := s₁ :: x.matcher } hrest
    refine ⟨reached ++ [s₁], ?_, ?_⟩
    · unfold acceptLoop
      rw [haccept]
      refine hloop.trans ?_
      rw [append_assoc]
      rfl
    · rw [append_assoc]
      exact hhead

theorem acceptTokens_state {x : XgrammarGrammar S} {tokens : List Token} {s : S}
    (hflag : x.isTerminated = false) (h : g.run (x.state g) tokens = some s) :
    (x.acceptTokens g tokens).1.state g = s ∧
      (x.acceptTokens g tokens).1.isTerminated = g.terminated s := by
  obtain ⟨reached, hloop, hhead⟩ := acceptLoop_eq h
  unfold acceptTokens
  rw [hflag, hloop]
  exact ⟨hhead, rfl⟩

theorem validateLoop_eq (x : XgrammarGrammar S) (accepted tokens : List Token) :
    ∃ reached valid, validateLoop g x accepted tokens =
        ({ x with matcher := reached ++ x.matcher }, accepted ++ valid) ∧
      reached.length = valid.length ∧ valid <+: tokens ∧ (g.run (x.state g) valid).isSome := by
  induction tokens generalizing x accepted with
  | nil => exact ⟨[], [], by rw [append_nil]; rfl, rfl, prefix_refl _, rfl⟩
  | cons t tokens ih =>
    unfold validateLoop
    cases haccept : g.accept (x.state g) t with
    | none => exact ⟨[], [], by rw [append_nil]; rfl, rfl, nil_prefix, rfl⟩
    | some s =>
      obtain ⟨reached, valid, hloop, hlength, hprefix, hrun⟩ :=
        ih { x with matcher := s :: x.matcher } (accepted ++ [t])
      refine ⟨reached ++ [s], t :: valid, ?_, ?_, ?_, ?_⟩
      · refine hloop.trans ?_
        rw [append_assoc, append_assoc]
        rfl
      · rw [length_append, length_singleton, length_cons, hlength]
      · exact cons_prefix_cons.mpr ⟨rfl, hprefix⟩
      · unfold Grammar.run
        rw [haccept]
        exact hrun

theorem validateTokens_spec (x : XgrammarGrammar S) (tokens : List Token) :
    (x.validateTokens g tokens).1 = x ∧ (x.validateTokens g tokens).2 <+: tokens ∧
      (g.run (x.state g) (x.validateTokens g tokens).2).isSome := by
  obtain ⟨reached, valid, hloop, hlength, hprefix, hrun⟩ := validateLoop_eq x [] tokens
  have hgrammar : (x.validateTokens g tokens) = (x, valid) := by
    unfold validateTokens
    rw [hloop, nil_append]
    by_cases hpos : valid.length > 0
    · rw [if_pos hpos]
      unfold rollbackMatcher
      rw [← hlength, drop_left]
    · rw [if_neg hpos]
      have hnil : reached = [] := length_eq_zero_iff.mp (by omega)
      rw [hnil]
      rfl
  rw [hgrammar]
  exact ⟨rfl, hprefix, hrun⟩

end XgrammarGrammar

/-! The rows of the bitmask. -/

namespace StructuredRequest

section live

variable {S : Type} (cfg : StructuredConfig) (g : Grammar S)

/-- One draft: the state of the grammar for as long as masking applies. -/
def advance (live : Option S) (t : Token) : Option S :=
  if t = -1 then none else (live.bind (g.accept · t)).filter fun s => !g.terminated s

def liveState (live : Option S) (drafts : List Token) : Option S := drafts.foldl (advance g) live

/-- The mask of a state, or the full mask. -/
def maskOf : Option S → TokenMask
  | some s => fun t => (g.accept s t).isSome
  | none => fun _ => true

/-- The state that the first row masks. -/
def startState (q : StructuredRequest S) : Option S :=
  if (q.shouldFillBitmask cfg).1 && !q.grammar.isTerminated then some (q.grammar.state g) else none

/-- The drafts that pass the assertion of `grammar_bitmask`. -/
def DraftsAccepted (live : Option S) (drafts : List Token) : Prop :=
  ∀ (j : Nat) t s, drafts[j]? = some t → liveState g live (drafts.take j) = some s →
    t = -1 ∨ (g.accept s t).isSome

end live

variable {S : Type} {cfg : StructuredConfig} {g : Grammar S} {live : Option S} {s : S}
  {drafts : List Token}

theorem DraftsAccepted.tail {t : Token}
    (h : DraftsAccepted g live (t :: drafts)) : DraftsAccepted g (advance g live t) drafts :=
  fun j => h (j + 1)

theorem fillBitmask_eq (x : XgrammarGrammar S) (applyBitmask : Bool) :
    fillBitmask g x applyBitmask =
      maskOf g (if applyBitmask && !x.isTerminated then some (x.state g) else none) := by
  unfold fillBitmask
  split <;> rfl

/-- The rows are the masks of the live states, and what the loop has put on the matcher is what the
rollback takes off. -/
theorem fillRows_eq {applyBitmask : Bool} {x : XgrammarGrammar S} (n : Nat)
    (hlive : live = if applyBitmask && !x.isTerminated then some (x.state g) else none)
    (h : DraftsAccepted g live drafts) :
    ∃ x' reached, fillRows g applyBitmask x n drafts =
        .ok ((range (drafts.length + 1)).map fun j =>
          maskOf g (liveState g live (drafts.take j)), x', n + reached.length) ∧
      x'.matcher = reached ++ x.matcher ∧ (reached = [] → x' = x) ∧
      (reached ≠ [] → x.isTerminated = false ∧ g.terminated (x.state g) = false) := by
  induction drafts generalizing applyBitmask x live n with
  | nil =>
    refine ⟨x, [], ?_, rfl, fun _ => rfl, fun h => absurd rfl h⟩
    rw [fillRows, fillBitmask_eq, ← hlive]
    rfl
  | cons t drafts ih =>
    have hrows : (range ((t :: drafts).length + 1)).map (fun j =>
          maskOf g (liveState g live ((t :: drafts).take j))) =
        fillBitmask g x applyBitmask :: (range (drafts.length + 1)).map fun j =>
          maskOf g (liveState g (advance g live t) (drafts.take j)) := by
      rw [range_succ_eq_map, map_cons, map_map, fillBitmask_eq,
        ← hlive]
      rfl
    rw [hrows, fillRows]
    by_cases hgo : ((if t = -1 then false else applyBitmask) && !x.isTerminated) = true
    · have ht : t ≠ -1 := by
        rintro rfl
        cases hgo
      rw [if_neg ht] at hgo
      rw [if_pos hgo] at hlive
      obtain ⟨s, hs⟩ := Option.isSome_iff_exists.mp
        ((h 0 t (x.state g) rfl hlive).resolve_left ht)
      have hflag : x.isTerminated = false := by simpa using (Bool.and_eq_true_iff.mp hgo).2
      have hone : x.acceptTokens g [t] =
          ({ matcher := s :: x.matcher, isTerminated := g.terminated s }, true) := by
        unfold XgrammarGrammar.acceptTokens XgrammarGrammar.acceptLoop
        rw [hflag, hs]
        rfl
      have hnext : advance g live t = if applyBitmask && !g.terminated s then some s else none := by
        rw [advance, if_neg ht, hlive, Option.bind_some, hs, (Bool.and_eq_true_iff.mp hgo).1]
        simp [Option.filter]
      obtain ⟨x', reached, hfill, hmatcher, -, -⟩ := ih (x := ⟨s :: x.matcher, g.terminated s⟩)
        (n + 1) hnext h.tail
      refine ⟨x', reached ++ [s], ?_, by rw [hmatcher, append_assoc]; rfl,
        fun hnil => absurd hnil (by simp), fun _ => ⟨hflag, ?_⟩⟩
      · rw [if_neg ht, if_pos hgo, hone]
        refine bind_eq_ok.mpr ⟨_, hfill, ?_⟩
        rw [length_append, length_singleton, Nat.add_right_comm n 1, Nat.add_assoc]
      · by_contra hterminated
        rw [g.accept_of_terminated _ _ (by simpa using hterminated)] at hs
        cases hs
    · have hnext : advance g live t = if (if t = -1 then false else applyBitmask) &&
          !x.isTerminated then some (x.state g) else none := by
        rw [if_neg hgo, advance, hlive]
        by_cases ht : t = -1
        · rw [if_pos ht]
        · rw [if_neg ht] at hgo ⊢
          rw [if_neg hgo]
          rfl
      obtain ⟨x', reached, hfill, hkept⟩ := ih n hnext h.tail
      exact ⟨x', reached, by rw [if_neg hgo]; exact bind_eq_ok.mpr ⟨_, hfill, rfl⟩, hkept⟩

theorem shouldFillBitmask_grammar (cfg : StructuredConfig) (q : StructuredRequest S) :
    (q.shouldFillBitmask cfg).2.grammar = q.grammar := by
  unfold shouldFillBitmask
  split
  · rfl
  · split <;> rfl

theorem grammarBitmask_eq {q : StructuredRequest S}
    (h : DraftsAccepted g (q.startState cfg g) drafts) :
    q.grammarBitmask cfg g drafts = .ok ((range (drafts.length + 1)).map fun j =>
      maskOf g (liveState g (q.startState cfg g) (drafts.take j)),
      (q.shouldFillBitmask cfg).2) := by
  obtain ⟨x', reached, hfill, hmatcher, hsame, hlive⟩ := fillRows_eq 0 rfl h
  have hgrammar := q.shouldFillBitmask_grammar cfg
  generalize hq : q.shouldFillBitmask cfg = filled at hfill hgrammar
  unfold grammarBitmask
  rw [hq]
  dsimp only
  rw [hgrammar]
  refine bind_eq_ok.mpr ⟨_, hfill, ?_⟩
  have hrestored : (if 0 + reached.length > 0 then x'.rollback g (0 + reached.length) else x') =
      q.grammar := by
    by_cases hnil : reached = []
    · rw [hnil, hsame hnil]
      rfl
    · have hpos : 0 < reached.length := length_pos_iff.mpr hnil
      obtain ⟨hflag, hstate⟩ := hlive hnil
      rw [Nat.zero_add, if_pos hpos, XgrammarGrammar.rollback, XgrammarGrammar.rollbackMatcher,
        hmatcher, drop_left]
      change XgrammarGrammar.mk q.grammar.matcher (g.terminated (q.grammar.state g)) = _
      rw [hstate, ← hflag]
  rw [hrestored, startState, hq, ← hgrammar]

def Masks (g : Grammar S) (rows : List TokenMask) (s : S) (j : Nat) : Prop :=
  ∃ row, rows[j]? = some row ∧ ∀ t, row t = true → (g.accept s t).isSome

theorem liveState_none (drafts : List Token) : liveState g none drafts = none := by
  induction drafts with
  | nil => rfl
  | cons t drafts ih =>
    rw [liveState, foldl_cons, advance, Option.bind_none, Option.filter_none, ite_self]
    exact ih

theorem live_of_run {s' : S} (hrun : g.run s drafts = some s') (hlive : g.terminated s' = false) :
    g.terminated s = false := by
  cases drafts with
  | nil =>
    obtain rfl := Option.some.inj hrun
    exact hlive
  | cons t drafts =>
    obtain ⟨s₁, haccept, -⟩ := Option.bind_eq_some_iff.mp hrun
    by_contra hterminated
    rw [g.accept_of_terminated _ _ (by simpa using hterminated)] at haccept
    cases haccept

theorem liveState_of_run {s' : S} (hpad : -1 ∉ drafts) (hrun : g.run s drafts = some s')
    (hlive : g.terminated s' = false) : liveState g (some s) drafts = some s' := by
  induction drafts generalizing s with
  | nil => exact hrun
  | cons t drafts ih =>
    rw [mem_cons, not_or] at hpad
    obtain ⟨s₁, haccept, hrest⟩ := Option.bind_eq_some_iff.mp hrun
    rw [liveState, foldl_cons, advance, if_neg (Ne.symm hpad.1), Option.bind_some, haccept,
      Option.filter_some, live_of_run hrest hlive]
    exact ih hpad.2 hrest

theorem draftsAccepted_of_run (hlive : live = some s ∨ live = none) (hrun : (g.run s drafts).isSome)
    (m : Nat) : DraftsAccepted g live (drafts ++ replicate m (-1)) := by
  induction drafts generalizing live s with
  | nil =>
    intro j t _ ht _
    exact Or.inl (eq_of_mem_replicate (mem_of_getElem? ht))
  | cons t drafts ih =>
    obtain ⟨s', hs'⟩ := Option.isSome_iff_exists.mp hrun
    obtain ⟨s₁, haccept, hrest⟩ := Option.bind_eq_some_iff.mp hs'
    intro j t' s₂ ht hs₂
    cases j with
    | zero =>
      obtain rfl := Option.some.inj ht
      obtain rfl | rfl := hlive
      · obtain rfl := Option.some.inj hs₂
        exact Or.inr (Option.isSome_iff_exists.mpr ⟨s₁, haccept⟩)
      · cases hs₂
    | succ j =>
      have hnext : advance g live t = some s₁ ∨ advance g live t = none := by
        unfold advance
        obtain rfl | rfl := hlive
        · grind
        · exact Or.inr (ite_self _)
      exact ih hnext (Option.isSome_iff_exists.mpr ⟨s', hrest⟩) j t' s₂ ht hs₂

end StructuredRequest

end LongCtxSpecDecode
