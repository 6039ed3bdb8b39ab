import LongCtxSpecDecode.Detokenizer

/-!
# Grouping of the tokens into updates

Whether the stop string and the output text of a request depend on how its tokens are delivered.
-/

namespace LongCtxSpecDecode.Detokenizer

open List

variable {σ : Type} [Decoder σ] (p : StopParams) (decoder : σ)

/-- Successive updates until one of them finds a stop string. -/
def updates (stopTerminated : Bool) :
    List (List Token) → Detokenizer σ → Option (List Char) × Detokenizer σ
  | [], d => (none, d)
  | [group], d => d.update p group stopTerminated
  | group :: next :: groups, d =>
    match d.update p group false with
    | (none, d) => updates stopTerminated (next :: groups) d
    | found => found

/-- The reported stop string and the final output text. -/
def outcome (r : Option (List Char) × Detokenizer σ) : Option (List Char) × List Char :=
  (r.1, r.2.outputText)

/-- The first listed stop string that is complete after these tokens, and where it starts. -/
def firstStop (tokens : List Token) : Option (List Char × Nat) :=
  p.stopped (skipped p { decoder } tokens)
    (after { decoder } tokens).outputText

/-- When a stop string is complete, no stop string that is listed before it is completed later. -/
def FirstStopStays (tokens : List Token) : Prop :=
  ∀ k, (firstStop p decoder (tokens.take k)).isSome →
    firstStop p decoder (tokens.take k) = firstStop p decoder tokens

def verdict (tokens : List Token) : Option (List Char) × List Char :=
  let text := (after { decoder } tokens).outputText
  match firstStop p decoder tokens with
  | some found => (some found.1, text.take (p.cut found))
  | none => (none, text)

variable {p decoder}

theorem stopped_of_append {lo : Nat} {text more : List Char} (h : p.stopped lo text = none)
    (hlo : lo ≤ text.length) :
    p.stopped text.length (text ++ more) = p.stopped lo (text ++ more) := by
  simp only [StopParams.stopped, ← head?_filterMap]
  congr 1
  refine filterMap_congr fun s hs => ?_
  have hnone : firstMatch lo text s = none := by
    simpa using findSome?_eq_none_iff.mp h s hs
  congr 1
  refine find?_congr fun i _ => ?_
  rw [decide_eq_decide]
  refine ⟨fun hi => ⟨hlo.trans_lt hi.1, hi.2⟩, fun hi => ⟨?_, hi.2⟩⟩
  by_contra hle
  -- an occurrence within `text` would have been found there
  refine find?_eq_none.mp hnone i (mem_range.mpr (by omega)) (decide_eq_true ⟨hi.1, ?_⟩)
  refine prefix_of_prefix_length_le hi.2 ?_ (by simp; omega)
  rw [drop_append_of_le_length (by omega)]
  exact prefix_append ..

theorem verdict_eq_of_prefix {tokens all : List Token} (hall : tokens <+: all)
    (hsome : (firstStop p decoder tokens).isSome)
    (h : firstStop p decoder tokens = firstStop p decoder all) :
    verdict p decoder tokens = verdict p decoder all := by
  obtain ⟨found, hfound⟩ := Option.isSome_iff_exists.mp hsome
  obtain ⟨more, rfl⟩ := hall
  obtain ⟨text, htext⟩ := outputText_prefix_after (after { decoder } tokens) more
  have hcut := StopParams.cut_le hfound
  simp only [verdict, ← h, hfound, after, foldl_append] at htext ⊢
  rw [← htext, take_append_of_le_length hcut]

theorem firstStop_eq_of_verdict {tokens all : List Token}
    (hsome : (firstStop p decoder tokens).isSome)
    (h : verdict p decoder tokens = verdict p decoder all) :
    firstStop p decoder tokens = firstStop p decoder all := by
  obtain ⟨found, hfound⟩ := Option.isSome_iff_exists.mp hsome
  simp only [verdict, hfound] at h ⊢
  cases hall : firstStop p decoder all with
  | none => simp [hall] at h
  | some found' =>
    simp only [hall, Prod.mk.injEq, Option.some.injEq] at h
    have hlength := congrArg length h.2
    rw [length_take_of_le (StopParams.cut_le hfound),
      length_take_of_le (StopParams.cut_le hall)] at hlength
    grind [StopParams.cut]

theorem skipped_append (earlier new : List Token) (hlt : earlier.length < p.minTokens) :
    skipped p (after { decoder } earlier) new = skipped p { decoder } (earlier ++ new) := by
  simp only [skipped, after_numOutputTokens, Nat.zero_add, ← foldl_append, Nat.sub_zero,
    take_append, take_of_length_le hlt.le]

theorem stopped_after {earlier : List Token} (new : List Token)
    (h : firstStop p decoder earlier = none) :
    p.stopped (skipped p (after { decoder } earlier) new)
      (after { decoder } (earlier ++ new)).outputText = firstStop p decoder (earlier ++ new) := by
  rcases le_or_gt p.minTokens earlier.length with hle | hlt
  · obtain ⟨text, htext⟩ := outputText_prefix_after (after { decoder } earlier) new
    have hearlier : skipped p { decoder } (earlier ++ new) = skipped p { decoder } earlier := by
      simp only [skipped, Nat.sub_zero, take_append_of_le_length hle]
    simp only [firstStop, hearlier, after, foldl_append] at htext ⊢
    rw [← htext, ← stopped_of_append h (skipped_le ..)]
    simp [skipped, after_numOutputTokens, Nat.sub_eq_zero_of_le hle]
  · rw [skipped_append _ _ hlt, firstStop]

theorem outcome_update (earlier : List Token) {group : List Token} (stopTerminated : Bool)
    (hgroup : group ≠ []) (h : firstStop p decoder earlier = none) :
    outcome ((after { decoder } earlier).update p group stopTerminated) =
      verdict p decoder (earlier ++ decoded p group stopTerminated) := by
  have hstop := stopped_after (decoded p group stopTerminated) h
  simp only [after, foldl_append] at hstop
  simp only [update_eq _ stopTerminated hgroup, hstop, outcome, verdict, foldl_append]
  cases firstStop p decoder (earlier ++ decoded p group stopTerminated) <;> rfl

theorem update_after {earlier group : List Token} (hgroup : group ≠ [])
    (h : firstStop p decoder earlier = none)
    (hnone : firstStop p decoder (earlier ++ group) = none) :
    (after { decoder } earlier).update p group false =
      (none, after { decoder } (earlier ++ group)) := by
  have hstop := stopped_after group h
  have hnum := after_numOutputTokens (after { decoder } earlier) group
  simp only [hnone, after, foldl_append] at hstop hnum ⊢
  simp [update_eq _ false hgroup, decoded, hstop, ← hnum]

theorem updates_of_isSome (earlier : List Token) {group : List Token} (next : List Token)
    (groups : List (List Token)) (stopTerminated : Bool) (hgroup : group ≠ [])
    (h : firstStop p decoder earlier = none)
    (hsome : (firstStop p decoder (earlier ++ group)).isSome) :
    outcome (updates p stopTerminated (group :: next :: groups) (after { decoder } earlier)) =
      verdict p decoder (earlier ++ group) := by
  obtain ⟨found, hfound⟩ := Option.isSome_iff_exists.mp hsome
  have hupdate := outcome_update earlier false hgroup h
  simp only [decoded, Bool.false_eq_true, false_and, if_false] at hupdate
  rw [← hupdate]
  simp only [updates]
  split
  case h_1 d hd => simp [hd, outcome, verdict, hfound] at hupdate
  case h_2 => rfl

theorem decoded_append (earlier : List Token) {new : List Token} (hnew : new ≠ [])
    (stopTerminated : Bool) :
    decoded p (earlier ++ new) stopTerminated = earlier ++ decoded p new stopTerminated := by
  unfold decoded
  split
  · exact dropLast_append_of_ne_nil hnew
  · rfl

theorem outcome_updates (earlier : List Token) {stopTerminated : Bool}
    {groups : List (List Token)} (hgroups : groups ≠ []) (hne : ∀ group ∈ groups, group ≠ [])
    (h : firstStop p decoder earlier = none)
    (hfirst : FirstStopStays p decoder (decoded p (earlier ++ groups.flatten) stopTerminated)) :
    outcome (updates p stopTerminated groups (after { decoder } earlier)) =
      verdict p decoder (decoded p (earlier ++ groups.flatten) stopTerminated) := by
  induction groups generalizing earlier with
  | nil => exact absurd rfl hgroups
  | cons group groups ih =>
    have hgroup := hne group (by simp)
    cases groups with
    | nil =>
      rw [flatten_singleton, decoded_append _ hgroup]
      exact outcome_update earlier stopTerminated hgroup h
    | cons next groups =>
      have hflatten : (next :: groups).flatten ≠ [] := by
        simp [hne next (by simp)]
      rw [flatten_cons, ← append_assoc] at hfirst ⊢
      by_cases hnone : firstStop p decoder (earlier ++ group) = none
      · simp only [updates, update_after hgroup h hnone]
        exact ih (earlier ++ group) (by simp) (fun g hg => hne g (mem_cons_of_mem _ hg)) hnone
          hfirst
      · have hsome := Option.isSome_iff_ne_none.mpr hnone
        rw [updates_of_isSome earlier next groups stopTerminated hgroup h hsome]
        have hstays := hfirst (earlier ++ group).length
        rw [decoded_append _ hflatten] at hstays ⊢
        rw [take_left] at hstays
        exact verdict_eq_of_prefix (prefix_append ..) hsome (hstays hsome)

variable (p decoder) in
theorem firstStop_nil : firstStop p decoder [] = none := by
  have h : p.stopped ([] : List Char).length [] = none := StopParams.stopped_length
  simpa [firstStop, skipped] using h

theorem take_decoded {tokens : List Token} {stopTerminated : Bool} {k : Nat}
    (hk : k < (decoded p tokens stopTerminated).length) :
    (decoded p tokens stopTerminated).take k = tokens.take k ∧ k < tokens.length := by
  unfold decoded at hk ⊢
  split at hk
  case isTrue h =>
    rw [length_dropLast] at hk
    rw [if_pos h, dropLast_eq_take, take_take, min_eq_left (by omega)]
    exact ⟨rfl, by omega⟩
  case isFalse h => exact ⟨by rw [if_neg h], hk⟩

/-- The result depends on the grouping exactly if a stop string is completed after another one
that is listed later. -/
theorem grouping_iff (stopTerminated : Bool) (tokens : List Token) :
    (∀ groups : List (List Token), groups.flatten = tokens → (∀ group ∈ groups, group ≠ []) →
      outcome (updates p stopTerminated groups { decoder }) =
        outcome (updates p stopTerminated (tokens.map ([·])) { decoder })) ↔
      FirstStopStays p decoder (decoded p tokens stopTerminated) := by
  obtain rfl | htokens := eq_or_ne tokens []
  · refine iff_of_true (fun groups hflatten hne => ?_) (fun k _ => by simp [decoded])
    cases groups with
    | nil => rfl
    | cons group groups => simp [hne group (by simp)] at hflatten
  constructor
  · intro hall k hsome
    rcases Nat.lt_or_ge k (decoded p tokens stopTerminated).length with hk | hk
    · obtain ⟨htake, hlength⟩ := take_decoded hk
      rw [htake] at hsome ⊢
      have hne : tokens.take k ≠ [] := by
        intro hnil
        simp [hnil, firstStop_nil] at hsome
      -- the tokens in one update and in two
      have hone := outcome_update [] stopTerminated htokens (firstStop_nil p decoder)
      have htwo := updates_of_isSome [] (tokens.drop k) [] stopTerminated hne
        (firstStop_nil p decoder) hsome
      refine firstStop_eq_of_verdict hsome (htwo.symm.trans (Eq.trans ?_ hone))
      exact (hall [tokens.take k, tokens.drop k] (by simp) (by simp; grind)).trans
        (hall [tokens] (by simp) (by simpa)).symm
    · rw [take_of_length_le hk]
  · intro hfirst groups hflatten hne
    have houtcome (groups : List (List Token)) (hflatten : groups.flatten = tokens)
        (hne : ∀ group ∈ groups, group ≠ []) :
        outcome (updates p stopTerminated groups { decoder }) =
          verdict p decoder (decoded p tokens stopTerminated) := by
      subst hflatten
      exact outcome_updates [] (by rintro rfl; exact htokens rfl) hne (firstStop_nil p decoder)
        hfirst
    rw [houtcome groups hflatten hne,
      houtcome (tokens.map ([·])) (by simp [← flatMap_def]) (by simp)]

/-- Every token is one character. -/
local instance : Decoder Unit := ⟨fun _ token => ([Char.ofNat token.toNat], ())⟩

/-- The stop strings `b` and `a`: `a` stops the request before `b` is decoded, but of both the
first listed one is reported. -/
theorem stop_string_depends_on_grouping :
    let p : StopParams := ⟨[['b'], ['a']], 0, false, by simp⟩
    outcome (updates p false [[97], [98]] { decoder := () }) = (some ['a'], []) ∧
      outcome (updates p false [[97, 98]] { decoder := () }) = (some ['b'], ['a']) := by
  decide

end LongCtxSpecDecode.Detokenizer
