import LongCtxSpecDecode.Request

/-!
# Stop strings and streamed text

`BaseIncrementalDetokenizer` of `v1/engine/detokenizer.py`. A text is the list of its characters,
and the decoder behind `decode_next` is any machine that gives a text for every token.
-/

namespace LongCtxSpecDecode

open List

/-- `SamplingParams` refuses an empty stop string. -/
structure StopParams where
  stop : List (List Char)
  minTokens : Nat
  includeStopStrInOutput : Bool
  stop_ne_nil : ∀ s ∈ stop, s ≠ []

class Decoder (σ : Type) where
  decodeNext : σ → Token → List Char × σ

structure Detokenizer (σ : Type) where
  decoder : σ
  numOutputTokens : Nat := 0
  outputText : List Char := []
  lastOutputTextOffset : Nat := 0

/-- `text.find(sub, start)` of Python, where a negative `start` counts from the end. -/
def strFind (text sub : List Char) (start : Int) : Option Nat :=
  let start := if start < 0 then (text.length + start).toNat else start.toNat
  (range (text.length + 1)).find? fun i => start ≤ i ∧ sub <+: text.drop i

/-- The matched stop string and the length to truncate to, `none` for no truncation. -/
def checkStopStrings (outputText : List Char) (newCharCount : Nat) (stop : List (List Char))
    (includeInOutput : Bool) : Option (List Char × Option Nat) :=
  if newCharCount = 0 ∨ stop = [] then none
  else stop.findSome? fun stopStr =>
    (strFind outputText stopStr (1 - newCharCount - stopStr.length)).map fun stopIndex =>
      let truncateTo := if includeInOutput then stopIndex + stopStr.length else stopIndex
      (stopStr,
        if includeInOutput ∧ truncateTo ≥ outputText.length then none else some truncateTo)

/-- The first occurrence of `s` that ends after the first `lo` characters. -/
def firstMatch (lo : Nat) (text s : List Char) : Option Nat :=
  (range (text.length + 1)).find? fun i => lo < i + s.length ∧ s <+: text.drop i

variable {lo i : Nat} {text s : List Char}

theorem firstMatch_spec (h : firstMatch lo text s = some i) :
    lo < i + s.length ∧ i + s.length ≤ text.length := by
  obtain ⟨hp, hi⟩ := And.intro (find?_some h) (mem_of_find?_eq_some h)
  simp only [decide_eq_true_eq] at hp
  have := hp.2.length_le
  grind

theorem strFind_eq_firstMatch (hs : s ≠ []) (hlo : lo < text.length) :
    strFind text s (1 - (text.length - lo : Nat) - s.length) = firstMatch lo text s := by
  have := length_pos_iff.mpr hs
  simp only [strFind, firstMatch]
  congr 1
  funext i
  rw [if_pos (by omega)]
  congr 2
  simp only [eq_iff_iff]
  omega

namespace StopParams

variable (p : StopParams)

def stopBufferLength : Nat :=
  if p.stop ≠ [] ∧ ¬ p.includeStopStrInOutput then (p.stop.map length).foldr max 0 - 1
  else 0

/-- The stop string found in a text of which the first `lo` characters are not searched. -/
def stopped (lo : Nat) (text : List Char) : Option (List Char × Nat) :=
  p.stop.findSome? fun s => (firstMatch lo text s).map (s, ·)

/-- Where the text is cut at a stop string. -/
def cut (found : List Char × Nat) : Nat :=
  if p.includeStopStrInOutput then found.2 + found.1.length else found.2

variable {p}

theorem stopped_spec {found : List Char × Nat} (h : p.stopped lo text = some found) :
    found.1 ∈ p.stop ∧ lo < found.2 + found.1.length ∧
      found.2 + found.1.length ≤ text.length := by
  obtain ⟨s, hs, hm⟩ := exists_of_findSome?_eq_some h
  obtain ⟨i, hi, rfl⟩ := Option.map_eq_some_iff.mp hm
  exact ⟨hs, firstMatch_spec hi⟩

theorem cut_le {found : List Char × Nat} (h : p.stopped lo text = some found) :
    p.cut found ≤ text.length := by
  have := stopped_spec h
  unfold cut
  split <;> omega

@[simp] theorem stopped_length : p.stopped text.length text = none := by
  by_contra h
  obtain ⟨found, hfound⟩ := Option.ne_none_iff_exists'.mp h
  have := stopped_spec hfound
  omega

/-- The search from `1 - new_char_count - len(stop_str)` sees every match that ends in the new
characters. -/
theorem checkStopStrings_eq (hlo : lo ≤ text.length) :
    checkStopStrings text (text.length - lo) p.stop p.includeStopStrInOutput =
      (p.stopped lo text).map fun found =>
        (found.1, if p.includeStopStrInOutput ∧ p.cut found ≥ text.length then none
          else some (p.cut found)) := by
  obtain rfl | hlt := hlo.eq_or_lt
  · simp [checkStopStrings]
  simp only [checkStopStrings, stopped, cut]
  split
  case isTrue h => simp [h.resolve_left (by omega)]
  simp only [← head?_filterMap, ← head?_map, map_filterMap, Option.map_map]
  congr 1
  refine filterMap_congr fun s hs => ?_
  rw [strFind_eq_firstMatch (p.stop_ne_nil s hs) hlt]
  rfl

end StopParams

namespace Detokenizer

variable {σ : Type} (p : StopParams)

/-- The characters that are not held back. -/
def shown (d : Detokenizer σ) (finished : Bool) : Nat :=
  d.outputText.length - if finished then 0 else p.stopBufferLength

def getNextOutputText (d : Detokenizer σ) (finished delta : Bool) :
    List Char × Detokenizer σ :=
  let length := d.shown p finished
  if ¬ delta then (d.outputText.take length, d)
  else if d.lastOutputTextOffset < length then
    ((d.outputText.take length).drop d.lastOutputTextOffset,
      { d with lastOutputTextOffset := length })
  else ([], d)

variable {p}

theorem getNextOutputText_take {d : Detokenizer σ} {finished : Bool}
    (h : d.lastOutputTextOffset ≤ d.shown p finished) :
    d.outputText.take d.lastOutputTextOffset ++ (d.getNextOutputText p finished true).1 =
        d.outputText.take (d.shown p finished) ∧
      (d.getNextOutputText p finished true).2 =
        { d with lastOutputTextOffset := d.shown p finished } := by
  have hsplit := take_append_drop d.lastOutputTextOffset
    (d.outputText.take (d.shown p finished))
  rw [take_take, min_eq_left h] at hsplit
  obtain h | h := h.eq_or_lt
  · simp [getNextOutputText, ← h]
  · simp [getNextOutputText, h, hsplit]

theorem getNextOutputText_finished {d : Detokenizer σ}
    (h : d.lastOutputTextOffset ≤ d.shown p true) :
    d.outputText.take d.lastOutputTextOffset ++ (d.getNextOutputText p true true).1 =
      d.outputText := by
  rw [(getNextOutputText_take h).1]
  exact take_length

variable [Decoder σ] (p)

/-- One token of the loop of `update`. -/
def decodeToken (d : Detokenizer σ) (token : Token) : Detokenizer σ :=
  { d with
    decoder := (Decoder.decodeNext d.decoder token).2
    numOutputTokens := d.numOutputTokens + 1
    outputText := d.outputText ++ (Decoder.decodeNext d.decoder token).1 }

/-- The loop of `update`, which moves `stop_check_offset` past the first `min_tokens` tokens. -/
def decode (d : Detokenizer σ) (tokens : List Token) : Detokenizer σ × Nat :=
  tokens.foldl (fun (d, stopCheckOffset) token =>
    let d := d.decodeToken token
    (d, if p.minTokens ≠ 0 ∧ d.numOutputTokens ≤ p.minTokens then d.outputText.length
      else stopCheckOffset)) (d, d.outputText.length)

/-- The tokens of an update that are decoded. -/
def decoded (newTokenIds : List Token) (stopTerminated : Bool) : List Token :=
  if stopTerminated ∧ ¬ p.includeStopStrInOutput then newTokenIds.dropLast else newTokenIds

def update (d : Detokenizer σ) (newTokenIds : List Token) (stopTerminated : Bool) :
    Option (List Char) × Detokenizer σ :=
  if newTokenIds = [] then (none, d)
  else
    let (d', stopCheckOffset) := d.decode p (decoded p newTokenIds stopTerminated)
    -- a skipped stop token is appended to the token ids without its text
    let d' := { d' with numOutputTokens := d.numOutputTokens + newTokenIds.length }
    if p.stop ≠ [] ∧ d'.numOutputTokens > p.minTokens then
      match checkStopStrings d'.outputText (d'.outputText.length - stopCheckOffset) p.stop
        p.includeStopStrInOutput with
      | some (stopString, some truncateTo) =>
        (some stopString, { d' with outputText := d'.outputText.take truncateTo })
      | some (stopString, none) => (some stopString, d')
      | none => (none, d')
    else (none, d')

/-- The state after `tokens` are decoded. -/
abbrev after (d : Detokenizer σ) (tokens : List Token) : Detokenizer σ :=
  tokens.foldl decodeToken d

/-- The characters that an update with these tokens does not search. -/
def skipped (d : Detokenizer σ) (tokens : List Token) : Nat :=
  (d.after (tokens.take (p.minTokens - d.numOutputTokens))).outputText.length

variable {p}

theorem after_numOutputTokens (d : Detokenizer σ) (tokens : List Token) :
    (d.after tokens).numOutputTokens = d.numOutputTokens + tokens.length := by
  induction tokens generalizing d with
  | nil => rfl
  | cons token tokens ih => simp only [after, foldl_cons] at ih ⊢; rw [ih]; grind [decodeToken]

theorem after_lastOutputTextOffset (d : Detokenizer σ) (tokens : List Token) :
    (d.after tokens).lastOutputTextOffset = d.lastOutputTextOffset := by
  induction tokens generalizing d with
  | nil => rfl
  | cons token tokens ih => exact ih _

theorem outputText_prefix_after (d : Detokenizer σ) (tokens : List Token) :
    d.outputText <+: (d.after tokens).outputText := by
  induction tokens generalizing d with
  | nil => exact prefix_rfl
  | cons token tokens ih => exact (prefix_append ..).trans (ih (d.decodeToken token))

theorem decode_eq (tokens : List Token) (d : Detokenizer σ) :
    d.decode p tokens = (d.after tokens, d.skipped p tokens) := by
  unfold decode skipped
  induction tokens using reverseRecOn with
  | nil => simp
  | append_singleton tokens token ih =>
    have hnum := d.after_numOutputTokens (tokens ++ [token])
    simp only [after, foldl_append, foldl_cons, foldl_nil, ih, length_append,
      length_singleton] at hnum ⊢
    rw [hnum]
    congr 1
    split
    · rw [take_of_length_le (by simp; omega), foldl_append]
      rfl
    · rw [take_append_of_le_length (by omega)]

theorem skipped_le (tokens : List Token) (d : Detokenizer σ) :
    d.skipped p tokens ≤ (d.after tokens).outputText.length := by
  conv_rhs => rw [← take_append_drop (p.minTokens - d.numOutputTokens) tokens, after,
    foldl_append]
  exact (outputText_prefix_after ..).length_le

theorem update_eq (d : Detokenizer σ) {tokens : List Token} (stopTerminated : Bool)
    (htokens : tokens ≠ []) :
    d.update p tokens stopTerminated =
      let new := decoded p tokens stopTerminated
      let d' := { d.after new with
        numOutputTokens := d.numOutputTokens + tokens.length }
      match p.stopped (d.skipped p new) d'.outputText with
      | some found => (some found.1, { d' with outputText := d'.outputText.take (p.cut found) })
      | none => (none, d') := by
  simp only [update, htokens, if_false, decode_eq]
  split
  case isTrue =>
    rw [StopParams.checkStopStrings_eq (skipped_le ..)]
    cases p.stopped _ _ with
    | none => rfl
    | some found =>
      simp only [Option.map_some]
      split_ifs with h
      · simp [take_of_length_le h.2]
      · rfl
  case isFalse h =>
    have hnone : p.stopped (d.skipped p (decoded p tokens stopTerminated))
        (d.after (decoded p tokens stopTerminated)).outputText = none := by
      rcases not_and_or.mp h with hstop | hnum
      · simp [StopParams.stopped, not_not.mp hstop]
      · have : (decoded p tokens stopTerminated).length ≤ p.minTokens - d.numOutputTokens := by
          grind [decoded]
        simp [skipped, take_of_length_le this]
    simp [hnone]

/-! ### Streamed text -/

inductive Call where
  | update (newTokenIds : List Token) (stopTerminated : Bool)
  | next

variable (p)

/-- The text streamed by a run of calls. A stop string finishes the request. -/
def stream : List Call → Detokenizer σ → List Char × Detokenizer σ
  | [], d => ([], d)
  | .update newTokenIds stopTerminated :: calls, d =>
    match d.update p newTokenIds stopTerminated with
    | (none, d) => stream calls d
    | (some _, d) => ([], d)
  | .next :: calls, d =>
    let (delta, d) := d.getNextOutputText p false true
    let (rest, d) := stream calls d
    (delta ++ rest, d)

variable {p}

theorem stream_isPrefixOf {earlier calls : List Call} (h : earlier <+: calls) (d : Detokenizer σ) :
    (stream p earlier d).1 <+: (stream p calls d).1 := by
  obtain ⟨later, rfl⟩ := h
  induction earlier generalizing d with
  | nil => exact nil_prefix
  | cons call earlier ih =>
    cases call with
    | update tokens stopTerminated =>
      simp only [cons_append, stream]
      split
      · exact ih _
      · exact prefix_rfl
    | next => exact (prefix_append_right_inj _).mpr (ih _)

theorem length_le_of_mem_stop {s : List Char} (hs : s ∈ p.stop)
    (hinclude : ¬ p.includeStopStrInOutput) : s.length ≤ p.stopBufferLength + 1 := by
  have : s.length ≤ (p.stop.map length).foldr max 0 :=
    le_max_of_le' 0 (mem_map_of_mem hs) le_rfl
  grind [StopParams.stopBufferLength]

theorem le_cut {lo : Nat} {text : List Char} {found : List Char × Nat}
    (h : p.stopped lo text = some found) : lo - p.stopBufferLength ≤ p.cut found := by
  obtain ⟨hmem, hlo, -⟩ := StopParams.stopped_spec h
  unfold StopParams.cut
  split
  · omega
  · have := length_le_of_mem_stop hmem ‹_›
    omega

theorem update_take (d : Detokenizer σ) (tokens : List Token) (stopTerminated : Bool)
    (h : d.lastOutputTextOffset ≤ d.shown p false) :
    let r := d.update p tokens stopTerminated
    r.2.lastOutputTextOffset = d.lastOutputTextOffset ∧
      r.2.outputText.take d.lastOutputTextOffset = d.outputText.take d.lastOutputTextOffset ∧
      d.lastOutputTextOffset ≤ r.2.shown p true ∧
      (r.1 = none → d.lastOutputTextOffset ≤ r.2.shown p false) := by
  by_cases htokens : tokens = []
  · simp only [update, htokens, if_true]
    exact ⟨trivial, trivial, h.trans (Nat.sub_le ..), fun _ => h⟩
  have hskipped : d.outputText.length ≤
      d.skipped p (decoded p tokens stopTerminated) :=
    (outputText_prefix_after ..).length_le
  obtain ⟨new, hnew⟩ := outputText_prefix_after d
    (decoded p tokens stopTerminated)
  have hlast := after_lastOutputTextOffset d
    (decoded p tokens stopTerminated)
  simp only [update_eq d stopTerminated htokens, ← hnew]
  have hbuffer : d.lastOutputTextOffset ≤ d.outputText.length - p.stopBufferLength := h
  cases hstop : p.stopped _ _ with
  | none =>
    refine ⟨hlast, take_append_of_le_length (by omega), ?_, fun _ => ?_⟩ <;>
      simp [shown] <;> omega
  | some found =>
    have hcut := le_cut hstop
    have hle := StopParams.cut_le hstop
    refine ⟨hlast, ?_, ?_, nofun⟩
    · rw [take_take, min_eq_left (by omega), take_append_of_le_length (by omega)]
    · simp [shown]
      omega

theorem take_append_stream (calls : List Call) (d : Detokenizer σ)
    (h : d.lastOutputTextOffset ≤ d.shown p false) :
    let r := stream p calls d
    d.outputText.take d.lastOutputTextOffset ++ (r.1 ++ (r.2.getNextOutputText p true true).1) =
      r.2.outputText := by
  induction calls generalizing d with
  | nil => exact getNextOutputText_finished (h.trans (Nat.sub_le ..))
  | cons call calls ih =>
    cases call with
    | update tokens stopTerminated =>
      obtain ⟨hlast, htake, hle, hnone⟩ := update_take d tokens stopTerminated h
      rw [← htake, ← hlast]
      simp only [stream]
      split
      case h_1 d' hd' =>
        simp only [hd'] at hlast hnone ⊢
        exact ih d' (hlast ▸ hnone trivial)
      case h_2 d' hd' =>
        simp only [hd'] at hlast hle ⊢
        exact getNextOutputText_finished (hlast ▸ hle)
    | next =>
      obtain ⟨htake, hd'⟩ := getNextOutputText_take h
      simp only [stream, append_assoc, hd']
      rw [← append_assoc, htake]
      exact ih { d with lastOutputTextOffset := d.shown p false } le_rfl

/-- Text that is streamed is never taken back. -/
theorem streamed_text (decoder : σ) (calls : List Call) :
    let r := stream p calls { decoder }
    r.1 ++ (r.2.getNextOutputText p true true).1 = r.2.outputText ∧
      ∀ earlier, earlier <+: calls →
        (stream p earlier { decoder }).1 <+: r.2.outputText := by
  intro r
  have h : r.1 ++ (r.2.getNextOutputText p true true).1 = r.2.outputText :=
    take_append_stream calls { decoder } (Nat.zero_le _)
  exact ⟨h, fun earlier hearlier => (stream_isPrefixOf hearlier _).trans ⟨_, h⟩⟩

end Detokenizer

end LongCtxSpecDecode
