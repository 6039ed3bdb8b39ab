import LongCtxSpecDecode.Library.Attention

/-!
# Attention over paged keys

The calls of `flash_attn_varlen_func` over a paged KV cache, what an exact kernel returns for them,
and `merge_attn_states`, over the reals. The function has no result for a query that sees no key.
-/

namespace LongCtxSpecDecode

open Library

/-- The arguments of `flash_attn_varlen_func` that its result depends on. -/
structure FlashAttnArgs where
  q : Nat → Nat → Nat → ℝ
  numHeads : Nat
  headDim : Nat
  k : Int → Nat → Nat → Nat → ℝ
  v : Int → Nat → Nat → Nat → ℝ
  page : Nat
  kvHeads : Nat
  batch : Nat
  cuSeqlensQ : Nat → Nat
  maxSeqlenQ : Nat
  sequsedK : Nat → Int
  maxSeqlenK : Int
  softmaxScale : ℝ
  causal : Bool
  blockTable : Nat → Nat → Int
  tableWidth : Nat

/-- An output, by token, head and dimension, with its log-sum-exp, by head and token. -/
abbrev AttnState := (Nat → Nat → Nat → ℝ) × (Nat → Nat → WithBot ℝ)

namespace FlashAttnArgs

variable (a : FlashAttnArgs)

def queryLen (b : Nat) : Nat := a.cuSeqlensQ (b + 1) - a.cuSeqlensQ b

def block (b j : Nat) : Int := a.blockTable b (j / a.page)

def kvHead (h : Nat) : Nat := h / (a.numHeads / a.kvHeads)

/-- The score of key `j` of request `b` for head `h` of token `n`. -/
noncomputable def score (b n h j : Nat) : ℝ :=
  a.softmaxScale * ∑ d ∈ Finset.range a.headDim,
    a.q n h d * a.k (a.block b j) (j % a.page) (a.kvHead h) d

def value (b h d j : Nat) : ℝ := a.v (a.block b j) (j % a.page) (a.kvHead h) d

/-- The keys that query `i` of a request sees. The causal mask is aligned at the last key. -/
def visible (b i : Nat) : Finset Nat :=
  (Finset.range (a.sequsedK b).toNat).filter fun j =>
    a.causal = true → (j : Int) ≤ i + a.sequsedK b - a.queryLen b

structure WellFormed : Prop where
  cumulative : ∀ b < a.batch, a.cuSeqlensQ b ≤ a.cuSeqlensQ (b + 1)
  queries : ∀ b < a.batch, a.queryLen b ≤ a.maxSeqlenQ
  keys : ∀ b < a.batch, a.sequsedK b ≤ a.maxSeqlenK ∧ a.sequsedK b ≤ a.tableWidth * a.page
  blocks : ∀ b < a.batch, ∀ j : Nat, (j : Int) < a.sequsedK b → 0 ≤ a.block b j

/-- The result for head `h` of token `n` is that of attention to the keys `S` of request `b`. -/
structure ResultOver (S : Finset Nat) (state : AttnState) (b n h : Nat) : Prop where
  out : ∀ d < a.headDim, state.1 n h d = Attention.attend S (a.score b n h) (a.value b h d)
  lse : state.2 h n = (Attention.lse S (a.score b n h) : WithBot ℝ)

/-- The result for query `i` of request `b`. -/
def ExactResult (state : AttnState) (b i h : Nat) : Prop :=
  a.ResultOver (a.visible b i) state b (a.cuSeqlensQ b + i) h

end FlashAttnArgs

def ExactAttention (fa : FlashAttnArgs → AttnState) : Prop :=
  ∀ a : FlashAttnArgs, a.WellFormed → ∀ b < a.batch, ∀ i < a.queryLen b, ∀ h < a.numHeads,
    (a.visible b i).Nonempty → a.ExactResult (fa a) b i h

namespace FlashAttnArgs

variable (a : FlashAttnArgs)

def request (n : Nat) : Nat := Nat.findGreatest (fun b => a.cuSeqlensQ b ≤ n) (a.batch - 1)

noncomputable def exactAttention : AttnState :=
  let seen n := a.visible (a.request n) (n - a.cuSeqlensQ (a.request n))
  (fun n h d => Attention.attend (seen n) (a.score (a.request n) n h) (a.value (a.request n) h d),
    fun h n => (Attention.lse (seen n) (a.score (a.request n) n h) : ℝ))

theorem request_eq {a : FlashAttnArgs} (hwell : a.WellFormed) {b i : Nat} (hb : b < a.batch)
    (hi : i < a.queryLen b) : a.request (a.cuSeqlensQ b + i) = b := by
  have hmono : ∀ b', b < b' → b' < a.batch → a.cuSeqlensQ (b + 1) ≤ a.cuSeqlensQ b' := by
    intro b' hlt
    induction b', hlt using Nat.le_induction with
    | base => exact fun _ => le_rfl
    | succ b' hle ih => exact fun h => (ih (by omega)).trans (hwell.cumulative b' (by omega))
  unfold queryLen at hi
  refine Nat.findGreatest_eq_iff.mpr ⟨by omega, fun _ => Nat.le_add_right _ _,
    fun b' hlt hle h => ?_⟩
  have hnext := hmono b' hlt (by omega)
  omega

end FlashAttnArgs

theorem exactAttention_exact : ExactAttention FlashAttnArgs.exactAttention := by
  intro a hwell b hb i hi h hh hvisible
  have hrequest := FlashAttnArgs.request_eq hwell hb hi
  constructor
  · intro d hd
    unfold FlashAttnArgs.exactAttention
    dsimp only
    rw [hrequest, Nat.add_sub_cancel_left]
  · unfold FlashAttnArgs.exactAttention
    dsimp only
    rw [hrequest, Nat.add_sub_cancel_left]

noncomputable def mergeAttnStates (first second : AttnState) : AttnState :=
  (fun n h d => (Attention.merge (first.1 n h d) (first.2 h n) (second.1 n h d) (second.2 h n)).1,
    fun h n => (Attention.merge 0 (first.2 h n) 0 (second.2 h n)).2)

namespace FlashAttnArgs

variable {a : FlashAttnArgs} {S T : Finset Nat} {first second : AttnState} {b n h : Nat}

theorem ResultOver.merge (h₁ : a.ResultOver S first b n h) (h₂ : a.ResultOver T second b n h)
    (hdisjoint : Disjoint S T) (hS : S.Nonempty) (hT : T.Nonempty) :
    a.ResultOver (S ∪ T) (mergeAttnStates first second) b n h := by
  constructor
  · intro d hd
    unfold mergeAttnStates
    dsimp only
    rw [h₁.out d hd, h₁.lse, h₂.out d hd, h₂.lse, Attention.merge_attend hdisjoint hS hT]
  · unfold mergeAttnStates
    dsimp only
    rw [h₁.lse, h₂.lse, ← Attention.merge_snd (Attention.attend S _ (a.value b h 0))
      (Attention.attend T _ (a.value b h 0)), Attention.merge_attend hdisjoint hS hT]

theorem ResultOver.merge_bot (hnone : first.2 h n = ⊥) (h₂ : a.ResultOver T second b n h) :
    a.ResultOver T (mergeAttnStates first second) b n h := by
  constructor
  · intro d hd
    unfold mergeAttnStates
    dsimp only
    rw [hnone, h₂.lse, Attention.merge_bot, h₂.out d hd]
  · unfold mergeAttnStates
    dsimp only
    rw [hnone, h₂.lse, Attention.merge_bot]

end FlashAttnArgs

end LongCtxSpecDecode
