import LongCtxSpecDecode.Library.Stores
import LongCtxSpecDecode.SlotTable

/-!
# The keys of the draft pass

`longspec/portable/draft_kv.py` and the kernel of `longspec/kernels/draft_gather.py`: the selected
tokens are shown to the attention kernel through pages of one token, or copied into scratch memory
that is kept over the draft steps. `E` is the type of the elements of the KV cache, whose tensors
are flat here.
-/

namespace LongCtxSpecDecode

open SlotTable Library.Stores List Function

section

variable {E : Type}

/-- What a draft step passes to the attention backend. -/
structure AttnKwargs (E : Type) where
  k : Int → E
  v : Int → E
  /-- The size of the pages that `k` and `v` are viewed in. -/
  page : Nat
  sequsedK : Nat → Int
  blockTable : Nat → Nat → Int
  maxSeqlenK : Option Nat

/-- The keys and values that attention reads for a request, each with `inner` elements. -/
def AttnKwargs.presented (kwargs : AttnKwargs E) (inner b : Nat) : List (List E × List E) :=
  (range (kwargs.sequsedK b).toNat).map fun t : Nat =>
    let token := slotOf (kwargs.blockTable b) kwargs.page t
    ((range inner).map fun i : Nat => kwargs.k (token * inner + i),
      (range inner).map fun i : Nat => kwargs.v (token * inner + i))

/-- The selected slots of one layer, and the cache that they point into. -/
structure DraftCall (E : Type) where
  layer : Nat
  batch : Nat
  slots : Nat → Nat → Int
  used : Nat → Int
  k : Int → E
  v : Int → E
  maxSeqlenK : Option Nat := none

/-- The cache itself, viewed in pages of one token. -/
def TokenPagedDraftKV.attentionKwargs (call : DraftCall E) : AttnKwargs E where
  k := call.k
  v := call.v
  page := 1
  sequsedK := call.used
  blockTable := call.slots
  maxSeqlenK := call.maxSeqlenK

/-! ### The gather -/

/-- `CHUNK`. -/
def gatherChunk (inner : Nat) : Nat := min 256 (nextPowerOf2 inner)

/-- The stores of one program of `_gather_kernel`, to one of the two destinations. -/
def gatherKernel (src : Int → E) (slots : Nat → Int) (start stop : Int) (inner row tile : Nat) :
    List (Nat × E) :=
  if stop ≤ (tile * 16 : Nat) ∨ (tile * 16 + 16 : Nat) ≤ start then []
  else
    (range ((inner + gatherChunk inner - 1) / gatherChunk inner)).flatMap fun c =>
      (range 16).flatMap fun dt =>
        ((range (gatherChunk inner)).filter fun di =>
          start ≤ (tile * 16 + dt : Nat) ∧ (tile * 16 + dt : Nat) < stop ∧
            c * gatherChunk inner + di < inner).map fun di =>
          (row + (tile * 16 + dt) * inner + (c * gatherChunk inner + di),
            src (slots (tile * 16 + dt) * inner + (c * gatherChunk inner + di : Nat)))

/-- The stores of `gather_tokens` to the rows of a matrix at `base`. -/
def gatherTokens (src : Int → E) (slots : Nat → Nat → Int) (starts ends : Nat → Int)
    (base batch width inner : Nat) : List (Nat × E) :=
  (range batch).flatMap fun b =>
    (range ((width + 15) / 16)).flatMap fun tile =>
      gatherKernel src (slots b) (starts b) (ends b) inner (base + b * (width * inner)) tile

/-- The scratch memory of the layers, with the flags of the layers that have gathered. -/
structure GatheredDraftKV (E : Type) where
  maxBatchSize : Nat
  page : Nat
  pages : Nat
  /-- The elements of a token's key: `kv_heads * head_dim`. -/
  inner : Nat
  page_pos : 0 < page
  inner_pos : 0 < inner
  fresh : Nat → Bool
  k : Nat → E
  v : Nat → E

namespace GatheredDraftKV

/-- The number of tokens that a row of the scratch buffer has room for. -/
def width (g : GatheredDraftKV E) : Nat := g.pages * g.page

def beginPropose (g : GatheredDraftKV E) : GatheredDraftKV E := { g with fresh := fun _ => false }

/-- `starts`: a gathered layer only gets the token of the last step. -/
def starts (g : GatheredDraftKV E) (call : DraftCall E) (b : Nat) : Int :=
  if g.fresh call.layer then max (call.used b - 1) 0 else 0

/-- Where the rows of a layer begin. -/
def base (g : GatheredDraftKV E) (layer : Nat) : Nat := layer * g.maxBatchSize * (g.width * g.inner)

/-- `gather_tokens` for the keys and the values of a layer. -/
def gather (g : GatheredDraftKV E) (call : DraftCall E) : GatheredDraftKV E :=
  { g with
    fresh := update g.fresh call.layer true
    k := storeAll (gatherTokens call.k call.slots (g.starts call) call.used (g.base call.layer)
      call.batch g.width g.inner) g.k
    v := storeAll (gatherTokens call.v call.slots (g.starts call) call.used (g.base call.layer)
      call.batch g.width g.inner) g.v }

def attentionKwargs (g : GatheredDraftKV E) (call : DraftCall E) :
    AttnKwargs E × GatheredDraftKV E :=
  let g' := g.gather call
  ({ k := fun a => g'.k a.toNat
     v := fun a => g'.v a.toNat
     page := g.page
     sequsedK := call.used
     blockTable := fun b col => ((call.layer * g.maxBatchSize + b) * g.pages + col : Nat)
     maxSeqlenK := call.maxSeqlenK.map (min · g.width) }, g')

def run (g : GatheredDraftKV E) : List (DraftCall E) → List (AttnKwargs E)
  | [] => []
  | call :: calls => (g.attentionKwargs call).1 :: (g.attentionKwargs call).2.run calls

end GatheredDraftKV

/-! ### What is gathered -/

theorem gatherChunk_pos (inner : Nat) : 0 < gatherChunk inner := by
  unfold gatherChunk
  have hpos := nextPowerOf2_pos inner
  omega

variable {src : Int → E}

theorem mem_gatherKernel {slots : Nat → Int} {start stop : Int} {inner row tile : Nat}
    {store : Nat × E} :
    store ∈ gatherKernel src slots start stop inner row tile ↔
      ∃ dt < 16, ∃ i < inner, start ≤ (tile * 16 + dt : Nat) ∧ (tile * 16 + dt : Nat) < stop ∧
        store = (row + (tile * 16 + dt) * inner + i, src (slots (tile * 16 + dt) * inner + i)) := by
  unfold gatherKernel
  split
  · constructor
    · intro h
      cases h
    · omega
  · simp only [mem_flatMap, mem_map, mem_filter, mem_range, decide_eq_true_eq]
    constructor
    · rintro ⟨c, hc, dt, hdt, di, ⟨hdi, hstart, hstop, hi⟩, rfl⟩
      exact ⟨dt, hdt, _, hi, hstart, hstop, rfl⟩
    · rintro ⟨dt, hdt, i, hi, hstart, hstop, rfl⟩
      have hchunk := gatherChunk_pos inner
      have hsplit : i / gatherChunk inner * gatherChunk inner + i % gatherChunk inner = i :=
        Nat.div_add_mod' i (gatherChunk inner)
      refine ⟨i / gatherChunk inner, ?_, dt, hdt, i % gatherChunk inner,
        ⟨Nat.mod_lt i hchunk, hstart, hstop, by omega⟩, ?_⟩
      · rw [← Nat.succ_le_iff, Nat.le_div_iff_mul_le hchunk, Nat.succ_mul]
        omega
      · rw [hsplit]

theorem mem_gatherTokens {slots : Nat → Nat → Int} {starts ends : Nat → Int}
    {base batch width inner : Nat} (hends : ∀ b < batch, ends b ≤ width) {store : Nat × E} :
    store ∈ gatherTokens src slots starts ends base batch width inner ↔
      ∃ b < batch, ∃ t < width, ∃ i < inner, starts b ≤ (t : Int) ∧ (t : Int) < ends b ∧
        store = (base + b * (width * inner) + t * inner + i, src (slots b t * inner + i)) := by
  unfold gatherTokens
  simp only [mem_flatMap, mem_range, mem_gatherKernel]
  constructor
  · rintro ⟨b, hb, tile, -, dt, -, i, hi, hstart, hstop, rfl⟩
    have hle := hends b hb
    exact ⟨b, hb, _, by omega, i, hi, hstart, hstop, rfl⟩
  · rintro ⟨b, hb, t, ht, i, hi, hstart, hstop, rfl⟩
    have hsplit : t / 16 * 16 + t % 16 = t := Nat.div_add_mod' t 16
    refine ⟨b, hb, t / 16, by omega, t % 16, by omega, i, hi, ?_⟩
    rw [hsplit]
    exact ⟨hstart, hstop, rfl⟩

/-- The batch and its selections fit into the scratch buffer. -/
structure DraftCall.Fits (maxBatchSize width : Nat) (call : DraftCall E) : Prop where
  batch : call.batch ≤ maxBatchSize
  used : ∀ b < call.batch, call.used b ≤ width

namespace GatheredDraftKV

variable {g : GatheredDraftKV E} {call call' : DraftCall E}

/-- Element `i` of token `t` in row `b` of a layer. -/
def address (g : GatheredDraftKV E) (layer b t i : Nat) : Nat :=
  g.base layer + b * (g.width * g.inner) + t * g.inner + i

theorem address_inj {layer layer' b b' t t' i i' : Nat} (hb : b < g.maxBatchSize)
    (hb' : b' < g.maxBatchSize) (ht : t < g.width) (ht' : t' < g.width) (hi : i < g.inner)
    (hi' : i' < g.inner) (h : g.address layer b t i = g.address layer' b' t' i') :
    layer = layer' ∧ b = b' ∧ t = t' ∧ i = i' := by
  have hflat : ∀ layer b t i, g.address layer b t i =
      ((layer * g.maxBatchSize + b) * g.width + t) * g.inner + i := by
    intro layer b t i
    unfold address base
    ring
  rw [hflat, hflat] at h
  obtain ⟨htoken, hi⟩ := flat_inj hi hi' h
  obtain ⟨hrow, ht⟩ := flat_inj ht ht' htoken
  obtain ⟨hlayer, hb⟩ := flat_inj hb hb' hrow
  exact ⟨hlayer, hb, ht, hi⟩

theorem storeAll_gatherTokens (hfits : call.Fits g.maxBatchSize g.width) (src : Int → E)
    (starts : Nat → Int)
    (mem : Nat → E) {layer b t i : Nat} (hb : b < g.maxBatchSize) (ht : t < g.width)
    (hi : i < g.inner) :
    storeAll (gatherTokens src call.slots starts call.used (g.base call.layer) call.batch g.width
      g.inner) mem (g.address layer b t i) =
      if layer = call.layer ∧ b < call.batch ∧ starts b ≤ t ∧ t < call.used b then
        src (call.slots b t * g.inner + i)
      else mem (g.address layer b t i) := by
  split
  · rename_i h
    obtain ⟨rfl, hbatch, hstart, hstop⟩ := h
    refine storeAll_of_mem (mem_map.mpr ⟨_, (mem_gatherTokens hfits.used).mpr
      ⟨b, hbatch, t, ht, i, hi, hstart, hstop, rfl⟩, rfl⟩) ?_
    rintro store hstore haddress
    obtain ⟨b', hb', t', ht', i', hi', -, -, rfl⟩ := (mem_gatherTokens hfits.used).mp hstore
    obtain ⟨-, rfl, rfl, rfl⟩ := address_inj (hb'.trans_le hfits.batch) hb ht' ht hi' hi haddress
    rfl
  · rename_i h
    refine storeAll_of_notMem fun hmem => h ?_
    obtain ⟨store, hstore, haddress⟩ := mem_map.mp hmem
    obtain ⟨b', hb', t', ht', i', hi', hstart, hstop, rfl⟩ :=
      (mem_gatherTokens hfits.used).mp hstore
    obtain ⟨rfl, rfl, rfl, rfl⟩ :=
      address_inj (hb'.trans_le hfits.batch) hb ht' ht hi' hi haddress
    exact ⟨rfl, hb', hstart, hstop⟩

/-- The scratch buffer has the selected tokens of `src`. -/
def Copied (g : GatheredDraftKV E) (call : DraftCall E) (mem : Nat → E) (src : Int → E) : Prop :=
  ∀ b < call.batch, ∀ t : Nat, (t : Int) < call.used b → ∀ i < g.inner,
    mem (g.address call.layer b t i) = src (call.slots b t * g.inner + i)

/-- The layer was gathered, and its rows are the selections of `call`. -/
structure Holds (g : GatheredDraftKV E) (call : DraftCall E) : Prop where
  fits : call.Fits g.maxBatchSize g.width
  fresh : g.fresh call.layer = true
  k : g.Copied call g.k call.k
  v : g.Copied call g.v call.v

/-- The next call of the layer, one token later: of the KV cache only the slots of the newest
tokens were written, and no older token is in one of them. -/
structure Advances (inner : Nat) (before call : DraftCall E) : Prop where
  batch : call.batch = before.batch
  slots : ∀ b < call.batch, call.slots b = before.slots b
  used : ∀ b < call.batch, call.used b = before.used b + 1
  written : ∀ slot : Int,
    (∀ b < call.batch, 0 < call.used b → slot ≠ call.slots b (call.used b - 1).toNat) →
      ∀ i < inner, call.k (slot * inner + (i : Nat)) = before.k (slot * inner + i) ∧
        call.v (slot * inner + i) = before.v (slot * inner + i)
  apart : ∀ b < call.batch, ∀ t : Nat, (t : Int) < call.used b - 1 → ∀ b' < call.batch,
    0 < call.used b' → call.slots b t ≠ call.slots b' (call.used b' - 1).toNat

theorem Copied.gather {mem : Nat → E} (hfits : call.Fits g.maxBatchSize g.width)
    (hold : ∀ b < call.batch, ∀ t : Nat, (t : Int) < g.starts call b → ∀ i < g.inner, mem (g.address
      call.layer b t i) = src (call.slots b t * g.inner + i)) :
    g.Copied call (storeAll (gatherTokens src call.slots (g.starts call) call.used
      (g.base call.layer) call.batch g.width g.inner) mem) src := by
  intro b hb t ht i hi
  have hwidth := hfits.used b hb
  rw [storeAll_gatherTokens hfits _ _ _ (hb.trans_le hfits.batch) (by omega) hi]
  split
  · rfl
  · rename_i hnot
    exact hold b hb t (not_le.mp fun hstart => hnot ⟨rfl, hb, hstart, ht⟩) i hi

theorem Holds.first (hfits : call.Fits g.maxBatchSize g.width)
    (hfresh : g.fresh call.layer = false) :
    (g.gather call).Holds call := by
  have hstarts : ∀ b, g.starts call b = 0 := fun b =>
    if_neg (by rw [hfresh]; exact Bool.false_ne_true)
  refine ⟨⟨hfits.batch, hfits.used⟩, update_self .., ?_, ?_⟩
  · refine Copied.gather hfits fun b _ t ht => ?_
    rw [hstarts] at ht
    omega
  · refine Copied.gather hfits fun b _ t ht => ?_
    rw [hstarts] at ht
    omega

theorem Holds.next (h : g.Holds call') (hlayer : call.layer = call'.layer)
    (hfits : call.Fits g.maxBatchSize g.width)
    (hadvances : Advances g.inner call' call) : (g.gather call).Holds call := by
  have hstarts : ∀ b, g.starts call b = max (call.used b - 1) 0 := fun b =>
    if_pos (by rw [hlayer]; exact h.fresh)
  have hkept : ∀ b < call.batch, ∀ t : Nat, (t : Int) < g.starts call b →
      (t : Int) < call'.used b ∧ call'.slots b t = call.slots b t ∧
        ∀ i < g.inner, call.k (call.slots b t * g.inner + (i : Nat)) =
            call'.k (call.slots b t * g.inner + i) ∧
          call.v (call.slots b t * g.inner + i) = call'.v (call.slots b t * g.inner + i) := by
    intro b hb t ht
    have hused := hadvances.used b hb
    rw [hstarts] at ht
    exact ⟨by omega, by rw [hadvances.slots b hb], hadvances.written _ fun b' hb' hpos =>
      hadvances.apart b hb t (by omega) b' hb' hpos⟩
  refine ⟨⟨hfits.batch, hfits.used⟩, update_self .., ?_, ?_⟩
  · refine Copied.gather hfits fun b hb t ht i hi => ?_
    obtain ⟨hused, hslot, hsame⟩ := hkept b hb t ht
    rw [hlayer, h.k b (hadvances.batch ▸ hb) t hused i hi, hslot, (hsame i hi).1]
  · refine Copied.gather hfits fun b hb t ht i hi => ?_
    obtain ⟨hused, hslot, hsame⟩ := hkept b hb t ht
    rw [hlayer, h.v b (hadvances.batch ▸ hb) t hused i hi, hslot, (hsame i hi).2]

theorem Holds.other (h : g.Holds call') (hne : call'.layer ≠ call.layer)
    (hfits : call.Fits g.maxBatchSize g.width) :
    (g.gather call).Holds call' := by
  have hcopied : ∀ (mem : Nat → E) (src src' : Int → E) (starts : Nat → Int),
      g.Copied call' mem src' → g.Copied call' (storeAll (gatherTokens src call.slots starts
        call.used (g.base call.layer) call.batch g.width g.inner) mem) src' := by
    intro mem src src' starts hmem b hb t ht i hi
    have hwidth := h.fits.used b hb
    rw [storeAll_gatherTokens hfits _ _ _ (hb.trans_le h.fits.batch) (by omega) hi,
      if_neg fun hlayer => hne hlayer.1]
    exact hmem b hb t ht i hi
  exact ⟨⟨h.fits.batch, h.fits.used⟩, (update_of_ne hne ..).trans h.fresh,
    hcopied _ _ _ _ h.k, hcopied _ _ _ _ h.v⟩

theorem presented_eq (h : (g.gather call).Holds call) {b : Nat} (hb : b < call.batch) :
    (g.attentionKwargs call).1.presented g.inner b =
      (TokenPagedDraftKV.attentionKwargs call).presented g.inner b := by
  refine map_congr_left fun t ht => ?_
  have hlt : (t : Int) < call.used b := by
    have ht := mem_range.mp ht
    dsimp only [attentionKwargs] at ht
    omega
  have htoken : slotOf (call.slots b) 1 t = call.slots b t := by
    unfold slotOf
    simp
  have hslot : slotOf ((g.attentionKwargs call).1.blockTable b) g.page t =
      ((call.layer * g.maxBatchSize + b) * g.width + t : Nat) := by
    have hcolumn : ((t : Int) / g.page).toNat = t / g.page := by
      rw [← Int.natCast_ediv, Int.toNat_natCast]
    have hsplit : t / g.page * g.page + t % g.page = t := Nat.div_add_mod' t g.page
    rw [slotOf, hcolumn, attentionKwargs, width]
    rw [← Int.natCast_emod, ← Int.natCast_mul, ← Int.natCast_add, add_mul, add_assoc,
      hsplit, mul_assoc]
  have haddress : ∀ i : Nat, (((call.layer * g.maxBatchSize + b) * g.width + t : Nat) *
      (g.inner : Int) + i).toNat = g.address call.layer b t i := by
    intro i
    rw [← Int.natCast_mul, ← Int.natCast_add, Int.toNat_natCast]
    unfold address base
    ring
  have hread : ∀ (mem : Nat → E) (src : Int → E), g.Copied call mem src →
      ((range g.inner).map fun i : Nat => mem (slotOf ((g.attentionKwargs call).1.blockTable b)
        g.page t * g.inner + i).toNat) =
        (range g.inner).map fun i : Nat => src (slotOf (call.slots b) 1 t * g.inner + i) := by
    intro mem src hcopied
    refine map_congr_left fun i hi => ?_
    rw [hslot, haddress, htoken]
    exact hcopied b hb t hlt i (mem_range.mp hi)
  exact Prod.ext (hread _ _ h.k) (hread _ _ h.v)

/-- The calls of a propose: for each layer, its calls advance from the first one on. `last` are the
calls so far. -/
def Steps (maxBatchSize width inner : Nat) (last : Nat → Option (DraftCall E)) :
    List (DraftCall E) → Prop
  | [] => True
  | call :: calls => call.Fits maxBatchSize width ∧
      (∀ before, last call.layer = some before → Advances inner before call) ∧
      Steps maxBatchSize width inner (update last call.layer (some call)) calls

/-- Attention sees the same keys and values from both, and a bound on the sequence lengths stays
one. -/
def SameTokens (inner : Nat) (kwargs : AttnKwargs E) (call : DraftCall E) : Prop :=
  ∀ b < call.batch, kwargs.presented inner b =
      (TokenPagedDraftKV.attentionKwargs call).presented inner b ∧
    ∀ bound, call.maxSeqlenK = some bound → call.used b ≤ bound →
      ∃ bound', kwargs.maxSeqlenK = some bound' ∧ call.used b ≤ bound'

/-- Each layer holds its last call of this round. -/
def Tracks (g : GatheredDraftKV E) (last : Nat → Option (DraftCall E)) : Prop :=
  ∀ layer, match last layer with
    | none => g.fresh layer = false
    | some call => call.layer = layer ∧ g.Holds call

variable {last : Nat → Option (DraftCall E)}

section

variable (h : g.Tracks last) (hfits : call.Fits g.maxBatchSize g.width)
  (hadvances : ∀ before, last call.layer = some before → Advances g.inner before call)
include h hfits hadvances

theorem Tracks.holds : (g.gather call).Holds call := by
  have hlayer := h call.layer
  cases hlast : last call.layer with
  | none =>
    rw [hlast] at hlayer
    exact Holds.first hfits hlayer
  | some before =>
    rw [hlast] at hlayer
    exact hlayer.2.next hlayer.1.symm hfits (hadvances before hlast)

theorem Tracks.gather : (g.gather call).Tracks (update last call.layer (some call)) := by
  intro layer
  rcases eq_or_ne layer call.layer with rfl | hne
  · rw [update_self]
    exact ⟨rfl, h.holds hfits hadvances⟩
  · rw [update_of_ne hne]
    have hlayer := h layer
    cases hlast : last layer with
    | none =>
      rw [hlast] at hlayer
      exact (update_of_ne hne ..).trans hlayer
    | some before =>
      rw [hlast] at hlayer
      obtain ⟨rfl, hholds⟩ := hlayer
      exact ⟨rfl, hholds.other hne hfits⟩

theorem sameTokens : SameTokens g.inner (g.attentionKwargs call).1 call := by
  intro b hb
  refine ⟨presented_eq (h.holds hfits hadvances) hb, fun bound hbound hle => ?_⟩
  refine ⟨min bound g.width, congrArg (Option.map _) hbound, ?_⟩
  have hwidth := hfits.used b hb
  omega

end

theorem Tracks.run {calls : List (DraftCall E)} (h : g.Tracks last)
    (hsteps : Steps g.maxBatchSize g.width g.inner last calls) :
    Forall₂ (SameTokens g.inner) (g.run calls) calls := by
  induction calls generalizing g last with
  | nil => exact .nil
  | cons call calls ih =>
    obtain ⟨hfits, hadvances, hrest⟩ := hsteps
    exact .cons (sameTokens h hfits hadvances)
      (ih (h.gather hfits hadvances) hrest)

/-- At every step of a propose attention sees the same keys and values through the scratch memory
as through the slots, where no older token is in the slot of a newest one. -/
theorem gathered_sameTokens (g : GatheredDraftKV E) (calls : List (DraftCall E))
    (hsteps : Steps g.maxBatchSize g.width g.inner (fun _ => none) calls) :
    Forall₂ (SameTokens g.inner) (g.beginPropose.run calls) calls :=
  Tracks.run (g := g.beginPropose) (fun _ => by rfl) hsteps

def smallScratch : GatheredDraftKV Nat where
  maxBatchSize := 1
  page := 2
  pages := 2
  inner := 1
  page_pos := Nat.two_pos
  inner_pos := Nat.one_pos
  fresh _ := false
  k _ := 0
  v _ := 0

/-- The first two draft steps of a request with the given slots, of which the second writes
`newest`. -/
def twoSteps (slots : Nat → Int) (newest : Int) : List (DraftCall Nat) :=
  [{ layer := 0, batch := 1, slots := fun _ => slots, used := fun _ => 1,
     k := Int.toNat, v := Int.toNat },
   { layer := 0, batch := 1, slots := fun _ => slots, used := fun _ => 2,
     k := fun a => if a = newest then 100 else a.toNat,
     v := fun a => if a = newest then 100 else a.toNat }]

theorem gathered_sameTokens_two :
    Forall₂ (SameTokens 1) (smallScratch.beginPropose.run (twoSteps (fun t => 5 + t) 6))
      (twoSteps (fun t => 5 + t) 6) := by
  refine gathered_sameTokens smallScratch _ ⟨⟨le_rfl, fun _ _ => show (1 : Int) ≤ 4 by decide⟩,
    by simp, ⟨le_rfl, fun _ _ => show (2 : Int) ≤ 4 by decide⟩, ?_, trivial⟩
  rintro before ⟨⟩
  refine ⟨rfl, fun _ _ => rfl, fun _ _ => rfl, fun slot hslot i hi => ?_,
    fun b hb t ht b' _ _ => ?_⟩
  · have hne : slot ≠ 6 := hslot 0 (by decide) (by decide)
    have hi : i < 1 := hi
    obtain rfl : i = 0 := by omega
    simp [smallScratch, hne]
  · have ht : (t : Int) < 2 - 1 := ht
    show (5 + (t : Int)) ≠ 6
    omega

/-- Where the slot of the newest token is also that of an older one, the copy of the older one is
stale. -/
theorem gathered_stale :
    ((smallScratch.beginPropose.run (twoSteps (fun _ => 5) 5)).map (·.presented 1 0)) =
        [[([5], [5])], [([5], [5]), ([100], [100])]] ∧
      ((twoSteps (fun _ => 5) 5).map fun call =>
        (TokenPagedDraftKV.attentionKwargs call).presented 1 0) =
        [[([5], [5])], [([100], [100]), ([100], [100])]] := by
  decide +kernel

end GatheredDraftKV

end

end LongCtxSpecDecode
