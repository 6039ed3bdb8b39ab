import LongCtxSpecDecode.Basic
import LongCtxSpecDecode.Library.Grouping

/-!
# The exchange of expert weights

When the experts are rebalanced, every rank goes from the old assignment of experts to its local
rows to the new one. `move_to_buffer` copies what the rank has itself, and posts sends and receives
for the rest; `move_from_buffer` copies the buffers back and duplicates rows received once.
`R` is the number of ranks, `n` of local rows, `k` of weight tensors of a layer, and `V` the content
of one row of one tensor.
-/

namespace LongCtxSpecDecode

open Library

variable {R n k : Nat} {V : Type}

-- membership in a list of ranks or rows is decided through this one instance
instance instLawfulBEqFin (m : Nat) : LawfulBEq (Fin m) := inferInstance

/-- A physical-to-logical map: the expert of each row of each rank, `-1` for none. -/
abbrev ExpertMap (R n : Nat) := Fin (R * n) → Int

/-- The experts of the rows of a rank: `indices[base + local_rows]`. -/
def ExpertMap.localIds (indices : ExpertMap R n) (rank : Fin R) (row : Fin n) : Int :=
  indices (finProdFinEquiv (rank, row))

abbrev ExpertRows (n k : Nat) (V : Type) := Fin n → Fin k → V

/-! ### Who has an expert -/

/-- The positions of the queried experts sorted by expert and cut where the expert changes; for
each expert the ranks in the order of their first position. -/
def ranksByExpert (experts : List Int) (indices : ExpertMap R n) :
    OrderedDict Int (List (Fin R)) :=
  let relevantPositions := (List.finRange (R * n)).filter fun p => indices p ∈ experts
  -- `np.lexsort((positions, experts))`
  let sortedPositions := lexsort indices relevantPositions
  (runsBy indices sortedPositions).mapValues fun run => firstsBy id (run.map Fin.divNat)

def fillMissing (experts : List Int) (ranks : OrderedDict Int (List (Fin R))) :
    OrderedDict Int (List (Fin R)) :=
  experts.foldl (fun ranks expert => if expert ∈ ranks.keys then ranks else ranks.set expert [])
    ranks

/-- `get_ep_ranks_with_experts_batch`: for each expert the ranks that have it, and the ranks that
need it and do not have it. -/
def getEpRanksWithExpertsBatch (expertIds : List Int) (oldIndices newIndices : ExpertMap R n) :
    OrderedDict Int (List (Fin R)) × OrderedDict Int (List (Fin R)) :=
  if expertIds = [] then ([], [])
  else
    let uniqueExperts := uniqueBy id expertIds
    let ranksToSend := ranksByExpert uniqueExperts oldIndices
    let ranksToRecv := (ranksByExpert uniqueExperts newIndices).mapItems fun expert ranks =>
      ranks.filter fun r => r ∉ (ranksToSend.get expert).getD []
    (fillMissing uniqueExperts ranksToSend, fillMissing uniqueExperts ranksToRecv)

/-! ### One rank -/

/-- A posted operation on one row of one tensor: a send of a row of the weights, or a receive into
a row of the buffers. -/
inductive P2POp (R n k : Nat) where
  | isend (tensor : Fin k) (row : Fin n) (dst : Fin R)
  | irecv (tensor : Fin k) (row : Fin n) (src : Fin R)
deriving DecidableEq, Repr

/-- `send_map[expert]`. -/
def ranksOfExpert (ranks : OrderedDict Int (List (Fin R))) (expert : Int) :
    Except Exn (List (Fin R)) :=
  match ranks.get expert with
  | some ranks => .ok ranks
  | none => .error (.keyError (toString expert))

/-- `ranks.index(ep_rank)`. -/
def indexOfRank (ranks : List (Fin R)) (rank : Fin R) : Except Exn Nat :=
  if rank ∈ ranks then .ok (ranks.idxOf rank)
  else .error (.valueError s!"{rank.val} is not in list")

/-- The ranks that the sender at a position of `ranks_to_send` sends to. -/
def recvRanksOf (ranksToSend ranksToRecv : List (Fin R)) (senderPos : Nat) : List (Fin R) :=
  let numDstPerSender := ranksToRecv.length / ranksToSend.length
  let recvBegin := senderPos * numDstPerSender
  let recvRanks := (ranksToRecv.drop recvBegin).take numDstPerSender
  let remainderStart := ranksToSend.length * numDstPerSender
  let recverPos := remainderStart + senderPos
  match ranksToRecv[recverPos]? with
  | some rank => recvRanks ++ [rank]
  | none => recvRanks

/-- The position of the sender for the receiver at a position of `ranks_to_recv`. -/
def senderPosOf (ranksToSend ranksToRecv : List (Fin R)) (recverPos : Nat) : Nat :=
  let numDstPerSender := ranksToRecv.length / ranksToSend.length
  let remainderStart := ranksToSend.length * numDstPerSender
  if recverPos < remainderStart then recverPos / numDstPerSender else recverPos - remainderStart

def postSends (rank : Fin R) (sendMap recvMap : OrderedDict Int (List (Fin R))) :
    List (Int × Fin n) → Except Exn (List (P2POp R n k))
  | [] => .ok []
  | (expert, src) :: rows => do
      let ranksToSend ← ranksOfExpert sendMap expert
      let ranksToRecv ← ranksOfExpert recvMap expert
      if ranksToSend = [] ∨ ranksToRecv = [] then postSends rank sendMap recvMap rows
      else do
        let senderPos ← indexOfRank ranksToSend rank
        let rest ← postSends rank sendMap recvMap rows
        .ok ((recvRanksOf ranksToSend ranksToRecv senderPos).flatMap (fun dst =>
          (List.finRange k).map fun tensor => .isend tensor src dst) ++ rest)

def postRecvs (rank : Fin R) (sendMap recvMap : OrderedDict Int (List (Fin R))) :
    List (Int × Fin n) → Except Exn (List (P2POp R n k))
  | [] => .ok []
  | (expert, dst) :: rows => do
      let ranksToSend ← ranksOfExpert sendMap expert
      let ranksToRecv ← ranksOfExpert recvMap expert
      if ranksToSend = [] ∨ ranksToRecv = [] then postRecvs rank sendMap recvMap rows
      else do
        let recverPos ← indexOfRank ranksToRecv rank
        match ranksToSend[senderPosOf ranksToSend ranksToRecv recverPos]? with
        | none => .error (.indexError "list index out of range")
        | some src => do
            let rest ← postRecvs rank sendMap recvMap rows
            .ok ((List.finRange k).map (fun tensor => .irecv tensor dst src) ++ rest)

section MoveToBuffer

variable (oldIndices newIndices : ExpertMap R n) (rank : Fin R)

def isUnchanged (row : Fin n) : Bool :=
  oldIndices.localIds rank row = newIndices.localIds rank row

def isReceivedLocally (row : Fin n) : Bool :=
  isUnchanged oldIndices newIndices rank row ||
    (newIndices.localIds rank row ≠ -1 &&
      (List.finRange n).any fun src =>
        oldIndices.localIds rank src = newIndices.localIds rank row)

/-- `np.unique(ids[mask], return_index=True)`: the experts of some rows in increasing order, each
with its first row. -/
def firstRows (ids : Fin n → Int) (mask : Fin n → Bool) : List (Int × Fin n) :=
  (uniqueBy ids ((List.finRange n).filter mask)).map fun row => (ids row, row)

def sendSrcRows : List (Int × Fin n) :=
  firstRows (oldIndices.localIds rank) fun row => oldIndices.localIds rank row ≠ -1

def recvDstRows : List (Int × Fin n) :=
  firstRows (newIndices.localIds rank) fun row =>
    !isReceivedLocally oldIndices newIndices rank row && newIndices.localIds rank row ≠ -1

def moveLocally (weights buffers : ExpertRows n k V) : ExpertRows n k V :=
  let destIndices := (List.finRange n).filter fun row =>
    !isUnchanged oldIndices newIndices rank row && isReceivedLocally oldIndices newIndices rank row
  destIndices.foldl (fun buffers dst =>
    match OrderedDict.get (sendSrcRows oldIndices rank) (newIndices.localIds rank dst) with
    | some src => Function.update buffers dst (weights src)
    | none => buffers) buffers

/-- `RecvMetadata`; the first `recv_count` entries of `recv_expert_ids` and `recv_dst_rows` are
the pairs of `recvRows`. -/
structure RecvMetadata (n : Nat) where
  recvPrimaryMask : Fin n → Bool
  recvRows : List (Int × Fin n)

/-- What `move_to_buffer` returns, with the buffers and the posted operations it leaves. -/
structure MoveToBuffer (R n k : Nat) (V : Type) where
  isUnchanged : Fin n → Bool
  isReceivedLocally : Fin n → Bool
  recvMetadata : RecvMetadata n
  buffers : ExpertRows n k V
  p2pOps : List (P2POp R n k)

/-- `move_to_buffer` up to the exchange. -/
def moveToBuffer (weights buffers : ExpertRows n k V) : Except Exn (MoveToBuffer R n k V) := do
  let sends := sortBy Prod.fst (sendSrcRows oldIndices rank)
  let sendMaps := getEpRanksWithExpertsBatch (sends.map Prod.fst) oldIndices newIndices
  let sendOps ← postSends rank sendMaps.1 sendMaps.2 sends
  let recvs := sortBy Prod.fst (recvDstRows oldIndices newIndices rank)
  let recvMaps := getEpRanksWithExpertsBatch (recvs.map Prod.fst) oldIndices newIndices
  let recvOps ← postRecvs rank recvMaps.1 recvMaps.2 recvs
  .ok
    { isUnchanged := isUnchanged oldIndices newIndices rank
      isReceivedLocally := isReceivedLocally oldIndices newIndices rank
      recvMetadata :=
        { recvPrimaryMask := fun row =>
            row ∈ (recvDstRows oldIndices newIndices rank).map Prod.snd
          recvRows := recvDstRows oldIndices newIndices rank }
      buffers := moveLocally oldIndices newIndices rank weights buffers
      p2pOps := sendOps ++ recvOps }

end MoveToBuffer

/-! ### The exchange -/

def sendsTo (dst : Fin R) (ops : List (P2POp R n k)) : List (Fin k × Fin n) :=
  ops.filterMap fun
    | .isend tensor row d => if d = dst then some (tensor, row) else none
    | .irecv _ _ _ => none

def recvsFrom (src : Fin R) (ops : List (P2POp R n k)) : List (Fin k × Fin n) :=
  ops.filterMap fun
    | .isend _ _ _ => none
    | .irecv tensor row s => if s = src then some (tensor, row) else none

structure Receive (n k : Nat) (V : Type) where
  tensor : Fin k
  row : Fin n
  value : V

def receive (buffers : ExpertRows n k V) (r : Receive n k V) : ExpertRows n k V :=
  Function.update buffers r.row (Function.update (buffers r.row) r.tensor r.value)

/-- `batch_isend_irecv`: the receives of `dst` from each rank get what that rank sends to `dst`,
the first receive the first send and so on. -/
def receivesOf (weights : Fin R → ExpertRows n k V) (ops : Fin R → List (P2POp R n k))
    (dst : Fin R) : List (Receive n k V) :=
  (List.finRange R).flatMap fun src =>
    ((sendsTo dst (ops src)).zip (recvsFrom src (ops dst))).map fun pair =>
      ⟨pair.2.1, pair.2.2, weights src pair.1.2 pair.1.1⟩

/-! ### Back from the buffers -/

/-- `np.searchsorted` in the experts of sorted pairs. -/
def searchsorted (rows : List (Int × Fin n)) (expert : Int) : Nat :=
  rows.countP fun pair => pair.1 < expert

def matchedRow (primRows : List (Int × Fin n)) (expert : Int) (dst : Fin n) :
    Option (Fin n × Fin n) :=
  match primRows[searchsorted primRows expert]? with
  | some (found, src) => if found = expert then some (dst, src) else none
  | none => none

def moveFromBuffer (weights buffers : ExpertRows n k V)
    (isUnchanged isReceivedLocally : Fin n → Bool)
    (recvMetadata : RecvMetadata n) (newIndices : ExpertMap R n) (rank : Fin R) :
    ExpertRows n k V :=
  let destIndices := (List.finRange n).filter fun row =>
    !isUnchanged row && (isReceivedLocally row || recvMetadata.recvPrimaryMask row)
  let weights := destIndices.foldl (fun weights dst =>
    Function.update weights dst (buffers dst)) weights
  if recvMetadata.recvRows = [] then weights
  else
    let dupDstRows := (List.finRange n).filter fun row =>
      (!isUnchanged row && !isReceivedLocally row) &&
        (!recvMetadata.recvPrimaryMask row && newIndices.localIds rank row ≠ -1)
    let primRows := sortBy Prod.fst recvMetadata.recvRows
    let matched := dupDstRows.filterMap fun dst =>
      matchedRow primRows (newIndices.localIds rank dst) dst
    matched.foldl (fun weights pair => Function.update weights pair.1 (weights pair.2)) weights

/-- The weights of a rank after all ranks have run `move_to_buffer` and `move_from_buffer`. -/
def exchanged (newIndices : ExpertMap R n) (weights : Fin R → ExpertRows n k V)
    (moves : Fin R → MoveToBuffer R n k V) (rank : Fin R) : ExpertRows n k V :=
  let buffers := (receivesOf weights (fun r => (moves r).p2pOps) rank).foldl receive
    (moves rank).buffers
  moveFromBuffer (weights rank) buffers (moves rank).isUnchanged (moves rank).isReceivedLocally
    (moves rank).recvMetadata newIndices rank

end LongCtxSpecDecode
