import VgEngine.KvCache.Store

/-! The radix cache over the store: insertion with its partial failures, lookup and
invalidation. -/
namespace VgEngine.KvCache
open RadixTree RadixTree.Tree

variable (env : Nat → Bool)

/-- `node_new`: the node, and its label when that is not empty. -/
def nodeNew (count ticks : Nat) : Bool × Nat :=
  if env ticks = false then (false, ticks + 1)
  else if count = 0 then (true, ticks + 1)
  else (env (ticks + 1), ticks + 2)

/-- Whether the child array of a node with `n` children is full: it starts with none and
then holds a power of two, four at least. -/
def childrenFull (n : Nat) : Bool := n == 0 || (4 ≤ n && 2 ^ n.log2 == n)

/-- `child_add` to a node with `n` children. -/
def childAdd (n ticks : Nat) : Bool × Nat :=
  if childrenFull n then (env ticks, ticks + 1) else (true, ticks)

/-- Move children to a new node. One that cannot be added is lost. -/
def addAll : List RadixNode → List RadixNode → Nat → List RadixNode × Nat
  | done, [], ticks => (done, ticks)
  | done, c :: cs, ticks =>
    let (ok, ticks) := childAdd env done.length ticks
    addAll (if ok then done ++ [c] else done) cs ticks

/-- The snapshots below and at a node, in the order of `node_invalidate_all`. -/
def snapshots (t : RadixNode) : List Nat := t.values.filterMap NodeData.snapshot

mutual
/-- The snapshots of a node in the order of `node_free`. -/
def freedSnapshots : RadixNode → List Nat
  | .node _ value children => freedAll children ++ value.snapshot.toList
def freedAll : List RadixNode → List Nat
  | [] => []
  | c :: cs => freedSnapshots c ++ freedAll cs
end

/-- How the walk of an insertion ended: what became of the tree, and the snapshots of
the nodes it freed on the way. -/
structure Grown (τ : Type) where
  status : Status
  tree : τ
  freed : List Nat
  ticks : Nat

/-- Split the edge to `c` after `k` tokens, and add a leaf for what is left of the path. -/
def splitEdge (path : List Nat) (k : Nat) (c : RadixNode) (ticks : Nat) : Grown RadixNode :=
  let (ok, ticks) := nodeNew env (c.label.drop k).length ticks
  if ok = false then ⟨.nomem, c, [], ticks⟩
  else
    let (children, ticks) := addAll env [] c.children ticks
    let tail : RadixNode := .node (c.label.drop k) c.value children
    let (ok, ticks) := childAdd env 0 ticks
    if ok = false then
      ⟨.nomem, .node (c.label.take k) .empty [], freedSnapshots tail, ticks⟩
    else if path.drop k = [] then ⟨.ok, .node (c.label.take k) .empty [tail], [], ticks⟩
    else
      let (ok, ticks) := nodeNew env (path.drop k).length ticks
      if ok = false then ⟨.nomem, .node (c.label.take k) .empty [tail], [], ticks⟩
      else
        let (ok, ticks) := childAdd env 1 ticks
        if ok = false then ⟨.nomem, .node (c.label.take k) .empty [tail], [], ticks⟩
        else
          ⟨.ok, .node (c.label.take k) .empty [tail, .node (path.drop k) .empty []], [], ticks⟩

mutual
/-- The loop of `vg_radix_insert`: make the path lead to a node. -/
def grow (path : List Nat) : RadixNode → Nat → Grown RadixNode
  | .node label value children, ticks =>
    if path = [] then ⟨.ok, .node label value children, [], ticks⟩
    else
      let g := growAll path children.length children ticks
      ⟨g.status, .node label value g.tree, g.freed, g.ticks⟩
/-- The part of it at the children of a node, `n` in all. -/
def growAll (path : List Nat) (n : Nat) : List RadixNode → Nat → Grown (List RadixNode)
  | [], ticks =>
    let (ok, ticks) := nodeNew env path.length ticks
    if ok = false then ⟨.nomem, [], [], ticks⟩
    else
      let (ok, ticks) := childAdd env n ticks
      if ok = false then ⟨.nomem, [], [], ticks⟩
      else ⟨.ok, [.node path .empty []], [], ticks⟩
  | c :: cs, ticks =>
    if Leads path c then
      let g := if common path c.label < c.label.length then
          splitEdge env path (common path c.label) c ticks
        else grow (path.drop (common path c.label)) c ticks
      ⟨g.status, g.tree :: cs, g.freed, g.ticks⟩
    else
      let g := growAll path n cs ticks
      ⟨g.status, c :: g.tree, g.freed, g.ticks⟩
end

namespace World

def closeAll : List Nat → World → Option World
  | [], w => some w
  | h :: hs, w => (w.sequenceClose h).bind (closeAll hs)

def radixOpen (w : World) : Except Status Nat × World :=
  let (ok, w) := w.ask env
  if ok = false then (.error .nomem, w)
  else
    let (ok, w) := w.ask env
    if ok = false then (.error .nomem, w)
    else (.ok w.radixes.length, { w with radixes := w.radixes ++ [.node [] .empty []] })

def setRadix (w : World) (r : Nat) (t : RadixNode) : World :=
  { w with radixes := w.radixes.set r t }

/-- Close the snapshot that an insertion replaces. -/
def closeReplaced (w : World) (t : RadixNode) (path : List Nat) : Option World :=
  match (t.valueAt .empty path).snapshot with
  | none => some w
  | some old => w.sequenceClose old

/-- The end of `vg_radix_insert`, at the node the path leads to. A failed fork leaves
there the handle just closed. -/
def setSnapshot (w : World) (r : Nat) (t : RadixNode) (seq : Nat) (path : List Nat) (fp : Nat)
    (tainted : Bool) : Option (Status × World) := do
  let w ← w.closeReplaced t path
  let (result, w) ← w.sequenceFork env seq path.length
  match result with
  | .error status => some (status, w)
  | .ok h => some (.ok, w.setRadix r (t.update (fun _ => ⟨fp, tainted, some h⟩) path))

def radixInsert (w : World) (r seq count fp : Nat) (tainted : Bool) : Option (Status × World) := do
  let t ← w.radixes[r]?
  let q ← w.seq seq
  if q.tokens.length < count then some (.invalid, w)
  else
    let path := q.tokens.take count
    let g := grow env path t w.ticks
    let w ← closeAll g.freed ({ w with ticks := g.ticks }.setRadix r g.tree)
    if g.status = .ok then setSnapshot env w r g.tree seq path fp tainted
    else some (g.status, w)

/-- `vg_radix_lookup`: the number of tokens matched, and the snapshot for them. -/
def radixLookup (w : World) (r : Nat) (tokens : List Nat) : Option ((Nat × Option Nat) × World) := do
  let t ← w.radixes[r]?
  let stats := { w.store.stats with prefixLookups := inc64 w.store.stats.prefixLookups }
  match t.longest (fun v => v.snapshot.isSome && !v.tainted) tokens 0 none with
  | none => some ((0, none), w.withStore { w.store with stats := stats })
  | some (matched, v) =>
    some ((matched, v.snapshot), w.withStore { w.store with stats := { stats with
      prefixHits := inc64 stats.prefixHits
      prefixTokensReused := (stats.prefixTokensReused + matched) % 2 ^ 64 } })

def radixInvalidate (w : World) (r : Nat) : Option World := do
  let t ← w.radixes[r]?
  let w ← closeAll (snapshots t) w
  some (w.setRadix r (t.map fun v => { v with snapshot := none }))

end World

inductive Call where
  | sequenceInit
  | append (h token : Nat)
  | fork (src count : Nat)
  | close (h : Nat)
  | pageAcquire (h layer token : Nat) (desired : Tier)
  | radixOpen
  | radixInsert (r seq count fp : Nat) (tainted : Bool)
  | radixLookup (r : Nat) (tokens : List Nat)
  | radixInvalidate (r : Nat)

/-- One call on the store, whatever it returns. -/
def World.step (w : World) : Call → Option World
  | .sequenceInit => some (w.sequenceInit env).2
  | .append h token => (w.sequenceAppend env h token).map Prod.snd
  | .fork src count => (w.sequenceFork env src count).map Prod.snd
  | .close h => w.sequenceClose h
  | .pageAcquire h layer token desired => (w.pageAcquire env h layer token desired).map Prod.snd
  | .radixOpen => some (w.radixOpen env).2
  | .radixInsert r seq count fp tainted => (w.radixInsert env r seq count fp tainted).map Prod.snd
  | .radixLookup r tokens => (w.radixLookup r tokens).map Prod.snd
  | .radixInvalidate r => w.radixInvalidate r

end VgEngine.KvCache
