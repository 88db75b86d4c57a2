import Mathlib.Data.List.ReduceOption
import Mathlib.Logic.Function.Basic
import Wardence.LeakAgent.Loops
import Wardence.Lib.Heap
/-!
# The retained graphs

The references between the nodes of `CHUNKS`, of the GRAPH backbone and of the CHURN ring,
where `World` keeps their numbers. Nodes are numbered as they are made. The random numbers,
and the allocations that fail, are given.
-/
namespace Wardence.LeakAgent.Graphs

open Heap

/-! ## CHUNKS -/

def REFS_PER_NODE : ℕ := 8
def REF_WINDOW_SIZE : ℕ := 50

structure Chunks where
  refs : ℕ → List ℕ
  chunks : List ℕ
  made : ℕ

/-- The worker's append; `pick r % n` is `nextInt(n)`. -/
def Chunks.append (c : Chunks) (pick : ℕ → ℕ) : Chunks :=
  let n := c.chunks.length
  let windowSize := min n REF_WINDOW_SIZE
  let windowStart := n - windowSize
  let refCount := min REFS_PER_NODE windowSize
  let refs := (List.range refCount).filterMap fun r => c.chunks[windowStart + pick r % windowSize]?
  { refs := Function.update c.refs c.made refs, chunks := c.chunks ++ [c.made], made := c.made + 1 }

/-- The loop of `governorTrimTo`; `n` is the length of the list. -/
def trimmed (newCeilingBytes : Int) : ℕ → Int → List ℕ → List ℕ
  | 0, _, cs => cs
  | n + 1, allocatedBytes, cs =>
    if newCeilingBytes < allocatedBytes then trimmed newCeilingBytes n (allocatedBytes - CHUNK_BYTES) cs.dropLast else cs

/-- What happens to the list. A trim may find any `allocatedBytes`, which is counted outside the lock. -/
inductive Change where
  | append (pick : ℕ → ℕ)
  | trim (newCeilingMb allocatedBytes : Int)
  | clear

def Chunks.step (c : Chunks) : Change → Chunks
  | .append pick => c.append pick
  | .trim newCeilingMb allocatedBytes =>
    { c with chunks := trimmed (max 0 newCeilingMb * 1024 * 1024) c.chunks.length allocatedBytes c.chunks }
  | .clear => { c with chunks := [] }

def Chunks.run (cs : List Change) : Chunks := cs.foldl Chunks.step ⟨fun _ => [], [], 0⟩

/-! ## GRAPH -/

/-- The edges of each node, `none` when they are nulled, and the slots of the backbone. `asked` is the largest
number of edges asked for since the backbone was built. -/
structure Graph where
  edges : ℕ → Option (List (Option ℕ))
  backbone : Option (List (Option ℕ))
  made : ℕ
  asked : ℕ

/-- A rewritten slot; `fails`: the edges or the node cannot be allocated. -/
structure Write where
  idx : ℕ
  pick : ℕ → ℕ
  fails : Bool

/-- A pass of the loop: the command's fields, whether the array can be allocated and how many nodes of it, the
initial edges, and the writes. -/
structure Tick where
  slots : Int
  edges : Int
  array : Bool
  built : ℕ
  wire : ℕ → ℕ → ℕ
  writes : List Write

/-- The evicted node's edges are nulled before the new node is allocated. -/
def Graph.write (g : Graph) (edg : ℕ) (bb : List (Option ℕ)) (w : Write) : Graph :=
  let idx := w.idx % bb.length
  let edges := match bb[idx]?.join with
    | some old => Function.update g.edges old none
    | none => g.edges
  if w.fails then { g with edges }
  else
    let e := (List.range edg).map fun k => bb[w.pick k % bb.length]?.join
    { g with edges := Function.update edges g.made (some e), backbone := some (bb.set idx (some g.made)), made := g.made + 1 }

def Graph.rewrite (edg : ℕ) (g : Graph) : List Write → Graph
  | [] => g
  | w :: ws =>
    match g.backbone with
    | none => g
    | some bb => if w.fails then g.write edg bb w else Graph.rewrite edg (g.write edg bb w) ws

def Graph.build (g : Graph) (slots edg built : ℕ) (wire : ℕ → ℕ → ℕ) : Graph :=
  let nb := (List.range slots).map fun i => if i < built then some (g.made + i) else none
  { edges := fun x =>
      if g.made ≤ x ∧ x < g.made + min built slots then
        some ((List.range edg).map fun k => nb[wire (x - g.made) k % slots]?.join)
      else g.edges x
    backbone := some nb
    made := g.made + min built slots
    asked := edg }

def Graph.tick (g : Graph) (t : Tick) : Graph :=
  if t.slots ≤ 0 then { g with backbone := none }
  else
    let edg := (max 0 t.edges).toNat
    let slots := t.slots.toNat
    if g.backbone.any fun bb => bb.length = slots then Graph.rewrite edg { g with asked := max g.asked edg } t.writes
    else if t.array then Graph.rewrite edg (g.build slots edg t.built t.wire) t.writes
    else g

def Graph.run (ts : List Tick) : Graph := ts.foldl Graph.tick ⟨fun _ => none, none, 0, 0⟩

def Graph.refs (g : Graph) (x : ℕ) : List ℕ := ((g.edges x).getD []).reduceOption

/-- The backbone's nodes. -/
def Graph.nodes (g : Graph) : List ℕ := (g.backbone.getD []).reduceOption

def Graph.slots (g : Graph) : ℕ := (g.backbone.getD []).length

/-! ## CHURN -/

def CHURN_REFS_PER_NODE : ℕ := 6
def CHURN_REF_WINDOW : ℕ := 40
def CHURN_DENSE_CLUSTER_BYTES : Int := 256 * 1024
def CHURN_DENSE_NODES : ℕ := 256 * 1024 / 72

/-- `cluster`: it has a chain of `DenseNode`s. -/
structure ChurnNode where
  createdAtMs : Int
  refs : Option (List ℕ)
  cluster : Bool
  approxBytes : Int

structure Churn where
  node : ℕ → ChurnNode
  ring : List ℕ
  made : ℕ
  churnLiveBytes : Int

/-- A chunk to be added; `fails`: it cannot be allocated. -/
structure Add where
  createdAtMs : Int
  pick : ℕ → ℕ
  fails : Bool

structure Pass where
  target : Int
  holdMs : Int
  linked : Bool
  dense : Bool
  now : Int
  adds : ℕ → Add

/-- Evicts the heads of a ring that are old, or all of it. -/
def Churn.evict (p : Pass) (c : Churn) : List ℕ → Churn
  | [] => c
  | head :: ring =>
    if p.target = 0 ∨ p.holdMs ≤ p.now - (c.node head).createdAtMs then
      Churn.evict p
        { c with
          node := Function.update c.node head { c.node head with refs := none }
          ring
          churnLiveBytes := max 0 (c.churnLiveBytes - (c.node head).approxBytes) } ring
    else c

def Churn.push (c : Churn) (n : ChurnNode) : Churn where
  node := Function.update c.node c.made n
  ring := c.ring ++ [c.made]
  made := c.made + 1
  churnLiveBytes := c.churnLiveBytes + n.approxBytes

def Churn.add (p : Pass) (c : Churn) (a : Add) : Churn :=
  if p.dense then c.push ⟨a.createdAtMs, some [], true, CHURN_DENSE_CLUSTER_BYTES⟩
  else
    let window := c.ring.reverse.take CHURN_REF_WINDOW
    let want := min CHURN_REFS_PER_NODE window.length
    let refs := if p.linked then (List.range want).filterMap fun r => window[a.pick r % window.length]? else []
    c.push ⟨a.createdAtMs, some refs, false, CHURN_CHUNK_BYTES⟩

/-- The chunks that may still be added, and the number of the next. -/
def Churn.topUp (p : Pass) : ℕ → ℕ → Churn → Churn
  | 0, _, c => c
  | left + 1, i, c =>
    let unitBytes := if p.dense then CHURN_DENSE_CLUSTER_BYTES else CHURN_CHUNK_BYTES
    if c.churnLiveBytes + unitBytes ≤ p.target ∧ (p.adds i).fails = false then Churn.topUp p left (i + 1) (c.add p (p.adds i)) else c

def Churn.pass (c : Churn) (p : Pass) : Churn := (c.evict p c.ring).topUp p (if p.dense then 48 else 4096) 0

def Churn.run (ps : List Pass) : Churn := ps.foldl Churn.pass ⟨fun _ => ⟨0, none, false, 0⟩, [], 0, 0⟩

/-- A `ChurnNode`, or a node of its chain, numbered from the chain's end. -/
inductive Obj where
  | churn (n : ℕ)
  | dense (n k : ℕ)
  deriving DecidableEq, Repr

def Churn.refs (c : Churn) : Obj → List Obj
  | .churn n =>
    ((c.node n).refs.getD []).map .churn ++ if (c.node n).cluster then [.dense n (CHURN_DENSE_NODES - 1)] else []
  | .dense n (k + 1) => [.dense n k]
  | .dense _ 0 => []

def Churn.nodes (c : Churn) : List Obj := c.ring.map .churn

/-! ## References of chunks point backward -/

/-- References point to earlier chunks; the numbers are of nodes that were made. -/
structure Chunks.Backward (c : Chunks) : Prop where
  earlier : ∀ (i : ℕ) (x : ℕ), c.chunks[i]? = some x → ∀ y ∈ c.refs x, ∃ j < i, c.chunks[j]? = some y
  made : ∀ x ∈ c.chunks, x < c.made

theorem trimmed_keeps (bytes : Int) (n : ℕ) (allocatedBytes : Int) (cs : List ℕ) : trimmed bytes n allocatedBytes cs <+: cs := by
  induction n generalizing allocatedBytes cs with
  | zero => exact List.prefix_refl _
  | succ n ih =>
    unfold trimmed
    split
    · exact (ih _ _).trans (List.dropLast_prefix _)
    · exact List.prefix_refl _

/-- A part of the list that is cut off at the end. -/
theorem Chunks.Backward.prefix {c : Chunks} {cs : List ℕ} (h : c.Backward) (hp : cs <+: c.chunks) :
    ({ c with chunks := cs } : Chunks).Backward := by
  obtain ⟨l, hl⟩ := hp
  have hget : ∀ (i x : ℕ), cs[i]? = some x → c.chunks[i]? = some x := by
    intro i x hx
    obtain ⟨hi, -⟩ := List.getElem?_eq_some_iff.1 hx
    rw [← hl, List.getElem?_append_left hi, hx]
  refine ⟨fun i x hx y hy => ?_, fun x hx => h.made x (hl ▸ List.mem_append_left _ hx)⟩
  obtain ⟨j, hj, hjy⟩ := h.earlier i x (hget i x hx) y hy
  obtain ⟨hi, -⟩ := List.getElem?_eq_some_iff.1 hx
  refine ⟨j, hj, ?_⟩
  rw [← hl, List.getElem?_append_left (hj.trans hi)] at hjy
  exact hjy

theorem Chunks.Backward.append {c : Chunks} (h : c.Backward) (pick : ℕ → ℕ) : (c.append pick).Backward := by
  have hold : ∀ (j y : ℕ), c.chunks[j]? = some y → (c.chunks ++ [c.made])[j]? = some y := by
    intro j y hy
    obtain ⟨hj, -⟩ := List.getElem?_eq_some_iff.1 hy
    rw [List.getElem?_append_left hj, hy]
  refine ⟨fun i x hx y hy => ?_, fun x hx => ?_⟩
  · replace hx : (c.chunks ++ [c.made])[i]? = some x := hx
    rcases lt_or_ge i c.chunks.length with hi | hi
    · -- an old node keeps its references
      rw [List.getElem?_append_left hi] at hx
      have hne : x ≠ c.made := (h.made x (List.mem_of_getElem? hx)).ne
      replace hy : y ∈ c.refs x := by simpa [Chunks.append, hne] using hy
      obtain ⟨j, hj, hjy⟩ := h.earlier i x hx y hy
      exact ⟨j, hj, hold j y hjy⟩
    · -- the new node picks among the old
      obtain rfl : c.made = x := by
        rw [List.getElem?_append_right hi, List.getElem?_singleton] at hx
        split at hx
        · exact Option.some.inj hx
        · cases hx
      simp only [Chunks.append, Function.update_self, List.mem_filterMap] at hy
      obtain ⟨r, -, hr⟩ := hy
      obtain ⟨hj, -⟩ := List.getElem?_eq_some_iff.1 hr
      exact ⟨_, hj.trans_le hi, hold _ y hr⟩
  · rcases List.mem_append.1 (show x ∈ c.chunks ++ [c.made] from hx) with hx | hx
    · exact (h.made x hx).trans (Nat.lt_succ_self _)
    · obtain rfl := List.mem_singleton.1 hx
      exact Nat.lt_succ_self _

theorem Chunks.Backward.step {c : Chunks} (h : c.Backward) (x : Change) : (c.step x).Backward := by
  cases x with
  | append pick => exact h.append pick
  | trim => exact h.prefix (trimmed_keeps ..)
  | clear => exact h.prefix (List.nil_prefix)

theorem backward_run (cs : List Change) : (Chunks.run cs).Backward := by
  apply List.foldlRecOn cs
  · exact ⟨fun i x hx => by simp at hx, fun x hx => by simp at hx⟩
  · exact fun c h x _ => h.step x

/-- Nothing is kept alive but the list's own nodes. -/
theorem Chunks.Backward.reaches {c : Chunks} (h : c.Backward) (x : ℕ) : Reaches c.refs c.chunks x ↔ x ∈ c.chunks := by
  refine ⟨Reaches.closed fun x hx y hy => ?_, .root⟩
  obtain ⟨i, hi⟩ := List.mem_iff_getElem?.1 hx
  obtain ⟨j, -, hj⟩ := h.earlier i x hi y hy
  exact List.mem_of_getElem? hj

/-! ## Evicted nodes are leaves -/

theorem Graph.mem_nodes {g : Graph} {bb : List (Option ℕ)} (hb : g.backbone = some bb) {x : ℕ} : x ∈ g.nodes ↔ some x ∈ bb := by
  rw [Graph.nodes, hb]
  exact List.reduceOption_mem_iff

theorem Graph.mem_refs {g : Graph} {x y : ℕ} : y ∈ g.refs x ↔ ∃ es, g.edges x = some es ∧ some y ∈ es := by
  rw [Graph.refs, List.reduceOption_mem_iff]
  cases g.edges x with
  | none => simp
  | some es => simp

theorem Graph.refs_eq {g g' : Graph} {x : ℕ} (h : g'.edges x = g.edges x) : g'.refs x = g.refs x := by
  rw [Graph.refs, Graph.refs, h]

theorem join_mem {bb : List (Option ℕ)} {i x : ℕ} (h : bb[i]?.join = some x) : some x ∈ bb :=
  List.mem_of_getElem? (Option.join_eq_some_iff.1 h)

structure Graph.Bounded (g : Graph) : Prop where
  fringed : Fringed g.refs g.nodes
  asked : ∀ x ∈ g.nodes, (g.refs x).length ≤ g.asked
  /-- Only nodes that were made are referred to, or have references. -/
  nodes : ∀ x ∈ g.nodes, x < g.made
  refs : ∀ x, ∀ y ∈ g.refs x, x < g.made ∧ y < g.made

/-- The edges of the node that a write evicts are nulled. -/
def Graph.evict (g : Graph) (old : Option ℕ) : Graph :=
  { g with edges := match old with
      | some old => Function.update g.edges old none
      | none => g.edges }

theorem Graph.evict_refs {g : Graph} {old : Option ℕ} {x : ℕ} :
    (g.evict old).refs x = if some x = old then [] else g.refs x := by
  cases old with
  | none => rfl
  | some old =>
    rcases eq_or_ne x old with rfl | hne
    · simp [Graph.evict, Graph.refs]
    · simp [Graph.evict, Graph.refs, hne]

theorem Graph.Bounded.evict {g : Graph} (h : g.Bounded) (old : Option ℕ) : (g.evict old).Bounded := by
  have hsub : ∀ x, ∀ y ∈ (g.evict old).refs x, y ∈ g.refs x := by
    intro x y hy
    rw [Graph.evict_refs] at hy
    split at hy
    · cases hy
    · exact hy
  refine ⟨fun x hx y hy => ?_, fun x hx => ?_, h.nodes, fun x y hy => h.refs x y (hsub x y hy)⟩
  · refine (h.fringed x hx y (hsub x y hy)).imp id fun hleaf => ?_
    rw [Graph.evict_refs, hleaf, ite_self]
  · rw [Graph.evict_refs]
    split
    · exact Nat.zero_le _
    · exact h.asked x hx

/-- The new node in the evicted one's slot. -/
theorem Graph.Bounded.replace {g : Graph} {bb : List (Option ℕ)} {idx : ℕ} {es : List (Option ℕ)} (h : g.Bounded)
    (hb : g.backbone = some bb) (hold : ∀ x, bb[idx]? = some (some x) → g.refs x = [])
    (hes : ∀ y, some y ∈ es → some y ∈ bb) (hlen : es.length ≤ g.asked) :
    ({ g with edges := Function.update g.edges g.made (some es), backbone := some (bb.set idx (some g.made)),
              made := g.made + 1 } : Graph).Bounded := by
  set g' : Graph := { g with edges := Function.update g.edges g.made (some es), backbone := some (bb.set idx (some g.made)),
                             made := g.made + 1 }
  have hnodes : ∀ x, x ∈ g'.nodes → x = g.made ∨ x ∈ g.nodes := by
    intro x hx
    rw [Graph.mem_nodes (g := g') rfl] at hx
    rcases List.mem_or_eq_of_mem_set hx with hx | hx
    · exact .inr ((Graph.mem_nodes hb).2 hx)
    · exact .inl (Option.some.inj hx)
  have hnew : g'.refs g.made = es.reduceOption := by simp [g', Graph.refs]
  have hrefs : ∀ x, x ≠ g.made → g'.refs x = g.refs x := fun x hx => Graph.refs_eq (Function.update_of_ne hx ..)
  -- an old node of the backbone is still in it, or was evicted
  have hstay : ∀ y, some y ∈ bb → y ∈ g'.nodes ∨ g'.refs y = [] := by
    intro y hy
    obtain ⟨j, hj⟩ := List.mem_iff_getElem?.1 hy
    rcases eq_or_ne idx j with rfl | hne
    · right
      rw [hrefs y (h.nodes y ((Graph.mem_nodes hb).2 hy)).ne]
      exact hold y hj
    · left
      rw [Graph.mem_nodes (g := g') rfl]
      exact List.mem_of_getElem? ((List.getElem?_set_ne hne).trans hj)
  refine ⟨fun x hx y hy => ?_, fun x hx => ?_, fun x hx => ?_, fun x y hy => ?_⟩
  · rcases eq_or_ne x g.made with rfl | hne
    · rw [hnew, List.reduceOption_mem_iff] at hy
      exact hstay y (hes y hy)
    · rw [hrefs x hne] at hy
      rcases h.fringed x ((hnodes x hx).resolve_left hne) y hy with hn | hl
      · exact hstay y ((Graph.mem_nodes hb).1 hn)
      · rcases eq_or_ne y g.made with rfl | hy'
        · exact absurd (h.refs x _ hy).2 (Nat.lt_irrefl _)
        · exact .inr ((hrefs y hy').trans hl)
  · rcases eq_or_ne x g.made with rfl | hne
    · rw [hnew]
      exact (List.reduceOption_length_le es).trans hlen
    · rw [hrefs x hne]
      exact h.asked x ((hnodes x hx).resolve_left hne)
  · rcases hnodes x hx with rfl | hx
    · exact Nat.lt_succ_self _
    · exact (h.nodes x hx).trans (Nat.lt_succ_self _)
  · rcases eq_or_ne x g.made with rfl | hne
    · rw [hnew, List.reduceOption_mem_iff] at hy
      exact ⟨Nat.lt_succ_self _, (h.nodes y ((Graph.mem_nodes hb).2 (hes y hy))).trans (Nat.lt_succ_self _)⟩
    · rw [hrefs x hne] at hy
      exact ⟨(h.refs x y hy).1.trans (Nat.lt_succ_self _), (h.refs x y hy).2.trans (Nat.lt_succ_self _)⟩

theorem Graph.Bounded.write {g : Graph} {edg : ℕ} {bb : List (Option ℕ)} (h : g.Bounded) (hb : g.backbone = some bb)
    (he : edg ≤ g.asked) (w : Write) : (g.write edg bb w).Bounded := by
  have hev := h.evict bb[w.idx % bb.length]?.join
  unfold Graph.write
  split
  · exact hev
  · refine hev.replace hb (fun x hx => ?_) (fun y hy => ?_) (by simpa [Graph.evict] using he)
    · rw [Graph.evict_refs, if_pos (by rw [hx]; rfl)]
    · obtain ⟨k, -, hk⟩ := List.mem_map.1 hy
      exact join_mem hk

theorem Graph.write_asked {g : Graph} {edg : ℕ} {bb : List (Option ℕ)} {w : Write} : (g.write edg bb w).asked = g.asked := by
  unfold Graph.write
  split <;> rfl

theorem Graph.Bounded.rewrite {g : Graph} {edg : ℕ} (h : g.Bounded) (he : edg ≤ g.asked) (ws : List Write) :
    (Graph.rewrite edg g ws).Bounded := by
  induction ws generalizing g with
  | nil => exact h
  | cons w ws ih =>
    unfold Graph.rewrite
    split
    · exact h
    next bb hb =>
      split
      · exact h.write hb he w
      · exact ih (h.write hb he w) (by rwa [Graph.write_asked])

/-- A new backbone refers to its own nodes only. -/
theorem Graph.Bounded.build {g : Graph} (h : g.Bounded) (slots edg built : ℕ) (wire : ℕ → ℕ → ℕ) :
    (g.build slots edg built wire).Bounded := by
  set g' := g.build slots edg built wire
  have hmade : ∀ x, x ∈ g'.nodes → g.made ≤ x ∧ x < g.made + min built slots := by
    intro x hx
    rw [Graph.mem_nodes (g := g') rfl] at hx
    obtain ⟨i, hi, hx⟩ := List.mem_map.1 hx
    rw [List.mem_range] at hi
    split at hx
    next hb =>
      obtain rfl := Option.some.inj hx
      omega
    next => cases hx
  have hnew : ∀ x, g.made ≤ x ∧ x < g.made + min built slots → (∀ y ∈ g'.refs x, y ∈ g'.nodes) ∧ (g'.refs x).length ≤ edg := by
    intro x hx
    have hedges : g'.edges x = some ((List.range edg).map fun k =>
        ((List.range slots).map fun i => if i < built then some (g.made + i) else none)[wire (x - g.made) k % slots]?.join) :=
      if_pos hx
    refine ⟨fun y hy => ?_, ?_⟩
    · obtain ⟨es, hes, hy⟩ := Graph.mem_refs.1 hy
      obtain rfl := Option.some.inj (hedges.symm.trans hes)
      obtain ⟨k, -, hk⟩ := List.mem_map.1 hy
      exact (Graph.mem_nodes (g := g') rfl).2 (join_mem hk)
    · rw [Graph.refs, hedges]
      exact (List.reduceOption_length_le _).trans (by simp)
  refine ⟨fun x hx y hy => .inl ((hnew x (hmade x hx)).1 y hy), fun x hx => (hnew x (hmade x hx)).2, fun x hx => (hmade x hx).2,
    fun x y hy => ?_⟩
  by_cases hx : g.made ≤ x ∧ x < g.made + min built slots
  · exact ⟨hx.2, (hmade y ((hnew x hx).1 y hy)).2⟩
  · have hrefs : g'.refs x = g.refs x := Graph.refs_eq (if_neg hx)
    rw [hrefs] at hy
    exact ⟨(h.refs x y hy).1.trans_le (Nat.le_add_right _ _), (h.refs x y hy).2.trans_le (Nat.le_add_right _ _)⟩

theorem Graph.Bounded.tick {g : Graph} (h : g.Bounded) (t : Tick) : (g.tick t).Bounded := by
  unfold Graph.tick
  split
  · exact ⟨fun x hx => by simp [Graph.nodes] at hx, fun x hx => by simp [Graph.nodes] at hx,
      fun x hx => by simp [Graph.nodes] at hx, h.refs⟩
  · dsimp only
    split
    · refine Graph.Bounded.rewrite ?_ (le_max_right _ _) _
      exact ⟨h.fringed, fun x hx => (h.asked x hx).trans (le_max_left _ _), h.nodes, h.refs⟩
    · split
      · exact (h.build ..).rewrite le_rfl _
      · exact h

theorem bounded_run (ts : List Tick) : (Graph.run ts).Bounded := by
  refine List.foldlRecOn ts _ ⟨fun x hx => ?_, fun x hx => ?_, fun x hx => ?_, fun x y hy => ?_⟩ fun g h t _ => h.tick t
  · simp [Graph.nodes] at hx
  · simp [Graph.nodes] at hx
  · simp [Graph.nodes] at hx
  · simp [Graph.refs] at hy

theorem Graph.Bounded.encard_le {g : Graph} (h : g.Bounded) {e : ℕ} (he : g.asked ≤ e) :
    {x | Reaches g.refs g.nodes x}.encard ≤ g.slots * (1 + e) :=
  h.fringed.encard_le (List.reduceOption_length_le _) fun x hx => (h.asked x hx).trans he

/-! ## Evicted chunks have no references -/

/-- Only chunks of the ring have references. -/
def Churn.Held (c : Churn) : Prop := ∀ n, n ∉ c.ring → (c.node n).refs.getD [] = []

theorem Churn.Held.evict {p : Pass} {ring : List ℕ} {c : Churn} (h : c.Held) (hr : c.ring = ring) : (c.evict p ring).Held := by
  induction ring generalizing c with
  | nil => exact h
  | cons head ring ih =>
    unfold Churn.evict
    split
    · refine ih (fun n hn => ?_) rfl
      rcases eq_or_ne n head with rfl | hne
      · simp
      · simp only [Function.update_of_ne hne]
        exact h n (by rw [hr]; simpa [hne] using hn)
    · exact h

theorem Churn.Held.push {c : Churn} (h : c.Held) (x : ChurnNode) : (c.push x).Held := by
  intro n hn
  obtain ⟨hr, hne⟩ := not_or.1 (mt List.mem_append.2 hn)
  rw [List.mem_singleton] at hne
  simp only [Churn.push, Function.update_of_ne hne]
  exact h n hr

theorem Churn.Held.add {p : Pass} {c : Churn} (h : c.Held) (a : Add) : (c.add p a).Held := by
  unfold Churn.add
  split <;> exact h.push _

/-- What every addition keeps, topping up keeps. -/
theorem Churn.topUp_keeps {P : Churn → Prop} {p : Pass} (hadd : ∀ c a, P c → P (c.add p a)) {left i : ℕ} {c : Churn} (h : P c) :
    P (Churn.topUp p left i c) := by
  induction left generalizing i c with
  | zero => exact h
  | succ left ih =>
    unfold Churn.topUp
    generalize (if p.dense = true then CHURN_DENSE_CLUSTER_BYTES else CHURN_CHUNK_BYTES) = unitBytes
    dsimp only
    split
    · exact ih (hadd c _ h)
    · exact h

theorem held_run (ps : List Pass) : (Churn.run ps).Held := by
  apply List.foldlRecOn ps
  · exact fun _ _ => rfl
  · intro c h p _
    exact Churn.topUp_keeps (fun _ a hc => hc.add a) (h.evict rfl)

/-- No chunk is a dense cluster. -/
def Churn.Flat (c : Churn) : Prop := ∀ n, (c.node n).cluster = false

theorem Churn.Flat.evict {p : Pass} {ring : List ℕ} {c : Churn} (h : c.Flat) : (c.evict p ring).Flat := by
  induction ring generalizing c with
  | nil => exact h
  | cons head ring ih =>
    unfold Churn.evict
    split
    · refine ih fun n => ?_
      rcases eq_or_ne n head with rfl | hne
      · simpa using h n
      · simpa [Function.update_of_ne hne] using h n
    · exact h

theorem Churn.Flat.add {p : Pass} {c : Churn} (h : c.Flat) (hp : p.dense = false) (a : Add) : (c.add p a).Flat := by
  intro n
  unfold Churn.add
  rw [if_neg (by simp [hp])]
  rcases eq_or_ne n c.made with rfl | hne
  · simp [Churn.push]
  · simpa [Churn.push, Function.update_of_ne hne] using h n

theorem flat_run {ps : List Pass} (hp : ∀ p ∈ ps, p.dense = false) : (Churn.run ps).Flat := by
  apply List.foldlRecOn ps
  · exact fun _ => rfl
  · intro c h p hm
    exact Churn.topUp_keeps (fun _ a hc => hc.add (hp p hm) a) h.evict

theorem Churn.Flat.refs {c : Churn} (h : c.Flat) (n : ℕ) : c.refs (.churn n) = ((c.node n).refs.getD []).map .churn := by
  simp [Churn.refs, h n]

/-- A ring of single chunks keeps only such chunks alive, and none that was evicted has references. -/
theorem Churn.Flat.reaches {c : Churn} (h : c.Flat) (hh : c.Held) {x : Obj} (hx : Reaches c.refs c.nodes x) (hr : x ∉ c.nodes) :
    c.refs x = [] := by
  have hchurn : ∃ n, x = .churn n := by
    induction hx with
    | root hx =>
      obtain ⟨n, -, rfl⟩ := List.mem_map.1 hx
      exact ⟨n, rfl⟩
    | @ref x y hx hy ih =>
      by_cases hm : x ∈ c.nodes
      · obtain ⟨n, -, rfl⟩ := List.mem_map.1 hm
        rw [h.refs] at hy
        obtain ⟨m, -, rfl⟩ := List.mem_map.1 hy
        exact ⟨m, rfl⟩
      · obtain ⟨n, rfl⟩ := ih hm
        rw [h.refs] at hy
        obtain ⟨m, -, rfl⟩ := List.mem_map.1 hy
        exact ⟨m, rfl⟩
  obtain ⟨n, rfl⟩ := hchurn
  rw [h.refs, hh n fun hn => hr (List.mem_map_of_mem hn)]
  rfl

/-! ## Every run -/

/-- In `CHUNKS` nothing but its nodes is reachable, in GRAPH and CHURN nothing but nodes that refer to no others. -/
theorem retained_graphs :
    (∀ cs : List Change, let c := Chunks.run cs
      (∀ (i : ℕ) (x : ℕ), c.chunks[i]? = some x → ∀ y ∈ c.refs x, ∃ j < i, c.chunks[j]? = some y) ∧
        ∀ x, Reaches c.refs c.chunks x ↔ x ∈ c.chunks) ∧
    (∀ ts : List Tick, let g := Graph.run ts
      (∀ x, Reaches g.refs g.nodes x → x ∉ g.nodes → g.refs x = []) ∧
        ∀ e, g.asked ≤ e → {x | Reaches g.refs g.nodes x}.encard ≤ g.slots * (1 + e)) ∧
    ∀ ps : List Pass, let c := Churn.run ps
      (∀ n, Reaches c.refs c.nodes (.churn n) → n ∉ c.ring → (c.node n).refs.getD [] = []) ∧
        ((∀ p ∈ ps, p.dense = false) → ∀ x, Reaches c.refs c.nodes x → x ∉ c.nodes → c.refs x = []) := by
  refine ⟨fun cs => ⟨(backward_run cs).earlier, (backward_run cs).reaches⟩, fun ts => ?_, fun ps => ?_⟩
  · exact ⟨fun x hx hr => (bounded_run ts).fringed.leaf hx hr, fun e he => (bounded_run ts).encard_le he⟩
  · exact ⟨fun n _ hn => held_run ps n hn, fun hp x hx hr => (flat_run hp).reaches (held_run ps) hx hr⟩

end Wardence.LeakAgent.Graphs
