import Bailout.Proofs.Graph.Paths
import Mathlib.Data.List.Nodup
import Mathlib.Logic.Relation

/-!
# Reverse post-order

The search emits a block when no edge of it is left to take. By then every edge has led to a block
emitted before or to one still on the path, and the path goes along edges; so an edge that does not
point forward in the result closes a loop. `order_reversePostorder` puts this together with what the
search finds.
-/

namespace Bailout

namespace Graph

variable {g : Graph} {path : List Visit} {marked post : List BlockId} {id s u v : BlockId}
  {rest : List BlockId}

/-- Control can pass from one block to another. Edges to holes do not count. -/
def Edge (g : Graph) (u v : BlockId) : Prop := v ∈ g.successors u ∧ g.contains v

def Reaches (g : Graph) : BlockId → BlockId → Prop := Relation.ReflTransGen g.Edge

/-- Each block of the list comes in front of the blocks that its edges lead to, unless they lead back to
it. -/
def Settled (g : Graph) (l : List BlockId) : Prop :=
  ∀ left u right, l = left ++ u :: right → ∀ v, g.Edge u v → v ∈ right ∨ g.Reaches v u

theorem Settled.cons (h : g.Settled post) (hid : ∀ v, g.Edge id v → v ∈ post ∨ g.Reaches v id) :
    g.Settled (id :: post) := by
  intro left u right hsplit v hv
  cases left with
  | nil =>
    obtain ⟨rfl, rfl⟩ := List.cons.inj hsplit
    exact hid v hv
  | cons x left =>
    obtain ⟨-, hsplit⟩ := List.cons.inj hsplit
    exact h left u right hsplit v hv

/-! ## The search -/

/-- What holds while the search goes on. Blocks on the path and emitted blocks are marked, each once. -/
structure Searching (g : Graph) (path : List Visit) (marked post : List BlockId) : Prop
    extends g.Swept path marked post, g.Trail path where
  distinct : (path.map (·.id) ++ post).Nodup
  marks : ∀ id ∈ path.map (·.id) ++ post, id ∈ marked
  live : ∀ id ∈ marked, g.contains id
  settled : g.Settled post

theorem Trail.reaches_head {v w : Visit} (h : g.Trail (v :: path))
    (hlive : ∀ x ∈ v :: path, g.contains x.id) (hw : w ∈ v :: path) : g.Reaches w.id v.id := by
  induction path generalizing v with
  | nil =>
    obtain rfl := List.mem_singleton.1 hw
    exact .refl
  | cons x path ih =>
    have hedge : g.Edge x.id v.id :=
      ⟨(List.isChain_cons_cons.1 h.edges).1, hlive v List.mem_cons_self⟩
    rcases List.mem_cons.1 hw with rfl | hw
    · exact .refl
    · exact (ih h.tail (fun y hy => hlive y (List.mem_cons_of_mem _ hy)) hw).tail hedge

theorem Searching.emit (h : g.Searching (⟨id, []⟩ :: path) marked post) :
    g.Searching path marked (id :: post) where
  toSwept := h.toSwept.emit
  toTrail := h.toTrail.tail
  distinct := List.nodup_middle.2 h.distinct
  marks := by
    intro m hm
    exact h.marks m (List.perm_middle.mem_iff.1 hm)
  live := h.live
  settled := by
    refine h.settled.cons fun v hv => ?_
    have hmarked : v ∈ marked :=
      (h.taken _ List.mem_cons_self v hv.1 hv.2).resolve_right List.not_mem_nil
    rcases h.seen v hmarked with hpost | ⟨w, hw, rfl⟩
    · exact .inl hpost
    · have hlive : ∀ x ∈ (⟨id, []⟩ : Visit) :: path, g.contains x.id := fun x hx =>
        h.live _ (h.marks _ (List.mem_append_left _ (List.mem_map_of_mem hx)))
      exact .inr (h.toTrail.reaches_head hlive hw)

theorem Searching.enter (h : g.Searching (⟨id, s :: rest⟩ :: path) marked post) (hs : g.contains s)
    (hnew : s ∉ marked) :
    g.Searching (⟨s, g.successors s⟩ :: ⟨id, rest⟩ :: path) (s :: marked) post where
  toSwept := h.toSwept.enter
  toTrail := h.toTrail.enter
  distinct := List.nodup_cons.2 ⟨fun hm => hnew (h.marks s hm), h.distinct⟩
  marks := by
    intro m hm
    rcases List.mem_cons.1 hm with rfl | hm
    · exact List.mem_cons_self
    · exact List.mem_cons_of_mem _ (h.marks m hm)
  live := List.forall_mem_cons.2 ⟨hs, h.live⟩
  settled := h.settled

theorem Searching.skip (h : g.Searching (⟨id, s :: rest⟩ :: path) marked post)
    (hs : g.contains s → s ∈ marked) : g.Searching (⟨id, rest⟩ :: path) marked post where
  toSwept := h.toSwept.skip hs
  toTrail := h.toTrail.advance
  distinct := h.distinct
  marks := h.marks
  live := h.live
  settled := h.settled

theorem Searching.walk (h : g.Searching path marked post) :
    ∃ marked', g.Searching [] marked' (g.walk path marked post) := by
  fun_induction Graph.walk g path marked post with
  | case1 marked post => exact ⟨marked, h⟩
  | case2 _ _ _ _ ih => exact ih h.emit
  | case3 _ _ _ _ _ _ hnew ih => exact ih (h.enter hnew.1 (by simpa using hnew.2))
  | case4 _ _ _ _ _ _ hold ih => exact ih (h.skip fun hc => by simpa [hc] using hold)

theorem searching_start (hc : g.contains g.entry) :
    g.Searching [⟨g.entry, g.successors g.entry⟩] [g.entry] [] where
  toSwept := g.swept_start
  toTrail := g.trail_start
  distinct := List.nodup_singleton _
  marks m hm := hm
  live := List.forall_mem_singleton.2 hc
  settled := by
    intro left u right hsplit
    exact absurd hsplit (List.append_ne_nil_of_right_ne_nil _ (List.cons_ne_nil _ _)).symm

/-! ## What the order lists -/

theorem reaches_of_path {done : List BlockId} (h : g.Path done id) (hc : g.contains id) :
    g.Reaches g.entry id := by
  induction h with
  | entry => exact .refl
  | step _ hnext ih => exact (ih (contains_of_mem_successors hnext)).tail ⟨hnext, hc⟩

theorem mem_order_of_reaches (h : g.Reaches g.entry id) : id ∈ g.order := by
  induction h with
  | refl => exact g.entry_mem_order
  | tail _ hedge ih => exact order_closed ih hedge.1 hedge.2

theorem mem_order_iff_reaches (hc : g.contains id) : id ∈ g.order ↔ g.Reaches g.entry id := by
  refine ⟨fun hid => ?_, mem_order_of_reaches⟩
  obtain ⟨done, hpath⟩ := path_of_mem_order hid
  exact reaches_of_path hpath hc

theorem nodup_order (g : Graph) : g.order.Nodup := by
  by_cases hc : g.contains g.entry
  · obtain ⟨marked, hdone⟩ := (searching_start hc).walk
    exact hdone.distinct
  · have hleaf : g.successors g.entry = [] := List.eq_nil_iff_forall_not_mem.2
      fun next hnext => hc (contains_of_mem_successors hnext)
    rw [order_of_leaf hleaf]
    exact List.nodup_singleton _

theorem head?_order (g : Graph) : g.order.head? = some g.entry := by
  cases horder : g.order with
  | nil =>
    have hentry := g.entry_mem_order
    rw [horder] at hentry
    exact absurd hentry List.not_mem_nil
  | cons first rest =>
    rcases g.order_led [] first rest horder with rfl | ⟨u, hu, -⟩
    · rfl
    · exact absurd hu List.not_mem_nil

theorem idxOf_lt_idxOf {left right : List BlockId} (hnd : (left ++ right).Nodup) (hu : u ∈ left)
    (hv : v ∈ right) : (left ++ right).idxOf u < (left ++ right).idxOf v := by
  have hout : v ∉ left := fun hleft => (List.disjoint_of_nodup_append hnd) hleft hv
  rw [List.idxOf_append_of_mem hu, List.idxOf_append_of_notMem hout]
  exact Nat.lt_of_lt_of_le (List.idxOf_lt_length_of_mem hu) (Nat.le_add_right _ _)

theorem Settled.idxOf_lt {l : List BlockId} (h : g.Settled l) (hnd : l.Nodup) (hu : u ∈ l)
    (hedge : g.Edge u v) : l.idxOf u < l.idxOf v ∨ g.Reaches v u := by
  obtain ⟨left, right, rfl⟩ := List.append_of_mem hu
  rcases h left u right rfl v hedge with hright | hback
  · left
    rw [List.append_cons] at hnd ⊢
    exact idxOf_lt_idxOf hnd (List.mem_append_right _ List.mem_cons_self) hright
  · exact .inr hback

theorem Led.exists_idxOf_lt {l : List BlockId} (h : g.Led l) (hnd : l.Nodup) (hv : v ∈ l)
    (hne : v ≠ g.entry) : ∃ u ∈ l, v ∈ g.successors u ∧ l.idxOf u < l.idxOf v := by
  obtain ⟨left, right, rfl⟩ := List.append_of_mem hv
  rcases h left v right rfl with hentry | ⟨u, hu, hedge⟩
  · exact absurd hentry hne
  · exact ⟨u, List.mem_append_left _ hu, hedge, idxOf_lt_idxOf hnd hu List.mem_cons_self⟩

/-- A list of the blocks that the entry reaches, in an order that follows the edges as far as loops
allow. -/
structure ReversePostorder (g : Graph) (l : List BlockId) : Prop where
  nodup : l.Nodup
  head : l.head? = some g.entry
  mem : ∀ id, id ∈ l ↔ g.contains id ∧ g.Reaches g.entry id
  /-- Each block but the entry has a predecessor in front of it. -/
  led : ∀ v ∈ l, v ≠ g.entry → ∃ u ∈ l, g.Edge u v ∧ l.idxOf u < l.idxOf v
  /-- Only an edge that closes a loop points back. -/
  forward : ∀ u ∈ l, ∀ v ∈ l, g.Edge u v → l.idxOf u < l.idxOf v ∨ g.Reaches v u
  /-- Without loops all edges point forward. -/
  topological : (∀ u ∈ l, ¬ Relation.TransGen g.Edge u u) →
    ∀ u ∈ l, ∀ v ∈ l, g.Edge u v → l.idxOf u < l.idxOf v

/-- **The order is a reverse post-order.** Holes, edges to holes, blocks without an end and loops of any
shape are allowed for; the entry is a block of the graph. -/
theorem order_reversePostorder (hc : g.contains g.entry) : g.ReversePostorder g.order := by
  obtain ⟨marked, hdone⟩ := (searching_start hc).walk
  have hnodup : g.order.Nodup := hdone.distinct
  have hlive : ∀ id ∈ g.order, g.contains id := fun id hid => hdone.live id (hdone.marks id hid)
  have hforward : ∀ u ∈ g.order, ∀ v ∈ g.order, g.Edge u v →
      g.order.idxOf u < g.order.idxOf v ∨ g.Reaches v u :=
    fun u hu v _ hedge => hdone.settled.idxOf_lt hnodup hu hedge
  constructor
  case nodup => exact hnodup
  case head => exact g.head?_order
  case mem =>
    intro id
    constructor
    · intro hid
      obtain ⟨done, hpath⟩ := path_of_mem_order hid
      exact ⟨hlive id hid, reaches_of_path hpath (hlive id hid)⟩
    · exact fun hid => mem_order_of_reaches hid.2
  case led =>
    intro v hv hne
    obtain ⟨u, hu, hedge, hlt⟩ := g.order_led.exists_idxOf_lt hnodup hv hne
    exact ⟨u, hu, ⟨hedge, hlive v hv⟩, hlt⟩
  case forward => exact hforward
  case topological =>
    intro hacyclic u hu v hv hedge
    rcases hforward u hu v hv hedge with hlt | hback
    · exact hlt
    · exact absurd (Relation.TransGen.head' hedge hback) (hacyclic u hu)

end Graph

namespace Tangle

def branching (id ifTrue ifFalse : Nat) : Option Block :=
  some ⟨⟨id⟩, [{ kind := .condBranch ⟨ifTrue⟩ ⟨ifFalse⟩, operands := [⟨0⟩], output := none }]⟩

/-- The entry leads into both blocks of a loop. One of them leads on to a hole, the other to a block that
leads to itself and to one without an end. Nothing leads to the last block. -/
def graph : Graph where
  blocks := [branching 0 1 2, branching 1 2 3, branching 2 1 4, branching 3 3 5, none, some ⟨⟨5⟩, []⟩,
    branching 6 0 1]
  entry := ⟨0⟩

theorem order : graph.order = [⟨0⟩, ⟨1⟩, ⟨3⟩, ⟨5⟩, ⟨2⟩] := Graph.order_of_within 14 rfl

end Tangle

theorem order_reversePostorder_tangle : Tangle.graph.order = [⟨0⟩, ⟨1⟩, ⟨3⟩, ⟨5⟩, ⟨2⟩] ∧
    Tangle.graph.ReversePostorder [⟨0⟩, ⟨1⟩, ⟨3⟩, ⟨5⟩, ⟨2⟩] := by
  have hcontains : Tangle.graph.contains Tangle.graph.entry := rfl
  exact ⟨Tangle.order, Tangle.order ▸ Graph.order_reversePostorder hcontains⟩

end Bailout
