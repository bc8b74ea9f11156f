import Bailout.Proofs.Graph.Unreachable
import Bailout.Proofs.Validation
import Mathlib.Data.List.Perm.Subperm

/-!
# Inputs of phis

A block has each of its predecessors once, in order of their numbers. The check of a phi compares the
number of its inputs with the number of predecessors, and asks of each input that it comes from one. So
the inputs of a checked phi match the predecessors one to one exactly when no block supplies two:
`phi_inputs`. Nothing checks that, and where one block supplies two another supplies none.
-/

namespace Bailout

namespace Graph

variable {g : Graph} {id p : BlockId}

theorem mem_predecessors (hn : g.Numbered) : p ∈ g.predecessors id ↔ id ∈ g.successors p := by
  unfold predecessors successors
  constructor
  · intro hp
    obtain ⟨b, hb, rfl⟩ := List.mem_map.1 hp
    obtain ⟨hb, hsucc⟩ := List.mem_filter.1 hb
    rw [block?_of_numbered hn hb]
    exact List.contains_iff_mem.1 hsucc
  · intro hid
    cases hb : g.block? p with
    | none =>
      rw [hb] at hid
      exact absurd hid List.not_mem_nil
    | some b =>
      rw [hb] at hid
      refine List.mem_map.2 ⟨b, List.mem_filter.2 ⟨mem_toList.2 ⟨p, hb⟩, ?_⟩, hn p b hb⟩
      exact List.contains_iff_mem.2 hid

theorem toList_sorted (hn : g.Numbered) : g.toList.Pairwise fun a b => a.id.index < b.id.index := by
  unfold toList
  rw [List.pairwise_filterMap, List.pairwise_iff_getElem]
  intro i j hi hj hij a ha b hb
  have hnumber : ∀ k (hk : k < g.blocks.length) (c : Block), id g.blocks[k] = some c → c.id = ⟨k⟩ := by
    intro k hk c hc
    exact hn ⟨k⟩ c (block?_eq_some.2 ((List.getElem?_eq_getElem hk).trans (congrArg some hc)))
  rw [hnumber i hi a ha, hnumber j hj b hb]
  exact hij

theorem nodup_predecessors (hn : g.Numbered) (id : BlockId) : (g.predecessors id).Nodup := by
  unfold predecessors
  refine List.Pairwise.map _ ?_ ((toList_sorted hn).filter _)
  intro a b hlt heq
  rw [heq] at hlt
  exact Nat.lt_irrefl _ hlt

end Graph

namespace Function

variable {f : Function} {id : BlockId} {b : Block} {i : Instr} {n : Nat} {blocks : List BlockId}

theorem checkPhi_eq_ok (hphi : i.kind = .phi blocks) : f.checkPhi id i = .ok () ↔
    blocks.length = (f.graph.predecessors id).length ∧ ∀ p ∈ blocks, p ∈ f.graph.predecessors id := by
  unfold checkPhi
  rw [hphi]
  dsimp only
  split
  · next hlen =>
    constructor
    · intro h
      cases h
    · exact fun h => absurd h.1 hlen
  · next hlen =>
    split
    · next p hfind =>
      constructor
      · intro h
        cases h
      · intro h
        have hp := h.2 p (List.mem_of_find?_eq_some hfind)
        have hout := List.find?_some hfind
        simp [hp] at hout
    · next hfind =>
      rw [List.find?_eq_none] at hfind
      refine ⟨fun _ => ⟨Decidable.not_not.1 hlen, fun p hp => ?_⟩, fun _ => rfl⟩
      simpa using hfind p hp

/-- **The inputs of a checked phi match the predecessors, as long as no block supplies two.** There are
as many inputs as predecessors and all come from predecessors. They are a permutation of them exactly
when they are distinct; otherwise some predecessor supplies none. -/
theorem phi_inputs (hn : f.graph.Numbered) (hv : f.validate = .ok ()) (hid : id ∈ f.graph.order)
    (hb : f.graph.block? id = some b) (hi : b.instrs[n]? = some i) (hphi : i.kind = .phi blocks) :
    blocks.length = (f.graph.predecessors id).length ∧
    (∀ p ∈ blocks, p ∈ f.graph.predecessors id) ∧
    (blocks.Perm (f.graph.predecessors id) ↔ blocks.Nodup) ∧
    (¬ blocks.Nodup → ∃ p ∈ f.graph.predecessors id, p ∉ blocks) ∧
    (f.graph.predecessors id).Nodup ∧
    ∀ p, p ∈ f.graph.predecessors id ↔ id ∈ f.graph.successors p := by
  obtain ⟨before, after, hcheck⟩ := checkInstr_of_validate hv hid hb hi
  obtain ⟨-, -, hcheck, -⟩ := checkInstr_eq_ok.1 hcheck
  obtain ⟨hlen, hmem⟩ := (checkPhi_eq_ok hphi).1 hcheck
  have hnodup := Graph.nodup_predecessors hn id
  have hperm : blocks.Perm (f.graph.predecessors id) ↔ blocks.Nodup := by
    constructor
    · exact fun hp => hp.nodup_iff.2 hnodup
    · exact fun hd => (hd.subperm hmem).perm_of_length_le (Nat.le_of_eq hlen.symm)
  refine ⟨hlen, hmem, hperm, fun hrepeats => ?_, hnodup, fun p => Graph.mem_predecessors hn⟩
  -- were every predecessor named, the inputs would be as many and contain them all
  by_contra hall
  have hsub : f.graph.predecessors id ⊆ blocks := by
    intro p hp
    by_contra hout
    exact hall ⟨p, hp, hout⟩
  have hback := (hnodup.subperm hsub).perm_of_length_le (Nat.le_of_eq hlen)
  exact hrepeats (hperm.1 hback.symm)

end Function

/-! ## A predecessor that supplies no input -/

namespace Join

def branch (id target : Nat) : Option Block :=
  some ⟨⟨id⟩, [{ kind := .branch ⟨target⟩, operands := [], output := none, block := some ⟨id⟩ }]⟩

def entry : Block := ⟨⟨0⟩, [
  { kind := .loadArg 0, operands := [], output := some ⟨0⟩, block := some ⟨0⟩ },
  { kind := .condBranch ⟨1⟩ ⟨2⟩, operands := [⟨0⟩], output := none, block := some ⟨0⟩ }]⟩

def phi (blocks : List BlockId) : Instr where
  kind := .phi blocks
  operands := blocks.map fun _ => ⟨0⟩
  output := some ⟨1⟩
  block := some ⟨3⟩

def join (blocks : List BlockId) : Block := ⟨⟨3⟩, [phi blocks,
  { kind := .ret, operands := [⟨1⟩], output := none, block := some ⟨3⟩ }]⟩

/-- Two branches meet in a phi. -/
def func (blocks : List BlockId) : Function where
  name := "f"
  code := { id := ⟨1⟩, name := "f", locals := ["x"], stackSize := 2, length := 16 }
  env := ⟨[.top, .top]⟩
  graph := ⟨[some entry, branch 1 3, branch 2 3, some (join blocks)], ⟨0⟩⟩

theorem numbered (blocks : List BlockId) : (func blocks).graph.Numbered := by
  rintro ⟨k⟩ b hb
  match k with
  | 0 | 1 | 2 | 3 => obtain rfl := Option.some.inj hb; rfl
  | k + 4 => simp [func, Graph.block?] at hb

theorem order (blocks : List BlockId) : (func blocks).graph.order = [⟨0⟩, ⟨2⟩, ⟨1⟩, ⟨3⟩] :=
  Graph.order_of_within 9 rfl

theorem predecessors (blocks : List BlockId) :
    (func blocks).graph.predecessors ⟨3⟩ = [⟨1⟩, ⟨2⟩] := rfl

theorem validate {blocks : List BlockId} (h : blocks = [⟨2⟩, ⟨1⟩] ∨ blocks = [⟨1⟩, ⟨1⟩]) :
    (func blocks).validate = .ok () := by
  rcases h with rfl | rfl
  · exact Function.validate_of_order (order _) rfl rfl
  · exact Function.validate_of_order (order _) rfl rfl

end Join

/-- Both functions pass the checks; in the second the block 2 supplies no input. -/
theorem phi_inputs_repeated :
    (Join.func [⟨2⟩, ⟨1⟩]).validate = .ok () ∧
    [⟨2⟩, ⟨1⟩].Perm ((Join.func [⟨2⟩, ⟨1⟩]).graph.predecessors ⟨3⟩) ∧
    (Join.func [⟨1⟩, ⟨1⟩]).validate = .ok () ∧
    ¬ [⟨1⟩, ⟨1⟩].Perm ((Join.func [⟨1⟩, ⟨1⟩]).graph.predecessors ⟨3⟩) := by
  have hmem : ∀ blocks, (⟨3⟩ : BlockId) ∈ (Join.func blocks).graph.order := by
    intro blocks
    rw [Join.order]
    decide
  have hgood := Function.phi_inputs (Join.numbered _) (Join.validate (.inl rfl)) (hmem _) rfl
    (n := 0) rfl rfl
  have hbad := Function.phi_inputs (Join.numbered _) (Join.validate (.inr rfl)) (hmem _) rfl
    (n := 0) rfl rfl
  refine ⟨Join.validate (.inl rfl), hgood.2.2.1.2 (by decide), Join.validate (.inr rfl), ?_⟩
  exact fun hp => absurd (hbad.2.2.1.1 hp) (by decide)

end Bailout
