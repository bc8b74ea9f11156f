import Bailout.Proofs.Compile
import Bailout.Proofs.Engine.Calls
import Bailout.Proofs.Graph.ReversePostorder

/-!
# Sites and their records

Native code names the place where it is left by a position in the list of records. The places are
enumerated block by block, the records are built and numbered in one pass over them, and their locations
are filled in afterwards: `Function.compile_covers` says that all of this stays aligned, for every graph.
-/

namespace Bailout

namespace Function

variable {f : Function} {s t : Site}

/-- Compiled code can be left at a place: an instruction that can leave it, in a block that the entry
reaches. -/
def CanLeave (f : Function) (s : Site) : Prop :=
  f.graph.Reaches f.graph.entry s.block ∧
    ∃ b i, f.graph.block? s.block = some b ∧ b.instrs[s.index]? = some i ∧ i.opcode.hasDeoptData

/-- The block of one place comes before the block of the other in reverse post-order, or the places come
in this order in one block. -/
def Before (f : Function) (s t : Site) : Prop :=
  f.graph.order.idxOf s.block < f.graph.order.idxOf t.block ∨ s.block = t.block ∧ s.index < t.index

theorem Before.ne (h : f.Before s t) : s ≠ t := by
  rintro rfl
  rcases h with hlt | ⟨-, hlt⟩ <;> exact Nat.lt_irrefl _ hlt

/-! ## Enumerating the places -/

theorem mem_deoptSites_iff_canLeave : s ∈ f.deoptSites ↔ f.CanLeave s := by
  rw [mem_deoptSites]
  refine and_congr_left ?_
  rintro ⟨b, -, hb, -⟩
  exact Graph.mem_order_iff_reaches (by simp [Graph.contains, hb])

theorem block_of_mem_blockSites {id : BlockId} (h : s ∈ f.blockSites id) : s.block = id := by
  unfold blockSites at h
  split at h
  · obtain ⟨⟨i, n⟩, -, hs⟩ := List.mem_filterMap.1 h
    obtain ⟨-, rfl⟩ : i.opcode.hasDeoptData = true ∧ ⟨id, n⟩ = s := by simpa using hs
    rfl
  · exact absurd h List.not_mem_nil

theorem blockSites_pairwise (f : Function) (id : BlockId) : (f.blockSites id).Pairwise f.Before := by
  unfold blockSites
  split
  · next b _ =>
    have hpositions : b.instrs.zipIdx.Pairwise fun p q => p.2 < q.2 := by
      rw [← List.pairwise_map (f := Prod.snd) (R := (· < ·)), List.zipIdx_map_snd]
      exact List.pairwise_lt_range'
    rw [List.pairwise_filterMap]
    refine hpositions.imp ?_
    rintro ⟨i, n⟩ ⟨j, m⟩ hlt s hs t ht
    obtain ⟨-, rfl⟩ : i.opcode.hasDeoptData = true ∧ ⟨id, n⟩ = s := by simpa using hs
    obtain ⟨-, rfl⟩ : j.opcode.hasDeoptData = true ∧ ⟨id, m⟩ = t := by simpa using ht
    exact .inr ⟨rfl, hlt⟩
  · exact .nil

theorem deoptSites_pairwise (f : Function) : f.deoptSites.Pairwise f.Before := by
  have horder : f.graph.order.Pairwise fun u v =>
      f.graph.order.idxOf u < f.graph.order.idxOf v := by
    rw [List.pairwise_iff_getElem]
    intro j k hj hk hlt
    rwa [f.graph.nodup_order.idxOf_getElem, f.graph.nodup_order.idxOf_getElem]
  refine List.pairwise_flatMap.2 ⟨fun id _ => f.blockSites_pairwise id, horder.imp ?_⟩
  intro u v hlt s hs t ht
  left
  rwa [block_of_mem_blockSites hs, block_of_mem_blockSites ht]

theorem nodup_deoptSites (f : Function) : f.deoptSites.Nodup := f.deoptSites_pairwise.imp Before.ne

end Function

/-! ## Units -/

/-- The unit has one record for each place where compiled code of `f` can be left, with nonces from
`nonce` on, and finds it by the place. -/
structure CompiledUnit.Covers (u : CompiledUnit) (f : Function) (nonce : Nat) : Prop where
  mem : ∀ s, s ∈ u.sites ↔ f.CanLeave s
  nodup : u.sites.Nodup
  ordered : u.sites.Pairwise f.Before
  length : u.records.length = u.sites.length
  /-- The record of a place is the one built from its instruction, with locations filled in. -/
  record : ∀ k s, u.sites[k]? = some s → ∃ i built record, f.instr s = .ok i ∧
    f.buildRecord i (nonce + k) = .ok (.ok built) ∧ u.records[k]? = some record ∧
    record = u.layout.fill built ∧ record.nonce = nonce + k ∧ record.isLocated
  index : ∀ s k, u.recordIndex? s = some k ↔ u.sites[k]? = some s
  elsewhere : ∀ s, u.recordIndex? s = none ↔ ¬ f.CanLeave s
  /-- The values of a unit that suspends are all in its spill area. -/
  spilled : f.code.isGeneratorLike → ∀ record ∈ u.records, ∀ v ∈ record.live,
    ∃ offset, v.location = some (.spill offset)
  /-- Every engine takes the unit. -/
  installs : ∀ e : Engine, ∃ id, (e.install u).1 = .ok id

namespace Function

variable {f : Function} {settings : Settings} {nonce last : Nat} {u : CompiledUnit}

theorem isLocated_of_compile (h : f.compile settings nonce = .ok (.ok u, last)) :
    ∀ record ∈ u.records, record.isLocated := by
  obtain ⟨records, -, hfinish⟩ := finish_of_compile h
  exact isLocated_of_finish hfinish

theorem spill_of_compile (h : f.compile settings nonce = .ok (.ok u, last))
    (hgen : f.code.isGeneratorLike) {record : Record} (hr : record ∈ u.records) {v : LiveValue}
    (hv : v ∈ record.live) : ∃ offset, v.location = some (.spill offset) := by
  obtain ⟨loc, hloc, hreg⟩ := location_of_compile h hr hv
  obtain ⟨-, -, regs, hd⟩ := dense_of_compile h
  have hbudget : Layout.budgetOf settings f.code.isGeneratorLike = 0 := by simp [Layout.budgetOf, hgen]
  rw [hbudget] at hd
  rcases hd.cases hreg with ⟨k, hk, -⟩ | ⟨k, -, -, rfl⟩
  · exact absurd hk (Nat.not_lt_zero k)
  · exact ⟨_, hloc⟩

/-- **One located record for each place.** A compiled unit lists the places of reachable code that can
leave it, each once, in reverse post-order and then by position, and has their records in the same
order, under consecutive nonces. -/
theorem compile_covers (h : f.compile settings nonce = .ok (.ok u, last)) :
    u.Covers f nonce ∧ last = nonce + u.sites.length := by
  obtain ⟨records, hbuild, hsites, hrecords, -⟩ := compile_eq_ok h
  obtain ⟨hlast, hbuilt⟩ := buildRecords_eq_ok hbuild
  have hlocated := isLocated_of_compile h
  have hmem : ∀ s, s ∈ u.sites ↔ f.CanLeave s := fun s => hsites ▸ mem_deoptSites_iff_canLeave
  have hnodup : u.sites.Nodup := hsites ▸ f.nodup_deoptSites
  refine ⟨?_, hsites ▸ hlast⟩
  constructor
  case mem => exact hmem
  case nodup => exact hnodup
  case ordered => exact hsites ▸ f.deoptSites_pairwise
  case length =>
    rw [hrecords, List.length_map, ← hbuilt.length_eq, List.length_zipIdx, hsites]
  case record =>
    intro k s hs
    obtain ⟨-, i, built, hi, hrec, hk, -⟩ := record_of_compile h hs
    obtain ⟨-, -, -, -, -, -, -, -, -, hnonce⟩ := buildRecord_eq_ok hrec
    exact ⟨i, built, _, hi, hrec, hk, rfl, hnonce, hlocated _ (List.mem_of_getElem? hk)⟩
  case index => exact fun s k => idxOf?_eq_some_iff_of_nodup hnodup
  case elsewhere => exact fun s => List.idxOf?_eq_none_iff.trans (not_congr (hmem s))
  case spilled => exact fun hgen record hr v hv => spill_of_compile h hgen hr hv
  case installs =>
    intro e
    refine ⟨⟨e.registry.value.nextUnit⟩, ?_⟩
    show (e.registry.value.install u).1 = _
    rw [e.registry.value.install_located hlocated]

end Function

/-! ## A detour

The entry leads to the last block, which leads back to the second one. Nothing leads to the third. Every
block has a guard. -/

namespace Detour

def code : CodeUnit :=
  { id := ⟨1⟩, name := "g", kind := .generator, locals := ["x"], stackSize := 2, length := 16 }

def guard (block : BlockId) : Instr where
  kind := .guard
  operands := [⟨0⟩]
  output := none
  block := some block
  frameState := some ⟨{ code, offset := ⟨0⟩, locals := [some ⟨0⟩] }, []⟩
  deopt := some { live := [⟨⟨0⟩, .owned, .object⟩] }

def jump (block target : BlockId) : Instr :=
  { kind := .branch target, operands := [], output := none, block := some block }

def func : Function where
  name := "g"
  code
  env := ⟨[.top]⟩
  graph := ⟨[
    some ⟨⟨0⟩, [{ kind := .loadArg 0, operands := [], output := some ⟨0⟩, block := some ⟨0⟩ },
      guard ⟨0⟩, jump ⟨0⟩ ⟨3⟩]⟩,
    some ⟨⟨1⟩, [guard ⟨1⟩, { kind := .ret, operands := [⟨0⟩], output := none, block := some ⟨1⟩ }]⟩,
    some ⟨⟨2⟩, [guard ⟨2⟩, jump ⟨2⟩ ⟨1⟩]⟩,
    some ⟨⟨3⟩, [guard ⟨3⟩, guard ⟨3⟩, jump ⟨3⟩ ⟨1⟩]⟩], ⟨0⟩⟩

theorem order : func.graph.order = [⟨0⟩, ⟨3⟩, ⟨1⟩] := Graph.order_of_within 6 rfl

theorem compile : ∃ u, func.compile {} 7 = .ok (.ok u, 11) ∧
    u.sites = [⟨⟨0⟩, 1⟩, ⟨⟨3⟩, 0⟩, ⟨⟨3⟩, 1⟩, ⟨⟨1⟩, 0⟩] :=
  have validate := Function.validate_of_order order rfl rfl
  ⟨_, Function.compile_of_sites validate (Function.deoptSites_of_order order) rfl rfl, rfl⟩

end Detour

theorem compile_covers_detour : ∃ u, Detour.func.compile {} 7 = .ok (.ok u, 11) ∧
    u.sites = [⟨⟨0⟩, 1⟩, ⟨⟨3⟩, 0⟩, ⟨⟨3⟩, 1⟩, ⟨⟨1⟩, 0⟩] ∧ u.Covers Detour.func 7 := by
  obtain ⟨u, hu, hsites⟩ := Detour.compile
  exact ⟨u, hu, hsites, (Function.compile_covers hu).1⟩

end Bailout
