import Bailout.Proofs.Heap.Shares
import Mathlib.Data.Fintype.Card
import Mathlib.Data.Fintype.EquivFin
import Mathlib.Logic.Relation

/-!
# Accounts of the heap

`heap.AccountedFor shares` says that every share of every object has a holder: a live object that refers
to it, or somebody outside, as often as `shares` says. Each operation of the heap moves the external
shares that it documents and no others, and giving back a share that is held never fails, whatever
cascade of frees it starts: `accounts_kept`. Where no object holds itself, an object is therefore kept
alive by an immortal one or from outside.
-/

namespace Bailout

namespace Heap

variable {heap heap' : Heap} {h k : Handle} {c : HeapCell} {shares : Handle → Nat} {l : List Handle}

/-- One live object holds a share of another. -/
def Refers (heap : Heap) (h k : Handle) : Prop := ∃ c, heap.cell? h = some c ∧ k ∈ c.object.children

/-- Live objects refer to live objects, and the shares of each are those held from outside and one for
each reference among the children of live objects. `shares` is read at live objects only. -/
structure AccountedFor (heap : Heap) (shares : Handle → Nat) : Prop where
  children : ∀ h k, heap.Refers h k → heap.isLive k
  count : ∀ h c, heap.cell? h = some c → c.count = shares h + heap.childRefs h

/-- The free list is exact, and an object without shares is immortal. -/
structure WellFormed (heap : Heap) : Prop extends heap.Sound where
  positive : ∀ h c, heap.cell? h = some c → c.immortal = false → 0 < c.count

/-! ## Accounts and external shares -/

theorem childRefs_pos : 0 < heap.childRefs k ↔ ∃ h, heap.Refers h k := by
  unfold childRefs total
  rw [List.sum_pos_iff_exists_pos_nat]
  constructor
  · rintro ⟨n, hn, hpos⟩
    obtain ⟨x, hx, rfl⟩ := List.mem_map.1 hn
    cases x with
    | none => exact absurd hpos (Nat.lt_irrefl 0)
    | some c =>
      obtain ⟨i, hi⟩ := List.mem_iff_getElem?.1 hx
      exact ⟨⟨i⟩, c, cell?_eq_some.2 hi, List.count_pos_iff.1 hpos⟩
  · rintro ⟨h, c, hc, hk⟩
    refine ⟨c.object.children.count k, List.mem_map.2 ⟨some c, ?_, rfl⟩, List.count_pos_iff.2 hk⟩
    exact List.mem_iff_getElem?.2 ⟨h.index, cell?_eq_some.1 hc⟩

theorem cell?_eq_none_of_not_isLive (hdead : ¬ heap.isLive h) : heap.cell? h = none := by
  unfold isLive at hdead
  simpa using hdead

/-- A heap is accounted for when the shares that no live object holds are those held from outside; a
freed object has none of either. -/
theorem accountedFor_iff : heap.AccountedFor shares ↔
    ∀ h, heap.external h = if heap.isLive h then (shares h : Int) else 0 := by
  constructor
  · intro a h
    by_cases hlive : heap.isLive h
    · obtain ⟨c, hc⟩ := isLive_iff.1 hlive
      have := a.count h c hc
      rw [if_pos hlive, external, shares_eq hc]
      omega
    · have hrefs : heap.childRefs h = 0 := by
        by_contra hne
        obtain ⟨p, hp⟩ := childRefs_pos.1 (Nat.pos_of_ne_zero hne)
        exact hlive (a.children p h hp)
      rw [if_neg hlive, external, shares_eq_zero (cell?_eq_none_of_not_isLive hlive), hrefs]
      rfl
  · intro hx
    constructor
    · intro p k hp
      by_contra hdead
      have hpos : 0 < heap.childRefs k := childRefs_pos.2 ⟨p, hp⟩
      have hk := hx k
      rw [if_neg hdead, external, shares_eq_zero (cell?_eq_none_of_not_isLive hdead)] at hk
      omega
    · intro h c hc
      have hh := hx h
      rw [if_pos (isLive_iff.2 ⟨c, hc⟩), external, shares_eq hc] at hh
      omega

theorem AccountedFor.external_of_live (a : heap.AccountedFor shares) (hlive : heap.isLive h) :
    heap.external h = shares h := by
  rw [accountedFor_iff.1 a h, if_pos hlive]

theorem AccountedFor.external_of_dead (a : heap.AccountedFor shares) (hdead : ¬ heap.isLive h) :
    heap.external h = 0 := by
  rw [accountedFor_iff.1 a h, if_neg hdead]

/-! ## Releasing -/

theorem isLive_freeCell (hc : heap.cell? h = some c) :
    (heap.freeCell h).isLive k ↔ k ≠ h ∧ heap.isLive k := by
  unfold isLive
  rw [cell?_freeCell hc]
  split
  · next hk => simp [hk]
  · next hk => simp [hk]

theorem WellFormed.releaseAll (w : heap.WellFormed) (hrel : heap.releaseAll l = .ok heap') :
    heap'.WellFormed := by
  refine ⟨w.toSound.releaseAll hrel, ?_⟩
  refine releaseAll_induct
    (fun now _ => ∀ h c, now.cell? h = some c → c.immortal = false → 0 < c.count)
    ?lower ?free hrel w.positive
  case lower =>
    intro now h l' d hd _ hmany ih k c hc hmortal
    rw [cell?_put hd] at hc
    split at hc
    · obtain rfl := Option.some.inj hc
      rcases hmany with hmany | himm
      · show 0 < d.count - 1
        omega
      · exact absurd (himm.symm.trans hmortal) (by decide)
    · exact ih k c hc hmortal
  case free =>
    intro now h l' d hd _ _ ih k c hc hmortal
    rw [cell?_freeCell hd] at hc
    split at hc
    · cases hc
    · exact ih k c hc hmortal

/-- A release of shares that are held from outside takes those and no others, and an object with a share
left outside stays. -/
theorem AccountedFor.releaseAll (a : heap.AccountedFor shares) (hlive : ∀ k ∈ l, heap.isLive k)
    (hheld : ∀ k, l.count k ≤ shares k) :
    ∃ heap', heap.releaseAll l = .ok heap' ∧
      heap'.AccountedFor (fun k => shares k - l.count k) ∧
      ∀ k, heap.isLive k → l.count k < shares k → heap'.isLive k := by
  have hnone : ∀ k, ¬ heap.isLive k → l.count k = 0 := fun k hdead =>
    List.count_eq_zero.2 fun hk => hdead (hlive k hk)
  have hcovers : ∀ k, (l.count k : Int) ≤ heap.external k := by
    intro k
    by_cases hk : heap.isLive k
    · rw [a.external_of_live hk]
      exact Int.ofNat_le.2 (hheld k)
    · rw [a.external_of_dead hk, hnone k hk]
      rfl
  obtain ⟨heap', hrel⟩ := releaseAll_ok hcovers
  have hx := external_releaseAll hrel
  refine ⟨heap', hrel, accountedFor_iff.2 fun k => ?_, fun k hk hlt => ?_⟩
  · by_cases hk' : heap'.isLive k
    · obtain ⟨c, hc⟩ := isLive_iff.1 hk'
      obtain ⟨old, hold, -⟩ := releaseAll_survivor hrel hc
      rw [if_pos hk', hx, a.external_of_live (isLive_iff.2 ⟨old, hold⟩)]
      have := hheld k
      omega
    · have hdead : heap'.external k ≤ 0 := by
        rw [external, shares_eq_zero (cell?_eq_none_of_not_isLive hk')]
        omega
      have := hcovers k
      rw [if_neg hk']
      rw [hx] at hdead ⊢
      omega
  · have hpos : 0 < heap'.external k := by
      rw [hx, a.external_of_live hk]
      omega
    obtain ⟨c, hc, -⟩ := live_of_external hpos
    exact isLive_iff.2 ⟨c, hc⟩

/-! ## Taking shares -/

theorem isLive_put (hc : heap.cell? h = some c) (d : HeapCell) (k : Handle) :
    (heap.put h (some d)).isLive k = heap.isLive k := by
  unfold isLive
  rw [cell?_put hc]
  split
  · next hk => rw [hk, hc]; rfl
  · rfl

theorem isLive_incref (hinc : heap.incref h = .ok heap') (k : Handle) :
    heap'.isLive k = heap.isLive k := by
  obtain ⟨c, hc, -, rfl⟩ := incref_eq_ok.1 hinc
  exact isLive_put hc _ k

theorem WellFormed.incref (w : heap.WellFormed) (hinc : heap.incref h = .ok heap') :
    heap'.WellFormed := by
  refine ⟨w.toSound.incref hinc, fun k d hd hmortal => ?_⟩
  obtain ⟨c, hc, -, rfl⟩ := incref_eq_ok.1 hinc
  rw [cell?_put hc] at hd
  split at hd
  · obtain rfl := Option.some.inj hd
    exact Nat.succ_pos _
  · exact w.positive k d hd hmortal

theorem AccountedFor.incref (a : heap.AccountedFor shares) (hinc : heap.incref h = .ok heap') :
    heap'.AccountedFor fun k => shares k + [h].count k := by
  refine accountedFor_iff.2 fun k => ?_
  rw [external_incref hinc, isLive_incref hinc]
  by_cases hk : heap.isLive k
  · rw [if_pos hk, a.external_of_live hk]
    omega
  · have hne : k ≠ h := by
      rintro rfl
      obtain ⟨c, hc, -⟩ := incref_eq_ok.1 hinc
      exact hk (isLive_iff.2 ⟨c, hc⟩)
    rw [if_neg hk, a.external_of_dead hk, List.count_singleton, beq_false_of_ne hne.symm]
    rfl

/-! ## Allocating -/

/-- An allocation that uses up one external share of each reference in `spent`: the object is new, and
the caller holds its only share. -/
structure Allocates (heap : Heap) (shares : Handle → Nat) (spent : List Handle)
    (result : Handle × Heap) : Prop where
  fresh : ¬ heap.isLive result.1
  wellFormed : result.2.WellFormed
  accounted : result.2.AccountedFor fun k => if k = result.1 then 1 else shares k - spent.count k

theorem WellFormed.allocCell (w : heap.WellFormed) (hpos : 0 < c.count) :
    (heap.allocCell c).2.WellFormed := by
  refine ⟨w.toSound.allocCell c, fun k d hd hmortal => ?_⟩
  rw [cell?_allocCell w.toSound] at hd
  split at hd
  · obtain rfl := Option.some.inj hd
    exact hpos
  · exact w.positive k d hd hmortal

theorem AccountedFor.alloc (a : heap.AccountedFor shares) (w : heap.WellFormed) (object : Object)
    (hlive : ∀ k ∈ object.children, heap.isLive k)
    (hheld : ∀ k, object.children.count k ≤ shares k) :
    heap.Allocates shares object.children (heap.alloc object) := by
  have hfresh : ¬ heap.isLive (heap.alloc object).1 := by
    unfold isLive Heap.alloc
    rw [cell?_allocCell_fst w.toSound]
    exact Bool.false_ne_true
  have hnone : ∀ k, ¬ heap.isLive k → object.children.count k = 0 := fun k hdead =>
    List.count_eq_zero.2 fun hk => hdead (hlive k hk)
  refine ⟨hfresh, w.allocCell Nat.one_pos, accountedFor_iff.2 fun k => ?_⟩
  have hx : (heap.alloc object).2.external k = heap.external k +
      (if k = (heap.alloc object).1 then 1 else 0) - object.children.count k :=
    external_allocCell w.toSound ⟨object, 1, false⟩ k
  have hk' : (heap.alloc object).2.isLive k = if k = (heap.alloc object).1 then true else heap.isLive k := by
    unfold isLive Heap.alloc
    rw [cell?_allocCell w.toSound]
    split <;> rfl
  rw [hx, hk']
  by_cases hk : k = (heap.alloc object).1
  · rw [if_pos hk, if_pos hk, if_pos rfl, if_pos hk, hk, a.external_of_dead hfresh, hnone _ hfresh]
    rfl
  · rw [if_neg hk, if_neg hk, if_neg hk]
    by_cases hold : heap.isLive k
    · rw [if_pos hold, a.external_of_live hold]
      have := hheld k
      omega
    · rw [if_neg hold, a.external_of_dead hold, hnone k hold]
      rfl

/-! ## What keeps an object alive -/

/-- Where no object holds itself, going from an object to one that holds it comes to an end. -/
theorem wellFounded_refers (hacyclic : ∀ h, ¬ Relation.TransGen heap.Refers h h) :
    WellFounded heap.Refers := by
  have hbound : ∀ h k, heap.Refers h k → h.index < heap.cells.length := by
    rintro h k ⟨c, hc, -⟩
    exact (List.getElem?_eq_some_iff.1 (cell?_eq_some.1 hc)).1
  let above (i j : Fin heap.cells.length) : Prop := Relation.TransGen heap.Refers ⟨i⟩ ⟨j⟩
  have : IsTrans _ above := ⟨fun _ _ _ hij hjk => hij.trans hjk⟩
  have : Std.Irrefl above := ⟨fun i => hacyclic ⟨i⟩⟩
  have hwf : WellFounded above := Finite.wellFounded_of_trans_of_irrefl above
  have hacc : ∀ i : Fin heap.cells.length, Acc heap.Refers ⟨i⟩ := by
    intro i
    induction i using hwf.induction with
    | _ i ih => exact ⟨_, fun h hh => ih ⟨h.index, hbound h _ hh⟩ (.single hh)⟩
  exact ⟨fun k => ⟨k, fun h hh => hacc ⟨h.index, hbound h k hh⟩⟩⟩

theorem exists_root (w : heap.WellFormed) (a : heap.AccountedFor shares)
    (hacyclic : ∀ h, ¬ Relation.TransGen heap.Refers h h) (hc : heap.cell? h = some c) :
    ∃ root d, heap.cell? root = some d ∧ (d.immortal ∨ 0 < shares root) ∧
      Relation.ReflTransGen heap.Refers root h := by
  induction h using (wellFounded_refers hacyclic).induction generalizing c with
  | _ h ih =>
    by_cases hroot : c.immortal ∨ 0 < shares h
    · exact ⟨h, c, hc, hroot, .refl⟩
    · simp only [not_or, Bool.not_eq_true, Nat.not_lt, Nat.le_zero] at hroot
      have hpos := w.positive h c hc hroot.1
      rw [a.count h c hc, hroot.2, Nat.zero_add] at hpos
      obtain ⟨p, hp⟩ := childRefs_pos.1 hpos
      obtain ⟨d, hd, -⟩ := id hp
      obtain ⟨root, e, he, hroot, hreach⟩ := ih p hp hd
      exact ⟨root, e, he, hroot, hreach.tail hp⟩

/-! ## The operations -/

/-- What the operations do to the accounts of a heap. -/
structure KeepsAccounts (heap : Heap) (shares : Handle → Nat) : Prop where
  /-- A new object takes over one external share of each of its children. -/
  alloc : ∀ object, (∀ k ∈ object.children, heap.isLive k) →
    (∀ k, object.children.count k ≤ shares k) →
    heap.Allocates shares object.children (heap.alloc object)
  boxSigned : ∀ value, heap.Allocates shares [] (heap.boxSigned value)
  boxUnsigned : ∀ value, heap.Allocates shares [] (heap.boxUnsigned value)
  boxDouble : ∀ bits, heap.Allocates shares [] (heap.boxDouble bits)
  /-- A boxed boolean is one more share of its singleton. -/
  boxBool : ∀ value c, heap.cell? (boolHandle value) = some c → c.count < HeapCell.maxCount →
    ∃ heap', heap.boxBool value = .ok (boolHandle value, heap') ∧ heap'.WellFormed ∧
      heap'.AccountedFor fun k => shares k + [boolHandle value].count k
  incref : ∀ h c, heap.cell? h = some c → c.count < HeapCell.maxCount →
    ∃ heap', heap.incref h = .ok heap' ∧ heap'.WellFormed ∧
      heap'.AccountedFor fun k => shares k + [h].count k
  /-- A share held from outside can be given back. Objects of which another is left outside stay. -/
  decref : ∀ h, heap.isLive h → 1 ≤ shares h →
    ∃ heap', heap.decref h = .ok heap' ∧ heap'.WellFormed ∧
      heap'.AccountedFor (fun k => shares k - [h].count k) ∧
      ∀ k, heap.isLive k → [h].count k < shares k → heap'.isLive k
  /-- If no object holds itself, something immortal or held from outside keeps each object alive. -/
  rooted : (∀ h, ¬ Relation.TransGen heap.Refers h h) →
    ∀ h c, heap.cell? h = some c → c.immortal = false →
      ∃ root d, heap.cell? root = some d ∧ (d.immortal ∨ 0 < shares root) ∧
        Relation.ReflTransGen heap.Refers root h

/-- **Every operation keeps the accounts of the heap.** -/
theorem accounts_kept (w : heap.WellFormed) (a : heap.AccountedFor shares) :
    heap.KeepsAccounts shares := by
  have hbox : ∀ object : Object, object.children = [] →
      heap.Allocates shares [] (heap.alloc object) := by
    intro object hobject
    have halloc := a.alloc w object (by simp [hobject]) (by simp [hobject])
    rwa [hobject] at halloc
  have hincref : ∀ h c, heap.cell? h = some c → c.count < HeapCell.maxCount →
      ∃ heap', heap.incref h = .ok heap' ∧ heap'.WellFormed ∧
        heap'.AccountedFor fun k => shares k + [h].count k := by
    intro h c hc hlt
    have hinc := incref_eq_ok.2 ⟨c, hc, hlt, rfl⟩
    exact ⟨_, hinc, w.incref hinc, a.incref hinc⟩
  constructor
  case alloc => exact fun object hlive hheld => a.alloc w object hlive hheld
  case boxSigned => exact fun value => hbox (.int value) rfl
  case boxUnsigned =>
    intro value
    refine hbox _ ?_
    split <;> rfl
  case boxDouble => exact fun bits => hbox (.float bits) rfl
  case boxBool =>
    intro value c hc hlt
    obtain ⟨heap', hinc, hkept⟩ := hincref (boolHandle value) c hc hlt
    refine ⟨heap', ?_, hkept⟩
    rw [boxBool, hinc]
    rfl
  case incref => exact hincref
  case decref =>
    intro h hlive hheld
    have hcount : ∀ k, [h].count k ≤ shares k := by
      intro k
      by_cases hk : k = h
      · rw [hk, List.count_singleton_self]
        exact hheld
      · rw [List.count_singleton, beq_false_of_ne (Ne.symm hk)]
        exact Nat.zero_le _
    obtain ⟨heap', hrel, hkept⟩ := a.releaseAll (l := [h]) (by simpa using hlive) hcount
    exact ⟨heap', hrel, w.releaseAll hrel, hkept⟩
  case rooted => exact fun hacyclic h c hc _ => exists_root w a hacyclic hc

end Heap

namespace Cascade

/-- A tuple holds an integer twice and the first immortal object; the second has no shares. There may be
two lists that hold each other. -/
def heap (cyclic : Bool) : Heap where
  cells := [some ⟨.none, 2, true⟩, some ⟨.bool true, 0, true⟩, some ⟨.bool false, 1, true⟩,
    some ⟨.int 7, 2, false⟩, some ⟨.tuple [⟨3⟩, ⟨3⟩, ⟨0⟩], 1, false⟩] ++
    if cyclic then [some ⟨.list [⟨6⟩], 1, false⟩, some ⟨.list [⟨5⟩], 1, false⟩] else []
  free := []
  live := if cyclic then 7 else 5

def shares (h : Handle) : Nat := if h.index ∈ [0, 2, 4] then 1 else 0

theorem wellFormed (cyclic : Bool) : (heap cyclic).WellFormed := by
  have hcells : ∀ cyclic, ∀ c ∈ (heap cyclic).cells.filterMap id, c.immortal = false → 0 < c.count := by
    decide
  have hfull : ∀ cyclic, none ∉ (heap cyclic).cells := by decide
  refine ⟨⟨List.nodup_nil, fun i => ?_⟩, fun h c hc hmortal => ?_⟩
  · refine ⟨fun hi => absurd hi List.not_mem_nil, fun hi => ?_⟩
    exact absurd (List.mem_of_getElem? hi) (hfull cyclic)
  · refine hcells cyclic c (List.mem_filterMap.2 ⟨some c, ?_, rfl⟩) hmortal
    exact List.mem_of_getElem? (Heap.cell?_eq_some.1 hc)

theorem accounted (cyclic : Bool) : (heap cyclic).AccountedFor shares := by
  rw [Heap.accountedFor_iff]
  rintro ⟨i⟩
  match i with
  | 0 | 1 | 2 | 3 | 4 | 5 | 6 => revert cyclic; decide
  | i + 7 =>
    cases cyclic <;>
    simp [Heap.external, Heap.shares, Heap.count?, Heap.cell?, Heap.isLive, Heap.childRefs, Heap.total,
      heap, Object.children]

theorem index_lt {h k : Handle} (hr : Relation.TransGen (heap false).Refers h k) : k.index < h.index := by
  have hcells : ∀ i < 5, ∀ c ∈ (heap false).cell? ⟨i⟩, ∀ k ∈ c.object.children, k.index < i := by
    decide
  have hone : ∀ h k, (heap false).Refers h k → k.index < h.index := by
    rintro h k ⟨c, hc, hk⟩
    have hlt : h.index < 5 := (List.getElem?_eq_some_iff.1 (Heap.cell?_eq_some.1 hc)).1
    exact hcells h.index hlt c hc k hk
  induction hr with
  | single hr => exact hone _ _ hr
  | tail _ hr ih => exact Nat.lt_trans (hone _ _ hr) ih

end Cascade

/-- The tuple goes with both shares of the integer; the first immortal object and the cycle stay. -/
theorem accounts_kept_cascade :
    (∃ heap', (Cascade.heap true).decref ⟨4⟩ = .ok heap' ∧ heap'.WellFormed ∧
      heap'.AccountedFor (fun k => Cascade.shares k - [⟨4⟩].count k) ∧
      heap'.live = 5 ∧ heap'.count? ⟨0⟩ = some 1 ∧ heap'.count? ⟨5⟩ = some 1) ∧
    ∃ root d, (Cascade.heap false).cell? root = some d ∧ (d.immortal ∨ 0 < Cascade.shares root) ∧
      Relation.ReflTransGen (Cascade.heap false).Refers root ⟨3⟩ := by
  constructor
  · obtain ⟨heap', hrel, hw, ha, -⟩ := (Heap.accounts_kept (Cascade.wellFormed true)
      (Cascade.accounted true)).decref ⟨4⟩ rfl (by decide)
    refine ⟨heap', hrel, hw, ha, ?_⟩
    have heval : ((Cascade.heap true).decref ⟨4⟩).toOption.map
        (fun heap => (heap.live, heap.count? ⟨0⟩, heap.count? ⟨5⟩)) = some (5, some 1, some 1) := by
      decide +kernel
    simpa [hrel, Except.toOption] using heval
  · refine (Heap.accounts_kept (Cascade.wellFormed false) (Cascade.accounted false)).rooted
      (fun h hh => Nat.lt_irrefl _ (Cascade.index_lt hh)) ⟨3⟩ ⟨.int 7, 2, false⟩ rfl rfl

end Bailout
