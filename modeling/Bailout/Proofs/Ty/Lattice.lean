import Bailout.Fault
import Bailout.Heap.Basic
import Mathlib.Order.Lattice

/-!
# The lattice of types

`Ty.Obtainable` says which types the operations make. Kinds and narrowings are ordered apart, and each
order has the bounds it needs: kinds those of sets, narrowings joins, and meets where something is below
both. The two together are a partial order as soon as the type without kinds takes no narrowing
(`Obtainable.proper`), and the obtainable types are a lattice with a least element, in which `Ty.join`
and `Ty.meet` are the bounds: `Ty.latticeAt_of_obtainable`.
-/

namespace Bailout

/-! ## Sets of kinds -/

namespace Kinds

variable {a b c : Kinds}

theorem subset_iff : a.subset b ↔ ∀ i, a.getLsbD i → b.getLsbD i := by
  rw [subset, beq_iff_eq]
  constructor
  · intro h i hi
    have hbit : (a &&& ~~~b).getLsbD i = false := by rw [h, BitVec.getLsbD_zero]
    have hlt : i < 64 := BitVec.lt_of_getLsbD hi
    simpa [hi, hlt] using hbit
  · intro h
    refine BitVec.eq_of_getLsbD_eq fun i hlt => ?_
    have hi := h i
    cases ha : a.getLsbD i with
    | false => simp [ha]
    | true => simp [ha, hlt, hi ha]

theorem subset_refl (a : Kinds) : a.subset a := subset_iff.2 fun _ h => h

theorem subset_trans (hab : a.subset b) (hbc : b.subset c) : a.subset c :=
  subset_iff.2 fun i h => subset_iff.1 hbc i (subset_iff.1 hab i h)

theorem subset_antisymm (hab : a.subset b) (hba : b.subset a) : a = b := by
  refine BitVec.eq_of_getLsbD_eq fun i _ => ?_
  rw [Bool.eq_iff_iff]
  exact ⟨subset_iff.1 hab i, subset_iff.1 hba i⟩

theorem subset_or_left (a b : Kinds) : a.subset (a ||| b) :=
  subset_iff.2 fun i h => by simp [h]

theorem subset_or_right (a b : Kinds) : b.subset (a ||| b) :=
  subset_iff.2 fun i h => by simp [h]

theorem or_subset (ha : a.subset c) (hb : b.subset c) : Kinds.subset (a ||| b) c := by
  refine subset_iff.2 fun i h => ?_
  rw [BitVec.getLsbD_or, Bool.or_eq_true] at h
  exact h.elim (subset_iff.1 ha i) (subset_iff.1 hb i)

theorem and_subset_left (a b : Kinds) : Kinds.subset (a &&& b) a :=
  subset_iff.2 fun i h => by simp_all

theorem and_subset_right (a b : Kinds) : Kinds.subset (a &&& b) b :=
  subset_iff.2 fun i h => by simp_all

theorem subset_and (ha : c.subset a) (hb : c.subset b) : c.subset (a &&& b) := by
  refine subset_iff.2 fun i h => ?_
  rw [BitVec.getLsbD_and, subset_iff.1 ha i h, subset_iff.1 hb i h, Bool.and_true]

theorem zero_subset (a : Kinds) : Kinds.subset 0#64 a := subset_iff.2 fun i h => by simp at h

theorem eq_zero_of_subset (h : a.subset 0#64) : a = 0#64 := subset_antisymm h (zero_subset a)

end Kinds

/-! ## Narrowings -/

namespace Spec

variable {a b c : Spec}

theorem le_refl (a : Spec) : a.le a := by cases a <;> simp [le]

theorem le_none (a : Spec) : a.le .none := by cases a <;> rfl

/-- Nothing narrows further than equality allows, but for an exact class inside its class. -/
theorem le_cases (h : a.le b) : a = b ∨ b = .none ∨ ∃ c, a = .exactClass c ∧ b = .inClass c := by
  cases a <;> cases b <;> simp_all [le]

theorem le_trans (hab : a.le b) (hbc : b.le c) : a.le c := by
  obtain rfl | rfl | ⟨d, rfl, rfl⟩ := le_cases hab
  · exact hbc
  · obtain rfl | rfl | ⟨d, hd, -⟩ := le_cases hbc
    · exact le_none a
    · exact le_none a
    · cases hd
  · obtain rfl | rfl | ⟨d, hd, -⟩ := le_cases hbc
    · exact hab
    · exact le_none _
    · cases hd

theorem le_antisymm (hab : a.le b) (hba : b.le a) : a = b := by
  obtain rfl | rfl | ⟨d, rfl, rfl⟩ := le_cases hab
  · rfl
  · obtain rfl | rfl | ⟨d, hd, -⟩ := le_cases hba
    · rfl
    · rfl
    · cases hd
  · simp [le] at hba

theorem join_of_le (h : a.le b) : a.join b = b := by
  obtain rfl | rfl | ⟨d, rfl, rfl⟩ := le_cases h
  · simp [join]
  · cases a <;> simp [join]
  · simp [join]

theorem join_comm (a b : Spec) : a.join b = b.join a := by
  unfold join
  by_cases h : a = b
  · simp [h]
  · rw [if_neg h, if_neg (Ne.symm h)]
    cases a <;> cases b <;> simp_all [eq_comm]

theorem join_of_not_le (hab : ¬ a.le b) (hba : ¬ b.le a) : a.join b = .none := by
  have hne : a ≠ b := by
    rintro rfl
    exact hab (le_refl a)
  unfold join
  rw [if_neg hne]
  cases a <;> cases b <;> simp_all [le]
  exact Ne.symm hba

theorem le_join_left (a b : Spec) : a.le (a.join b) := by
  by_cases hab : a.le b
  · rw [join_of_le hab]
    exact hab
  · by_cases hba : b.le a
    · rw [join_comm, join_of_le hba]
      exact le_refl a
    · rw [join_of_not_le hab hba]
      exact le_none a

theorem le_join_right (a b : Spec) : b.le (a.join b) := by
  rw [join_comm]
  exact le_join_left b a

/-- What is above two narrowings that cannot be compared is no narrowing. -/
theorem eq_none_of_le (hab : ¬ a.le b) (hba : ¬ b.le a) (hac : a.le c) (hbc : b.le c) : c = .none := by
  obtain rfl | rfl | ⟨d, rfl, rfl⟩ := le_cases hac
  · exact absurd hbc hba
  · rfl
  · obtain rfl | h | ⟨d', rfl, h⟩ := le_cases hbc
    · exact absurd hac hab
    · cases h
    · cases h
      exact absurd (le_refl _) hab

theorem join_le (hac : a.le c) (hbc : b.le c) : (a.join b).le c := by
  by_cases hab : a.le b
  · rw [join_of_le hab]
    exact hbc
  · by_cases hba : b.le a
    · rw [join_comm, join_of_le hba]
      exact hac
    · rw [eq_none_of_le hab hba hac hbc]
      exact le_none _

theorem le_total_of_le (ha : c.le a) (hb : c.le b) : a.le b ∨ b.le a := by
  obtain rfl | rfl | ⟨d, rfl, rfl⟩ := le_cases ha
  · exact .inl hb
  · exact .inr (le_none b)
  · obtain rfl | rfl | ⟨d', h, rfl⟩ := le_cases hb
    · exact .inr ha
    · exact .inl (le_none _)
    · cases h
      exact .inl (le_refl _)

end Spec

/-! ## Types -/

namespace Ty

variable {a b c t : Ty}

theorem isBottom_iff : t.isBottom ↔ t.bits = 0#64 := by simp [isBottom]

theorem le_iff : a.le b ↔ a.bits = 0#64 ∨ a.bits.subset b.bits ∧ a.spec.le b.spec := by
  simp [le, isBottom]

theorem le_refl (a : Ty) : a.le a := le_iff.2 (.inr ⟨Kinds.subset_refl _, Spec.le_refl _⟩)

theorem le_trans (hab : a.le b) (hbc : b.le c) : a.le c := by
  rcases le_iff.1 hab with ha | ⟨hbits, hspec⟩
  · exact le_iff.2 (.inl ha)
  · rcases le_iff.1 hbc with hb | ⟨hbits', hspec'⟩
    · exact le_iff.2 (.inl (Kinds.eq_zero_of_subset (hb ▸ hbits)))
    · exact le_iff.2 (.inr ⟨Kinds.subset_trans hbits hbits', Spec.le_trans hspec hspec'⟩)

theorem bottom_le (t : Ty) : bottom.le t := le_iff.2 (.inl rfl)

theorem le_top (h : t.bits.subset Kinds.top) : t.le top := le_iff.2 (.inr ⟨h, Spec.le_none _⟩)

/-- The type without kinds takes no narrowing. -/
def Proper (t : Ty) : Prop := t.bits = 0#64 → t = bottom

theorem proper_narrowed (bits : Kinds) (spec : Spec) : (narrowed bits spec).Proper := by
  intro h
  unfold narrowed at h ⊢
  split
  · rfl
  · rw [if_neg ‹_›] at h
    exact absurd h ‹_›

theorem narrowed_le {bits : Kinds} {spec : Spec} (hb : bits.subset c.bits) (hs : spec.le c.spec) :
    (narrowed bits spec).le c := by
  unfold narrowed
  split
  · exact bottom_le c
  · exact le_iff.2 (.inr ⟨hb, hs⟩)

theorem le_narrowed {bits : Kinds} {spec : Spec} (hb : c.bits.subset bits) (hs : c.spec.le spec) :
    c.le (narrowed bits spec) := by
  unfold narrowed
  split
  · exact le_iff.2 (.inl (Kinds.eq_zero_of_subset (‹bits = 0#64› ▸ hb)))
  · exact le_iff.2 (.inr ⟨hb, hs⟩)

/-- Two types that are below each other have the same kinds, and the same narrowing unless both are
empty. -/
theorem le_antisymm (ha : a.Proper) (hb : b.Proper) (hab : a.le b) (hba : b.le a) : a = b := by
  rcases le_iff.1 hab with ha₀ | ⟨hbits, hspec⟩
  · rcases le_iff.1 hba with hb₀ | ⟨hbits, -⟩
    · rw [ha ha₀, hb hb₀]
    · rw [ha ha₀, hb (Kinds.eq_zero_of_subset (ha₀ ▸ hbits))]
  · rcases le_iff.1 hba with hb₀ | ⟨hbits', hspec'⟩
    · rw [hb hb₀, ha (Kinds.eq_zero_of_subset (hb₀ ▸ hbits))]
    · obtain ⟨bits, spec⟩ := a
      obtain ⟨bits', spec'⟩ := b
      obtain rfl : bits = bits' := Kinds.subset_antisymm hbits hbits'
      obtain rfl : spec = spec' := Spec.le_antisymm hspec hspec'
      rfl

theorem compare?_eq_some_eq : a.compare? b = some .eq ↔ a.le b ∧ b.le a := by
  unfold compare?
  cases a.le b <;> cases b.le a <;> simp

/-! ## Bounds -/

theorem le_join_left (a b : Ty) : a.le (a.join b) := by
  unfold join
  split
  · exact le_iff.2 (.inl (isBottom_iff.1 ‹_›))
  · split
    · exact le_refl a
    · exact le_narrowed (Kinds.subset_or_left _ _) (Spec.le_join_left _ _)

theorem le_join_right (a b : Ty) : b.le (a.join b) := by
  unfold join
  split
  · exact le_refl b
  · split
    · exact le_iff.2 (.inl (isBottom_iff.1 ‹_›))
    · exact le_narrowed (Kinds.subset_or_right _ _) (Spec.le_join_right _ _)

theorem join_le (ha : a.le c) (hb : b.le c) : (a.join b).le c := by
  unfold join
  split
  · exact hb
  · next ha₀ =>
    split
    · exact ha
    · next hb₀ =>
      obtain ⟨habits, haspec⟩ := (le_iff.1 ha).resolve_left (mt isBottom_iff.2 ha₀)
      obtain ⟨hbbits, hbspec⟩ := (le_iff.1 hb).resolve_left (mt isBottom_iff.2 hb₀)
      exact narrowed_le (Kinds.or_subset habits hbbits) (Spec.join_le haspec hbspec)

theorem meet_le_left (a b : Ty) : (a.meet b).le a := by
  unfold meet
  split
  · exact narrowed_le (Kinds.and_subset_left _ _) (Spec.le_refl _)
  · split
    · exact narrowed_le (Kinds.and_subset_left _ _) ‹_›
    · exact bottom_le a

theorem meet_le_right (a b : Ty) : (a.meet b).le b := by
  unfold meet
  split
  · exact narrowed_le (Kinds.and_subset_right _ _) ‹_›
  · split
    · exact narrowed_le (Kinds.and_subset_right _ _) (Spec.le_refl _)
    · exact bottom_le b

theorem le_meet (ha : c.le a) (hb : c.le b) : c.le (a.meet b) := by
  rcases le_iff.1 ha with hc | ⟨habits, haspec⟩
  · exact le_iff.2 (.inl hc)
  · rcases le_iff.1 hb with hc | ⟨hbbits, hbspec⟩
    · exact le_iff.2 (.inl hc)
    · have hbits := Kinds.subset_and habits hbbits
      unfold meet
      split
      · exact le_narrowed hbits haspec
      · next hab =>
        -- The narrowing of `c` is below both, so one of the two is below the other.
        have hba := (Spec.le_total_of_le haspec hbspec).resolve_left hab
        rw [if_pos hba]
        exact le_narrowed hbits hbspec

theorem couldBe_iff : a.couldBe b ↔ ¬ (a.meet b).isBottom := by simp [couldBe]

theorem isBottom_of_le (h : a.le b) (hb : b.isBottom) : a.isBottom := by
  rw [isBottom_iff] at hb ⊢
  rcases le_iff.1 h with ha | ⟨hbits, -⟩
  · exact ha
  · exact Kinds.eq_zero_of_subset (hb ▸ hbits)

/-! ## Obtainable types -/

/-- The types that the operations make, from sets of kinds and known values on. -/
inductive Obtainable : Ty → Prop where
  | kinds (bits : Kinds) : Obtainable (ofKinds bits)
  | int {kind t : Ty} {value : Int} : Obtainable kind → Checked.isSigned value →
      ofInt kind value = .ok t → Obtainable t
  | bool (value : Bool) : Obtainable (ofBool value)
  | double (bits : UInt64) : Obtainable (ofDouble bits)
  | ofClass (c : ClassId) (exact : Bool) : Obtainable (ofClass c exact)
  | object {heap : Heap} {h : Handle} {t : Ty} : ofObject heap h = .ok t → Obtainable t
  | join {a b : Ty} : Obtainable a → Obtainable b → Obtainable (a.join b)
  | meet {a b : Ty} : Obtainable a → Obtainable b → Obtainable (a.meet b)
  | unspecialized {t : Ty} : Obtainable t → Obtainable t.unspecialized

theorem proper_ofKinds (bits : Kinds) : (ofKinds bits).Proper := by
  intro h
  rw [ofKinds] at h ⊢
  obtain rfl : bits = 0#64 := h
  rfl

theorem Proper.join (ha : a.Proper) (hb : b.Proper) : (a.join b).Proper := by
  unfold Ty.join
  split
  · exact hb
  · split
    · exact ha
    · exact proper_narrowed _ _

theorem proper_meet (a b : Ty) : (a.meet b).Proper := by
  unfold meet
  split
  · exact proper_narrowed _ _
  · split
    · exact proper_narrowed _ _
    · exact proper_ofKinds _

theorem Obtainable.proper (h : t.Obtainable) : t.Proper := by
  induction h with
  | kinds bits => exact proper_ofKinds bits
  | int _ _ h =>
    unfold ofInt at h
    split at h
    · obtain rfl := Except.ok.inj h
      exact proper_narrowed _ _
    · cases h
  | bool value => exact proper_narrowed _ _
  | double bits => exact proper_narrowed _ _
  | ofClass c exact => exact proper_narrowed _ _
  | @object heap h t hobj =>
    unfold ofObject at hobj
    cases hget : heap.get h with
    | error e => simp [hget, Except.map] at hobj
    | ok o =>
      rw [hget] at hobj
      obtain rfl := Except.ok.inj hobj
      dsimp only
      split
      · exact proper_ofKinds _
      · exact proper_narrowed _ _
  | join _ _ ha hb => exact ha.join hb
  | meet _ _ _ _ => exact proper_meet _ _
  | unspecialized _ _ => exact proper_ofKinds _

/-- An obtainable type. -/
abbrev Obtained := { t : Ty // t.Obtainable }

instance : Lattice Obtained where
  le a b := a.val.le b.val
  le_refl a := le_refl a.val
  le_trans _ _ _ hab hbc := le_trans hab hbc
  le_antisymm a b hab hba := Subtype.ext (le_antisymm a.property.proper b.property.proper hab hba)
  sup a b := ⟨a.val.join b.val, a.property.join b.property⟩
  le_sup_left a b := le_join_left a.val b.val
  le_sup_right a b := le_join_right a.val b.val
  sup_le _ _ _ ha hb := join_le ha hb
  inf a b := ⟨a.val.meet b.val, a.property.meet b.property⟩
  inf_le_left a b := meet_le_left a.val b.val
  inf_le_right a b := meet_le_right a.val b.val
  le_inf _ _ _ ha hb := le_meet ha hb

/-- What a lattice order says of three types. -/
structure LatticeAt (a b c : Ty) : Prop where
  refl : a.le a
  trans : a.le b → b.le c → a.le c
  antisymm : a.le b → b.le a → a = b
  compare_eq : a.compare? b = some .eq ↔ a = b
  /-- The join is the least type above both. -/
  join_lub : (a.join b).Obtainable ∧ a.le (a.join b) ∧ b.le (a.join b) ∧
    (a.le c → b.le c → (a.join b).le c)
  /-- The meet is the greatest type below both. -/
  meet_glb : (a.meet b).Obtainable ∧ (a.meet b).le a ∧ (a.meet b).le b ∧
    (c.le a → c.le b → c.le (a.meet b))
  bottom_le : bottom.le a
  le_top : a.bits.subset Kinds.top → a.le top
  comm : a.join b = b.join a ∧ a.meet b = b.meet a
  assoc : (a.join b).join c = a.join (b.join c) ∧ (a.meet b).meet c = a.meet (b.meet c)
  idem : a.join a = a ∧ a.meet a = a
  absorb : a.join (a.meet b) = a ∧ a.meet (a.join b) = a
  couldBe_iff : a.couldBe b ↔ ∃ d : Ty, d.Obtainable ∧ ¬ d.isBottom ∧ d.le a ∧ d.le b

/-- **The obtainable types are a lattice.** -/
theorem latticeAt_of_obtainable (ha : a.Obtainable) (hb : b.Obtainable) (hc : c.Obtainable) :
    LatticeAt a b c := by
  let x : Obtained := ⟨a, ha⟩
  let y : Obtained := ⟨b, hb⟩
  let z : Obtained := ⟨c, hc⟩
  constructor
  case refl => exact le_refl a
  case trans => exact le_trans
  case antisymm => exact le_antisymm ha.proper hb.proper
  case compare_eq =>
    rw [compare?_eq_some_eq]
    exact le_antisymm_iff (a := x) (b := y) |>.symm.trans Subtype.ext_iff
  case join_lub => exact ⟨ha.join hb, le_join_left a b, le_join_right a b, join_le⟩
  case meet_glb => exact ⟨ha.meet hb, meet_le_left a b, meet_le_right a b, le_meet⟩
  case bottom_le => exact Ty.bottom_le a
  case le_top => exact Ty.le_top
  case comm => exact ⟨congrArg Subtype.val (sup_comm x y), congrArg Subtype.val (inf_comm x y)⟩
  case assoc =>
    exact ⟨congrArg Subtype.val (sup_assoc x y z), congrArg Subtype.val (inf_assoc x y z)⟩
  case idem => exact ⟨congrArg Subtype.val (sup_idem x), congrArg Subtype.val (inf_idem x)⟩
  case absorb =>
    exact ⟨congrArg Subtype.val (sup_inf_self (a := x) (b := y)),
      congrArg Subtype.val (inf_sup_self (a := x) (b := y))⟩
  case couldBe_iff =>
    rw [Ty.couldBe_iff]
    constructor
    · intro h
      exact ⟨a.meet b, ha.meet hb, h, meet_le_left a b, meet_le_right a b⟩
    · rintro ⟨d, -, hd, hda, hdb⟩ h
      exact hd (isBottom_of_le (le_meet hda hdb) h)

/-- An exact class, its class and a join of kinds, of which the first two can be compared. -/
theorem latticeAt_classes :
    LatticeAt (.ofClass ⟨1⟩ true) (.ofClass ⟨1⟩ false)
      ((ofKinds Kind.longExact.mask).join (.ofBool true)) ∧
    (Ty.ofClass ⟨1⟩ true).join (.ofClass ⟨1⟩ false) = .ofClass ⟨1⟩ false ∧
    (Ty.ofClass ⟨1⟩ true).couldBe (.ofClass ⟨1⟩ false) :=
  ⟨latticeAt_of_obtainable (.ofClass ⟨1⟩ true) (.ofClass ⟨1⟩ false) (.join (.kinds _) (.bool true)),
    by decide, by decide⟩

end Ty

end Bailout
