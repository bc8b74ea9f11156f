import Bailout.Proofs.Ty.Lattice

/-!
# Types as sets of objects

`Ty.Describes` reads a type as the live objects it speaks of: by their kind, and by the class or the
identity that it narrows the kind to. What a smaller type describes, a larger one does. The type of one
object describes this object alone, and the types above it are those that describe the object without
naming its class: `ofObject_le_iff`. Nothing relates an object to its class, so an instance is not below
the class that describes it, and the two count as having no value in common.
-/

namespace Bailout

/-! ## Kinds -/

namespace Kind

theorem mask_ne_zero (k : Kind) : k.mask ≠ 0#64 := by cases k <;> decide

theorem mask_subset_or (k : Kind) (bits : Kinds) : k.mask.subset bits ∨ k.mask &&& bits = 0#64 := by
  cases hk : bits.getLsbD k.ctorIdx with
  | true =>
    left
    refine Kinds.subset_iff.2 fun i hi => ?_
    obtain ⟨-, rfl⟩ : k.ctorIdx < 64 ∧ k.ctorIdx = i := by
      simpa [mask, BitVec.getLsbD_twoPow] using hi
    exact hk
  | false =>
    right
    refine BitVec.eq_of_getLsbD_eq fun i _ => ?_
    by_cases hi : k.ctorIdx = i
    · subst hi
      simp [hk]
    · simp [mask, BitVec.getLsbD_twoPow, hi]

theorem mask_subset_iff {k : Kind} {bits : Kinds} : k.mask.subset bits ↔ k.mask &&& bits ≠ 0#64 := by
  constructor
  · intro hsub hzero
    have hself := Kinds.subset_and (Kinds.subset_refl k.mask) hsub
    rw [hzero] at hself
    exact k.mask_ne_zero (Kinds.eq_zero_of_subset hself)
  · exact (k.mask_subset_or bits).resolve_right

end Kind

/-! ## Narrowings -/

namespace Spec

variable {a b s : Spec} {h : Handle} {o : Object}

/-- The narrowing lets a live object through: an instance through its class, each object through its own
identity. -/
def Admits (s : Spec) (h : Handle) (o : Object) : Prop :=
  match s with
  | .none => True
  | .inClass c | .exactClass c => ∃ fields, o = .inst c fields
  | .object h' => h' = h
  | .int _ | .double _ => False

/-- The narrowing is to a class. -/
def isClass : Spec → Bool
  | .inClass _ | .exactClass _ => true
  | _ => false

theorem Admits.mono (hle : a.le b) (ha : a.Admits h o) : b.Admits h o := by
  obtain rfl | rfl | ⟨c, rfl, rfl⟩ := le_cases hle
  · exact ha
  · trivial
  · exact ha

theorem object_le : (object h).le s ↔ s = .none ∨ s = .object h := by
  constructor
  · intro hle
    obtain rfl | rfl | ⟨c, hc, -⟩ := le_cases hle
    · exact .inr rfl
    · exact .inl rfl
    · cases hc
  · rintro (rfl | rfl)
    · exact le_none _
    · exact le_refl _

theorem le_object : s.le (.object h) ↔ s = .object h := by
  cases s <;> simp [le]

/-- An object is below the narrowings that let it through, other than classes. -/
theorem object_le_iff : (object h).le s ↔ s.Admits h o ∧ ¬ s.isClass := by
  rw [object_le]
  cases s <;> simp [Admits, isClass]

end Spec

/-! ## Types -/

namespace Ty

variable {a b : Ty} {heap : Heap} {h : Handle} {o : Object}

/-- A live object is of a kind of the type, and its narrowing lets the object through. -/
def Describes (t : Ty) (heap : Heap) (h : Handle) : Prop :=
  ∃ o, heap.get? h = some o ∧ (objectKind o).mask.subset t.bits ∧ t.spec.Admits h o

theorem describes_iff (ho : heap.get? h = some o) :
    a.Describes heap h ↔ (objectKind o).mask.subset a.bits ∧ a.spec.Admits h o := by
  simp [Describes, ho]

theorem Describes.mono (hle : a.le b) (ha : a.Describes heap h) : b.Describes heap h := by
  obtain ⟨o, ho, hkind, hspec⟩ := ha
  rcases le_iff.1 hle with hempty | ⟨hbits, hle⟩
  · rw [hempty] at hkind
    exact absurd (Kinds.eq_zero_of_subset hkind) (Kind.mask_ne_zero _)
  · exact ⟨o, ho, Kinds.subset_trans hkind hbits, hspec.mono hle⟩

theorem ofObject_eq (ho : heap.get? h = some o) (hne : o ≠ .none) :
    ofObject heap h = .ok ⟨(objectKind o).mask, .object h⟩ := by
  obtain ⟨c, hc, rfl⟩ := Option.map_eq_some_iff.1 ho
  have hget : heap.get h = .ok c.object := by
    unfold Heap.get Heap.cell
    rw [hc]
    rfl
  unfold ofObject
  rw [hget]
  refine congrArg Except.ok ?_
  dsimp only
  split
  · next hnone => exact absurd hnone hne
  · exact if_neg (Kind.mask_ne_zero _)

/-- A type of one kind, narrowed to an object, has a value in common with the types above it only. -/
theorem couldBe_object_iff (k : Kind) (h : Handle) (b : Ty) :
    Ty.couldBe ⟨k.mask, .object h⟩ b ↔ Ty.le ⟨k.mask, .object h⟩ b := by
  rw [couldBe_iff, isBottom_iff, le_iff, or_iff_right k.mask_ne_zero, Kind.mask_subset_iff]
  unfold meet
  by_cases hle : (Spec.object h).le b.spec
  · rw [if_pos hle, narrowed]
    split
    · simp_all [bottom, ofKinds]
    · simp_all
  · have hback : ¬ b.spec.le (.object h) := by
      rw [Spec.object_le] at hle
      rw [Spec.le_object]
      exact fun heq => hle (.inr heq)
    rw [if_neg hle, if_neg hback]
    simp [bottom, ofKinds, hle]

/-- **The type of an object describes it alone, and is below the types that describe the object other
than by its class.** With those it has a value in common, and with no other. -/
theorem ofObject_le_iff (ho : heap.get? h = some o) (hne : o ≠ .none) :
    ∃ t, ofObject heap h = .ok t ∧ (∀ h', t.Describes heap h' ↔ h' = h) ∧
      ∀ b : Ty, (t.le b ↔ b.Describes heap h ∧ ¬ b.spec.isClass) ∧ (t.couldBe b ↔ t.le b) := by
  refine ⟨_, ofObject_eq ho hne, fun h' => ?_, fun b => ⟨?_, couldBe_object_iff _ _ _⟩⟩
  · constructor
    · rintro ⟨o', -, -, hadmits⟩
      exact Eq.symm hadmits
    · rintro rfl
      exact ⟨o, ho, Kinds.subset_refl _, rfl⟩
  · rw [le_iff, or_iff_right (Kind.mask_ne_zero _), describes_iff ho, and_assoc]
    exact and_congr_right fun _ => Spec.object_le_iff

end Ty

/-! ## An instance and its class -/

namespace Instance

/-- The singletons, and an instance of class 5. -/
def heap : Heap := (Heap.initial.alloc (.inst ⟨5⟩ [])).2

end Instance

/-- Kind and class both describe the instance. Its type is below the kind but not below the class, and
counts as incompatible with it. -/
theorem ofObject_le_iff_instance : ∃ t, Ty.ofObject Instance.heap ⟨3⟩ = .ok t ∧
    t.le (.ofKinds Kind.objectUser.mask) ∧
    (Ty.ofClass ⟨5⟩ true).Describes Instance.heap ⟨3⟩ ∧ ¬ t.le (.ofClass ⟨5⟩ true) ∧
      ¬ t.couldBe (.ofClass ⟨5⟩ true) := by
  have ho : Instance.heap.get? ⟨3⟩ = some (.inst ⟨5⟩ []) := rfl
  obtain ⟨t, ht, -, habove⟩ := Ty.ofObject_le_iff ho (by decide)
  have hclass : ¬ t.le (.ofClass ⟨5⟩ true) := fun hle => absurd ((habove _).1.1 hle).2 (by decide)
  refine ⟨t, ht, (habove _).1.2 ⟨⟨_, ho, by decide, trivial⟩, by decide⟩, ?_, hclass, ?_⟩
  · exact ⟨_, ho, by decide, [], rfl⟩
  · exact fun hcould => hclass ((habove _).2.1 hcould)

end Bailout
