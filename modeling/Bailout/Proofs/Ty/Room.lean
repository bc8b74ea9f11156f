import Bailout.Proofs.Ty.Object

/-!
# The kinds that a narrowing fits

A narrowing speaks of values of some kinds only, and `Spec.room` is the set of these. A weaker narrowing
has no less room. So a join of types stays within the room of its narrowing, a meet loses kinds and
narrows no further than one of its operands, and every obtainable type has the kinds that its narrowing
asks for: `fits_of_obtainable`.
-/

namespace Bailout

/-! ## Sets of one kind -/

namespace Kinds

variable {a b : Kinds}

theorem eq_of_isSingle (h : a.isSingle) {i j : Nat} (hi : a.getLsbD i) (hj : a.getLsbD j) : i = j := by
  rw [isSingle, beq_iff_eq, List.countP_eq_length_filter, List.length_eq_one_iff] at h
  obtain ⟨k, hk⟩ := h
  have hall : ∀ n, a.getLsbD n → n = k := by
    intro n hn
    rw [← List.mem_singleton, ← hk, List.mem_filter, List.mem_range]
    exact ⟨BitVec.lt_of_getLsbD hn, hn⟩
  rw [hall i hi, hall j hj]

theorem exists_getLsbD (h : a ≠ 0#64) : ∃ i, a.getLsbD i := by
  by_contra hnone
  refine h (BitVec.eq_of_getLsbD_eq fun i _ => ?_)
  simpa using not_exists.1 hnone i

theorem subset_of_isSingle (h : a.isSingle) (hab : a &&& b ≠ 0#64) : a.subset b := by
  obtain ⟨i, hi⟩ := exists_getLsbD hab
  rw [BitVec.getLsbD_and, Bool.and_eq_true] at hi
  refine subset_iff.2 fun j hj => ?_
  rw [eq_of_isSingle h hj hi.1]
  exact hi.2

end Kinds

/-- Inside one kind there is no other set of kinds than this kind. -/
theorem Kind.eq_mask_of_subset {k : Kind} {bits : Kinds} (h : bits.subset k.mask) (hne : bits ≠ 0#64) :
    bits = k.mask := by
  refine Kinds.subset_antisymm h ((k.mask_subset_or bits).resolve_right fun hzero => hne ?_)
  have hself := Kinds.subset_and h (Kinds.subset_refl bits)
  rw [hzero] at hself
  exact Kinds.eq_zero_of_subset hself

/-! ## Room -/

/-- The kinds of primitive integers and booleans. -/
def Kinds.integer : Kinds := Kinds.signed ||| Kinds.unsigned ||| Kind.cBool.mask

/-- The kinds of objects that a type can name. `None` is the one object of its kind, and not named. -/
def Kinds.nameable : Kinds := Kinds.object &&& ~~~Kind.noneType.mask

namespace Spec

variable {a b : Spec}

/-- The kinds that have values of the narrowing. -/
def room : Spec → Kinds
  | .none => BitVec.allOnes 64
  | .inClass _ | .exactClass _ => Kind.objectUser.mask
  | .object _ => Kinds.nameable
  | .int _ => Kinds.integer
  | .double _ => Kind.cDouble.mask

theorem subset_room_none (bits : Kinds) : bits.subset (room .none) :=
  Kinds.subset_iff.2 fun i h => by
    rw [room, BitVec.getLsbD_allOnes]
    exact decide_eq_true (BitVec.lt_of_getLsbD h)

theorem room_mono (h : a.le b) : a.room.subset b.room := by
  obtain rfl | rfl | ⟨c, rfl, rfl⟩ := le_cases h
  · exact Kinds.subset_refl _
  · exact subset_room_none _
  · exact Kinds.subset_refl _

end Spec

namespace Ty

variable {a b t : Ty}

/-- The kinds are among those that the narrowing has room for. -/
def InRoom (t : Ty) : Prop := t.bits.subset t.spec.room

theorem inRoom_ofKinds (bits : Kinds) : (ofKinds bits).InRoom := Spec.subset_room_none bits

theorem inRoom_narrowed {bits : Kinds} {spec : Spec} (h : bits.subset spec.room) :
    (narrowed bits spec).InRoom := by
  unfold narrowed
  split
  · exact inRoom_ofKinds _
  · exact h

theorem InRoom.join (ha : a.InRoom) (hb : b.InRoom) : (a.join b).InRoom := by
  unfold Ty.join
  split
  · exact hb
  · split
    · exact ha
    · have hleft := Kinds.subset_trans ha (Spec.room_mono (Spec.le_join_left a.spec b.spec))
      have hright := Kinds.subset_trans hb (Spec.room_mono (Spec.le_join_right a.spec b.spec))
      exact inRoom_narrowed (Kinds.or_subset hleft hright)

theorem InRoom.meet (ha : a.InRoom) (hb : b.InRoom) : (a.meet b).InRoom := by
  unfold Ty.meet
  split
  · exact inRoom_narrowed (Kinds.subset_trans (Kinds.and_subset_left _ _) ha)
  · split
    · exact inRoom_narrowed (Kinds.subset_trans (Kinds.and_subset_right _ _) hb)
    · exact inRoom_ofKinds _

theorem inRoom_ofInt {kind : Ty} {value : Int} (h : ofInt kind value = .ok t) : t.InRoom := by
  unfold ofInt at h
  split at h
  · next hkind =>
    obtain rfl := Except.ok.inj h
    simp only [isIntegerKind, Bool.and_eq_true, bne_iff_ne] at hkind
    exact inRoom_narrowed (Kinds.subset_of_isSingle hkind.1.2 hkind.2)
  · cases h

theorem mask_objectKind_subset {o : Object} (h : o ≠ .none) :
    (objectKind o).mask.subset Kinds.nameable := by
  cases o with
  | none => exact absurd rfl h
  | _ =>
    dsimp only [objectKind]
    decide

theorem inRoom_ofObject {heap : Heap} {h : Handle} (hobj : ofObject heap h = .ok t) : t.InRoom := by
  unfold ofObject at hobj
  cases hget : heap.get h with
  | error e => simp [hget, Except.map] at hobj
  | ok o =>
    rw [hget] at hobj
    obtain rfl := Except.ok.inj hobj
    dsimp only
    split
    · exact inRoom_ofKinds _
    · next hne => exact inRoom_narrowed (mask_objectKind_subset hne)

/-- By induction on how the type was made: every operation leaves its result in room. -/
theorem Obtainable.inRoom (h : t.Obtainable) : t.InRoom := by
  induction h with
  | kinds bits => exact inRoom_ofKinds bits
  | int _ _ h => exact inRoom_ofInt h
  | bool value => exact inRoom_narrowed (by cases value <;> decide)
  | double bits => exact inRoom_narrowed (Kinds.subset_refl _)
  | ofClass c exact => exact inRoom_narrowed (by cases exact <;> exact Kinds.subset_refl _)
  | object hobj => exact inRoom_ofObject hobj
  | join _ _ ha hb => exact ha.join hb
  | meet _ _ ha hb => exact ha.meet hb
  | unspecialized _ _ => exact inRoom_ofKinds _

/-! ## Fitting types -/

/-- The narrowing fits the kinds, and the kinds the narrowing. -/
structure Fits (t : Ty) : Prop where
  bottom : t.isBottom → t.spec = .none
  int : ∀ v, t.spec = .int v → ¬ t.isBottom ∧ t.bits.subset Kinds.integer
  double : ∀ d, t.spec = .double d → t.bits = Kind.cDouble.mask
  inClass : ∀ c, t.spec = .inClass c ∨ t.spec = .exactClass c → t.bits = Kind.objectUser.mask
  object : ∀ h, t.spec = .object h →
    ¬ t.isBottom ∧ t.bits.subset Kinds.object ∧ ¬ Kind.noneType.mask.subset t.bits
  /-- A known object or double is one value. -/
  single : (∃ h, t.spec = .object h) ∨ (∃ d, t.spec = .double d) → t.isSingleValue ∧ ¬ t.isBottom

theorem Proper.not_isBottom (h : t.Proper) (hspec : t.spec ≠ .none) : ¬ t.isBottom := by
  intro hbottom
  rw [h (isBottom_iff.1 hbottom)] at hspec
  exact hspec rfl

/-- Where a narrowing has room in one kind only, a type narrowed by it is of this kind. -/
theorem Obtainable.bits_eq_mask {k : Kind} (h : t.Obtainable) (hspec : t.spec ≠ .none)
    (hroom : t.spec.room = k.mask) : t.bits = k.mask := by
  have hsub : t.bits.subset k.mask := hroom ▸ h.inRoom
  exact Kind.eq_mask_of_subset hsub (mt isBottom_iff.2 (h.proper.not_isBottom hspec))

/-- **In every obtainable type the narrowing fits the kinds.** -/
theorem fits_of_obtainable (h : t.Obtainable) : t.Fits := by
  have hroom : t.bits.subset t.spec.room := h.inRoom
  have hbottom : ∀ {s : Spec}, t.spec = s → s ≠ .none → ¬ t.isBottom :=
    fun hs hne => h.proper.not_isBottom (hs ▸ hne)
  have hdouble : ∀ d, t.spec = .double d → t.bits = Kind.cDouble.mask :=
    fun d hd => h.bits_eq_mask (by simp [hd]) (by rw [hd]; rfl)
  constructor
  case bottom =>
    intro hb
    rw [h.proper (isBottom_iff.1 hb)]
    rfl
  case int =>
    intro v hv
    rw [hv] at hroom
    exact ⟨hbottom hv (by simp), hroom⟩
  case double => exact hdouble
  case inClass =>
    rintro c (hc | hc)
    · exact h.bits_eq_mask (by simp [hc]) (by rw [hc]; rfl)
    · exact h.bits_eq_mask (by simp [hc]) (by rw [hc]; rfl)
  case object =>
    intro o ho
    rw [ho] at hroom
    refine ⟨hbottom ho (by simp), Kinds.subset_trans hroom (Kinds.and_subset_left _ _), ?_⟩
    intro hnone
    have hnamed : Kind.noneType.mask.subset Kinds.nameable := Kinds.subset_trans hnone hroom
    exact absurd hnamed (by decide)
  case single =>
    rintro (⟨o, ho⟩ | ⟨d, hd⟩)
    · exact ⟨by rw [isSingleValue, ho], hbottom ho (by simp)⟩
    · have hone : Kind.cDouble.mask.isSingle := by decide
      refine ⟨?_, hbottom hd (by simp)⟩
      rw [isSingleValue, hd, hdouble d hd]
      exact hone

end Ty

/-! ## One handle in two heaps -/

namespace Reuse

/-- The singletons, and one more object. -/
def heap (o : Object) : Heap := (Heap.initial.alloc o).2

end Reuse

/-- A cell holds an integer in one heap and a string in another. The join of the two types names the cell
and has both kinds; its meet with a third kind has none, and names nothing. -/
theorem fits_of_obtainable_reused : ∃ a b, Ty.ofObject (Reuse.heap (.int 5)) ⟨3⟩ = .ok a ∧
    Ty.ofObject (Reuse.heap (.str "s")) ⟨3⟩ = .ok b ∧
    (a.join b).spec = .object ⟨3⟩ ∧ (a.join b).bits = Kind.longExact.mask ||| Kind.strExact.mask ∧
    (a.join b).Fits ∧ ((a.join b).meet (.ofKinds Kinds.float)).isBottom ∧
      ((a.join b).meet (.ofKinds Kinds.float)).Fits := by
  let a : Ty := ⟨Kind.longExact.mask, .object ⟨3⟩⟩
  let b : Ty := ⟨Kind.strExact.mask, .object ⟨3⟩⟩
  have ha : Ty.ofObject (Reuse.heap (.int 5)) ⟨3⟩ = .ok a := rfl
  have hb : Ty.ofObject (Reuse.heap (.str "s")) ⟨3⟩ = .ok b := rfl
  have hjoin : (a.join b).Obtainable := .join (.object ha) (.object hb)
  exact ⟨a, b, ha, hb, by decide, by decide, Ty.fits_of_obtainable hjoin, by decide,
    Ty.fits_of_obtainable (hjoin.meet (.kinds _))⟩

end Bailout
