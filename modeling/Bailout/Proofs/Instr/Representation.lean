import Bailout.Function
import Bailout.Proofs.Frame.Decode
import Bailout.Proofs.Ty.Lattice

/-!
# How the machine represents registers

A live register is described by the type inferred for it. Signed integers, unsigned integers, booleans
and doubles each have a representation, and values of it are not counted. A type gets one of these only if
all its kinds do: pointers have none, and neither has a union of kinds with different representations or
with the null pointer. Registers of such types are described as object references, though their values are
machine words, and when the frames are rebuilt a word that happens to encode a live object is taken for
it: `Function.liveReg_machine_iff`.
-/

namespace Bailout

namespace ValueKind

/-- The kinds of values with the representation. -/
def kinds : ValueKind → Kinds
  | object => Kinds.object
  | signed => Kinds.signed
  | unsigned => Kinds.unsigned
  | bool => Kind.cBool.mask
  | double => Kind.cDouble.mask

theorem kinds_primitive {v : ValueKind} (hv : v ≠ object) : v.kinds.subset Kinds.primitive := by
  cases v <;> first | exact absurd rfl hv | decide

theorem kinds_nullptr (v : ValueKind) : v.kinds &&& Kind.nullptr.mask = 0#64 := by
  cases v <;> decide

end ValueKind

namespace Ty

variable {t : Ty} {v : ValueKind}

/-- There are values of the type, and all of them have the representation. -/
def Within (t : Ty) (v : ValueKind) : Prop := t.bits ≠ 0#64 ∧ t.bits.subset v.kinds

theorem within_iff : t.Within v ↔ (t.le (.ofKinds v.kinds) && !t.isBottom) = true := by
  have hspec : t.spec.le (ofKinds v.kinds).spec := Spec.le_none t.spec
  rw [Bool.and_eq_true, le_iff, Bool.not_eq_true', ← Bool.not_eq_true, isBottom_iff, Within]
  constructor
  · exact fun ⟨hne, hsub⟩ => ⟨.inr ⟨hsub, hspec⟩, hne⟩
  · exact fun ⟨hle, hne⟩ => ⟨hne, (hle.resolve_left hne).1⟩

theorem not_subset_of_disjoint {a b : Kinds} (hab : a &&& b = 0#64) (hne : t.bits ≠ 0#64)
    (ha : t.bits.subset a) : ¬ t.bits.subset b := by
  intro hb
  have hempty := Kinds.subset_and ha hb
  rw [hab] at hempty
  exact hne (Kinds.eq_zero_of_subset hempty)

end Ty

theorem ValueKind.ofTy_cases (t : Ty) :
    (ofTy t ≠ object ∧ t.Within (ofTy t)) ∨ (ofTy t = object ∧ ∀ v, v ≠ object → ¬ t.Within v) := by
  have htests : ofTy t =
      if t.le (.ofKinds bool.kinds) && !t.isBottom then bool
      else if t.le (.ofKinds signed.kinds) && !t.isBottom then signed
      else if t.le (.ofKinds unsigned.kinds) && !t.isBottom then unsigned
      else if t.le (.ofKinds double.kinds) && !t.isBottom then double
      else object := rfl
  rw [htests]
  split
  · next h => exact .inl ⟨by decide, Ty.within_iff.2 h⟩
  · next hbool =>
    split
    · next h => exact .inl ⟨by decide, Ty.within_iff.2 h⟩
    · next hsigned =>
      split
      · next h => exact .inl ⟨by decide, Ty.within_iff.2 h⟩
      · next hunsigned =>
        split
        · next h => exact .inl ⟨by decide, Ty.within_iff.2 h⟩
        · next hdouble =>
          refine .inr ⟨rfl, fun v hv => ?_⟩
          cases v with
          | object => exact absurd rfl hv
          | signed => exact mt Ty.within_iff.1 hsigned
          | unsigned => exact mt Ty.within_iff.1 hunsigned
          | bool => exact mt Ty.within_iff.1 hbool
          | double => exact mt Ty.within_iff.1 hdouble

/-- A type has a representation other than a reference exactly if all its values do. -/
theorem ValueKind.ofTy_ne_object {t : Ty} :
    ofTy t ≠ object ↔ ∃ v, v ≠ object ∧ t.Within v := by
  rcases ofTy_cases t with ⟨hne, hwithin⟩ | ⟨hobject, hnone⟩
  · exact ⟨fun _ => ⟨_, hne, hwithin⟩, fun _ => hne⟩
  · exact ⟨fun h => absurd hobject h, fun ⟨v, hv, hwithin⟩ => absurd hwithin (hnone v hv)⟩

namespace LiveReg

/-- Whatever the machine holds in a register described this way, rebuilding a frame makes a new box of it
and does not take it for a reference. -/
def Boxes (l : LiveReg) : Prop :=
  ∀ (r : Record) (heap heap' : Heap) (v : LiveValue) (word : Word) (value : Decoded), v.liveReg = l →
    r.decodeWord heap v word = .ok (value, heap') → ∃ h, value = .boxed h

theorem boxes_iff {l : LiveReg} : l.Boxes ↔ l.valueKind ≠ .object := by
  constructor
  · intro hboxes hobject
    have hpeek : Record.decodeWord ⟨[], [], .guardFailure, none, none, 0⟩ Heap.initial
        (LiveValue.ofLiveReg l) 8 = .ok (.peek ⟨0⟩, Heap.initial) := by
      simp only [Record.decodeWord, LiveValue.ofLiveReg, hobject]
      rfl
    obtain ⟨h, hh⟩ := hboxes _ _ _ _ _ _ (LiveValue.liveReg_ofLiveReg l) hpeek
    cases hh
  · rintro hne r heap heap' v word value rfl h
    change v.valueKind ≠ .object at hne
    cases hp : v.valueKind.payload? word with
    | some object =>
      rw [decodeWord_box hp] at h
      exact ⟨_, (congrArg Prod.fst (Except.ok.inj h)).symm⟩
    | none =>
      have hbool : v.valueKind = .bool := by
        cases hk : v.valueKind <;> simp_all [ValueKind.payload?]
      unfold Record.decodeWord at h
      rw [hbool] at h
      obtain ⟨boxed, -, h⟩ := bind_eq_ok.1 h
      exact ⟨_, (congrArg Prod.fst (Except.ok.inj h)).symm⟩

end LiveReg

namespace Function

/-- **A register is described as a machine value exactly if its type allows one machine
representation.** Every other register, a primitive one too, is described as an object with the given
ownership, and its words may be taken for references. -/
theorem liveReg_machine_iff {f : Function} {r : Reg} {t : Ty} (ht : f.env.typeOf? r = some t)
    (refKind : RefKind) :
    ∃ l, f.liveReg r refKind = .ok l ∧
      (l.valueKind ≠ .object ∧ l.refKind = .uncounted ↔
        t.isPrimitive ∧ ¬ t.bits.subset Kind.nullptr.mask ∧
          ∃ v : ValueKind, v ≠ .object ∧ t.bits.subset v.kinds) ∧
      (l.valueKind ≠ .object → t.bits.subset l.valueKind.kinds) ∧
      (l.valueKind = .object → l = ⟨r, refKind, .object⟩) ∧
      (l.Boxes ↔ l.valueKind ≠ .object) := by
  have hlive : f.liveReg r refKind = .ok (LiveReg.ofTy r refKind t) := by
    rw [liveReg, Env.typeOf, ht]
    rfl
  refine ⟨_, hlive, ?_, ?_, ?_, LiveReg.boxes_iff⟩
  · have huncounted : (LiveReg.ofTy r refKind t).valueKind ≠ .object →
        (LiveReg.ofTy r refKind t).refKind = .uncounted := by
      intro hne
      exact if_pos (bne_iff_ne.2 hne)
    rw [and_iff_left_of_imp huncounted]
    refine ValueKind.ofTy_ne_object.trans ⟨?_, ?_⟩
    · rintro ⟨v, hv, hne, hsub⟩
      refine ⟨?_, ?_, v, hv, hsub⟩
      · have hprimitive := Kinds.subset_trans hsub (ValueKind.kinds_primitive hv)
        simp [Ty.isPrimitive, Ty.isBottom, hne, hprimitive]
      · exact Ty.not_subset_of_disjoint v.kinds_nullptr hne hsub
    · rintro ⟨hprimitive, -, v, hv, hsub⟩
      refine ⟨v, hv, ?_, hsub⟩
      simpa [Ty.isBottom] using (Bool.and_eq_true_iff.1 hprimitive).1
  · intro hne
    rcases ValueKind.ofTy_cases t with ⟨-, hwithin⟩ | ⟨hobject, -⟩
    · exact hwithin.2
    · exact absurd hobject hne
  · intro hobject
    have hkind : ValueKind.ofTy t = .object := hobject
    simp [LiveReg.ofTy, hkind, ValueKind.isPrimitive]

end Function

/-! ## Integers of unknown sign -/

namespace Unsized

def code : CodeUnit := { id := ⟨1⟩, name := "f", locals := ["x", "y"], stackSize := 1, length := 16 }

/-- An integer that may be signed or not, and a signed one. -/
def func : Function :=
  { Function.new code with env := ⟨[.ofKinds Kinds.cInt, .ofKinds Kind.cInt32.mask]⟩ }

end Unsized

/-- Both types are primitive. The first register is described as an owned reference all the same, and its
integers may be taken for objects. -/
theorem liveReg_machine_iff_unsized :
    (Ty.ofKinds Kinds.cInt).Obtainable ∧ (Ty.ofKinds Kinds.cInt).isPrimitive ∧
    (∃ l, Unsized.func.liveReg ⟨0⟩ .owned = .ok l ∧ l = ⟨⟨0⟩, .owned, .object⟩ ∧ ¬ l.Boxes) ∧
    ∃ l, Unsized.func.liveReg ⟨1⟩ .owned = .ok l ∧ l.refKind = .uncounted ∧ l.Boxes := by
  refine ⟨.kinds _, by decide, ?_, ?_⟩
  · obtain ⟨l, hl, -, -, hobject, hboxes⟩ :=
      Function.liveReg_machine_iff (f := Unsized.func) (r := ⟨0⟩) (t := .ofKinds Kinds.cInt) rfl .owned
    obtain rfl : ⟨⟨0⟩, .owned, .object⟩ = l := Except.ok.inj hl
    exact ⟨_, hl, hobject rfl, fun h => hboxes.1 h rfl⟩
  · obtain ⟨l, hl, hmachine, -, -, hboxes⟩ :=
      Function.liveReg_machine_iff (f := Unsized.func) (r := ⟨1⟩) (t := .ofKinds Kind.cInt32.mask) rfl .owned
    obtain ⟨hne, hcount⟩ := hmachine.2 ⟨by decide, by decide, .signed, by decide, by decide⟩
    exact ⟨l, hl, hcount, hboxes.2 hne⟩

end Bailout
