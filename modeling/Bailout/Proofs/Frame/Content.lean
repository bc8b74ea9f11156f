import Bailout.Proofs.Frame.Decode
import Bailout.Proofs.Heap.Transfer

/-!
# Contents of places

`Record.content` is what the place of a live value is to hold, read from the machine state alone: nothing,
the object that a word refers to, or a primitive. Decoding a value gives that, and fails only if the
machine state cannot be read, a share count is at its limit, or the object is gone.

`Safely x post` says that a computation does not fault on a freed object, and that its result has a
property. Steps that are safe are safe one after the other.
-/

namespace Bailout

/-! ## Faults on freed objects -/

/-- A fault on an object that is not there any more. -/
def Fault.OnFreed : Fault → Prop
  | .dangling _ | .countUnderflow _ | .freedObject _ _ _ => True
  | _ => False

/-- The computation does not fault on a freed object, and its result has the property. -/
def Safely {α : Type} (x : Except Fault α) (post : α → Prop) : Prop :=
  match x with
  | .error fault => ¬ fault.OnFreed
  | .ok a => post a

section Safely

variable {α β : Type} {x : Except Fault α} {f : α → Except Fault β} {P : α → Prop} {Q : β → Prop}

theorem Safely.bind (hx : Safely x P) (hf : ∀ a, P a → Safely (f a) Q) : Safely (x >>= f) Q := by
  cases x with
  | error fault => exact hx
  | ok a => exact hf a hx

theorem Safely.mono {P' : α → Prop} (hx : Safely x P) (h : ∀ a, P a → P' a) : Safely x P' := by
  cases x with
  | error fault => exact hx
  | ok a => exact h a hx

end Safely

/-! ## What places are to hold -/

inductive Content where
  | empty
  /-- The object that a word refers to. -/
  | object (h : Handle)
  /-- A primitive. -/
  | box (payload : Object)
deriving DecidableEq, Repr

/-- What a word stands for. -/
def ValueKind.content (kind : ValueKind) (word : Word) : Except Fault Content :=
  match kind with
  | .object => (fun o => o.elim .empty .object) <$> Handle.ofWord word
  | .bool => .ok (.box (.bool (word != 0)))
  | kind => .ok ((kind.payload? word).elim .empty .box)

/-- What the place of a live value is to hold. -/
def Record.content (r : Record) (snap : Snapshot) (index : LiveIndex) : Except Fault Content := do
  match ← r.liveValue index with
  | none => return .empty
  | some v => v.valueKind.content (← r.readValue snap v)

/-! ## Reading words -/

/-- A decoded value is what its place is to hold. -/
def Content.Decodes (heap : Heap) (value : Decoded) : Content → Prop
  | .empty => value = .empty
  | .object h => value = .peek h
  | .box payload => ∃ h, value = .boxed h ∧ heap.get? h = some payload

section Read

variable {r : Record} {snap : Snapshot} {heap heap' : Heap} {v : LiveValue} {word : Word}

theorem Content.Decodes.mono {value : Decoded} {content : Content} (hd : content.Decodes heap value)
    (h : ∀ k payload, k ∈ value.box → heap.get? k = some payload → heap'.get? k = some payload) :
    content.Decodes heap' value := by
  cases content with
  | empty => exact hd
  | object k => exact hd
  | box payload =>
    obtain ⟨k, rfl, hget⟩ := hd
    exact ⟨k, rfl, h k payload List.mem_cons_self hget⟩

theorem ofWord_safely (word : Word) : Safely (Handle.ofWord word) fun _ => True := by
  unfold Handle.ofWord
  split
  · trivial
  · split
    · exact not_false
    · split
      · exact not_false
      · trivial

theorem read_safely (snap : Snapshot) (loc : Location) : Safely (snap.read loc) fun _ => True := by
  unfold Snapshot.read
  cases loc with
  | reg n =>
    simp only [pure_eq_ok, ok_bind]
    cases snap.regs[n]? with
    | none => exact not_false
    | some word => trivial
  | spill offset =>
    simp only [pure_eq_ok]
    cases hindex : Snapshot.spillIndex offset with
    | error fault =>
      unfold Snapshot.spillIndex at hindex
      split at hindex
      · cases hindex
      · obtain rfl := Except.error.inj hindex
        exact not_false
    | ok i =>
      simp only [ok_bind]
      cases snap.spill[i]? with
      | none => exact not_false
      | some word => trivial

theorem readValue_safely (r : Record) (snap : Snapshot) (v : LiveValue) :
    Safely (r.readValue snap v) fun _ => True := by
  unfold Record.readValue
  cases v.location with
  | none => exact not_false
  | some loc => exact read_safely snap loc

theorem resumeOffset_safely (reason : Reason) (innermost : Bool) (cause : Offset) :
    Safely (reason.resumeOffset innermost cause) fun _ => True := by
  have hnext : Safely cause.next fun _ => True := by
    unfold Offset.next Checked.offset
    split
    · trivial
    · exact not_false
  cases reason with
  | forced | yieldFrom => trivial
  | generatorYield => exact hnext
  | _ =>
    cases innermost with
    | true => trivial
    | false => exact hnext

theorem liveValue_safely (r : Record) (index : LiveIndex) :
    Safely (r.liveValue index) fun _ => True := by
  unfold Record.liveValue
  split
  · trivial
  · split
    · trivial
    · exact not_false

theorem content_dead (r : Record) (snap : Snapshot) : r.content snap LiveIndex.dead = .ok .empty := rfl

theorem content_of_payload {payload : Object} (h : v.valueKind.payload? word = some payload) :
    v.valueKind.content word = .ok (.box payload) := by
  cases hkind : v.valueKind with
  | object | bool =>
    rw [hkind] at h
    cases h
  | signed | unsigned | double =>
    rw [hkind] at h
    simp only [ValueKind.content, h, Option.elim_some]

theorem isPlainFunction_content {index : LiveIndex} {payload : Object}
    (h : r.content snap index = .ok (.box payload)) : payload.isPlainFunction = false := by
  obtain ⟨o, -, h⟩ := bind_eq_ok.1 h
  cases o with
  | none => cases h
  | some v =>
    obtain ⟨word, -, h⟩ := bind_eq_ok.1 h
    cases hp : v.valueKind.payload? word with
    | some object =>
      rw [content_of_payload hp] at h
      cases h
      exact ValueKind.isPlainFunction_payload hp
    | none =>
      cases hkind : v.valueKind with
      | object =>
        rw [hkind] at h
        obtain ⟨o, -, h⟩ := map_eq_ok.1 h
        cases o <;> cases h
      | bool =>
        rw [hkind] at h
        cases h
        rfl
      | signed | unsigned | double =>
        rw [hkind] at hp
        cases hp

/-- A word is decoded to what it stands for; a number gets a box of its own. -/
theorem decodeWord_safely (hs : heap.Sound) (hbools : heap.HasBools)
    (hlive : ∀ h, v.valueKind.content word = .ok (.object h) → heap.isLive h) :
    Safely (r.decodeWord heap v word) fun out =>
      ∃ content, v.valueKind.content word = .ok content ∧ content.Decodes out.2 out.1 ∧
        out.2.Sound ∧ heap.Grows out.2 out.1.box ∧ heap.Foreign out.1.box := by
  cases hp : v.valueKind.payload? word with
  | some payload =>
    have hnew := Heap.cell?_allocCell_fst hs ⟨payload, 1, false⟩
    rw [decodeWord_box hp]
    refine ⟨_, content_of_payload hp, ⟨_, rfl, ?_⟩, hs.allocCell _,
      Heap.grows_alloc hs (ValueKind.children_payload hp), ?_⟩
    · simp [Heap.get?, Heap.alloc, Heap.cell?_allocCell hs]
    · intro h hh c hc
      rw [List.mem_singleton.1 hh] at hc
      exact absurd (hnew.symm.trans hc) (by simp)
  | none =>
    cases hkind : v.valueKind with
    | object =>
      rw [hkind] at hlive
      simp only [Record.decodeWord, ValueKind.content, hkind] at hlive ⊢
      have hword := ofWord_safely word
      cases ho : Handle.ofWord word with
      | error fault =>
        rw [ho] at hword
        exact hword
      | ok o =>
        rw [ho] at hlive
        cases o with
        | none => exact ⟨.empty, rfl, rfl, hs, .refl heap, by simp [Heap.Foreign, Decoded.box]⟩
        | some h =>
          simp only [ok_bind, hlive h rfl, if_true]
          exact ⟨.object h, rfl, rfl, hs, .refl heap, by simp [Heap.Foreign, Decoded.box]⟩
    | bool =>
      obtain ⟨n, hn⟩ := hbools (word != 0)
      simp only [Record.decodeWord, ValueKind.content, hkind, Heap.boxBool]
      by_cases hlt : n < HeapCell.maxCount
      · obtain ⟨new, hinc, g⟩ := Heap.grows_incref hn hlt
        simp only [hinc, ok_bind, pure_eq_ok]
        refine ⟨_, rfl, ⟨_, rfl, ?_⟩, hs.incref hinc, g, ?_⟩
        · exact g.get? (by simp [Heap.get?, hn])
        · intro h hh c hc
          rw [List.mem_singleton.1 hh, hn] at hc
          exact (Option.some.inj hc) ▸ rfl
      · simp only [Heap.incref, Heap.cell, hn, ok_bind, hlt, if_false, throw_bind]
        exact not_false
    | signed | unsigned | double =>
      rw [hkind] at hp
      cases hp

end Read

end Bailout
