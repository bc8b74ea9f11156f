import Bailout.Proofs.Frame.Shares
import Bailout.Proofs.Heap.Growth
import Mathlib.Data.List.Dedup

/-!
# Decoding succeeds

While one frame is rebuilt the decoder maps live registers to objects. `Scene` is what decoding relies
on and does not change: the machine state can be read, references name live objects, and the boolean
singletons are there. `Filling` is the invariant of the loop over the places of a frame: the heap has
grown by the decoder's boxes and the shares already placed, every register decoded so far has the object
its word stands for, and there is room for the shares still to come.
-/

namespace Bailout

/-! ## What words stand for -/

namespace ValueKind

/-- The primitive that a word is boxed as. -/
def payload? (kind : ValueKind) (word : Word) : Option Object :=
  match kind with
  | .signed => some (.int word.toInt64.toInt)
  | .unsigned => some (if word.toNat < 0x8000000000000000 then .int word.toNat else .uint word.toNat)
  | .double => some (.float word)
  | .object | .bool => none

/-- The object that a word stands for without a new box. -/
def fixed? (kind : ValueKind) (word : Word) : Option Handle :=
  match kind with
  | .object =>
    match Handle.ofWord word with
    | .ok o => o
    | .error _ => none
  | .bool => some (Heap.boolHandle (word != 0))
  | _ => none

theorem children_payload {kind : ValueKind} {word : Word} {object : Object}
    (h : kind.payload? word = some object) : object.children = [] := by
  cases kind <;> simp only [payload?, Option.some.injEq, reduceCtorEq] at h
  · simp [← h, Object.children]
  · rw [← h]
    split <;> rfl
  · simp [← h, Object.children]

theorem isPlainFunction_payload {kind : ValueKind} {word : Word} {object : Object}
    (h : kind.payload? word = some object) : object.isPlainFunction = false := by
  cases kind <;> simp only [payload?, Option.some.injEq, reduceCtorEq] at h
  · simp [← h, Object.isPlainFunction]
  · rw [← h]
    split <;> rfl
  · simp [← h, Object.isPlainFunction]

theorem fixed?_of_payload {kind : ValueKind} {word : Word} {object : Object}
    (h : kind.payload? word = some object) : kind.fixed? word = none := by
  cases kind <;> simp [payload?] at h <;> rfl

end ValueKind

theorem Heap.isPlainFunction_eq {heap : Heap} {h : Handle} {object : Object}
    (ho : heap.get? h = some object) : heap.isPlainFunction h = .ok object.isPlainFunction := by
  obtain ⟨c, hc, rfl⟩ := Option.map_eq_some_iff.1 ho
  simp [Heap.isPlainFunction, Heap.get, Heap.cell, hc, Functor.map, Except.map]

/-- The boolean singletons are in place. -/
def Heap.HasBools (heap : Heap) : Prop :=
  ∀ b, ∃ n, heap.cell? (Heap.boolHandle b) = some ⟨.bool b, n, true⟩

/-- The object that a live register stands for without a new box. -/
def LiveReg.fixed? (σ : Reg → Word) (l : LiveReg) : Option Handle := l.valueKind.fixed? (σ l.reg)

/-- The words of live registers can be read, each in the location that the record gives. -/
def Record.Reads (r : Record) (snap : Snapshot) (σ : Reg → Word) (live : List LiveReg) : Prop :=
  ∀ v ∈ r.live, v.liveReg ∈ live → r.readValue snap v = .ok (σ v.reg)

/-- What decoding relies on, for the live registers that it reads. -/
structure Scene (r : Record) (snap : Snapshot) (σ : Reg → Word) (live : List LiveReg) (old : Heap) :
    Prop where
  distinct : (r.live.map LiveValue.liveReg).Nodup
  bools : old.HasBools
  read : r.Reads snap σ live
  objects : ∀ l ∈ live, l.valueKind = .object →
    ∃ o, Handle.ofWord (σ l.reg) = .ok o ∧ ∀ h, o = some h → old.isLive h

/-! ## The decoder as a map -/

namespace Decoder

/-- The value decoded for a live register. -/
def known (r : Record) (d : Decoder) (l : LiveReg) : Option Decoded :=
  (r.live.findIdx? fun v => v.liveReg == l).bind fun p => d.decoded[p]?.join

/-- The object decoded for a live register. -/
def object (r : Record) (d : Decoder) (l : LiveReg) : Option Handle :=
  (d.known r l).bind Decoded.handle?

/-- The object for a place; nothing for a dead one. -/
def holds (r : Record) (d : Decoder) (o : Option LiveReg) : Option Handle := o.bind (object r d)

/-- Nothing that was decoded is forgotten. -/
def Extends (r : Record) (d d' : Decoder) : Prop :=
  ∀ l value, d.known r l = some value → d'.known r l = some value

variable {r : Record} {d d' : Decoder} {p : Nat} {v : LiveValue}

theorem known_eq (hn : (r.live.map LiveValue.liveReg).Nodup) (hp : r.live[p]? = some v) (d : Decoder) :
    d.known r v.liveReg = d.decoded[p]?.join := by
  rw [known, LiveReg.findIdx?_of_nodup_map hn hp, Option.bind_some]

theorem known_set (hn : (r.live.map LiveValue.liveReg).Nodup) (hp : r.live[p]? = some v)
    (hlt : p < d.decoded.length) (heap : Heap) (value : Decoded) (l : LiveReg) :
    Decoder.known r ⟨heap, d.decoded.set p (some value)⟩ l =
      if l = v.liveReg then some value else d.known r l := by
  split
  · next hl =>
    subst hl
    rw [known_eq hn hp]
    simp [hlt]
  · next hl =>
    unfold known
    cases hq : r.live.findIdx? fun v => v.liveReg == l with
    | none => rfl
    | some q =>
      have hne : p ≠ q := fun hpq => by
        obtain ⟨hq', hl', -⟩ := List.findIdx?_eq_some_iff_getElem.1 hq
        subst hpq
        rw [List.getElem?_eq_getElem hq', Option.some.injEq] at hp
        exact hl (show v.liveReg = l by simpa [hp] using hl').symm
      simp [List.getElem?_set_ne hne]

theorem known_replicate (r : Record) (heap : Heap) (l : LiveReg) :
    Decoder.known r ⟨heap, List.replicate r.live.length none⟩ l = none := by
  unfold known
  cases r.live.findIdx? fun v => v.liveReg == l with
  | none => rfl
  | some q =>
    rw [Option.bind_some, List.getElem?_replicate]
    split <;> rfl

theorem Extends.refl (r : Record) (d : Decoder) : d.Extends r d := fun _ _ h => h

theorem Extends.trans {d'' : Decoder} (h : d.Extends r d') (h' : d'.Extends r d'') : d.Extends r d'' :=
  fun l value hl => h' l value (h l value hl)

theorem Extends.holds {o : Option LiveReg} (h : d.Extends r d')
    (ho : ∀ l, o = some l → (d.known r l).isSome) : d'.holds r o = d.holds r o := by
  cases o with
  | none => rfl
  | some l =>
    obtain ⟨value, hl⟩ := Option.isSome_iff_exists.1 (ho l rfl)
    simp [Decoder.holds, Decoder.object, hl, h l value hl]

/-- The object that a place will hold, where it is known beforehand. -/
def denoted (r : Record) (σ : Reg → Word) (d : Decoder) (l : LiveReg) : Option Handle :=
  match d.known r l with
  | some value => value.handle?
  | none => l.fixed? σ

/-- The booleans among the places that are yet to be decoded; each takes a share while the frame is
rebuilt. -/
def bools (r : Record) (d : Decoder) (places : List LiveReg) : List LiveReg :=
  (places.filter fun l => l.valueKind == .bool && (d.known r l).isNone).dedup

/-- The shares still to be taken of known objects. -/
def future (r : Record) (σ : Reg → Word) (d : Decoder) (places : List LiveReg) : List Handle :=
  places.filterMap (denoted r σ d) ++ (d.bools r places).filterMap (LiveReg.fixed? σ)

end Decoder

/-- A decoded value is what its word stands for: a new box, or an object known beforehand. Of the
latter only booleans are held by the decoder. -/
inductive Sourced (σ : Reg → Word) (old heap : Heap) (l : LiveReg) : Decoded → Prop where
  | box {h : Handle} {object : Object} : l.valueKind.payload? (σ l.reg) = some object →
      old.cell? h = none → heap.get? h = some object → Sourced σ old heap l (.boxed h)
  | fixed {value : Decoded} : l.valueKind.payload? (σ l.reg) = none → value.handle? = l.fixed? σ →
      value.box = (if l.valueKind = .bool then (l.fixed? σ).toList else []) → Sourced σ old heap l value

/-- The state of filling: `places` are still to be filled, and those filled hold shares of `placed`. -/
structure Filling (r : Record) (σ : Reg → Word) (old : Heap) (d : Decoder) (places : List LiveReg)
    (placed : List Handle) : Prop where
  ready : d.Ready r
  grows : old.Grows d.heap (d.boxes ++ placed)
  sourced : ∀ l value, d.known r l = some value → Sourced σ old d.heap l value
  room : ∀ h ∈ d.future r σ places, ∀ c ∈ d.heap.cell? h,
    c.count + (d.future r σ places).count h ≤ HeapCell.maxCount
  boxes : ∀ l ∈ places, (l.valueKind.payload? (σ l.reg)).isSome → places.count l < HeapCell.maxCount

/-- From `d` to `d'`, places with the given contents were filled, and each took a share of its object. -/
structure Filled (r : Record) (σ : Reg → Word) (old : Heap) (d d' : Decoder)
    (contents : List (Option LiveReg)) (places : List LiveReg) (placed : List Handle) : Prop where
  known : ∀ l ∈ contents.reduceOption, (d'.known r l).isSome
  filling : Filling r σ old d' places ((contents.map (d'.holds r)).reduceOption ++ placed)
  grown : d.Extends r d'

section

variable {r : Record} {snap : Snapshot} {σ : Reg → Word} {live places : List LiveReg}
  {old heap heap' : Heap} {d : Decoder} {l : LiveReg} {placed taken : List Handle}

theorem Sourced.mono {value : Decoded} (hs : Sourced σ old heap l value) (g : heap.Grows heap' taken) :
    Sourced σ old heap' l value := by
  cases hs with
  | box hp hnone hget => exact .box hp hnone (g.get? hget)
  | fixed hp hv hb => exact .fixed hp hv hb

/-! ## Reading one word -/

theorem Scene.fixed_live (sc : Scene r snap σ live old) (hl : l ∈ live) {h : Handle}
    (hf : l.fixed? σ = some h) : old.isLive h := by
  unfold LiveReg.fixed? ValueKind.fixed? at hf
  split at hf
  · next hk =>
    obtain ⟨o, ho, hlive⟩ := sc.objects l hl hk
    rw [ho] at hf
    exact hlive h hf
  · obtain ⟨n, hn⟩ := sc.bools (σ l.reg != 0)
    obtain rfl := Option.some.inj hf
    exact Heap.isLive_iff.2 ⟨_, hn⟩
  · simp at hf

theorem decodeWord_box {v : LiveValue} {word : Word} {object : Object}
    (h : v.valueKind.payload? word = some object) :
    r.decodeWord heap v word = .ok (.boxed (heap.alloc object).1, (heap.alloc object).2) := by
  unfold Record.decodeWord
  cases hk : v.valueKind <;> rw [hk] at h <;>
    simp only [ValueKind.payload?, Option.some.injEq, reduceCtorEq] at h
  all_goals rw [← h]; rfl

/-- A word is decoded to what it stands for. Only a boolean needs room in the count of its object. -/
theorem Scene.decodeWord (sc : Scene r snap σ live old) (hs : heap.Sound) (g : old.Grows heap taken)
    {v : LiveValue} (hv : v.liveReg ∈ live)
    (hroom : v.valueKind = .bool → ∀ h, v.liveReg.fixed? σ = some h →
      ∀ c, heap.cell? h = some c → c.count < HeapCell.maxCount) :
    ∃ value heap', r.decodeWord heap v (σ v.reg) = .ok (value, heap') ∧ heap'.Sound ∧
      heap.Grows heap' value.box ∧ Sourced σ old heap' v.liveReg value ∧
      ((v.valueKind.payload? (σ v.reg)).isSome → ∀ h ∈ value.box, heap.cell? h = none) := by
  cases hp : v.valueKind.payload? (σ v.reg) with
  | some object =>
    have hnone := Heap.cell?_allocCell_fst hs ⟨object, 1, false⟩
    refine ⟨_, _, decodeWord_box hp, hs.allocCell _,
      Heap.grows_alloc hs (ValueKind.children_payload hp), .box hp (g.cell?_eq_none hnone) ?_, ?_⟩
    · simp [Heap.get?, Heap.alloc, Heap.cell?_allocCell hs]
    · exact fun _ h hh => List.mem_singleton.1 hh ▸ hnone
  | none =>
    have hfixed : v.liveReg.fixed? σ = v.valueKind.fixed? (σ v.reg) := rfl
    cases hk : v.valueKind with
    | object =>
      rw [hk] at hfixed
      obtain ⟨o, ho, hlive⟩ := sc.objects _ hv hk
      have ho : Handle.ofWord (σ v.reg) = .ok o := ho
      cases o with
      | none =>
        refine ⟨.empty, heap, by simp [Record.decodeWord, hk, ho], hs, .refl heap, .fixed hp ?_ ?_,
          by simp⟩
        · simp [hfixed, ValueKind.fixed?, ho, Decoded.handle?]
        · simp [Decoded.box, LiveValue.liveReg, hk]
      | some h =>
        have hl := g.isLive (hlive h rfl)
        refine ⟨.peek h, heap, by simp [Record.decodeWord, hk, ho, hl], hs, .refl heap,
          .fixed hp ?_ ?_, by simp⟩
        · simp [hfixed, ValueKind.fixed?, ho, Decoded.handle?]
        · simp [Decoded.box, LiveValue.liveReg, hk]
    | bool =>
      rw [hk] at hfixed
      obtain ⟨n, hn⟩ := sc.bools (σ v.reg != 0)
      have hc := g.kept _ _ hn
      obtain ⟨new, hinc, ginc⟩ := Heap.grows_incref hc (hroom hk _ hfixed _ hc)
      refine ⟨.boxed _, new, ?_, hs.incref hinc, ginc, .fixed hp ?_ ?_, by simp⟩
      · simp [Record.decodeWord, hk, Heap.boxBool, hinc]
      · rw [hfixed]
        rfl
      · rw [hfixed]
        simp [Decoded.box, LiveValue.liveReg, hk, ValueKind.fixed?]
    | signed => simp [hk, ValueKind.payload?] at hp
    | unsigned => simp [hk, ValueKind.payload?] at hp
    | double => simp [hk, ValueKind.payload?] at hp

/-! ## Room for what is still to come -/

theorem Filling.denoted_live (sc : Scene r snap σ live old) (fill : Filling r σ old d places placed)
    (hl : l ∈ live) {h : Handle} (hd : d.denoted r σ l = some h) : ∃ c, d.heap.cell? h = some c := by
  have hfixed : l.fixed? σ = some h → ∃ c, d.heap.cell? h = some c := fun hf =>
    Heap.isLive_iff.1 (fill.grows.isLive (sc.fixed_live hl hf))
  unfold Decoder.denoted at hd
  split at hd
  · next value hk =>
    cases fill.sourced l value hk with
    | box hp hnone hget =>
      obtain rfl := Option.some.inj hd
      obtain ⟨c, hc, -⟩ := Option.map_eq_some_iff.1 hget
      exact ⟨c, hc⟩
    | fixed hp hv hb => exact hfixed (hv ▸ hd)
  · exact hfixed hd

theorem Filling.future_live (sc : Scene r snap σ live old) (fill : Filling r σ old d places placed)
    (hsub : places ⊆ live) {h : Handle} (hh : h ∈ d.future r σ places) :
    ∃ c, d.heap.cell? h = some c := by
  rcases List.mem_append.1 hh with hh | hh
  · obtain ⟨l, hl, hd⟩ := List.mem_filterMap.1 hh
    exact fill.denoted_live sc (hsub hl) hd
  · obtain ⟨l, hl, hf⟩ := List.mem_filterMap.1 hh
    have hl : l ∈ places := (List.mem_filter.1 (List.mem_dedup.1 hl)).1
    exact Heap.isLive_iff.1 (fill.grows.isLive (sc.fixed_live (hsub hl) hf))

/-- Recording the value of a boolean settles one of the pending shares. -/
theorem bools_perm {d' : Decoder} {value : Decoded} (hl : l ∈ places) (hk : d.known r l = none)
    (hk' : ∀ x, d'.known r x = if x = l then some value else d.known r x) :
    (d.bools r places).Perm ((if l.valueKind = .bool then [l] else []) ++ d'.bools r places) := by
  refine (List.perm_ext_iff_of_nodup (List.nodup_dedup _) ?_).2 fun x => ?_
  · split
    · refine List.nodup_cons.2 ⟨?_, List.nodup_dedup _⟩
      simp [Decoder.bools, hk']
    · exact List.nodup_dedup _
  · by_cases hx : x = l
    · subst hx
      by_cases hb : x.valueKind = .bool
      · simp [Decoder.bools, hl, hk, hb]
      · simp [Decoder.bools, hb]
    · have hout : x ∉ (if l.valueKind = .bool then [l] else []) := by split <;> simp [hx]
      simp [Decoder.bools, hk', hx, hout]

theorem filterMap_cons_toList {α β : Type} (g : α → Option β) (a : α) (l : List α) :
    (a :: l).filterMap g = (g a).toList ++ l.filterMap g := by
  cases h : g a <;> simp [h]

theorem count_filterMap_update {f g : LiveReg → Option Handle} {h₀ : Handle}
    (hg : ∀ x, g x = if x = l then some h₀ else f x) (hf : f l = none) (places : List LiveReg)
    (k : Handle) :
    (places.filterMap g).count k =
      (places.filterMap f).count k + if k = h₀ then places.count l else 0 := by
  induction places with
  | nil => simp
  | cons x rest ih =>
    by_cases hx : x = l
    · subst hx
      have hgx : g x = some h₀ := by simp [hg]
      simp only [List.filterMap_cons, hgx, hf, List.count_cons, ih, beq_self_eq_true, if_true]
      by_cases hk : k = h₀
      · simp [hk]
        omega
      · simp [hk, Ne.symm hk]
    · have hgx : g x = f x := by simp [hg, hx]
      have hcount : (x :: rest).count l = rest.count l := List.count_cons_of_ne hx
      cases hfx : f x with
      | none => simp only [List.filterMap_cons, hgx, hfx, ih, hcount]
      | some h =>
        simp only [List.filterMap_cons, hgx, hfx, List.count_cons (a := k), ih, hcount]
        omega

/-- Recording a box adds the places of its register to the shares still to come. -/
theorem count_future_box {d' : Decoder} {h₀ : Handle} {object : Object} (hl : l ∈ places)
    (hk : d.known r l = none)
    (hk' : ∀ x, d'.known r x = if x = l then some (.boxed h₀) else d.known r x)
    (hp : l.valueKind.payload? (σ l.reg) = some object) (k : Handle) :
    (d'.future r σ places).count k =
      (d.future r σ places).count k + if k = h₀ then places.count l else 0 := by
  have hb : l.valueKind ≠ .bool := fun hb => by simp [hb, ValueKind.payload?] at hp
  have hf : l.fixed? σ = none := ValueKind.fixed?_of_payload hp
  have hbools := (bools_perm hl hk hk').filterMap (LiveReg.fixed? σ)
  rw [if_neg hb, List.nil_append] at hbools
  have hdenoted : ∀ x, d'.denoted r σ x = if x = l then some h₀ else d.denoted r σ x := by
    intro x
    by_cases hx : x = l
    · simp [Decoder.denoted, hk', hx, Decoded.handle?]
    · simp [Decoder.denoted, hk', hx]
  have hd : d.denoted r σ l = none := by simp [Decoder.denoted, hk, hf]
  simp only [Decoder.future, List.count_append, ← hbools.count_eq, count_filterMap_update hdenoted hd]
  omega

/-- Recording an object that was known beforehand settles the decoder's own share of it. -/
theorem count_future_fixed {d' : Decoder} {value : Decoded} (hl : l ∈ places)
    (hk : d.known r l = none) (hk' : ∀ x, d'.known r x = if x = l then some value else d.known r x)
    (hv : value.handle? = l.fixed? σ)
    (hb : value.box = if l.valueKind = .bool then (l.fixed? σ).toList else []) (k : Handle) :
    (d.future r σ places).count k = value.box.count k + (d'.future r σ places).count k := by
  have hbools := (bools_perm hl hk hk').filterMap (LiveReg.fixed? σ)
  have hbox : (if l.valueKind = .bool then [l] else []).filterMap (LiveReg.fixed? σ) = value.box := by
    rw [hb]
    split
    · rw [filterMap_cons_toList, List.filterMap_nil, List.append_nil]
    · rfl
  rw [List.filterMap_append, hbox] at hbools
  have hdenoted : Decoder.denoted r σ d' = Decoder.denoted r σ d := by
    funext x
    by_cases hx : x = l
    · simp [Decoder.denoted, hk', hx, hk, hv]
    · simp [Decoder.denoted, hk', hx]
  simp only [Decoder.future, List.count_append, hbools.count_eq]
  rw [hdenoted]
  omega

/-- Recording a value leaves room for the shares still to come. -/
theorem Filling.room_record (sc : Scene r snap σ live old) (fill : Filling r σ old d places placed)
    (hsub : places ⊆ live) (hl : l ∈ places) (hk : d.known r l = none) {d' : Decoder} {value : Decoded}
    (hk' : ∀ x, d'.known r x = if x = l then some value else d.known r x)
    (g : d.heap.Grows d'.heap value.box) (hs : Sourced σ old d'.heap l value)
    (hnew : (l.valueKind.payload? (σ l.reg)).isSome → ∀ h ∈ value.box, d.heap.cell? h = none) :
    ∀ h ∈ d'.future r σ places, ∀ c ∈ d'.heap.cell? h,
      c.count + (d'.future r σ places).count h ≤ HeapCell.maxCount := by
  intro h hh c hc
  have hpos := List.count_pos_iff.2 hh
  have hold : ∀ c₀, d.heap.cell? h = some c₀ → c.count = c₀.count + value.box.count h := by
    intro c₀ hc₀
    obtain rfl := Option.some.inj ((g.kept h c₀ hc₀).symm.trans hc)
    rfl
  cases hs with
  | @box h₀ object hp hnone hget =>
    have hdead : d.heap.cell? h₀ = none := hnew (by simp [hp]) h₀ List.mem_cons_self
    rw [count_future_box hl hk hk' hp] at hpos ⊢
    by_cases hh₀ : h = h₀
    · subst hh₀
      have hzero : (d.future r σ places).count h = 0 := by
        refine List.count_eq_zero.2 fun hm => ?_
        obtain ⟨c, hc⟩ := fill.future_live sc hsub hm
        simp [hdead] at hc
      have hone : c.count = 1 := (g.fresh h c hdead hc).1.trans List.count_singleton_self
      have hroom := fill.boxes l hl (by simp [hp])
      rw [hzero, if_pos rfl]
      omega
    · rw [if_neg hh₀, Nat.add_zero] at hpos ⊢
      obtain ⟨c₀, hc₀⟩ := fill.future_live sc hsub (List.count_pos_iff.1 hpos)
      have hroom := fill.room h (List.count_pos_iff.1 hpos) c₀ hc₀
      have hcount := hold c₀ hc₀
      have hbox : [h₀].count h = 0 := List.count_eq_zero.2 fun hm => hh₀ (List.mem_singleton.1 hm)
      simp only [Decoded.box] at hcount
      omega
  | fixed hp hv hb =>
    have hcount := count_future_fixed hl hk hk' hv hb h
    have hmem : h ∈ d.future r σ places := List.count_pos_iff.1 (by omega)
    obtain ⟨c₀, hc₀⟩ := fill.future_live sc hsub hmem
    have hroom := fill.room h hmem c₀ hc₀
    have := hold c₀ hc₀
    omega

/-! ## Decoding one register -/

theorem Filling.record (sc : Scene r snap σ live old) (fill : Filling r σ old d places placed)
    (hsub : places ⊆ live) {p : Nat} {v : LiveValue} (hp : r.live[p]? = some v)
    (hl : v.liveReg ∈ places) (hk : d.known r v.liveReg = none) {value : Decoded}
    (hs : heap.Sound) (g : d.heap.Grows heap value.box) (hv : Sourced σ old heap v.liveReg value)
    (hnew : (v.valueKind.payload? (σ v.reg)).isSome → ∀ h ∈ value.box, d.heap.cell? h = none) :
    Filling r σ old ⟨heap, d.decoded.set p (some value)⟩ places placed := by
  have hlt : p < d.decoded.length := fill.ready.length ▸ (List.getElem?_eq_some_iff.1 hp).1
  have hnone : d.decoded[p]? = some none := by
    rw [Decoder.known_eq sc.distinct hp] at hk
    exact fill.ready.vacant hp hk
  have hk' := Decoder.known_set sc.distinct hp hlt heap value
  refine ⟨⟨hs, by simpa using fill.ready.length⟩, ?_, ?_, ?_, fill.boxes⟩
  · refine (fill.grows.trans g).perm (List.perm_iff_count.2 fun k => ?_)
    simp only [List.count_append, Decoder.count_boxes_set hnone]
    omega
  · intro l value' hl'
    rw [hk'] at hl'
    split at hl'
    · next h =>
      obtain rfl := Option.some.inj hl'
      exact h ▸ hv
    · exact (fill.sourced l value' hl').mono g
  · exact fill.room_record sc hsub hl hk hk' g hv hnew

/-- A live register that fills some place still to come can be decoded. -/
theorem Filling.decode (sc : Scene r snap σ live old) (fill : Filling r σ old d places placed)
    (hsub : places ⊆ live) (hl : l ∈ places) {index : LiveIndex}
    (hres : r.resolve index = .ok (some l)) :
    ∃ value d', r.decode snap d index = .ok (value, d') ∧ d'.known r l = some value ∧
      Filling r σ old d' places placed ∧ d.Extends r d' := by
  obtain ⟨p, v, rfl, hp, rfl⟩ := Record.resolve_eq_some hres
  have hknown := Decoder.known_eq sc.distinct hp
  have hvalue := Record.liveValue_natCast hp
  cases hk : d.known r v.liveReg with
  | some value =>
    refine ⟨value, d, ?_, hk, fill, .refl r d⟩
    rw [hknown] at hk
    simp [Record.decode, hvalue, hk]
  | none =>
    have hroom : v.valueKind = .bool → ∀ h, v.liveReg.fixed? σ = some h →
        ∀ c, d.heap.cell? h = some c → c.count < HeapCell.maxCount := by
      intro hb h hf c hc
      have hmem : h ∈ d.future r σ places := by
        refine List.mem_append_left _ (List.mem_filterMap.2 ⟨_, hl, ?_⟩)
        simp [Decoder.denoted, hk, hf]
      have := fill.room h hmem c hc
      have := List.count_pos_iff.2 hmem
      omega
    have hread := sc.read v (List.mem_iff_getElem?.2 ⟨p, hp⟩) (hsub hl)
    obtain ⟨value, heap, hword, hs, g, hv, hnew⟩ :=
      sc.decodeWord fill.ready.sound fill.grows (hsub hl) hroom
    have hlt : p < d.decoded.length := fill.ready.length ▸ (List.getElem?_eq_some_iff.1 hp).1
    have hk' := Decoder.known_set sc.distinct hp hlt heap value
    refine ⟨value, ⟨heap, d.decoded.set p (some value)⟩, ?_, by simp [hk'],
      fill.record sc hsub hp hl hk hs g hv hnew, ?_⟩
    · rw [hknown] at hk
      simp [Record.decode, hvalue, hk, hread, hword]
    · intro l' value' hl'
      rw [hk']
      split
      · next h => simp [h, hk] at hl'
      · exact hl'

theorem Decoder.future_cons (r : Record) (σ : Reg → Word) (hk : (d.known r l).isSome)
    (places : List LiveReg) :
    d.future r σ (l :: places) = (d.denoted r σ l).toList ++ d.future r σ places := by
  have hbools : d.bools r (l :: places) = d.bools r places := by
    simp [Decoder.bools, Option.isNone_iff_eq_none, Option.isSome_iff_ne_none.1 hk]
  rw [Decoder.future, Decoder.future, hbools, filterMap_cons_toList, List.append_assoc]

theorem Filling.place (sc : Scene r snap σ live old) (fill : Filling r σ old d (l :: places) placed)
    (hsub : l :: places ⊆ live) {value : Decoded} {h : Handle} (hk : d.known r l = some value)
    (hh : value.handle? = some h) :
    ∃ heap, d.heap.incref h = .ok heap ∧ Filling r σ old { d with heap } places (h :: placed) := by
  have hfuture : d.future r σ (l :: places) = h :: d.future r σ places := by
    rw [Decoder.future_cons r σ (by simp [hk])]
    simp [Decoder.denoted, hk, hh]
  have hroom : ∀ k ∈ h :: d.future r σ places, ∃ c, d.heap.cell? k = some c ∧
      c.count + (h :: d.future r σ places).count k ≤ HeapCell.maxCount := by
    rw [← hfuture]
    intro k hk'
    obtain ⟨c, hc⟩ := fill.future_live sc hsub hk'
    exact ⟨c, hc, fill.room k hk' c hc⟩
  obtain ⟨c, hc, hlt⟩ := hroom h List.mem_cons_self
  rw [List.count_cons_self] at hlt
  obtain ⟨heap, hinc, g⟩ := Heap.grows_incref hc (by omega)
  refine ⟨heap, hinc, ⟨⟨fill.ready.sound.incref hinc, fill.ready.length⟩, ?_, ?_, ?_, ?_⟩⟩
  · refine (fill.grows.trans g).perm (List.perm_iff_count.2 fun k => ?_)
    simp only [Decoder.boxes, List.count_append, List.count_cons, List.count_nil]
    omega
  · exact fun l' value' hl' => (fill.sourced l' value' hl').mono g
  · intro k hk' c' hc'
    obtain ⟨c₀, hc₀, hle⟩ := hroom k (List.mem_cons_of_mem _ hk')
    obtain rfl := Option.some.inj ((g.kept k c₀ hc₀).symm.trans hc')
    change c₀.count + [h].count k + (d.future r σ places).count k ≤ _
    rw [List.count_cons] at hle
    simp only [List.count_cons, List.count_nil]
    omega
  · exact fun l' hl' hp => Nat.lt_of_le_of_lt List.count_le_count_cons
      (fill.boxes l' (List.mem_cons_of_mem _ hl') hp)

theorem Filling.skip (fill : Filling r σ old d (l :: places) placed) {value : Decoded}
    (hk : d.known r l = some value) (hh : value.handle? = none) :
    Filling r σ old d places placed := by
  have hfuture : d.future r σ (l :: places) = d.future r σ places := by
    rw [Decoder.future_cons r σ (by simp [hk])]
    simp [Decoder.denoted, hk, hh]
  refine ⟨fill.ready, fill.grows, fill.sourced, ?_, ?_⟩
  · rw [← hfuture]
    exact fill.room
  · exact fun l' hl' hp => Nat.lt_of_le_of_lt List.count_le_count_cons
      (fill.boxes l' (List.mem_cons_of_mem _ hl') hp)

theorem Filling.decodeSlot (sc : Scene r snap σ live old) {o : Option LiveReg}
    (fill : Filling r σ old d (o.toList ++ places) placed) (hsub : o.toList ++ places ⊆ live)
    {index : LiveIndex} (hres : r.resolve index = .ok o) :
    ∃ d', r.decodeSlot snap d index = .ok (d'.holds r o, d') ∧
      Filled r σ old d d' [o] places placed := by
  cases o with
  | none =>
    refine ⟨d, ?_, by simp [List.reduceOption], fill, .refl r d⟩
    obtain ⟨o, ho, hnone⟩ := map_eq_ok.1 hres
    obtain rfl : o = none := by simpa using hnone
    simp [Record.decodeSlot, Record.decode, ho, Decoded.handle?, Decoder.holds]
  | some l =>
    obtain ⟨value, d₁, hdecode, hk, fill₁, hext⟩ := fill.decode sc hsub List.mem_cons_self hres
    cases hh : value.handle? with
    | none =>
      have hholds : d₁.holds r (some l) = none := by simp [Decoder.holds, Decoder.object, hk, hh]
      refine ⟨d₁, ?_, by simp [List.reduceOption, hk], ?_, hext⟩
      · simp [Record.decodeSlot, hdecode, hh, hholds]
      · rw [List.map_singleton, hholds]
        exact fill₁.skip hk hh
    | some h =>
      obtain ⟨heap, hinc, fill₂⟩ := fill₁.place sc hsub hk hh
      have hk' : Decoder.known r { d₁ with heap } l = some value := hk
      have hholds : Decoder.holds r { d₁ with heap } (some l) = some h := by
        simp [Decoder.holds, Decoder.object, hk', hh]
      refine ⟨{ d₁ with heap }, ?_, by simp [List.reduceOption, hk'], ?_, hext⟩
      · simp [Record.decodeSlot, hdecode, hh, hinc, hholds]
      · rw [List.map_singleton, hholds]
        exact fill₂

end

end Bailout
