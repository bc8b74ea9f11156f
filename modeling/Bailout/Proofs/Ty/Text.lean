import Bailout.Proofs.Ty.Object
import Mathlib.Data.List.Nodup
import Mathlib.Data.List.TakeWhile
import Mathlib.Data.Set.Function

/-!
# Reading types back

The text of a type names its kinds, by one of three schemes, and its narrowing, by one of five. `Ty.ofText`
takes such a text apart again. A bracket starts the narrowing, since no text of kinds has one; a brace
starts a list of kinds, since names are letters and digits; and the signs `@`, `:` and `#` tell the
narrowings apart. The reader undoes the printer wherever the text keeps all of the type
(`Ty.ofText_text`), so types with one text are one type: `Ty.text_injOn`.
-/

namespace Bailout

/-! ## Sets of kinds -/

namespace Kind

variable {a : Kinds} {ks : List Kind} {i : Nat}

theorem mem_all (k : Kind) : k ∈ all := by cases k <;> decide

theorem name_injective : Function.Injective name := by
  have hnodup : (all.map name).Nodup := by decide +kernel
  exact fun k k' h => List.inj_on_of_nodup_map hnodup k.mem_all k'.mem_all h

theorem getLsbD_mask {k : Kind} : k.mask.getLsbD i ↔ k.ctorIdx = i := by
  have hlt : k.ctorIdx < 64 := by cases k <;> decide
  simp [mask, BitVec.getLsbD_twoPow, hlt]

theorem and_mask_ne_zero {k : Kind} : a &&& k.mask != 0#64 ↔ a.getLsbD k.ctorIdx := by
  have hne : BitVec.twoPow 64 k.ctorIdx ≠ 0#64 := k.mask_ne_zero
  rw [bne_iff_ne, mask, BitVec.and_twoPow]
  split <;> simp_all

theorem getLsbD_masks : (masks ks).getLsbD i ↔ ∃ k ∈ ks, k.ctorIdx = i := by
  have hfold : ∀ acc : Kinds, (ks.foldl (fun acc k => acc ||| k.mask) acc).getLsbD i ↔
      acc.getLsbD i ∨ ∃ k ∈ ks, k.ctorIdx = i := by
    induction ks with
    | nil => simp
    | cons k ks ih =>
      intro acc
      rw [List.foldl_cons, ih, BitVec.getLsbD_or, Bool.or_eq_true, getLsbD_mask, or_assoc]
      simp
  simpa [masks] using hfold 0#64

end Kind

namespace Kinds

variable {a : Kinds}

/-- The kinds of a set, in the order of their bits. -/
def members (a : Kinds) : List Kind := Kind.all.filter fun k => a &&& k.mask != 0#64

theorem mem_members {k : Kind} : k ∈ a.members ↔ a.getLsbD k.ctorIdx := by
  rw [members, List.mem_filter, and_iff_right k.mem_all, Kind.and_mask_ne_zero]

theorem exists_kind {i : Nat} (h : top.getLsbD i) : ∃ k : Kind, k.ctorIdx = i := by
  have hall : ∀ i : Fin 64, top.getLsbD i → ∃ k ∈ Kind.all, k.ctorIdx = i := by decide +kernel
  obtain ⟨k, -, hk⟩ := hall ⟨i, BitVec.lt_of_getLsbD h⟩ h
  exact ⟨k, hk⟩

theorem masks_members (h : a.subset top) : Kind.masks a.members = a := by
  refine BitVec.eq_of_getLsbD_eq fun i _ => ?_
  rw [Bool.eq_iff_iff, Kind.getLsbD_masks]
  constructor
  · rintro ⟨k, hk, rfl⟩
    exact mem_members.1 hk
  · intro hi
    obtain ⟨k, rfl⟩ := exists_kind (subset_iff.1 h i hi)
    exact ⟨k, mem_members.2 hi, rfl⟩

theorem members_ne_nil (h : a.subset top) (hne : a ≠ 0#64) : a.members ≠ [] := by
  intro hnil
  have hzero := masks_members h
  rw [hnil] at hzero
  exact hne hzero.symm

/-! ## Names -/

/-- The sets that have a name. -/
def labels : List (String × Kinds) :=
  ("Bottom", 0#64) :: Kind.all.map (fun k => (k.name, k.mask)) ++ named

/-- Kinds between braces. -/
def listed (ks : List Kind) : String := "\x7b" ++ String.intercalate "|" (ks.map Kind.name) ++ "\x7d"

theorem lookup_labels {label : String × Kinds} (h : label ∈ labels) :
    labels.lookup label.1 = some label.2 := by
  have hall : ∀ label ∈ labels, labels.lookup label.1 = some label.2 := by decide +kernel
  exact hall label h

theorem isAlphanum_of_mem_label {label : String × Kinds} (h : label ∈ labels) {c : Char}
    (hc : c ∈ label.1.toList) : c.isAlphanum := by
  have hall : ∀ label ∈ labels, label.1.toList.all Char.isAlphanum := by decide +kernel
  exact List.all_eq_true.1 (hall label h) c hc

theorem mem_labels (k : Kind) : (k.name, k.mask) ∈ labels :=
  List.mem_append_left _ (List.mem_cons_of_mem _ (List.mem_map_of_mem k.mem_all))

theorem text_cases (a : Kinds) : (a.text, a) ∈ labels ∨ a ≠ 0#64 ∧ a.text = listed a.members := by
  unfold text
  split
  · next h => exact .inl (h ▸ by simp [labels])
  · next hne =>
    split
    · next k hk =>
      obtain rfl : k.mask = a := by simpa using List.find?_some hk
      exact .inl (mem_labels k)
    · split
      · next u hu =>
        obtain rfl : u.2 = a := by simpa using List.find?_some hu
        exact .inl (List.mem_append_right _ (List.mem_of_find?_eq_some hu))
      · exact .inr ⟨hne, rfl⟩

theorem toList_listed (ks : List Kind) :
    (listed ks).toList = '\x7b' :: ['|'].intercalate (ks.map fun k => k.name.toList) ++ ['\x7d'] := by
  simp [listed, String.toList_intercalate, Function.comp_def]

/-- A list of kinds is no name: it starts with a brace. -/
theorem lookup_listed (ks : List Kind) : labels.lookup (listed ks) = none := by
  rw [Option.eq_none_iff_forall_ne_some]
  intro a h
  obtain ⟨l₁, l₂, hl, -⟩ := List.lookup_eq_some_iff.1 h
  have hmem : (listed ks, a) ∈ labels := hl ▸ by simp
  have hbrace := isAlphanum_of_mem_label hmem (c := '\x7b') (by simp [toList_listed])
  exact absurd hbrace (by decide)

theorem mem_intercalate {c : Char} {ls : List (List Char)} (h : c ∈ ['|'].intercalate ls) :
    c = '|' ∨ ∃ l ∈ ls, c ∈ l := by
  induction ls with
  | nil => simp at h
  | cons l ls ih =>
    cases ls with
    | nil => simp_all
    | cons l' ls =>
      rw [List.intercalate_cons_cons] at h
      simp only [List.mem_append, List.mem_singleton] at h
      rcases h with (h | h) | h
      · exact .inr ⟨l, by simp, h⟩
      · exact .inl h
      · obtain h | ⟨m, hm, hc⟩ := ih h
        · exact .inl h
        · exact .inr ⟨m, List.mem_cons_of_mem _ hm, hc⟩

theorem isAlphanum_of_mem_name {k : Kind} {c : Char} (h : c ∈ k.name.toList) : c.isAlphanum :=
  isAlphanum_of_mem_label (mem_labels k) h

theorem bracket_notMem_text (a : Kinds) : '[' ∉ a.text.toList := by
  intro h
  obtain hmem | ⟨-, htext⟩ := a.text_cases
  · exact absurd (isAlphanum_of_mem_label hmem h) (by decide)
  · rw [htext, toList_listed] at h
    simp only [List.cons_append, List.mem_cons, List.mem_append, List.not_mem_nil, or_false] at h
    obtain h | h | h := h
    · exact absurd h (by decide)
    · obtain h | ⟨l, hl, hc⟩ := mem_intercalate h
      · exact absurd h (by decide)
      · obtain ⟨k, -, rfl⟩ := List.mem_map.1 hl
        exact absurd (isAlphanum_of_mem_name hc) (by decide)
    · exact absurd h (by decide)

/-- Reads the text of a set of kinds: a name, or else a list. -/
def ofText (s : String) : Kinds :=
  (labels.lookup s).getD <|
    Kind.masks (Kind.all.filter fun k => k.name.toList ∈ s.toList.tail.dropLast.splitOn '|')

theorem ofText_listed {ks : List Kind} (h : ks ≠ []) : ofText (listed ks) = Kind.masks ks := by
  have hsplit : (listed ks).toList.tail.dropLast.splitOn '|' = ks.map fun k => k.name.toList := by
    rw [toList_listed, List.cons_append, List.tail_cons, List.dropLast_concat]
    refine List.splitOn_intercalate '|' ?_ (by simpa using h)
    intro l hl hbar
    obtain ⟨k, -, rfl⟩ := List.mem_map.1 hl
    exact absurd (isAlphanum_of_mem_name hbar) (by decide)
  have hinj : Function.Injective fun k : Kind => k.name.toList :=
    fun k k' h => Kind.name_injective (String.toList_inj.1 h)
  rw [ofText, lookup_listed, Option.getD_none, hsplit]
  refine BitVec.eq_of_getLsbD_eq fun i _ => ?_
  rw [Bool.eq_iff_iff, Kind.getLsbD_masks, Kind.getLsbD_masks]
  simp only [List.mem_filter, Kind.mem_all, true_and, List.mem_map_of_injective hinj, decide_eq_true_eq]

theorem ofText_text (h : a.subset top) : ofText a.text = a := by
  obtain hmem | ⟨hne, htext⟩ := a.text_cases
  · rw [ofText, lookup_labels hmem, Option.getD_some]
  · rw [htext, ofText_listed (members_ne_nil h hne), masks_members h]

end Kinds

/-! ## Narrowings -/

theorem isDigit_of_mem_repr {n : Nat} {c : Char} (h : c ∈ n.repr.toList) : c.isDigit := by
  rw [Nat.repr_eq_ofList_toDigits, String.toList_ofList] at h
  exact Nat.isDigit_of_mem_toDigits (by decide) (by decide) h

theorem isDigit_of_mem_intRepr {v : Int} {c : Char} (h : c ∈ v.repr.toList) : c.isDigit ∨ c = '-' := by
  rw [Int.repr_eq_if] at h
  split at h
  · exact .inl (isDigit_of_mem_repr h)
  · rw [String.toList_append, List.mem_append] at h
    rcases h with h | h
    · exact .inr (by simpa using h)
    · exact .inl (isDigit_of_mem_repr h)

namespace Spec

/-- The number that the digits of a text are. -/
def number (s : List Char) : Nat := Nat.ofDigitChars 10 (s.filter Char.isDigit) 0

theorem number_repr {before after : List Char} (hb : before.filter Char.isDigit = [])
    (ha : after.filter Char.isDigit = []) (n : Nat) : number (before ++ n.repr.toList ++ after) = n := by
  have hdigits : n.repr.toList.filter Char.isDigit = n.repr.toList :=
    List.filter_eq_self.2 fun c hc => isDigit_of_mem_repr hc
  rw [number, List.filter_append, List.filter_append, hb, ha, hdigits, List.nil_append, List.append_nil,
    Nat.repr_eq_ofList_toDigits, String.toList_ofList, Nat.ofDigitChars_ten_toDigits]

/-- A sign next to a number is found outside its digits. -/
theorem mem_repr {before after : List Char} {n : Nat} {c : Char} (hc : ¬ c.isDigit) :
    c ∈ before ++ n.repr.toList ++ after ↔ c ∈ before ∨ c ∈ after := by
  rw [List.mem_append, List.mem_append, or_iff_left (mt isDigit_of_mem_repr hc)]

/-- Reads what stands between the brackets. -/
def ofText (kinds : Kinds) (s : List Char) : Spec :=
  if '@' ∈ s then .object ⟨number s - 1⟩
  else if ':' ∈ s then .exactClass ⟨number s⟩
  else if '#' ∈ s then .inClass ⟨number s⟩
  else if kinds = Kind.cBool.mask then .int (if s = "true".toList then 1 else 0)
  else .int (if '-' ∈ s then -number s else number s)

variable {kinds : Kinds}

/-- The signs around a number tell what it is the number of. -/
theorem ofText_numbered {before after : List Char} (hb : before.filter Char.isDigit = [])
    (ha : after.filter Char.isDigit = []) (hsign : '@' ∈ before ∨ '#' ∈ before) (n : Nat) :
    ofText kinds (before ++ n.repr.toList ++ after) =
      if '@' ∈ before ∨ '@' ∈ after then .object ⟨n - 1⟩
      else if ':' ∈ before ∨ ':' ∈ after then .exactClass ⟨n⟩
      else .inClass ⟨n⟩ := by
  have hat : ¬ '@'.isDigit := by decide
  have hcolon : ¬ ':'.isDigit := by decide
  have hhash : ¬ '#'.isDigit := by decide
  simp only [ofText, number_repr hb ha, mem_repr hat, mem_repr hcolon, mem_repr hhash]
  grind

theorem ofText_object (h : Handle) : ofText kinds (toString h).toList = .object h := by
  have htext : (toString h).toList = ['@'] ++ (h.index + 1).repr.toList ++ [] := by
    simp [toString]
  rw [htext, ofText_numbered rfl rfl (by decide), if_pos (by decide)]
  rfl

theorem ofText_inClass (c : ClassId) : ofText kinds (toString c).toList = .inClass c := by
  have htext : (toString c).toList = "class#".toList ++ c.val.repr.toList ++ [] := by
    simp [toString]
  rw [htext, ofText_numbered (by decide) rfl (by decide), if_neg (by decide), if_neg (by decide)]

theorem ofText_exactClass (c : ClassId) :
    ofText kinds (toString c ++ ":Exact").toList = .exactClass c := by
  have htext : (toString c ++ ":Exact").toList =
      "class#".toList ++ c.val.repr.toList ++ ":Exact".toList := by
    simp [toString]
  rw [htext, ofText_numbered (by decide) (by decide) (by decide), if_neg (by decide),
    if_pos (by decide)]

theorem ofText_bool {v : Int} (h : v = 0 ∨ v = 1) :
    ofText Kind.cBool.mask (if v = 0 then "false" else "true").toList = .int v := by
  rcases h with rfl | rfl <;> decide

theorem ofText_int (h : kinds ≠ Kind.cBool.mask) (v : Int) : ofText kinds v.repr.toList = .int v := by
  have hsign : ∀ {c : Char}, ¬ c.isDigit → c ≠ '-' → c ∉ v.repr.toList :=
    fun hd hm hc => (isDigit_of_mem_intRepr hc).elim hd hm
  rw [ofText, if_neg (hsign (by decide) (by decide)), if_neg (hsign (by decide) (by decide)),
    if_neg (hsign (by decide) (by decide)), if_neg h, Spec.int.injEq]
  by_cases hv : 0 ≤ v
  · have htext : v.repr.toList = [] ++ v.toNat.repr.toList ++ [] := by
      rw [Int.repr_eq_if, if_pos hv]
      simp
    rw [htext, if_neg (by rw [mem_repr (by decide)]; decide), number_repr rfl rfl]
    omega
  · have htext : v.repr.toList = ['-'] ++ (-v).toNat.repr.toList ++ [] := by
      rw [Int.repr_eq_if, if_neg hv]
      simp
    rw [htext, if_pos (by rw [mem_repr (by decide)]; decide), number_repr rfl rfl]
    omega

end Spec

/-! ## Types -/

namespace Ty

variable {t : Ty} {kinds : Kinds}

/-- Reads the text of a type: kinds, and after a bracket a narrowing. -/
def ofText (s : String) : Ty :=
  let kinds := Kinds.ofText (String.ofList (s.toList.takeWhile (· != '[')))
  let rest := s.toList.dropWhile (· != '[')
  ⟨kinds, if rest = [] then .none else Spec.ofText kinds rest.tail.dropLast⟩

theorem ne_bracket_of_mem_text {c : Char} (h : c ∈ kinds.text.toList) : (c != '[') = true := by
  rw [bne_iff_ne]
  rintro rfl
  exact kinds.bracket_notMem_text h

theorem ofText_kinds (h : kinds.subset Kinds.top) : ofText kinds.text = ⟨kinds, .none⟩ := by
  have htake : kinds.text.toList.takeWhile (· != '[') = kinds.text.toList :=
    List.takeWhile_eq_self_iff.2 fun _ => ne_bracket_of_mem_text
  have hdrop : kinds.text.toList.dropWhile (· != '[') = [] :=
    List.dropWhile_eq_nil_iff.2 fun _ => ne_bracket_of_mem_text
  simp only [ofText, htake, hdrop, String.ofList_toList, Kinds.ofText_text h, if_true]

theorem ofText_narrowed (h : kinds.subset Kinds.top) (inner : String) :
    ofText (kinds.text ++ "[" ++ inner ++ "]") = ⟨kinds, Spec.ofText kinds inner.toList⟩ := by
  have htext : (kinds.text ++ "[" ++ inner ++ "]").toList =
      kinds.text.toList ++ ('[' :: inner.toList ++ [']']) := by
    simp
  have htake : (kinds.text ++ "[" ++ inner ++ "]").toList.takeWhile (· != '[') = kinds.text.toList := by
    rw [htext, List.takeWhile_append_of_pos fun _ => ne_bracket_of_mem_text]
    simp
  have hdrop : (kinds.text ++ "[" ++ inner ++ "]").toList.dropWhile (· != '[') =
      '[' :: inner.toList ++ [']'] := by
    rw [htext, List.dropWhile_append_of_pos fun _ => ne_bracket_of_mem_text]
    simp
  simp only [ofText, htake, hdrop, String.ofList_toList, Kinds.ofText_text h]
  simp

/-- The text keeps all of the type: there are no bits but those of kinds, no double, which is written by
its value, and a boolean is zero or one. -/
structure Legible (t : Ty) : Prop where
  kinds : t.bits.subset Kinds.top
  double : ∀ d, t.spec ≠ .double d
  bool : ∀ v, t.bits = Kind.cBool.mask → t.spec = .int v → v = 0 ∨ v = 1

theorem ofText_text (h : t.Legible) : ofText t.text = t := by
  obtain ⟨bits, spec⟩ := t
  obtain ⟨hkinds, hdouble, hbool⟩ := h
  cases spec with
  | none => exact ofText_kinds hkinds
  | inClass c =>
    refine (ofText_narrowed hkinds _).trans ?_
    rw [Spec.ofText_inClass]
  | exactClass c =>
    refine (ofText_narrowed hkinds _).trans ?_
    rw [Spec.ofText_exactClass]
  | object h =>
    refine (ofText_narrowed hkinds _).trans ?_
    rw [Spec.ofText_object]
  | int v =>
    by_cases hb : bits = Kind.cBool.mask
    · subst hb
      have htext : text ⟨Kind.cBool.mask, .int v⟩ =
          Kinds.text Kind.cBool.mask ++ "[" ++ (if v = 0 then "false" else "true") ++ "]" := by
        simp [text]
      rw [htext, ofText_narrowed hkinds, Spec.ofText_bool (hbool v rfl rfl)]
    · have htext : text ⟨bits, .int v⟩ = bits.text ++ "[" ++ v.repr ++ "]" := by
        simp [text, hb]
      rw [htext, ofText_narrowed hkinds, Spec.ofText_int hb]
  | double d => exact absurd rfl (hdouble d)

/-- **Legible types with the same text are equal**, obtainable or not, and so are sets of kinds. -/
theorem text_injOn : Set.InjOn text {t | t.Legible} ∧ Set.InjOn Kinds.text {a | a.subset Kinds.top} := by
  constructor
  · intro a ha b hb h
    rw [← ofText_text ha, ← ofText_text hb, h]
  · intro a ha b hb h
    rw [← Kinds.ofText_text ha, ← Kinds.ofText_text hb, h]

/-- An exact class and its class differ in a suffix of their texts, a named union and a part of it in
their schemes. -/
theorem text_injOn_schemes : (ofClass ⟨1⟩ true).Legible ∧ (ofClass ⟨1⟩ false).Legible ∧
    (ofClass ⟨1⟩ true).text ≠ (ofClass ⟨1⟩ false).text ∧
    Kinds.long.text ≠ Kinds.text (Kind.masks [.bool, .longExact]) := by
  have hlegible : ∀ exact, (ofClass ⟨1⟩ exact).Legible := by
    intro exact
    refine ⟨by cases exact <;> decide, fun d => ?_, fun v hbits => ?_⟩
    · cases exact <;> simp [ofClass, narrowed, Kind.mask_ne_zero]
    · exact absurd hbits (by cases exact <;> decide)
  refine ⟨hlegible true, hlegible false, fun h => ?_, fun h => ?_⟩
  · exact absurd (text_injOn.1 (hlegible true) (hlegible false) h) (by decide)
  · exact absurd (text_injOn.2 (by decide) (by decide) h) (by decide)

/-- A boolean that is neither zero nor one reads as true. -/
example : text ⟨Kind.cBool.mask, .int 2⟩ = text (ofBool true) := by decide

end Ty

end Bailout
