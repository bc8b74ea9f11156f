import Bailout.Proofs.Layout
import Mathlib.Data.List.Induction
import Mathlib.Data.List.Nodup

/-!
# Layouts are dense and injective

Assignment of locations never overflows, and succeeds exactly when the slot size is a positive word
multiple, the budget is within the register file and the offsets of the spill slots are 32-bit. The
layout it gives is `Dense`: in order of first use, registers take the machine registers from 0 up and
then the spill slots from 0 up, and the frame is as large as the slots used. Everything else follows from
that: no two registers share a location, and spilled words are aligned, inside the frame and disjoint.
-/

namespace Bailout

theorem idxOf?_eq_some_iff_of_nodup {α : Type} [BEq α] [LawfulBEq α] {l : List α} (hn : l.Nodup)
    {a : α} {k : Nat} : l.idxOf? a = some k ↔ l[k]? = some a := by
  rw [List.idxOf?_eq_some_iff, List.getElem?_eq_some_iff]
  refine exists_congr fun hlt => and_iff_left_of_imp ?_
  rintro rfl j hj heq
  have := (List.Nodup.getElem_inj_iff hn).1 heq
  omega

namespace Layout

/-- The layout gives the registers, listed in order of first use, one location each: first the machine
registers of the budget, then one spill slot after another. -/
structure Dense (budget slotSize : Nat) (regs : List Reg) (l : Layout) : Prop where
  registers : ∀ k r, regs[k]? = some r → k < budget → l.location? r = some (.reg k)
  spilled : ∀ k r, regs[budget + k]? = some r → l.location? r = some (.spill (k * slotSize : Nat))
  others : ∀ r, r ∉ regs → l.location? r = none
  slots : l.spillSlots = regs.length - budget
  size : l.frameSize = l.spillSlots * slotSize

variable {budget slotSize : Nat} {rs regs : List Reg} {r r' : Reg} {l : Layout}

/-! ## What density gives -/

namespace Dense

/-- Where a register is says which one it is: the machine register by its number, the spilled one by its
slot. -/
theorem cases (hd : l.Dense budget slotSize regs) {loc : Location} (h : l.location? r = some loc) :
    (∃ k, k < budget ∧ regs[k]? = some r ∧ loc = .reg k) ∨
      ∃ k, k < l.spillSlots ∧ regs[budget + k]? = some r ∧ loc = .spill (k * slotSize : Nat) := by
  have hr : r ∈ regs := by
    apply Decidable.byContradiction
    intro hr
    rw [hd.others r hr] at h
    cases h
  obtain ⟨k, hk⟩ := List.mem_iff_getElem?.1 hr
  have hlt : k < regs.length := (List.getElem?_eq_some_iff.1 hk).1
  by_cases hb : k < budget
  · rw [hd.registers k r hk hb] at h
    exact .inl ⟨k, hb, hk, (Option.some.inj h).symm⟩
  · obtain ⟨j, rfl⟩ : ∃ j, k = budget + j := ⟨k - budget, by omega⟩
    rw [hd.spilled j r hk] at h
    have hslots := hd.slots
    exact .inr ⟨j, by omega, hk, (Option.some.inj h).symm⟩

theorem injective (hd : l.Dense budget slotSize regs) (hpos : 0 < slotSize) {loc : Location}
    (h : l.location? r = some loc) (h' : l.location? r' = some loc) : r = r' := by
  obtain ⟨k, -, hk, rfl⟩ | ⟨k, -, hk, rfl⟩ := hd.cases h
  · obtain ⟨j, -, hj, hloc⟩ | ⟨j, -, -, hloc⟩ := hd.cases h'
    · cases hloc
      exact Option.some.inj (hk.symm.trans hj)
    · cases hloc
  · obtain ⟨j, -, -, hloc⟩ | ⟨j, -, hj, hloc⟩ := hd.cases h'
    · cases hloc
    · injection hloc with hoffset
      have hkj : k = j := Nat.eq_of_mul_eq_mul_right hpos (Int.ofNat.inj hoffset)
      subst hkj
      exact Option.some.inj (hk.symm.trans hj)

/-- A spilled word is aligned and lies inside the frame. -/
theorem spill_mem (hd : l.Dense budget slotSize regs) (hpos : 0 < slotSize)
    (hword : slotSize % wordSize = 0) {offset : Int} (h : l.location? r = some (.spill offset)) :
    0 ≤ offset ∧ offset % wordSize = 0 ∧ offset + wordSize ≤ l.frameSize := by
  obtain ⟨k, -, -, hloc⟩ | ⟨k, hk, -, hloc⟩ := hd.cases h
  · cases hloc
  · injection hloc with hoffset
    have hend : (k + 1) * slotSize ≤ l.spillSlots * slotSize := Nat.mul_le_mul_right _ hk
    have hmod : k * slotSize % wordSize = 0 := by rw [Nat.mul_mod, hword, Nat.mul_zero, Nat.zero_mod]
    rw [Nat.add_mul, Nat.one_mul] at hend
    rw [hoffset, hd.size]
    unfold wordSize at hword hmod ⊢
    omega

/-- The words of different registers do not overlap. -/
theorem spill_disjoint (hd : l.Dense budget slotSize regs) (hpos : 0 < slotSize)
    (hword : slotSize % wordSize = 0) (hne : r ≠ r') {offset offset' : Int}
    (h : l.location? r = some (.spill offset)) (h' : l.location? r' = some (.spill offset')) :
    offset + wordSize ≤ offset' ∨ offset' + wordSize ≤ offset := by
  have hoffset : offset ≠ offset' := by
    rintro rfl
    exact hne (hd.injective hpos h h')
  have h₁ := (hd.spill_mem hpos hword h).2.1
  have h₂ := (hd.spill_mem hpos hword h').2.1
  unfold wordSize at h₁ h₂ ⊢
  omega

end Dense

/-! ## Placing registers gives a dense layout -/

theorem nodup_eraseDups (seen : List Reg) : seen.eraseDups.Nodup := by
  induction seen using List.reverseRecOn with
  | nil => simp
  | append_singleton seen r ih =>
    rw [eraseDups_concat]
    split
    · exact ih
    · next hr =>
      refine List.nodup_append.2 ⟨ih, List.nodup_singleton r, ?_⟩
      rintro a ha b hb rfl
      obtain rfl := List.mem_singleton.1 hb
      exact hr (List.mem_eraseDups.1 ha)

theorem dense_finished (hn : rs.Nodup) : Dense budget slotSize rs (finished budget slotSize rs) := by
  have hloc : ∀ r, (finished budget slotSize rs).location? r =
      (rs.idxOf? r).map (locationAt budget slotSize) := location?_ofRegs budget slotSize rs
  constructor
  · intro k r hk hb
    rw [hloc, (idxOf?_eq_some_iff_of_nodup hn).2 hk, Option.map_some, locationAt, if_pos hb]
  · intro k r hk
    rw [hloc, (idxOf?_eq_some_iff_of_nodup hn).2 hk, Option.map_some, locationAt, if_neg (by omega),
      Nat.add_sub_cancel_left]
  · intro r hr
    rw [hloc, List.idxOf?_eq_none_iff.2 hr, Option.map_none]
  · rfl
  · rfl

/-- Once the spill slots no longer fit, placing stops with an error, and not with an overflow. The
invariant is that the offsets handed out so far are 32-bit, so that the next one is not far away. -/
theorem placeAll_error (hslot : slotSize < 0x10000000000000000) (seen : List Reg)
    (hseen : SpillFits budget slotSize seen.eraseDups.length)
    (hfit : ¬ SpillFits budget slotSize (seen ++ regs).eraseDups.length) :
    ∃ e, (ofRegs budget slotSize seen.eraseDups).placeAll budget slotSize regs = .ok (.error e) := by
  induction regs generalizing seen with
  | nil =>
    rw [List.append_nil] at hfit
    exact absurd hseen hfit
  | cons r rest ih =>
    have hsplit : seen ++ r :: rest = (seen ++ [r]) ++ rest := by simp
    rw [hsplit] at hfit
    have ih := ih (seen ++ [r])
    rw [eraseDups_concat] at ih
    simp only [placeAll]
    by_cases hr : r ∈ seen
    · rw [if_pos hr] at ih
      rw [place_of_mem (List.mem_eraseDups.2 hr)]
      exact ih hseen hfit
    · rw [if_neg hr] at ih
      rw [place_of_not_mem (mt List.mem_eraseDups.1 hr)]
      have hnext : SpillFits budget slotSize (seen.eraseDups ++ [r]).length ↔
          seen.eraseDups.length < budget ∨
            (seen.eraseDups.length - budget) * slotSize < 0x80000000 := by
        rw [List.length_append, List.length_singleton]
        constructor
        · intro h
          by_cases hb : seen.eraseDups.length < budget
          · exact .inl hb
          · exact .inr (h _ (by omega))
        · rintro h k hk
          by_cases hlast : k = seen.eraseDups.length - budget
          · subst hlast
            exact h.resolve_left (by omega)
          · exact hseen k (by omega)
      by_cases hb : seen.eraseDups.length < budget
      · rw [if_pos hb]
        exact ih (hnext.2 (.inl hb)) hfit
      · have hsize := frameSize_lt hslot hseen
        rw [if_neg hb, Checked.size, Checked.isSize, decide_eq_true hsize, if_pos rfl, ok_bind]
        by_cases hlt : (seen.eraseDups.length - budget) * slotSize < 0x80000000
        · rw [if_neg (Nat.not_le.2 hlt)]
          exact ih (hnext.2 (.inr hlt)) hfit
        · rw [if_pos (Nat.not_lt.1 hlt)]
          exact ⟨_, rfl⟩

/-! ## Whole units -/

/-- The registers of a unit have locations under the settings. -/
structure Fits (settings : Settings) (spillAll : Bool) (regs : List Reg) : Prop where
  pos : 0 < settings.slotSize
  word : settings.slotSize % wordSize = 0
  budget : budgetOf settings spillAll ≤ 256
  spill : SpillFits (budgetOf settings spillAll) settings.slotSize regs.length

variable {records filled : List Record} {settings : Settings} {spillAll : Bool}

theorem assign_of_not_fits (hslot : settings.slotSize < 0x10000000000000000)
    (hfits : ¬ Fits settings spillAll (recovered records).eraseDups) :
    ∃ e, assign records settings spillAll = .ok (.error e) := by
  unfold assign
  by_cases hsize : settings.slotSize = 0 ∨ settings.slotSize % wordSize ≠ 0
  · rw [if_pos hsize]
    exact ⟨_, rfl⟩
  · rw [if_neg hsize]
    rw [not_or, not_not] at hsize
    show ∃ e, (if 256 < budgetOf settings spillAll then _ else _) = _
    by_cases hbudget : 256 < budgetOf settings spillAll
    · rw [if_pos hbudget]
      exact ⟨_, rfl⟩
    · rw [if_neg hbudget]
      have hspill : ¬ SpillFits (budgetOf settings spillAll) settings.slotSize
          (recovered records).eraseDups.length := fun hspill =>
        hfits ⟨by omega, hsize.2, by omega, hspill⟩
      have hnone : SpillFits (budgetOf settings spillAll) settings.slotSize 0 := by
        intro k hk
        rw [Nat.zero_sub] at hk
        cases hk
      have hstart : SpillFits (budgetOf settings spillAll) settings.slotSize
          ([] : List Reg).eraseDups.length := by rwa [List.eraseDups_nil]
      rw [← List.nil_append (recovered records)] at hspill
      obtain ⟨e, he⟩ := placeAll_error hslot [] hstart hspill
      rw [List.eraseDups_nil, ofRegs_nil] at he
      show ∃ e, (placeAll (budgetOf settings spillAll) settings.slotSize {} (recovered records) >>= _) = _
      rw [he]
      exact ⟨e, rfl⟩

/-- **Locations are dense, injective and in range.** Assignment never overflows, succeeds exactly when
the registers fit, and gives every live value the location of its register, the same at all sites. -/
theorem assign_dense (hslot : settings.slotSize < 0x10000000000000000) :
    ∃ result, assign records settings spillAll = .ok result ∧
      ((∃ out, result = .ok out) ↔ Fits settings spillAll (recovered records).eraseDups) ∧
      ∀ l filled, result = .ok (l, filled) →
        filled = records.map l.fill ∧
        (∀ record ∈ filled, ∀ v ∈ record.live, v.location.isSome ∧ v.location = l.location? v.reg) ∧
        l.Dense (budgetOf settings spillAll) settings.slotSize (recovered records).eraseDups ∧
        (∀ r r' loc, l.location? r = some loc → l.location? r' = some loc → r = r') ∧
        (∀ r number, l.location? r = some (.reg number) → number < 256) ∧
        (∀ r offset, l.location? r = some (.spill offset) →
          0 ≤ offset ∧ offset % wordSize = 0 ∧ offset + wordSize ≤ l.frameSize ∧
            offset < 0x80000000) ∧
        ∀ r r' offset offset', r ≠ r' → l.location? r = some (.spill offset) →
          l.location? r' = some (.spill offset') →
          offset + wordSize ≤ offset' ∨ offset' + wordSize ≤ offset := by
  by_cases hfits : Fits settings spillAll (recovered records).eraseDups
  · have hassign := assign_ok (Nat.ne_of_gt hfits.pos) hfits.word hslot hfits.budget hfits.spill
    have hd : Dense (budgetOf settings spillAll) settings.slotSize _ _ :=
      dense_finished (nodup_eraseDups (recovered records))
    refine ⟨_, hassign, ⟨fun _ => hfits, fun _ => ⟨_, rfl⟩⟩, ?_⟩
    rintro l filled h
    obtain ⟨rfl, rfl⟩ := Prod.mk.inj (Except.ok.inj h)
    refine ⟨rfl, ?_, hd, fun _ _ _ => hd.injective hfits.pos, ?_, ?_, ?_⟩
    · intro record hrecord v hv
      obtain ⟨source, hsource, rfl⟩ := List.mem_map.1 hrecord
      obtain ⟨u, hu, rfl⟩ := List.mem_map.1 hv
      refine ⟨(assign_eq_ok hassign).2 u.reg ?_, rfl⟩
      exact List.mem_flatMap.2 ⟨source, hsource, List.mem_map.2 ⟨u, hu, rfl⟩⟩
    · intro r number hr
      obtain ⟨k, hk, -, hloc⟩ | ⟨k, -, -, hloc⟩ := hd.cases hr
      · injection hloc with hnumber
        have := hfits.budget
        omega
      · cases hloc
    · intro r offset hr
      obtain ⟨h₀, h₁, h₂⟩ := hd.spill_mem hfits.pos hfits.word hr
      refine ⟨h₀, h₁, h₂, ?_⟩
      obtain ⟨k, -, -, hloc⟩ | ⟨k, hk, -, hloc⟩ := hd.cases hr
      · cases hloc
      · injection hloc with hoffset
        have := hfits.spill k (by rw [← hd.slots]; exact hk)
        omega
    · intro r r' offset offset' hne
      exact hd.spill_disjoint hfits.pos hfits.word hne
  · obtain ⟨e, he⟩ := assign_of_not_fits hslot hfits
    refine ⟨_, he, ⟨?_, fun h => absurd h hfits⟩, ?_⟩
    · rintro ⟨out, h⟩
      cases h
    · rintro l filled h
      cases h

end Layout

/-! ## Two sites, four registers, two of them in machine registers -/

namespace Spilling

def record (regs : List Nat) : Record where
  live := regs.map fun n => { reg := ⟨n⟩, refKind := .owned, valueKind := .object }
  frames := []
  reason := .guardFailure

/-- The second site uses a register of the first one again, after a new one. -/
def records : List Record := [record [5, 1, 2], record [9, 5]]

def settings : Settings := { registerBudget := 2, slotSize := 16 }

def layout : Layout where
  locations := [(⟨5⟩, .reg 0), (⟨1⟩, .reg 1), (⟨2⟩, .spill 0), (⟨9⟩, .spill 16)]
  spillSlots := 2
  frameSize := 32

end Spilling

theorem assign_dense_spilling : Spilling.settings.slotSize < 0x10000000000000000 ∧
    Layout.assign Spilling.records Spilling.settings false =
      .ok (.ok (Spilling.layout, Spilling.records.map Spilling.layout.fill)) ∧
    Layout.Fits Spilling.settings false [⟨5⟩, ⟨1⟩, ⟨2⟩, ⟨9⟩] ∧
    Spilling.layout.Dense 2 16 [⟨5⟩, ⟨1⟩, ⟨2⟩, ⟨9⟩] ∧
    ∀ v ∈ (Spilling.layout.fill (Spilling.record [9, 5])).live, v.location.isSome := by
  have hslot : Spilling.settings.slotSize < 0x10000000000000000 := by decide
  have hrun : Layout.assign Spilling.records Spilling.settings false =
      .ok (.ok (Spilling.layout, Spilling.records.map Spilling.layout.fill)) := rfl
  obtain ⟨result, hassign, hfits, hall⟩ :=
    @Layout.assign_dense Spilling.records Spilling.settings false hslot
  obtain rfl := Except.ok.inj (hrun.symm.trans hassign)
  obtain ⟨-, hvalues, hd, -⟩ := hall _ _ rfl
  refine ⟨hslot, hrun, hfits.1 ⟨_, rfl⟩, hd, fun v hv => (hvalues _ ?_ v hv).1⟩
  exact List.mem_map_of_mem (by simp [Spilling.records])

end Bailout
