import Bailout.Proofs.Frame.Again
import Bailout.Proofs.World.Steps
import Mathlib.Data.List.Induction
import Mathlib.Order.Bounds.Defs

/-!
# Links of the call chain

The caller of a frame is found once, when the frame is pushed, and kept as a position. Frames below it
are pushed and popped afterwards only together with it, so the position stays that of the nearest linked
frame below: `WellLinked` is kept by every change of the chain. Following the links from a frame therefore
goes down through all linked frames below it, and nothing else: `WellLinked.callers`. Leaving compiled code
pushes linked frames, each the caller of the next: `World.deoptimizeInto_pushes`.
-/

namespace Bailout

namespace Chain

def LinkedAt (c : Chain) (n : Nat) : Prop := ∃ e, c.entries[n]? = some e ∧ e.linked

/-- The caller of a frame at position `n`: the greatest linked position below, if there is one. -/
inductive CallerAt (c : Chain) (n : Nat) : Option FrameId → Prop where
  | none (h : ∀ m < n, ¬ c.LinkedAt m) : CallerAt c n none
  | some {id : FrameId} (h : IsGreatest {m | m < n ∧ c.LinkedAt m} id.index) : CallerAt c n (some id)

def WellLinked (c : Chain) : Prop := ∀ n e, c.entries[n]? = some e → c.CallerAt n e.back

/-- The frames met by following the links from a frame, up to one that has no caller. -/
inductive Callers (c : Chain) : FrameId → List FrameId → Prop where
  | last {id : FrameId} {e : ChainEntry} (he : c.entries[id.index]? = some e) (hback : e.back = none) :
      Callers c id []
  | next {id caller : FrameId} {e : ChainEntry} {above : List FrameId}
      (he : c.entries[id.index]? = some e) (hback : e.back = some caller)
      (hrest : Callers c caller above) : Callers c id (caller :: above)

variable {c c' : Chain} {n m : Nat} {back : Option FrameId} {frame : Frame} {linked : Bool}

/-! ## The nearest linked frame -/

theorem LinkedAt.lt_length (h : c.LinkedAt n) : n < c.entries.length := by
  obtain ⟨e, he, -⟩ := h
  exact (List.getElem?_eq_some_iff.1 he).1

theorem linkedAt_append {entries more : List ChainEntry} (hm : m < entries.length) :
    (⟨entries ++ more⟩ : Chain).LinkedAt m ↔ (⟨entries⟩ : Chain).LinkedAt m := by
  unfold LinkedAt
  rw [List.getElem?_append_left hm]

/-- Who calls a position depends on the frames below it only. -/
theorem CallerAt.congr (h : c.CallerAt n back) (hsame : ∀ m < n, c'.LinkedAt m ↔ c.LinkedAt m) :
    c'.CallerAt n back := by
  have hset : {m | m < n ∧ c'.LinkedAt m} = {m | m < n ∧ c.LinkedAt m} :=
    Set.ext fun m => and_congr_right fun hm => hsame m hm
  cases h with
  | none h => exact .none fun m hm => (hsame m hm).not.2 (h m hm)
  | some h => exact .some (hset ▸ h)

theorem callerAt_succ_linked (h : c.LinkedAt n) : c.CallerAt (n + 1) (some ⟨n⟩) :=
  .some ⟨⟨Nat.lt_succ_self n, h⟩, fun _ hm => Nat.le_of_lt_succ hm.1⟩

theorem CallerAt.succ_unlinked (h : c.CallerAt n back) (hn : ¬ c.LinkedAt n) :
    c.CallerAt (n + 1) back := by
  have hlt : ∀ {m}, m < n + 1 → c.LinkedAt m → m < n := by
    intro m hm hl
    rcases Nat.lt_succ_iff_lt_or_eq.1 hm with hm | rfl
    · exact hm
    · exact absurd hl hn
  cases h with
  | none h => exact .none fun m hm hl => h m (hlt hm hl) hl
  | some h =>
    refine .some ⟨⟨Nat.lt_succ_of_lt h.1.1, h.1.2⟩, fun m hm => h.2 ⟨hlt hm.1 hm.2, hm.2⟩⟩

theorem nearestLinked?_concat (entries : List ChainEntry) (e : ChainEntry) :
    (⟨entries ++ [e]⟩ : Chain).nearestLinked? =
      if e.linked then some ⟨entries.length⟩ else (⟨entries⟩ : Chain).nearestLinked? := by
  unfold nearestLinked?
  rw [List.zipIdx_append, List.filter_append]
  by_cases he : e.linked <;> simp [he]

theorem callerAt_nearestLinked? (c : Chain) : c.CallerAt c.entries.length c.nearestLinked? := by
  obtain ⟨entries⟩ := c
  induction entries using List.reverseRecOn with
  | nil => exact .none fun m hm => absurd hm (Nat.not_lt_zero m)
  | append_singleton entries e ih =>
    have hat : (⟨entries ++ [e]⟩ : Chain).LinkedAt entries.length ↔ e.linked := by
      simp [LinkedAt]
    rw [nearestLinked?_concat, List.length_append, List.length_singleton]
    split
    · next he => exact callerAt_succ_linked (hat.2 he)
    · next he =>
      refine CallerAt.succ_unlinked ?_ (hat.not.2 he)
      exact ih.congr fun m hm => linkedAt_append hm

/-! ## Changes of the chain -/

theorem WellLinked.pushWithBack (hc : c.WellLinked) (hback : c.CallerAt c.entries.length back)
    (frame : Frame) (linked : Bool) : (c.pushWithBack frame linked back).2.WellLinked := by
  intro n e he
  have hsame : n ≤ c.entries.length → ∀ m < n,
      (c.pushWithBack frame linked back).2.LinkedAt m ↔ c.LinkedAt m :=
    fun hn m hm => linkedAt_append (Nat.lt_of_lt_of_le hm hn)
  rcases Nat.lt_trichotomy n c.entries.length with hn | rfl | hn
  · have hold : (c.entries ++ [⟨frame, linked, back⟩])[n]? = some e := he
    rw [List.getElem?_append_left hn] at hold
    exact (hc n e hold).congr (hsame (Nat.le_of_lt hn))
  · have hnew : (c.entries ++ [⟨frame, linked, back⟩])[c.entries.length]? = some e := he
    rw [List.getElem?_concat_length] at hnew
    obtain rfl := Option.some.inj hnew
    exact hback.congr (hsame (Nat.le_refl _))
  · have hlt : n < (c.entries ++ [(⟨frame, linked, back⟩ : ChainEntry)]).length :=
      (List.getElem?_eq_some_iff.1 he).1
    rw [List.length_append, List.length_singleton] at hlt
    omega

theorem WellLinked.push (hc : c.WellLinked) (frame : Frame) (linked : Bool) :
    (c.push frame linked).2.WellLinked :=
  hc.pushWithBack c.callerAt_nearestLinked? frame linked

theorem WellLinked.pushAll (hc : c.WellLinked) (hback : c.CallerAt c.entries.length back)
    (frames : List Frame) : (c.pushAll back frames).2.WellLinked := by
  induction frames generalizing c back with
  | nil => exact hc
  | cons frame rest ih =>
    refine ih (hc.pushWithBack hback frame true) ?_
    have hlinked : (c.pushWithBack frame true back).2.LinkedAt c.entries.length := by
      simp [LinkedAt, Chain.pushWithBack]
    have hlength : (c.pushWithBack frame true back).2.entries.length = c.entries.length + 1 :=
      List.length_append
    show CallerAt _ (c.pushWithBack frame true back).2.entries.length _
    rw [hlength]
    exact callerAt_succ_linked hlinked

/-- The links of the frames that stay do not depend on those that go. -/
theorem WellLinked.pop (hc : c.WellLinked) : c.pop.2.WellLinked := by
  intro n e he
  have hsame : ∀ m < c.entries.length - 1, c.pop.2.entries[m]? = c.entries[m]? := fun m hm => by
    rw [Chain.pop, List.getElem?_dropLast, if_pos hm]
  have hn : n < c.entries.length - 1 := by
    have hlt := (List.getElem?_eq_some_iff.1 he).1
    rwa [Chain.pop, List.length_dropLast] at hlt
  rw [hsame n hn] at he
  refine (hc n e he).congr fun m hm => ?_
  unfold LinkedAt
  rw [hsame m (Nat.lt_trans hm hn)]

/-- Puts another frame in the place of one on the chain. Links are not touched. -/
def setFrame (c : Chain) (id : FrameId) (frame : Frame) : Chain :=
  ⟨c.entries.modify id.index fun e => { e with frame }⟩

theorem getElem?_setFrame {id : FrameId} {e : ChainEntry}
    (he : (c.setFrame id frame).entries[n]? = some e) :
    ∃ old, c.entries[n]? = some old ∧ e.linked = old.linked ∧ e.back = old.back := by
  rw [setFrame, List.getElem?_modify] at he
  obtain ⟨old, hold, rfl⟩ := Option.map_eq_some_iff.1 he
  refine ⟨old, hold, ?_⟩
  split <;> exact ⟨rfl, rfl⟩

theorem linkedAt_setFrame {id : FrameId} : (c.setFrame id frame).LinkedAt n ↔ c.LinkedAt n := by
  constructor
  · rintro ⟨e, he, hlinked⟩
    obtain ⟨old, hold, hsame, -⟩ := getElem?_setFrame he
    exact ⟨old, hold, hsame ▸ hlinked⟩
  · rintro ⟨old, hold, hlinked⟩
    refine ⟨if id.index = n then { old with frame } else old, ?_, ?_⟩
    · rw [setFrame, List.getElem?_modify, hold]
      split <;> rfl
    · split <;> exact hlinked

theorem WellLinked.setFrame (hc : c.WellLinked) (id : FrameId) (frame : Frame) :
    (c.setFrame id frame).WellLinked := by
  intro n e he
  obtain ⟨old, hold, -, hback⟩ := getElem?_setFrame he
  rw [hback]
  exact (hc n old hold).congr fun m _ => linkedAt_setFrame

/-! ## Following the links -/

theorem WellLinked.callers (hc : c.WellLinked) {id : FrameId} (hid : id.index < c.entries.length) :
    ∃ callers, c.Callers id callers ∧
      (id :: callers).Pairwise (fun above below => below.index < above.index) ∧
      ∀ k, k ∈ callers ↔ k.index < id.index ∧ c.LinkedAt k.index := by
  induction hn : id.index using Nat.strongRecOn generalizing id with
  | _ n ih =>
    subst hn
    have he := List.getElem?_eq_getElem hid
    have hcaller := hc id.index _ he
    cases hback : c.entries[id.index].back with
    | none =>
      rw [hback] at hcaller
      cases hcaller with
      | none hnone =>
        refine ⟨[], .last he hback, List.pairwise_singleton _ _, fun k => ?_⟩
        simp only [List.not_mem_nil, false_iff, not_and]
        exact hnone k.index
    | some caller =>
      rw [hback] at hcaller
      cases hcaller with
      | some hgreatest =>
        obtain ⟨⟨hlt, hlinked⟩, hbound⟩ := hgreatest
        obtain ⟨callers, hpath, hsorted, hmem⟩ := ih caller.index hlt hlinked.lt_length rfl
        refine ⟨caller :: callers, .next he hback hpath, List.pairwise_cons.2 ⟨?_, hsorted⟩, fun k => ?_⟩
        · intro k hk
          rcases List.mem_cons.1 hk with rfl | hk
          · exact hlt
          · exact Nat.lt_trans ((hmem k).1 hk).1 hlt
        · rw [List.mem_cons, hmem]
          constructor
          · rintro (rfl | ⟨hk, hl⟩)
            · exact ⟨hlt, hlinked⟩
            · exact ⟨Nat.lt_trans hk hlt, hl⟩
          · rintro ⟨hk, hl⟩
            rcases Nat.lt_or_eq_of_le (hbound ⟨hk, hl⟩) with hk' | heq
            · exact .inr ⟨hk', hl⟩
            · left
              cases k
              cases caller
              simpa using heq

/-! ## Pushing several frames -/

/-- Frames were pushed on top, linked, the first under the nearest linked frame of before and each other
under the one pushed before it. Nothing below has changed. -/
structure Pushed (c : Chain) (frames : List Frame) (ids : List FrameId) (c' : Chain) : Prop where
  positions : ids = (List.range' c.entries.length frames.length).map FrameId.mk
  entries : ∃ caller, c.CallerAt c.entries.length caller ∧
    c'.entries = c.entries ++
      List.zipWith (fun frame back => ⟨frame, true, back⟩) frames (caller :: ids.map some)

theorem pushAll_eq (c : Chain) (back : Option FrameId) (frames : List Frame) :
    (c.pushAll back frames).1 = (List.range' c.entries.length frames.length).map FrameId.mk ∧
      (c.pushAll back frames).2.entries = c.entries ++
        List.zipWith (fun frame back => ⟨frame, true, back⟩) frames
          (back :: (c.pushAll back frames).1.map some) := by
  induction frames generalizing c back with
  | nil => exact ⟨rfl, (List.append_nil _).symm⟩
  | cons frame rest ih =>
    obtain ⟨hids, hentries⟩ := ih (c.pushWithBack frame true back).2 (some ⟨c.entries.length⟩)
    have hlength : (c.pushWithBack frame true back).2.entries.length = c.entries.length + 1 := by
      simp [Chain.pushWithBack]
    constructor
    · rw [hlength] at hids
      exact congrArg (FrameId.mk c.entries.length :: ·) hids
    · refine hentries.trans ?_
      show (c.entries ++ [⟨frame, true, back⟩]) ++ _ = _
      rw [List.append_assoc]
      rfl

theorem pushed_pushAll (c : Chain) (frames : List Frame) :
    c.Pushed frames (c.pushAll c.nearestLinked? frames).1 (c.pushAll c.nearestLinked? frames).2 :=
  ⟨(c.pushAll_eq _ frames).1, _, c.callerAt_nearestLinked?, (c.pushAll_eq _ frames).2⟩

end Chain

namespace World

variable {w w' : World} {gen : Option Handle} {site : DeoptId} {snap : Snapshot}

/-- What leaving compiled code does to the chain. At a published record it pushes one frame for each of the
record, outermost first, as they are rebuilt; the generator owns the outermost. An error leaves the chain
alone. -/
inductive Pushes (w : World) (gen : Option Handle) (site : DeoptId) (snap : Snapshot) :
    Except EngineError (List FrameId) → World → Prop where
  | error {e : EngineError} {w' : World} (h : w'.chain = w.chain) : Pushes w gen site snap (.error e) w'
  | ok {r : Record} {frames : List Frame} {ids : List FrameId} {w' : World}
    (hrecord : w.engine.record? site = some r) (hlength : frames.length = r.frames.length)
    (hrebuilt : ∀ i fr frame, r.frames[i]? = some fr → frames[i]? = some frame →
      ∃ old new, r.materializeFrame snap old fr (i + 1 == r.frames.length)
        { code := fr.code, gen := if i = 0 then gen else none } = .ok (frame, new))
    (hpushed : w.chain.Pushed frames ids w'.chain) : Pushes w gen site snap (.ok ids) w'

theorem getElem?_targets (frs : List FrameRecord) (gen : Option Handle) (i : Nat) :
    ((frs.map fun fr => ({ code := fr.code } : Frame)).modifyHead fun f => { f with gen })[i]? =
      frs[i]?.map fun fr => { code := fr.code, gen := if i = 0 then gen else none } := by
  cases frs with
  | nil => rfl
  | cons fr rest => cases i <;> simp

theorem deoptimizeInto_pushes {result : Except EngineError (List FrameId)}
    (h : w.deoptimizeInto gen site snap = .ok (result, w')) : w.Pushes gen site snap result w' := by
  rcases deoptimizeInto_eq_ok h with ⟨-, rfl, rfl⟩ |
    ⟨r, frames, heap, heap', n, engine, hrecord, hmaterialize, -, -, rfl, rfl⟩
  · exact .error rfl
  · obtain ⟨hlen, hall⟩ := Record.materialize_eq_ok.1 hmaterialize
    have hlength : frames.length = r.frames.length := by
      rw [(Record.materializeAll_fresh hall).1, List.length_zip, hlen, Nat.min_self]
    obtain ⟨heaps, -, -, hsteps⟩ := Record.materializeAll_steps hall
    refine .ok hrecord hlength (fun i fr frame hfr hframe => ⟨heaps i, heaps (i + 1), ?_⟩)
      (w.chain.pushed_pushAll frames)
    have hpair : (r.frames.zip ((r.frames.map fun fr => ({ code := fr.code } : Frame)).modifyHead
        fun f => { f with gen }))[i]? =
        some (fr, { code := fr.code, gen := if i = 0 then gen else none }) := by
      rw [List.getElem?_zip_eq_some, getElem?_targets, hfr]
      exact ⟨rfl, rfl⟩
    have hstep := hsteps i _ _ frame hpair hframe
    rwa [Record.StepsTo, if_neg Bool.false_ne_true, List.length_zip, hlen, Nat.min_self] at hstep

theorem deoptimizeRunning_pushes {gen : Handle} {result : Except EngineError (List FrameId)}
    (h : w.deoptimizeRunning gen site snap = .ok (result, w')) :
    w.Pushes (some gen) site snap result w' := by
  obtain ⟨heap, -, -, h⟩ := deoptimizeRunning_eq_ok h
  cases deoptimizeInto_pushes h with
  | error h => exact .error h
  | ok hrecord hlength hrebuilt hpushed => exact .ok hrecord hlength hrebuilt hpushed

/-! ## Histories -/

/-- What happens to the call chain, and meanwhile to the rest of the world. -/
inductive Move where
  | push (frame : Frame) (linked : Bool)
  | pop
  | deoptimize (site : DeoptId) (snap : Snapshot)
  | deoptimizeRunning (gen : Handle) (site : DeoptId) (snap : Snapshot)
  /-- A frame runs on. -/
  | setFrame (id : FrameId) (frame : Frame)
  /-- Anything happens that is not about the chain. -/
  | elsewhere (engine : Engine) (heap : Heap)

def move (w : World) : Move → Except Fault World
  | .push frame linked => .ok { w with chain := (w.chain.push frame linked).2 }
  | .pop => .ok { w with chain := w.chain.pop.2 }
  | .deoptimize site snap => (·.2) <$> w.deoptimize site snap
  | .deoptimizeRunning gen site snap => (·.2) <$> w.deoptimizeRunning gen site snap
  | .setFrame id frame => .ok { w with chain := w.chain.setFrame id frame }
  | .elsewhere engine heap => .ok { w with engine, heap }

def moves (w : World) (history : List Move) : Except Fault World := history.foldlM move w

theorem deoptimizeInto_wellLinked {result : Except EngineError (List FrameId)}
    (h : w.deoptimizeInto gen site snap = .ok (result, w')) (hw : w.chain.WellLinked) :
    w'.chain.WellLinked := by
  rcases deoptimizeInto_eq_ok h with ⟨-, -, rfl⟩ | ⟨r, frames, heap, heap', n, engine, -, -, -, -, -, rfl⟩
  · exact hw
  · exact hw.pushAll w.chain.callerAt_nearestLinked? frames

theorem move_wellLinked {m : Move} (h : w.move m = .ok w') (hw : w.chain.WellLinked) :
    w'.chain.WellLinked := by
  cases m with
  | push frame linked =>
    obtain rfl := Except.ok.inj h
    exact hw.push frame linked
  | pop =>
    obtain rfl := Except.ok.inj h
    exact hw.pop
  | deoptimize site snap =>
    obtain ⟨⟨result, now⟩, hdeopt, rfl⟩ := map_eq_ok.1 h
    exact deoptimizeInto_wellLinked hdeopt hw
  | deoptimizeRunning gen site snap =>
    obtain ⟨⟨result, now⟩, hdeopt, rfl⟩ := map_eq_ok.1 h
    obtain ⟨heap, -, -, hinto⟩ := deoptimizeRunning_eq_ok hdeopt
    exact deoptimizeInto_wellLinked hinto hw
  | setFrame id frame =>
    obtain rfl := Except.ok.inj h
    exact hw.setFrame id frame
  | elsewhere engine heap =>
    obtain rfl := Except.ok.inj h
    exact hw

/-- **Links are right in every chain that a history leads to from the empty one.** The caller of a frame is
the nearest linked frame below. Following the links goes strictly down, through the linked frames below,
and ends. Leaving compiled code pushes the rebuilt frames, each linked to the one before. -/
theorem links_of_moves {history : List Move} (hw : w.chain.entries = [])
    (h : w.moves history = .ok w') :
    w'.chain.WellLinked ∧
    (∀ id : FrameId, id.index < w'.chain.entries.length → ∃ callers, w'.chain.Callers id callers ∧
      (id :: callers).Pairwise (fun above below => below.index < above.index) ∧
      ∀ k, k ∈ callers ↔ k.index < id.index ∧ w'.chain.LinkedAt k.index) ∧
    (∀ site snap result w'', w'.deoptimize site snap = .ok (result, w'') →
      w'.Pushes none site snap result w'') ∧
    ∀ gen site snap result w'', w'.deoptimizeRunning gen site snap = .ok (result, w'') →
      w'.Pushes (some gen) site snap result w'' := by
  have hstart : w.chain.WellLinked := by
    intro n e he
    rw [hw] at he
    cases he
  have hlinked : w'.chain.WellLinked :=
    foldlM_induct (fun w => w.chain.WellLinked) (fun m _ w w' hw hm => move_wellLinked hm hw) hstart h
  exact ⟨hlinked, fun id hid => hlinked.callers hid,
    fun site snap result w'' hdeopt => deoptimizeInto_pushes hdeopt,
    fun gen site snap result w'' hdeopt => deoptimizeRunning_pushes hdeopt⟩

namespace Regrowing

def code (n : Nat) (name : String) : CodeUnit := { id := ⟨n⟩, name, length := 16 }

def recipe (code : CodeUnit) : FrameRecord :=
  { code, slots := [], stack := [], handlers := [], cause := ⟨4⟩ }

def record : Record where
  live := []
  frames := [recipe (code 1 "outer"), recipe (code 2 "inner")]
  reason := .guardFailure

def engine : Engine := { registry := { value := { table := [some record] } } }

/-- Two frames are rebuilt above a generator that is not linked. One of them is popped, and another
generator takes its place. -/
def history : List Move :=
  [.push { code := code 3 "caller" } true, .push { code := code 4 "gen" } false,
    .elsewhere engine .initial, .deoptimize ⟨0⟩ {}, .pop, .push { code := code 4 "gen" } false]

end Regrowing

/-- The generator on top is called by the frame rebuilt first, and so will be what is rebuilt next. -/
theorem links_of_moves_regrowing : ∃ w' w'', ({} : World).moves Regrowing.history = .ok w' ∧
    w'.chain.entries.map (·.back) = [none, some ⟨0⟩, some ⟨0⟩, some ⟨2⟩] ∧ w'.chain.WellLinked ∧
    (∃ callers, w'.chain.Callers ⟨3⟩ callers ∧
      ∀ k, k ∈ callers ↔ k.index < 3 ∧ w'.chain.LinkedAt k.index) ∧
    w'.deoptimize ⟨0⟩ {} = .ok (.ok [⟨4⟩, ⟨5⟩], w'') ∧
    w'.Pushes none ⟨0⟩ {} (.ok [⟨4⟩, ⟨5⟩]) w'' ∧
    w''.chain.entries.map (·.back) = [none, some ⟨0⟩, some ⟨0⟩, some ⟨2⟩, some ⟨2⟩, some ⟨4⟩] := by
  have hrun : ({} : World).moves Regrowing.history = .ok _ := rfl
  obtain ⟨hlinked, hcallers, hpushes, -⟩ := links_of_moves rfl hrun
  refine ⟨_, _, hrun, rfl, hlinked, ?_, rfl, hpushes _ _ _ _ rfl, rfl⟩
  obtain ⟨callers, hpath, -, hmem⟩ := hcallers ⟨3⟩ (by decide)
  exact ⟨callers, hpath, hmem⟩

end World

end Bailout
