import Bailout.Proofs.World.Suspended

/-!
# Footers and generators

How far a compiled generator has come is kept twice: in its footer, for the engine, and in the generator
object, for everybody else. The operations on generators make, replace and drop footers, and all of them
keep the two in step, in any order and over any number of generators (`World.footers_agree`).

The interpreter runs between the calls. It may do with the heap and the chain as it likes, except that it
neither frees a generator that has a footer nor sets its status.
-/

namespace Bailout

/-- The state of the generator under a handle, if a generator is there. -/
def Heap.genStatus? (heap : Heap) (h : Handle) : Option GenStatus :=
  match heap.get? h with
  | some (.generator _ status) => some status
  | _ => none

theorem Heap.genStatus?_eq_some {heap : Heap} {h : Handle} {status : GenStatus} :
    heap.genStatus? h = some status ↔ ∃ code, heap.get? h = some (.generator code status) := by
  unfold genStatus?
  split
  · next code s hget => simp [hget]
  · next hnone =>
    constructor
    · intro h
      cases h
    · rintro ⟨code, hget⟩
      exact absurd hget (hnone code status)

theorem Heap.genStatus?_setGenStatus {heap heap' : Heap} {gen : Handle} {status : GenStatus}
    (h : heap.setGenStatus gen status = .ok heap') : heap'.genStatus? gen = some status :=
  genStatus?_eq_some.2 (get?_setGenStatus_self h)

namespace Engine

variable {e : Engine} {gen : Handle} {footer : Footer} {p : Handle × Footer}

theorem mem_eraseFooter : p ∈ (e.eraseFooter gen).footers ↔ p ∈ e.footers ∧ p.1 ≠ gen := by
  simp [eraseFooter]

theorem mem_setFooter :
    p ∈ (e.setFooter gen footer).footers ↔ p = (gen, footer) ∨ p ∈ e.footers ∧ p.1 ≠ gen := by
  rw [setFooter, List.mem_cons, mem_eraseFooter]

theorem mem_of_footer? (h : e.footer? gen = some footer) : (gen, footer) ∈ e.footers := by
  obtain ⟨p, hfind, rfl⟩ := Option.map_eq_some_iff.1 h
  obtain rfl : p.1 = gen := by simpa using List.find?_some hfind
  exact List.mem_of_find?_eq_some hfind

end Engine

/-- What a footer says of the generator it is stored under is so, and only a suspended generator has
saved anything. -/
structure Footer.Agrees (footer : Footer) (gen : Handle) (heap : Heap) : Prop where
  gen_eq : footer.gen = gen
  status : footer.status = .suspended ∨ footer.status = .running
  object : heap.genStatus? gen = some footer.status
  spill : footer.status ≠ .suspended → footer.spill = []

namespace World

def FootersAgree (w : World) : Prop := ∀ p ∈ w.engine.footers, p.2.Agrees p.1 w.heap

/-- No generator that has a footer was freed. -/
def Alive (w : World) : Prop := ∀ p ∈ w.engine.footers, (w.heap.genStatus? p.1).isSome

inductive Event where
  /-- A call was made, and answered. -/
  | called (c : Call) (reply : Except EngineError Reply)
  /-- The interpreter ran. -/
  | elsewhere

namespace Event

def Suspends (gen : Handle) (e : Event) : Prop :=
  ∃ unit site spill reply, e = .called (.suspend gen unit site spill) (.ok reply)

def Resumes (gen : Handle) (e : Event) : Prop := ∃ reply, e = .called (.resume gen) (.ok reply)

end Event

inductive Step : World → Event → World → Prop where
  /-- No call makes a generator, so that one found under its handle afterwards was not freed. -/
  | called {w w' : World} {c : Call} {reply : Except EngineError Reply}
    (hcall : w.call c = .ok (reply, w')) (halive : w'.Alive) : Step w (.called c reply) w'
  /-- The interpreter leaves the engine alone, and the generators with a footer where they are. -/
  | elsewhere {w : World} {heap : Heap} {chain : Chain}
    (hkept : ∀ p ∈ w.engine.footers, heap.genStatus? p.1 = w.heap.genStatus? p.1) :
    Step w .elsewhere { w with heap, chain }

inductive Run : World → List Event → World → Prop where
  | nil (w : World) : Run w [] w
  | cons {w w₁ w₂ : World} {e : Event} {events : List Event} (hstep : Step w e w₁)
    (hrest : Run w₁ events w₂) : Run w (e :: events) w₂

variable {w w' : World} {c : Call} {reply : Except EngineError Reply} {gen : Handle} {e : Event}
  {events : List Event}

theorem run_append {later : List Event} (h : Run w (events ++ later) w') :
    ∃ w₁, Run w events w₁ ∧ Run w₁ later w' := by
  induction events generalizing w with
  | nil => exact ⟨w, .nil w, h⟩
  | cons e events ih =>
    cases h with
    | cons hstep hrest =>
      obtain ⟨w₁, hevents, hlater⟩ := ih hrest
      exact ⟨w₁, .cons hstep hevents, hlater⟩

/-! ## Agreement -/

/-- The footer of a generator that the call does not name was there before. -/
theorem call_mem_footers {footer : Footer} (h : w.call c = .ok (reply, w')) (hc : c.gen? ≠ some gen)
    (hfooter : (gen, footer) ∈ w'.engine.footers) : (gen, footer) ∈ w.engine.footers := by
  rcases call_footers h with hsame | ⟨k, hk, herase | ⟨new, hset, -⟩⟩
  · rwa [hsame] at hfooter
  · rw [herase] at hfooter
    exact (Engine.mem_eraseFooter.1 hfooter).1
  · rw [hset] at hfooter
    rcases Engine.mem_setFooter.1 hfooter with hnew | ⟨hold, -⟩
    · obtain rfl := (Prod.mk.inj hnew).1
      exact absurd hk hc
    · exact hold

/-- The footer of the generator that the call names was left alone, with the whole world, or is a new
one, made together with the status of the object. -/
theorem call_agrees_named {footer : Footer} (h : w.call c = .ok (reply, w')) (hc : c.gen? = some gen)
    (hw : w.FootersAgree) (hfooter : (gen, footer) ∈ w'.engine.footers) : footer.Agrees gen w'.heap := by
  have herased : ∀ {e : Engine}, w'.engine.footers = (e.eraseFooter gen).footers →
      footer.Agrees gen w'.heap := by
    intro e herase
    rw [herase] at hfooter
    exact absurd rfl (Engine.mem_eraseFooter.1 hfooter).2
  cases c with
  | engine | materialize | deoptimize => cases hc
  | deoptimizeRunning _ site snap =>
    obtain rfl := Option.some.inj hc
    obtain ⟨result, h, -⟩ := answer_eq_ok h
    obtain ⟨heap, -, -, h⟩ := deoptimizeRunning_eq_ok h
    exact herased (footers_deoptimizeInto h)
  | suspend _ unit site spill =>
    obtain rfl := Option.some.inj hc
    obtain ⟨result, h, -⟩ := answer_eq_ok h
    rcases suspend_eq_ok h with ⟨_, -, rfl⟩ | ⟨record, heap, -, -, -, -, hset, rfl⟩
    · exact hw _ hfooter
    · rcases Engine.mem_setFooter.1 hfooter with hnew | ⟨-, hne⟩
      · obtain rfl := (Prod.mk.inj hnew).2
        exact ⟨rfl, .inl rfl, Heap.genStatus?_setGenStatus hset, fun hne => absurd rfl hne⟩
      · exact absurd rfl hne
  | resume _ =>
    obtain rfl := Option.some.inj hc
    obtain ⟨result, h, -⟩ := answer_eq_ok h
    rcases resume_eq_ok h with ⟨_, -, -, rfl⟩ | ⟨old, heap, hold, hset, -, rfl⟩
    · exact hw _ hfooter
    · have hagrees := hw _ (Engine.mem_of_footer? (suspendedFooter_eq_ok.1 hold).1)
      rcases Engine.mem_setFooter.1 hfooter with hnew | ⟨-, hne⟩
      · obtain rfl := (Prod.mk.inj hnew).2
        exact ⟨hagrees.gen_eq, .inr rfl, Heap.genStatus?_setGenStatus hset, fun _ => rfl⟩
      · exact absurd rfl hne
  | deoptSuspended _ =>
    obtain rfl := Option.some.inj hc
    obtain ⟨result, h, -⟩ := answer_eq_ok h
    rcases deoptSuspended_eq_ok h with ⟨_, -, -, rfl⟩ |
      ⟨_, _, _, _, _, engine, -, -, -, -, hdeopt, -, rfl⟩
    · exact hw _ hfooter
    · exact herased ((Engine.footers_recordDeopt hdeopt).trans (Engine.footers_count _ _))
  | releaseGenerator _ =>
    obtain rfl := Option.some.inj hc
    obtain ⟨⟨found, w₁⟩, hrelease, hr⟩ := map_eq_ok.1 h
    obtain ⟨-, rfl⟩ := Prod.mk.inj hr
    rcases releaseGenerator_eq_ok hrelease with ⟨-, -, rfl⟩ | ⟨old, heap, -, -, -, rfl⟩
    · exact hw _ hfooter
    · exact herased rfl

theorem call_footersAgree (h : w.call c = .ok (reply, w')) (halive : w'.Alive)
    (hw : w.FootersAgree) : w'.FootersAgree := by
  rintro ⟨gen, footer⟩ hfooter
  by_cases hc : c.gen? = some gen
  · exact call_agrees_named h hc hw hfooter
  · have hagrees := hw _ (call_mem_footers h hc hfooter)
    obtain ⟨status, hstatus⟩ := Option.isSome_iff_exists.1 (halive _ hfooter)
    obtain ⟨code, hget⟩ := Heap.genStatus?_eq_some.1 hstatus
    have hbefore := Heap.genStatus?_eq_some.2 ⟨code, call_generator h hc hget⟩
    exact { hagrees with object := hstatus.trans (hbefore.symm.trans hagrees.object) }

theorem step_footersAgree (h : Step w e w') (hw : w.FootersAgree) : w'.FootersAgree := by
  cases h with
  | called hcall halive => exact call_footersAgree hcall halive hw
  | elsewhere hkept =>
    intro p hp
    exact { hw p hp with object := (hkept p hp).trans (hw p hp).object }

theorem run_footersAgree (h : Run w events w') (hw : w.FootersAgree) : w'.FootersAgree := by
  induction h with
  | nil => exact hw
  | cons hstep _ ih => exact ih (step_footersAgree hstep hw)

/-! ## Alternation -/

theorem step_idle (h : Step w e w') (he : ¬ e.Suspends gen) (hw : w.Idle gen) : w'.Idle gen := by
  cases h with
  | elsewhere => exact hw
  | @called _ c reply hcall _ =>
    by_cases hc : ∃ unit site spill, c = .suspend gen unit site spill
    · obtain ⟨unit, site, spill, rfl⟩ := hc
      obtain ⟨result, hsuspend, rfl⟩ := answer_eq_ok hcall
      rcases suspend_eq_ok hsuspend with ⟨_, -, rfl⟩ | ⟨_, _, rfl, -⟩
      · exact hw
      · exact absurd ⟨unit, site, spill, _, rfl⟩ he
    · exact call_idle hcall (fun unit site spill hsame => hc ⟨unit, site, spill, hsame⟩) hw

theorem run_idle (h : Run w events w') (hevents : ∀ e ∈ events, ¬ e.Suspends gen) (hw : w.Idle gen) :
    w'.Idle gen := by
  induction h with
  | nil => exact hw
  | cons hstep _ ih =>
    rw [List.forall_mem_cons] at hevents
    exact ih hevents.2 (step_idle hstep hevents.1 hw)

theorem step_resumes (h : Step w e w') (he : e.Resumes gen) : ¬ w.Idle gen ∧ w'.Idle gen := by
  obtain ⟨reply, rfl⟩ := he
  cases h with
  | called hcall =>
    obtain ⟨result, hresume, hreply⟩ := answer_eq_ok hcall
    rcases resume_eq_ok hresume with ⟨_, -, rfl, -⟩ | ⟨footer, heap, hsusp, -, -, rfl⟩
    · cases hreply
    · obtain ⟨hfooter, hsuspended⟩ := suspendedFooter_eq_ok.1 hsusp
      refine ⟨fun hidle => hidle footer hfooter hsuspended, ?_⟩
      intro new hnew
      rw [Engine.footer?_setFooter, if_pos rfl] at hnew
      obtain rfl := Option.some.inj hnew
      exact Bool.false_ne_true

theorem suspends_between {first second : Event} {between : List Event}
    (h : Run w (first :: (between ++ [second])) w') (hfirst : first.Resumes gen)
    (hsecond : second.Resumes gen) : ∃ e ∈ between, e.Suspends gen := by
  by_contra hnone
  push Not at hnone
  cases h with
  | cons hstep hrest =>
    obtain ⟨w₁, hbetween, hlast⟩ := run_append hrest
    have hidle := run_idle hbetween hnone (step_resumes hstep hfirst).2
    cases hlast with
    | cons hlast _ => exact (step_resumes hlast hsecond).1 hidle

/-- In every world that a run reaches from one without footers, each footer is stored under its own
generator, is that of a suspended or of a running generator, has the status of the object, and has saved
nothing unless it is suspended. Between two resumes of a generator it is suspended. -/
theorem footers_agree (hw : w.engine.footers = []) (hrun : Run w events w') :
    w'.FootersAgree ∧
    ∀ gen before first between second after,
      events = before ++ first :: (between ++ second :: after) →
      first.Resumes gen → second.Resumes gen → ∃ e ∈ between, e.Suspends gen := by
  constructor
  · refine run_footersAgree hrun ?_
    intro p hp
    rw [hw] at hp
    cases hp
  · rintro gen before first between second after rfl hfirst hsecond
    obtain ⟨w₁, -, hlater⟩ := run_append hrun
    have hsplit : first :: (between ++ second :: after) = (first :: (between ++ [second])) ++ after := by
      simp
    rw [hsplit] at hlater
    obtain ⟨w₂, hlater, -⟩ := run_append hlater
    exact suspends_between hlater hfirst hsecond

namespace Alternating

/-- The generator in the given state, its footer, if it has one, and the given objects. -/
def world (status : GenStatus) (footers : List (Handle × Footer)) (objects : List Object) : World where
  engine := { Dropping.running.engine with footers }
  heap := objects.foldl (fun heap object => (heap.alloc object).2)
    (Heap.initial.alloc (.generator ⟨1⟩ status)).2

/-- The generator suspended, with the given spill area. -/
def suspended (spill : List Word) (objects : List Object) : World :=
  world .suspended [(⟨3⟩, { Dropping.footer with spill, status := .suspended })] objects

def running (objects : List Object) : World := world .running [(⟨3⟩, Dropping.footer)] objects

def resumed (spill : List Word) : Event := .called (.resume ⟨3⟩) (.ok (.resumed ⟨⟨0⟩, ⟨0⟩, spill⟩))

/-- The generator suspends, the interpreter makes a number, and the generator is resumed. It is not
resumed once more before it has suspended again. -/
def history : List Event :=
  [.called (.engine (.install Dropping.unit)) (.ok (.engine (.unit ⟨0⟩))),
    .called (.suspend ⟨3⟩ ⟨0⟩ ⟨0⟩ [6]) (.ok .suspended), .elsewhere, resumed [6],
    .called (.resume ⟨3⟩) (.error (.generatorNotSuspended ⟨3⟩)),
    .called (.suspend ⟨3⟩ ⟨0⟩ ⟨0⟩ [8]) (.ok .suspended), resumed [8]]

theorem alive {w : World} {footer : Footer} {status : GenStatus} (h : w.engine.footers = [(⟨3⟩, footer)])
    (hstatus : w.heap.genStatus? ⟨3⟩ = some status) : w.Alive := by
  intro p hp
  rw [h, List.mem_singleton] at hp
  rw [hp, hstatus]
  rfl

theorem run : Run Dropping.start history (running [.int 7]) := by
  have hinstall : Step Dropping.start (.called (.engine (.install Dropping.unit))
      (.ok (.engine (.unit ⟨0⟩)))) (world .justStarted [] []) := by
    refine .called rfl ?_
    intro p hp
    cases hp
  have hsuspend : Step (world .justStarted [] []) (.called (.suspend ⟨3⟩ ⟨0⟩ ⟨0⟩ [6]) (.ok .suspended))
      (suspended [6] []) := .called rfl (alive rfl rfl)
  have hnumber : Step (suspended [6] []) .elsewhere (suspended [6] [.int 7]) := by
    refine .elsewhere ?_
    intro p hp
    rw [List.mem_singleton.1 hp]
    rfl
  have hresume : ∀ spill, Step (suspended spill [.int 7]) (resumed spill) (running [.int 7]) :=
    fun _ => .called rfl (alive rfl rfl)
  have hrefused : Step (running [.int 7]) (.called (.resume ⟨3⟩) (.error (.generatorNotSuspended ⟨3⟩)))
      (running [.int 7]) := .called rfl (alive rfl rfl)
  have hagain : Step (running [.int 7]) (.called (.suspend ⟨3⟩ ⟨0⟩ ⟨0⟩ [8]) (.ok .suspended))
      (suspended [8] [.int 7]) := .called rfl (alive rfl rfl)
  exact .cons hinstall <| .cons hsuspend <| .cons hnumber <| .cons (hresume [6]) <|
    .cons hrefused <| .cons hagain <| .cons (hresume [8]) <| .nil _

end Alternating

theorem footers_agree_alternating : Dropping.start.engine.footers = [] ∧
    Run Dropping.start Alternating.history (Alternating.running [.int 7]) ∧
    (Alternating.running [.int 7]).FootersAgree ∧
    ∃ e ∈ [Event.called (.resume ⟨3⟩) (.error (.generatorNotSuspended ⟨3⟩)),
      .called (.suspend ⟨3⟩ ⟨0⟩ ⟨0⟩ [8]) (.ok .suspended)], e.Suspends ⟨3⟩ := by
  obtain ⟨hagree, hbetween⟩ := footers_agree rfl Alternating.run
  refine ⟨rfl, Alternating.run, hagree, ?_⟩
  exact hbetween ⟨3⟩ (Alternating.history.take 3) (Alternating.resumed [6]) _
    (Alternating.resumed [8]) [] rfl ⟨_, rfl⟩ ⟨_, rfl⟩

end World

end Bailout
