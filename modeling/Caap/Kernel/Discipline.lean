/-
  Caap.Kernel.Discipline

  What every evaluation keeps, proved once for the whole evaluator.

  A `Discipline` names an invariant of the machine, a condition on contexts, the leave
  signals that may come out of an expression, and the events that are bad for it, and says
  for each primitive step of the evaluator why the invariant survives it.  `Holds` then is
  true of the evaluation of every expression (`eval_holds`): a run that logs no bad event
  keeps the invariant, and every run only adds objects to the heap and events to the log.
-/

import Caap.Kernel.Eval

namespace Caap.Kernel

open Lib List Except

/-! ## Heaps -/

variable {addr : Nat} {value : Value} {env : Env}

namespace Heap

theorem Extends.refl (h : Heap) : h.Extends h :=
  ⟨prefix_refl _, prefix_refl _, prefix_refl _, prefix_refl _⟩

theorem Extends.trans {h₁ h₂ h₃ : Heap} (h : h₁.Extends h₂) (h' : h₂.Extends h₃) : h₁.Extends h₃ :=
  ⟨h.frames.trans h'.frames, h.lists.trans h'.lists, h.maps.trans h'.maps, h.refs.trans h'.refs⟩

theorem Grows.refl (h : Heap) : h.Grows h := ⟨le_rfl, le_rfl, le_rfl, le_rfl⟩

theorem Grows.trans {h₁ h₂ h₃ : Heap} (h : h₁.Grows h₂) (h' : h₂.Grows h₃) : h₁.Grows h₃ :=
  ⟨h.frames.trans h'.frames, h.lists.trans h'.lists, h.maps.trans h'.maps, h.refs.trans h'.refs⟩

theorem Extends.grows {h h' : Heap} (he : h.Extends h') : h.Grows h' :=
  ⟨he.frames.length_le, he.lists.length_le, he.maps.length_le, he.refs.length_le⟩

/-- Every object of `h` is in `h'`, unchanged but for one frame. -/
structure ExtendsBut (addr : Nat) (h h' : Heap) : Prop where
  length : h.frames.length ≤ h'.frames.length
  frames : ∀ i, i ≠ addr → i < h.frames.length → h'.frames[i]? = h.frames[i]?
  lists : h.lists <+: h'.lists
  maps : h.maps <+: h'.maps
  refs : h.refs <+: h'.refs

theorem ExtendsBut.refl (addr : Nat) (h : Heap) : ExtendsBut addr h h :=
  ⟨le_rfl, fun _ _ _ => rfl, prefix_refl _, prefix_refl _, prefix_refl _⟩

theorem ExtendsBut.trans {h₁ h₂ h₃ : Heap} (h : ExtendsBut addr h₁ h₂)
    (h' : ExtendsBut addr h₂ h₃) : ExtendsBut addr h₁ h₃ where
  length := h.length.trans h'.length
  frames i hne hlt := (h'.frames i hne (hlt.trans_le h.length)).trans (h.frames i hne hlt)
  lists := h.lists.trans h'.lists
  maps := h.maps.trans h'.maps
  refs := h.refs.trans h'.refs

theorem ExtendsBut.grows {h h' : Heap} (he : ExtendsBut addr h h') : h.Grows h' :=
  ⟨he.length, he.lists.length_le, he.maps.length_le, he.refs.length_le⟩

theorem Extends.but {h h' : Heap} (he : h.Extends h') (addr : Nat) : ExtendsBut addr h h' where
  length := he.frames.length_le
  frames i _ hlt := by
    obtain ⟨more, hmore⟩ := he.frames
    rw [← hmore, getElem?_append_left hlt]
  lists := he.lists
  maps := he.maps
  refs := he.refs

/-- What is below a heap stays below it when a later frame is written. -/
theorem Extends.extendsBut {base h h' : Heap} (hb : base.Extends h)
    (he : ExtendsBut addr h h') (haddr : base.frames.length ≤ addr) : base.Extends h' where
  frames := by
    rw [prefix_iff_getElem?]
    intro i hi
    have hlt : i < h.frames.length := hi.trans_le hb.frames.length_le
    rw [he.frames i (by omega) hlt]
    exact prefix_iff_getElem?.mp hb.frames i hi
  lists := hb.lists.trans he.lists
  maps := hb.maps.trans he.maps
  refs := hb.refs.trans he.refs

theorem newEnv_extends (h : Heap) (parent : Env) : h.Extends (h.newEnv parent).2 :=
  ⟨prefix_append _ _, prefix_refl _, prefix_refl _, prefix_refl _⟩

theorem newList_extends (h : Heap) (items : List Value) : h.Extends (h.newList items).2 :=
  ⟨prefix_refl _, prefix_append _ _, prefix_refl _, prefix_refl _⟩

theorem newMap_extends (h : Heap) (entries : List (MapKey × Value)) :
    h.Extends (h.newMap entries).2 :=
  ⟨prefix_refl _, prefix_refl _, prefix_append _ _, prefix_refl _⟩

theorem newRef_extends (h : Heap) (value : Value) : h.Extends (h.newRef value).2 :=
  ⟨prefix_refl _, prefix_refl _, prefix_refl _, prefix_append _ _⟩

theorem define_extendsBut (h : Heap) (env : Env) (name : String) (value : Value) :
    ExtendsBut (env.headD 0) h (h.define env name value) := by
  cases env with
  | nil => exact .refl _ _
  | cons addr parent =>
    refine ⟨?_, ?_, prefix_refl _, prefix_refl _, prefix_refl _⟩
    · simp [define]
    · intro i hne _
      exact getElem?_set_ne (Ne.symm hne)

theorem defineAll_extendsBut (env : Env) (pairs : List (String × Value)) (h : Heap) :
    ExtendsBut (env.headD 0) h (defineAll env pairs h) := by
  induction pairs generalizing h with
  | nil => exact .refl _ _
  | cons pair rest ih => exact (define_extendsBut h env pair.1 pair.2).trans (ih _)

mutual

theorem ofLiteral_extends (h : Heap) : ∀ literal, h.Extends (h.ofLiteral literal).2
  | .null | .bool _ | .int _ | .float _ | .str _ => .refl h
  | .tuple items => ofItems_extends h items
  | .dict entries => (ofEntries_extends h [] entries).trans (newMap_extends _ _)

theorem ofItems_extends (h : Heap) : ∀ items, h.Extends (h.ofItems items).2
  | [] => .refl h
  | item :: rest => (ofLiteral_extends h item).trans (ofItems_extends _ rest)

theorem ofEntries_extends (h : Heap) (map : List (MapKey × Value)) :
    ∀ entries, h.Extends (h.ofEntries map entries).2
  | [] => .refl h
  | (_, item) :: rest => (ofLiteral_extends h item).trans (ofEntries_extends _ _ rest)

end

theorem setMap_grows (h : Heap) (addr : Nat) (entries : List (MapKey × Value)) :
    h.Grows (h.setMap addr entries) :=
  ⟨le_rfl, le_rfl, by simp [setMap], le_rfl⟩

theorem setList_grows (h : Heap) (addr : Nat) (items : List Value) :
    h.Grows (h.setList addr items) :=
  ⟨le_rfl, by simp [setList], le_rfl, le_rfl⟩

theorem setRef_grows (h : Heap) (addr : Nat) (value : Value) : h.Grows (h.setRef addr value) :=
  ⟨le_rfl, le_rfl, le_rfl, by simp [setRef]⟩

theorem assign_grows {h h' : Heap} {name : String}
    (hassign : h.assign name value env = .ok h') : h.Grows h' := by
  induction env with
  | nil => exact nomatch hassign
  | cons addr parent ih =>
    rw [assign] at hassign
    cases hfind : find name (h.frame addr) with
    | none =>
      rw [hfind] at hassign
      exact ih hassign
    | some old =>
      rw [hfind] at hassign
      obtain rfl := ok.inj hassign
      exact ⟨by simp, le_rfl, le_rfl, le_rfl⟩

end Heap

/-! ## Disciplines -/

/-- A signal that is no leave. -/
def Signal.Plain : Signal → Prop
  | .leave _ _ _ => False
  | .error _ | .exception _ | .tailCall _ _ | .outOfFuel => True

namespace Machine

/-- The machine with an event more in its log. -/
def note (s : Machine) (event : Event) : Machine := { s with log := event :: s.log }

/-- The machine with another heap. -/
def withHeap (s : Machine) (heap : Heap) : Machine := { s with heap := heap }

/-- The machine with another step budget. -/
def withBudget (s : Machine) (budget : Option Nat) : Machine := { s with evalStepBudget := budget }

/-- The machine after one step of the budget. -/
def spend (s : Machine) : Machine := s.withBudget (s.evalStepBudget.map Nat.pred)

end Machine

/-- A leave that is evaluated is pending until an activation ends by it. -/
def Event.weight : Event → Int
  | .leaving _ _ => 1
  | .left _ _ => -1
  | .entered _ | .spawned | .handled _ _ _ | .updatedMap _ | .boundFlat _ => 0

/-- The leaves of a run that have ended no activation. -/
def Machine.pending (s : Machine) : Int := (s.log.map Event.weight).sum

/-- The leave that is on its way at the end of a run. -/
def onItsWay {α : Type} : Except Signal α → Int
  | .error (.leave _ _ _) => 1
  | .error (.error _) | .error (.exception _) | .error (.tailCall _ _) | .error .outOfFuel
  | .ok _ => 0

theorem Machine.pending_note (s : Machine) (event : Event) :
    (s.note event).pending = event.weight + s.pending := by
  simp [pending, note]

theorem Signal.Plain.onItsWay {α : Type} {e : Signal} (h : e.Plain) :
    onItsWay (.error e : Except Signal α) = 0 := by
  cases e with
  | leave t v i => exact absurd h id
  | error e => rfl
  | exception v => rfl
  | tailCall t args => rfl
  | outOfFuel => rfl

/-- An effect is granted in the context. -/
def Ctx.Grants (ctx : Ctx) : Prop :=
  ∃ (kind name : String) (effects : EffectSet), effects.tags ≠ [] ∧
    requireEffectPolicy ctx kind name effects = .ok ()

/-- The events that tell of a step and nothing else. -/
def Event.Silent : Event → Prop
  | .spawned | .updatedMap _ | .boundFlat _ | .leaving _ _ => True
  | .entered _ | .handled _ _ _ | .left _ _ => False

/-- An invariant of the evaluator, with the reasons why its steps keep it.  `base` are the
    objects that were there before; `bad` are the events after which nothing is promised. -/
structure Discipline where
  base : Heap
  bad : Event → Prop
  Ok : Ctx → Prop
  Inv : Machine → Prop
  Leaves : Ctx → Nat → Option Nat → Prop
  inv_congr : ∀ {s s' : Machine}, s'.heap = s.heap → s'.log = s.log →
    s'.evalStepBudget = s.evalStepBudget → Inv s → Inv s'
  ok_deeper : ∀ {ctx : Ctx}, Ok ctx → Ok ctx.deeper
  ok_body : ∀ {ctx : Ctx} (captured : List (Nat × Nat)), Ok ctx → Ok (ctx.inBody captured)
  ok_block : ∀ {ctx : Ctx} (id activation : Nat), Ok ctx → Ok (ctx.inBlock id activation)
  ok_graph : ∀ {ctx : Ctx} (graph : Nat), ¬bad .spawned → Ok ctx → Ok (ctx.inGraph graph)
  ok_scope : ∀ {ctx : Ctx} {requested : EffectSet}, requireInsideScope ctx requested = .ok () →
    Ok ctx → Ok (ctx.inScope requested)
  leaves_deeper : ∀ {ctx : Ctx} {t : Nat} {i : Option Nat}, Leaves ctx.deeper t i → Leaves ctx t i
  leaves_graph : ∀ {ctx : Ctx} {graph t : Nat} {i : Option Nat},
    Leaves (ctx.inGraph graph) t i → Leaves ctx t i
  leaves_scope : ∀ {ctx : Ctx} {requested : EffectSet} {t : Nat} {i : Option Nat},
    Leaves (ctx.inScope requested) t i → Leaves ctx t i
  leaves_body : ∀ {ctx : Ctx} {captured : List (Nat × Nat)} {t : Nat} {i : Option Nat},
    Leaves (ctx.inBody captured) t i → Leaves ctx t i
  leaves_block : ∀ {ctx : Ctx} {id activation t : Nat} {i : Option Nat},
    Leaves (ctx.inBlock id activation) t i → t ≠ id → Leaves ctx t i
  leaves_own : ∀ {ctx : Ctx} {t : Nat}, ¬bad (.leaving t (find t ctx.blocks).isSome) →
    Leaves ctx t (find t (ctx.blocks ++ ctx.captured))
  inv_left : ∀ {ctx : Ctx} {id activation : Nat} {i : Option Nat} {s : Machine},
    Leaves (ctx.inBlock id activation) id i → Inv s → Inv (s.note (.left i activation))
  inv_extends : ∀ {s : Machine} {h : Heap}, s.heap.Extends h → Inv s → Inv (s.withHeap h)
  inv_frame : ∀ {s : Machine} {h : Heap} {addr : Nat}, ¬bad (.boundFlat addr) →
    s.heap.ExtendsBut addr h → Inv s → Inv (s.withHeap h)
  inv_map : ∀ {s : Machine} {addr : Nat} {entries : List (MapKey × Value)},
    ¬bad (.updatedMap addr) → Inv s → Inv (s.withHeap (s.heap.setMap addr entries))
  inv_write : ∀ {ctx : Ctx} {s : Machine} {h : Heap}, Ok ctx → ctx.Grants → s.heap.Grows h →
    Inv s → Inv (s.withHeap h)
  inv_silent : ∀ {s : Machine} {event : Event}, event.Silent → ¬bad event → Inv s →
    Inv (s.note event)
  inv_handled : ∀ {ctx : Ctx} {s : Machine} {kind name : String} {effects : EffectSet}, Ok ctx →
    requireEffectPolicy ctx kind name effects = .ok () → Inv s →
    Inv (s.note (.handled name effects ctx.scopes))
  inv_spend : ∀ {s : Machine}, s.evalStepBudget ≠ some 0 → Inv s → Inv s.spend
  inv_enter : ∀ {ctx : Ctx} {s : Machine}, Ok ctx → ctx.evalDepth < ctx.maxEvalDepth →
    s.evalStepBudget ≠ some 0 → Inv s → Inv (s.spend.note (.entered (ctx.active + 1)))
  inv_budget : ∀ {s : Machine} {budget : Option Nat}, ¬bad .spawned → Inv s →
    Inv (s.withBudget budget)
  fresh_frame : ∀ {addr : Nat}, base.frames.length ≤ addr → ¬bad (.boundFlat addr)

namespace Discipline

variable (d : Discipline)

/-- A bad event is in the log. -/
def Bad (s : Machine) : Prop := ∃ event ∈ s.log, d.bad event

/-- How a run from `s` ends. -/
structure Kept {α : Type} (ctx : Ctx) (φ : α → Prop) (s : Machine)
    (r : Except Signal α × Machine) : Prop where
  grows : s.heap.Grows r.2.heap
  log : s.log <:+ r.2.log
  balance : r.2.pending = s.pending + onItsWay r.1
  result : ∀ a, r.1 = .ok a → φ a
  inv : ¬d.Bad r.2 → d.Ok ctx → d.Inv s → d.Inv r.2
  leaves : ¬d.Bad r.2 → d.Ok ctx → d.Inv s → ∀ t v i, r.1 = .error (.leave t v i) → d.Leaves ctx t i

/-- Every run of the program in the context keeps the discipline, and its results are in `φ`. -/
def Holds {α : Type} (ctx : Ctx) (m : Eval α) (φ : α → Prop) : Prop :=
  ∀ s : Machine, d.base.Grows s.heap → d.Kept ctx φ s (m s)

/-- `Holds` with nothing said about the results. -/
abbrev Fine {α : Type} (ctx : Ctx) (m : Eval α) : Prop := d.Holds ctx m fun _ => True

/-- The frame of the environment is a new one. -/
def Fresh (env : Env) : Prop := d.base.frames.length ≤ env.headD 0

variable {d} {α β : Type} {ctx : Ctx}

theorem Bad.mono {s s' : Machine} (hlog : s.log <:+ s'.log) (h : d.Bad s) : d.Bad s' := by
  obtain ⟨event, hmem, hbad⟩ := h
  exact ⟨event, hlog.subset hmem, hbad⟩

/-! ### Rules for the ways to build a program -/

variable {φ : α → Prop}

theorem Holds.pure {a : α} (h : φ a) : d.Holds ctx (pure a : Eval α) φ := by
  intro s _
  exact ⟨.refl _, suffix_refl _, (add_zero _).symm, fun b hb => ok.inj hb ▸ h,
    fun _ _ hi => hi, fun _ _ _ _ _ _ he => nomatch he⟩

theorem Holds.throw {e : Signal} (h : e.Plain) : d.Holds ctx (throw e : Eval α) φ := by
  intro s _
  refine ⟨.refl _, suffix_refl _, ?_, (fun _ he => nomatch he), fun _ _ hi => hi, ?_⟩
  · show s.pending = s.pending + onItsWay (.error e : Except Signal α)
    rw [h.onItsWay, add_zero]
  · intro _ _ _ t v i he
    obtain rfl := error.inj he
    exact absurd h id

theorem onItsWay_error {α β : Type} (e : Signal) :
    onItsWay (.error e : Except Signal α) = onItsWay (.error e : Except Signal β) := by
  cases e <;> rfl

theorem Holds.fail {message : String} :
    d.Holds ctx (MonadExcept.throw (evalErr message) : Eval α) φ :=
  .throw trivial

theorem Holds.fatal {message : String} :
    d.Holds ctx (MonadExcept.throw (fatalErr message) : Eval α) φ :=
  .throw trivial

variable {m : Eval α} {ψ : β → Prop}

/-- What follows an evaluation that left nothing on its way. -/
theorem Kept.next {r : Except Signal α} {s s' : Machine} {end' : Except Signal β × Machine}
    (hfirst : d.Kept ctx φ s (r, s')) (hway : onItsWay r = 0) (hlast : d.Kept ctx ψ s' end') :
    d.Kept ctx ψ s end' := by
  -- no bad event at the end, so none in between
  have hgood : ¬d.Bad end'.2 → ¬d.Bad s' := fun h hb => h (hb.mono hlast.log)
  have hmid : s'.pending = s.pending := hfirst.balance.trans (by rw [hway, add_zero])
  exact ⟨hfirst.grows.trans hlast.grows, hfirst.log.trans hlast.log, hmid ▸ hlast.balance,
    hlast.result, fun hbad hok hi => hlast.inv hbad hok (hfirst.inv (hgood hbad) hok hi),
    fun hbad hok hi => hlast.leaves hbad hok (hfirst.inv (hgood hbad) hok hi)⟩

theorem Holds.bind {f : α → Eval β} (hm : d.Holds ctx m φ) (hf : ∀ a, φ a → d.Holds ctx (f a) ψ) :
    d.Holds ctx (m >>= f) ψ := by
  intro s hs
  have hfirst := hm s hs
  rw [bind_run]
  rcases hend : m s with ⟨e | a, s'⟩
  · rw [hend] at hfirst
    refine ⟨hfirst.grows, hfirst.log, ?_, (fun _ he => nomatch he), hfirst.inv, ?_⟩
    · exact hfirst.balance.trans (congrArg _ (onItsWay_error e))
    intro hbad hok hi t v i he
    obtain rfl := error.inj he
    exact hfirst.leaves hbad hok hi t v i rfl
  · rw [hend] at hfirst
    exact hfirst.next rfl (hf a (hfirst.result a rfl) s' (hs.trans hfirst.grows))

theorem Holds.mono {ψ : α → Prop} (hm : d.Holds ctx m φ) (h : ∀ a, φ a → ψ a) :
    d.Holds ctx m ψ := by
  intro s hs
  have hrun := hm s hs
  exact ⟨hrun.grows, hrun.log, hrun.balance, fun a ha => h a (hrun.result a ha), hrun.inv,
    hrun.leaves⟩

theorem Holds.fine (hm : d.Holds ctx m φ) : d.Fine ctx m :=
  hm.mono fun _ _ => trivial

/-- A program that starts with the state. -/
theorem Holds.get_bind {f : Machine → Eval β} (hf : ∀ s, d.Holds ctx (f s) ψ) :
    d.Holds ctx (get >>= f) ψ :=
  fun s hs => hf s s hs

theorem Holds.get_bind_at {f : Machine → Eval β}
    (hf : ∀ s, d.base.Grows s.heap → d.Kept ctx ψ s (f s s)) : d.Holds ctx (get >>= f) ψ :=
  hf

theorem Holds.heap_bind {f : Heap → Eval β} (hf : ∀ h, d.Holds ctx (f h) ψ) :
    d.Holds ctx (theHeap >>= f) ψ :=
  fun s hs => hf s.heap s hs

theorem Holds.ite {c : Prop} [Decidable c] {n : Eval α}
    (hm : c → d.Holds ctx m φ) (hn : ¬c → d.Holds ctx n φ) :
    d.Holds ctx (if c then m else n) φ := by
  split_ifs with hc
  · exact hm hc
  · exact hn hc

/-- A program that looks at how another one ended, and passes on its leaves. -/
theorem Holds.attempt_bind {k : Except Signal α → Eval β}
    (hm : d.Holds ctx m φ) (hok : ∀ a, φ a → d.Holds ctx (k (.ok a)) ψ)
    (herror : ∀ e : Signal, e.Plain → d.Holds ctx (k (.error e)) ψ)
    (hleave : ∀ t v i, k (.error (.leave t v i)) = MonadExcept.throw (.leave t v i)) :
    d.Holds ctx (attempt m >>= k) ψ := by
  intro s hs
  have hfirst := hm s hs
  show d.Kept ctx ψ s (k (m s).1 (m s).2)
  have hjoin : ∀ r : Except Signal α, (m s).1 = r → onItsWay r = 0 → d.Holds ctx (k r) ψ →
      d.Kept ctx ψ s (k (m s).1 (m s).2) := by
    rintro r rfl hway hk
    exact Kept.next hfirst hway (hk (m s).2 (hs.trans hfirst.grows))
  cases hr : (m s).1 with
  | ok a => exact hr ▸ hjoin (.ok a) hr rfl (hok a (hfirst.result a hr))
  | error e =>
    cases e with
    | leave t v i =>
      rw [hleave]
      have hbalance : (m s).2.pending = s.pending + 1 := by rw [hfirst.balance, hr]; rfl
      refine ⟨hfirst.grows, hfirst.log, hbalance, (fun _ he => nomatch he), hfirst.inv, ?_⟩
      intro hbad hok hi t' v' i' he
      obtain ⟨rfl, rfl, rfl⟩ := Signal.leave.inj (error.inj he)
      exact hfirst.leaves hbad hok hi _ _ _ hr
    | error e => exact hr ▸ hjoin _ hr rfl (herror (.error e) trivial)
    | exception v => exact hr ▸ hjoin _ hr rfl (herror (.exception v) trivial)
    | tailCall t args => exact hr ▸ hjoin _ hr rfl (herror (.tailCall t args) trivial)
    | outOfFuel => exact hr ▸ hjoin _ hr rfl (herror .outOfFuel trivial)

/-! ### Rules for the primitive steps -/

theorem Holds.check {r : Except String α} : d.Holds ctx (check r) fun a => r = .ok a := by
  cases r with
  | ok a => exact .pure rfl
  | error message => exact .throw trivial

variable {f : Heap → α × Heap}

/-- A change of the heap alone. -/
theorem Holds.onHeap (hgrows : ∀ h : Heap, h.Grows (f h).2)
    (hresult : ∀ h : Heap, d.base.Grows h → φ (f h).1)
    (hinv : ∀ s : Machine, d.Ok ctx → d.Inv s → d.Inv (s.withHeap (f s.heap).2)) :
    d.Holds ctx (onHeap f) φ := by
  intro s hs
  refine ⟨hgrows s.heap, suffix_refl _, (add_zero _).symm, ?_, fun _ hok hi => hinv s hok hi,
    fun _ _ _ _ _ _ he => nomatch he⟩
  intro a ha
  obtain rfl := ok.inj ha
  exact hresult s.heap hs

/-- New objects. -/
theorem Holds.alloc (h : ∀ heap : Heap, heap.Extends (f heap).2) : d.Fine ctx (Kernel.onHeap f) :=
  .onHeap (fun heap => (h heap).grows) (fun _ _ => trivial)
    fun s _ hi => d.inv_extends (h s.heap) hi

/-- A write to a new frame. -/
theorem Holds.writeFresh (henv : d.Fresh env)
    (h : ∀ heap : Heap, heap.ExtendsBut (env.headD 0) (f heap).2) : d.Fine ctx (Kernel.onHeap f) :=
  .onHeap (fun heap => (h heap).grows) (fun _ _ => trivial)
    fun s _ hi => d.inv_frame (d.fresh_frame henv) (h s.heap) hi

/-- A write where an effect is granted. -/
theorem Holds.writeGranted (hgrants : ctx.Grants)
    (h : ∀ heap : Heap, heap.Grows (f heap).2) : d.Fine ctx (Kernel.onHeap f) :=
  .onHeap h (fun _ _ => trivial) fun s hok hi => d.inv_write hok hgrants (h s.heap) hi

theorem Holds.newEnv {parent : Env} : d.Holds ctx (newEnv parent) d.Fresh :=
  .onHeap (fun heap => (heap.newEnv_extends parent).grows) (fun _ hs => hs.frames)
    fun s _ hi => d.inv_extends (s.heap.newEnv_extends parent) hi

/-- A change of what no discipline reads. -/
theorem Kept.set {s s' : Machine} (hheap : s'.heap = s.heap) (hlog : s'.log = s.log)
    (hbudget : s'.evalStepBudget = s.evalStepBudget) :
    d.Kept ctx (fun _ => True) s ((MonadStateOf.set s' : Eval PUnit) s) := by
  refine ⟨?_, ?_, ?_, fun _ _ => trivial, fun _ _ hi => d.inv_congr hheap hlog hbudget hi,
    fun _ _ _ _ _ _ he => nomatch he⟩
  · show s.heap.Grows s'.heap
    rw [hheap]
    exact .refl _
  · show s.log <:+ s'.log
    rw [hlog]
  · show (s'.log.map Event.weight).sum = (s.log.map Event.weight).sum + 0
    rw [hlog, add_zero]

theorem Holds.freshId : d.Fine ctx freshId := by
  intro s hs
  exact ⟨.refl _, suffix_refl _, (add_zero _).symm, fun _ _ => trivial,
    fun _ _ hi => d.inv_congr (s := s) rfl rfl rfl hi,
    fun _ _ _ _ _ _ he => nomatch he⟩

theorem Holds.chargeAllocation {units : Nat} : d.Fine ctx (chargeAllocation units) := by
  refine .get_bind_at fun s hs => ?_
  cases s.evalAllocBudget with
  | none => exact Holds.pure trivial s hs
  | some remaining =>
    by_cases hlt : remaining < units
    · simp only [if_pos hlt]
      exact Holds.fatal s hs
    · simp only [if_neg hlt]
      exact .set rfl rfl rfl

theorem Holds.ensureCollectionLen {context kind : String} {current additional : Nat} :
    d.Fine ctx (ensureCollectionLen ctx context kind current additional) := by
  exact .ite (fun _ => .fail) fun _ => .chargeAllocation

/-- The balance after an event that is no leave. -/
theorem balance_note {s : Machine} {e : Event} (h : e.weight = 0) :
    (s.note e).pending = s.pending + 0 := by
  rw [s.pending_note, h, zero_add, add_zero]

/-- A handler starts to run. -/
theorem Holds.recordHandled {kind name : String} {effects : EffectSet}
    (h : requireEffectPolicy ctx kind name effects = .ok ()) :
    d.Fine ctx (recordHandled ctx name effects) := by
  intro s _
  exact ⟨.refl _, suffix_cons _ _, balance_note rfl, fun _ _ => trivial,
    fun _ hok hi => d.inv_handled hok h hi, fun _ _ _ _ _ _ he => nomatch he⟩

/-- The definition of a flat bind. -/
theorem Holds.bindFlat {name : String} {m : Eval β} (hm : d.Holds ctx m ψ) : d.Holds ctx (do
      Kernel.record (.boundFlat (env.headD 0))
      Kernel.onHeap fun h => ((), h.define env name value)
      m) ψ := by
  intro s hs
  let s' := (s.note (.boundFlat (env.headD 0))).withHeap (s.heap.define env name value)
  have hdefine := s.heap.define_extendsBut env name value
  have hlast : d.Kept ctx ψ s' (m s') := hm s' (hs.trans hdefine.grows)
  show d.Kept ctx ψ s (m s')
  have hmem : Event.boundFlat (env.headD 0) ∈ (m s').2.log := hlast.log.subset mem_cons_self
  have hinv : ¬d.Bad (m s').2 → d.Inv s → d.Inv s' := by
    intro hbad hi
    have hnot : ¬d.bad (.boundFlat (env.headD 0)) := fun hb => hbad ⟨_, hmem, hb⟩
    exact d.inv_frame hnot hdefine (d.inv_silent trivial hnot hi)
  have hstart : s'.pending = s.pending :=
    (balance_note (e := .boundFlat (env.headD 0)) rfl).trans (add_zero s.pending)
  exact ⟨hdefine.grows.trans hlast.grows, (suffix_cons _ _).trans hlast.log,
    hstart ▸ hlast.balance, hlast.result,
    fun hbad hok hi => hlast.inv hbad hok (hinv hbad hi),
    fun hbad hok hi => hlast.leaves hbad hok (hinv hbad hi)⟩

/-- The write of `map_update`. -/
theorem Holds.updateMap {f : Heap → List (MapKey × Value)} : d.Fine ctx (do
      Kernel.record (.updatedMap addr)
      Kernel.onHeap fun h => (value, h.setMap addr (f h))) := by
  intro s _
  refine ⟨s.heap.setMap_grows addr _, suffix_cons _ _, balance_note (s := s) rfl,
    fun _ _ => trivial, ?_, fun _ _ _ _ _ _ he => nomatch he⟩
  intro hbad _ hi
  have hnot : ¬d.bad (.updatedMap addr) := fun hb => hbad ⟨_, mem_cons_self, hb⟩
  exact d.inv_map (s := s.note (.updatedMap addr)) hnot (d.inv_silent trivial hnot hi)

/-! ### Rules for the contexts -/

/-- A function body: no leave comes out of it. -/
theorem Holds.inBody {captured : List (Nat × Nat)}
    (hm : d.Holds (ctx.inBody captured) m φ) : d.Holds ctx m φ := by
  intro s hs
  have hrun := hm s hs
  exact ⟨hrun.grows, hrun.log, hrun.balance, hrun.result,
    fun hbad hok hi => hrun.inv hbad (d.ok_body captured hok) hi,
    fun hbad hok hi t v i he =>
      d.leaves_body (hrun.leaves hbad (d.ok_body captured hok) hi t v i he)⟩

/-- The body of an effect scope. -/
theorem Holds.inScope {requested : EffectSet}
    (h : requireInsideScope ctx requested = .ok ()) (hm : d.Holds (ctx.inScope requested) m φ) :
    d.Holds ctx m φ := by
  intro s hs
  have hrun := hm s hs
  exact ⟨hrun.grows, hrun.log, hrun.balance, hrun.result,
    fun hbad hok hi => hrun.inv hbad (d.ok_scope h hok) hi,
    fun hbad hok hi t v i he =>
      d.leaves_scope (hrun.leaves hbad (d.ok_scope h hok) hi t v i he)⟩

theorem Holds.withEvalAllocBudget {budget : Option Nat}
    (hm : d.Holds ctx m φ) : d.Holds ctx (withEvalAllocBudget budget m) φ := by
  intro s hs
  let s' := { s with evalAllocBudget := budget }
  have hrun : d.Kept ctx φ s' (m s') := hm s' hs
  have hin : d.Inv s → d.Inv s' := fun hi => d.inv_congr (s := s) rfl rfl rfl hi
  exact ⟨hrun.grows, hrun.log, hrun.balance, hrun.result,
    fun hbad hok hi => d.inv_congr (s := (m s').2) rfl rfl rfl (hrun.inv hbad hok (hin hi)),
    fun hbad hok hi => hrun.leaves hbad hok (hin hi)⟩

/-- A sub-evaluator, which comes with a step budget of its own. -/
theorem Holds.spawn {graph : Nat} {budget : Machine → Option Nat}
    (hm : d.Holds (ctx.inGraph graph) m φ) : d.Holds ctx (do
      Kernel.record .spawned
      let s ← get
      withEvalStepBudget (budget s) m) φ := by
  intro s hs
  let s' := (s.note .spawned).withBudget (budget (s.note .spawned))
  have hrun : d.Kept (ctx.inGraph graph) φ s' (m s') := hm s' hs
  show d.Kept ctx φ s ((m s').1, (m s').2.withBudget s.evalStepBudget)
  have hmem : Event.spawned ∈ (m s').2.log := hrun.log.subset mem_cons_self
  have hgood : ¬d.Bad ((m s').2.withBudget s.evalStepBudget) → ¬d.bad .spawned :=
    fun hbad hb => hbad ⟨_, hmem, hb⟩
  have hin : ¬d.bad .spawned → d.Inv s → d.Inv s' :=
    fun hnot hi => d.inv_budget hnot (d.inv_silent trivial hnot hi)
  have hstart : s'.pending = s.pending :=
    (balance_note (e := .spawned) rfl).trans (add_zero s.pending)
  exact ⟨hrun.grows, (suffix_cons _ _).trans hrun.log, hstart ▸ hrun.balance, hrun.result,
    fun hbad hok hi => d.inv_budget (hgood hbad)
      (hrun.inv hbad (d.ok_graph graph (hgood hbad) hok) (hin (hgood hbad) hi)),
    fun hbad hok hi t v i he => d.leaves_graph
      (hrun.leaves hbad (d.ok_graph graph (hgood hbad) hok) (hin (hgood hbad) hi) t v i he)⟩

theorem spendStep_run (s : Machine) : spendStep s = if s.evalStepBudget = some 0 then
    (.error (fatalErr
        "compile_time evaluation step budget exhausted (possible non_terminating fold)"), s)
    else (.ok (), s.spend) := by
  obtain ⟨heap, nextId, budget, alloc, activations, log⟩ := s
  cases budget with
  | none => rfl
  | some remaining => cases remaining <;> rfl

theorem enterEval_run (ctx : Ctx) (s : Machine) :
    enterEval ctx s = if s.evalStepBudget = some 0 then
      (.error (fatalErr
        "compile_time evaluation step budget exhausted (possible non_terminating fold)"), s)
    else if ctx.maxEvalDepth ≤ ctx.evalDepth then
      (.error (fatalErr ("maximum evaluation depth " ++ toString ctx.maxEvalDepth ++ " exceeded")),
        s.spend)
    else (.ok (), s.spend.note (.entered (ctx.active + 1))) := by
  rw [enterEval, bind_run, spendStep_run]
  by_cases hbudget : s.evalStepBudget = some 0
  · simp only [if_pos hbudget]
  · simp only [if_neg hbudget]
    by_cases hdepth : ctx.maxEvalDepth ≤ ctx.evalDepth
    · simp only [if_pos hdepth]
      rfl
    · simp only [if_neg hdepth]
      rfl

/-- A call of `eval`. -/
theorem Holds.enterEval (hm : d.Holds ctx.deeper m φ) : d.Holds ctx (do
      Kernel.enterEval ctx
      m) φ := by
  intro s hs
  rw [bind_run, enterEval_run]
  by_cases hbudget : s.evalStepBudget = some 0
  · simp only [if_pos hbudget]
    exact Holds.fatal s hs
  · by_cases hdepth : ctx.maxEvalDepth ≤ ctx.evalDepth
    · simp only [if_neg hbudget, if_pos hdepth]
      exact ⟨.refl _, suffix_refl _, (add_zero _).symm, (fun _ he => nomatch he),
        fun _ _ hi => d.inv_spend hbudget hi, fun _ _ _ _ _ _ he => nomatch he⟩
    · simp only [if_neg hbudget, if_neg hdepth]
      have hrun := hm (s.spend.note (.entered (ctx.active + 1))) hs
      have hin : d.Ok ctx → d.Inv s → d.Inv (s.spend.note (.entered (ctx.active + 1))) :=
        fun hok hi => d.inv_enter hok (Nat.lt_of_not_le hdepth) hbudget hi
      have hstart : (s.spend.note (.entered (ctx.active + 1))).pending = s.pending :=
        (balance_note (s := s.spend) (e := .entered (ctx.active + 1)) rfl).trans (add_zero _)
      exact ⟨hrun.grows, (suffix_cons _ _).trans hrun.log, hstart ▸ hrun.balance, hrun.result,
        fun hbad hok hi => hrun.inv hbad (d.ok_deeper hok) (hin hok hi),
        fun hbad hok hi t v i he =>
          d.leaves_deeper (hrun.leaves hbad (d.ok_deeper hok) (hin hok hi) t v i he)⟩

/-- The end of a block: its own leave ends here, every other signal goes on. -/
theorem Kept.endBlock {id activation : Nat} {s s' : Machine} {r : Except Signal Value}
    (hrun : d.Kept (ctx.inBlock id activation) (fun _ => True) s (r, s')) :
    d.Kept ctx (fun _ => True) s (endBlock id activation r s') := by
  have hplain : (∀ t v i, r ≠ .error (.leave t v i)) → d.Kept ctx (fun _ => True) s (r, s') :=
    fun hne => ⟨hrun.grows, hrun.log, hrun.balance, fun _ _ => trivial,
      fun hbad hok hi => hrun.inv hbad (d.ok_block id activation hok) hi,
      fun _ _ _ t v i he => absurd he (hne t v i)⟩
  cases r with
  | ok a => exact hplain fun _ _ _ h => nomatch h
  | error e =>
    cases e with
    | leave target value intended =>
      by_cases hid : target = id
      · subst hid
        simp only [Kernel.endBlock, if_pos]
        have hend : (s'.note (.left intended activation)).pending = s.pending + 0 := by
          have hbalance : s'.pending = s.pending + 1 := hrun.balance
          rw [s'.pending_note, hbalance]
          show -1 + (s.pending + 1) = s.pending + 0
          omega
        refine ⟨hrun.grows, hrun.log.trans (suffix_cons _ _), hend, fun _ _ => trivial, ?_,
          fun _ _ _ _ _ _ he => nomatch he⟩
        intro hbad hok hi
        have hgood : ¬d.Bad s' := fun hb => hbad (hb.mono (suffix_cons _ _))
        have hin := d.ok_block target activation hok
        exact d.inv_left (hrun.leaves hgood hin hi _ _ _ rfl) (hrun.inv hgood hin hi)
      · simp only [Kernel.endBlock, if_neg hid]
        refine ⟨hrun.grows, hrun.log, hrun.balance, fun _ _ => trivial,
          fun hbad hok hi => hrun.inv hbad (d.ok_block id activation hok) hi, ?_⟩
        intro hbad hok hi t v i he
        obtain ⟨rfl, rfl, rfl⟩ := Signal.leave.inj (error.inj he)
        exact d.leaves_block
          (hrun.leaves hbad (d.ok_block id activation hok) hi _ _ _ rfl) hid
    | error _ | exception _ | tailCall _ _ | outOfFuel => exact hplain fun _ _ _ h => nomatch h

/-- A block catches the leaves with its id. -/
theorem Holds.block {ev : Evaluate} {id : Nat} {body : List Code} (hbody : ∀ activation,
      d.Fine (ctx.inBlock id activation)
        (evalSequence ev (ctx.inBlock id activation) env .null body)) :
    d.Fine ctx (evalBlock ev ctx env id body) := by
  intro s hs
  let s' := { s with activations := s.activations + 1 }
  have hrun := (hbody s.activations s' hs).endBlock
  have hin : d.Inv s → d.Inv s' := fun hi => d.inv_congr (s := s) rfl rfl rfl hi
  exact ⟨hrun.grows, hrun.log, hrun.balance, fun _ _ => trivial,
    fun hbad hok hi => hrun.inv hbad hok (hin hi),
    fun hbad hok hi => hrun.leaves hbad hok (hin hi)⟩

theorem Holds.leave {t : Nat} {v : Value} : d.Holds ctx (do
      Kernel.record (.leaving t (find t ctx.blocks).isSome)
      MonadExcept.throw (.leave t v (find t (ctx.blocks ++ ctx.captured)))) φ := by
  intro s _
  refine ⟨.refl _, suffix_cons _ _, ?_, (fun _ he => nomatch he), ?_, ?_⟩
  · exact (s.pending_note _).trans (add_comm _ _)
  · intro hbad _ hi
    exact d.inv_silent trivial (fun hb => hbad ⟨_, mem_cons_self, hb⟩) hi
  · intro hbad _ _ t' v' i' he
    obtain ⟨rfl, rfl, rfl⟩ := Signal.leave.inj (error.inj he)
    exact d.leaves_own fun hb => hbad ⟨_, mem_cons_self, hb⟩

end Discipline

end Caap.Kernel
