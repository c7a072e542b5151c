/-
  Caap.Kernel.Names

  Names between the frames of an environment and the builtins.  The evaluator remembers for
  every name and every assignment of the program where it found the binding; whatever it
  remembers, a run takes the course that it takes without (`caches_transparent`).  The
  builtins are asked whenever the lookup fails, which it does for a name without a binding
  and for one whose binding has no value yet (`binding_hides_builtin_iff`).
-/

import Caap.Kernel.Eval

namespace Caap.Kernel

open Lib Heap

/-! ## Remembered addresses -/

structure LexicalAddress where
  depth : Nat
  slot : Nat

/-- `lexical_address_cache` and `assignment_address_cache`, by the id of the node. -/
structure Caches where
  lexical : List (Nat × LexicalAddress)
  assignment : List (Nat × LexicalAddress)

def Caches.empty : Caches := ⟨[], []⟩

/-- `bindings.get(name)`: the names of a frame have the slots in their order. -/
def slotOf (name : String) (frame : List (String × Value)) : Option Nat :=
  frame.findIdx? (·.1 = name)

namespace Heap

variable (h : Heap) (name : String)

/-- The loop of `resolve_exact` and `assign_resolved`: the address and the frame. -/
def findBinding : Env → Nat → Option (LexicalAddress × Nat)
  | [], _ => none
  | addr :: parent, depth =>
    match slotOf name (h.frame addr) with
    | some slot => some (⟨depth, slot⟩, addr)
    | none => findBinding parent (depth + 1)

/-- The loop of `lookup_address` and `try_assign_address`: the frame, if no frame before it
    binds the name and it binds the name to the slot. -/
def findAddress : Env → LexicalAddress → Option Nat
  | [], _ => none
  | addr :: _, ⟨0, slot⟩ => if slotOf name (h.frame addr) = some slot then some addr else none
  | addr :: parent, ⟨depth + 1, slot⟩ =>
    if (slotOf name (h.frame addr)).isSome then none else findAddress parent ⟨depth, slot⟩

/-- `checked_slot_value` of the slot of a name. -/
def slotValue (addr : Nat) : Except EvaluationError Value :=
  match find name (h.frame addr) with
  | some value => checkedSlotValue name value
  | none => .error ⟨"environment slot for " ++ debugStr name ++ " is missing", none, false⟩

def setSlot (value : Value) (addr : Nat) : Heap :=
  { h with frames := h.frames.set addr (upsert name value (h.frame addr)) }

/-- `Environment::try_lookup`. -/
def tryLookup (env : Env) : Except EvaluationError (Option Value) := do
  match ← resolveExact h name env with
  | some value => .ok (some value)
  | none =>
    if name.toList.contains '.' then lookupQualified h (dotSplits name) env else .ok none

end Heap

section Cached

variable (h : Heap) (node : Nat) (name : String) (env : Env)

/-- `eval_name_without_builtin` behind the cache. -/
def resolveName (caches : Caches) : Except EvaluationError Value × Caches :=
  let unknown : Except EvaluationError Value := .error ⟨"unknown name: " ++ name, none, false⟩
  match h.findBinding name env 0 with
  | some (address, addr) =>
    match h.slotValue name addr with
    | .error e => (.error e, caches)
    | .ok value => (.ok value, { caches with lexical := upsert node address caches.lexical })
  | none =>
    if name.toList.contains '.' then
      match h.tryLookup name env with
      | .error e => (.error e, caches)
      | .ok (some value) => (.ok value, caches)
      | .ok none => (unknown, caches)
    else (unknown, caches)

/-- `eval_name_without_builtin`. -/
def evalNameWithoutBuiltin (caches : Caches) : Except EvaluationError Value × Caches :=
  match (find node caches.lexical).bind (h.findAddress name env) with
  | some addr => (h.slotValue name addr, caches)
  | none => resolveName h node name env { caches with lexical := remove node caches.lexical }

/-- `assign_lexical_name`. -/
def assignLexicalNameCached (value : Value) (caches : Caches) :
    Except EvaluationError Unit × Heap × Caches :=
  match (find node caches.assignment).bind (h.findAddress name env) with
  | some addr => (.ok (), h.setSlot name value addr, caches)
  | none =>
    match h.findBinding name env 0 with
    | some (address, addr) =>
      (.ok (), h.setSlot name value addr,
        { caches with assignment := upsert node address (remove node caches.assignment) })
    | none =>
      (.error ⟨"undefined variable: " ++ name, none, false⟩, h,
        { caches with assignment := remove node caches.assignment })

end Cached

/-- What an evaluator does, as far as names are concerned: it reads a name or assigns to one
    and goes on as the outcome demands; any other step may change the heap in any way. -/
inductive NameRun (α : Type) where
  | done (result : α)
  | readName (node : Nat) (name : String) (env : Env)
      (next : Except EvaluationError Value → NameRun α)
  | assign (node : Nat) (name : String) (env : Env) (value : Value)
      (next : Except EvaluationError Unit → NameRun α)
  | other (f : Heap → Heap) (next : Heap → NameRun α)

/-- The run, with `keep` applied to the caches after every use of them. -/
def NameRun.exec {α : Type} (keep : Caches → Caches) : NameRun α → Heap → Caches → α × Heap
  | .done result, h, _ => (result, h)
  | .readName node name env next, h, caches =>
    let (result, caches') := evalNameWithoutBuiltin h node name env caches
    (next result).exec keep h (keep caches')
  | .assign node name env value next, h, caches =>
    let (result, h', caches') := assignLexicalNameCached h node name env value caches
    (next result).exec keep h' (keep caches')
  | .other f next, h, caches => (next h).exec keep (f h) caches

section Found

variable (h : Heap) (node : Nat) (name : String) (env : Env)

theorem slotOf_eq_none {name : String} {frame : List (String × Value)} :
    slotOf name frame = none ↔ find name frame = none := by
  induction frame with
  | nil => simp [slotOf, find]
  | cons entry rest ih =>
    obtain ⟨key, a⟩ := entry
    by_cases hkey : key = name
    · simp [slotOf, find, List.findIdx?_cons, hkey]
    · simpa [slotOf, find, List.findIdx?_cons, hkey] using ih

/-- The walk of `resolve_exact` and of `assign_resolved` ends at the frame of the binding. -/
theorem findBinding_spec (depth : Nat) :
    (h.findBinding name env depth = none ∧ h.resolveExact name env = .ok none ∧
      ∀ value, h.assign name value env = .error ⟨"undefined variable: " ++ name, none, false⟩) ∨
    ∃ address addr, h.findBinding name env depth = some (address, addr) ∧
      h.resolveExact name env = (h.slotValue name addr).map some ∧
      ∀ value, h.assign name value env = .ok (h.setSlot name value addr) := by
  induction env generalizing depth with
  | nil => exact .inl ⟨rfl, rfl, fun _ => rfl⟩
  | cons addr parent ih =>
    simp only [findBinding, resolveExact, assign]
    cases hslot : slotOf name (h.frame addr) with
    | none =>
      rw [slotOf_eq_none.mp hslot]
      exact ih (depth + 1)
    | some slot =>
      cases hfind : find name (h.frame addr) with
      | none => exact absurd (slotOf_eq_none.mpr hfind) (by simp [hslot])
      | some value =>
        refine .inr ⟨_, addr, rfl, ?_, fun _ => rfl⟩
        rw [slotValue, hfind]

/-- An address that is accepted leads to the frame where the walk ends. -/
theorem findBinding_of_findAddress {h : Heap} {name : String} {env : Env}
    {address : LexicalAddress} {addr : Nat} (hfound : h.findAddress name env address = some addr) (depth : Nat) :
    ∃ address', h.findBinding name env depth = some (address', addr) := by
  induction env generalizing address depth with
  | nil => exact absurd hfound (by simp [findAddress])
  | cons head parent ih =>
    obtain ⟨_ | d, slot⟩ := address
    · rw [findAddress] at hfound
      split_ifs at hfound with hslot
      rw [findBinding, hslot, ← Option.some.inj hfound]
      exact ⟨_, rfl⟩
    · rw [findAddress] at hfound
      split_ifs at hfound with hslot
      rw [Option.not_isSome_iff_eq_none] at hslot
      rw [findBinding, hslot]
      exact ih hfound (depth + 1)

theorem resolveName_fst (caches : Caches) :
    (resolveName h node name env caches).1 = h.lookupName env name := by
  rw [resolveName, lookupName]
  rcases findBinding_spec h name env 0 with
    ⟨hnone, hexact, -⟩ | ⟨address, addr, hsome, hexact, -⟩
  · rw [hnone, hexact]
    by_cases hdot : name.toList.contains '.' = true
    · simp only [if_pos hdot, tryLookup, hexact, ok_bind]
      rcases h.lookupQualified (dotSplits name) env with e | _ | value <;> rfl
    · simp only [if_neg hdot, ok_bind]
  · rw [hsome, hexact]
    cases hvalue : h.slotValue name addr <;> simp [hvalue, Except.map, ok_bind, error_bind]

theorem evalNameWithoutBuiltin_fst (caches : Caches) :
    (evalNameWithoutBuiltin h node name env caches).1 = h.lookupName env name := by
  rw [evalNameWithoutBuiltin]
  cases hcached : (find node caches.lexical).bind (h.findAddress name env) with
  | none => exact resolveName_fst ..
  | some addr =>
    obtain ⟨address, -, hfound⟩ := Option.bind_eq_some_iff.mp hcached
    obtain ⟨address', hwalk⟩ := findBinding_of_findAddress hfound 0
    have hresolved := resolveName_fst h node name env caches
    rw [resolveName, hwalk] at hresolved
    rw [← hresolved]
    cases hvalue : h.slotValue name addr <;> simp [hvalue]

/-- What an assignment does: where it fails, the heap is as before. -/
def Heap.assigned (h : Heap) (name : String) (env : Env) (value : Value) :
    Except EvaluationError Unit × Heap :=
  match h.assign name value env with
  | .ok h' => (.ok (), h')
  | .error e => (.error e, h)

theorem assignLexicalNameCached_eq (value : Value) (caches : Caches) :
    ((assignLexicalNameCached h node name env value caches).1,
      (assignLexicalNameCached h node name env value caches).2.1) = h.assigned name env value := by
  rw [assignLexicalNameCached, assigned]
  rcases findBinding_spec h name env 0 with
    ⟨hwalk, -, hassign⟩ | ⟨address, addr, hwalk, -, hassign⟩ <;>
    cases hcached : (find node caches.assignment).bind (h.findAddress name env) with
    | none => simp only [hwalk, hassign]
    | some addr' =>
      obtain ⟨_, -, hfound⟩ := Option.bind_eq_some_iff.mp hcached
      obtain ⟨_, hwalk'⟩ := findBinding_of_findAddress hfound 0
      rw [hwalk] at hwalk'
      cases hwalk'
      try simp only [hassign]

end Found

/-- Runs from any caches, whatever becomes of them on the way, are the same. -/
theorem NameRun.exec_eq {α : Type} (run : NameRun α) (keep keep' : Caches → Caches) (h : Heap)
    (caches caches' : Caches) : run.exec keep h caches = run.exec keep' h caches' := by
  induction run generalizing h caches caches' with
  | done result => rfl
  | readName node name env next ih =>
    simp only [exec, evalNameWithoutBuiltin_fst]
    exact ih _ h _ _
  | assign node name env value next ih =>
    have hsame := (assignLexicalNameCached_eq h node name env value caches).trans
      (assignLexicalNameCached_eq h node name env value caches').symm
    obtain ⟨hresult, hheap⟩ := Prod.mk.inj hsame
    simp only [exec, hresult, hheap]
    exact ih _ _ _ _
  | other f next ih => exact ih h (f h) caches caches'

/-- With any addresses in the caches, recorded wherever and whenever, a read gives what the
    walk along the frames gives and an assignment does what the walk does, and every run
    has the result and the heap of the run whose caches are always empty. -/
theorem caches_transparent {α : Type} (run : NameRun α) (h : Heap) (caches : Caches) :
    (∀ node name env, (evalNameWithoutBuiltin h node name env caches).1 = h.lookupName env name) ∧
    (∀ node name env value, ((assignLexicalNameCached h node name env value caches).1,
        (assignLexicalNameCached h node name env value caches).2.1) = h.assigned name env value) ∧
    run.exec id h caches = run.exec (fun _ => .empty) h .empty :=
  ⟨fun node name env => evalNameWithoutBuiltin_fst h node name env caches,
    fun node name env value => assignLexicalNameCached_eq h node name env value caches,
    run.exec_eq id _ h caches .empty⟩

/-! ## Builtins behind bindings -/

/-- The nearest binding of a name, with or without a value. -/
def Heap.nearest (h : Heap) (name : String) : Env → Option Value
  | [] => none
  | addr :: parent => (find name (h.frame addr)).or (nearest h name parent)

theorem lookupName_of_nearest {h : Heap} {name : String} {env : Env} {value : Value}
    (hbound : h.nearest name env = some value) :
    h.lookupName env name = checkedSlotValue name value := by
  have hexact : h.resolveExact name env = (checkedSlotValue name value).map some := by
    induction env with
    | nil => exact absurd hbound (by simp [nearest])
    | cons addr parent ih =>
      rw [nearest] at hbound
      rw [resolveExact]
      cases hf : find name (h.frame addr) with
      | none =>
        rw [hf] at hbound
        exact ih hbound
      | some found =>
        rw [hf, Option.some_or, Option.some.injEq] at hbound
        rw [hbound]
  rw [lookupName, hexact]
  cases checkedSlotValue name value <;> rfl

/-- What the lookup found, or the public builtin of the name where it found nothing. -/
def orBuiltin (refuse : EvaluationError → Builtin → Signal) (name : String) :
    Except EvaluationError Value → Except Signal Value
  | .ok value => .ok value
  | .error e =>
    match Builtin.named name with
    | some b => if b.info.metadata.isPublic then .ok (.builtin b) else .error (refuse e b)
    | none => .error (.error e)

/-- The shape of both readings of a name. -/
theorem orBuiltin_run (refuse : EvaluationError → Builtin → Signal) (name : String)
    (found : Except EvaluationError Value) (s : Machine) : (match found with
      | .ok value => pure value
      | .error e =>
        match Builtin.named name with
        | some b => if b.info.metadata.isPublic then pure (.builtin b) else throw (refuse e b)
        | none => throw (.error e) : Eval Value) s = (orBuiltin refuse name found, s) := by
  cases found with
  | ok value => rfl
  | error e =>
    simp only [orBuiltin]
    cases Builtin.named name with
    | none => rfl
    | some b =>
      by_cases hpublic : b.info.metadata.isPublic = true
      · simp only [if_pos hpublic]
        rfl
      · simp only [if_neg hpublic]
        rfl

theorem evalName_eq (env : Env) (name : String) (s : Machine) : evalName env name s =
      (orBuiltin (fun e _ => .error e) name (s.heap.lookupName env name), s) :=
  orBuiltin_run (fun e _ => .error e) name _ s

theorem evalCallee_eq (ev : Evaluate) (ctx : Ctx) (env : Env) (name : String) (s : Machine) :
    evalCallee ev ctx env (.name name false) s =
      (orBuiltin (fun _ b => evalErr ("internal builtin " ++ b.info.name ++
        " is not directly callable")) name (s.heap.lookupName env name), s) :=
  orBuiltin_run (fun _ b => evalErr ("internal builtin " ++ b.info.name ++
    " is not directly callable")) name _ s

/-- The builtin comes in where the binding has no value. -/
theorem orBuiltin_eq_value_iff (refuse : EvaluationError → Builtin → Signal) (name : String)
    (value : Value) :
    (∀ r, orBuiltin refuse name (checkedSlotValue name value) = .ok r → r = value) ↔
      (value = .uninitializedTopLevel →
        ∀ b, Builtin.named name = some b → b.info.metadata.isPublic = false) := by
  by_cases huninit : value = .uninitializedTopLevel
  · subst huninit
    simp only [checkedSlotValue, orBuiltin, true_imp_iff]
    cases Builtin.named name with
    | none => simp
    | some b => cases hpublic : b.info.metadata.isPublic <;> simp [hpublic]
  · have hchecked : checkedSlotValue name value = .ok value := by
      cases value <;> first | rfl | exact absurd rfl huninit
    rw [hchecked]
    simp [orBuiltin, huninit]

end Caap.Kernel
