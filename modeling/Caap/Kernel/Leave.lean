/-
  Caap.Kernel.Leave

  Which activation of a block a `leave` ends.

  The signal of a `leave` carries the node id of its block, and the first block with this id
  that it meets on its way out catches it.  While a leave stands in the same function body
  as its block, that is the activation around it (`leave_ends_own_activation`): no leave
  comes out of a function body.  A leave that is called through a closure can meet another
  activation of the block first (`leave_ends_inner_activation`).
-/

import Caap.Kernel.Limits

namespace Caap.Kernel

open Lib

theorem find_append_of_isSome {κ α : Type} [DecidableEq κ] {key : κ} {entries : List (κ × α)}
    (h : (find key entries).isSome = true) (more : List (κ × α)) :
    find key (entries ++ more) = find key entries := by
  induction entries with
  | nil => exact nomatch h
  | cons entry rest ih =>
    obtain ⟨k, a⟩ := entry
    by_cases hk : k = key
    · simp [find, hk]
    · simp only [find, if_neg hk] at h
      simp only [List.cons_append, find, if_neg hk, ih h]

/-- The evaluation of a leave whose block is not in the same function body. -/
def Event.crossesBody : Event → Bool
  | .leaving _ own => !own
  | _ => false

/-- The evaluation of a leave. -/
def Event.isLeaving : Event → Bool
  | .leaving _ _ => true
  | _ => false

/-- The end of an activation by a leave. -/
def Event.isLeft : Event → Bool
  | .left _ _ => true
  | _ => false

/-- The pending leaves are those that were evaluated and ended nothing. -/
theorem sum_weight (log : List Event) :
    (log.map Event.weight).sum + log.countP Event.isLeft = log.countP Event.isLeaving := by
  induction log with
  | nil => rfl
  | cons event rest ih =>
    rw [List.map_cons, List.sum_cons, List.countP_cons, List.countP_cons]
    cases event <;> simp only [Event.weight, Event.isLeft, Event.isLeaving, if_true] <;>
      push_cast <;> simp <;> omega

theorem onItsWay_of_no_leave {α : Type} {result : Except Signal α}
    (h : ∀ target value intended, result ≠ .error (.leave target value intended)) :
    onItsWay result = 0 := by
  cases result with
  | ok a => rfl
  | error e =>
    cases e with
    | leave target value intended => exact absurd rfl (h target value intended)
    | error _ | exception _ | tailCall _ _ | outOfFuel => rfl

/-- Every activation that was left is the one the leave belongs to. -/
def LeavesOwn (s : Machine) : Prop :=
  ∀ intended activation, .left intended activation ∈ s.log → intended = some activation

theorem LeavesOwn.note {s : Machine} {event : Event} (h : LeavesOwn s)
    (hevent : ∀ intended activation, event = .left intended activation → intended = some activation) :
    LeavesOwn (s.note event) := by
  intro intended activation hmem
  rcases List.mem_cons.mp hmem with heq | hmem
  · exact hevent intended activation heq.symm
  · exact h intended activation hmem

theorem LeavesOwn.congr {s s' : Machine} (hlog : s'.log = s.log) (h : LeavesOwn s) :
    LeavesOwn s' := by
  intro intended activation hmem
  rw [hlog] at hmem
  exact h intended activation hmem

/-- The discipline of leaves: a leave that comes out of an expression belongs to the innermost
    block of the same body with its id. -/
def leaveDiscipline : Discipline where
  base := ⟨[], [], [], []⟩
  bad event := event.crossesBody = true
  Ok _ := True
  Inv := LeavesOwn
  Leaves ctx target intended := intended.isSome = true ∧ intended = find target ctx.blocks
  inv_congr _ hlog _ h := h.congr hlog
  ok_deeper h := h
  ok_body _ h := h
  ok_block _ _ h := h
  ok_graph _ _ h := h
  ok_scope _ h := h
  leaves_deeper h := h
  leaves_graph h := h
  leaves_scope h := h
  leaves_body h := by
    obtain ⟨hsome, heq⟩ := h
    rw [heq] at hsome
    exact nomatch hsome
  leaves_block {ctx id activation t _} h hne := by
    have hfind : find t ((id, activation) :: ctx.blocks) = find t ctx.blocks := by
      rw [find, if_neg (Ne.symm hne)]
    exact ⟨h.1, h.2.trans hfind⟩
  leaves_own {ctx t} hgood := by
    have hsome : (find t ctx.blocks).isSome = true := by
      by_contra hnone
      rw [Bool.not_eq_true] at hnone
      exact hgood (by rw [hnone]; rfl)
    rw [find_append_of_isSome hsome]
    exact ⟨hsome, rfl⟩
  inv_left {ctx id activation _ _} hleaves h := by
    have hown : find id ((id, activation) :: ctx.blocks) = some activation := by
      rw [find, if_pos rfl]
    refine h.note fun intended other heq => ?_
    obtain ⟨rfl, rfl⟩ := Event.left.inj heq
    exact hleaves.2.trans hown
  inv_extends {s h} _ hi := LeavesOwn.congr (s := s) rfl hi
  inv_frame {s _ _} _ _ hi := LeavesOwn.congr (s := s) rfl hi
  inv_map {s _ _} _ hi := LeavesOwn.congr (s := s) rfl hi
  inv_write {_ s _} _ _ _ hi := LeavesOwn.congr (s := s) rfl hi
  inv_silent {_ event} hsilent _ h := by
    refine h.note fun intended activation heq => ?_
    rw [heq] at hsilent
    exact absurd hsilent id
  inv_handled _ _ h := h.note fun _ _ heq => nomatch heq
  inv_spend {s} _ hi := LeavesOwn.congr (s := s) rfl hi
  inv_enter {_ s} _ _ _ hi := LeavesOwn.note (s := s.spend) hi fun _ _ heq => nomatch heq
  inv_budget {s _} _ hi := LeavesOwn.congr (s := s) rfl hi
  fresh_frame _ h := nomatch h

/-- In every run in which each leave that is evaluated stands in the same function body as its
    block, each of them ends an activation, what it ends is the activation it belongs to, and
    no leave goes past it. -/
theorem leave_ends_own_activation (host : Host) (fuel : Nat) (ctx : Ctx) (program : Program)
    (s s' : Machine) (result : Except Signal Value) (hblocks : ctx.blocks = []) (hlog : s.log = [])
    (hrun : program.run host fuel ctx s = (result, s'))
    (hbody : ∀ event ∈ s'.log, event.crossesBody = false) :
    s'.log.countP Event.isLeaving = s'.log.countP Event.isLeft ∧
      (∀ intended activation, .left intended activation ∈ s'.log → intended = some activation) ∧
      ∀ target value intended, result ≠ .error (.leave target value intended) := by
  have hkept := program.run_holds leaveDiscipline host fuel ctx s
    ⟨Nat.zero_le _, Nat.zero_le _, Nat.zero_le _, Nat.zero_le _⟩
  rw [hrun] at hkept
  have hgood : ¬leaveDiscipline.Bad s' := by
    rintro ⟨event, hmem, hcrosses⟩
    exact Bool.false_ne_true ((hbody event hmem).symm.trans hcrosses)
  have hstart : LeavesOwn s := by
    intro intended activation hmem
    rw [hlog] at hmem
    exact absurd hmem List.not_mem_nil
  have hcaught : ∀ target value intended, result ≠ .error (.leave target value intended) := by
    intro target value intended heq
    obtain ⟨hsome, hfind⟩ := hkept.leaves hgood trivial hstart target value intended heq
    rw [hblocks] at hfind
    rw [hfind] at hsome
    exact nomatch hsome
  have hpending : s'.pending = 0 := by
    have hbalance : s'.pending = s.pending + onItsWay result := hkept.balance
    rw [hbalance, onItsWay_of_no_leave hcaught]
    simp [Machine.pending, hlog]
  have hcount := sum_weight s'.log
  rw [← Machine.pending, hpending] at hcount
  exact ⟨by omega, hkept.inv hgood trivial hstart, hcaught⟩

/-- `(block (leave 7 5))`, where the block is node 7. -/
def leaveAtOnce : Program :=
  .forms [.call 7 (.name "block" false)
    [.call 8 (.name "leave" false) [.literal (.int 7), .literal (.int 5)]]] [0]

theorem leave_ends_own_activation_atOnce :
    .left (some 0) 0 ∈ (leaveAtOnce.run .bare 9 (.top 9) .start).2.log ∧ ∀ intended activation,
        .left intended activation ∈ (leaveAtOnce.run .bare 9 (.top 9) .start).2.log →
          intended = some activation :=
  ⟨by decide,
    (leave_ends_own_activation .bare 9 (.top 9) leaveAtOnce .start _ _ rfl rfl rfl
      (by decide)).2.1⟩

/-- `(bind "f" (lambda (k n) (block (if n (do (f (lambda (v) (leave 7 v)) 0) 7) (k 5)))) (f null 1))`,
    where the block is node 7. -/
def leaveThroughClosure : Program :=
  .forms [.call 0 (.name "bind" false) [.literal (.str "f"),
    .call 1 (.name "lambda" false) [.literal (.tuple [.str "k", .str "n"]),
      .call 7 (.name "block" false) [.call 2 (.name "if" false) [.name "n" false,
        .call 3 (.name "do" false) [.call 4 (.name "f" false)
            [.call 5 (.name "lambda" false) [.literal (.tuple [.str "v"]),
              .call 6 (.name "leave" false) [.literal (.int 7), .name "v" false]],
            .literal (.int 0)],
          .literal (.int 7)],
        .call 8 (.name "k" false) [.literal (.int 5)]]]],
    .call 9 (.name "f" false) [.literal .null, .literal (.int 1)]]] [0]

/-- The leave belongs to the activation 0 of the block and ends the activation 1; the run goes
    on in the activation 0 and returns 7, not 5. -/
theorem leave_ends_inner_activation :
    let final := leaveThroughClosure.run .bare 30 (.top 100) .start
    .left (some 0) 1 ∈ final.2.log ∧ returnsInt 7 final.1 = true := by
  decide +kernel

end Caap.Kernel
