import LoginServerChat.Amortized
import LoginServerChat.QueueCount

/-!
The retries of `CLockFreeQueue`. A round is lost on a `_head`, a `_tail` or an end of the chain that
another thread has moved on, or spent on moving `_tail` on for another. `_tail` is moved on once for
each node that is linked, so in a whole run the rounds are paid for by the calls.
-/

namespace LoginServerChat.QueueProgress

open LinkedChain LockFreeQueue QueueInv QueueRun QueueCount Runs Amortized

variable {τ α : Type*} [DecidableEq τ] {s s' : Queue τ α} {a : τ × Choice α} {l : List (τ × Choice α)}

/-- A round of the loop of `Enqueue` or `Dequeue` ends with the step, because what it goes by is not
there any more. -/
def lostRound (m : Mem α) : Pc α → Bool
  | .link _ _ b => (m.next b.addr).isSome
  | .help _ _ b _ | .helpDeq b _ => !b.same m.tail
  | .recheck b | .takeHead b _ _ => !b.same m.head
  | _ => false

/-- The step moves `_tail` on. -/
def movesTail (m : Mem α) : Pc α → Bool
  | .help _ _ b _ | .helpDeq b _ | .swing _ _ b => b.same m.tail
  | _ => false

/-- The step links a node. -/
def links (m : Mem α) : Pc α → Bool
  | .link _ _ b => (m.next b.addr).isNone
  | _ => false

/-- The step moves `_head` on. -/
def movesHead (m : Mem α) : Pc α → Bool
  | .takeHead b _ _ => b.same m.head
  | _ => false

/-- How often a step of a run is one that `f` counts. -/
def count (f : Mem α → Pc α → Bool) (s : Queue τ α) (a : τ × Choice α) : ℕ := (f s.mem (s.pc a.1)).toNat

def won (s : Queue τ α) (a : τ × Choice α) : ℕ := count links s a + (count movesTail s a + count movesHead s a)

def isIdle : Pc α → Bool
  | .idle => true
  | _ => false

/-- The call of a thread returns with the step. -/
def returns (s : Queue τ α) (a : τ × Choice α) : ℕ :=
  (!isIdle (s.pc a.1) && (qstep s a).any fun s' => isIdle (s'.pc a.1)).toNat

/-- What a thread has read, and its round depends on, is not there any more. -/
def Stale (m : Mem α) : Pc α → Prop
  | .loadNext _ _ b | .help _ _ b _ | .helpDeq b _ => b.same m.tail = false
  | .link _ _ b => (m.next b.addr).isSome = true
  | .loadHeadNext b | .recheck b | .loadDeqTail b _ | .readData b _ | .takeHead b _ _ => b.same m.head = false
  | .loadTailNext b _ bt => b.same m.head = false ∨ bt.same m.tail = false
  | _ => False

instance (m : Mem α) : (p : Pc α) → Decidable (Stale m p)
  | .loadNext _ _ b | .help _ _ b _ | .helpDeq b _ => instDecidableEqBool (b.same m.tail) false
  | .link _ _ b => instDecidableEqBool (m.next b.addr).isSome true
  | .loadHeadNext b | .recheck b | .loadDeqTail b _ | .readData b _ | .takeHead b _ _ =>
    instDecidableEqBool (b.same m.head) false
  | .loadTailNext b _ bt =>
    @instDecidableOr _ _ (instDecidableEqBool (b.same m.head) false) (instDecidableEqBool (bt.same m.tail) false)
  | .idle | .alloc _ | .decSize | .setData _ _ | .loadHead | .setNext _ _ | .loadTail _ _ | .swing _ _ _ |
    .incSize _ | .undo | .freeHead _ => .isFalse id

/-- The steps left to a call that goes through its loop once; a thread without a call has a whole one
before it. -/
def left : Pc α → ℕ
  | .idle => 9
  | .alloc _ | .decSize => 8
  | .setData _ _ | .loadHead => 7
  | .setNext _ _ | .loadHeadNext _ => 6
  | .loadTail _ _ | .loadDeqTail _ _ | .recheck _ => 5
  | .loadNext _ _ _ | .loadTailNext _ _ _ => 4
  | .link _ _ _ | .help _ _ _ _ | .readData _ _ | .helpDeq _ _ => 3
  | .swing _ _ _ | .takeHead _ _ _ => 2
  | .incSize _ | .undo | .freeHead _ => 1

/-- Twice the node that the call is still to link, and the one it is still to take. -/
def unspent : Pc α → ℕ
  | .swing _ _ _ | .incSize _ | .undo | .freeHead _ => 0
  | _ => 2

/-! ### One step -/

/-- What a step does to the memory and to the point of its thread. -/
lemma qstep_eq (h : qstep s a = some s') : (∃ ev, tstep s.mem (s.pc a.1) a.2 = some (s'.mem, s'.pc a.1, ev)) ∧
    ∀ u ≠ a.1, s'.pc u = s.pc u := by
  obtain ⟨⟨m, p, ev⟩, hr, rfl⟩ := Option.map_eq_some_iff.mp h
  refine ⟨⟨ev, ?_⟩, fun u hu => Function.update_of_ne hu _ _⟩
  rw [hr]
  exact congrArg (fun p => some (m, p, ev)) (Function.update_self a.1 p s.pc).symm

lemma returns_eq (h : qstep s a = some s') :
    returns s a = (!isIdle (s.pc a.1) && isIdle (s'.pc a.1)).toNat := by
  rw [returns, h]
  rfl

/-- A step pays for itself, or its call returns, or it has lost a round, or it has moved something on. -/
lemma left_step (h : qstep s a = some s') : 1 + left (s'.pc a.1) ≤
    left (s.pc a.1) + (9 * returns s a + (6 * count lostRound s a + 5 * won s a)) := by
  obtain ⟨⟨ev, ht⟩, -⟩ := qstep_eq h
  rw [returns_eq h]
  unfold won count
  revert ht
  generalize s'.mem = m', s'.pc a.1 = p', s.pc a.1 = p
  fun_cases tstep s.mem p a.2 <;>
    simp only [Option.some.injEq, Prod.mk.injEq, reduceCtorEq, false_implies, and_imp] <;>
    rintro rfl rfl rfl
  case case11 n x b hb =>
    obtain ⟨y, hy⟩ := Option.ne_none_iff_exists'.mp hb
    simp [left, isIdle, lostRound, links, movesTail, movesHead, hy]
  case case12 n x b y => cases hb : b.same s.mem.tail <;> simp [left, isIdle, lostRound, links, movesTail, movesHead, hb]
  case case26 b y => cases hb : b.same s.mem.tail <;> simp [left, isIdle, lostRound, links, movesTail, movesHead, hb]
  all_goals simp_all [left, isIdle, lostRound, links, movesTail, movesHead]

/-- A call links one node, or takes one. -/
lemma unspent_step (h : qstep s a = some s') :
    2 * count links s a + count movesHead s a + unspent (s'.pc a.1) ≤
      unspent (s.pc a.1) + 2 * returns s a := by
  obtain ⟨⟨ev, ht⟩, -⟩ := qstep_eq h
  rw [returns_eq h]
  unfold count
  revert ht
  generalize s'.mem = m', s'.pc a.1 = p', s.pc a.1 = p
  fun_cases tstep s.mem p a.2 <;>
    simp only [Option.some.injEq, Prod.mk.injEq, reduceCtorEq, false_implies, and_imp] <;>
    rintro rfl rfl rfl
  case case11 n x b hb =>
    obtain ⟨y, hy⟩ := Option.ne_none_iff_exists'.mp hb
    simp [unspent, isIdle, links, movesHead, hy]
  all_goals simp_all [unspent, isIdle, links, movesHead]

omit [DecidableEq τ] in
lemma stale_congr {m m' : Mem α} (h1 : m'.head = m.head) (h2 : m'.tail = m.tail)
    (h3 : ∀ x, (m'.next x).isSome = true → (m.next x).isSome = true) (p : Pc α) : Stale m' p → Stale m p := by
  cases p <;> simp only [Stale, h1, h2, imp_self]
  exact h3 _

omit [DecidableEq τ] in
lemma cas_differs {p b : Ptr} (q : Ptr) (h : b.same p = false) : cas p b q = p :=
  if_neg (Bool.eq_false_iff.mp h)

omit [DecidableEq τ] in
/-- A step moves something on, and the thread has nothing stale then; or it leaves both pointers and the
nodes that are linked, makes nothing stale, and loses a round only on a stale reading. -/
lemma stale_step {m' : Mem α} {p' : Pc α} {ev} (ht : tstep s.mem (s.pc a.1) a.2 = some (m', p', ev)) :
    (count lostRound s a = 0 ∧ 0 < won s a ∧ ¬Stale m' p') ∨
    ((m'.head = s.mem.head ∧ m'.tail = s.mem.tail ∧
        ∀ x, (m'.next x).isSome = true → (s.mem.next x).isSome = true) ∧
      (Stale m' p' → Stale s.mem (s.pc a.1)) ∧
      (count lostRound s a = 0 ∨ count lostRound s a = 1 ∧ Stale s.mem (s.pc a.1) ∧ ¬Stale m' p')) := by
  unfold won count
  revert ht
  generalize s.pc a.1 = p
  fun_cases tstep s.mem p a.2 <;>
    simp only [Option.some.injEq, Prod.mk.injEq, reduceCtorEq, false_implies, and_imp] <;>
    rintro rfl rfl rfl
  case case6 n x =>
    refine .inr ⟨⟨rfl, rfl, fun y hy => ?_⟩, id, .inl rfl⟩
    change (Function.update s.mem.next n none y).isSome = true at hy
    by_cases hyn : y = n
    · simp [hyn] at hy
    · rwa [Function.update_of_ne hyn] at hy
  case case12 n x b y =>
    cases hb : b.same s.mem.tail
    · exact .inr ⟨⟨rfl, cas_differs _ hb, fun _ h => h⟩, fun h => hb, .inr ⟨by simp [lostRound, hb], hb, id⟩⟩
    · exact .inl ⟨by simp [lostRound, hb], by simp [links, movesTail, hb], id⟩
  case case13 n x b =>
    cases hb : b.same s.mem.tail
    · exact .inr ⟨⟨rfl, cas_differs _ hb, fun _ h => h⟩, id, .inl rfl⟩
    · exact .inl ⟨rfl, by simp [links, movesTail, hb], id⟩
  case case26 b y =>
    cases hb : b.same s.mem.tail
    · exact .inr ⟨⟨rfl, cas_differs _ hb, fun _ h => h⟩, fun h => hb, .inr ⟨by simp [lostRound, hb], hb, id⟩⟩
    · exact .inl ⟨by simp [lostRound, hb], by simp [links, movesTail, hb], id⟩
  case case10 n x b hb => exact .inl ⟨by simp [lostRound, hb], by simp [links, hb], id⟩
  case case11 n x b hb =>
    obtain ⟨y, hy⟩ := Option.ne_none_iff_exists'.mp hb
    exact .inr ⟨⟨rfl, rfl, fun _ h => h⟩, False.elim, .inr ⟨by simp [lostRound, hy], by simp [Stale, hy], id⟩⟩
  case case28 b y x hb => exact .inl ⟨by simp [lostRound, hb], by simp [links, movesTail, movesHead, hb], id⟩
  all_goals
    refine .inr ⟨⟨rfl, rfl, fun _ h => h⟩, ?_, ?_⟩ <;> simp_all [Stale, lostRound, same_self]

lemma contended {ok} (s₀ : Queue τ α) : Contended qstep ok s₀ Prod.fst
    (fun s u => Stale s.mem (s.pc u)) (count lostRound) won := by
  refine ⟨fun s s' a _ _ h => ?_⟩
  obtain ⟨⟨ev, ht⟩, hpc⟩ := qstep_eq h
  rcases stale_step ht with hwon | ⟨⟨h1, h2, h3⟩, hown, hlost⟩
  · exact .inl hwon
  · refine .inr ⟨fun u hu => ?_, hlost⟩
    rcases eq_or_ne u a.1 with rfl | hne
    · exact hown hu
    · rw [hpc u hne] at hu
      exact stale_congr h1 h2 h3 _ hu

/-! ### The nodes behind `_tail` -/

section Lag

variable [Fintype τ] {c e d : List ℕ}

variable {d₀ : ℕ} {next : ℕ → Option ℕ} {data : ℕ → Item α}

end Lag

end LoginServerChat.QueueProgress
