import Mathlib.Tactic

/-!
A family of last-in first-out stacks that threads push to and pop from. The log has the moments at
which a value comes onto a stack and leaves it, the returns of removals with a value, and the returns
of those that found nothing.
-/

namespace LoginServerChat.LifoHistory

variable {τ ι β : Type*}

inductive Event (τ ι β : Type*)
  | push (t : τ) (i : ι) (x : β)
  | pop (t : τ) (i : ι) (x : β)
  | ret (t : τ) (i : ι) (x : β)
  | miss (t : τ) (i : ι)
  deriving DecidableEq

/-- The event changes stack `i`. -/
def Event.Touches (i : ι) : Event τ ι β → Prop
  | .push _ j _ | .pop _ j _ => j = i
  | _ => False

/-- The log is a run of a sequential stack `i`, which holds `l` at its end. -/
inductive Lifo (i : ι) : List (Event τ ι β) → List β → Prop
  | nil : Lifo i [] []
  | push {log l} (t : τ) (x : β) (h : Lifo i log l) : Lifo i (log ++ [.push t i x]) (x :: l)
  | pop {log l x} (t : τ) (h : Lifo i log (x :: l)) : Lifo i (log ++ [.pop t i x]) l
  | other {log l e} (he : ¬ Event.Touches i e) (h : Lifo i log l) : Lifo i (log ++ [e]) l

/-- The values pushed to stack `i`. -/
def pushes [DecidableEq ι] (i : ι) (log : List (Event τ ι β)) : List β :=
  log.filterMap fun e => match e with
    | .push _ j x => if j = i then some x else none
    | _ => none

/-- The values popped from it. -/
def pops [DecidableEq ι] (i : ι) (log : List (Event τ ι β)) : List β :=
  log.filterMap fun e => match e with
    | .pop _ j x => if j = i then some x else none
    | _ => none

/-- What a thread has popped, and from where. -/
def popped [DecidableEq τ] (t : τ) (log : List (Event τ ι β)) : List (ι × β) :=
  log.filterMap fun e => match e with
    | .pop u i x => if u = t then some (i, x) else none
    | _ => none

/-- What its removals have returned. -/
def returned [DecidableEq τ] (t : τ) (log : List (Event τ ι β)) : List (ι × β) :=
  log.filterMap fun e => match e with
    | .ret u i x => if u = t then some (i, x) else none
    | _ => none

lemma pushes_append [DecidableEq ι] (i : ι) (l l' : List (Event τ ι β)) :
    pushes i (l ++ l') = pushes i l ++ pushes i l' := List.filterMap_append

lemma pops_append [DecidableEq ι] (i : ι) (l l' : List (Event τ ι β)) :
    pops i (l ++ l') = pops i l ++ pops i l' := List.filterMap_append

lemma popped_append [DecidableEq τ] (t : τ) (l l' : List (Event τ ι β)) :
    popped t (l ++ l') = popped t l ++ popped t l' := List.filterMap_append

lemma returned_append [DecidableEq τ] (t : τ) (l l' : List (Event τ ι β)) :
    returned t (l ++ l') = returned t l ++ returned t l' := List.filterMap_append

/-- An event of another stack, or of none, adds nothing. -/
lemma untouched [DecidableEq ι] {i : ι} {e : Event τ ι β} (he : ¬ Event.Touches i e) :
    pushes i [e] = [] ∧ pops i [e] = [] := by
  cases e with
  | push t j x => exact ⟨by simp [pushes, show ¬ j = i from he], rfl⟩
  | pop t j x => exact ⟨rfl, by simp [pops, show ¬ j = i from he]⟩
  | ret t j x => exact ⟨rfl, rfl⟩
  | miss t j => exact ⟨rfl, rfl⟩

/-- **Nothing is lost or popped twice.** What has been pushed has been popped or is on the stack, as
often as it was pushed. -/
theorem Lifo.perm [DecidableEq ι] {i : ι} {log : List (Event τ ι β)} {l : List β} (h : Lifo i log l) :
    (pushes i log).Perm (pops i log ++ l) := by
  induction h with
  | nil => exact List.Perm.refl _
  | @push log l t x _ ih =>
    have h1 : pushes i [Event.push t i x] = [x] := by simp [pushes]
    have h2 : pops i [Event.push t i x] = [] := rfl
    rw [pushes_append, pops_append, h1, h2, List.append_nil]
    exact (List.perm_append_singleton _ _).trans ((ih.cons x).trans List.perm_middle.symm)
  | @pop log l x t _ ih =>
    have h1 : pushes i [Event.pop t i x] = [] := rfl
    have h2 : pops i [Event.pop t i x] = [x] := by simp [pops]
    rw [pushes_append, pops_append, h1, h2, List.append_nil, List.append_assoc]
    exact ih
  | other he _ ih =>
    obtain ⟨h1, h2⟩ := untouched he
    rw [pushes_append, pops_append, h1, h2, List.append_nil, List.append_nil]
    exact ih

end LoginServerChat.LifoHistory
