import LoginServerChat.Runs

/-!
A first-in first-out queue whose operations take time: an item is put into the queue at some
point between the call and the return of its insertion, and leaves it at some point of a removal.
The log has the calls and returns of insertions, the removals, and the removals that found
nothing.

An item whose insertion has returned before another's was called is removed first.
-/

namespace LoginServerChat.FifoHistory

variable {τ ι : Type*}

inductive Event (ι : Type*)
  | call (x : ι)
  | ret (x : ι)
  | take (x : ι)
  | miss
  deriving DecidableEq

/-- The items being put in, those that are in while their insertion has not returned, by thread,
the items in the queue, and the log. -/
structure Hist (τ ι : Type*) where
  waiting : τ → Option ι
  placed : τ → Option ι
  contents : List ι
  log : List (Event ι)

def Hist.empty : Hist τ ι := ⟨fun _ => none, fun _ => none, [], []⟩

variable [DecidableEq τ]

inductive Step (h : Hist τ ι) : Hist τ ι → Prop
  | call (t : τ) (x : ι) (hx : .call x ∉ h.log) : Step h
      { h with waiting := Function.update h.waiting t (some x), log := h.log ++ [.call x] }
  | put (t : τ) (x : ι) (hx : h.waiting t = some x) (hp : h.placed t = none) : Step h
      { h with
        waiting := Function.update h.waiting t none
        placed := Function.update h.placed t (some x)
        contents := h.contents ++ [x] }
  | ret (t : τ) (x : ι) (hx : h.placed t = some x) : Step h
      { h with placed := Function.update h.placed t none, log := h.log ++ [.ret x] }
  | take (x : ι) (rest : List ι) (hx : h.contents = x :: rest) : Step h
      { h with contents := rest, log := h.log ++ [.take x] }
  | miss : Step h { h with log := h.log ++ [.miss] }

def Run (h : Hist τ ι) : Prop := Relation.ReflTransGen Step Hist.empty h

/-- The items removed. -/
def takes (log : List (Event ι)) : List ι :=
  log.filterMap fun e => match e with
    | .take x => some x
    | _ => none

/-- The items whose insertion has returned. -/
def rets (log : List (Event ι)) : List ι :=
  log.filterMap fun e => match e with
    | .ret x => some x
    | _ => none

lemma takes_append (l l' : List (Event ι)) : takes (l ++ l') = takes l ++ takes l' :=
  List.filterMap_append

lemma rets_append (l l' : List (Event ι)) : rets (l ++ l') = rets l ++ rets l' :=
  List.filterMap_append

lemma mem_takes {l : List (Event ι)} {x : ι} : x ∈ takes l ↔ .take x ∈ l := by
  unfold takes
  rw [List.mem_filterMap]
  constructor
  · rintro ⟨e, he, hx⟩
    cases e <;> simp at hx
    exact hx ▸ he
  · exact fun h => ⟨_, h, rfl⟩

lemma mem_rets {l : List (Event ι)} {x : ι} : x ∈ rets l ↔ .ret x ∈ l := by
  unfold rets
  rw [List.mem_filterMap]
  constructor
  · rintro ⟨e, he, hx⟩
    cases e <;> simp at hx
    exact hx ▸ he
  · exact fun h => ⟨_, h, rfl⟩

/-- The order of the removals is the order in the log. -/
lemma sublist_takes {l : List (Event ι)} {xs : List ι} (h : xs.Sublist (takes l)) :
    (xs.map Event.take).Sublist l := by
  refine (h.map _).trans ?_
  clear h
  induction l with
  | nil => exact List.Sublist.refl _
  | cons e l ih =>
    cases e
    case take x => exact ih.cons_cons _
    all_goals exact ih.cons _

/-! ### Order -/

/-- Everything that was ever put in, in order. -/
def Hist.entered (h : Hist τ ι) : List ι := takes h.log ++ h.contents

/-- A sublist of two ends with the last element or is there without it. -/
lemma pair_sublist_snoc {α : Type*} {l : List α} {a b c : α} :
    [a, b].Sublist (l ++ [c]) ↔ [a, b].Sublist l ∨ a ∈ l ∧ b = c := by
  rw [List.sublist_append_iff]
  constructor
  · rintro ⟨l₁, l₂, he, h₁, h₂⟩
    rcases l₂ with _ | ⟨d, l₂⟩
    · left
      rw [he, List.append_nil]
      exact h₁
    · obtain rfl : l₂ = [] := by
        have := h₂.length_le
        simp only [List.length_cons, List.length_nil] at this
        exact List.length_eq_zero_iff.mp (by omega)
      obtain rfl := List.mem_singleton.mp (h₂.subset List.mem_cons_self)
      obtain ⟨ha, hb⟩ := List.append_inj' (show [a] ++ [b] = l₁ ++ [d] from he) rfl
      exact .inr ⟨h₁.subset (ha ▸ List.mem_singleton_self a), List.singleton_inj.mp hb⟩
  · rintro (h | ⟨ha, rfl⟩)
    · exact ⟨[a, b], [], by simp, h, List.nil_sublist _⟩
    · exact ⟨[a], [b], rfl, List.singleton_sublist.mpr ha, List.Sublist.refl _⟩

/-- What every run keeps. -/
structure Ordered (h : Hist τ ι) : Prop where
  waiting : ∀ t x, h.waiting t = some x → .call x ∈ h.log ∧ x ∉ h.entered
  apart : ∀ t u x, h.waiting t = some x → h.waiting u = some x → t = u
  placed : ∀ t x, h.placed t = some x → x ∈ h.entered
  ret : ∀ x, .ret x ∈ h.log → x ∈ h.entered
  called : ∀ x ∈ h.entered, .call x ∈ h.log
  nodup : h.entered.Nodup
  /-- Who is called after another has returned comes after it. -/
  order : ∀ a b, [Event.ret a, Event.call b].Sublist h.log → b ∈ h.entered →
    [a, b].Sublist h.entered

variable {h h' : Hist τ ι}

omit [DecidableEq τ] in
lemma ordered_empty : Ordered (Hist.empty : Hist τ ι) :=
  ⟨nofun, nofun, nofun, nofun, nofun, List.nodup_nil, fun _ _ _ hb => absurd hb List.not_mem_nil⟩

lemma ordered_call {t : τ} {x : ι} (ho : Ordered h) (hx : .call x ∉ h.log)
    (hw : h'.waiting = Function.update h.waiting t (some x)) (hp : h'.placed = h.placed)
    (he : h'.entered = h.entered) (hl : h'.log = h.log ++ [.call x]) : Ordered h' := by
  have hnew : x ∉ h.entered := fun hm => hx (ho.called x hm)
  have hself : h'.waiting t = some x := by rw [hw, Function.update_self]
  have hold : ∀ u y, h'.waiting u = some y → u ≠ t → h.waiting u = some y ∧ y ≠ x := by
    intro u y hu hut
    rw [hw, Function.update_of_ne hut] at hu
    refine ⟨hu, ?_⟩
    rintro rfl
    exact hx (ho.waiting u y hu).1
  refine ⟨fun u y hu => ?_, fun u v y hu hv => ?_, ?_, fun y hy => ?_, fun y hy => ?_, he ▸ ho.nodup,
    fun a b hab hb => ?_⟩
  · rw [he, hl, List.mem_append]
    by_cases hut : u = t
    · obtain rfl : x = y := Option.some.inj (hself.symm.trans (hut ▸ hu))
      exact ⟨.inr (List.mem_singleton_self _), hnew⟩
    · obtain ⟨hu, -⟩ := hold u y hu hut
      exact ⟨.inl (ho.waiting u y hu).1, (ho.waiting u y hu).2⟩
  · by_cases hut : u = t <;> by_cases hvt : v = t
    · rw [hut, hvt]
    · obtain rfl : x = y := Option.some.inj (hself.symm.trans (hut ▸ hu))
      exact absurd rfl (hold v x hv hvt).2
    · obtain rfl : x = y := Option.some.inj (hself.symm.trans (hvt ▸ hv))
      exact absurd rfl (hold u x hu hut).2
    · exact ho.apart u v y (hold u y hu hut).1 (hold v y hv hvt).1
  · rw [hp, he]
    exact ho.placed
  · rw [he]
    rw [hl, List.mem_append] at hy
    rcases hy with hy | hy
    · exact ho.ret y hy
    · simp at hy
  · rw [he] at hy
    rw [hl]
    exact List.mem_append_left _ (ho.called y hy)
  · rw [he] at hb ⊢
    rw [hl] at hab
    rcases pair_sublist_snoc.mp hab with hab | ⟨-, hbx⟩
    · exact ho.order a b hab hb
    · obtain rfl := Event.call.inj hbx
      exact absurd hb hnew

lemma ordered_put {t : τ} {x : ι} (ho : Ordered h) (hx : h.waiting t = some x)
    (hw : h'.waiting = Function.update h.waiting t none)
    (hp : h'.placed = Function.update h.placed t (some x))
    (he : h'.entered = h.entered ++ [x]) (hl : h'.log = h.log) : Ordered h' := by
  obtain ⟨hcall, hnew⟩ := ho.waiting t x hx
  have hmem : ∀ y, y ∈ h'.entered ↔ y ∈ h.entered ∨ y = x := by simp [he]
  have hold : ∀ u y, h'.waiting u = some y → u ≠ t ∧ h.waiting u = some y := by
    intro u y hu
    rw [hw] at hu
    by_cases hut : u = t
    · subst hut
      rw [Function.update_self] at hu
      exact absurd hu.symm (Option.some_ne_none y)
    · rw [Function.update_of_ne hut] at hu
      exact ⟨hut, hu⟩
  refine ⟨fun u y hu => ?_, fun u v y hu hv => ?_, fun u y hu => ?_, fun y hy => ?_, fun y hy => ?_, ?_,
    fun a b hab hb => ?_⟩
  · obtain ⟨hut, hu⟩ := hold u y hu
    rw [hl, hmem]
    refine ⟨(ho.waiting u y hu).1, ?_⟩
    rintro (hy | rfl)
    · exact (ho.waiting u y hu).2 hy
    · exact hut (ho.apart u t y hu hx)
  · exact ho.apart u v y (hold u y hu).2 (hold v y hv).2
  · rw [hmem]
    rw [hp] at hu
    by_cases hut : u = t
    · subst hut
      rw [Function.update_self, Option.some.injEq] at hu
      exact .inr hu.symm
    · rw [Function.update_of_ne hut] at hu
      exact .inl (ho.placed u y hu)
  · rw [hl] at hy
    exact (hmem y).mpr (.inl (ho.ret y hy))
  · rw [hl]
    rcases (hmem y).mp hy with hy | rfl
    · exact ho.called y hy
    · exact hcall
  · rw [he]
    refine List.nodup_append.mpr ⟨ho.nodup, List.nodup_singleton x, fun a ha b hb => ?_⟩
    rintro rfl
    exact hnew (List.mem_singleton.mp hb ▸ ha)
  · rw [hl] at hab
    rw [he]
    rcases (hmem b).mp hb with hb | rfl
    · exact pair_sublist_snoc.mpr (.inl (ho.order a b hab hb))
    · exact pair_sublist_snoc.mpr (.inr ⟨ho.ret a (hab.subset List.mem_cons_self), rfl⟩)

omit [DecidableEq τ] in
/-- An event that calls nothing and leaves what has entered as it is. -/
lemma ordered_log {e : Event ι} (ho : Ordered h) (hw : h'.waiting = h.waiting)
    (hp : ∀ t x, h'.placed t = some x → h.placed t = some x) (hl : h'.log = h.log ++ [e])
    (he : h'.entered = h.entered) (hc : ∀ x, e ≠ .call x) (hr : ∀ x, e = .ret x → x ∈ h.entered) :
    Ordered h' := by
  have hlog : ∀ x, .call x ∈ h.log → .call x ∈ h'.log := fun x hx => hl ▸ List.mem_append_left _ hx
  refine ⟨fun t x hx => ?_, ?_, fun t x hx => ?_, fun x hx => ?_, fun x hx => ?_, he ▸ ho.nodup,
    fun a b hab hb => ?_⟩
  · rw [hw] at hx
    rw [he]
    exact ⟨hlog x (ho.waiting t x hx).1, (ho.waiting t x hx).2⟩
  · rw [hw]
    exact ho.apart
  · rw [he]
    exact ho.placed t x (hp t x hx)
  · rw [he]
    rw [hl, List.mem_append] at hx
    rcases hx with hx | hx
    · exact ho.ret x hx
    · exact hr x (List.mem_singleton.mp hx).symm
  · rw [he] at hx
    exact hlog x (ho.called x hx)
  · rw [he] at hb ⊢
    rw [hl] at hab
    rcases pair_sublist_snoc.mp hab with hab | ⟨-, hbe⟩
    · exact ho.order a b hab hb
    · exact absurd hbe.symm (hc b)

/-- **A step of the queue.** -/
lemma step_ordered (ho : Ordered h) (hs : Step h h') : Ordered h' := by
  have hquiet : ∀ (e : Event ι), takes [e] = [] → takes (h.log ++ [e]) ++ h.contents = h.entered := by
    intro e he
    rw [takes_append, he, List.append_nil]
    rfl
  cases hs with
  | call t x hx => exact ordered_call ho hx rfl rfl (hquiet _ rfl) rfl
  | put t x hx _ => exact ordered_put ho hx rfl rfl (List.append_assoc _ _ _).symm rfl
  | ret t x hx =>
    refine ordered_log (e := .ret x) ho rfl (fun u y hu => ?_) rfl (hquiet _ rfl) nofun fun y hy => ?_
    · by_cases hut : u = t
      · subst hut
        simp at hu
      · simpa [hut] using hu
    · obtain rfl := Event.ret.inj hy
      exact ho.placed t x hx
  | take x rest hx =>
    refine ordered_log (e := .take x) ho rfl (fun _ _ h => h) rfl ?_ nofun nofun
    simp only [Hist.entered, takes_append, hx]
    exact List.append_assoc _ _ _
  | miss => exact ordered_log (e := .miss) ho rfl (fun _ _ h => h) rfl (hquiet _ rfl) nofun nofun

lemma run_ordered (hr : Run h) : Ordered h := by
  induction hr with
  | refl => exact ordered_empty
  | tail _ hs ih => exact step_ordered ih hs

/-- What is in while its insertion has not returned has one insertion, and that has not returned. -/
structure Open (h : Hist τ ι) : Prop where
  ret : ∀ t x, h.placed t = some x → .ret x ∉ h.log
  apart : ∀ t u x, h.placed t = some x → h.placed u = some x → t = u

lemma step_open (ho : Ordered h) (hp : Open h) (hs : Step h h') : Open h' := by
  have hlog : ∀ e : Event ι, (∀ x, e ≠ .ret x) → ∀ t x, h.placed t = some x → .ret x ∉ h.log ++ [e] := by
    intro e he t x hx hm
    rcases List.mem_append.mp hm with hm | hm
    · exact hp.ret t x hx hm
    · exact he x (List.mem_singleton.mp hm).symm
  cases hs with
  | call t x => exact ⟨hlog _ nofun, hp.apart⟩
  | take x rest => exact ⟨hlog _ nofun, hp.apart⟩
  | miss => exact ⟨hlog _ nofun, hp.apart⟩
  | put t x hx =>
    obtain ⟨-, hnew⟩ := ho.waiting t x hx
    have hold : ∀ u y, Function.update h.placed t (some x) u = some y → u = t ∧ y = x ∨ u ≠ t ∧ h.placed u = some y := by
      intro u y hu
      by_cases hut : u = t
      · rw [hut, Function.update_self] at hu
        exact .inl ⟨hut, (Option.some.inj hu).symm⟩
      · rw [Function.update_of_ne hut] at hu
        exact .inr ⟨hut, hu⟩
    refine ⟨fun u y hu hm => ?_, fun u v y hu hv => ?_⟩
    · rcases hold u y hu with ⟨-, rfl⟩ | ⟨-, hu⟩
      · exact hnew (ho.ret y hm)
      · exact hp.ret u y hu hm
    · rcases hold u y hu with ⟨hut, hyx⟩ | ⟨-, hu'⟩ <;> rcases hold v y hv with ⟨hvt, hyx'⟩ | ⟨-, hv'⟩
      · rw [hut, hvt]
      · exact absurd (hyx ▸ ho.placed v y hv') hnew
      · exact absurd (hyx' ▸ ho.placed u y hu') hnew
      · exact hp.apart u v y hu' hv'
  | ret t x hx =>
    have hold : ∀ u y, Function.update h.placed t none u = some y → u ≠ t ∧ h.placed u = some y := by
      intro u y hu
      by_cases hut : u = t
      · rw [hut, Function.update_self] at hu
        exact nomatch hu
      · rw [Function.update_of_ne hut] at hu
        exact ⟨hut, hu⟩
    refine ⟨fun u y hu hm => ?_, fun u v y hu hv => hp.apart u v y (hold u y hu).2 (hold v y hv).2⟩
    obtain ⟨hut, hu'⟩ := hold u y hu
    rcases List.mem_append.mp hm with hm | hm
    · exact hp.ret u y hu' hm
    · have hyx := Event.ret.inj (List.mem_singleton.mp hm)
      exact hut (hp.apart u t y hu' (hyx ▸ hx))

lemma run_open (hr : Run h) : Open h := by
  induction hr with
  | refl => exact ⟨nofun, nofun⟩
  | tail hr hs ih => exact step_open (run_ordered hr) ih hs

/-- A part of a list that has the second of a pair has the first before it. -/
lemma pair_sublist_left {α : Type*} {l l' : List α} {a b : α} (hn : (l ++ l').Nodup)
    (h : [a, b].Sublist (l ++ l')) (hb : b ∈ l) : [a, b].Sublist l := by
  induction l' using List.reverseRecOn with
  | nil => rwa [List.append_nil] at h
  | append_singleton l' c ih =>
    rw [← List.append_assoc] at h hn
    rcases pair_sublist_snoc.mp h with h | ⟨-, rfl⟩
    · exact ih (List.nodup_append.mp hn).1 h
    · exact absurd rfl ((List.nodup_append.mp hn).2.2 b (List.mem_append_left _ hb) b
        (List.mem_singleton_self b))

/-- **First in, first out.** -/
theorem run_fifo (hr : Run h) {a b : ι} (hab : [Event.ret a, Event.call b].Sublist h.log)
    (hb : .take b ∈ h.log) : [Event.take a, Event.take b].Sublist h.log := by
  have ho := run_ordered hr
  have hb' := mem_takes.mpr hb
  exact sublist_takes (pair_sublist_left ho.nodup
    (ho.order a b hab (List.mem_append_left _ hb')) hb')

/-! ### Count -/

variable [Fintype τ]

/-- The insertions that have put their item in and not returned. -/
def Hist.returning (h : Hist τ ι) : ℕ := ∑ t, if (h.placed t).isSome then 1 else 0

/-- **What went in and did not come out is there.** -/
theorem run_count (hr : Run h) :
    (takes h.log).length + h.contents.length = (rets h.log).length + h.returning := by
  induction hr with
  | refl => simp [Hist.empty, takes, rets, Hist.returning]
  | @tail h h' _ hs ih =>
    have hsum : ∀ t o, ∃ n, h.returning = n + (if (h.placed t).isSome then 1 else 0) ∧
        ∑ u, (if (Function.update h.placed t o u).isSome then 1 else 0) = n + if o.isSome then 1 else 0 := by
      intro t o
      obtain ⟨n, h1, h2⟩ := Runs.sum_split (fun o : Option ι => if o.isSome then 1 else 0) h.placed t
      exact ⟨n, h1, h2 o⟩
    have hlog : ∀ e : Event ι, (takes (h.log ++ [e])).length = (takes h.log).length + (takes [e]).length ∧
        (rets (h.log ++ [e])).length = (rets h.log).length + (rets [e]).length :=
      fun e => ⟨by rw [takes_append, List.length_append], by rw [rets_append, List.length_append]⟩
    cases hs with
    | call t x =>
      rw [(hlog _).1, (hlog _).2]
      exact ih
    | put t x hx hp =>
      obtain ⟨n, h1, h2⟩ := hsum t (some x)
      rw [hp] at h1
      simp only [Hist.returning, h2, List.length_append, List.length_singleton] at h1 ih ⊢
      simp only [Option.isSome_none, Option.isSome_some, Bool.false_eq_true, if_false, if_true] at h1 ⊢
      omega
    | ret t x hx =>
      obtain ⟨n, h1, h2⟩ := hsum t none
      rw [hx] at h1
      rw [(hlog _).1, (hlog _).2]
      simp only [Hist.returning, h2] at h1 ih ⊢
      simp only [Option.isSome_none, Option.isSome_some, Bool.false_eq_true, if_false, if_true, takes, rets,
        List.filterMap_cons, List.filterMap_nil, List.length_singleton, List.length_nil] at h1 ih ⊢
      omega
    | take x rest hx =>
      rw [(hlog _).1, (hlog _).2]
      rw [hx, List.length_cons] at ih
      change _ + 1 + rest.length = _ + 0 + h.returning
      omega
    | miss =>
      rw [(hlog _).1, (hlog _).2]
      exact ih

/-! ### What is in the queue and not counted -/

/-- Insertion `t` has put its item in before one whose own has returned and that is still there. -/
def Hist.Ahead (h : Hist τ ι) (t : τ) : Prop :=
  ∃ y x, h.placed t = some y ∧ .ret x ∈ h.log ∧ x ∈ h.contents ∧ [y, x].Sublist h.entered

omit [DecidableEq τ] in
/-- The insertions that have put their item in and not returned: those of `Ahead`, and no more than
there are items behind one whose insertion has returned. -/
lemma returning_le (ho : Ordered h) (hp : Open h) {x : ι} {l₁ l₂ : List ι} (hx : .ret x ∈ h.log)
    (hc : h.contents = l₁ ++ x :: l₂) [DecidablePred h.Ahead] :
    h.returning ≤ (Finset.univ.filter h.Ahead).card + l₂.length := by
  classical
  -- the insertion of an item that is not behind `x` is one of `Ahead`
  have hbehind : ∀ t y, h.placed t = some y → h.Ahead t ∨ y ∈ l₂ := by
    intro t y hy
    have hent := ho.placed t y hy
    have hxc : x ∈ h.contents := by
      rw [hc]
      exact List.mem_append_right _ List.mem_cons_self
    have hsplit : h.entered = (takes h.log ++ l₁) ++ x :: l₂ := by
      rw [Hist.entered, hc, List.append_assoc]
    rw [hsplit] at hent
    rcases List.mem_append.mp hent with hm | hm
    · refine .inl ⟨y, x, hy, hx, hxc, ?_⟩
      rw [hsplit]
      exact (List.singleton_sublist.mpr hm).append (List.singleton_sublist.mpr List.mem_cons_self)
    · rcases List.mem_cons.mp hm with rfl | hm
      · exact absurd hx (hp.ret t y hy)
      · exact .inr hm
  have hret : h.returning = (Finset.univ.filter fun t => (h.placed t).isSome).card := by
    rw [Hist.returning, Finset.card_filter]
  rw [hret]
  have hsub : (Finset.univ.filter fun t => (h.placed t).isSome) ⊆
      Finset.univ.filter h.Ahead ∪ Finset.univ.filter fun t => ∃ y ∈ l₂, h.placed t = some y := by
    intro t ht
    obtain ⟨y, hy⟩ := Option.isSome_iff_exists.mp (Finset.mem_filter.mp ht).2
    rw [Finset.mem_union, Finset.mem_filter, Finset.mem_filter]
    exact (hbehind t y hy).imp (fun ha => ⟨Finset.mem_univ t, ha⟩) fun hm => ⟨Finset.mem_univ t, y, hm, hy⟩
  have hcard : (Finset.univ.filter fun t => ∃ y ∈ l₂, h.placed t = some y).card ≤ l₂.toFinset.card := by
    refine Finset.card_le_card_of_injOn (fun t => (h.placed t).getD x) (fun t ht => ?_) fun t ht u hu he => ?_
    · obtain ⟨-, y, hm, hy⟩ := Finset.mem_filter.mp ht
      simp only [hy, Option.getD_some, Finset.mem_coe, List.mem_toFinset]
      exact hm
    · obtain ⟨-, y, -, hy⟩ := Finset.mem_filter.mp ht
      obtain ⟨-, z, -, hz⟩ := Finset.mem_filter.mp hu
      simp only [hy, hz, Option.getD_some] at he
      exact hp.apart t u y hy (he ▸ hz)
  calc (Finset.univ.filter fun t => (h.placed t).isSome).card
      ≤ _ := Finset.card_le_card hsub
    _ ≤ _ := Finset.card_union_le _ _
    _ ≤ (Finset.univ.filter h.Ahead).card + l₂.length :=
      Nat.add_le_add_left (hcard.trans l₂.toFinset_card_le) _

end LoginServerChat.FifoHistory
